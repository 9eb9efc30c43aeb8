import DnsServer.Answering.Exchange
import DnsServer.Resolution.Agreement
import DnsServer.Store.Respelling

/-!
# Letter case in queries and in stored domains

Names are compared byte by byte, in the store as in the keys that are looked up.
So a query is answered for the spelling it has: two queries that differ in the case
of letters inside question labels are answered alike from every store exactly when
their names and types are the same bytes. And a record is found under the spelling
it was stored with: an `ADD` of two spellings of a domain is told apart by exactly
those queries that try the key of one of them.

Apart from the lookups nothing depends on letter case: two respelled queries get the
same header and the same answers when their lookups find the same values, and two
runs of the server that differ in the spelling of stored domains answer a query
alike when it tries no key of such a domain in either spelling
(`answers_of_spellings`).
-/

set_option autoImplicit false

namespace DnsServer

open Libc Wire

/-! ## Respelled questions -/

/-- The same bytes, except for the letter case of bytes inside labels. -/
inductive RespelledLabels : List UInt8 → List UInt8 → Prop
  | rest (bytes : List UInt8) : RespelledLabels bytes bytes
  | label {len : UInt8} {label other more others : List UInt8} (nonzero : len ≠ 0)
      (length : label.length = len.toNat) (spelled : sameIgnoringCase label other)
      (behind : RespelledLabels more others) :
      RespelledLabels (len :: (label ++ more)) (len :: (other ++ others))

/-- Datagrams that are identical except for the letter case of bytes inside
question labels. -/
structure RespelledQuery (first second : List UInt8) : Prop where
  header : first.take 12 = second.take 12
  question : RespelledLabels (first.drop 12) (second.drop 12)

namespace RespelledLabels

variable {first second : List UInt8}

theorem lower (respelled : RespelledLabels first second) :
    first.map toLower = second.map toLower := by
  induction respelled with
  | rest => rfl
  | label _ _ spelled _ ih =>
      simp only [sameIgnoringCase, beq_iff_eq] at spelled
      simp only [List.map_cons, List.map_append, spelled, ih]

theorem length_eq (respelled : RespelledLabels first second) : first.length = second.length := by
  simpa using congrArg List.length respelled.lower

theorem head_eq (respelled : RespelledLabels first second) : first.head? = second.head? := by
  cases respelled <;> rfl

/-- Behind a whole label the bytes are respelled again. -/
theorem drop_label {len : UInt8} {more others : List UInt8}
    (respelled : RespelledLabels (len :: more) (len :: others)) :
    RespelledLabels (more.drop len.toNat) (others.drop len.toNat) := by
  generalize one : len :: more = bytes at respelled
  generalize two : len :: others = otherBytes at respelled
  cases respelled with
  | rest =>
      cases one.trans two.symm
      exact .rest _
  | label _ length spelled behind =>
      cases one
      cases two
      rw [List.drop_left' length, List.drop_left' ((length_eq_of_sameIgnoringCase spelled).symm.trans
        length)]
      exact behind

end RespelledLabels

/-! ## Parsing respelled questions -/

theorem drop_of_getElem? {buffer : List UInt8} {i : Nat} {byte : UInt8}
    (there : buffer[i]? = some byte) : buffer.drop i = byte :: buffer.drop (i + 1) := by
  obtain ⟨inside, rfl⟩ := List.getElem?_eq_some_iff.mp there
  exact List.drop_eq_getElem_cons inside

section Loop

variable {domain_size : Nat} {first second : List UInt8}

/-- Behind the copied part of a label the bytes are respelled again, or `domain`
is full: a label that does not fit fills it. -/
theorem RespelledLabels.behind_copied {i : Nat} {len : UInt8} {domain copied : OutBuffer domain_size}
    (labels : RespelledLabels (first.drop i) (second.drop i))
    (there : first[i]? = some len) (otherThere : second[i]? = some len)
    (inside : i + 1 + len.toNat ≤ first.length)
    (bytes : copied.bytes = domain.bytes ++
      (first.drop (i + 1)).take (min len.toNat (domain_size - 2 - domain.length)) ++ [46]) :
    RespelledLabels (first.drop (i + 1 + min len.toNat (domain_size - 2 - domain.length)))
        (second.drop (i + 1 + min len.toNat (domain_size - 2 - domain.length))) ∨
      domain_size - 1 ≤ copied.length := by
  by_cases whole : len.toNat ≤ domain_size - 2 - domain.length
  · rw [Nat.min_eq_left whole, ← @List.drop_drop _ _ (i + 1), ← @List.drop_drop _ _ (i + 1)]
    rw [drop_of_getElem? there, drop_of_getElem? otherThere] at labels
    exact .inl labels.drop_label
  · right
    have length := congrArg List.length bytes
    simp only [List.length_append, List.length_take, List.length_drop, List.length_singleton] at length
    simp only [OutBuffer.length] at whole length ⊢
    omega

/-- **The label loop ignores letter case**: it goes as far in both datagrams, and
copies as many bytes. -/
theorem labelLoop_respelled (lengths : first.length = second.length) (rounds : Nat) :
    ∀ (i : Nat) (domain other : OutBuffer domain_size), domain.length = other.length →
      RespelledLabels (first.drop i) (second.drop i) ∨ domain_size - 1 ≤ domain.length →
      ∀ last written, labelLoop first domain_size rounds i domain = .ok (some (last, written)) →
        ∃ otherWritten : OutBuffer domain_size,
          labelLoop second domain_size rounds i other = .ok (some (last, otherWritten)) ∧
            written.length = otherWritten.length := by
  induction rounds with
  | zero =>
      intro i domain other _ _ last written run
      cases run
  | succ rounds ih =>
      intro i domain other same respelled last written run
      by_cases stop : first.length ≤ i ∨ first[i]? = some 0 ∨ domain_size - 1 ≤ domain.length
      · rw [labelLoop_stop stop] at run
        cases run
        refine ⟨other, labelLoop_stop ?_, same⟩
        rcases stop with past | zero | full
        · exact .inl (lengths ▸ past)
        · rcases respelled with respelled | full
          · rw [← List.head?_drop, ← respelled.head_eq, List.head?_drop]
            exact .inr (.inl zero)
          · exact .inr (.inr (same ▸ full))
        · exact .inr (.inr (same ▸ full))
      · simp only [not_or, not_le] at stop
        obtain ⟨here, nonzero, room⟩ := stop
        have labels := respelled.resolve_right (by omega)
        obtain ⟨len, there⟩ : ∃ len, first[i]? = some len :=
          ⟨first[i], List.getElem?_eq_getElem here⟩
        have otherThere : second[i]? = some len := by
          rw [← List.head?_drop, ← labels.head_eq, List.head?_drop, there]
        have lenNonzero : len ≠ 0 := by
          rintro rfl
          exact nonzero there
        obtain ⟨refused, accepted⟩ := labelLoop_round rounds domain there lenNonzero room
        obtain ⟨_, otherAccepted⟩ := labelLoop_round rounds other otherThere lenNonzero
          (same ▸ room)
        by_cases legal : 63 < len.toNat ∨ first.length < i + 1 + len.toNat
        · rw [refused legal] at run
          cases run
        · simp only [not_or, not_lt] at legal
          obtain ⟨copied, bytes, step⟩ := accepted legal.1 legal.2
          obtain ⟨otherCopied, otherBytes, otherStep⟩ := otherAccepted legal.1 (lengths ▸ legal.2)
          rw [step] at run
          rw [otherStep, ← same]
          rw [← same] at otherBytes
          have length := congrArg List.length bytes
          have otherLength := congrArg List.length otherBytes
          simp only [List.length_append, List.length_take, List.length_drop, List.length_singleton]
            at length otherLength
          have grown : copied.length = otherCopied.length := by
            simp only [OutBuffer.length] at same length otherLength ⊢
            omega
          exact ih _ copied otherCopied grown
            (labels.behind_copied there otherThere legal.2 bytes) last written run

end Loop

/-- Where an accepted datagram has its type, in terms of the label loop. -/
theorem parseDNSQuery_read {buffer : List UInt8} {last : Nat} {written : OutBuffer 256}
    {query : ParsedQuery} (large : 12 < buffer.length)
    (run : labelLoop buffer 256 (buffer.length + 1) 12 (OutBuffer.empty : OutBuffer 256) =
      .ok (some (last, written)))
    (parsed : parseDNSQuery buffer 256 16 = .ok (some query)) :
    query.query_len = last + 1 + 4 - 12 ∧ ∃ high low, buffer[last + 1]? = some high ∧
      buffer[last + 1 + 1]? = some low ∧ query.queryType = 256 * high.toNat + low.toNat := by
  rw [parseDNSQuery_exit large run] at parsed
  split at parsed
  · split at parsed
    · cases parsed
    · next inside =>
      have first : last + 1 < buffer.length := by omega
      have second : last + 1 + 1 < buffer.length := by omega
      have third : last + 1 + 2 < buffer.length := by omega
      have fourth : last + 1 + 2 + 1 < buffer.length := by omega
      simp only [readShort, readAt_of_getElem? (List.getElem?_eq_getElem first),
        readAt_of_getElem? (List.getElem?_eq_getElem second),
        readAt_of_getElem? (List.getElem?_eq_getElem third),
        readAt_of_getElem? (List.getElem?_eq_getElem fourth), Checked.ok_bind, Checked.pure_eq_ok,
        Except.ok.injEq, Option.some.injEq] at parsed
      subst parsed
      exact ⟨rfl, _, _, List.getElem?_eq_getElem first, List.getElem?_eq_getElem second, rfl⟩
  · cases parsed

/-- Two types are equal or were both read from letters. -/
def TypesAlike (query other : ParsedQuery) : Prop :=
  query.queryType = other.queryType ∨ (65 ≤ query.queryType ∧ 65 ≤ other.queryType)

namespace RespelledQuery

variable {first second : List UInt8}

theorem lower (respelled : RespelledQuery first second) :
    first.map toLower = second.map toLower := by
  rw [← List.take_append_drop 12 first, ← List.take_append_drop 12 second, List.map_append,
    List.map_append, respelled.header, respelled.question.lower]

theorem length_eq (respelled : RespelledQuery first second) : first.length = second.length := by
  simpa using congrArg List.length respelled.lower

/-- Bytes at one place are equal or letters. -/
theorem byte_cases (respelled : RespelledQuery first second) {i : Nat} {byte other : UInt8}
    (here : first[i]? = some byte) (there : second[i]? = some other) :
    byte = other ∨ (65 ≤ byte.toNat ∧ 65 ≤ other.toNat) := by
  have same := congrArg (·[i]?) respelled.lower
  simp only [List.getElem?_map, here, there, Option.map_some, Option.some.injEq] at same
  exact toLower_eq_cases same

/-- **Respelled queries are parsed alike**: their questions take the same bytes, and
their types are equal or were read from letters. -/
theorem parsed_alike (respelled : RespelledQuery first second) {query other : ParsedQuery}
    (parsed : parseDNSQuery first 256 16 = .ok (some query))
    (otherParsed : parseDNSQuery second 256 16 = .ok (some other)) :
    query.query_len = other.query_len ∧ TypesAlike query other := by
  have lengths := respelled.length_eq
  have large : 12 < first.length := by
    by_contra tiny
    rw [parseDNSQuery, parseDNSQueryInto, if_pos (by omega)] at parsed
    cases parsed
  rcases labelLoop_exit first (first.length + 1) 12 (OutBuffer.empty : OutBuffer 256)
    (by omega) (by omega) with refusal | ⟨last, written, run, _⟩
  · rw [parseDNSQuery, parseDNSQueryInto, if_neg (by omega), refusal] at parsed
    cases parsed
  obtain ⟨otherWritten, otherRun, _⟩ := labelLoop_respelled lengths (first.length + 1) 12
    OutBuffer.empty OutBuffer.empty rfl (.inl respelled.question) last written run
  rw [lengths] at otherRun
  obtain ⟨length, high, low, here, next, type⟩ := parseDNSQuery_read large run parsed
  obtain ⟨otherLength, otherHigh, otherLow, otherHere, otherNext, otherType⟩ :=
    parseDNSQuery_read (lengths ▸ large) otherRun otherParsed
  refine ⟨length.trans otherLength.symm, ?_⟩
  rw [TypesAlike, type, otherType]
  rcases respelled.byte_cases here otherHere with rfl | highs
  · rcases respelled.byte_cases next otherNext with rfl | lows
    · exact .inl rfl
    · right
      omega
  · right
    omega

end RespelledQuery

/-! ## Answering respelled queries -/

/-- Two responses say the same behind their headers and questions: the headers are
equal, and so are the answers, if there are any. -/
def SameAnswers (questionLength : Nat) (first second : List UInt8) : Prop :=
  ∃ header, decodeHeader first = some header ∧ decodeHeader second = some header ∧
    (header.ancount ≠ 0 → first.drop (12 + questionLength) = second.drop (12 + questionLength))

theorem decodeHeader_of_take {first second : List UInt8} {request : Wire.Header}
    (same : first.take 12 = second.take 12) (decoded : decodeHeader first = some request) :
    decodeHeader second = some request := by
  rw [← List.take_append_drop 12 second, ← same]
  unfold decodeHeader at decoded
  split at decoded
  · cases decoded
    rfl
  · cases decoded

theorem writtenAnswers_congr {env : Environment} {query other : ParsedQuery}
    (head : answerHead env query = answerHead env other) (data : List (Option RData)) :
    ∀ start, writtenAnswers env query data start = writtenAnswers env other data start := by
  induction data with
  | nil => exact fun _ => rfl
  | cons rdata data ih =>
      intro start
      cases rdata with
      | none => simp only [writtenAnswers, head, ih]
      | some rdata => simp only [writtenAnswers, answerBytes, head, ih]

theorem sameAnswers_replyBytes {request : Wire.Header} {buffer otherBuffer : List UInt8}
    {query other : ParsedQuery} {rcode ancount : Nat} {answers otherAnswers : List UInt8}
    (accepted : Accepted buffer query) (otherAccepted : Accepted otherBuffer other)
    (length : query.query_len = other.query_len)
    (same : ancount % 65536 ≠ 0 → answers = otherAnswers) :
    SameAnswers query.query_len (replyBytes request buffer query rcode ancount answers)
      (replyBytes request otherBuffer other rcode ancount otherAnswers) := by
  refine ⟨_, decodeHeader_replyBytes, decodeHeader_replyBytes, fun some_ => ?_⟩
  rw [accepted.drop_replyBytes, length, otherAccepted.drop_replyBytes]
  exact same some_

theorem answeredQtypes_lt {qtype : Nat} (member : qtype ∈ answeredQtypes) : qtype < 65 := by
  simp only [answeredQtypes, List.mem_cons, List.not_mem_nil, or_false] at member
  rcases member with rfl | rfl | rfl | rfl | rfl <;> decide

/-- A type that is answered was not read from letters. -/
theorem TypesAlike.same {query other : ParsedQuery} {first second : List UInt8}
    (types : TypesAlike query other) (accepted : Accepted first query)
    (otherAccepted : Accepted second other)
    (answered : query.typeString ∈ answeredTypes ∨ other.typeString ∈ answeredTypes) :
    query.queryType = other.queryType ∧ query.typeString = other.typeString := by
  rcases types with same | ⟨large, otherLarge⟩
  · exact ⟨same, by rw [accepted.typeString_eq, same, ← otherAccepted.typeString_eq]⟩
  · rw [accepted.typeString_eq, otherAccepted.typeString_eq, typeString_answered_iff,
      typeString_answered_iff] at answered
    rcases answered with member | member
    · have small := answeredQtypes_lt member
      omega
    · have small := answeredQtypes_lt member
      omega

/-- **Queries that differ in letter case** get the same header and the same answers
when their lookups find the same values. -/
theorem RespelledQuery.sameAnswers {first second : List UInt8} {query other : ParsedQuery}
    (respelled : RespelledQuery first second) (env : Environment) (store : Store)
    (parsed : parseDNSQuery first 256 16 = .ok (some query))
    (otherParsed : parseDNSQuery second 256 16 = .ok (some other))
    (values : (lookup store query.domain query.typeString).map DNSRecord.values =
      (lookup store other.domain other.typeString).map DNSRecord.values) :
    ∃ response otherResponse, processDnsQuery env store first = .ok (some response) ∧
      processDnsQuery env store second = .ok (some otherResponse) ∧
      SameAnswers query.query_len response otherResponse := by
  have accepted := parseDNSQuery_accepted parsed
  have otherAccepted := parseDNSQuery_accepted otherParsed
  obtain ⟨length, types⟩ := respelled.parsed_alike parsed otherParsed
  obtain ⟨request, decoded⟩ := accepted.decodeHeader
  have otherDecoded := decodeHeader_of_take respelled.header decoded
  cases found : lookup store query.domain query.typeString with
  | none =>
      rw [found, Option.map_none, eq_comm, Option.map_eq_none_iff] at values
      exact ⟨_, _, processDnsQuery_unresolved parsed decoded found,
        processDnsQuery_unresolved otherParsed otherDecoded values,
        sameAnswers_replyBytes accepted otherAccepted length fun _ => rfl⟩
  | some record =>
      rw [found, Option.map_some, eq_comm, Option.map_eq_some_iff] at values
      obtain ⟨otherRecord, otherFound, values⟩ := values
      have count : otherRecord.num_values = record.num_values := congrArg List.length values
      by_cases answered : query.typeString ∈ answeredTypes
      · obtain ⟨same, typeStrings⟩ := types.same accepted otherAccepted (.inl answered)
        have head : answerHead env query = answerHead env other := by
          simp only [answerHead, answerType, same, typeStrings]
        refine ⟨_, _, processDnsQuery_answered parsed decoded found answered,
          processDnsQuery_answered otherParsed otherDecoded otherFound (typeStrings ▸ answered), ?_⟩
        rw [count, values, ← typeStrings, ← length]
        exact sameAnswers_replyBytes accepted otherAccepted length fun _ =>
          writtenAnswers_congr head _ _
      · have otherUnanswered : other.typeString ∉ answeredTypes := fun member =>
          answered ((types.same accepted otherAccepted (.inr member)).2 ▸ member)
        refine ⟨_, _, processDnsQuery_other parsed decoded found answered,
          processDnsQuery_other otherParsed otherDecoded otherFound otherUnanswered, ?_⟩
        rw [values]
        split
        · exact sameAnswers_replyBytes accepted otherAccepted length fun _ => rfl
        · exact sameAnswers_replyBytes accepted otherAccepted length fun some_ => absurd rfl some_

/-! ## Names are matched byte by byte -/

/-- The store of a server that has loaded a file and made some steps. -/
def storeAfter (parse : CString → Option CJSON) (file : MappingsFile) (allocations : Allocations)
    (steps : List Step) : Store :=
  steps.foldl (Store.next parse) ((loadDNSMappings parse file KeyedTable.empty).under allocations).2

/-- The first load does what a `RELOAD` does. -/
theorem storeAfter_eq (parse : CString → Option CJSON) (file : MappingsFile)
    (allocations : Allocations) (steps : List Step) :
    storeAfter parse file allocations steps =
      ((.reload file, allocations) :: steps).foldl (Store.next parse) KeyedTable.empty := by
  rw [storeAfter, List.foldl_cons, Store.next, Command.execute_store, loadDNSMappings_eq,
    Alloc.under_map]
  rfl

/-- Both datagrams are answered, with the same header and the same answers. -/
def AnsweredAlike (env : Environment) (store : Store) (questionLength : Nat)
    (first second : List UInt8) : Prop :=
  ∃ response otherResponse, processDnsQuery env store first = .ok (some response) ∧
    processDnsQuery env store second = .ok (some otherResponse) ∧
    SameAnswers questionLength response otherResponse

/-- The store of a server without records after one `ADD`. -/
def addedStore (domain type scope value : CString) : Store :=
  (addSingleRecord KeyedTable.empty domain type scope value).result.2

theorem addedStore_single {type value text : CString} (texted : addedText type value = some text)
    (domain scope : CString) :
    addedStore domain type scope value =
      singleStore { domain, type, key := recordKey scope domain type, values := [text] } := by
  rw [addedStore, addSingleRecord_result, addedRecord, texted]
  rfl

/-- Queries that are answered alike both find a record or neither does. -/
theorem lookup_none_of_answeredAlike {env : Environment} {store : Store} {first second : Datagram}
    {query other : ParsedQuery} (parsed : parseDNSQuery first.bytes 256 16 = .ok (some query))
    (otherParsed : parseDNSQuery second.bytes 256 16 = .ok (some other)) {questionLength : Nat}
    (alike : AnsweredAlike env store questionLength first.bytes second.bytes) :
    lookup store query.domain query.typeString = none ↔
      lookup store other.domain other.typeString = none := by
  obtain ⟨response, otherResponse, sent, otherSent, header, decoded, otherDecoded, _⟩ := alike
  obtain ⟨_, _, sent', decoded', code⟩ := processDnsQuery_rcode env store first query parsed
  obtain ⟨_, _, otherSent', otherDecoded', otherCode⟩ :=
    processDnsQuery_rcode env store second other otherParsed
  cases sent.symm.trans sent'
  cases otherSent.symm.trans otherSent'
  cases decoded.symm.trans decoded'
  cases otherDecoded.symm.trans otherDecoded'
  rw [← code, ← otherCode]

/-- The key of a base record is tried for its own name and type only. -/
theorem baseKey_tried_iff {buffer other : List UInt8} {query otherQuery : ParsedQuery}
    (accepted : Accepted buffer query) (otherAccepted : Accepted other otherQuery) :
    recordKey (cstr "base") query.domain query.typeString ∈
        lookupKeys otherQuery.domain otherQuery.typeString ↔
      query.domain = otherQuery.domain ∧ query.typeString = otherQuery.typeString := by
  constructor
  · intro tried
    have noUnderscore : 95 ∉ cstr "base" := by decide
    rw [lookupKeys, List.mem_cons, List.mem_cons, List.mem_map] at tried
    rcases tried with key | key | ⟨_, _, key⟩
    · have same := @Triple.key_injective ⟨cstr "base", query.domain, query.typeString⟩
        ⟨cstr "base", otherQuery.domain, otherQuery.typeString⟩ noUnderscore noUnderscore
        accepted.typeString_clean otherAccepted.typeString_clean key
      simp only [Triple.mk.injEq] at same
      exact same.2
    · cases key
    · cases key
  · rintro ⟨domain, type⟩
    rw [domain, type, lookupKeys]
    exact List.mem_cons_self

/-- **Respelled queries are answered alike from every reachable store** exactly when
their names and types are equal byte for byte. -/
theorem RespelledQuery.answeredAlike_iff {first second : Datagram} {query other : ParsedQuery}
    (respelled : RespelledQuery first.bytes second.bytes) (env : Environment)
    (parsed : parseDNSQuery first.bytes 256 16 = .ok (some query))
    (otherParsed : parseDNSQuery second.bytes 256 16 = .ok (some other)) :
    (∀ (parse : CString → Option CJSON) (store : Store), Reachable parse store →
        AnsweredAlike env store query.query_len first.bytes second.bytes) ↔
      query.domain = other.domain ∧ query.typeString = other.typeString := by
  constructor
  · intro alike
    obtain ⟨text, texted⟩ : ∃ text, addedText query.typeString (cstr "1 a") = some text := by
      rw [addedText]
      split
      · exact ⟨_, (by decide : _ = some (cstr "1 a"))⟩
      · exact ⟨_, rfl⟩
    have both := lookup_none_of_answeredAlike parsed otherParsed
      (alike _ _ (reachable_empty.added query.domain query.typeString (cstr "base") (cstr "1 a")))
    have single := addedStore_single texted query.domain (cstr "base")
    rw [addedStore] at single
    rw [single, lookup_singleStore, lookup_singleStore] at both
    have own : recordKey (cstr "base") query.domain query.typeString ∈
        lookupKeys query.domain query.typeString := List.mem_cons_self
    simp only [own, if_true, reduceCtorEq, false_iff] at both
    refine (baseKey_tried_iff (parseDNSQuery_accepted parsed)
      (parseDNSQuery_accepted otherParsed)).mp ?_
    by_contra untried
    exact both (if_neg untried)
  · rintro ⟨domain, type⟩ parse store _
    exact respelled.sameAnswers env store parsed otherParsed (by rw [domain, type])

/-- **An `ADD` of two spellings is told apart** by the queries that try the key of one
of them. -/
theorem respelled_add_iff {domain other type scope value : CString} {datagram : Datagram}
    {query : ParsedQuery} (env : Environment) (spelled : sameIgnoringCase domain other)
    (accepted : addedText type value ≠ none)
    (parsed : parseDNSQuery datagram.bytes 256 16 = .ok (some query)) :
    processDnsQuery env (addedStore domain type scope value) datagram.bytes =
        processDnsQuery env (addedStore other type scope value) datagram.bytes ↔
      domain = other ∨
        (recordKey scope domain type ∉ lookupKeys query.domain query.typeString ∧
          recordKey scope other type ∉ lookupKeys query.domain query.typeString) := by
  obtain ⟨text, texted⟩ := Option.ne_none_iff_exists'.mp accepted
  rw [addedStore_single texted, addedStore_single texted]
  constructor
  · intro alike
    have both := lookup_none_of_alike parsed alike
    rw [lookup_singleStore, lookup_singleStore] at both
    have tried : recordKey scope domain type ∈ lookupKeys query.domain query.typeString ↔
        recordKey scope other type ∈ lookupKeys query.domain query.typeString := by
      simpa [not_iff_not] using both
    by_cases here : recordKey scope domain type ∈ lookupKeys query.domain query.typeString
    · have head : (recordKey scope domain type).head? = (recordKey scope other type).head? := by
        cases scope <;> rfl
      have length : (recordKey scope domain type).length = (recordKey scope other type).length := by
        simp only [recordKey, List.length_append, length_eq_of_sameIgnoringCase spelled]
      have same := lookupKeys_told_apart here (tried.mp here) head length
      simp only [recordKey, List.append_assoc, List.append_cancel_left_eq] at same
      exact .inl (List.append_cancel_right same)
    · exact .inr ⟨here, mt tried.mpr here⟩
  · rintro (rfl | ⟨untried, untriedOther⟩)
    · rfl
    · refine processDnsQuery_congr parsed ?_
      rw [lookup_singleStore, lookup_singleStore, if_neg untried, if_neg untriedOther]

/-- **Names are matched byte by byte**, and apart from that letter case plays no part.
Two queries that differ in letter case are answered alike from every reachable store
exactly when their names and types are equal, and from one store when their lookups
find the same values. A query tells two spellings of the domain of an `ADD` apart
exactly when it tries the key of one of them. Two servers whose files and commands
differ in the letter case of stored domains answer alike every query that tries no key
of such a domain in either spelling. -/
theorem answers_of_spellings (parse : CString → Option CJSON) (env : Environment) :
    (∀ (first second : Datagram) (query other : ParsedQuery),
      RespelledQuery first.bytes second.bytes →
      parseDNSQuery first.bytes 256 16 = .ok (some query) →
      parseDNSQuery second.bytes 256 16 = .ok (some other) →
      ((∀ (parse : CString → Option CJSON) (store : Store), Reachable parse store →
          AnsweredAlike env store query.query_len first.bytes second.bytes) ↔
        query.domain = other.domain ∧ query.typeString = other.typeString) ∧
      ∀ store : Store, (lookup store query.domain query.typeString).map DNSRecord.values =
          (lookup store other.domain other.typeString).map DNSRecord.values →
        AnsweredAlike env store query.query_len first.bytes second.bytes) ∧
    (∀ (domain other type scope value : CString) (datagram : Datagram) (query : ParsedQuery),
      sameIgnoringCase domain other → addedText type value ≠ none →
      parseDNSQuery datagram.bytes 256 16 = .ok (some query) →
      (processDnsQuery env (addedStore domain type scope value) datagram.bytes =
          processDnsQuery env (addedStore other type scope value) datagram.bytes ↔
        domain = other ∨
          (recordKey scope domain type ∉ lookupKeys query.domain query.typeString ∧
            recordKey scope other type ∉ lookupKeys query.domain query.typeString))) ∧
    (∀ (file otherFile : MappingsFile) (allocations : Allocations) (steps others : List Step)
      (buffer : List UInt8) (query : ParsedQuery),
      parseDNSQuery buffer 256 16 = .ok (some query) →
      Command.Respelled parse (· ∈ lookupKeys query.domain query.typeString)
        (.reload file) (.reload otherFile) →
      List.Forall₂ (RespelledStep parse (· ∈ lookupKeys query.domain query.typeString))
        steps others →
      processDnsQuery env (storeAfter parse file allocations steps) buffer =
        processDnsQuery env (storeAfter parse otherFile allocations others) buffer) := by
  refine ⟨?_, ?_, ?_⟩
  · intro first second query other respelled parsed otherParsed
    exact ⟨respelled.answeredAlike_iff env parsed otherParsed,
      fun store values => respelled.sameAnswers env store parsed otherParsed values⟩
  · intro domain other type scope value datagram query spelled accepted parsed
    exact respelled_add_iff env spelled accepted parsed
  · intro file otherFile allocations steps others buffer query parsed files spelled
    rw [storeAfter_eq, storeAfter_eq]
    have loaded : RespelledStep parse (· ∈ lookupKeys query.domain query.typeString)
      (.reload file, allocations) (.reload otherFile, allocations) := ⟨files, rfl⟩
    have alike := Store.Alike.run (.cons loaded spelled) (.refl KeyedTable.empty)
    exact processDnsQuery_congr parsed alike.lookup

/-- The query for the address of a one-letter name, in upper case. -/
def upperAddressQuery : Datagram where
  bytes := queryBytes [cstr "A"] DNS_TYPE_A
  large_enough := by decide
  fits := by decide

theorem respelled_addressQuery :
    RespelledQuery addressQuery.bytes upperAddressQuery.bytes :=
  ⟨by decide, @RespelledLabels.label 1 (cstr "a") (cstr "A") _ _ (by decide) (by decide)
    (by decide) (.rest _)⟩

theorem parsed_upperAddressQuery : parseDNSQuery upperAddressQuery.bytes 256 16 =
    .ok (some (parsedQuestion [cstr "A"] DNS_TYPE_A)) :=
  parseDNSQuery_of_question
    (questionAt_queryBytes (by decide) (by decide) (by decide) (by decide))

/-- The two spellings of the query are not answered alike from every store, a server
without records answers both alike, and its answer does not depend on how another domain
is spelled in an `ADD`, be it the only one or one of many steps. -/
theorem answers_of_spellings_address :
    ¬ (∀ (parse : CString → Option CJSON) (store : Store), Reachable parse store →
      AnsweredAlike oneAddressEnvironment store 7 addressQuery.bytes upperAddressQuery.bytes) ∧
    AnsweredAlike oneAddressEnvironment KeyedTable.empty 7 addressQuery.bytes
      upperAddressQuery.bytes ∧
    processDnsQuery oneAddressEnvironment
        (addedStore (cstr "b") (cstr "A") (cstr "base") (cstr "192.0.2.1")) addressQuery.bytes =
      processDnsQuery oneAddressEnvironment
        (addedStore (cstr "B") (cstr "A") (cstr "base") (cstr "192.0.2.1")) addressQuery.bytes ∧
    processDnsQuery oneAddressEnvironment (storeAfter (fun _ => none) .missing []
        [(.add (cstr "b") (cstr "A") (cstr "base") (cstr "192.0.2.1"), [])]) addressQuery.bytes =
      processDnsQuery oneAddressEnvironment (storeAfter (fun _ => none) .missing []
        [(.add (cstr "B") (cstr "A") (cstr "base") (cstr "192.0.2.1"), [])]) addressQuery.bytes := by
  have parsed := parseDNSQuery_of_question questionAt_addressQuery
  obtain ⟨queries, adds, runs⟩ := answers_of_spellings (fun _ => none) oneAddressEnvironment
  obtain ⟨every, each⟩ := queries addressQuery upperAddressQuery _ _ respelled_addressQuery parsed
    parsed_upperAddressQuery
  refine ⟨fun all => absurd (every.mp all).1 (by decide), each KeyedTable.empty (by decide +kernel),
    (adds _ _ _ _ _ addressQuery _ (by decide) (by decide) parsed).mpr (.inr ?_), ?_⟩
  · exact ⟨by decide +kernel, by decide +kernel⟩
  · exact runs _ _ _ _ _ _ _ parsed (.same _)
      (.cons ⟨.add _ _ _ (by decide) (by decide +kernel) (by decide +kernel), rfl⟩ .nil)

/-- A stored address is found under the spelling it was stored with only. -/
theorem not_same_rcode_of_upper_case :
    ¬ ∀ (parse : CString → Option CJSON) (env : Environment) (store : Store)
      (first second : Datagram) (query other : ParsedQuery)
      (response otherResponse : List UInt8) (header otherHeader : Wire.Header),
      Reachable parse store → RespelledQuery first.bytes second.bytes →
      parseDNSQuery first.bytes 256 16 = .ok (some query) →
      parseDNSQuery second.bytes 256 16 = .ok (some other) →
      processDnsQuery env store first.bytes = .ok (some response) →
      processDnsQuery env store second.bytes = .ok (some otherResponse) →
      decodeHeader response = some header → decodeHeader otherResponse = some otherHeader →
      header.rcode = otherHeader.rcode := by
  intro all
  have parsed := parseDNSQuery_of_question questionAt_addressQuery
  obtain ⟨response, header, sent, decoded, code⟩ := processDnsQuery_rcode oneAddressEnvironment
    (addSingleRecord KeyedTable.empty (cstr "a") (cstr "A") (cstr "base")
      (cstr "192.0.2.1")).result.2 addressQuery _ parsed
  obtain ⟨otherResponse, otherHeader, otherSent, otherDecoded, otherCode⟩ :=
    processDnsQuery_rcode oneAddressEnvironment
      (addSingleRecord KeyedTable.empty (cstr "a") (cstr "A") (cstr "base")
        (cstr "192.0.2.1")).result.2 upperAddressQuery _ parsed_upperAddressQuery
  have same := all _ oneAddressEnvironment _ addressQuery upperAddressQuery _ _ _ _ _ _
    (reachable_empty.added _ _ _ _) respelled_addressQuery parsed parsed_upperAddressQuery
    sent otherSent decoded otherDecoded
  have missing := otherCode.mpr (by decide +kernel)
  rw [← same] at missing
  exact absurd (code.mp missing) (by decide +kernel)

end DnsServer
