import DnsServer.Answering.Delivery
import DnsServer.Answering.MailExchange

/-!
# Reading back what was added

A value that is valid for its type stands for the data of an answer (`Stands`).
After an `ADD` of the value that returned `0`, and until a later command touches
the record, a query for the domain and the type should be answered with that
data alone (`ReadsBack`).

The key of the record contains the type as it was spelled, and a query is looked
up under the upper-case name of its type. So the value is read back exactly when
the type is spelled in upper case and is one whose values are converted, when the
text of an `MX` fits its buffer, and when no allocation failed
(`readsBack_iff`).
-/

set_option autoImplicit false

namespace DnsServer

open Libc Wire

/-! ## What a value stands for -/

/-- The documented types with their numbers. -/
def documentedTypes : List (CString × Nat) :=
  [(cstr "A", DNS_TYPE_A), (cstr "AAAA", DNS_TYPE_AAAA), (cstr "CNAME", DNS_TYPE_CNAME),
    (cstr "MX", DNS_TYPE_MX), (cstr "NS", DNS_TYPE_NS), (cstr "TXT", DNS_TYPE_TXT),
    (cstr "SRV", DNS_TYPE_SRV)]

/-- A documented type, in upper case or in the lower case of the documented
commands. -/
def Documented (t : CString) (number : Nat) : Prop :=
  ∃ name, (name, number) ∈ documentedTypes ∧ (t = name ∨ t = name.map toLower)

/-- The data a valid value stands for in an answer with the number of a type. -/
inductive Stands (env : Environment) : Nat → CString → RData → Prop where
  | a {value : CString} {addr : Vector UInt8 4} (read : env.inet_aton value = some addr) :
      Stands env DNS_TYPE_A value (.address addr.toList)
  | aaaa {value : CString} {addr : Vector UInt8 16} (read : env.inet_pton value = some addr) :
      Stands env DNS_TYPE_AAAA value (.address addr.toList)
  | cname {value : CString} (encodable : Encodable 256 value) :
      Stands env DNS_TYPE_CNAME value (.domain (splitDots value))
  | ns {value : CString} (encodable : Encodable 256 value) :
      Stands env DNS_TYPE_NS value (.domain (splitDots value))
  | mx {digits blanks exchange : CString} (nonempty : digits ≠ [])
      (digit : ∀ c ∈ digits, isDigit c) (small : numeral digits < 2 ^ 16) (apart : blanks ≠ [])
      (space : ∀ c ∈ blanks, isSpace c) (encodable : Encodable 256 exchange)
      (clean : ∀ c ∈ exchange, isSpace c = false) :
      Stands env DNS_TYPE_MX (digits ++ (blanks ++ exchange))
        (.exchange (numeral digits) (splitDots exchange))
  | txt {value : CString} (short : value.length ≤ 255) :
      Stands env DNS_TYPE_TXT value (.raw (UInt8.ofNat value.length :: value))
  | srv {priority weight port : Nat} {target : CString} (prioritySmall : priority < 2 ^ 16)
      (weightSmall : weight < 2 ^ 16) (portSmall : port < 2 ^ 16)
      (encodable : Encodable 256 target) (clean : ∀ c ∈ target, isSpace c = false) :
      Stands env DNS_TYPE_SRV
        (decimalNat priority ++ cstr " " ++ decimalNat weight ++ cstr " " ++ decimalNat port ++
          cstr " " ++ target)
        (.raw (encodeWord priority ++ encodeWord weight ++ encodeWord port ++
          (splitDots target).encode))

/-! ## Reading back -/

/-- A query of class `IN` for a domain and the number of a type. -/
def AsksFor (buffer : List UInt8) (d : CString) (number : Nat) : Prop :=
  ∃ rest, buffer.drop 12 = (splitDots d).encode ++ (htons number ++ htons 1 ++ rest)

/-- Behind a question of the given length the response has exactly one answer,
with the data. -/
def CarriesOne (env : Environment) (number length : Nat) (rdata : RData)
    (response : List UInt8) : Prop :=
  ∃ header, decodeHeader response = some header ∧ header.rcode = 0 ∧ header.ancount = 1 ∧
    response.drop (12 + length) =
      encodeCompressed number 1 (env.default_ttl.toNat / 65536) (env.default_ttl.toNat % 65536) rdata

/-- In every reachable store, after an `ADD` that returned `0` and steps that do
not touch its record, the data is the answer to every query for it. -/
def ReadsBack (env : Environment) (d t v : CString) (number : Nat) (rdata : RData)
    (allocations : Allocations) : Prop :=
  ∀ (parse : CString → Option CJSON) (store stored : Store), Reachable parse store →
    (addSingleRecord store d t (cstr "base") v).under allocations = (0, stored) →
    ∀ later : List Step, (∀ step ∈ later, ¬ step.1.touches (recordKey (cstr "base") d t)) →
    ∀ datagram : Datagram, AsksFor datagram.bytes d number →
      ∃ response, processDnsQuery env (later.foldl (Store.next parse) stored) datagram.bytes =
        .ok (some response) ∧ CarriesOne env number ((splitDots d).octets + 4) rdata response

/-- The text of the data fits the buffer of an `MX`. -/
def FitsText (rdata : RData) : Prop :=
  ∀ preference name, rdata = .exchange preference name →
    (decimalNat preference).length + name.octets ≤ 256

/-- The type is spelled as queries spell it and is converted, the text of an `MX`
fits, and all memory is allocated. -/
def Readable (t : CString) (rdata : RData) (allocations : Allocations) : Prop :=
  t ∈ answeredTypes ∧ FitsText rdata ∧ false ∉ allocations.take (addAllocations t)

/-! ## The stored text -/

section Text

variable {env : Environment} {d t v : CString} {number : Nat} {rdata : RData}

theorem Documented.number_of_mx (documented : Documented t number) (isMX : t = cstr "MX") :
    number = DNS_TYPE_MX := by
  have each : ∀ entry ∈ documentedTypes,
      cstr "MX" = entry.1 ∨ cstr "MX" = entry.1.map toLower → entry.2 = DNS_TYPE_MX := by decide
  obtain ⟨name, member, spelled⟩ := documented
  subst isMX
  exact each _ member spelled

/-- A query spells its type in upper case. -/
theorem Documented.spelling (documented : Documented t number) :
    number < 2 ^ 16 ∧ snprintf 16 (typeName number) = typeName number ∧
      (t ∈ answeredTypes → t = typeName number) := by
  have each : ∀ entry ∈ documentedTypes, entry.2 < 2 ^ 16 ∧
      snprintf 16 (typeName entry.2) = typeName entry.2 ∧ entry.1 = typeName entry.2 ∧
        entry.1.map toLower ∉ answeredTypes := by decide
  obtain ⟨name, member, spelled⟩ := documented
  obtain ⟨small, printed, upper, lower⟩ := each _ member
  refine ⟨small, printed, fun answered => ?_⟩
  rcases spelled with rfl | rfl
  · exact upper
  · exact absurd answered lower

/-- The type of an answer is the type of the question. -/
theorem Documented.answerType (documented : Documented t number) (name : Name) :
    answerType (parsedQuestion name number) = number := by
  obtain ⟨other, member, _⟩ := documented
  simp only [documentedTypes, List.mem_cons, List.not_mem_nil, or_false, Prod.mk.injEq] at member
  rcases member with ⟨rfl, rfl⟩ | ⟨rfl, rfl⟩ | ⟨rfl, rfl⟩ | ⟨rfl, rfl⟩ | ⟨rfl, rfl⟩ | ⟨rfl, rfl⟩ |
    ⟨rfl, rfl⟩ <;> rfl

theorem toInt_false {n : Nat} (small : n < 2 ^ 16) : toInt false n = n :=
  toInt_of_small (Int.natCast_nonneg n) (by omega)

theorem decimal_natCast (n : Nat) : decimal n = decimalNat n := rfl

theorem decimalNat_short {n : Nat} (small : n < 2 ^ 16) : (decimal n).length ≤ 11 :=
  length_decimal_le (by omega) (by omega)

/-- A valid value of an `MX` is scanned as its priority and its exchange. -/
theorem scanPriority_mx {digits blanks exchange : CString} (nonempty : digits ≠ [])
    (digit : ∀ c ∈ digits, isDigit c) (small : numeral digits < 2 ^ 16) (apart : blanks ≠ [])
    (space : ∀ c ∈ blanks, isSpace c) (encodable : Encodable 256 exchange)
    (clean : ∀ c ∈ exchange, isSpace c = false) :
    scanPriority (digits ++ (blanks ++ exchange)) = some ((numeral digits : Int), exchange) := by
  have stop : ∀ c ∈ (blanks ++ exchange).head?, isDigit c = false := by
    intro c member
    cases blanks with
    | nil => exact absurd rfl apart
    | cons blank blanks =>
        rw [List.cons_append, List.head?_cons, Option.mem_some_iff] at member
        subst member
        by_contra isDigit_
        have visible := isDigit_range (Bool.of_not_eq_false isDigit_)
        have blank_ := space blank List.mem_cons_self
        rw [isSpace_eq_false (by omega)] at blank_
        cases blank_
  have word := @scanWord_word 255 blanks exchange [] (by decide) (ne_nil_of_encodable encodable)
    space clean (by simp)
  have short := encodable.2
  rw [List.append_nil, List.take_of_length_le (by omega)] at word
  rw [scanPriority, scanInt, scanNumber_digits nonempty digit stop]
  simp only [Option.map_some, Option.bind_eq_bind, Option.bind_some, word, toInt_false small]
  rfl

/-- What `ADD` stores for a valid value. -/
theorem Stands.addedText_eq (stands : Stands env number v rdata) (documented : Documented t number) :
    (t ≠ cstr "MX" ∧ addedText t v = some v) ∨
      ∃ (p : Nat) (exchange : CString), t = cstr "MX" ∧ p < 2 ^ 16 ∧
        rdata = .exchange p (splitDots exchange) ∧ Encodable 256 exchange ∧
        (∀ c ∈ exchange, isSpace c = false) ∧
        addedText t v = some (decimal p ++ cstr " " ++ exchange.take (254 - (decimal p).length)) := by
  by_cases isMX : t = cstr "MX"
  · right
    obtain rfl := documented.number_of_mx isMX
    generalize mx : DNS_TYPE_MX = number at stands
    cases stands with
    | mx nonempty digit small apart space encodable clean =>
        refine ⟨_, _, isMX, small, rfl, encodable, clean, ?_⟩
        rw [addedText, if_pos isMX,
          scanPriority_mx nonempty digit small apart space encodable clean, Option.map_some]
        exact congrArg some (snprintf_pair (decimalNat_short small) _)
    | a read => cases mx
    | aaaa read => cases mx
    | cname encodable => cases mx
    | ns encodable => cases mx
    | txt short => cases mx
    | srv prioritySmall weightSmall portSmall encodable clean => cases mx
  · exact .inl ⟨isMX, by rw [addedText, if_neg isMX]⟩

/-- The value of any other type is converted as it stands. -/
theorem Stands.answerData_value (stands : Stands env number v rdata)
    (spelled : t = typeName number) (answered : t ∈ answeredTypes) (notMX : t ≠ cstr "MX") :
    answerData env t v = some rdata ∧ FitsText rdata := by
  have notExchange : ∀ data : RData, (∀ preference name, data ≠ .exchange preference name) →
      FitsText data := fun data other preference name same => absurd same (other preference name)
  subst spelled
  cases stands with
  | a read =>
      refine ⟨?_, notExchange _ (by simp)⟩
      rw [answerData, if_pos (by decide), read]
      rfl
  | aaaa read =>
      refine ⟨?_, notExchange _ (by simp)⟩
      rw [answerData, if_neg (by decide), if_pos (by decide), read]
      rfl
  | cname encodable =>
      refine ⟨?_, notExchange _ (by simp)⟩
      rw [answerData, if_neg (by decide), if_neg (by decide), if_pos (by decide), nameData,
        if_pos encodable]
      rfl
  | ns encodable =>
      refine ⟨?_, notExchange _ (by simp)⟩
      rw [answerData, if_neg (by decide), if_neg (by decide), if_pos (by decide), nameData,
        if_pos encodable]
      rfl
  | mx nonempty digit small apart space encodable clean => exact absurd rfl notMX
  | txt short => exact absurd answered (by decide)
  | srv prioritySmall weightSmall portSmall encodable clean => exact absurd answered (by decide)

/-- **The stored text carries the data when it fits**, and else it carries
less. -/
theorem Stands.stored (stands : Stands env number v rdata) (documented : Documented t number)
    (answered : t ∈ answeredTypes) :
    ∃ text, addedText t v = some text ∧ (FitsText rdata → answerData env t text = some rdata) ∧
      (¬ FitsText rdata → ∀ other, answerData env t text = some other →
        other.encode.length < rdata.encode.length) := by
  rcases stands.addedText_eq documented with
    ⟨notMX, added⟩ | ⟨p, exchange, rfl, small, rfl, encodable, clean, added⟩
  · obtain ⟨read, fits⟩ := stands.answerData_value (documented.spelling.2.2 answered) answered notMX
    exact ⟨v, added, fun _ => read, fun long => absurd fits long⟩
  have digits := decimalNat_short small
  have size : (splitDots exchange).octets = exchange.length + 2 := by
    rw [Name.octets, length_encodeLabels_splitDots]
  have bound := encodable.2
  have read : answerData env (cstr "MX")
      (decimal p ++ cstr " " ++ exchange.take (254 - (decimal p).length)) =
        (nameData (exchange.take (254 - (decimal p).length))).map (.exchange p) := by
    have nonempty := ne_nil_of_encodable encodable
    have data := @answerData_pair env (exchange.take (254 - (decimal p).length)) p
      (by simp [nonempty]; omega) (fun c member => clean c (List.mem_of_mem_take member))
      (by rw [List.length_take]; omega)
    rw [data]
    simp only [toUnsignedShort, Int.natAbs_natCast]
    rw [if_neg (by omega), if_neg (by simp), Nat.mod_eq_of_lt (by omega)]
  refine ⟨_, added, fun fits => ?_, fun long other data => ?_⟩
  · have room := fits p _ rfl
    rw [size] at room
    have short : exchange.length ≤ 254 - (decimal p).length := by
      rw [decimal_natCast]
      omega
    rw [read, List.take_of_length_le short, nameData, if_pos encodable]
    rfl
  · have long_ : ¬ exchange.length ≤ 254 - (decimal p).length := by
      intro short
      refine long fun preference name same => ?_
      cases same
      rw [size]
      rw [decimal_natCast] at short digits
      omega
    rw [read] at data
    obtain ⟨name, named, rfl⟩ := Option.map_eq_some_iff.mp data
    unfold nameData at named
    split at named
    · cases named
      simp only [RData.encode, List.length_append, length_encode, Name.octets,
        length_encodeLabels_splitDots, List.length_take, encodeWord, List.length_cons,
        List.length_nil]
      omega
    · cases named

end Text

/-! ## The answer to a query -/

section Answer

variable {env : Environment} {store : Store} {d t v : CString} {number : Nat} {rdata : RData}

/-- A query for a domain is parsed to the domain and the type. -/
theorem AsksFor.parsed {buffer : List UInt8} (asks : AsksFor buffer d number)
    (encodable : Encodable 256 d) (noNul : 0 ∉ d) (small : number < 2 ^ 16) :
    parseDNSQuery buffer 256 16 = .ok (some (parsedQuestion (splitDots d) number)) ∧
      (parsedQuestion (splitDots d) number).domain = d := by
  have room := encodable.2
  refine ⟨parseDNSQuery_of_layout (List.splitOn_ne_nil 46 d) encodable.1 ?_ asks small (by decide),
    ?_⟩
  · rw [Name.octets, length_encodeLabels_splitDots]
    omega
  · rw [parsedQuestion, joinDots_splitDots]
    exact cutAtNul_eq_self_iff.mpr noNul

/-- A response carries the data alone exactly when its code is `NOERROR`, it counts
one answer and that answer is all there is. -/
theorem carriesOne_reply_iff {buffer : List UInt8} {query : ParsedQuery} {request : Wire.Header}
    {rcode ancount : Nat} {answers : List UInt8} (accepted : Accepted buffer query) :
    CarriesOne env number query.query_len rdata
        (replyBytes request buffer query rcode ancount answers) ↔
      rcode % 16 = 0 ∧ ancount % 65536 = 1 ∧
        answers = encodeCompressed number 1 (env.default_ttl.toNat / 65536)
          (env.default_ttl.toNat % 65536) rdata := by
  rw [CarriesOne, decodeHeader_replyBytes, accepted.drop_replyBytes]
  constructor
  · rintro ⟨header, decoded, code, count, same⟩
    cases decoded
    exact ⟨code, count, same⟩
  · rintro ⟨code, count, same⟩
    exact ⟨_, rfl, code, count, same⟩

/-- What an `ADD` that returned `0` leaves under its key. -/
theorem stored_of_status {text : CString} {stored : Store} {allocations : Allocations}
    (added : addedText t v = some text)
    (returned : (addSingleRecord store d t (cstr "base") v).under allocations = (0, stored)) :
    stored = if false ∈ allocations.take (addAllocations t) then store
      else store.replace
        { domain := d, type := t, key := recordKey (cstr "base") d t, values := [text] } := by
  have record : addedRecord d t (cstr "base") v = some
      { domain := d, type := t, key := recordKey (cstr "base") d t, values := [text] } := by
    rw [addedRecord, added, Option.map_some]
  rw [addSingleRecord_eq, Alloc.under_map, Prod.mk.injEq] at returned
  obtain ⟨status, rfl⟩ := returned
  rw [addRecords_of_status record status]
  split <;> rfl

end Answer

/-! ## The exact condition -/

section Condition

variable {env : Environment} {d t v : CString} {number : Nat} {rdata : RData}
  {allocations : Allocations}

/-- The answers for a value whose data has a different size are not the one
expected. -/
theorem writtenAnswers_ne {query : ParsedQuery} {start : Nat} {data : Option RData}
    (smaller : ∀ other, data = some other → other.encode.length < rdata.encode.length) :
    writtenAnswers env query [data] start ≠ encodeCompressed number 1
      (env.default_ttl.toNat / 65536) (env.default_ttl.toNat % 65536) rdata := by
  intro same
  have lengths := congrArg List.length same
  have expected : (encodeCompressed number 1 (env.default_ttl.toNat / 65536)
      (env.default_ttl.toNat % 65536) rdata).length = 12 + rdata.encode.length := by
    simp [encodeCompressed, encodeWord]
    omega
  rw [expected] at lengths
  by_cases tight : 512 < start + 16
  · rw [writtenAnswers_full tight, List.length_nil] at lengths
    omega
  have room : start + 16 ≤ 512 := Nat.le_of_not_lt tight
  cases data with
  | none =>
      rw [writtenAnswers_none room, writtenAnswers, List.append_nil, length_answerHead] at lengths
      omega
  | some other =>
      have := smaller other rfl
      by_cases long : 512 < start + 12 + other.encode.length
      · rw [writtenAnswers_long room long, length_answerHead] at lengths
        omega
      · rw [writtenAnswers_fits room (Nat.le_of_not_lt long), writtenAnswers, List.append_nil,
          length_answerBytes] at lengths
        omega

/-- **A value that is readable is read back**, whatever the store held before. -/
theorem readsBack_of_readable (documented : Documented t number) (encodable : Encodable 256 d)
    (noNul : 0 ∉ d) (stands : Stands env number v rdata)
    (fits : 12 + ((splitDots d).octets + 4) + (12 + rdata.encode.length) ≤ 512)
    (readable : Readable t rdata allocations) : ReadsBack env d t v number rdata allocations := by
  obtain ⟨answered, fitsText, allocated⟩ := readable
  obtain ⟨small, printed, spelled⟩ := documented.spelling
  obtain ⟨text, added, read, _⟩ := stands.stored documented answered
  intro parse store stored _ returned later untouched datagram asks
  have kept := stored_of_status added returned
  rw [if_neg allocated] at kept
  obtain ⟨parsed, domain⟩ := asks.parsed encodable noNul small
  have type : (parsedQuestion (splitDots d) number).typeString = t :=
    printed.trans (spelled answered).symm
  have found : lookup (later.foldl (Store.next parse) stored)
      (parsedQuestion (splitDots d) number).domain
      (parsedQuestion (splitDots d) number).typeString =
        some { domain := d, type := t, key := recordKey (cstr "base") d t, values := [text] } := by
    rw [domain, type]
    apply lookup_of_base
    rw [Store.find_run untouched, kept]
    exact KeyedTable.find_replace_self store _
  have accepted := parseDNSQuery_accepted parsed
  obtain ⟨request, decoded⟩ := accepted.decodeHeader
  refine ⟨_, processDnsQuery_answered parsed decoded found (type ▸ answered), ?_⟩
  refine (carriesOne_reply_iff accepted).mpr ⟨rfl, rfl, ?_⟩
  have asked : answerType (parsedQuestion (splitDots d) number) = number := documented.answerType _
  have length : (parsedQuestion (splitDots d) number).query_len = (splitDots d).octets + 4 := rfl
  have octets : (splitDots d).octets = d.length + 2 := by
    rw [Name.octets, length_encodeLabels_splitDots]
  have room := encodable.2
  rw [type, List.map_singleton, read fitsText,
    writtenAnswers_fits (by omega) (by omega), writtenAnswers, List.append_nil, answerBytes_eq, asked]

theorem length_queryBytes_bounds (number : Nat) (encodable : Encodable 256 d) :
    headerSize + 5 ≤ (queryBytes (splitDots d) number).length ∧
      (queryBytes (splitDots d) number).length ≤ DEFAULT_BUFFER_SIZE := by
  have octets : (splitDots d).octets = d.length + 2 := by
    rw [Name.octets, length_encodeLabels_splitDots]
  have room := encodable.2
  have size : (queryBytes (splitDots d) number).length = 12 + ((splitDots d).octets + 4) := by
    simp only [queryBytes, List.length_append, length_encode, length_htons, List.length_cons,
      List.length_nil]
  rw [size, headerSize, DEFAULT_BUFFER_SIZE]
  omega

/-- A query for an encodable domain. -/
def queryFor (d : CString) (number : Nat) (encodable : Encodable 256 d) : Datagram where
  bytes := queryBytes (splitDots d) number
  large_enough := (length_queryBytes_bounds number encodable).1
  fits := (length_queryBytes_bounds number encodable).2

theorem asksFor_queryFor (number : Nat) (encodable : Encodable 256 d) :
    AsksFor (queryFor d number encodable).bytes d number :=
  ⟨[], by simp [queryFor, queryBytes]⟩

/-- A record under the key of another type is not found. -/
theorem lookup_replace_none {queried : CString} {record : DNSRecord}
    (key : record.key = recordKey (cstr "base") d t) (other : t ≠ queried) :
    lookup (KeyedTable.empty.replace record) d queried = none := by
  refine lookup_eq_none_iff.mpr fun tried member => ?_
  have different : tried ≠ record.key := by
    rintro rfl
    exact other (baseKey_mem_iff.mp (key ▸ member))
  rw [KeyedTable.find_replace_of_ne _ _ different, KeyedTable.find_empty]

/-- **A value that is read back is readable**: else it is not even read back by a
server that had no records before. -/
theorem readable_of_readsBack (documented : Documented t number) (encodable : Encodable 256 d)
    (noNul : 0 ∉ d) (stands : Stands env number v rdata)
    (returned : ∀ store, ((addSingleRecord store d t (cstr "base") v).under allocations).1 = 0)
    (back : ReadsBack env d t v number rdata allocations) : Readable t rdata allocations := by
  obtain ⟨small, printed, _⟩ := documented.spelling
  obtain ⟨text, added⟩ : ∃ text, addedText t v = some text := by
    rcases stands.addedText_eq documented with ⟨_, added⟩ | ⟨_, _, _, _, _, _, _, added⟩
    · exact ⟨_, added⟩
    · exact ⟨_, added⟩
  obtain ⟨response, sent, carries⟩ := back _ KeyedTable.empty _ reachable_empty
    (Prod.ext (returned KeyedTable.empty) rfl) [] (by simp) (queryFor d number encodable)
    (asksFor_queryFor number encodable)
  have kept := stored_of_status added (Prod.ext (returned KeyedTable.empty) rfl)
  obtain ⟨parsed, domain⟩ := (asksFor_queryFor number encodable).parsed encodable noNul small
  have accepted := parseDNSQuery_accepted parsed
  obtain ⟨request, decoded⟩ := accepted.decodeHeader
  have type : (parsedQuestion (splitDots d) number).typeString = typeName number := printed
  have unresolved : ∀ store, lookup store d (typeName number) = none →
      processDnsQuery env store (queryFor d number encodable).bytes = .ok (some response) → False := by
    intro store none_ answer
    rw [processDnsQuery_unresolved parsed decoded (by rw [domain, type, none_]),
      Except.ok.injEq, Option.some.injEq] at answer
    subst answer
    exact absurd ((carriesOne_reply_iff accepted).mp carries).1 (by decide)
  rw [List.foldl_nil, kept] at sent
  by_cases allocated : false ∈ allocations.take (addAllocations t)
  · rw [if_pos allocated] at sent
    exact (unresolved _ (lookup_eq_none_iff.mpr fun _ _ => KeyedTable.find_empty _) sent).elim
  rw [if_neg allocated] at sent
  by_cases spelled : t = typeName number
  · subst spelled
    have resolved := lookup_of_base (KeyedTable.find_replace_self (KeyedTable.empty : Store)
      { domain := d, type := typeName number,
        key := recordKey (cstr "base") d (typeName number), values := [text] })
    by_cases answered : typeName number ∈ answeredTypes
    · refine ⟨answered, ?_, allocated⟩
      by_contra long
      obtain ⟨_, again, _, smaller⟩ := stands.stored documented answered
      cases added.symm.trans again
      rw [processDnsQuery_answered parsed decoded (by rw [domain, type]; exact resolved)
        (by rw [type]; exact answered), Except.ok.injEq, Option.some.injEq] at sent
      subst sent
      have same := ((carriesOne_reply_iff accepted).mp carries).2.2
      rw [type] at same
      exact absurd same (writtenAnswers_ne (smaller long))
    · rw [processDnsQuery_other parsed decoded (by rw [domain, type]; exact resolved)
        (by rw [type]; exact answered), if_neg (List.cons_ne_nil _ _), Except.ok.injEq,
        Option.some.injEq] at sent
      subst sent
      exact absurd ((carriesOne_reply_iff accepted).mp carries).1 (by decide)
  · exact (unresolved _ (lookup_replace_none rfl spelled) sent).elim

end Condition

/-- **A value is read back exactly when it is readable.** -/
theorem readsBack_iff {env : Environment} {d t v encoded : CString} {number : Nat} {rdata : RData}
    {allocations : Allocations} (documented : Documented t number) (noNul : 0 ∉ d)
    (accepted : domainToDNSFormat d 256 = .ok (some encoded)) (stands : Stands env number v rdata)
    (fits : 12 + (encoded.length + 4) + (12 + rdata.encode.length) ≤ 512)
    (returned : ∀ store, ((addSingleRecord store d t (cstr "base") v).under allocations).1 = 0) :
    ReadsBack env d t v number rdata allocations ↔ Readable t rdata allocations := by
  obtain ⟨encodable, rfl⟩ := encoded_of_accepted accepted
  exact ⟨readable_of_readsBack documented encodable noNul stands returned,
    readsBack_of_readable documented encodable noNul stands (by rwa [length_encode] at fits)⟩

/-- An address is read back. -/
theorem readsBack_iff_address :
    ReadsBack oneAddressEnvironment (cstr "a") (cstr "A") (cstr "192.0.2.1") DNS_TYPE_A
        (.address [192, 0, 2, 1]) [] ↔
      Readable (cstr "A") (.address [192, 0, 2, 1]) [] :=
  @readsBack_iff oneAddressEnvironment (cstr "a") (cstr "A") (cstr "192.0.2.1") [1, 97, 0] DNS_TYPE_A
    (.address [192, 0, 2, 1]) [] ⟨cstr "A", by decide, .inl rfl⟩ (by decide) (by decide +kernel)
    (@Stands.a oneAddressEnvironment (cstr "192.0.2.1") #v[192, 0, 2, 1] (by decide +kernel))
    (by decide) fun _ => rfl

/-- An address that was added with the type in lower case is not found. -/
theorem not_readsBack_of_lower_case :
    ¬ ∀ (env : Environment) (d t v encoded : CString) (number : Nat) (rdata : RData)
      (allocations : Allocations), Documented t number → 0 ∉ d →
        domainToDNSFormat d 256 = .ok (some encoded) → Stands env number v rdata →
        12 + (encoded.length + 4) + (12 + rdata.encode.length) ≤ 512 →
        (∀ store, ((addSingleRecord store d t (cstr "base") v).under allocations).1 = 0) →
        ReadsBack env d t v number rdata allocations := by
  intro all
  have documented : Documented (cstr "a") DNS_TYPE_A := ⟨cstr "A", by decide, .inr (by decide)⟩
  have stands : Stands oneAddressEnvironment DNS_TYPE_A (cstr "192.0.2.1")
      (.address [192, 0, 2, 1]) :=
    @Stands.a oneAddressEnvironment (cstr "192.0.2.1") #v[192, 0, 2, 1] (by decide +kernel)
  have back := all oneAddressEnvironment (cstr "a") (cstr "a") (cstr "192.0.2.1") [1, 97, 0] _ _ []
    documented (by decide) (by decide +kernel) stands (by decide) fun _ => rfl
  have readable := readable_of_readsBack documented (by decide +kernel) (by decide) stands
    (fun _ => rfl) back
  exact absurd readable.1 (by decide)

end DnsServer
