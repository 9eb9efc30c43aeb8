import DnsServer.Answering.MailExchange
import DnsServer.Resolution.Existence

/-!
# Two ways of defining a record

A record can be added by command or loaded from the file. Starting from nothing,
both ways leave a store with a single record of the same type, under a key that each
builds on its own. Two such stores answer every query alike exactly when every query
tries both keys or neither, and makes the same of both values
(`answerAlike_single_iff`).

For base and subdomain records the keys that can be tried are the same. For
wildcard records the loader puts `*.` in front of the domain and `ADD` does not,
so the stores are told apart as soon as any query tries one of the two keys.

The values are the same too, except for an `MX` that the file gives as one string:
the loader keeps the string, while `ADD` scans it and prints it into 256 bytes. What
is read of the two texts differs when the exchange is cut, or when the numeral is so
large that the scans saturate at different bounds; a query that tries the key tells
them apart unless neither exchange fits behind its question (`answerAlike_iff`).
-/

set_option autoImplicit false

namespace DnsServer

open Libc Wire

/-! ## Stores with a single record -/

/-- No query is answered differently from the two stores. -/
def AnswerAlike (first second : Store) : Prop :=
  ∀ (env : Environment) (datagram : Datagram),
    processDnsQuery env first datagram.bytes = processDnsQuery env second datagram.bytes

/-- The store with a single record. -/
def singleStore (record : DNSRecord) : Store := KeyedTable.empty.replace record

theorem lookup_singleStore (record : DNSRecord) (domain type : CString) :
    lookup (singleStore record) domain type =
      if record.key ∈ lookupKeys domain type then some record else none := by
  have find : ∀ key, (singleStore record).find key =
      if key = record.key then some record else none := by
    intro key
    rw [singleStore, KeyedTable.find_replace]
    by_cases same : key = record.key
    · rw [if_pos same, same, Function.update_self]
    · rw [if_neg same, Function.update_of_ne same, KeyedTable.find_empty]
  rw [lookup]
  induction lookupKeys domain type with
  | nil => rfl
  | cons key keys ih =>
      rw [List.findSome?_cons, find]
      by_cases same : key = record.key
      · simp [same]
      · rw [if_neg same, ih]
        simp [Ne.symm same]

/-- A response depends on the values of the record that was found. -/
theorem processDnsQuery_congr {env : Environment} {first second : Store} {buffer : List UInt8}
    {query : ParsedQuery} (parsed : parseDNSQuery buffer 256 16 = .ok (some query))
    (same : (lookup first query.domain query.typeString).map DNSRecord.values =
      (lookup second query.domain query.typeString).map DNSRecord.values) :
    processDnsQuery env first buffer = processDnsQuery env second buffer := by
  obtain ⟨request, decoded⟩ := decodeHeader_of_length buffer (by
    have := (parseDNSQuery_accepted parsed).inside
    omega)
  cases one : lookup first query.domain query.typeString with
  | none =>
      rw [one, Option.map_none, eq_comm, Option.map_eq_none_iff] at same
      rw [processDnsQuery_unresolved parsed decoded one,
        processDnsQuery_unresolved parsed decoded same]
  | some record =>
      rw [one, Option.map_some, eq_comm, Option.map_eq_some_iff] at same
      obtain ⟨other, two, values⟩ := same
      have count : other.num_values = record.num_values := congrArg List.length values
      by_cases answered : query.typeString ∈ answeredTypes
      · rw [processDnsQuery_answered parsed decoded one answered,
          processDnsQuery_answered parsed decoded two answered, values, count]
      · rw [processDnsQuery_other parsed decoded one answered,
          processDnsQuery_other parsed decoded two answered, values]

/-- Stores that answer a query alike both find a record for it or neither
does. -/
theorem lookup_none_of_alike {env : Environment} {first second : Store} {datagram : Datagram}
    {query : ParsedQuery} (parsed : parseDNSQuery datagram.bytes 256 16 = .ok (some query))
    (alike : processDnsQuery env first datagram.bytes = processDnsQuery env second datagram.bytes) :
    lookup first query.domain query.typeString = none ↔
      lookup second query.domain query.typeString = none := by
  obtain ⟨response, header, sent, decoded, code⟩ := processDnsQuery_rcode env first datagram query
    parsed
  obtain ⟨response', header', sent', decoded', code'⟩ := processDnsQuery_rcode env second datagram
    query parsed
  rw [alike, sent', Except.ok.injEq, Option.some.injEq] at sent
  rw [← sent, decoded', Option.some.injEq] at decoded
  rw [← code, ← code', decoded]

/-- **Two single records** answer alike exactly when every accepted query tries both
keys or neither, and makes the same of both records. -/
theorem answerAlike_single_iff {first second : DNSRecord} {agree : ParsedQuery → Prop}
    (each : ∀ (env : Environment) (datagram : Datagram) (query : ParsedQuery),
      parseDNSQuery datagram.bytes 256 16 = .ok (some query) →
      first.key ∈ lookupKeys query.domain query.typeString →
      second.key ∈ lookupKeys query.domain query.typeString →
      (processDnsQuery env (singleStore first) datagram.bytes =
        processDnsQuery env (singleStore second) datagram.bytes ↔ agree query)) :
    AnswerAlike (singleStore first) (singleStore second) ↔
      ∀ (datagram : Datagram) (query : ParsedQuery),
        parseDNSQuery datagram.bytes 256 16 = .ok (some query) →
        (first.key ∈ lookupKeys query.domain query.typeString ↔
          second.key ∈ lookupKeys query.domain query.typeString) ∧
        (first.key ∈ lookupKeys query.domain query.typeString → agree query) := by
  constructor
  · intro alike datagram query parsed
    have both := lookup_none_of_alike parsed (alike oneAddressEnvironment datagram)
    rw [lookup_singleStore, lookup_singleStore] at both
    have tried : first.key ∈ lookupKeys query.domain query.typeString ↔
        second.key ∈ lookupKeys query.domain query.typeString := by
      simpa [not_iff_not] using both
    exact ⟨tried, fun here => (each _ datagram query parsed here (tried.mp here)).mp
      (alike oneAddressEnvironment datagram)⟩
  · intro tried env datagram
    rcases parseDNSQuery_cases datagram.bytes with refused | ⟨query, parsed, _⟩
    · rw [processDnsQuery_refused refused, processDnsQuery_refused refused]
    · obtain ⟨both, agrees⟩ := tried datagram query parsed
      by_cases here : first.key ∈ lookupKeys query.domain query.typeString
      · exact (each env datagram query parsed here (both.mp here)).mpr (agrees here)
      · apply processDnsQuery_congr parsed
        rw [lookup_singleStore, lookup_singleStore, if_neg here,
          if_neg (fun there => here (both.mpr there))]

/-! ## Two values of an `MX` -/

/-- An exchange that can be encoded into the room that a question leaves. -/
def FitsBehind (query_len : Nat) (exchange_str : CString) : Prop :=
  Encodable 256 exchange_str ∧ query_len + exchange_str.length + 28 ≤ 512

instance (query_len : Nat) (exchange_str : CString) :
    Decidable (FitsBehind query_len exchange_str) := inferInstanceAs (Decidable (_ ∧ _))

/-- The length and the data of an answer with a preference and an exchange. -/
def exchangeBytes (preference : Nat) (exchange_str : CString) : List UInt8 :=
  encodeWord (exchange_str.length + 4) ++ (encodeWord preference ++ (splitDots exchange_str).encode)

/-- What the loop writes for a single exchange: the fixed part, and the data if it
fits. -/
theorem writtenAnswers_exchange (env : Environment) (query : ParsedQuery) (preference : Nat)
    (exchange_str : CString) (short : query.query_len ≤ 260) :
    writtenAnswers env query [(nameData exchange_str).map (.exchange preference)]
        (12 + query.query_len) =
      answerHead env query ++ if FitsBehind query.query_len exchange_str then
        exchangeBytes preference exchange_str else [] := by
  have room : 12 + query.query_len + 16 ≤ 512 := by omega
  by_cases encodable : Encodable 256 exchange_str
  · have size : (RData.exchange preference (splitDots exchange_str)).encode.length =
        exchange_str.length + 4 := by
      simp only [RData.encode, List.length_append, length_encode, Name.octets,
        length_encodeLabels_splitDots]
      simp only [encodeWord, List.length_cons, List.length_nil]
      omega
    rw [nameData, if_pos encodable, Option.map_some]
    by_cases fits : query.query_len + exchange_str.length + 28 ≤ 512
    · rw [writtenAnswers_fits room (by rw [size]; omega), if_pos ⟨encodable, fits⟩, answerBytes,
        writtenAnswers, List.append_nil, size, List.append_assoc]
      rfl
    · rw [writtenAnswers_long room (by rw [size]; omega), if_neg (fun both => fits both.2),
        List.append_nil]
  · rw [nameData, if_neg encodable, Option.map_none, writtenAnswers_none room,
      if_neg (fun both => encodable both.1), writtenAnswers]

/-- **Two answers with an exchange and a part of it** are equal exactly when the data is,
or neither carries any. -/
theorem exchangeBytes_eq_iff {query_len preference other count : Nat} {exchange_str : CString}
    (small : preference < 2 ^ 16) (otherSmall : other < 2 ^ 16) :
    (if FitsBehind query_len (exchange_str.take count) then
        exchangeBytes preference (exchange_str.take count) else []) =
      (if FitsBehind query_len exchange_str then exchangeBytes other exchange_str else []) ↔
    (preference = other ∧ exchange_str.length ≤ count) ∨
      (¬ FitsBehind query_len exchange_str ∧ ¬ FitsBehind query_len (exchange_str.take count)) := by
  have nonempty : ∀ preference e, exchangeBytes preference e ≠ [] := fun _ _ empty => by cases empty
  constructor
  · intro same
    by_cases whole : FitsBehind query_len exchange_str
    · rw [if_pos whole] at same
      by_cases part : FitsBehind query_len (exchange_str.take count)
      · rw [if_pos part] at same
        obtain ⟨_, data⟩ := List.append_inj same rfl
        obtain ⟨preferences, names⟩ := List.append_inj data rfl
        have lengths := congrArg List.length names
        simp only [length_encode, Name.octets, length_encodeLabels_splitDots, List.length_take]
          at lengths
        exact .inl ⟨htons_injective small otherSmall preferences, by omega⟩
      · rw [if_neg part] at same
        exact absurd same.symm (nonempty _ _)
    · rw [if_neg whole] at same
      by_cases part : FitsBehind query_len (exchange_str.take count)
      · rw [if_pos part] at same
        exact absurd same (nonempty _ _)
      · exact .inr ⟨whole, part⟩
  · rintro (⟨rfl, short⟩ | ⟨whole, part⟩)
    · rw [List.take_of_length_le short]
    · rw [if_neg whole, if_neg part]

/-- The value of an `MX` is read like the text that `ADD` prints for it: its numeral has
the low sixteen bits of the integer that `%d` makes of it, and the buffer has room for
the exchange. -/
def ReadAlike (value : CString) : Prop :=
  ∃ p n e, scanPriority value = some (p, e) ∧ scanPreference value = some (n, e) ∧
    (n : Int) = p % 2 ^ 16 ∧ (decimal p).length + e.length ≤ 254

/-- With a numeral below `2 ^ 63` only the room matters. -/
theorem readAlike_iff {value rest e : CString} {negative : Bool} {magnitude : Nat}
    (small : magnitude < 2 ^ 63) (number : scanNumber value = some ((negative, magnitude), rest))
    (word : scanWord 255 rest = some e) :
    ReadAlike value ↔ (decimal (toInt negative magnitude)).length + e.length ≤ 254 := by
  have scanned : scanPriority value = some (toInt negative magnitude, e) := by
    simp only [scanPriority, scanInt, number, Option.map_some, Option.bind_eq_bind,
      Option.bind_some, word]
    rfl
  have preference : scanPreference value = some (toUnsignedShort negative magnitude, e) := by
    simp only [scanPreference, scanUnsignedShort, number, Option.map_some, Option.bind_eq_bind,
      Option.bind_some, word]
    rfl
  constructor
  · rintro ⟨_, _, _, scanned', _, _, room⟩
    cases scanned.symm.trans scanned'
    exact room
  · intro room
    exact ⟨_, _, _, scanned, preference, toUnsignedShort_toInt negative small, room⟩

/-- Neither the exchange of a value nor what `ADD` keeps of it fits behind a question. -/
def NeitherFits (value : CString) (query_len : Nat) : Prop :=
  ∃ p e, scanPriority value = some (p, e) ∧ ¬ FitsBehind query_len e ∧
    ¬ FitsBehind query_len (e.take (254 - (decimal p).length))

/-- **An `MX` value and the text that `ADD` prints for it** are answered alike exactly when
they are read alike, or neither exchange fits behind the question. -/
theorem sameExchange_iff {env : Environment} {first second : Store} {buffer : List UInt8}
    {query : ParsedQuery} {record other : DNSRecord} {value e : CString} {p : Int}
    (parsed : parseDNSQuery buffer 256 16 = .ok (some query))
    (isMX : query.typeString = cstr "MX") (scanned : scanPriority value = some (p, e))
    (found : lookup first query.domain query.typeString = some record)
    (otherFound : lookup second query.domain query.typeString = some other)
    (printed : record.values = [snprintf 256 (decimal p ++ cstr " " ++ e)])
    (kept : other.values = [value]) :
    processDnsQuery env first buffer = processDnsQuery env second buffer ↔
      ReadAlike value ∨ NeitherFits value query.query_len := by
  have accepted := parseDNSQuery_accepted parsed
  have answered : query.typeString ∈ answeredTypes := by
    rw [isMX]
    decide
  obtain ⟨request, decoded⟩ := accepted.decodeHeader
  obtain ⟨negative, magnitude, rfl, preference, nonempty, short, clean⟩ :=
    scanPriority_cases scanned
  obtain ⟨lower, upper⟩ := toInt_bounds negative magnitude
  generalize toInt negative magnitude = p at scanned lower upper printed ⊢
  have read := scanPreference_snprintf lower upper nonempty short clean
  have count : record.num_values = other.num_values := by
    rw [DNSRecord.num_values, DNSRecord.num_values, printed, kept]
    rfl
  have data : ∀ {value e' : CString} {n : Nat}, scanPreference value = some (n, e') →
      answerData env query.typeString value = (nameData e').map (.exchange n) := by
    intro value e' n scanned
    rw [isMX, answerData, if_neg (by decide), if_neg (by decide), if_neg (by decide), if_pos rfl,
      scanned]
    rfl
  rw [processDnsQuery_answered parsed decoded found answered,
    processDnsQuery_answered parsed decoded otherFound answered, count, printed, kept,
    List.map_singleton, List.map_singleton, data read, data preference,
    writtenAnswers_exchange _ _ _ _ accepted.bounded, writtenAnswers_exchange _ _ _ _ accepted.bounded,
    Except.ok.injEq, Option.some.injEq, replyBytes, replyBytes, List.append_cancel_left_eq,
    List.append_cancel_left_eq, List.append_cancel_left_eq,
    exchangeBytes_eq_iff (by omega) (toUnsignedShort_lt negative magnitude)]
  have digits := length_decimal_le lower upper
  refine or_congr ?_ ?_
  · constructor
    · rintro ⟨same, room⟩
      exact ⟨p, _, e, scanned, preference, by omega, by omega⟩
    · rintro ⟨_, _, _, scanned', preference', same, room⟩
      cases scanned.symm.trans scanned'
      cases preference.symm.trans preference'
      exact ⟨by omega, by omega⟩
  · constructor
    · rintro ⟨whole, part⟩
      exact ⟨p, e, scanned, whole, part⟩
    · rintro ⟨_, _, scanned', whole, part⟩
      cases scanned.symm.trans scanned'
      exact ⟨whole, part⟩

/-! ## The two ways -/

/-- What a record is defined for: a domain, the wildcards of a domain, or a
subdomain of a domain. -/
inductive Placement where
  | base (domain : CString)
  | wildcard (domain : CString)
  | subdomain (label domain : CString)

def Placement.scope : Placement → CString
  | .base _ => cstr "base"
  | .wildcard _ => cstr "wildcard"
  | .subdomain _ _ => cstr "subdomain"

/-- The domain that is given to `ADD`. -/
def Placement.addedDomain : Placement → CString
  | .base domain | .wildcard domain => domain
  | .subdomain label domain => label ++ cstr "." ++ domain

/-- The domain that the loader builds. -/
def Placement.loadedDomain : Placement → CString
  | .base domain => domain
  | .wildcard domain => snprintf 512 (cstr "*." ++ domain)
  | .subdomain label domain => snprintf 512 (label ++ cstr "." ++ domain)

/-- The member `records` with a single value of a single type. -/
def recordsTree (type : CString) (item : CJSON) : CJSON :=
  .object [(cstr "records", .object [(type, .array [item])])]

/-- The part of the file about the domain of a record. -/
def Placement.domainTree (type : CString) (item : CJSON) : Placement → CString × CJSON
  | .base domain => (domain, recordsTree type item)
  | .wildcard domain => (domain, .object [(cstr "wildcards", recordsTree type item)])
  | .subdomain label domain =>
    (domain, .object [(cstr "subdomains", .object [(label, recordsTree type item)])])

/-- A file whose only record has a single value. -/
def Placement.tree (type : CString) (item : CJSON) (placement : Placement) : CJSON :=
  .object [(cstr "domains", .object [placement.domainTree type item])]

/-- How a value is written in the file: as it stands, or an `MX` as an object with its
priority and its exchange. A value of an `MX` has both. -/
inductive FileValue (type value : CString) : CJSON → Prop where
  | text (valid : addedText type value ≠ none) : FileValue type value (.string value)
  | exchange {priority : Int} {mx_value : CString} (isMX : type = cstr "MX")
      (scanned : scanPriority value = some (priority, mx_value)) :
      FileValue type value (.object
        [(cstr "priority", .number priority), (cstr "value", .string mx_value)])

/-- The store after the record was added by command. -/
def Placement.addedStore (type value : CString) (placement : Placement) : Store :=
  (addSingleRecord KeyedTable.empty placement.addedDomain type placement.scope value).result.2

/-- The store after a file was loaded. -/
def loadedStore (parse : CString → Option CJSON) (bytes : List UInt8) : Store :=
  (loadDNSMappings parse (.contents bytes) KeyedTable.empty).result.2

/-- **What both ways store**: the same text, or for an `MX` that the file gives as one
string the string, and what `ADD` prints for it. -/
theorem FileValue.texts {type value : CString} {item : CJSON}
    (fileValue : FileValue type value item) :
    ∃ added loaded, addedText type value = some added ∧
      valueTexts type (.array [item]) = some [loaded] ∧
      ((added = loaded ∧ (type = cstr "MX" → item ≠ .string value)) ∨
        ∃ p e, type = cstr "MX" ∧ item = .string value ∧ scanPriority value = some (p, e) ∧
          added = snprintf 256 (decimal p ++ cstr " " ++ e) ∧ loaded = value) := by
  cases fileValue with
  | text valid =>
      have loaded : valueTexts type (.array [.string value]) = some [value] := by
        simp [valueTexts, CJSON.children, valueText, CJSON.isObject]
      obtain ⟨added, texted⟩ := Option.ne_none_iff_exists'.mp valid
      refine ⟨added, value, texted, loaded, ?_⟩
      rw [addedText] at texted
      split at texted
      · next isMX =>
        obtain ⟨⟨p, e⟩, scanned, same⟩ := Option.map_eq_some_iff.mp texted
        exact .inr ⟨p, e, isMX, rfl, scanned, same.symm, rfl⟩
      · next other =>
        exact .inl ⟨(Option.some.inj texted).symm, fun isMX => absurd isMX other⟩
  | @exchange priority mx_value isMX scanned =>
      subst isMX
      have texted : addedText (cstr "MX") value =
          some (snprintf 256 (decimal priority ++ cstr " " ++ mx_value)) := by
        rw [addedText, if_pos rfl, scanned, Option.map_some]
      exact ⟨_, _, texted, rfl, .inl ⟨rfl, fun _ same => by cases same⟩⟩

theorem addedStore_eq {type value text : CString} (placement : Placement)
    (texted : addedText type value = some text) :
    placement.addedStore type value = singleStore
      { domain := placement.addedDomain, type,
        key := recordKey placement.scope placement.addedDomain type, values := [text] } := by
  rw [Placement.addedStore, addSingleRecord_result, addedRecord, texted]
  rfl

/-- A single type is no conflict. -/
theorem conflicting_recordsTree (type : CString) (item : CJSON) :
    conflicting (recordsTree type item) = false := by
  simp only [conflicting, recordsTree, getObjectItem_single, cnameFlags, CJSON.children,
    List.map_cons, List.map_nil, List.foldl_cons, List.foldl_nil]
  split <;> rfl

/-- The file asks for a single insertion. -/
theorem domainsEntries_domainTree (type : CString) (item : CJSON) (placement : Placement) :
    domainsEntries [placement.domainTree type item] =
      [{ domain := placement.loadedDomain, type, values := .array [item],
         scope := placement.scope }] := by
  have records : (recordsTree type item).getObjectItem (cstr "records") =
      some (.object [(type, .array [item])]) := getObjectItem_single _ _
  cases placement with
  | base domain =>
      have noWildcards : (recordsTree type item).getObjectItem (cstr "wildcards") = none :=
        getObjectItem_other _ (by decide)
      have noSubdomains : (recordsTree type item).getObjectItem (cstr "subdomains") = none :=
        getObjectItem_other _ (by decide)
      simp only [domainsEntries, Placement.domainTree, conflicting_recordsTree, baseEntries, records,
        typeEntries_single, wildcardEntries, noWildcards, subdomainEntries, noSubdomains]
      rfl
  | wildcard domain =>
      have noRecords : (CJSON.object [(cstr "wildcards", recordsTree type item)]).getObjectItem
          (cstr "records") = none := getObjectItem_other _ (by decide)
      have noSubdomains : (CJSON.object [(cstr "wildcards", recordsTree type item)]).getObjectItem
          (cstr "subdomains") = none := getObjectItem_other _ (by decide)
      simp only [domainsEntries, Placement.domainTree, conflicting, baseEntries, noRecords,
        wildcardEntries, getObjectItem_single, records, typeEntries_single, subdomainEntries, noSubdomains]
      rfl
  | subdomain label domain =>
      have noRecords : (CJSON.object [(cstr "subdomains", .object
          [(label, recordsTree type item)])]).getObjectItem (cstr "records") = none :=
        getObjectItem_other _ (by decide)
      have noWildcards : (CJSON.object [(cstr "subdomains", .object
          [(label, recordsTree type item)])]).getObjectItem (cstr "wildcards") = none :=
        getObjectItem_other _ (by decide)
      simp only [domainsEntries, Placement.domainTree, conflicting, baseEntries, noRecords,
        wildcardEntries, noWildcards, subdomainEntries, getObjectItem_single, CJSON.children,
        List.map_cons, List.map_nil, List.flatMap_cons, List.flatMap_nil, records,
        typeEntries_single]
      rfl

theorem loadedStore_eq {parse : CString → Option CJSON} {bytes : List UInt8}
    {type text : CString} {item : CJSON} (placement : Placement)
    (nonempty : bytes ≠ []) (parsed : parse (cutAtNul bytes) = some (placement.tree type item))
    (texted : valueTexts type (.array [item]) = some [text]) :
    loadedStore parse bytes = singleStore
      { domain := placement.loadedDomain, type,
        key := recordKey placement.scope placement.loadedDomain type, values := [text] } := by
  have positive : ¬ bytes.length ≤ 0 := by simpa using nonempty
  have domains : fileDomains parse (.contents bytes) = some [placement.domainTree type item] := by
    simp only [fileDomains, parsed, Placement.tree, getObjectItem_single]
    rw [if_neg positive]
  have entries : mappingEntries parse (.contents bytes) =
      [{ domain := placement.loadedDomain, type, values := .array [item],
         scope := placement.scope }] := by
    rw [mappingEntries, domains, Option.getD_some, domainsEntries_domainTree]
  have records := mappingRecords_result parse (.contents bytes)
  rw [entries] at records
  simp only [List.filterMap_cons, List.filterMap_nil, Entry.record, texted, Option.map_some]
    at records
  rw [loadedStore, loadDNSMappings_eq, Alloc.result, Alloc.under_map, ← Alloc.result, records]
  rfl

/-! ## The keys of the two ways -/

section Keys

variable {buffer : List UInt8} {query : ParsedQuery} {type : CString}

theorem Accepted.typeString_length (accepted : Accepted buffer query) :
    query.typeString.length ≤ 15 := by
  rw [accepted.typeString_eq]
  exact List.length_take_le _ _

/-- Cutting the name of a subdomain does not matter: no query is so long. -/
theorem subdomainKey_snprintf_iff (accepted : Accepted buffer query) (domain : CString) :
    recordKey (cstr "subdomain") domain type ∈ lookupKeys query.domain query.typeString ↔
      recordKey (cstr "subdomain") (snprintf 512 domain) type ∈
        lookupKeys query.domain query.typeString := by
  by_cases short : domain.length < 512
  · rw [snprintf_of_length_lt short]
  have bound := accepted.domain_length
  have typeBound := accepted.typeString_length
  have cut : (snprintf 512 domain).length = 511 := by
    simp only [snprintf, List.length_take]
    omega
  rw [subdomainKey_mem_iff, subdomainKey_mem_iff]
  constructor
  · intro same
    have := congrArg List.length same
    simp only [List.length_append] at this
    omega
  · intro same
    have := congrArg List.length same
    simp only [List.length_append, cut] at this
    omega

/-- The labels that are searched can stand in a name of their own. -/
theorem searched_labels (accepted : Accepted buffer query) {labels : List CString}
    (searched : labels ∈ searchedSuffixes query.domain) :
    labels.length ≤ 9 ∧ ∀ label ∈ labels, LegalLabel label ∧ 46 ∉ label ∧ 0 ∉ label := by
  obtain ⟨suffix, _⟩ := List.mem_filter.mp searched
  have inTail : labels <:+ (tokenLabels 10 (query.domain.take 255)).tail :=
    (List.mem_tails _ _).mp suffix
  have few := length_tokenLabels_le 10 (query.domain.take 255)
  refine ⟨?_, fun label member => ?_⟩
  · have := inTail.length_le
    rw [List.length_tail] at this
    omega
  · obtain ⟨nonempty, noDot, inside⟩ := mem_tokenLabels
      (List.mem_of_mem_tail (inTail.subset member))
    have whole : label <:+: query.domain := inside.trans (List.take_prefix 255 _).isInfix
    exact ⟨⟨List.length_pos_of_ne_nil nonempty, accepted.run_length noDot whole⟩, noDot,
      fun nul => accepted.nul_not_mem (whole.subset nul)⟩

/-- A query for a name that puts one label in front of searched labels. -/
theorem exists_query_of_searched (accepted : Accepted buffer query) {labels : List CString}
    (searched : labels ∈ searchedSuffixes query.domain)
    (short : (wildcardDomain labels).length ≤ 252) :
    ∃ datagram : Datagram, parseDNSQuery datagram.bytes 256 16 =
        .ok (some (parsedQuestion (cstr "a" :: labels) query.queryType)) ∧
      (parsedQuestion (cstr "a" :: labels) query.queryType).typeString = query.typeString ∧
      searchedSuffixes (parsedQuestion (cstr "a" :: labels) query.queryType).domain =
        labels.tails.filter (· ≠ []) := by
  obtain ⟨few, labelsLegal⟩ := searched_labels accepted searched
  have nonempty : cstr "a" :: labels ≠ [] := List.cons_ne_nil _ _
  have legal : ∀ label ∈ cstr "a" :: labels, LegalLabel label ∧ 46 ∉ label ∧ 0 ∉ label :=
    List.forall_mem_cons.mpr ⟨by decide, labelsLegal⟩
  have sizes : (encodeLabels labels).length + 1 = (wildcardDomain labels).length := by
    rw [length_wildcardDomain, encodeLabels, List.length_flatMap, List.length_flatMap]
    have dot : (cstr ".").length = 1 := rfl
    simp only [List.length_append, List.length_cons, dot, Nat.add_comm 1]
  have octets : Name.octets (cstr "a" :: labels) = (wildcardDomain labels).length + 2 := by
    have letter : (cstr "a").length = 1 := rfl
    rw [octets_cons, Name.octets, letter, ← sizes]
    omega
  have question := questionAt_queryBytes nonempty (fun label member => (legal label member).1)
    (by omega) accepted.queryType_lt
  have length : (queryBytes (cstr "a" :: labels) query.queryType).length =
      12 + (Name.octets (cstr "a" :: labels) + 4) := by
    simp only [queryBytes, List.length_append, length_encode, length_htons]
    rfl
  have text : cutAtNul (joinDots (cstr "a" :: labels)) = joinDots (cstr "a" :: labels) := by
    apply List.takeWhile_eq_self_iff.mpr
    intro c member
    rw [← dropLast_dotted nonempty] at member
    obtain ⟨label, labelMember, inLabel⟩ := List.mem_flatMap.mp (List.mem_of_mem_dropLast member)
    simp only [ne_eq, decide_not, Bool.not_eq_eq_eq_not, Bool.not_true, decide_eq_false_iff_not]
    rintro rfl
    rcases List.mem_append.mp inLabel with inside | dot
    · exact (legal label labelMember).2.2 inside
    · simp at dot
  have textLength : (joinDots (cstr "a" :: labels)).length ≤ 255 := by
    have := length_encodeLabels_joinDots nonempty
    simp only [Name.octets] at octets
    omega
  refine ⟨⟨queryBytes (cstr "a" :: labels) query.queryType, ?_, ?_⟩,
    parseDNSQuery_of_question question, ?_, ?_⟩
  · rw [length, headerSize]
    omega
  · rw [length, DEFAULT_BUFFER_SIZE]
    omega
  · rw [accepted.typeString_eq]
    rfl
  · rw [searchedSuffixes, parsedQuestion, text, List.take_of_length_le textLength,
      tokenLabels_joinDots 10 fun label member => ⟨List.ne_nil_of_length_pos
        (legal label member).1.1, (legal label member).2.1⟩,
      List.take_of_length_le (by simp; omega), List.tail_cons]

/-- The wildcard keys of the two ways differ by two bytes, so a query that tries
both can be shortened to one that tries the shorter key only. -/
theorem wildcardKeys_told_apart (accepted : Accepted buffer query) (domain : CString)
    (added : recordKey (cstr "wildcard") domain type ∈ lookupKeys query.domain query.typeString)
    (loaded : recordKey (cstr "wildcard") (snprintf 512 (cstr "*." ++ domain)) type ∈
      lookupKeys query.domain query.typeString) :
    ∃ (datagram : Datagram) (other : ParsedQuery),
      parseDNSQuery datagram.bytes 256 16 = .ok (some other) ∧
        recordKey (cstr "wildcard") domain type ∈ lookupKeys other.domain other.typeString ∧
        recordKey (cstr "wildcard") (snprintf 512 (cstr "*." ++ domain)) type ∉
          lookupKeys other.domain other.typeString := by
  have bound := accepted.domain_length
  have typeBound := accepted.typeString_length
  obtain ⟨shorter, shorterSearched, addedText⟩ := wildcardKey_mem_iff.mp added
  obtain ⟨longer, longerSearched, loadedText⟩ := wildcardKey_mem_iff.mp loaded
  have shorterBound := length_wildcardDomain_le shorterSearched
  have longerBound := length_wildcardDomain_le longerSearched
  have addedLength := congrArg List.length addedText
  have star : (cstr "*.").length = 2 := rfl
  simp only [List.length_append] at addedLength
  rw [snprintf_of_length_lt (by rw [List.length_append, star]; omega)] at loadedText
  have loadedLength := congrArg List.length loadedText
  simp only [List.length_append, star] at loadedLength
  obtain ⟨datagram, parsed, sameType, suffixes⟩ := exists_query_of_searched accepted shorterSearched
    (by omega)
  refine ⟨datagram, _, parsed, wildcardKey_mem_iff.mpr ⟨shorter, ?_, ?_⟩, fun tried => ?_⟩
  · rw [suffixes]
    exact List.mem_filter.mpr ⟨(List.mem_tails _ _).mpr List.suffix_rfl,
      (List.mem_filter.mp shorterSearched).2⟩
  · rw [sameType]
    exact addedText
  · obtain ⟨found, foundSearched, foundText⟩ := wildcardKey_mem_iff.mp tried
    rw [suffixes] at foundSearched
    obtain ⟨front, split⟩ := (List.mem_tails _ _).mp (List.mem_filter.mp foundSearched).1
    rw [snprintf_of_length_lt (by rw [List.length_append, star]; omega), sameType] at foundText
    have foundLength := congrArg List.length foundText
    have inside := congrArg (fun labels => (wildcardDomain labels).length) split
    simp only [List.length_append, star] at foundLength
    simp only [length_wildcardDomain, List.flatMap_append, List.length_append] at *
    omega

end Keys

/-! ## Agreement -/

/-- No query tries the key of either way. -/
def NeverTried (type : CString) (placement : Placement) : Prop :=
  ∀ (datagram : Datagram) (query : ParsedQuery),
    parseDNSQuery datagram.bytes 256 16 = .ok (some query) →
    recordKey placement.scope placement.addedDomain type ∉
        lookupKeys query.domain query.typeString ∧
      recordKey placement.scope placement.loadedDomain type ∉
        lookupKeys query.domain query.typeString

/-- Every query that tries the key of the record makes the same of both texts: they
differ only for an `MX` that the file gives as one string. -/
def TextsAgree (type value : CString) (item : CJSON) (placement : Placement) : Prop :=
  type = cstr "MX" → item = .string value →
    ∀ (datagram : Datagram) (query : ParsedQuery),
      parseDNSQuery datagram.bytes 256 16 = .ok (some query) →
      recordKey placement.scope placement.addedDomain type ∈
        lookupKeys query.domain query.typeString →
      ReadAlike value ∨ NeitherFits value query.query_len

/-- A query that tries the key of a record in one of the scopes has its type. -/
theorem typeString_of_tried {datagram : Datagram} {query : ParsedQuery}
    {scope name type : CString} (parsed : parseDNSQuery datagram.bytes 256 16 = .ok (some query))
    (known : scope ∈ scopes) (clean : 95 ∉ type)
    (tried : recordKey scope name type ∈ lookupKeys query.domain query.typeString) :
    query.typeString = type := by
  have accepted := parseDNSQuery_accepted parsed
  have length := accepted.domain_length
  obtain ⟨scope', name', searched, key⟩ := (mem_lookupKeys_iff (by omega)).mp tried
  have known' : scope' ∈ scopes := by
    cases searched <;> simp [scopes]
  have same := @Triple.key_injective ⟨scope, name, type⟩ ⟨scope', name', query.typeString⟩
    (no_underscore_of_scopes known) (no_underscore_of_scopes known') clean
    accepted.typeString_clean key
  simp only [Triple.mk.injEq] at same
  exact same.2.2.symm

theorem Placement.scope_known (placement : Placement) : placement.scope ∈ scopes := by
  cases placement <;> simp [Placement.scope, scopes]

/-- **The two ways of defining a record agree** exactly when the record is no wildcard
record and every query makes the same of both texts, or no query tries a key of either
way. -/
theorem answerAlike_iff (parse : CString → Option CJSON) (bytes : List UInt8)
    (placement : Placement) (type value : CString) (item : CJSON)
    (fileValue : FileValue type value item) (nonempty : bytes ≠ [])
    (parsed : parse (cutAtNul bytes) = some (placement.tree type item)) :
    AnswerAlike (placement.addedStore type value) (loadedStore parse bytes) ↔
      ((∀ domain, placement ≠ .wildcard domain) ∧ TextsAgree type value item placement) ∨
        NeverTried type placement := by
  obtain ⟨added, loaded, addedTexted, loadedTexted, texts⟩ := fileValue.texts
  rw [addedStore_eq placement addedTexted, loadedStore_eq placement nonempty parsed loadedTexted]
  refine (@answerAlike_single_iff _ _ (fun query => type = cstr "MX" → item = .string value →
    ReadAlike value ∨ NeitherFits value query.query_len) ?_).trans ?_
  · intro env datagram query queried here there
    have found := lookup_singleStore
      { domain := placement.addedDomain, type,
        key := recordKey placement.scope placement.addedDomain type, values := [added] }
      query.domain query.typeString
    have otherFound := lookup_singleStore
      { domain := placement.loadedDomain, type,
        key := recordKey placement.scope placement.loadedDomain type, values := [loaded] }
      query.domain query.typeString
    rw [if_pos here] at found
    rw [if_pos there] at otherFound
    rcases texts with ⟨rfl, plain⟩ | ⟨p, e, isMX, string, scanned, rfl, rfl⟩
    · refine iff_of_true (processDnsQuery_congr queried ?_) fun isMX string => absurd string (plain isMX)
      rw [found, otherFound]
      rfl
    · have typed := typeString_of_tried queried placement.scope_known (by rw [isMX]; decide) here
      rw [sameExchange_iff queried (typed.trans isMX) scanned found otherFound rfl rfl]
      exact ⟨fun alike _ _ => alike, fun alike => alike isMX string⟩
  constructor
  · intro tried
    by_cases isWildcard : ∀ domain, placement ≠ .wildcard domain
    · exact .inl ⟨isWildcard, fun isMX string datagram query queried here =>
        (tried datagram query queried).2 here isMX string⟩
    · right
      push Not at isWildcard
      obtain ⟨domain, rfl⟩ := isWildcard
      intro datagram query queried
      have accepted := parseDNSQuery_accepted queried
      have both := (tried datagram query queried).1
      by_contra someTried
      have added : recordKey (cstr "wildcard") domain type ∈
          lookupKeys query.domain query.typeString := by
        by_contra untried
        exact someTried ⟨untried, fun loaded => untried (both.mpr loaded)⟩
      obtain ⟨other, otherQuery, otherQueried, here, notThere⟩ :=
        wildcardKeys_told_apart accepted domain added (both.mp added)
      exact notThere ((tried other otherQuery otherQueried).1.mp here)
  · rintro (⟨noWildcard, agree⟩ | never) datagram query queried
    · refine ⟨?_, fun here isMX string => agree isMX string datagram query queried here⟩
      cases placement with
      | base domain => exact Iff.rfl
      | wildcard domain => exact absurd rfl (noWildcard domain)
      | subdomain label domain =>
          exact subdomainKey_snprintf_iff (parseDNSQuery_accepted queried) _
    · have untried := never datagram query queried
      exact ⟨⟨fun added => absurd added untried.1, fun loaded => absurd loaded untried.2⟩,
        fun here => absurd here untried.1⟩

theorem answerAlike_iff_base :
    AnswerAlike ((Placement.base (cstr "a")).addedStore (cstr "A") (cstr "192.0.2.1"))
        (loadedStore (fun _ => some ((Placement.base (cstr "a")).tree (cstr "A")
          (.string (cstr "192.0.2.1")))) (cstr "\x7b\x7d")) ↔
      ((∀ domain, Placement.base (cstr "a") ≠ .wildcard domain) ∧
          TextsAgree (cstr "A") (cstr "192.0.2.1") (.string (cstr "192.0.2.1"))
            (.base (cstr "a"))) ∨
        NeverTried (cstr "A") (.base (cstr "a")) :=
  have valid : addedText (cstr "A") (cstr "192.0.2.1") ≠ none := by decide
  answerAlike_iff _ _ (.base (cstr "a")) (cstr "A") (cstr "192.0.2.1") (.string (cstr "192.0.2.1"))
    (.text valid) (by decide) rfl

/-- The query for the addresses of a name under a one-letter domain. -/
def subdomainQuery : Datagram where
  bytes := queryBytes [cstr "a", cstr "b"] DNS_TYPE_A
  large_enough := by decide
  fits := by decide

/-- A wildcard record that is loaded answers for the names under its domain; the
one that is added does not. -/
theorem not_answerAlike_of_wildcard :
    ¬ ∀ (parse : CString → Option CJSON) (bytes : List UInt8) (placement : Placement)
      (type value : CString) (item : CJSON), FileValue type value item → bytes ≠ [] →
        parse (cutAtNul bytes) = some (placement.tree type item) →
        AnswerAlike (placement.addedStore type value) (loadedStore parse bytes) := by
  intro all
  have valid : addedText (cstr "A") (cstr "192.0.2.1") ≠ none := by decide
  have alike := all (fun _ => some ((Placement.wildcard (cstr "b")).tree (cstr "A")
    (.string (cstr "192.0.2.1")))) (cstr "\x7b\x7d") (.wildcard (cstr "b")) (cstr "A")
    (cstr "192.0.2.1") _ (.text valid) (by decide) rfl
  have parsed : parseDNSQuery subdomainQuery.bytes 256 16 =
      .ok (some (parsedQuestion [cstr "a", cstr "b"] DNS_TYPE_A)) := by decide +kernel
  have both := lookup_none_of_alike parsed (alike oneAddressEnvironment subdomainQuery)
  exact absurd both (by decide +kernel)

end DnsServer
