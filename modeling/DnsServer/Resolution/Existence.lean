import DnsServer.Answering.Reading
import DnsServer.Resolution.Reference
import DnsServer.Store.Exclusivity

/-!
# When `NXDOMAIN` means that a name does not exist

A name exists when a record of any type applies to it: a base or subdomain
record of that domain, or a wildcard record of a proper suffix. `resolveRecord`
looks for the records of one type only, and for the wildcards of the suffixes of
ten labels, empty labels left out (`mem_lookupKeys_iff`).

So a record that applies may be missed, and one that does not apply may be found:
under a key that is spelled like the one searched, or under a suffix that the name
does not have. The response code tells the truth exactly when a record of the
queried type is meant for a name that exists, or a stray record is found for it, and no
stray record is found for a name that does not exist
(`nxdomain_tells_existence_iff`). Among names of few labels and records whose types
have no underscore there is nothing stray, and every name that exists needs a
record of the queried type (`typeDecides_plain_iff`).
-/

set_option autoImplicit false

namespace DnsServer

open Libc Wire

/-- The record sits in a scope: its key is made of the scope, its domain and its
type. -/
def InScopeOf (scope : CString) (record : DNSRecord) : Prop :=
  record.key = recordKey scope record.domain record.type

/-- What stands behind a dot of a domain. -/
def ProperSuffix (suffix domain : CString) : Prop := ∃ front, domain = front ++ cstr "." ++ suffix

/-- A record applies to a domain, whatever its type is. -/
def Applies (record : DNSRecord) (domain : CString) : Prop :=
  ((InScopeOf (cstr "base") record ∨ InScopeOf (cstr "subdomain") record) ∧
      record.domain = domain) ∨
    (InScopeOf (cstr "wildcard") record ∧
      ∃ suffix, ProperSuffix suffix domain ∧ record.domain = cstr "*." ++ suffix)

/-- The store holds a record of some type that applies to the domain. -/
def Exists (store : Store) (domain : CString) : Prop := ∃ record ∈ store, Applies record domain

/-- The store holds a record under one of the keys tried for a domain and a
type. -/
def TriedKeyTaken (store : Store) (domain type : CString) : Prop :=
  ∃ record ∈ store, record.key ∈ lookupKeys domain type

/-- A domain and a type resolve exactly when a tried key is taken. -/
theorem lookup_eq_none_iff_not_taken {store : Store} {domain type : CString} :
    lookup store domain type = none ↔ ¬ TriedKeyTaken store domain type := by
  rw [lookup_eq_none_iff]
  constructor
  · rintro absent ⟨record, member, tried⟩
    exact KeyedTable.find_eq_none_iff.mp (absent _ tried) record member rfl
  · intro untaken key tried
    apply KeyedTable.find_eq_none_iff.mpr
    intro record member same
    exact untaken ⟨record, member, same ▸ tried⟩

/-! ## What is searched -/

/-- The first ten labels of a name that are not empty. -/
def leadingLabels (domain : CString) : Name := ((splitDots domain).filter (· ≠ [])).take 10

/-- A suffix whose wildcard is searched for: some of the leading labels behind the
first one, to the end. -/
def SearchedSuffix (suffix domain : CString) : Prop :=
  ∃ labels, labels ≠ [] ∧ labels <:+ (leadingLabels domain).tail ∧ suffix = joinDots labels

/-- The scopes and owners under which records for a domain are searched for. -/
inductive Searched (domain : CString) : CString → CString → Prop where
  | base : Searched domain (cstr "base") domain
  | subdomain : Searched domain (cstr "subdomain") domain
  | wildcard {suffix : CString} (searched : SearchedSuffix suffix domain) :
      Searched domain (cstr "wildcard") (cstr "*." ++ suffix)

theorem mem_searchedSuffixes_iff {domain : CString} {labels : Name}
    (short : domain.length ≤ 255) :
    labels ∈ searchedSuffixes domain ↔
      labels ≠ [] ∧ labels <:+ (leadingLabels domain).tail := by
  rw [searchedSuffixes, List.take_of_length_le short, tokenLabels_eq, List.mem_filter,
    List.mem_tails, leadingLabels]
  simp [and_comm]

/-- The keys that are tried are those of the searched scopes and owners. -/
theorem mem_lookupKeys_iff {domain type key : CString} (short : domain.length ≤ 255) :
    key ∈ lookupKeys domain type ↔
      ∃ scope name, Searched domain scope name ∧ key = recordKey scope name type := by
  rw [lookupKeys, List.mem_cons, List.mem_cons, List.mem_map]
  constructor
  · rintro (rfl | rfl | ⟨labels, member, rfl⟩)
    · exact ⟨_, _, .base, rfl⟩
    · exact ⟨_, _, .subdomain, rfl⟩
    · obtain ⟨nonempty, behind⟩ := (mem_searchedSuffixes_iff short).mp member
      exact ⟨_, _, .wildcard ⟨labels, nonempty, behind, rfl⟩, by rw [wildcardDomain_eq nonempty]⟩
  · rintro ⟨scope, name, searched, rfl⟩
    cases searched with
    | base => exact .inl rfl
    | subdomain => exact .inr (.inl rfl)
    | wildcard searched =>
        obtain ⟨labels, nonempty, behind, rfl⟩ := searched
        exact .inr (.inr ⟨labels, (mem_searchedSuffixes_iff short).mpr ⟨nonempty, behind⟩,
          by rw [wildcardDomain_eq nonempty]⟩)

/-- A record of the queried type that applies to the domain, and is searched for. -/
structure MeantFor (record : DNSRecord) (domain type : CString) : Prop where
  typed : record.type = type
  searched : ((InScopeOf (cstr "base") record ∨ InScopeOf (cstr "subdomain") record) ∧
      record.domain = domain) ∨
    (InScopeOf (cstr "wildcard") record ∧ ∃ suffix, ProperSuffix suffix domain ∧
      SearchedSuffix suffix domain ∧ record.domain = cstr "*." ++ suffix)

/-- A record that is found for a domain and a type though it is not meant for them: its
key is spelled like that of a searched scope and owner with the type, or it is the
wildcard of a suffix that is only there once the empty labels are left out. -/
inductive Stray (record : DNSRecord) (domain type : CString) : Prop where
  | collides {scope name : CString} (searched : Searched domain scope name)
      (key : record.key = recordKey scope name type)
      (other : ¬ (record.domain = name ∧ record.type = type))
  | skips {suffix : CString} (typed : record.type = type)
      (placed : InScopeOf (cstr "wildcard") record) (searched : SearchedSuffix suffix domain)
      (improper : ¬ ProperSuffix suffix domain) (owner : record.domain = cstr "*." ++ suffix)

theorem MeantFor.applies {record : DNSRecord} {domain type : CString}
    (meant : MeantFor record domain type) : Applies record domain := by
  rcases meant.searched with same | ⟨placed, suffix, proper, _, owner⟩
  · exact .inl same
  · exact .inr ⟨placed, suffix, proper, owner⟩

/-- **A record is found** exactly when it is meant for the name and the type, or stray. -/
theorem key_mem_lookupKeys_iff {record : DNSRecord} {domain type : CString}
    (short : domain.length ≤ 255) :
    record.key ∈ lookupKeys domain type ↔
      MeantFor record domain type ∨ Stray record domain type := by
  rw [mem_lookupKeys_iff short]
  constructor
  · rintro ⟨scope, name, searched, key⟩
    by_cases own : record.domain = name ∧ record.type = type
    · obtain ⟨owner, typed⟩ := own
      have placed : InScopeOf scope record := by rw [InScopeOf, owner, typed, key]
      cases searched with
      | base => exact .inl ⟨typed, .inl ⟨.inl placed, owner⟩⟩
      | subdomain => exact .inl ⟨typed, .inl ⟨.inr placed, owner⟩⟩
      | wildcard searched =>
          rename_i suffix
          by_cases proper : ProperSuffix suffix domain
          · exact .inl ⟨typed, .inr ⟨placed, suffix, proper, searched, owner⟩⟩
          · exact .inr (.skips typed placed searched proper owner)
    · exact .inr (.collides searched key own)
  · rintro (⟨rfl, ⟨base | subdomain, rfl⟩ | ⟨placed, suffix, _, searched, owner⟩⟩ | stray)
    · exact ⟨_, _, .base, base⟩
    · exact ⟨_, _, .subdomain, subdomain⟩
    · exact ⟨_, _, .wildcard searched, owner ▸ placed⟩
    · cases stray with
      | collides searched key _ => exact ⟨_, _, searched, key⟩
      | skips typed placed searched _ owner =>
          exact ⟨_, _, .wildcard searched, by rw [← owner, ← typed]; exact placed⟩

/-- When some record applies to a domain, one of the queried type is meant for it or a stray
one is found; when none applies, no stray one is found. -/
structure TypeDecides (store : Store) (domain type : CString) : Prop where
  present : (∃ record ∈ store, Applies record domain) →
    (∃ record ∈ store, MeantFor record domain type) ∨ ∃ record ∈ store, Stray record domain type
  absent : (∀ record ∈ store, ¬ Applies record domain) →
    ∀ record ∈ store, ¬ Stray record domain type

/-- The proper suffixes of a name with few labels are searched. -/
theorem searchedSuffix_iff {suffix domain : CString} (short : domain.length ≤ 255)
    (few : FewLabels domain) : SearchedSuffix suffix domain ↔ ProperSuffix suffix domain := by
  have proper : ProperSuffix suffix domain ↔ 46 :: suffix <:+ domain := by
    have dot : ∀ front, front ++ cstr "." ++ suffix = front ++ 46 :: suffix := fun front => by
      rw [List.append_assoc]
      rfl
    simp only [ProperSuffix, dot, List.IsSuffix, eq_comm]
  have labels : ∀ labels : Name, labels ≠ [] ∧ labels <:+ (leadingLabels domain).tail ↔
      labels ∈ properSuffixes domain := by
    intro labels
    rw [← searchedSuffixes_eq short few, mem_searchedSuffixes_iff short]
  rw [proper, ← exists_properSuffixes_iff, SearchedSuffix]
  constructor
  · rintro ⟨labels', nonempty, behind, rfl⟩
    exact ⟨labels', (labels labels').mp ⟨nonempty, behind⟩, rfl⟩
  · rintro ⟨labels', member, rfl⟩
    obtain ⟨nonempty, behind⟩ := (labels labels').mpr member
    exact ⟨labels', nonempty, behind, rfl⟩

/-- **Without anything stray** a name that exists needs a record of the queried type:
for names with few labels, and records of known scopes whose types have no
underscore. -/
theorem typeDecides_plain_iff {store : Store} {domain type : CString}
    (short : domain.length ≤ 255) (few : FewLabels domain) (queried : 95 ∉ type)
    (placed : ∀ record ∈ store, InScope record) (typed : ∀ record ∈ store, 95 ∉ record.type) :
    TypeDecides store domain type ↔
      (Exists store domain → ∃ record ∈ store, Applies record domain ∧ record.type = type) := by
  have noStray : ∀ record ∈ store, ¬ Stray record domain type := by
    intro record member stray
    cases stray with
    | collides searched key other =>
        rename_i scope name
        obtain ⟨scope', known, own⟩ := placed record member
        have known' : scope ∈ scopes := by
          cases searched <;> simp [scopes]
        have same := @Triple.key_injective ⟨scope', record.domain, record.type⟩
          ⟨scope, name, type⟩ (no_underscore_of_scopes known) (no_underscore_of_scopes known')
          (typed record member) queried (own.symm.trans key)
        simp only [Triple.mk.injEq] at same
        exact other same.2
    | skips _ _ searched improper _ =>
        exact improper ((searchedSuffix_iff short few).mp searched)
  have meant : ∀ record, MeantFor record domain type ↔
      Applies record domain ∧ record.type = type := by
    intro record
    constructor
    · exact fun meant => ⟨meant.applies, meant.typed⟩
    · rintro ⟨base | ⟨wildcard, suffix, proper, owner⟩, same⟩
      · exact ⟨same, .inl base⟩
      · exact ⟨same, .inr ⟨wildcard, suffix, proper, (searchedSuffix_iff short few).mpr proper, owner⟩⟩
  constructor
  · intro decides present
    rcases decides.present present with ⟨record, member, serves⟩ | ⟨record, member, stray⟩
    · exact ⟨record, member, (meant record).mp serves⟩
    · exact absurd stray (noStray record member)
  · intro condition
    refine ⟨fun present => .inl ?_, fun _ => noStray⟩
    obtain ⟨record, member, serves⟩ := condition present
    exact ⟨record, member, (meant record).mpr serves⟩

/-- The code in a response is `NXDOMAIN` exactly when nothing was found. -/
theorem processDnsQuery_rcode (env : Environment) (store : Store) (datagram : Datagram)
    (query : ParsedQuery) (parsed : parseDNSQuery datagram.bytes 256 16 = .ok (some query)) :
    ∃ response header, processDnsQuery env store datagram.bytes = .ok (some response) ∧
      decodeHeader response = some header ∧
      (header.rcode = DNS_RCODE_NXDOMAIN ↔
        lookup store query.domain query.typeString = none) := by
  have accepted := parseDNSQuery_accepted parsed
  obtain ⟨request, decoded⟩ := accepted.decodeHeader
  cases found : lookup store query.domain query.typeString with
  | none =>
      refine ⟨_, _, processDnsQuery_unresolved parsed decoded found, decodeHeader_replyBytes, ?_⟩
      exact ⟨fun _ => rfl, fun _ => rfl⟩
  | some record =>
      by_cases answered : query.typeString ∈ answeredTypes
      · refine ⟨_, _, processDnsQuery_answered parsed decoded found answered,
          decodeHeader_replyBytes, ?_⟩
        exact ⟨fun code => absurd (show 0 = 3 from code) (by decide), fun none_ => by cases none_⟩
      · refine ⟨_, if record.values = [] then replyWire request DNS_RCODE_NOERROR 0
          else replyWire request DNS_RCODE_NOTIMP 0,
          processDnsQuery_other parsed decoded found answered, ?_, ?_⟩
        · split <;> exact decodeHeader_replyBytes
        · split
          · exact ⟨fun code => absurd (show 0 = 3 from code) (by decide), fun none_ => by cases none_⟩
          · exact ⟨fun code => absurd (show 4 = 3 from code) (by decide), fun none_ => by cases none_⟩

/-- **`NXDOMAIN` tells whether the name exists** exactly when a name to which some
record applies has one of the queried type that is searched for, or a stray one, and
any other name has no stray one. -/
theorem nxdomain_tells_existence_iff (env : Environment) (store : Store) (datagram : Datagram)
    (query : ParsedQuery) (parsed : parseDNSQuery datagram.bytes 256 16 = .ok (some query)) :
    ∃ response header, processDnsQuery env store datagram.bytes = .ok (some response) ∧
      decodeHeader response = some header ∧
      ((header.rcode = DNS_RCODE_NXDOMAIN ↔ ¬ Exists store query.domain) ↔
        TypeDecides store query.domain query.typeString) := by
  obtain ⟨response, header, sent, decoded, code⟩ := processDnsQuery_rcode env store datagram query
    parsed
  have short : query.domain.length ≤ 255 := by
    have := (parseDNSQuery_accepted parsed).domain_length
    omega
  have taken : TriedKeyTaken store query.domain query.typeString ↔
      (∃ record ∈ store, MeantFor record query.domain query.typeString) ∨
        ∃ record ∈ store, Stray record query.domain query.typeString := by
    simp only [TriedKeyTaken, key_mem_lookupKeys_iff short, and_or_left, exists_or]
  refine ⟨response, header, sent, decoded, ?_⟩
  rw [code, lookup_eq_none_iff_not_taken, not_iff_not, taken]
  constructor
  · intro decides
    refine ⟨decides.mpr, fun nothing record member stray => ?_⟩
    obtain ⟨applying, inside, applies⟩ := decides.mp (.inr ⟨record, member, stray⟩)
    exact nothing applying inside applies
  · rintro ⟨present, absent⟩
    refine ⟨fun found => ?_, present⟩
    rcases found with ⟨record, member, meant⟩ | ⟨record, member, stray⟩
    · exact ⟨record, member, meant.applies⟩
    · by_contra nothing
      exact absent (fun other inside applies => nothing ⟨other, inside, applies⟩) record member stray

/-- The store after a `CNAME` was added for a one-letter name. -/
def aliasStore : Store :=
  (addSingleRecord KeyedTable.empty (cstr "a") (cstr "CNAME") (cstr "base") (cstr "b")).result.2

theorem nxdomain_tells_existence_iff_alias :
    ∃ response header, processDnsQuery oneAddressEnvironment aliasStore addressQuery.bytes =
        .ok (some response) ∧ decodeHeader response = some header ∧
      ((header.rcode = DNS_RCODE_NXDOMAIN ↔ ¬ Exists aliasStore (cstr "a")) ↔
        TypeDecides aliasStore (cstr "a") (cstr "A")) :=
  nxdomain_tells_existence_iff oneAddressEnvironment aliasStore addressQuery
    (parsedQuestion [cstr "a"] DNS_TYPE_A) (by decide +kernel)

/-- Asked for its address, a name with a `CNAME` gets `NXDOMAIN`. -/
theorem not_nxdomain_tells_existence :
    ¬ ∀ (parse : CString → Option CJSON) (env : Environment) (store : Store) (datagram : Datagram)
      (query : ParsedQuery) (response : List UInt8) (header : Wire.Header), Reachable parse store →
        parseDNSQuery datagram.bytes 256 16 = .ok (some query) →
        processDnsQuery env store datagram.bytes = .ok (some response) →
        decodeHeader response = some header →
        (header.rcode = DNS_RCODE_NXDOMAIN ↔ ¬ Exists store query.domain) := by
  intro all
  have parsed : parseDNSQuery addressQuery.bytes 256 16 =
      .ok (some (parsedQuestion [cstr "a"] DNS_TYPE_A)) :=
    parseDNSQuery_of_question questionAt_addressQuery
  obtain ⟨response, header, sent, decoded, code⟩ := processDnsQuery_rcode oneAddressEnvironment
    aliasStore addressQuery _ parsed
  have tells := all _ oneAddressEnvironment aliasStore addressQuery _ response header
    (reachable_empty.added _ _ _ _) parsed sent decoded
  refine tells.mp (code.mpr (by decide +kernel)) ⟨
    { domain := cstr "a", type := cstr "CNAME", key := cstr "base_a_CNAME", values := [cstr "b"] },
    KeyedTable.mem_iff.mpr (by decide +kernel), .inl ⟨.inl ?_, rfl⟩⟩
  exact (by decide : cstr "base_a_CNAME" = recordKey (cstr "base") (cstr "a") (cstr "CNAME"))

end DnsServer
