import DnsServer.Store.Triples

/-!
# A name with a `CNAME` has nothing else

The loader checks this for the base records of each domain it reads, and nothing
else checks it. `Exclusive` states it for a whole store and `FileExclusive` for the
lists of a file: those of the base records, of the wildcards and of the subdomains,
in all domains that are read. A load keeps to the first exactly when its file keeps
to the second (`FileExclusive.loaded`, `fileExclusive_of_loaded`).

A command keeps a store exclusive exactly when it meets `KeepsExclusive`: the type
of an `ADD` must be compatible with what the store has for the owner, and the file
of a `RELOAD` must be exclusive. Along every run of commands after the initial load
the stores are exclusive when each step meets its condition, and for the runs of
given commands the conditions are exact (`exclusive_along_iff`).
-/

set_option autoImplicit false

namespace DnsServer

open Libc

variable {parse : CString → Option CJSON}

/-- The scopes that `resolveRecord` knows. -/
def scopes : List CString := [cstr "base", cstr "subdomain", cstr "wildcard"]

/-- The record sits in one of the three scopes. -/
def InScope (record : DNSRecord) : Prop :=
  ∃ scope ∈ scopes, record.key = recordKey scope record.domain record.type

/-- Two records of one owner are both a `CNAME` or neither is. -/
def Compatible (first second : DNSRecord) : Prop :=
  InScope first → InScope second → first.domain = second.domain →
    (first.type = cstr "CNAME" ↔ second.type = cstr "CNAME")

/-- No owner has both a `CNAME` and a record of another type. -/
def Exclusive (store : Store) : Prop :=
  ∀ first ∈ store, ∀ second ∈ store, Compatible first second

theorem Compatible.refl (record : DNSRecord) : Compatible record record :=
  fun _ _ _ => Iff.rfl

theorem Compatible.symm {first second : DNSRecord} (compatible : Compatible first second) :
    Compatible second first :=
  fun inSecond inFirst same => (compatible inFirst inSecond same.symm).symm

/-! ## What keeps a store exclusive -/

theorem exclusive_del {store : Store} (exclusive : Exclusive store) (key : CString) :
    Exclusive (store.del key) := by
  intro first firstMember second secondMember
  exact exclusive first (KeyedTable.mem_del_iff.mp firstMember).1 second
    (KeyedTable.mem_del_iff.mp secondMember).1

/-- Replacing one record keeps a store exclusive exactly when the new record is
compatible with every record under another key. -/
theorem exclusive_replace_iff {store : Store} (exclusive : Exclusive store) (record : DNSRecord) :
    Exclusive (store.replace record) ↔
      ∀ other ∈ store, other.key ≠ record.key → Compatible record other := by
  constructor
  · intro kept other member different
    exact kept record (KeyedTable.mem_replace_iff.mpr (.inr rfl)) other
      (KeyedTable.mem_replace_iff.mpr (.inl ⟨member, different⟩))
  · intro compatible first firstMember second secondMember
    rcases KeyedTable.mem_replace_iff.mp firstMember with ⟨one, oneKey⟩ | rfl <;>
      rcases KeyedTable.mem_replace_iff.mp secondMember with ⟨two, twoKey⟩ | rfl
    · exact exclusive first one second two
    · exact (compatible first one oneKey).symm
    · exact compatible second two twoKey
    · exact Compatible.refl _

theorem no_underscore_of_scopes {scope : CString} (known : scope ∈ scopes) : 95 ∉ scope := by
  have each : ∀ scope ∈ scopes, 95 ∉ scope := by decide
  exact each scope known

/-- Among the known scopes a key names its scope, and with the owner it names its type. -/
theorem recordKey_inj_of_scopes {scope scope' name type type' : CString}
    (known : scope ∈ scopes) (known' : scope' ∈ scopes)
    (same : recordKey scope name type = recordKey scope' name type') :
    scope = scope' ∧ type = type' := by
  cases recordKey_scope (no_underscore_of_scopes known) (no_underscore_of_scopes known') same
  exact ⟨rfl, List.append_cancel_left same⟩

/-! ## The lists of a file -/

/-- The member of `domains` gives a `records` object for an owner in a scope: its own
records whatever they are, those of its wildcards and subdomains unless its own are in
conflict. -/
inductive OwnsRecords (domainName : CString) (domain : CJSON) : CString → CString → CJSON → Prop where
  | base {records : CJSON} (found : domain.getObjectItem (cstr "records") = some records) :
      OwnsRecords domainName domain (cstr "base") domainName records
  | wildcard {wildcards records : CJSON} (compatible : conflicting domain = false)
      (found : domain.getObjectItem (cstr "wildcards") = some wildcards)
      (inside : wildcards.getObjectItem (cstr "records") = some records) :
      OwnsRecords domainName domain (cstr "wildcard") (snprintf 512 (cstr "*." ++ domainName)) records
  | subdomain {subdomains subdomain records : CJSON} {subdomainName : Option CString}
      (compatible : conflicting domain = false)
      (found : domain.getObjectItem (cstr "subdomains") = some subdomains)
      (member : (subdomainName, subdomain) ∈ subdomains.children)
      (inside : subdomain.getObjectItem (cstr "records") = some records) :
      OwnsRecords domainName domain (cstr "subdomain")
        (snprintf 512 (subdomainName.getD (cstr "(null)") ++ cstr "." ++ domainName)) records

/-- A `records` object has values under a type, and they can be read. -/
structure HasList (records : CJSON) (type : CString) : Prop where
  key : some type ∈ records.children.map Prod.fst
  readable : ∃ values, records.getObjectItem type = some values ∧ valueTexts type values ≠ none

/-- The domains give an owner in a scope a list of a type: one of them does, and none
in front of it is in conflict. -/
def DomainsGive (domains : List (CString × CJSON)) (scope name type : CString) : Prop :=
  ∃ front domainName domain rest records, domains = front ++ (domainName, domain) :: rest ∧
    (∀ other ∈ front, conflicting other.2 = false) ∧
    OwnsRecords domainName domain scope name records ∧ HasList records type

/-- A file that can be read gives an owner in a scope a list of a type. -/
def FileGives (parse : CString → Option CJSON) (file : MappingsFile) (scope name type : CString) :
    Prop :=
  ∃ domains, fileDomains parse file = some domains ∧ DomainsGive domains scope name type

/-- A file gives no owner both a `CNAME` and a list of another type, in whatever
domains and scopes the two stand. -/
def FileExclusive (parse : CString → Option CJSON) (file : MappingsFile) : Prop :=
  ∀ scope scope' name type type', FileGives parse file scope name type →
    FileGives parse file scope' name type' → (type = cstr "CNAME" ↔ type' = cstr "CNAME")

/-! ## What the loader checks -/

/-- A flag that no step takes back and one step sets is set at the end of a loop. -/
theorem foldl_flag {α β : Type} {step : β → α → β} {flag : β → Prop} {setter : α}
    (keeps : ∀ state item, flag state → flag (step state item))
    (sets : ∀ state, flag (step state setter)) {items : List α} :
    ∀ {state : β}, flag state ∨ setter ∈ items → flag (items.foldl step state) := by
  induction items with
  | nil =>
      rintro state (here | absent)
      · exact here
      · exact absurd absent List.not_mem_nil
  | cons item items ih =>
      rintro state (here | member)
      · exact ih (.inl (keeps state item here))
      · rcases List.mem_cons.mp member with rfl | later
        · exact ih (.inl (sets state))
        · exact ih (.inr later)

/-- A `CNAME` that is found sets the first flag. -/
theorem cnameFlags_fst {records : CJSON}
    (key : some (cstr "CNAME") ∈ records.children.map Prod.fst)
    (found : records.getObjectItem (cstr "CNAME") ≠ none) : (cnameFlags records).1 = true := by
  obtain ⟨⟨_, value⟩, member, rfl⟩ := List.mem_map.mp key
  refine @foldl_flag _ _ _ (fun flags : Bool × Bool => flags.1 = true) _ ?_ ?_ _ _
    (.inr member)
  · intro flags child set
    grind
  · intro flags
    grind

/-- Another type that is found sets the second flag. -/
theorem cnameFlags_snd {records : CJSON} {type : CString} (other : type ≠ cstr "CNAME")
    (key : some type ∈ records.children.map Prod.fst)
    (found : records.getObjectItem type ≠ none) : (cnameFlags records).2 = true := by
  obtain ⟨⟨_, value⟩, member, rfl⟩ := List.mem_map.mp key
  refine @foldl_flag _ _ _ (fun flags : Bool × Bool => flags.2 = true) _ ?_ ?_ _ _
    (.inr member)
  · intro flags child set
    grind
  · intro flags
    grind

/-- **The check of the loader** covers the base records of one domain: without a
conflict they are not both a `CNAME` and another type. -/
theorem compatible_of_not_conflicting {domain records : CJSON} {type type' : CString}
    (compatible : conflicting domain = false)
    (found : domain.getObjectItem (cstr "records") = some records)
    (list : HasList records type) (list' : HasList records type') :
    type = cstr "CNAME" ↔ type' = cstr "CNAME" := by
  have known : ∀ {type}, HasList records type → records.getObjectItem type ≠ none := by
    rintro type ⟨_, values, found, _⟩
    rw [found]
    exact Option.some_ne_none values
  have one : ∀ {type type'}, HasList records type → HasList records type' →
      type = cstr "CNAME" → type' = cstr "CNAME" := by
    rintro type type' list list' rfl
    by_contra other
    have both : conflicting domain = true := by
      simp only [conflicting, found, cnameFlags_fst list.key (known list),
        cnameFlags_snd other list'.key (known list'), Bool.and_self]
    cases compatible.symm.trans both
  exact ⟨one list list', one list' list⟩

/-! ## The insertions for the lists -/

/-- The insertion makes a record for an owner in a scope, of a type. -/
def Entry.Makes (entry : Entry) (scope name type : CString) : Prop :=
  (entry.scope = scope ∧ entry.domain = name ∧ entry.type = type) ∧
    valueTexts entry.type entry.values ≠ none

/-- The insertions for a `records` object make records for its lists. -/
theorem exists_typeEntries_iff {records : CJSON} {owner place scope name type : CString} :
    (∃ entry ∈ typeEntries records owner place, entry.Makes scope name type) ↔
      place = scope ∧ owner = name ∧ HasList records type := by
  constructor
  · rintro ⟨entry, member, ⟨rfl, rfl, rfl⟩, readable⟩
    obtain ⟨child, inside, made⟩ := List.mem_filterMap.mp member
    obtain ⟨typeName, named, values, found, rfl⟩ : ∃ typeName, child.1 = some typeName ∧
        ∃ values, records.getObjectItem typeName = some values ∧
          { domain := owner, type := typeName, values, scope := place } = entry := by
      simpa [typeEntry, Option.bind_eq_some_iff] using made
    exact ⟨rfl, rfl, List.mem_map.mpr ⟨child, inside, named⟩, values, found, readable⟩
  · rintro ⟨rfl, rfl, key, values, found, readable⟩
    obtain ⟨child, inside, named⟩ := List.mem_map.mp key
    refine ⟨{ domain := owner, type, values, scope := place },
      List.mem_filterMap.mpr ⟨child, inside, ?_⟩, ⟨rfl, rfl, rfl⟩, readable⟩
    simp [typeEntry, named, found]

/-- The insertions for one member of `domains`. -/
def memberEntries (domainName : CString) (domain : CJSON) : List Entry :=
  baseEntries domainName domain ++
    if conflicting domain then []
    else wildcardEntries domainName domain ++ subdomainEntries domainName domain

theorem exists_baseEntries_iff {domainName : CString} {domain : CJSON}
    {scope name type : CString} :
    (∃ entry ∈ baseEntries domainName domain, entry.Makes scope name type) ↔
      ∃ records, domain.getObjectItem (cstr "records") = some records ∧
        cstr "base" = scope ∧ domainName = name ∧ HasList records type := by
  unfold baseEntries
  cases domain.getObjectItem (cstr "records") with
  | none => simp
  | some records => simp [exists_typeEntries_iff]

theorem exists_wildcardEntries_iff {domainName : CString} {domain : CJSON}
    {scope name type : CString} :
    (∃ entry ∈ wildcardEntries domainName domain, entry.Makes scope name type) ↔
      ∃ wildcards records, domain.getObjectItem (cstr "wildcards") = some wildcards ∧
        wildcards.getObjectItem (cstr "records") = some records ∧ cstr "wildcard" = scope ∧
        snprintf 512 (cstr "*." ++ domainName) = name ∧ HasList records type := by
  unfold wildcardEntries
  cases domain.getObjectItem (cstr "wildcards") with
  | none => simp
  | some wildcards =>
      simp only [Option.some.injEq, exists_eq_left', exists_and_left]
      cases wildcards.getObjectItem (cstr "records") with
      | none => simp
      | some records => simp [exists_typeEntries_iff]

theorem exists_subdomainEntries_iff {domainName : CString} {domain : CJSON}
    {scope name type : CString} :
    (∃ entry ∈ subdomainEntries domainName domain, entry.Makes scope name type) ↔
      ∃ subdomains subdomainName subdomain records,
        domain.getObjectItem (cstr "subdomains") = some subdomains ∧
        (subdomainName, subdomain) ∈ subdomains.children ∧
        subdomain.getObjectItem (cstr "records") = some records ∧ cstr "subdomain" = scope ∧
        snprintf 512 (Option.getD subdomainName (cstr "(null)") ++ cstr "." ++ domainName) = name ∧
        HasList records type := by
  unfold subdomainEntries
  cases domain.getObjectItem (cstr "subdomains") with
  | none => simp
  | some subdomains =>
      constructor
      · rintro ⟨entry, member, makes⟩
        obtain ⟨⟨subdomainName, subdomain⟩, inside, made⟩ := List.mem_flatMap.mp member
        cases found : subdomain.getObjectItem (cstr "records") with
        | none =>
            simp only [found] at made
            cases made
        | some records =>
            simp only [found] at made
            exact ⟨subdomains, subdomainName, subdomain, records, rfl, inside, found,
              exists_typeEntries_iff.mp ⟨entry, made, makes⟩⟩
      · rintro ⟨_, subdomainName, subdomain, records, ⟨rfl⟩, inside, found, given⟩
        obtain ⟨entry, made, makes⟩ := exists_typeEntries_iff.mpr given
        exact ⟨entry, List.mem_flatMap.mpr ⟨(subdomainName, subdomain), inside,
          by simpa only [found] using made⟩, makes⟩

theorem exists_mem_append_iff {first second : List Entry} {scope name type : CString} :
    (∃ entry ∈ first ++ second, entry.Makes scope name type) ↔
      (∃ entry ∈ first, entry.Makes scope name type) ∨
        ∃ entry ∈ second, entry.Makes scope name type := by
  simp only [List.mem_append, or_and_right, exists_or]

/-- **The insertions for a member of `domains`** make records for the lists it
gives. -/
theorem exists_memberEntries_iff {domainName : CString} {domain : CJSON}
    {scope name type : CString} :
    (∃ entry ∈ memberEntries domainName domain, entry.Makes scope name type) ↔
      ∃ records, OwnsRecords domainName domain scope name records ∧ HasList records type := by
  rw [memberEntries, exists_mem_append_iff, exists_baseEntries_iff]
  cases compatible : conflicting domain with
  | true =>
      constructor
      · rintro (⟨records, found, rfl, rfl, list⟩ | ⟨entry, member, _⟩)
        · exact ⟨records, .base found, list⟩
        · cases member
      · rintro ⟨records, given, list⟩
        cases given with
        | base found => exact .inl ⟨records, found, rfl, rfl, list⟩
        | wildcard other => cases compatible.symm.trans other
        | subdomain other => cases compatible.symm.trans other
  | false =>
      rw [if_neg Bool.false_ne_true, exists_mem_append_iff, exists_wildcardEntries_iff,
        exists_subdomainEntries_iff]
      constructor
      · rintro (⟨records, found, rfl, rfl, list⟩ |
          ⟨wildcards, records, found, inside, rfl, rfl, list⟩ |
          ⟨subdomains, subdomainName, subdomain, records, found, member, inside, rfl, rfl, list⟩)
        · exact ⟨records, .base found, list⟩
        · exact ⟨records, .wildcard compatible found inside, list⟩
        · exact ⟨records, .subdomain compatible found member inside, list⟩
      · rintro ⟨records, given, list⟩
        cases given with
        | base found => exact .inl ⟨records, found, rfl, rfl, list⟩
        | wildcard _ found inside =>
            exact .inr (.inl ⟨_, records, found, inside, rfl, rfl, list⟩)
        | subdomain _ found member inside =>
            exact .inr (.inr ⟨_, _, _, records, found, member, inside, rfl, rfl, list⟩)

theorem domainsEntries_cons (domainName : CString) (domain : CJSON)
    (domains : List (CString × CJSON)) :
    domainsEntries ((domainName, domain) :: domains) =
      memberEntries domainName domain ++
        if conflicting domain then [] else domainsEntries domains := by
  rw [domainsEntries, memberEntries]
  split <;> simp

theorem domainsGive_cons {domainName : CString} {domain : CJSON}
    {domains : List (CString × CJSON)} {scope name type : CString} :
    DomainsGive ((domainName, domain) :: domains) scope name type ↔
      (∃ records, OwnsRecords domainName domain scope name records ∧ HasList records type) ∨
        conflicting domain = false ∧ DomainsGive domains scope name type := by
  constructor
  · rintro ⟨front, ownName, own, rest, records, split, compatible, given, list⟩
    cases front with
    | nil =>
        cases split
        exact .inl ⟨records, given, list⟩
    | cons first front =>
        cases split
        obtain ⟨here, later⟩ := List.forall_mem_cons.mp compatible
        exact .inr ⟨here, front, ownName, own, rest, records, rfl, later, given, list⟩
  · rintro (⟨records, given, list⟩ |
      ⟨here, front, ownName, own, rest, records, rfl, later, given, list⟩)
    · exact ⟨[], domainName, domain, domains, records, rfl, by simp, given, list⟩
    · exact ⟨(domainName, domain) :: front, ownName, own, rest, records, rfl,
        List.forall_mem_cons.mpr ⟨here, later⟩, given, list⟩

/-- **The insertions of the loader** make records for the lists that the domains
give. -/
theorem exists_domainsEntries_iff {domains : List (CString × CJSON)}
    {scope name type : CString} :
    (∃ entry ∈ domainsEntries domains, entry.Makes scope name type) ↔
      DomainsGive domains scope name type := by
  induction domains with
  | nil =>
      constructor
      · rintro ⟨entry, member, _⟩
        cases member
      · rintro ⟨front, ownName, own, rest, records, split, _⟩
        cases front <;> cases split
  | cons member domains ih =>
      obtain ⟨domainName, domain⟩ := member
      rw [domainsEntries_cons, exists_mem_append_iff, exists_memberEntries_iff, domainsGive_cons]
      cases conflicting domain with
      | true => simp
      | false => simp [ih]

/-- The lists are those of the known scopes. -/
theorem OwnsRecords.scope_known {domainName name scope : CString} {domain records : CJSON}
    (given : OwnsRecords domainName domain scope name records) : scope ∈ scopes := by
  cases given <;> simp [scopes]

theorem FileGives.scope_known {file : MappingsFile} {scope name type : CString}
    (given : FileGives parse file scope name type) : scope ∈ scopes := by
  obtain ⟨domains, _, front, domainName, domain, rest, records, _, _, gives, _⟩ := given
  exact gives.scope_known

/-- An insertion that makes a record has one, with the owner and the type and under the
key of the scope. -/
theorem Entry.Makes.record {entry : Entry} {scope name type : CString}
    (makes : entry.Makes scope name type) :
    ∃ record, entry.record = some record ∧ record.domain = name ∧ record.type = type ∧
      record.key = recordKey scope name type := by
  obtain ⟨⟨rfl, rfl, rfl⟩, readable⟩ := makes
  obtain ⟨texts, texted⟩ := Option.ne_none_iff_exists'.mp readable
  exact ⟨_, by rw [Entry.record, texted]; rfl, rfl, rfl, rfl⟩

theorem Entry.makes_of_record {entry : Entry} {record : DNSRecord}
    (recorded : entry.record = some record) :
    entry.Makes entry.scope record.domain record.type := by
  obtain ⟨texts, texted, rfl⟩ := Option.map_eq_some_iff.mp recorded
  exact ⟨⟨rfl, rfl, rfl⟩, by rw [texted]; exact Option.some_ne_none _⟩

theorem fileGives_iff {file : MappingsFile} {scope name type : CString} :
    FileGives parse file scope name type ↔
      ∃ entry ∈ mappingEntries parse file, entry.Makes scope name type := by
  rw [mappingEntries, exists_domainsEntries_iff, FileGives]
  cases fileDomains parse file with
  | none =>
      constructor
      · rintro ⟨domains, found, _⟩
        cases found
      · rintro ⟨front, _, _, rest, _, split, _⟩
        cases front <;> cases split
  | some domains => simp

/-- **What a load puts into an empty store is exclusive** when the file is, whatever
allocations fail. -/
theorem FileExclusive.loaded {file : MappingsFile} (exclusive : FileExclusive parse file)
    (allocations : Allocations) :
    Exclusive (KeyedTable.empty.replaceAll ((mappingRecords parse file).under allocations).2) := by
  intro first firstMember second secondMember _ _ same
  have gives : ∀ record ∈ (KeyedTable.empty : Store).replaceAll
      ((mappingRecords parse file).under allocations).2,
      ∃ scope, FileGives parse file scope record.domain record.type := by
    intro record stored
    have loaded := (KeyedTable.mem_of_mem_replaceAll stored).resolve_left
      (KeyedTable.not_mem_empty record)
    obtain ⟨entry, member, recorded⟩ := mappingRecords_of_entries loaded
    exact ⟨entry.scope, fileGives_iff.mpr ⟨entry, member, entry.makes_of_record recorded⟩⟩
  obtain ⟨scope, given⟩ := gives first firstMember
  obtain ⟨scope', given'⟩ := gives second secondMember
  rw [same] at given
  exact exclusive _ _ _ _ _ given given'

/-- **Where the file is not exclusive, some load is not**: the one in which allocations
fail for everything but two lists of the owner. -/
theorem fileExclusive_of_loaded {file : MappingsFile}
    (all : ∀ allocations, dataAllocated allocations → Exclusive
      (KeyedTable.empty.replaceAll ((mappingRecords parse file).under allocations).2)) :
    FileExclusive parse file := by
  classical
  intro scope scope' name type type' given given'
  by_cases key : recordKey scope name type = recordKey scope' name type'
  · rw [(recordKey_inj_of_scopes given.scope_known given'.scope_known key).2]
  obtain ⟨entry, member, makes⟩ := fileGives_iff.mp given
  obtain ⟨entry', member', makes'⟩ := fileGives_iff.mp given'
  obtain ⟨record, recorded, owner, typed, keyed⟩ := makes.record
  obtain ⟨record', recorded', owner', typed', keyed'⟩ := makes'.record
  obtain ⟨domains, read, _⟩ := id given
  rw [mappingEntries, read, Option.getD_some] at member member'
  obtain ⟨allocations, allocated, built⟩ := exists_allocations_mappingRecords read
    fun other => other = entry ∨ other = entry'
  have only : ∀ other ∈ ((mappingRecords parse file).under allocations).2,
      other = record ∨ other = record' := by
    intro other inside
    rw [built] at inside
    obtain ⟨source, kept, made⟩ := List.mem_filterMap.mp inside
    rcases of_decide_eq_true (List.mem_filter.mp kept).2 with rfl | rfl
    · exact .inl (Option.some.inj (made.symm.trans recorded))
    · exact .inr (Option.some.inj (made.symm.trans recorded'))
  have first : record ∈ ((mappingRecords parse file).under allocations).2 := by
    rw [built]
    exact List.mem_filterMap.mpr ⟨entry, List.mem_filter.mpr ⟨member, by simp⟩, recorded⟩
  have second : record' ∈ ((mappingRecords parse file).under allocations).2 := by
    rw [built]
    exact List.mem_filterMap.mpr ⟨entry', List.mem_filter.mpr ⟨member', by simp⟩, recorded'⟩
  have different : record.key ≠ record'.key := by rwa [keyed, keyed']
  have firstStored : record ∈ (KeyedTable.empty : Store).replaceAll
      ((mappingRecords parse file).under allocations).2 := KeyedTable.mem_replaceAll_of_only
    (fun other inside same => (only other inside).resolve_right fun equal =>
      different (same.symm.trans (congrArg DNSRecord.key equal))) (.inr first)
  have secondStored : record' ∈ (KeyedTable.empty : Store).replaceAll
      ((mappingRecords parse file).under allocations).2 := KeyedTable.mem_replaceAll_of_only
    (fun other inside same => (only other inside).resolve_left fun equal =>
      different ((congrArg DNSRecord.key equal).symm.trans same)) (.inr second)
  have compatible := all allocations allocated record firstStored record' secondStored
  rw [← typed, ← typed']
  refine compatible ⟨scope, given.scope_known, ?_⟩ ⟨scope', given'.scope_known, ?_⟩
    (owner.trans owner'.symm)
  · rw [keyed, owner, typed]
  · rw [keyed', owner', typed']

/-! ## Steps and runs -/

/-- The condition on a command. The value of an `ADD` cannot be read, its scope is none
of the three, or it is compatible with what the store has for its owner; the file of a
`RELOAD` gives no owner both a `CNAME` and another type. -/
def KeepsExclusive (parse : CString → Option CJSON) (store : Store) : Command → Prop
  | .add domain type scope value => addedText type value ≠ none → scope ∈ scopes →
      ∀ other ∈ store, InScope other → other.domain = domain →
        (type = cstr "CNAME" ↔ other.type = cstr "CNAME")
  | .reload file => FileExclusive parse file
  | .delete _ _ _ | .list => True

/-- The record of an `ADD` keeps a store exclusive exactly when it is compatible with
what the store has for its owner. -/
theorem exclusive_added_iff {store : Store} (exclusive : Exclusive store)
    (domain type scope : CString) (values : List CString) :
    Exclusive (store.replace
        { domain, type, key := recordKey scope domain type, values }) ↔
      (scope ∈ scopes → ∀ other ∈ store, InScope other → other.domain = domain →
        (type = cstr "CNAME" ↔ other.type = cstr "CNAME")) := by
  rw [exclusive_replace_iff exclusive]
  constructor
  · intro compatible known other member inScope owner
    by_cases same : other.key = recordKey scope domain type
    · obtain ⟨scope', known', keyed⟩ := inScope
      rw [owner, same] at keyed
      rw [(recordKey_inj_of_scopes known known' keyed).2]
    · exact compatible other member same ⟨scope, known, rfl⟩ inScope owner.symm
  · rintro compatible other member _ ⟨scope', known, keyed⟩ inScope owner
    have same : scope = scope' := by
      simp only [recordKey, List.append_assoc] at keyed
      exact List.append_cancel_right keyed
    exact compatible (same ▸ known) other member inScope owner.symm

/-- **The condition is exact** for every command on an exclusive store. -/
theorem exclusive_next_iff {store : Store} (command : Command) (exclusive : Exclusive store) :
    (∀ allocations, Exclusive (Store.next parse store (command, allocations))) ↔
      KeepsExclusive parse store command := by
  simp only [Store.next, Command.execute_store]
  cases command with
  | add domain type scope value =>
      simp only [KeepsExclusive, Command.inserts]
      constructor
      · intro all some_
        obtain ⟨text, texted⟩ := Option.ne_none_iff_exists'.mp some_
        have added : addedRecord domain type scope value =
            some { domain, type, key := recordKey scope domain type, values := [text] } := by
          rw [addedRecord, texted]
          rfl
        have kept := all []
        rw [addRecords_under added] at kept
        simp only [List.take_nil, List.not_mem_nil, if_false] at kept
        exact (exclusive_added_iff exclusive domain type scope [text]).mp kept
      · intro condition allocations
        rcases always_addRecords domain type scope value allocations with
          nothing | ⟨record, added, result⟩
        · rw [nothing]
          exact exclusive
        · obtain ⟨text, texted, rfl⟩ := Option.map_eq_some_iff.mp added
          rw [result]
          exact (exclusive_added_iff exclusive domain type scope [text]).mpr
            (condition (by rw [texted]; exact Option.some_ne_none text))
  | delete domain type scope =>
      simp only [KeepsExclusive, iff_true]
      intro allocations
      rcases always_deleteRecord store domain type scope allocations with same | result
      · rw [same]
        exact exclusive
      · rw [result]
        exact exclusive_del exclusive _
  | list => simpa [KeepsExclusive] using exclusive
  | reload file =>
      simp only [KeepsExclusive, Command.inserts]
      exact ⟨fun all => fileExclusive_of_loaded fun allocations _ => all allocations,
        FileExclusive.loaded⟩

/-- The initial store of every start is exclusive exactly when the file, if it can be
loaded, is. -/
theorem exclusive_initial_iff (parse : CString → Option CJSON) (file : MappingsFile) :
    (∀ allocations initial,
        (loadDNSMappings parse file KeyedTable.empty).under allocations = (0, initial) →
        Exclusive initial) ↔
      (Loadable parse file → FileExclusive parse file) := by
  have status := mappingRecords_status parse file
  simp only [loadDNSMappings_eq, Alloc.under_map, Prod.mk.injEq]
  constructor
  · intro all loadable
    exact fileExclusive_of_loaded fun allocations allocated =>
      all allocations _ ⟨(status allocations).mpr ⟨loadable, allocated⟩, rfl⟩
  · rintro exclusive allocations _ ⟨success, rfl⟩
    exact (exclusive ((status allocations).mp success).1).loaded allocations

/-- **The stores of a server are all exclusive** in every run that starts from an
exclusive file and whose commands all meet their condition. For the runs of given
commands the conditions are exact. -/
theorem exclusive_along_iff (parse : CString → Option CJSON) (file : MappingsFile) :
    (∀ allocations initial,
      (loadDNSMappings parse file KeyedTable.empty).under allocations = (0, initial) →
      FileExclusive parse file → ∀ steps : List Step,
      Along (Store.next parse) (fun store step => KeepsExclusive parse store step.1)
        initial steps →
      ∀ store ∈ statesAlong (Store.next parse) initial steps, Exclusive store) ∧
    ∀ commands : List Command,
      (∀ allocations initial,
        (loadDNSMappings parse file KeyedTable.empty).under allocations = (0, initial) →
        ∀ steps : List Step, steps.map Prod.fst = commands →
        ∀ store ∈ statesAlong (Store.next parse) initial steps, Exclusive store) ↔
      ((Loadable parse file → FileExclusive parse file) ∧
        ∀ allocations initial,
        (loadDNSMappings parse file KeyedTable.empty).under allocations = (0, initial) →
        ∀ steps : List Step, steps.map Prod.fst = commands →
        Along (Store.next parse) (fun store step => KeepsExclusive parse store step.1)
          initial steps) := by
  have step : ∀ store command, Exclusive store →
      ((∀ allocations, Exclusive (Store.next parse store (command, allocations))) ↔
        KeepsExclusive parse store command) :=
    fun _ command => exclusive_next_iff command
  have start := exclusive_initial_iff parse file
  constructor
  · intro allocations initial loaded exclusive steps met
    exact invariant_along
      (fun store taken kept condition => (step store taken.1 kept).mpr condition taken.2) steps
      (start.mpr (fun _ => exclusive) allocations initial loaded) met
  · intro commands
    constructor
    · intro all
      have first : ∀ allocations initial,
          (loadDNSMappings parse file KeyedTable.empty).under allocations = (0, initial) →
          Exclusive initial := fun allocations initial loaded =>
        all allocations initial loaded (commands.map fun command => (command, []))
          (by rw [List.map_map]; exact List.map_id commands) initial (mem_statesAlong_self _ _)
      exact ⟨start.mp first, fun allocations initial loaded =>
        (along_choices_keeps_iff step commands (first allocations initial loaded)).mp
          (all allocations initial loaded)⟩
    · rintro ⟨exclusive, met⟩ allocations initial loaded
      exact (along_choices_keeps_iff step commands
        (start.mpr exclusive allocations initial loaded)).mpr (met allocations initial loaded)

/-- Two `ADD` commands give one name a `CNAME` and an address. -/
theorem not_exclusive_of_two_adds :
    ¬ ∀ (parse : CString → Option CJSON) (file : MappingsFile) (allocations : Allocations)
      (steps : List Step) (initial : Store),
        (loadDNSMappings parse file KeyedTable.empty).under allocations = (0, initial) →
        ∀ store ∈ statesAlong (Store.next parse) initial steps, Exclusive store := by
  intro all
  have exclusive := all (fun _ => some noDomains) (.contents (cstr "\x7b\"domains\": \x7b\x7d\x7d"))
    [] [(.add (cstr "a") (cstr "CNAME") (cstr "base") (cstr "b"), []),
      (.add (cstr "a") (cstr "A") (cstr "base") (cstr "192.0.2.1"), [])] KeyedTable.empty rfl _
    (List.mem_cons_of_mem _ (List.mem_cons_of_mem _ List.mem_cons_self))
  have compatible := exclusive
    { domain := cstr "a", type := cstr "CNAME", key := cstr "base_a_CNAME", values := [cstr "b"] }
    (KeyedTable.mem_iff.mpr (by decide +kernel))
    { domain := cstr "a", type := cstr "A", key := cstr "base_a_A", values := [cstr "192.0.2.1"] }
    (KeyedTable.mem_iff.mpr (by decide +kernel))
  exact absurd (compatible ⟨cstr "base", by decide, by decide⟩ ⟨cstr "base", by decide, by decide⟩
    rfl) (by decide)

end DnsServer
