import Mathlib.Data.List.Forall2
import DnsServer.Model.Records

/-!
# The loader as a list of insertions

The nested loops of `loadDNSMappings` make one insertion after the other, and
which ones they make depends on the file alone. `Entry` is such an insertion,
`mappingEntries` lists the insertions of a file, and `conflicting` is the one
check that stops the list. Running the loader on a store is then running the
insertions and replacing what they built, whatever allocations fail
(`loadDNSMappings_eq`).
-/

set_option autoImplicit false

namespace DnsServer

open Libc

/-! ## Members of small objects -/

/-- The member of an object under its own name. -/
theorem getObjectItem_single (name : CString) (node : CJSON) :
    (CJSON.object [(name, node)]).getObjectItem name = some node := by
  simp [CJSON.getObjectItem, CJSON.children]

theorem getObjectItem_other {name other : CString} (node : CJSON)
    (different : sameIgnoringCase other name = false) :
    (CJSON.object [(name, node)]).getObjectItem other = none := by
  simp [CJSON.getObjectItem, CJSON.children, different]

/-! ## One insertion -/

/-- The arguments of one `add_record_to_hash`. -/
structure Entry where
  domain : CString
  type : CString
  values : CJSON
  scope : CString

/-- The record an insertion puts into the store, if it can be built. -/
def Entry.build (entry : Entry) : Alloc (Option DNSRecord) := do
  match ← createDnsRecord entry.domain entry.type entry.scope with
  | none => return none
  | some record => parseValuesToRecord record entry.values

/-- An insertion replaces the record under its key, if it can be built. -/
theorem addRecordToHash_eq (store : Store) (entry : Entry) :
    addRecordToHash store entry.domain entry.type entry.values entry.scope =
      (fun built => store.replaceAll built.toList) <$> entry.build := by
  simp only [addRecordToHash, Entry.build, map_bind]
  apply congrArg (createDnsRecord entry.domain entry.type entry.scope >>= ·)
  funext record
  cases record with
  | none => rfl
  | some record =>
      simp only [map_eq_pure_bind]
      apply congrArg (parseValuesToRecord record entry.values >>= ·)
      funext built
      cases built <;> rfl

/-- The texts of a list of values, if every element has one. -/
def valueTexts (type : CString) (values : CJSON) : Option (List CString) :=
  if values.children = [] then none else (values.children.map Prod.snd).mapM (valueText type)

theorem mapM_cons_eq_some {α β : Type} {f : α → Option β} {first : α} {rest : List α}
    {results : List β} : (first :: rest).mapM f = some results ↔
      ∃ one more, f first = some one ∧ rest.mapM f = some more ∧ results = one :: more := by
  rw [List.mapM_cons]
  cases f first with
  | none => simp
  | some one => cases rest.mapM f <;> simp [eq_comm]

/-- The texts stand for the elements, one for one. -/
theorem forall₂_of_mapM {type : CString} {items : List CJSON} :
    ∀ {texts : List CString}, items.mapM (valueText type) = some texts →
      List.Forall₂ (fun item text => valueText type item = some text) items texts := by
  induction items with
  | nil =>
      rintro texts ⟨⟩
      exact .nil
  | cons item items ih =>
      intro texts texted
      obtain ⟨text, rest, here, there, rfl⟩ := mapM_cons_eq_some.mp texted
      exact .cons here (ih there)

/-- A list of values that has its texts has at least one, and one for each
element. -/
theorem valueTexts_eq_some {type : CString} {values : CJSON} {texts : List CString}
    (texted : valueTexts type values = some texts) :
    texts ≠ [] ∧ List.Forall₂ (fun item text => valueText type item = some text)
      (values.children.map Prod.snd) texts := by
  unfold valueTexts at texted
  split at texted
  · cases texted
  · next some_ =>
    have each := forall₂_of_mapM texted
    refine ⟨?_, each⟩
    rintro rfl
    exact some_ (List.map_eq_nil_iff.mp (List.forall₂_nil_right_iff.mp each))

/-- The record of an insertion none of whose allocations fails. -/
def Entry.record (entry : Entry) : Option DNSRecord :=
  (valueTexts entry.type entry.values).map fun texts =>
    { domain := entry.domain, type := entry.type,
      key := recordKey entry.scope entry.domain entry.type, values := texts }

theorem yields_parseItems (type : CString) (items : List CJSON) :
    (parseItems type items).Yields (items.mapM (valueText type)) := by
  induction items with
  | nil => rfl
  | cons item items ih =>
      rw [parseItems, List.mapM_cons]
      cases valueText type item with
      | none => rfl
      | some text =>
          refine Alloc.yields_malloc.bind (ih.bind ?_)
          cases items.mapM (valueText type) <;> rfl

/-- Converting the elements either fails or gives all their texts. -/
theorem always_parseItems (type : CString) (items : List CJSON) :
    (parseItems type items).Always fun texts =>
      texts = none ∨ texts = items.mapM (valueText type) := by
  induction items with
  | nil => exact Alloc.always_pure (.inr rfl)
  | cons item items ih =>
      rw [parseItems, List.mapM_cons]
      cases valueText type item with
      | none => exact Alloc.always_pure (.inl rfl)
      | some text =>
          refine (Alloc.always_any malloc).bind fun allocated _ => ?_
          cases allocated with
          | false => exact Alloc.always_pure (.inl rfl)
          | true =>
              refine ih.bind fun texts built => Alloc.always_pure ?_
              rcases built with rfl | rfl
              · exact .inl rfl
              · right
                cases items.mapM (valueText type) <;> rfl

/-- **Without a failure an insertion builds its record.** -/
theorem Entry.yields_build (entry : Entry) : entry.build.Yields entry.record := by
  have created : (createDnsRecord entry.domain entry.type entry.scope).Yields (some
      { domain := entry.domain, type := entry.type,
        key := recordKey entry.scope entry.domain entry.type, values := [] }) :=
    (Alloc.yields_mallocs 4).bind rfl
  apply created.bind
  simp only [parseValuesToRecord, Entry.record, valueTexts, CJSON.getArraySize]
  by_cases empty : entry.values.children = []
  · rw [if_pos (by simp [empty]), if_pos empty]
    rfl
  · have some_ : ¬ entry.values.children.length ≤ 0 := by
      simpa using empty
    rw [if_neg some_, if_neg empty]
    apply Alloc.yields_malloc.bind
    apply (yields_parseItems entry.type (entry.values.children.map Prod.snd)).bind
    cases (entry.values.children.map Prod.snd).mapM (valueText entry.type) <;> rfl

/-- **Whatever allocations fail**, an insertion builds its record or none. -/
theorem Entry.always_build (entry : Entry) :
    entry.build.Always fun built => built = none ∨ built = entry.record := by
  have created : (createDnsRecord entry.domain entry.type entry.scope).Always fun record =>
      record = none ∨ record = some
        { domain := entry.domain, type := entry.type,
          key := recordKey entry.scope entry.domain entry.type, values := [] } := by
    refine (Alloc.always_any (mallocs 4)).bind fun allocated _ => ?_
    cases allocated with
    | false => exact Alloc.always_pure (.inl rfl)
    | true => exact Alloc.always_pure (.inr rfl)
  refine created.bind fun record outcome => ?_
  rcases outcome with rfl | rfl
  · exact Alloc.always_pure (.inl rfl)
  simp only [parseValuesToRecord, Entry.record, valueTexts, CJSON.getArraySize]
  by_cases empty : entry.values.children = []
  · rw [if_pos (by simp [empty])]
    exact Alloc.always_pure (.inl rfl)
  have some_ : ¬ entry.values.children.length ≤ 0 := by simpa using empty
  rw [if_neg some_, if_neg empty]
  refine (Alloc.always_any malloc).bind fun allocated _ => ?_
  cases allocated with
  | false => exact Alloc.always_pure (.inl rfl)
  | true =>
      refine (always_parseItems entry.type (entry.values.children.map Prod.snd)).bind
        fun texts outcome => ?_
      rcases outcome with rfl | rfl
      · exact Alloc.always_pure (.inl rfl)
      · cases (entry.values.children.map Prod.snd).mapM (valueText entry.type) with
        | none => exact Alloc.always_pure (.inl rfl)
        | some texts => exact Alloc.always_pure (.inr rfl)

/-- Elements that all have a text make one allocation each. -/
theorem costs_parseItems {type : CString} {items : List CJSON} :
    ∀ {texts : List CString}, items.mapM (valueText type) = some texts →
      (parseItems type items).Costs items.length (some texts) := by
  induction items with
  | nil =>
      rintro texts ⟨⟩
      exact Alloc.costs_pure (some [])
  | cons item items ih =>
      intro texts texted
      obtain ⟨text, rest, here, there, rfl⟩ := mapM_cons_eq_some.mp texted
      simp only [parseItems, here]
      exact Alloc.Costs.malloc
        (@Alloc.Costs.bind _ _ _ _ items.length 0 _ _ (ih there) rfl (Alloc.costs_pure _))

/-- The allocations of an insertion: four for the record, one for the array of its
values, one for each value. -/
def Entry.allocations (entry : Entry) : Nat := 4 + (entry.values.children.length + 1)

/-- An insertion that has a record makes these allocations. -/
theorem Entry.costs_build {entry : Entry} {record : DNSRecord}
    (recorded : entry.record = some record) :
    entry.build.Costs entry.allocations (some record) := by
  obtain ⟨texts, texted, rfl⟩ := Option.map_eq_some_iff.mp recorded
  have created : (createDnsRecord entry.domain entry.type entry.scope).Costs 4 (some
      { domain := entry.domain, type := entry.type,
        key := recordKey entry.scope entry.domain entry.type, values := [] }) :=
    Alloc.costs_mallocs 4 _
  unfold valueTexts at texted
  split at texted
  · cases texted
  · next some_ =>
    have items := costs_parseItems texted
    rw [List.length_map] at items
    have positive : ¬ entry.values.getArraySize ≤ 0 := by simpa [CJSON.getArraySize] using some_
    refine @Alloc.Costs.bind _ _ _ _ 4 (entry.values.children.length + 1) _ _ created rfl ?_
    simp only [parseValuesToRecord]
    rw [if_neg positive]
    exact Alloc.Costs.malloc
      (@Alloc.Costs.bind _ _ _ _ entry.values.children.length 0 _ _ items rfl (Alloc.costs_pure _))

/-! ## The insertions of a file -/

/-- The insertion for one name of a type. -/
def typeEntry (records : CJSON) (name scope : CString) (typeName : Option CString) :
    Option Entry := do
  let type ← typeName
  let values ← records.getObjectItem type
  return { domain := name, type, values, scope }

/-- The insertions of one loop over the types of a `records` object. -/
def typeEntries (records : CJSON) (name scope : CString) : List Entry :=
  records.children.filterMap fun child => typeEntry records name scope child.1

/-- An object with one type asks for one insertion. -/
theorem typeEntries_single (type name scope : CString) (values : CJSON) :
    typeEntries (.object [(type, values)]) name scope = [{ domain := name, type, values, scope }] := by
  simp [typeEntries, CJSON.children, typeEntry, getObjectItem_single]

/-- The insertions of the base records of a domain. -/
def baseEntries (domainName : CString) (domain : CJSON) : List Entry :=
  match domain.getObjectItem (cstr "records") with
  | none => []
  | some records => typeEntries records domainName (cstr "base")

/-- The insertions of the wildcard records of a domain. -/
def wildcardEntries (domainName : CString) (domain : CJSON) : List Entry :=
  match domain.getObjectItem (cstr "wildcards") with
  | none => []
  | some wildcards =>
    match wildcards.getObjectItem (cstr "records") with
    | none => []
    | some wildcard_records =>
        typeEntries wildcard_records (snprintf 512 (cstr "*." ++ domainName)) (cstr "wildcard")

/-- The insertions of the records of the subdomains of a domain. -/
def subdomainEntries (domainName : CString) (domain : CJSON) : List Entry :=
  match domain.getObjectItem (cstr "subdomains") with
  | none => []
  | some subdomains =>
    subdomains.children.flatMap fun (subdomainName, subdomain) =>
      match subdomain.getObjectItem (cstr "records") with
      | none => []
      | some subdomain_records =>
          typeEntries subdomain_records
            (snprintf 512 (subdomainName.getD (cstr "(null)") ++ cstr "." ++ domainName))
            (cstr "subdomain")

/-- The base records of a domain list a `CNAME` and another type. -/
def conflicting (domain : CJSON) : Bool :=
  match domain.getObjectItem (cstr "records") with
  | none => false
  | some records => (cnameFlags records).1 && (cnameFlags records).2

/-- The insertions up to the first domain with a conflict, whose base records
are still inserted. -/
def domainsEntries : List (CString × CJSON) → List Entry
  | [] => []
  | (domainName, domain) :: domains =>
    baseEntries domainName domain ++
      if conflicting domain then []
      else wildcardEntries domainName domain ++ subdomainEntries domainName domain ++
        domainsEntries domains

/-- Run insertions and collect the records they build. -/
def buildAll : List Entry → Alloc (List DNSRecord)
  | [] => return []
  | entry :: entries => do
    let built ← entry.build
    return built.toList ++ (← buildAll entries)

theorem buildAll_append (first second : List Entry) :
    buildAll (first ++ second) = (do return (← buildAll first) ++ (← buildAll second)) := by
  induction first with
  | nil => simp [buildAll]
  | cons entry first ih =>
      simp only [List.cons_append, buildAll, ih, bind_assoc, pure_bind, List.append_assoc]

theorem yields_buildAll (entries : List Entry) :
    (buildAll entries).Yields (entries.filterMap Entry.record) := by
  induction entries with
  | nil => rfl
  | cons entry entries ih =>
      refine entry.yields_build.bind (ih.bind ?_)
      rw [List.filterMap_cons]
      cases entry.record <;> rfl

/-- Whatever allocations fail, the records that are built are those of some of the
insertions, in their order. -/
theorem sublist_buildAll (entries : List Entry) : (buildAll entries).Always fun records =>
    records.Sublist (entries.filterMap Entry.record) := by
  induction entries with
  | nil => exact Alloc.always_pure (List.Sublist.refl [])
  | cons entry entries ih =>
      refine entry.always_build.bind fun built outcome => ih.bind fun records rest =>
        Alloc.always_pure ?_
      rw [List.filterMap_cons]
      rcases outcome with rfl | rfl
      · cases entry.record with
        | none => exact rest
        | some record => exact rest.cons record
      · cases entry.record with
        | none => exact rest
        | some record => exact rest.cons_cons record

/-- Whatever allocations fail, only records of the insertions are built. -/
theorem always_buildAll (entries : List Entry) : (buildAll entries).Always fun records =>
    ∀ record ∈ records, ∃ entry ∈ entries, entry.record = some record := by
  induction entries with
  | nil => exact Alloc.always_pure (by simp)
  | cons entry entries ih =>
      refine entry.always_build.bind fun built outcome => ih.bind fun records each =>
        Alloc.always_pure fun record member => ?_
      rcases List.mem_append.mp member with here | later
      · have same : built = some record := by simpa using here
        subst same
        exact ⟨entry, List.mem_cons_self, (outcome.resolve_left (Option.some_ne_none record)).symm⟩
      · obtain ⟨other, inside, recorded⟩ := each record later
        exact ⟨other, List.mem_cons_of_mem entry inside, recorded⟩

/-- An insertion whose first allocation fails builds nothing and goes no further. -/
theorem Entry.build_refused (entry : Entry) (rest : Allocations) :
    entry.build.run (false :: rest) = (none, rest) := rfl

theorem buildAll_cons_run {entry : Entry} {entries : List Entry}
    {allocations rest last : Allocations} {built : Option DNSRecord} {records : List DNSRecord}
    (here : entry.build.run allocations = (built, rest))
    (later : (buildAll entries).run rest = (records, last)) :
    (buildAll (entry :: entries)).run allocations = (built.toList ++ records, last) := by
  rw [buildAll, StateT.run_bind, here]
  show (buildAll entries >>= fun more => pure (built.toList ++ more) : Alloc _).run rest = _
  rw [StateT.run_bind, later]
  rfl

/-- **Any selection of the insertions can be the one that is built**: an allocation
fails in front of each of the others. -/
theorem exists_allocations_buildAll (keep : Entry → Prop) [DecidablePred keep]
    (entries : List Entry) : ∃ allocations : Allocations, ∀ rest,
      (buildAll entries).run (allocations ++ rest) =
        ((entries.filter keep).filterMap Entry.record, rest) := by
  induction entries with
  | nil => exact ⟨[], fun rest => rfl⟩
  | cons entry entries ih =>
      obtain ⟨allocations, run⟩ := ih
      have refused : ∀ rest, (buildAll (entry :: entries)).run
          (false :: (allocations ++ rest)) = ((entries.filter keep).filterMap Entry.record, rest) :=
        fun rest => buildAll_cons_run (entry.build_refused _) (run rest)
      by_cases kept : keep entry
      · rw [List.filter_cons_of_pos (by simpa using kept), List.filterMap_cons]
        cases recorded : entry.record with
        | none => exact ⟨false :: allocations, refused⟩
        | some record =>
            refine ⟨List.replicate entry.allocations true ++ allocations, fun rest => ?_⟩
            have built := (Entry.costs_build recorded
              (List.replicate entry.allocations true ++ (allocations ++ rest))).1 (by
                rw [List.take_left' List.length_replicate]
                simp [List.mem_replicate])
            rw [List.drop_left' List.length_replicate] at built
            rw [List.append_assoc]
            exact buildAll_cons_run built (run rest)
      · rw [List.filter_cons_of_neg (by simpa using kept)]
        exact ⟨false :: allocations, refused⟩

/-- A list of insertions, run on a store. -/
def insertAll (entries : List Entry) (store : Store) : Alloc Store :=
  store.replaceAll <$> buildAll entries

theorem insertAll_append (first second : List Entry) (store : Store) :
    insertAll (first ++ second) store = insertAll first store >>= insertAll second := by
  simp [insertAll, buildAll_append, KeyedTable.replaceAll_append]

theorem insertAll_cons (entry : Entry) (entries : List Entry) (store : Store) :
    insertAll (entry :: entries) store =
      addRecordToHash store entry.domain entry.type entry.values entry.scope >>=
        insertAll entries := by
  simp [insertAll, addRecordToHash_eq, buildAll, KeyedTable.replaceAll_append]

/-! ## The loops of the loader -/

theorem loadTypes_eq (records : CJSON) (name scope : CString) (store : Store) :
    loadTypes records name scope store = insertAll (typeEntries records name scope) store := by
  unfold loadTypes typeEntries
  induction records.children generalizing store with
  | nil => rfl
  | cons child children ih =>
      obtain ⟨typeName, value⟩ := child
      rw [List.foldlM_cons, List.filterMap_cons]
      cases typeName with
      | none => exact ih store
      | some typeName =>
          simp only [typeEntry, Option.bind_eq_bind, Option.bind_some]
          cases records.getObjectItem typeName with
          | none => exact ih store
          | some values =>
              simp only [ih, Option.bind_some, Option.pure_def, insertAll_cons]
              rfl

theorem loadBase_eq (domainName : CString) (domain : CJSON) (store : Store) :
    loadBase domainName domain store =
      (fun store => (!conflicting domain, store)) <$>
        insertAll (baseEntries domainName domain) store := by
  unfold loadBase baseEntries conflicting
  cases domain.getObjectItem (cstr "records") with
  | none => rfl
  | some records => simp [loadTypes_eq]

theorem loadWildcards_eq (domainName : CString) (domain : CJSON) (store : Store) :
    loadWildcards domainName domain store =
      insertAll (wildcardEntries domainName domain) store := by
  unfold loadWildcards wildcardEntries
  cases domain.getObjectItem (cstr "wildcards") with
  | none => rfl
  | some wildcards =>
      simp only
      cases wildcards.getObjectItem (cstr "records") with
      | none => rfl
      | some wildcard_records => exact loadTypes_eq _ _ _ _

theorem loadSubdomains_eq (domainName : CString) (domain : CJSON) (store : Store) :
    loadSubdomains domainName domain store =
      insertAll (subdomainEntries domainName domain) store := by
  unfold loadSubdomains subdomainEntries
  cases domain.getObjectItem (cstr "subdomains") with
  | none => rfl
  | some subdomains =>
      simp only
      induction subdomains.children generalizing store with
      | nil => rfl
      | cons child children ih =>
          obtain ⟨subdomainName, subdomain⟩ := child
          rw [List.foldlM_cons, List.flatMap_cons, insertAll_append]
          simp only [ih]
          cases subdomain.getObjectItem (cstr "records") with
          | none => rfl
          | some subdomain_records => simp only [loadTypes_eq]

/-- **The loop over the domains** runs the insertions in front of the first
conflict. -/
theorem loadDomains_eq (domains : List (CString × CJSON)) (store : Store) :
    loadDomains domains store =
      (fun store => (domains.all fun domain => !conflicting domain.2, store)) <$>
        insertAll (domainsEntries domains) store := by
  induction domains generalizing store with
  | nil => rfl
  | cons member domains ih =>
      obtain ⟨domainName, domain⟩ := member
      simp only [loadDomains, loadBase_eq, domainsEntries, List.all_cons]
      cases conflicting domain with
      | true => simp
      | false =>
          simp [loadWildcards_eq, loadSubdomains_eq, ih, insertAll_append]

/-! ## The whole file -/

/-- The members of `domains` in a file that can be read. -/
def fileDomains (parse : CString → Option CJSON) : MappingsFile → Option (List (CString × CJSON))
  | .contents bytes =>
    if bytes.length ≤ 0 then none
    else
      match parse (cutAtNul bytes) with
      | none => none
      | some json =>
        match json.getObjectItem (cstr "domains") with
        | some (.object members) => some members
        | _ => none
  | _ => none

/-- The insertions of a file. -/
def mappingEntries (parse : CString → Option CJSON) (file : MappingsFile) : List Entry :=
  domainsEntries ((fileDomains parse file).getD [])

/-- A file that can be loaded: it has domains, and none of them is in conflict. -/
def Loadable (parse : CString → Option CJSON) (file : MappingsFile) : Prop :=
  ∃ domains, fileDomains parse file = some domains ∧
    ∀ domain ∈ domains, conflicting domain.2 = false

/-- The first allocation is the one for the data of the file. -/
def dataAllocated (allocations : Allocations) : Prop := allocations.head? ≠ some false

/-- What a file asks for: the status of the load, and the records it builds, in
the order in which they are inserted. -/
def mappingRecords (parse : CString → Option CJSON) (file : MappingsFile) :
    Alloc (Int × List DNSRecord) := do
  match ← readDomains parse file with
  | none => return (-1, [])
  | some domains =>
    let records ← buildAll (domainsEntries domains)
    return (if domains.all fun domain => !conflicting domain.2 then 0 else -1, records)

/-- **Loading is replacing the records a file asks for**, whatever the store
holds and whatever allocations fail. -/
theorem loadDNSMappings_eq (parse : CString → Option CJSON) (file : MappingsFile)
    (store : Store) :
    loadDNSMappings parse file store =
      (fun result => (result.1, store.replaceAll result.2)) <$> mappingRecords parse file := by
  simp only [loadDNSMappings, mappingRecords, map_bind]
  apply congrArg (readDomains parse file >>= ·)
  funext domains
  cases domains with
  | none => rfl
  | some domains => simp [loadDomains_eq, insertAll]

theorem yields_readDomains (parse : CString → Option CJSON) (file : MappingsFile) :
    (readDomains parse file).Yields (fileDomains parse file) := by
  cases file with
  | missing => rfl
  | unreadable length =>
      simp only [readDomains]
      split
      · rfl
      · exact Alloc.yields_malloc.bind rfl
  | contents bytes =>
      simp only [readDomains, fileDomains]
      split
      · rfl
      apply Alloc.yields_malloc.bind
      cases parse (cutAtNul bytes) with
      | none => rfl
      | some json =>
          simp only [if_true]
          cases json.getObjectItem (cstr "domains") with
          | none => rfl
          | some member => cases member <;> rfl

/-- What is read of a file, for every outcome of its allocation. -/
theorem readDomains_under (parse : CString → Option CJSON) (file : MappingsFile)
    (allocations : Allocations) :
    (readDomains parse file).under allocations = fileDomains parse file ∧
        (fileDomains parse file ≠ none → dataAllocated allocations) ∨
      (readDomains parse file).under allocations = none ∧ ¬ dataAllocated allocations := by
  cases file with
  | missing => exact .inl ⟨rfl, fun some_ => absurd rfl some_⟩
  | unreadable length =>
      refine .inl ⟨?_, fun some_ => absurd rfl some_⟩
      simp only [readDomains]
      split <;> rfl
  | contents bytes =>
      simp only [readDomains, fileDomains]
      by_cases empty : bytes.length ≤ 0
      · rw [if_pos empty, if_pos empty]
        exact .inl ⟨rfl, fun some_ => absurd rfl some_⟩
      rw [if_neg empty, if_neg empty, Alloc.under_bind]
      have whenAllocated : ∀ rest : Allocations, Alloc.under (match parse (cutAtNul bytes) with
          | none => pure none
          | some json =>
            match json.getObjectItem (cstr "domains") with
            | some (.object members) => pure (some members)
            | _ => pure none) rest = fileDomains parse (.contents bytes) := by
        intro rest
        rw [fileDomains, if_neg empty]
        cases parse (cutAtNul bytes) with
        | none => rfl
        | some json =>
            simp only
            split <;> rfl
      rw [fileDomains, if_neg empty] at whenAllocated
      cases allocations with
      | nil => exact .inl ⟨whenAllocated [], fun _ => by simp [dataAllocated]⟩
      | cons outcome rest =>
          cases outcome with
          | false => exact .inr ⟨rfl, by simp [dataAllocated]⟩
          | true => exact .inl ⟨whenAllocated rest, fun _ => by simp [dataAllocated]⟩

/-- The domains of a file are those of its first `domains` member. -/
theorem fileDomains_some {parse : CString → Option CJSON} {file : MappingsFile}
    {domains : List (CString × CJSON)} (read : fileDomains parse file = some domains) :
    ∃ bytes json, file = .contents bytes ∧ ¬ bytes.length ≤ 0 ∧
      parse (cutAtNul bytes) = some json ∧
      json.getObjectItem (cstr "domains") = some (.object domains) := by
  cases file with
  | missing => cases read
  | unreadable length => cases read
  | contents bytes =>
      simp only [fileDomains] at read
      split at read
      · cases read
      · next positive =>
        cases parsed : parse (cutAtNul bytes) with
        | none =>
            rw [parsed] at read
            cases read
        | some json =>
            simp only [parsed] at read
            split at read
            · next members found =>
              cases read
              exact ⟨bytes, json, rfl, positive, parsed, found⟩
            · cases read

/-- Reading a file whose domains can be read takes the one allocation for its data. -/
theorem readDomains_run {parse : CString → Option CJSON} {file : MappingsFile}
    {domains : List (CString × CJSON)} {allocations : Allocations}
    (read : fileDomains parse file = some domains) (allocated : dataAllocated allocations) :
    (readDomains parse file).run allocations = (some domains, allocations.drop 1) := by
  obtain ⟨bytes, json, rfl, positive, parsed, found⟩ := fileDomains_some read
  simp only [readDomains, if_neg positive, parsed, found]
  cases allocations with
  | nil => rfl
  | cons outcome rest =>
      cases outcome with
      | false => exact absurd rfl allocated
      | true => rfl

/-- The status of a load is `0` or `-1`. -/
theorem mappingRecords_status_cases (parse : CString → Option CJSON) (file : MappingsFile)
    (allocations : Allocations) :
    ((mappingRecords parse file).under allocations).1 = 0 ∨
      ((mappingRecords parse file).under allocations).1 = -1 := by
  rw [mappingRecords, Alloc.under_bind]
  cases (readDomains parse file).under allocations with
  | none => exact .inr rfl
  | some domains =>
      simp only [Alloc.under_bind, Alloc.under_pure]
      split
      · exact .inl rfl
      · exact .inr rfl

/-- A load succeeds exactly for a loadable file whose data can be allocated. -/
theorem mappingRecords_status (parse : CString → Option CJSON) (file : MappingsFile)
    (allocations : Allocations) :
    ((mappingRecords parse file).under allocations).1 = 0 ↔
      Loadable parse file ∧ dataAllocated allocations := by
  rw [mappingRecords, Alloc.under_bind]
  rcases readDomains_under parse file allocations with ⟨read, allocated⟩ | ⟨read, failed⟩
  · rw [read]
    cases found : fileDomains parse file with
    | none => simp [Loadable, found]
    | some domains =>
        have data := allocated (by simp [found])
        simp only [Alloc.under_bind, Alloc.under_pure, Loadable, found, Option.some.injEq,
          exists_eq_left', data, and_true]
        by_cases compatible : domains.all fun domain => !conflicting domain.2
        · simp only [compatible, if_true, true_iff]
          simpa using compatible
        · simp only [compatible]
          simpa using compatible
  · rw [read]
    simp [failed]

/-- Whatever allocations fail, only records of the file's insertions are loaded. -/
theorem mappingRecords_of_entries {parse : CString → Option CJSON} {file : MappingsFile}
    {allocations : Allocations} {record : DNSRecord}
    (member : record ∈ ((mappingRecords parse file).under allocations).2) :
    ∃ entry ∈ mappingEntries parse file, entry.record = some record := by
  rw [mappingRecords, Alloc.under_bind] at member
  rcases readDomains_under parse file allocations with ⟨read, _⟩ | ⟨read, _⟩
  · rw [read] at member
    rw [mappingEntries]
    cases found : fileDomains parse file with
    | none =>
        rw [found] at member
        cases member
    | some domains =>
        rw [found] at member
        exact always_buildAll (domainsEntries domains) _ record member
  · rw [read] at member
    cases member

theorem always_mappingRecords (parse : CString → Option CJSON) (file : MappingsFile) :
    (mappingRecords parse file).Always fun result =>
      ∀ record ∈ result.2, ∃ entry : Entry, entry.record = some record := by
  intro allocations record member
  obtain ⟨entry, _, recorded⟩ := mappingRecords_of_entries member
  exact ⟨entry, recorded⟩

/-- **A load can build any selection of its insertions.** -/
theorem exists_allocations_mappingRecords {parse : CString → Option CJSON} {file : MappingsFile}
    {domains : List (CString × CJSON)} (read : fileDomains parse file = some domains)
    (keep : Entry → Prop) [DecidablePred keep] :
    ∃ allocations, dataAllocated allocations ∧
      ((mappingRecords parse file).under allocations).2 =
        ((domainsEntries domains).filter keep).filterMap Entry.record := by
  obtain ⟨allocations, run⟩ := exists_allocations_buildAll keep (domainsEntries domains)
  have allocated : dataAllocated (true :: allocations) := by simp [dataAllocated]
  have domainsRun := readDomains_run read allocated
  have found : (readDomains parse file).under (true :: allocations) = some domains :=
    congrArg Prod.fst domainsRun
  have built : (buildAll (domainsEntries domains)).under allocations =
      ((domainsEntries domains).filter keep).filterMap Entry.record := by
    have result := congrArg Prod.fst (run [])
    rwa [List.append_nil] at result
  refine ⟨true :: allocations, allocated, ?_⟩
  rw [mappingRecords, Alloc.under_bind, found, domainsRun]
  simp only [Alloc.under_bind, Alloc.under_pure, List.drop_succ_cons, List.drop_zero]
  exact built

/-- Without a failure the records of a file are those of its insertions. -/
theorem mappingRecords_result (parse : CString → Option CJSON) (file : MappingsFile) :
    (mappingRecords parse file).result.2 =
      (mappingEntries parse file).filterMap Entry.record := by
  rw [mappingRecords, (yields_readDomains parse file).result_bind, mappingEntries]
  cases fileDomains parse file with
  | none => rfl
  | some domains =>
      exact congrArg Prod.snd ((yields_buildAll (domainsEntries domains)).result_bind _)

end DnsServer
