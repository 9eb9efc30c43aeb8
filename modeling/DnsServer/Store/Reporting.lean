import DnsServer.Store.Faithful
import DnsServer.Store.Reload
import Mathlib.Data.List.Flatten

/-!
# When a success stands for what was installed

The function that puts a record into the store returns nothing. `add_single_record`
and the loader report success whatever became of their insertions, though both return
`-1` when an allocation of their own fails.

An `ADD` that returns `0` has installed its record exactly when none of the
allocations for the record failed, or the store happened to hold that record. A load
that returns `0` has installed the lists of its file exactly when all of them can be
read, each is the one that is found under its name, none stands in a member that comes
behind another of the same name, and none of the allocations for their records failed
(`reportsInstalled_iff`).
-/

set_option autoImplicit false

namespace DnsServer

open Libc

/-! ## A list of insertions -/

/-- **What an insertion can come to**: its record with all its allocations, or
nothing. -/
theorem Entry.build_cases (entry : Entry) (allocations : Allocations) :
    (∃ record, entry.record = some record ∧ false ∉ allocations.take entry.allocations ∧
      entry.build.run allocations = (some record, allocations.drop entry.allocations)) ∨
    ((entry.record = none ∨ false ∈ allocations.take entry.allocations) ∧
      entry.build.under allocations = none) := by
  cases recorded : entry.record with
  | none =>
      have outcome := entry.always_build allocations
      rw [recorded, or_self] at outcome
      exact .inr ⟨.inl rfl, outcome⟩
  | some record =>
      obtain ⟨all, fails⟩ := Entry.costs_build recorded allocations
      by_cases one : false ∈ allocations.take entry.allocations
      · exact .inr ⟨.inr one, fails one⟩
      · exact .inl ⟨record, rfl, one, all one⟩

/-- All insertions have a record, and none of their allocations fails. -/
def Granted (entries : List Entry) (allocations : Allocations) : Prop :=
  (∀ entry ∈ entries, entry.record ≠ none) ∧
    false ∉ allocations.take (entries.map Entry.allocations).sum

theorem granted_cons {entry : Entry} {entries : List Entry} {allocations : Allocations} :
    Granted (entry :: entries) allocations ↔
      entry.record ≠ none ∧ false ∉ allocations.take entry.allocations ∧
        Granted entries (allocations.drop entry.allocations) := by
  rw [Granted, Granted, List.forall_mem_cons, List.map_cons, List.sum_cons, List.take_add,
    List.mem_append, not_or]
  tauto

theorem buildAll_cons_under (entry : Entry) (entries : List Entry) (allocations : Allocations) :
    (buildAll (entry :: entries)).under allocations =
      (entry.build.under allocations).toList ++
        (buildAll entries).under (entry.build.run allocations).2 := by
  rw [buildAll, Alloc.under_bind, Alloc.under_bind, Alloc.under_pure]

/-- There are no more records than insertions. -/
theorem always_buildAll_length (entries : List Entry) :
    (buildAll entries).Always fun records => records.length ≤ entries.length := by
  induction entries with
  | nil => exact Alloc.always_pure le_rfl
  | cons entry entries ih =>
      refine (Alloc.always_any entry.build).bind fun built _ => ih.bind fun records short =>
        Alloc.always_pure ?_
      rw [List.length_append, List.length_cons]
      cases built with
      | none => simpa using Nat.le_succ_of_le short
      | some record => simpa [Nat.add_comm] using short

/-- **One record for each insertion** is built exactly when all insertions have a
record and none of their allocations fails. -/
theorem length_buildAll_iff (entries : List Entry) (allocations : Allocations) :
    ((buildAll entries).under allocations).length = entries.length ↔
      Granted entries allocations := by
  induction entries generalizing allocations with
  | nil => exact ⟨fun _ => ⟨by simp, by simp⟩, fun _ => rfl⟩
  | cons entry entries ih =>
      rw [granted_cons, buildAll_cons_under, List.length_append, List.length_cons]
      rcases entry.build_cases allocations with ⟨record, recorded, all, run⟩ | ⟨reason, nothing⟩
      · have built : entry.build.under allocations = some record := congrArg Prod.fst run
        rw [built, run, ← ih]
        simp only [Option.toList_some, List.length_singleton, recorded]
        constructor
        · intro whole
          exact ⟨Option.some_ne_none record, all, by omega⟩
        · rintro ⟨_, _, whole⟩
          omega
      · have short := always_buildAll_length entries (entry.build.run allocations).2
        rw [nothing]
        simp only [Option.toList_none, List.length_nil]
        constructor
        · intro whole
          omega
        · rintro ⟨some_, all, _⟩
          exact (reason.elim some_ all).elim

/-- The records are then those of the insertions, in order. -/
theorem buildAll_of_granted {entries : List Entry} {allocations : Allocations}
    (granted : Granted entries allocations) :
    ((buildAll entries).under allocations).map some = entries.map Entry.record := by
  induction entries generalizing allocations with
  | nil => rfl
  | cons entry entries ih =>
      obtain ⟨some_, all, later⟩ := granted_cons.mp granted
      rw [buildAll_cons_under]
      rcases entry.build_cases allocations with ⟨record, recorded, _, run⟩ | ⟨reason, _⟩
      · have built : entry.build.under allocations = some record := congrArg Prod.fst run
        rw [built, run, List.map_append, ih later, List.map_cons, recorded]
        rfl
      · exact (reason.elim some_ all).elim

/-! ## The insertions of a load -/

/-- What a load builds, when it succeeds. -/
theorem definedRecords_eq {parse : CString → Option CJSON} {file : MappingsFile}
    {allocations : Allocations} (loadable : Loadable parse file)
    (allocated : dataAllocated allocations) :
    definedRecords parse file allocations =
      (buildAll ((fileSlots parse file).map Slot.entry)).under (allocations.drop 1) := by
  rw [← mappingEntries_slots loadable]
  obtain ⟨domains, read, _⟩ := loadable
  have run := readDomains_run read allocated
  have domainsRead : (readDomains parse file).under allocations = some domains :=
    congrArg Prod.fst run
  rw [definedRecords, mappingRecords, Alloc.under_bind, domainsRead, run, mappingEntries, read]
  rfl

/-! ## The lists that are present -/

/-- All members of a node under a name, of which `cJSON_GetObjectItem` returns the
first. -/
def membersNamed (node : CJSON) (name : CString) : List CJSON :=
  (node.children.filter fun (key, _) => key.any (sameIgnoringCase name)).map Prod.snd

theorem getObjectItem_sublist (node : CJSON) (name : CString) :
    (node.getObjectItem name).toList.Sublist (membersNamed node name) := by
  rw [CJSON.getObjectItem, membersNamed, ← List.head?_filter, ← List.head?_map]
  cases (node.children.filter fun child => child.1.any (sameIgnoringCase name)).map Prod.snd with
  | nil => exact List.Sublist.refl []
  | cons first rest => exact List.singleton_sublist.mpr List.mem_cons_self

/-- The lists in all `records`, `wildcards` and `subdomains` objects of a domain. -/
def domainLists (domainName : CString) (domain : CJSON) : List Slot :=
  ((membersNamed domain (cstr "records")).flatMap fun records =>
    typeSlots records (cstr "base") (some domainName) domainName) ++
  ((membersNamed domain (cstr "wildcards")).flatMap fun wildcards =>
    (membersNamed wildcards (cstr "records")).flatMap fun wildcard_records =>
      typeSlots wildcard_records (cstr "wildcard") (some (cstr "*." ++ domainName))
        (snprintf 512 (cstr "*." ++ domainName))) ++
  (membersNamed domain (cstr "subdomains")).flatMap fun subdomains =>
    subdomains.children.flatMap fun (subdomainName, subdomain) =>
      (membersNamed subdomain (cstr "records")).flatMap fun subdomain_records =>
        typeSlots subdomain_records (cstr "subdomain")
          (subdomainName.map fun name => name ++ cstr "." ++ domainName)
          (snprintf 512 (subdomainName.getD (cstr "(null)") ++ cstr "." ++ domainName))

/-- The members of an object. -/
def objectMembers : CJSON → List (CString × CJSON)
  | .object members => members
  | _ => []

/-- The lists in all `domains` objects of a file. -/
def presentLists (parse : CString → Option CJSON) : MappingsFile → List Slot
  | .contents bytes =>
    match parse (cutAtNul bytes) with
    | none => []
    | some json => ((membersNamed json (cstr "domains")).flatMap objectMembers).flatMap
        fun (domainName, domain) => domainLists domainName domain
  | _ => []

/-- The first member is among all members of its name. -/
theorem sublist_of_getObjectItem {node child : CJSON} {name : CString} {found : List Slot}
    {lists : CJSON → List Slot} (first : node.getObjectItem name = some child)
    (inside : found.Sublist (lists child)) :
    found.Sublist ((membersNamed node name).flatMap lists) := by
  have all := (getObjectItem_sublist node name).flatMap lists
  rw [first, Option.toList_some, List.flatMap_singleton] at all
  exact inside.trans all

/-- **The loader goes over some of the lists** of a domain. -/
theorem domainSlots_sublist (domainName : CString) (domain : CJSON) :
    (baseSlots domainName domain ++ wildcardSlots domainName domain ++
      subdomainSlots domainName domain).Sublist (domainLists domainName domain) := by
  refine List.Sublist.append (List.Sublist.append ?_ ?_) ?_
  · unfold baseSlots
    cases found : domain.getObjectItem (cstr "records") with
    | none => exact List.nil_sublist _
    | some records => exact sublist_of_getObjectItem found (List.Sublist.refl _)
  · unfold wildcardSlots
    cases found : domain.getObjectItem (cstr "wildcards") with
    | none => exact List.nil_sublist _
    | some wildcards =>
        refine sublist_of_getObjectItem found ?_
        cases inside : wildcards.getObjectItem (cstr "records") with
        | none => simp only [inside, List.nil_sublist]
        | some records =>
            simp only [inside]
            exact sublist_of_getObjectItem inside (List.Sublist.refl _)
  · unfold subdomainSlots
    cases found : domain.getObjectItem (cstr "subdomains") with
    | none => exact List.nil_sublist _
    | some subdomains =>
        refine sublist_of_getObjectItem found (List.Sublist.flatMap_right _ ?_)
        rintro ⟨subdomainName, subdomain⟩ _
        cases inside : subdomain.getObjectItem (cstr "records") with
        | none => simp only [inside, List.nil_sublist]
        | some records =>
            simp only [inside]
            exact sublist_of_getObjectItem inside (List.Sublist.refl _)

theorem fileSlots_sublist (parse : CString → Option CJSON) (file : MappingsFile) :
    (fileSlots parse file).Sublist (presentLists parse file) := by
  cases read : fileDomains parse file with
  | none =>
      rw [fileSlots, read]
      exact List.nil_sublist _
  | some domains =>
      obtain ⟨bytes, json, rfl, _, parsed, found⟩ := fileDomains_some read
      have first := (getObjectItem_sublist json (cstr "domains")).flatMap objectMembers
      rw [found, Option.toList_some, List.flatMap_singleton] at first
      rw [fileSlots, read, Option.getD_some, presentLists]
      simp only [parsed]
      exact (List.Sublist.flatMap_right _ fun member _ =>
        domainSlots_sublist member.1 member.2).trans (first.flatMap _)

/-! ## What a success has to mean -/

/-- `add_single_record` returns `0` only when the store holds its record, and `-1`
only when the store is as it was. -/
structure AddReports (store : Store) (domain type scope value : CString)
    (allocations : Allocations) : Prop where
  success : ((addSingleRecord store domain type scope value).under allocations).1 = 0 →
    ∃ record, addedRecord domain type scope value = some record ∧
      ((addSingleRecord store domain type scope value).under allocations).2.find record.key =
        some record
  failure : ((addSingleRecord store domain type scope value).under allocations).1 = -1 →
    ((addSingleRecord store domain type scope value).under allocations).2 = store

/-- The record that an insertion makes of the list as it is written. -/
def Slot.listed (slot : Slot) : Option DNSRecord :=
  (valueTexts slot.type slot.written).map slot.loads

/-- Every list that is present in a file was installed: the records that the load put into
the store are those of the lists, one for each, in the order of the file. -/
structure ListsInstalled (parse : CString → Option CJSON) (file : MappingsFile)
    (allocations : Allocations) (before after : Store) : Prop where
  each : (presentLists parse file).map Slot.listed =
    (definedRecords parse file allocations).map some
  stored : after = before.replaceAll (definedRecords parse file allocations)

/-- The load returns `0`, and `RELOAD` reports success, only when every list of the
file was installed. -/
structure LoadReports (parse : CString → Option CJSON) (file : MappingsFile) (store : Store)
    (allocations : Allocations) : Prop where
  load : ((loadDNSMappings parse file store).under allocations).1 = 0 →
    ListsInstalled parse file allocations store
      ((loadDNSMappings parse file store).under allocations).2
  reload : ((handleReloadCommand parse file store).under allocations).1 = true →
    ListsInstalled parse file allocations KeyedTable.empty
      ((handleReloadCommand parse file store).under allocations).2

/-! ## When it does -/

/-- No allocation for the record of an `ADD` fails once those for its value have
succeeded, unless the store holds that record already. -/
def RecordAllocated (store : Store) (domain type scope value : CString)
    (allocations : Allocations) : Prop :=
  ∀ record, addedRecord domain type scope value = some record →
    false ∉ allocations.take (1 + valueAllocations type) →
    false ∈ allocations.take (addAllocations type) → store.find record.key = some record

/-- A list that can be read is found under its name. -/
def Slot.Readable (slot : Slot) : Prop :=
  slot.foundTexts ≠ none ∧ slot.foundTexts = valueTexts slot.type slot.written

/-- Every list stands in members that come first under their names: the loader goes over
all of them. -/
def Unshadowed (parse : CString → Option CJSON) (file : MappingsFile) : Prop :=
  presentLists parse file = fileSlots parse file

/-- The allocations of a load: one for the data, and those for the lists. -/
def loadAllocations (slots : List Slot) : Nat :=
  1 + (slots.map fun slot => slot.entry.allocations).sum

theorem Slot.readable_iff {slot : Slot} :
    slot.Readable ↔ slot.entry.record ≠ none ∧ slot.entry.record = slot.listed := by
  have injective : Function.Injective slot.loads := fun first second same =>
    congrArg DNSRecord.values same
  rw [Slot.entry_record, Slot.listed, (Option.map_injective injective).eq_iff, Slot.Readable,
    ne_eq, ne_eq, Option.map_eq_none_iff]

/-- **What an `ADD` can come to**: it is refused, its record is lost, or its record is
stored. -/
theorem addSingleRecord_cases (store : Store) (domain type scope value : CString)
    (allocations : Allocations) :
    ((addSingleRecord store domain type scope value).under allocations = (-1, store) ∧
      ∀ record, addedRecord domain type scope value = some record →
        false ∈ allocations.take (1 + valueAllocations type)) ∨
    ∃ record, addedRecord domain type scope value = some record ∧
      false ∉ allocations.take (1 + valueAllocations type) ∧
      (addSingleRecord store domain type scope value).under allocations =
        (0, if false ∈ allocations.take (addAllocations type) then store
          else store.replace record) := by
  rw [addSingleRecord_eq, Alloc.under_map]
  cases added : addedRecord domain type scope value with
  | none =>
      rw [addRecords_refused added]
      exact .inl ⟨rfl, fun record recorded => by cases recorded⟩
  | some record =>
      rw [addRecords_under added]
      by_cases early : false ∈ allocations.take (1 + valueAllocations type)
      · rw [if_pos early]
        exact .inl ⟨rfl, fun _ _ => early⟩
      · rw [if_neg early]
        refine .inr ⟨record, rfl, early, ?_⟩
        split <;> rfl

/-- **What an `ADD` reports is true** exactly when its record was allocated. -/
theorem addReports_iff (store : Store) (domain type scope value : CString)
    (allocations : Allocations) :
    AddReports store domain type scope value allocations ↔
      RecordAllocated store domain type scope value allocations := by
  rcases addSingleRecord_cases store domain type scope value allocations with
    ⟨refused, early⟩ | ⟨record, added, allocated, done⟩
  · constructor
    · exact fun _ record added fine => absurd (early record added) fine
    · refine fun _ => ⟨fun success => ?_, fun _ => congrArg Prod.snd refused⟩
      rw [refused] at success
      cases success
  · constructor
    · intro reports other same _ late
      cases added.symm.trans same
      obtain ⟨stored, here, found⟩ := reports.success (congrArg Prod.fst done)
      cases added.symm.trans here
      rwa [done, if_pos late] at found
    · intro condition
      refine ⟨fun _ => ⟨record, added, ?_⟩, fun failure => ?_⟩
      · rw [done]
        by_cases late : false ∈ allocations.take (addAllocations type)
        · rw [if_pos late]
          exact condition record added allocated late
        · rw [if_neg late]
          exact KeyedTable.find_replace_self store record
      · rw [done] at failure
        cases failure

/-- Every list that the loader goes over was installed exactly when all of them could be
read and allocated. -/
theorem slots_installed_iff {parse : CString → Option CJSON} {file : MappingsFile}
    {allocations : Allocations} (loadable : Loadable parse file)
    (allocated : dataAllocated allocations) :
    (fileSlots parse file).map Slot.listed = (definedRecords parse file allocations).map some ↔
      (∀ slot ∈ fileSlots parse file, slot.Readable) ∧
        false ∉ allocations.take (loadAllocations (fileSlots parse file)) := by
  have data : false ∉ allocations.take 1 := by
    cases allocations with
    | nil => exact List.not_mem_nil
    | cons outcome rest =>
        rw [List.take_succ_cons, List.take_zero, List.mem_singleton]
        rintro rfl
        exact allocated rfl
  have granted : Granted ((fileSlots parse file).map Slot.entry) (allocations.drop 1) ↔
      (∀ slot ∈ fileSlots parse file, slot.entry.record ≠ none) ∧
        false ∉ allocations.take (loadAllocations (fileSlots parse file)) := by
    rw [Granted, List.forall_mem_map, List.map_map, loadAllocations, List.take_add,
      List.mem_append, not_or]
    exact and_congr_right fun _ => ⟨fun later => ⟨data, later⟩, And.right⟩
  have records : ∀ built : List DNSRecord,
      built.map some = ((fileSlots parse file).map Slot.entry).map Entry.record →
      ((fileSlots parse file).map Slot.listed = built.map some ↔
        ∀ slot ∈ fileSlots parse file, slot.entry.record = slot.listed) := by
    intro built same
    rw [same, List.map_map, List.map_inj_left]
    exact forall₂_congr fun slot _ => eq_comm
  simp only [Slot.readable_iff]
  rw [definedRecords_eq loadable allocated]
  constructor
  · intro each
    have length := congrArg List.length each
    rw [List.length_map, List.length_map] at length
    have all : Granted ((fileSlots parse file).map Slot.entry) (allocations.drop 1) :=
      (length_buildAll_iff _ _).mp (by rw [← length, List.length_map])
    have same := (records _ (buildAll_of_granted all)).mp each
    obtain ⟨read, allocated⟩ := granted.mp all
    exact ⟨fun slot member => ⟨read slot member, same slot member⟩, allocated⟩
  · rintro ⟨readable, allocated⟩
    have all := granted.mpr ⟨fun slot member => (readable slot member).1, allocated⟩
    exact (records _ (buildAll_of_granted all)).mpr fun slot member => (readable slot member).2

/-- A load builds no more records than it goes over lists. -/
theorem length_definedRecords_le {parse : CString → Option CJSON} {file : MappingsFile}
    {allocations : Allocations} (loadable : Loadable parse file)
    (allocated : dataAllocated allocations) :
    (definedRecords parse file allocations).length ≤ (fileSlots parse file).length := by
  rw [definedRecords_eq loadable allocated]
  have short := always_buildAll_length ((fileSlots parse file).map Slot.entry)
    (allocations.drop 1)
  rwa [List.length_map] at short

/-- **Every list that is present was installed** exactly when the loader goes over all of
them, and all of them could be read and allocated. -/
theorem installed_iff {parse : CString → Option CJSON} {file : MappingsFile}
    {allocations : Allocations} (loadable : Loadable parse file)
    (allocated : dataAllocated allocations) :
    (presentLists parse file).map Slot.listed =
        (definedRecords parse file allocations).map some ↔
      Unshadowed parse file ∧ (∀ slot ∈ fileSlots parse file, slot.Readable) ∧
        false ∉ allocations.take (loadAllocations (fileSlots parse file)) := by
  rw [← slots_installed_iff loadable allocated]
  constructor
  · intro each
    have short := length_definedRecords_le loadable allocated
    have length := congrArg List.length each
    rw [List.length_map, List.length_map] at length
    have same : presentLists parse file = fileSlots parse file :=
      ((fileSlots_sublist parse file).eq_of_length_le (by omega)).symm
    exact ⟨same, same ▸ each⟩
  · rintro ⟨same, each⟩
    rw [same]
    exact each

/-- **A load reports its lists** exactly when it goes over all of them, and all of them
could be read and allocated. -/
theorem loadReports_iff (parse : CString → Option CJSON) (file : MappingsFile) (store : Store)
    (allocations : Allocations) :
    LoadReports parse file store allocations ↔
      (Loadable parse file → dataAllocated allocations → Unshadowed parse file ∧
        (∀ slot ∈ fileSlots parse file, slot.Readable) ∧
          false ∉ allocations.take (loadAllocations (fileSlots parse file))) := by
  have status := mappingRecords_status parse file allocations
  have loaded := loadDNSMappings_under parse file store allocations
  have reloaded := handleReloadCommand_under parse file store allocations
  constructor
  · intro reports loadable allocated
    refine (installed_iff loadable allocated).mp (reports.load ?_).each
    rw [loaded]
    exact status.mpr ⟨loadable, allocated⟩
  · intro condition
    have each : ((mappingRecords parse file).under allocations).1 = 0 →
        (presentLists parse file).map Slot.listed =
          (definedRecords parse file allocations).map some := by
      intro success
      obtain ⟨loadable, allocated⟩ := status.mp success
      exact (installed_iff loadable allocated).mpr (condition loadable allocated)
    refine ⟨fun success => ?_, fun success => ?_⟩
    · rw [loaded] at success ⊢
      exact ⟨each success, rfl⟩
    · rw [reloaded] at success ⊢
      exact ⟨each (beq_iff_eq.mp success), rfl⟩

/-- **Success is only reported for what was installed** exactly when the insertions
behind it succeed: an `ADD` allocates its record, unless the store holds that record
already, and a load goes over all lists of its file and reads and allocates them, each
the one that is found under its name. -/
theorem reportsInstalled_iff (parse : CString → Option CJSON) (store : Store)
    (allocations : Allocations) :
    (∀ domain type scope value, AddReports store domain type scope value allocations ↔
      RecordAllocated store domain type scope value allocations) ∧
    ∀ file, LoadReports parse file store allocations ↔
      (Loadable parse file → dataAllocated allocations → Unshadowed parse file ∧
        (∀ slot ∈ fileSlots parse file, slot.Readable) ∧
          false ∉ allocations.take (loadAllocations (fileSlots parse file))) :=
  ⟨fun domain type scope value => addReports_iff store domain type scope value allocations,
    fun file => loadReports_iff parse file store allocations⟩

/-- A number in the place of an address. -/
def numberFile : MappingsFile := .contents (cstr
  "\x7b\"domains\": \x7b\"a\": \x7b\"records\": \x7b\"A\": [1]\x7d\x7d\x7d\x7d")

/-- The load of a list that cannot be read returns `0`, and so does an `ADD` whose
record cannot be allocated. Both leave the store empty. -/
theorem not_reportsInstalled_of_number :
    (loadDNSMappings (fun _ => some (baseTree (cstr "a") (cstr "A") (.array [.number 1])))
      numberFile KeyedTable.empty).under [] = (0, KeyedTable.empty) ∧
    ¬ LoadReports (fun _ => some (baseTree (cstr "a") (cstr "A") (.array [.number 1]))) numberFile
      KeyedTable.empty [] ∧
    (addSingleRecord KeyedTable.empty (cstr "a") (cstr "A") (cstr "base")
      (cstr "192.0.2.1")).under [true, true, true, false] = (0, KeyedTable.empty) ∧
    ¬ AddReports KeyedTable.empty (cstr "a") (cstr "A") (cstr "base") (cstr "192.0.2.1")
      [true, true, true, false] := by
  refine ⟨rfl, fun reports => ?_, rfl, fun reports => ?_⟩
  · exact absurd (reports.load rfl).each (by decide +kernel)
  · obtain ⟨record, _, found⟩ := reports.success rfl
    cases found

end DnsServer
