import DnsServer.Store.Commands

/-!
# When `RELOAD` is all or nothing

`RELOAD` deletes every record before it opens the file, and the loader notices a
conflict after it has inserted the records in front of it. A command that reports
an error has therefore kept the store exactly when the old store happened to
hold the records that the file defines up to its conflict, and no others
(`reloadAtomic_iff`).
-/

set_option autoImplicit false

namespace DnsServer

open Libc

variable {parse : CString → Option CJSON} {file : MappingsFile} {store : Store}
  {allocations : Allocations}

/-- A reload that reports success leaves what a load builds from nothing, one
that reports an error leaves the store as it was, and so does a load that
returns `-1`. -/
structure ReloadAtomic (parse : CString → Option CJSON) (file : MappingsFile) (store : Store)
    (allocations : Allocations) : Prop where
  succeeded : ((handleReloadCommand parse file store).under allocations).1 = true →
    (loadDNSMappings parse file KeyedTable.empty).under allocations =
      (0, ((handleReloadCommand parse file store).under allocations).2)
  failed : ((handleReloadCommand parse file store).under allocations).1 = false →
    ((handleReloadCommand parse file store).under allocations).2.Same store
  load_failed : ((loadDNSMappings parse file store).under allocations).1 = -1 →
    ((loadDNSMappings parse file store).under allocations).2.Same store

/-- The records a file defines, up to the first domain in conflict. -/
def definedRecords (parse : CString → Option CJSON) (file : MappingsFile)
    (allocations : Allocations) : List DNSRecord :=
  ((mappingRecords parse file).under allocations).2

/-- They are the records of lists of the file: of all that can be read, in the order of the
file, except those for which an allocation fails. -/
theorem definedRecords_sublist (parse : CString → Option CJSON) (file : MappingsFile)
    (allocations : Allocations) :
    (definedRecords parse file allocations).Sublist
      ((mappingEntries parse file).filterMap Entry.record) := by
  rw [definedRecords, mappingRecords, Alloc.under_bind]
  rcases readDomains_under parse file allocations with ⟨read, _⟩ | ⟨read, _⟩
  · rw [read, mappingEntries]
    cases fileDomains parse file with
    | none => exact List.nil_sublist _
    | some domains => exact sublist_buildAll (domainsEntries domains) _
  · rw [read]
    exact List.nil_sublist _

/-- The store holds exactly the records that a list of insertions defines. -/
def HoldsExactly (store : Store) (records : List DNSRecord) : Prop :=
  ∀ key, store.find key = KeyedTable.lastUnder DNSRecord.key records key

/-- Where no allocation fails, that is under each key the record of the last list of the
file that can be read. -/
theorem holdsExactly_lists_iff {parse : CString → Option CJSON} {file : MappingsFile}
    {store : Store} :
    HoldsExactly store (definedRecords parse file []) ↔
      ∀ key, store.find key = KeyedTable.lastUnder DNSRecord.key
        ((mappingEntries parse file).filterMap Entry.record) key := by
  have records : definedRecords parse file [] = (mappingEntries parse file).filterMap Entry.record :=
    mappingRecords_result parse file
  rw [HoldsExactly, records]

/-- What a reload leaves, in terms of the file. -/
theorem handleReloadCommand_under (parse : CString → Option CJSON) (file : MappingsFile)
    (store : Store) (allocations : Allocations) :
    (handleReloadCommand parse file store).under allocations =
      (((mappingRecords parse file).under allocations).1 == 0,
        KeyedTable.empty.replaceAll (definedRecords parse file allocations)) := by
  rw [handleReloadCommand_eq, Alloc.under_map]
  rfl

theorem loadDNSMappings_under (parse : CString → Option CJSON) (file : MappingsFile)
    (store : Store) (allocations : Allocations) :
    (loadDNSMappings parse file store).under allocations =
      (((mappingRecords parse file).under allocations).1,
        store.replaceAll (definedRecords parse file allocations)) := by
  rw [loadDNSMappings_eq, Alloc.under_map]
  rfl

/-- A store that a file defines exactly is the store a reload leaves. -/
theorem same_replaceAll_empty {records : List DNSRecord} :
    (KeyedTable.empty.replaceAll records).Same store ↔ HoldsExactly store records := by
  apply forall_congr'
  intro key
  rw [KeyedTable.find_replaceAll, KeyedTable.find_empty, Option.or_none, eq_comm]

/-- Inserting the records once more does not change such a store. -/
theorem HoldsExactly.same_replaceAll {records : List DNSRecord}
    (exact_ : HoldsExactly store records) : (store.replaceAll records).Same store := by
  intro key
  rw [KeyedTable.find_replaceAll, ← exact_ key, Option.or_self]

/-- **`RELOAD` is all or nothing** exactly when the file can be loaded, or when
the store already held the records that the file defines and no others. -/
theorem reloadAtomic_iff (parse : CString → Option CJSON) (file : MappingsFile) (store : Store)
    (allocations : Allocations) :
    ReloadAtomic parse file store allocations ↔
      (Loadable parse file ∧ dataAllocated allocations) ∨
        HoldsExactly store (definedRecords parse file allocations) := by
  rw [← mappingRecords_status]
  constructor
  · intro atomic
    rcases mappingRecords_status_cases parse file allocations with loaded | failed
    · exact .inl loaded
    · refine .inr (same_replaceAll_empty.mp ?_)
      have kept := atomic.failed
      rw [handleReloadCommand_under, failed] at kept
      exact kept rfl
  · intro condition
    refine ⟨fun success => ?_, fun failure => ?_, fun failure => ?_⟩
    · rw [handleReloadCommand_under] at success ⊢
      rw [loadDNSMappings_under, beq_iff_eq.mp success]
    · rw [handleReloadCommand_under] at failure ⊢
      have notLoaded : ((mappingRecords parse file).under allocations).1 ≠ 0 := by
        simpa using failure
      exact same_replaceAll_empty.mpr (condition.resolve_left notLoaded)
    · rw [loadDNSMappings_under] at failure ⊢
      have notLoaded : ((mappingRecords parse file).under allocations).1 ≠ 0 := by
        rw [failure]
        decide
      exact (condition.resolve_left notLoaded).same_replaceAll

theorem holdsExactly_nil : HoldsExactly store [] ↔ ∀ record, record ∉ store := by
  constructor
  · intro exact_ record member
    have found := KeyedTable.find_eq_some_iff.mpr ⟨member, rfl⟩
    rw [exact_] at found
    cases found
  · intro empty key
    exact KeyedTable.find_eq_none_iff.mpr fun record member => absurd member (empty record)

/-- A file without domains that can be read costs every record. -/
theorem reloadAtomic_refused_iff (refused : fileDomains parse file = none) :
    ReloadAtomic parse file store allocations ↔ ∀ record, record ∉ store := by
  have nothing : definedRecords parse file allocations = [] := by
    rw [definedRecords, mappingRecords, Alloc.under_bind]
    rcases readDomains_under parse file allocations with ⟨read, _⟩ | ⟨read, _⟩
    · rw [read, refused]
      rfl
    · rw [read]
      rfl
  have notLoadable : ¬ Loadable parse file := by
    rintro ⟨domains, found, _⟩
    rw [refused] at found
    cases found
  rw [reloadAtomic_iff, nothing, holdsExactly_nil]
  simp [notLoadable]

/-- With the file gone, a reload after one `ADD` loses the record that was
added. -/
theorem not_reloadAtomic_of_missing_file :
    ¬ ∀ (parse : CString → Option CJSON) (file : MappingsFile) (store : Store)
      (allocations : Allocations), Reachable parse store →
        ReloadAtomic parse file store allocations := by
  intro all
  have atomic := all (fun _ => some noDomains) .missing _ []
    (reachable_empty.added (cstr "a") (cstr "A") (cstr "base") (cstr "192.0.2.1"))
  have same := atomic.failed (by decide +kernel) (cstr "base_a_A")
  exact absurd same (by decide +kernel)

end DnsServer
