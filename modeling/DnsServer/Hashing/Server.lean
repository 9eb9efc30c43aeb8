import DnsServer.Hashing.Refinement
import DnsServer.Store.Commands

/-!
# The records of the server in the hash table

Every command of the management interface makes insertions, deletions and clearings
of the table of records. `serverStore_in_hashTable` follows a server from its start
through any commands: the hash table in memory, with the hash function of the header,
holds the records of the store, and searches and listings of the table are those of
the store.

The length of a key is stored in an `unsigned`, so that keys of `2 ^ 32` bytes and
more are cut.
-/

set_option autoImplicit false

namespace DnsServer

open Uthash

variable {parse : CString → Option CJSON}

/-- The bytes of the key of a record that the table compares. -/
def DNSRecord.storedKey (record : DNSRecord) : List UInt8 := strKey record.key

theorem strKey_of_short {text : CString} (short : text.length < 2 ^ 32) : strKey text = text := by
  rw [strKey, Nat.mod_eq_of_lt short, List.take_length]

/-- The insertions of some records, one after the other. -/
inductive Inserts : List DNSRecord → List (Op (List UInt8) DNSRecord) → Prop where
  | nil : Inserts [] []
  | cons {record : DNSRecord} {records : List DNSRecord} {ops : List (Op (List UInt8) DNSRecord)}
      {left : UTHashHandle (List UInt8)} {offer : Offer} (allocated : offer.element.isSome)
      (rest : Inserts records ops) : Inserts (record :: records) (.insert record left offer :: ops)

/-- The operations of the table that a command makes. -/
inductive Makes (parse : CString → Option CJSON) :
    Step → List (Op (List UInt8) DNSRecord) → Prop where
  | add {domain type scope value : CString} {allocations : Allocations}
      {ops : List (Op (List UInt8) DNSRecord)}
      (inserts : Inserts ((Command.add domain type scope value).inserts parse allocations) ops) :
      Makes parse (.add domain type scope value, allocations) ops
  | delete {domain type scope : CString} {allocations : Allocations}
      (allocated : malloc.under allocations = true) :
      Makes parse (.delete domain type scope, allocations)
        [.delete (strKey (recordKey scope domain type))]
  | refused {domain type scope : CString} {allocations : Allocations}
      (failed : malloc.under allocations = false) :
      Makes parse (.delete domain type scope, allocations) []
  | list {allocations : Allocations} : Makes parse (.list, allocations) []
  | reload {file : MappingsFile} {allocations : Allocations}
      {ops : List (Op (List UInt8) DNSRecord)}
      (inserts : Inserts ((Command.reload file).inserts parse allocations) ops) :
      Makes parse (.reload file, allocations) (.clear :: ops)

/-- The keys a command stores or deletes. -/
def Command.keys (parse : CString → Option CJSON) (allocations : Allocations) :
    Command → List CString
  | .delete domain type scope => [recordKey scope domain type]
  | command => (command.inserts parse allocations).map DNSRecord.key

/-- `DELETE` takes the record out unless the allocation of the key fails. -/
theorem deleteRecord_store (store : Store) (domain type scope : CString)
    (allocations : Allocations) :
    ((deleteRecord store domain type scope).under allocations).2 =
      if malloc.under allocations then store.del (recordKey scope domain type) else store := by
  rw [deleteRecord, Alloc.under_bind]
  cases malloc.under allocations with
  | false => rfl
  | true =>
      simp only [if_true]
      cases found : store.find (recordKey scope domain type) with
      | none => exact (KeyedTable.del_of_find_eq_none found).symm
      | some record =>
          rw [← (KeyedTable.find_eq_some_iff.mp found).2]
          rfl

/-- The records of a store, none of which has a key that is cut, are those of a table. -/
structure SameEntries (store : Store) (table : KeyedTable DNSRecord.storedKey) : Prop where
  entries : table.entries = store.entries
  short : ∀ record ∈ store, record.key.length < 2 ^ 32

namespace SameEntries

variable {store : Store} {table : KeyedTable DNSRecord.storedKey}

theorem empty : SameEntries KeyedTable.empty KeyedTable.empty :=
  ⟨rfl, fun record member => absurd member (KeyedTable.not_mem_empty record)⟩

/-- The bytes that are compared decide whether a record is under a key. -/
theorem storedKey_eq_iff (same : SameEntries store table) {key : CString}
    (short : key.length < 2 ^ 32) {record : DNSRecord} (member : record ∈ store) :
    record.storedKey = strKey key ↔ record.key = key := by
  rw [DNSRecord.storedKey, strKey_of_short short, strKey_of_short (same.short record member)]

theorem find (same : SameEntries store table) {key : CString} (short : key.length < 2 ^ 32) :
    table.find (strKey key) = store.find key := by
  apply Option.ext
  intro record
  rw [KeyedTable.find_eq_some_iff, KeyedTable.find_eq_some_iff, KeyedTable.mem_iff, same.entries,
    ← KeyedTable.mem_iff]
  exact and_congr_right fun member => same.storedKey_eq_iff short member

theorem del (same : SameEntries store table) {key : CString} (short : key.length < 2 ^ 32) :
    SameEntries (store.del key) (table.del (strKey key)) where
  entries := by
    show table.entries.filter _ = store.entries.filter _
    rw [same.entries]
    refine List.filter_congr fun record member => ?_
    exact decide_eq_decide.mpr (not_congr (same.storedKey_eq_iff short member))
  short := fun record member => same.short record (KeyedTable.mem_del_iff.mp member).1

theorem replace (same : SameEntries store table) {record : DNSRecord}
    (short : record.key.length < 2 ^ 32) :
    SameEntries (store.replace record) (table.replace record) where
  entries := congrArg (· ++ [record]) (same.del short).entries
  short := fun other member => by
    rcases KeyedTable.mem_replace_iff.mp member with ⟨before, _⟩ | rfl
    · exact same.short other before
    · exact short

theorem inserts {records : List DNSRecord} {ops : List (Op (List UInt8) DNSRecord)}
    (same : SameEntries store table) (inserts : Inserts records ops)
    (short : ∀ record ∈ records, record.key.length < 2 ^ 32) :
    SameEntries (store.replaceAll records) (ops.foldl (fun table op => op.apply table) table) := by
  induction inserts generalizing store table with
  | nil => exact same
  | @cons record records ops left offer allocated rest ih =>
      have replaced := same.replace (short record List.mem_cons_self)
      rw [List.foldl_cons, Op.apply, if_pos allocated]
      exact ih replaced fun other member => short other (List.mem_cons_of_mem record member)

/-- A command does to the store what its operations do to the table. -/
theorem next (same : SameEntries store table) {step : Step}
    {ops : List (Op (List UInt8) DNSRecord)} (makes : Makes parse step ops)
    (short : ∀ key ∈ step.1.keys parse step.2, key.length < 2 ^ 32) :
    SameEntries (store.next parse step) (ops.foldl (fun table op => op.apply table) table) := by
  rw [Store.next, Command.execute_store]
  cases makes with
  | add inserts =>
      exact same.inserts inserts fun record member => short _ (List.mem_map_of_mem member)
  | delete allocated =>
      simp only [deleteRecord_store, allocated, if_true]
      exact same.del (short _ List.mem_cons_self)
  | refused failed =>
      simp only [deleteRecord_store, failed, Bool.false_eq_true, if_false]
      exact same
  | list => exact same
  | reload inserts =>
      exact empty.inserts inserts fun record member => short _ (List.mem_map_of_mem member)

/-- Commands one after the other. -/
theorem run {steps : List Step} {made : List (List (Op (List UInt8) DNSRecord))}
    (same : SameEntries store table) (makes : List.Forall₂ (Makes parse) steps made)
    (short : ∀ step ∈ steps, ∀ key ∈ step.1.keys parse step.2, key.length < 2 ^ 32) :
    SameEntries (steps.foldl (Store.next parse) store)
      (made.flatten.foldl (fun table op => op.apply table) table) := by
  induction makes generalizing store table with
  | nil => exact same
  | @cons step ops steps made first rest ih =>
      rw [List.flatten_cons, List.foldl_append, List.foldl_cons]
      exact ih (same.next first (short step List.mem_cons_self)) fun other member =>
        short other (List.mem_cons_of_mem step member)

end SameEntries

/-- **The store of the server is in the hash table**: from the start through any commands,
with any allocations failing and any addresses from `malloc`, the operations they make on
the hash table meet no fault. The program ends exactly when the table is refused memory.
Otherwise a search in the table finds afterwards the record the store has under a key,
and a loop over the table reads the records of the store. -/
theorem serverStore_in_hashTable (file : MappingsFile) (allocations : Allocations)
    {first : List (Op (List UInt8) DNSRecord)} {steps : List Step}
    {made : List (List (Op (List UInt8) DNSRecord))} {bound : Nat}
    (loads : Inserts ((mappingRecords parse file).under allocations).2 first)
    (makes : List.Forall₂ (Makes parse) steps made)
    (shortFile : ∀ record ∈ ((mappingRecords parse file).under allocations).2,
      record.key.length < 2 ^ 32)
    (short : ∀ step ∈ steps, ∀ key ∈ step.1.keys parse step.2, key.length < 2 ^ 32)
    (limited : ∀ op ∈ first ++ made.flatten, op.Limited)
    (enough : (first ++ made.flatten).length < bound) :
    Ends (SomeRefused hashJen DNSRecord.storedKey bound (first ++ made.flatten) (Blocks.empty, none))
      (runOps hashJen DNSRecord.storedKey bound (first ++ made.flatten)) fun state =>
      let store := steps.foldl (Store.next parse)
        ((loadDNSMappings parse file KeyedTable.empty).under allocations).2
      (∀ key : CString, key.length < 2 ^ 32 →
        ∃ out, hashFind hashJen bound state.1 state.2 (strKey key) = .ok out ∧
          (out.bind fun a => (state.1.elements a).map Element.value) = store.find key) ∧
      listElements bound state.1 state.2 = .ok store.entries := by
  have same : SameEntries
      (steps.foldl (Store.next parse)
        ((loadDNSMappings parse file KeyedTable.empty).under allocations).2)
      (applyOps DNSRecord.storedKey (first ++ made.flatten)) := by
    rw [loadDNSMappings_eq, Alloc.under_map, applyOps, List.foldl_append]
    exact (SameEntries.empty.inserts loads shortFile).run makes short
  refine (hashTable_agrees hashJen DNSRecord.storedKey _ enough limited).imp fun state => ?_
  rintro ⟨finds, lists⟩
  refine ⟨fun key shortKey => ?_, ?_⟩
  · obtain ⟨out, run, found⟩ := finds (strKey key)
    exact ⟨out, run, found.trans (same.find shortKey)⟩
  · rw [← same.entries]
    exact lists

/-- The handle that `malloc` leaves, and what it offers. -/
def someInsertion (record : DNSRecord) : Op (List UInt8) DNSRecord :=
  .insert record
    { tbl := 7, prev := some 7, next := none, hh_prev := none, hh_next := some 7, key := [],
      hashv := 0 }
    { element := some 1, table := some 2, grants := fun size => size ≤ 2 ^ 20 }

/-- The record of an `ADD` to a server without records. -/
def addedAddress : DNSRecord :=
  { domain := [97], type := [65], key := recordKey [98] [97] [65], values := [[49]] }

theorem returns_addedAddress :
    runOps hashJen DNSRecord.storedKey 3 [someInsertion addedAddress] ≠ .error .exit := by
  have returned :
      (runOps hashJen DNSRecord.storedKey 3 [someInsertion addedAddress]).isOk = true := by
    decide +kernel
  intro exit
  rw [exit] at returned
  cases returned

theorem serverStore_in_hashTable_added :
    ∃ state, runOps hashJen DNSRecord.storedKey 3 [someInsertion addedAddress] = .ok state ∧
      let store := [((.add [97] [65] [98] [49], []) : Step)].foldl
        (Store.next fun _ => some noDomains)
        ((loadDNSMappings (fun _ => some noDomains) (.contents [49]) KeyedTable.empty).under []).2
      (∀ key : CString, key.length < 2 ^ 32 →
        ∃ out, hashFind hashJen 3 state.1 state.2 (strKey key) = .ok out ∧
          (out.bind fun a => (state.1.elements a).map Element.value) = store.find key) ∧
      listElements 3 state.1 state.2 = .ok store.entries :=
  (@serverStore_in_hashTable (fun _ => some noDomains) (.contents [49]) [] []
    [(.add [97] [65] [98] [49], [])] [[someInsertion addedAddress]]
    3 .nil (.cons (.add (.cons rfl .nil)) .nil) (fun _ member => (List.not_mem_nil member).elim)
    (by decide)
    (by simp [someInsertion, Op.Limited, Offer.Limited]) (by decide)).returns returns_addedAddress

end DnsServer
