import DnsServer.Foundation.KeyedTable
import DnsServer.Hashing.Order

/-!
# The hash table implements the finite map

Seen from outside a hash table is a list of elements with distinct keys
(`KeyedTable`). `Holds` says that the blocks in use are those of a table with these
elements. The operations of the server keep it, whatever the hash function is
(`Op.run_holds`), and so does every run of them (`run_holds`): no `NULL` is
followed, no block is used after it was given back, no loop fails to end, and what is
found or listed is what the finite map says.
-/

set_option autoImplicit false

namespace DnsServer

namespace Uthash

open LinkedList

variable {κ α : Type} {key : α → κ}

/-- A table has the elements of a finite map, in their order. -/
structure Holds (hash : κ → UInt32) (blocks : Blocks κ α) (order : List Addr)
    (table : KeyedTable key) : Prop where
  contents : order.map (fun a => (blocks.elements a).map Element.contents) =
    table.entries.map fun entry => some (entry, key entry)
  unused : order = [] → ∀ t, blocks.tables t = none
  wired : order ≠ [] → ∃ t tbl, Wired hash blocks t tbl order ∧
    ∀ other ≠ t, blocks.tables other = none

/-- No element is in use besides those of the table. -/
def Owned (blocks : Blocks κ α) (order : List Addr) : Prop :=
  ∀ a, a ∉ order → blocks.elements a = none

/-- The blocks in use are those of a table with the elements of a finite map. -/
def Represents (hash : κ → UInt32) (state : Blocks κ α × Option Addr) (table : KeyedTable key) :
    Prop :=
  ∃ order, state.2 = order.head? ∧ Holds hash state.1 order table ∧ Owned state.1 order

theorem represents_empty (hash : κ → UInt32) :
    Represents hash (Blocks.empty, none) (KeyedTable.empty : KeyedTable key) :=
  ⟨[], rfl, ⟨rfl, fun _ _ => rfl, fun absurd => (absurd rfl).elim⟩, fun _ _ => rfl⟩

namespace Holds

variable {hash : κ → UInt32} {blocks : Blocks κ α} {order : List Addr} {table : KeyedTable key}

theorem length_eq (holds : Holds hash blocks order table) :
    order.length = table.entries.length := by
  simpa using congrArg List.length holds.contents

/-- An element of the table stores an entry under its key. -/
theorem entry (holds : Holds hash blocks order table) {a : Addr} (member : a ∈ order) :
    ∃ element, blocks.elements a = some element ∧ element.value ∈ table ∧
      element.hh.key = key element.value := by
  have inside : (blocks.elements a).map Element.contents ∈
      order.map fun a => (blocks.elements a).map Element.contents := List.mem_map_of_mem member
  rw [holds.contents, List.mem_map] at inside
  obtain ⟨entry, isEntry, same⟩ := inside
  obtain ⟨element, there, both⟩ := Option.map_eq_some_iff.mp same.symm
  have value : element.value = entry := congrArg Prod.fst both
  have own : element.hh.key = key entry := congrArg Prod.snd both
  subst value
  exact ⟨element, there, isEntry, own⟩

/-- The position of an element in the order is the one of its entry. -/
theorem split {xs ys : List Addr} {a : Addr} (holds : Holds hash blocks (xs ++ a :: ys) table) :
    ∃ front entry rear, table.entries = front ++ entry :: rear ∧
      xs.map (fun a => (blocks.elements a).map Element.contents) =
        front.map (fun entry => some (entry, key entry)) ∧
      (blocks.elements a).map Element.contents = some (entry, key entry) ∧
      ys.map (fun a => (blocks.elements a).map Element.contents) =
        rear.map fun entry => some (entry, key entry) := by
  have contents := holds.contents.symm
  rw [List.map_append, List.map_cons, List.map_eq_append_iff] at contents
  obtain ⟨front, behind, both, one, more⟩ := contents
  obtain ⟨entry, rear, rfl, same, other⟩ := List.map_eq_cons_iff.mp more
  exact ⟨front, entry, rear, both, one.symm, same.symm, other.symm⟩

/-- What does not change the elements and tables of the order changes nothing. -/
theorem congr {other : Blocks κ α} (holds : Holds hash blocks order table)
    (tables : other.tables = blocks.tables)
    (elements : ∀ a ∈ order, other.elements a = blocks.elements a) :
    Holds hash other order table where
  contents := by
    rw [← holds.contents]
    exact List.map_congr_left fun a member => by rw [elements a member]
  unused := fun empty t => by
    rw [tables]
    exact holds.unused empty t
  wired := fun filled => by
    obtain ⟨t, tbl, wired, apart⟩ := holds.wired filled
    exact ⟨t, tbl, wired.congr (congrFun tables t) elements, fun other different => by
      rw [tables]
      exact apart other different⟩

theorem chained (holds : Holds hash blocks order table) : Chained blocks.next order := by
  by_cases filled : order = []
  · subst filled
    trivial
  · obtain ⟨_, _, wired, _⟩ := holds.wired filled
    exact wired.linked.chained

end Holds

/-! ## Iterating -/

section Iterating

variable {hash : κ → UInt32} {blocks : Blocks κ α} {order : List Addr} {table : KeyedTable key}

theorem following_eq {cells : List Addr} (chained : Chained blocks.next cells)
    (live : ∀ a ∈ cells, ∃ element, blocks.elements a = some element) :
    following blocks cells.head? = .ok cells.tail.head? := by
  cases cells with
  | nil => rfl
  | cons a cells =>
      obtain ⟨element, there⟩ := live a List.mem_cons_self
      have on := chained.1
      rw [Blocks.next, Blocks.link_of_some there] at on
      rw [List.head?_cons, following, Blocks.handle_of_some there, run_bind_ok, on]
      rfl

theorem hashIter_eq {cells : List Addr} {values : List α} (chained : Chained blocks.next cells)
    (stored : cells.map (fun a => (blocks.elements a).map Element.value) = values.map some)
    {bound : Nat} (enough : cells.length < bound) :
    hashIter blocks bound cells.head? cells.tail.head? = .ok values := by
  induction cells generalizing bound values with
  | nil =>
      obtain ⟨bound, rfl⟩ := Nat.exists_eq_add_of_lt enough
      rw [List.map_nil] at stored
      cases List.map_eq_nil_iff.mp stored.symm
      rfl
  | cons a cells ih =>
      obtain ⟨bound, rfl⟩ : ∃ left, bound = left + 1 := ⟨bound - 1, by omega⟩
      obtain ⟨value, values, rfl, same, others⟩ := List.map_eq_cons_iff.mp stored.symm
      obtain ⟨element, there, rfl⟩ := Option.map_eq_some_iff.mp same.symm
      have live : ∀ b ∈ cells, ∃ element, blocks.elements b = some element := by
        intro b member
        have inside := List.mem_map_of_mem
          (f := fun a => (blocks.elements a).map Element.value) member
        rw [← others, List.mem_map] at inside
        obtain ⟨value, _, same⟩ := inside
        obtain ⟨element, there, _⟩ := Option.map_eq_some_iff.mp same.symm
        exact ⟨element, there⟩
      simp only [List.head?_cons, List.tail_cons, hashIter, there, following_eq chained.2 live,
        run_bind_ok]
      rw [ih chained.2 others.symm (by rw [List.length_cons] at enough; omega)]
      rfl

/-- A loop over the table reads its entries in their order. -/
theorem Holds.listElements_eq (holds : Holds hash blocks order table) {bound : Nat}
    (enough : table.entries.length < bound) :
    listElements bound blocks order.head? = .ok table.entries := by
  have live : ∀ a ∈ order, ∃ element, blocks.elements a = some element := fun a member => by
    obtain ⟨element, there, _⟩ := holds.entry member
    exact ⟨element, there⟩
  have stored : order.map (fun a => (blocks.elements a).map Element.value) =
      table.entries.map some := by
    have firsts := congrArg (List.map (Option.map Prod.fst)) holds.contents
    simpa only [List.map_map, Function.comp_def, Option.map_map, Option.map_some,
      Element.contents] using firsts
  rw [listElements, following_eq holds.chained live, run_bind_ok]
  exact hashIter_eq holds.chained stored (by rw [holds.length_eq]; exact enough)

end Iterating

/-! ## Finding and deleting -/

section Finding

variable [DecidableEq κ] {hash : κ → UInt32} {blocks : Blocks κ α} {order : List Addr}
  {table : KeyedTable key}

/-- A search finds the element of the entry under the key. -/
theorem Holds.hashFind_eq (holds : Holds hash blocks order table) (k : κ) {bound : Nat}
    (enough : table.entries.length < bound) :
    ∃ out, hashFind hash bound blocks order.head? k = .ok out ∧
      (∀ a, out = some a → a ∈ order) ∧
      (out.bind fun a => (blocks.elements a).map Element.value) = table.find k := by
  by_cases filled : order = []
  · subst filled
    have nothing : table.entries = [] := by
      simpa using (congrArg List.length holds.contents).symm
    refine ⟨none, rfl, by simp, ?_⟩
    rw [KeyedTable.find, nothing]
    rfl
  · obtain ⟨t, tbl, wired, _⟩ := holds.wired filled
    obtain ⟨head, isHead⟩ : ∃ head, order.head? = some head :=
      Option.isSome_iff_exists.mp (List.isSome_head?.mpr filled)
    obtain ⟨headElement, headThere, headOwn, _⟩ := wired.live head (List.mem_of_mem_head? isHead)
    obtain ⟨bucket, selected⟩ := wired.filled.bucket_of_hash (hash k)
    have hashed : ∀ a ∈ order, ∀ element, blocks.elements a = some element →
        element.hh.hashv = hash element.hh.key := by
      intro a member element there
      obtain ⟨other, otherThere, _, hashed⟩ := wired.live a member
      cases there.symm.trans otherThere
      exact hashed
    have short : ∀ cells : List Addr, cells.Nodup → (∀ a ∈ cells, a ∈ {a | a ∈ order}) →
        cells.length < bound := fun cells distinct inside =>
      length_lt_of_subset distinct inside (by rw [holds.length_eq]; exact enough)
    obtain ⟨out, run, found, missed⟩ := wired.filled.find hashed k selected short
    refine ⟨out, ?_, fun a same => (found a same).1, ?_⟩
    · rw [isHead, hashFind, Blocks.handle_of_some headThere, run_bind_ok, headOwn,
        Blocks.table_of_some wired.there, run_bind_ok, bucketAt_of_getElem? selected, run_bind_ok]
      exact run
    · cases out with
      | none =>
          refine (KeyedTable.find_eq_none_iff.mpr fun entry isEntry same => ?_).symm
          have inside : some (entry, key entry) ∈
              table.entries.map fun entry => some (entry, key entry) := List.mem_map_of_mem isEntry
          rw [← holds.contents, List.mem_map] at inside
          obtain ⟨a, member, stored⟩ := inside
          obtain ⟨element, there, both⟩ := Option.map_eq_some_iff.mp stored
          have own : element.hh.key = key entry := congrArg Prod.snd both
          refine missed rfl a member ?_
          simp [Blocks.hasKey, there, own, same]
      | some a =>
          obtain ⟨member, has⟩ := found a rfl
          obtain ⟨element, there, isEntry, own⟩ := holds.entry member
          have same : element.hh.key = k := by simpa [Blocks.hasKey, there] using has
          rw [Option.bind_some, there, Option.map_some]
          exact (KeyedTable.find_eq_some_iff.mpr ⟨isEntry, own.symm.trans same⟩).symm

end Finding

section Deleting

variable [DecidableEq κ] {hash : κ → UInt32} {blocks : Blocks κ α} {order : List Addr}
  {table : KeyedTable key}

/-- An element is deleted and its block given back. -/
theorem Holds.unlink {xs ys : List Addr} {a : Addr}
    (holds : Holds hash blocks (xs ++ a :: ys) table) :
    ∃ written freed entry,
      hashDelete blocks (xs ++ a :: ys).head? a = .ok (written, (xs ++ ys).head?) ∧
      written.free a = .ok freed ∧ (blocks.elements a).map Element.value = some entry ∧
      Holds hash freed (xs ++ ys) (table.del (key entry)) ∧ freed.elements a = none ∧
      ∀ b ≠ a, (freed.elements b).map Element.contents =
        (blocks.elements b).map Element.contents := by
  obtain ⟨t, tbl, wired, apart⟩ := holds.wired (by simp)
  obtain ⟨front, entry, rear, split, before, own, behind⟩ := holds.split
  obtain ⟨written, run, deleted⟩ := wired.delete
  obtain ⟨absent, _⟩ := List.nodup_cons.mp (List.nodup_middle.mp wired.distinct)
  have storedNow := (deleted.contents a).trans own
  obtain ⟨now, nowThere, _⟩ := Option.map_eq_some_iff.mp storedNow
  let freed : Blocks κ α :=
    { written with elements := Function.update written.elements a none }
  have kept : ∀ b ≠ a, freed.elements b = written.elements b := fun b different =>
    Function.update_of_ne different _ _
  have contents : ∀ b ≠ a, (freed.elements b).map Element.contents =
      (blocks.elements b).map Element.contents := fun b different => by
    rw [kept b different, deleted.contents b]
  have different : ∀ b ∈ xs ++ ys, b ≠ a := fun b member same => absent (same ▸ member)
  refine ⟨written, freed, entry, run, ?_, ?_, ⟨?_, ?_, ?_⟩, Function.update_self _ _ _, contents⟩
  · rw [Blocks.free, nowThere]
  · obtain ⟨element, there, both⟩ := Option.map_eq_some_iff.mp own
    rw [there, Option.map_some]
    exact congrArg some (congrArg Prod.fst both)
  · rw [KeyedTable.entries_del split, List.map_append, List.map_append, ← before, ← behind]
    refine congrArg₂ (· ++ ·) (List.map_congr_left fun b member => ?_)
      (List.map_congr_left fun b member => ?_)
    · exact contents b (different b (List.mem_append_left ys member))
    · exact contents b (different b (List.mem_append_right xs member))
  · intro empty other
    by_cases same : other = t
    · rw [same]
      exact deleted.freed empty
    · exact (deleted.tables other same).trans (apart other same)
  · intro filled
    obtain ⟨changed, rewired⟩ := deleted.wired filled
    refine ⟨t, changed, rewired.congr rfl fun b member => kept b (different b member), ?_⟩
    exact fun other same => (deleted.tables other same).trans (apart other same)

/-- What deletions leave of the elements: those of the old order that are not in the new
one have been given back, and elements outside the order store what they stored. -/
structure Released (blocks : Blocks κ α) (order : List Addr) (written : Blocks κ α)
    (left : List Addr) : Prop where
  inside : ∀ a ∈ left, a ∈ order
  freed : ∀ a ∈ order, a ∉ left → written.elements a = none
  others : ∀ a ∉ order, (written.elements a).map Element.contents =
    (blocks.elements a).map Element.contents

/-- Deleting under a key takes the entry out of the finite map. -/
theorem Holds.deleteElement_eq (holds : Holds hash blocks order table) (k : κ) {bound : Nat}
    (enough : table.entries.length < bound) :
    ∃ written left, deleteElement hash bound blocks order.head? k = .ok (written, left.head?) ∧
      Holds hash written left (table.del k) ∧ Released blocks order written left := by
  obtain ⟨out, run, member, found⟩ := holds.hashFind_eq k enough
  cases out with
  | none =>
      refine ⟨blocks, order, ?_, ?_, fun _ inside => inside,
        fun _ inside outside => absurd inside outside, fun _ _ => rfl⟩
      · rw [deleteElement, run, run_bind_ok]
        rfl
      · rw [KeyedTable.del_of_find_eq_none found.symm]
        exact holds
  | some a =>
      obtain ⟨xs, ys, rfl⟩ := List.append_of_mem (member a rfl)
      obtain ⟨written, freed, entry, deletes, frees, stored, left, gone, others⟩ := holds.unlink
      have under : key entry = k := by
        rw [Option.bind_some, stored] at found
        exact (KeyedTable.find_eq_some_iff.mp found.symm).2
      refine ⟨freed, xs ++ ys, ?_, under ▸ left, fun b inside => ?_, fun b inside outside => ?_,
        fun b outside => others b fun same => ?_⟩
      · rw [deleteElement, run, run_bind_ok]
        simp only [deletes, run_bind_ok, frees, run_pure]
      · exact List.perm_middle.mem_iff.mpr (List.mem_cons_of_mem a inside)
      · rcases List.mem_cons.mp (List.perm_middle.mem_iff.mp inside) with rfl | other
        · exact gone
        · exact absurd other outside
      · exact outside (List.perm_middle.mem_iff.mpr (same ▸ List.mem_cons_self))

/-- The loop that deletes all elements gives back their blocks and the table. -/
theorem Holds.clearLoop_eq (holds : Holds hash blocks order table) {bound : Nat}
    (enough : order.length < bound) :
    ∃ cleared, clearLoop bound blocks order.head? order.head? order.tail.head? =
        .ok (cleared, none) ∧
      (∀ t, cleared.tables t = none) ∧ Released blocks order cleared [] := by
  induction order generalizing blocks table bound with
  | nil =>
      obtain ⟨bound, rfl⟩ := Nat.exists_eq_add_of_lt enough
      exact ⟨blocks, rfl, holds.unused rfl, fun _ inside => inside,
        fun _ inside => absurd inside List.not_mem_nil, fun _ _ => rfl⟩
  | cons a order ih =>
      obtain ⟨bound, rfl⟩ : ∃ left, bound = left + 1 := ⟨bound - 1, by omega⟩
      have front : Holds hash blocks ([] ++ a :: order) table := holds
      obtain ⟨written, freed, entry, deletes, frees, _, left, gone, others⟩ := front.unlink
      rw [List.nil_append] at left deletes
      obtain ⟨cleared, run, tables, released⟩ :=
        ih left (by rw [List.length_cons] at enough; omega : order.length < bound)
      have absent : a ∉ order := by
        obtain ⟨_, _, wired, _⟩ := holds.wired (by simp)
        exact (List.nodup_cons.mp wired.distinct).1
      have onward : following freed order.head? = .ok order.tail.head? :=
        following_eq left.chained fun b member => by
          obtain ⟨element, there, _⟩ := left.entry member
          exact ⟨element, there⟩
      refine ⟨cleared, ?_, tables, by simp, fun b inside _ => ?_, fun b outside => ?_⟩
      · simp only [List.nil_append, List.head?_cons, List.tail_cons, clearLoop] at deletes ⊢
        simp only [deletes, run_bind_ok, frees, onward]
        exact run
      · by_cases same : b = a
        · have emptied := released.others a absent
          rw [gone, Option.map_none, Option.map_eq_none_iff] at emptied
          rw [same]
          exact emptied
        · exact released.freed b ((List.mem_cons.mp inside).resolve_left same) List.not_mem_nil
      · obtain ⟨different, elsewhere⟩ := not_or.mp (mt List.mem_cons.mpr outside)
        exact (released.others b elsewhere).trans (others b different)

end Deleting

/-! ## What is refused -/

/-- An addition is refused what it asks for: the table where there is none yet, else the
array of twice as many buckets. -/
def Offer.RefusesAddition (offer : Offer) (hash : κ → UInt32) (k : κ)
    (state : Blocks κ α × Option Addr) : Prop :=
  (state.2 = none ∧ offer.RefusesTable) ∨
    ∃ head hh tbl, state.2 = some head ∧ state.1.handle head = .ok hh ∧
      state.1.table hh.tbl = .ok tbl ∧ offer.RefusesBuckets tbl (hash k)

/-- An operation is refused an allocation that ends the program. An insertion deletes
the element under its key before it asks for anything. A block that is in use is none
that `malloc` returns. -/
def Op.Refused [DecidableEq κ] (hash : κ → UInt32) (key : α → κ) (bound : Nat)
    (state : Blocks κ α × Option Addr) : Op κ α → Prop
  | .insert value left offer => ∃ add, offer.element = some add ∧
      ((state.1.elements add).isSome ∨
        ∃ after, deleteElement hash bound (state.1.put add ⟨value, left⟩) state.2 (key value) =
            .ok after ∧ offer.RefusesAddition hash (key value) after)
  | .delete _ => False
  | .clear => False

/-- One of the operations is refused an allocation, and those in front of it are not. -/
def SomeRefused [DecidableEq κ] (hash : κ → UInt32) (key : α → κ) (bound : Nat) :
    List (Op κ α) → Blocks κ α × Option Addr → Prop
  | [], _ => False
  | op :: ops, state => op.Refused hash key bound state ∨
      ∃ after, op.run hash key bound state = .ok after ∧ SomeRefused hash key bound ops after

/-! ## Runs -/

section Running

variable [DecidableEq κ] {hash : κ → UInt32} {blocks : Blocks κ α} {head : Option Addr}
  {table : KeyedTable key} {bound : Nat}

/-- An element in a block of its own is inserted. -/
theorem Holds.insertElement_represents {order : List Addr} {add : Addr} {element : Element κ α}
    {offer : Offer} (holds : Holds hash blocks order table)
    (owned : ∀ a, a ∉ order → a ≠ add → blocks.elements a = none) (fresh : add ∉ order)
    (there : blocks.elements add = some element) (enough : table.entries.length + 1 < bound)
    (limited : offer.Limited) :
    Ends (∃ after, deleteElement hash bound blocks order.head? (key element.value) = .ok after ∧
        offer.RefusesAddition hash (key element.value) after)
      (insertElement hash bound blocks order.head? (key element.value) add offer) fun state =>
      Represents hash state (table.replace element.value) := by
  obtain ⟨written, left, run, remaining, released⟩ :=
    holds.deleteElement_eq (key element.value) (by omega : table.entries.length < bound)
  have absent : add ∉ left := fun inside => fresh (released.inside add inside)
  have kept := released.others add fresh
  rw [there, Option.map_some, Option.map_eq_some_iff] at kept
  obtain ⟨now, nowThere, same⟩ := kept
  have value : now.value = element.value := congrArg Prod.fst same
  have short : left.length + 1 < bound := by
    have fewer : (table.del (key element.value)).entries.length ≤ table.entries.length :=
      List.length_filter_le _ _
    rw [remaining.length_eq]
    omega
  -- after the addition, whatever it has left of the table
  have finish : ∀ (t : Addr) (changed : UTHashTable) (last : Blocks κ α),
      (∀ other ≠ t, written.tables other = none) →
      Wired hash last t changed (left ++ [add]) →
      Added written t add now.value (key element.value) last →
      Represents hash (last, (left ++ [add]).head?) (table.replace element.value) := by
    intro t changed last apart wired added
    refine ⟨left ++ [add], rfl, ⟨?_, fun empty => ?_, fun _ => ⟨t, changed, wired, ?_⟩⟩, ?_⟩
    · show _ = ((table.del (key element.value)).entries ++ [element.value]).map _
      rw [List.map_append, List.map_append, ← remaining.contents]
      refine congrArg₂ (· ++ ·) (List.map_congr_left fun a member => ?_) ?_
      · exact added.others a fun equal => absent (equal ▸ member)
      · rw [List.map_singleton, List.map_singleton, added.own, value]
    · exact absurd empty (by simp)
    · exact fun other different => (added.tables other different).trans (apart other different)
    · intro a outside
      obtain ⟨elsewhere, different⟩ := not_or.mp (mt List.mem_append.mpr outside)
      rw [List.mem_singleton] at different
      have gone : written.elements a = none := by
        by_cases inside : a ∈ order
        · exact released.freed a inside elsewhere
        · have before := released.others a inside
          rw [owned a inside different, Option.map_none, Option.map_eq_none_iff] at before
          exact before
      have contents := added.others a different
      rw [gone, Option.map_none, Option.map_eq_none_iff] at contents
      exact contents
  rw [insertElement, run, run_bind_ok]
  simp only [Except.ok.injEq, exists_eq_left']
  by_cases last : left = []
  · subst last
    have refuses : offer.RefusesTable ↔ offer.RefusesAddition hash (key element.value)
        (written, ([] : List Addr).head?) := by
      simp [Offer.RefusesAddition]
    refine ((hashAddKeyptr_first nowThere (remaining.unused rfl) (by simpa using short)
      limited).congr refuses).imp fun state => ?_
    rintro ⟨first, t, changed, wired, added⟩
    have done := finish t changed state.1 (fun other _ => remaining.unused rfl other) wired added
    rw [List.nil_append, List.head?_cons, ← first] at done
    exact done
  · obtain ⟨t, tbl, wired, apart⟩ := remaining.wired last
    have refuses : offer.RefusesBuckets tbl (hash (key element.value)) ↔
        offer.RefusesAddition hash (key element.value) (written, left.head?) := by
      obtain ⟨head, isHead⟩ : ∃ head, left.head? = some head :=
        Option.isSome_iff_exists.mp (List.isSome_head?.mpr last)
      obtain ⟨element, there, own, _⟩ := wired.live head (List.mem_of_mem_head? isHead)
      simp [Offer.RefusesAddition, isHead, Blocks.handle_of_some there, own,
        Blocks.table_of_some wired.there]
    refine ((wired.append last nowThere absent short limited).congr refuses).imp fun state => ?_
    rintro ⟨first, changed, rewired, added⟩
    have done := finish t changed state.1 apart rewired added
    rw [List.head?_append_of_ne_nil _ last, ← first] at done
    exact done

/-- No array of `2 ^ 32` buckets is allocated for the operation. -/
def Op.Limited : Op κ α → Prop
  | .insert _ _ offer => offer.Limited
  | .delete _ => True
  | .clear => True

/-- What an operation does to the finite map. A record that cannot be allocated is not
inserted. -/
def Op.apply (op : Op κ α) (table : KeyedTable key) : KeyedTable key :=
  match op with
  | .insert value _ offer => if offer.element.isSome then table.replace value else table
  | .delete k => table.del k
  | .clear => KeyedTable.empty

/-- An operation is the one of the finite map. -/
theorem Op.run_holds {state : Blocks κ α × Option Addr} (represents : Represents hash state table)
    (op : Op κ α) (enough : table.entries.length + 1 < bound) (limited : op.Limited) :
    Ends (op.Refused hash key bound state) (op.run hash key bound state) fun after =>
      Represents hash after (op.apply table) := by
  obtain ⟨blocks, head⟩ := state
  obtain ⟨order, rfl, holds, owned⟩ := represents
  cases op with
  | insert value left offer =>
      simp only [Op.run, Op.apply, Op.Refused]
      cases offered : offer.element with
      | none => exact Ends.of_ok (by simp) rfl ⟨order, rfl, holds, owned⟩
      | some add =>
          by_cases used : (blocks.elements add).isSome
          · simp only [if_pos used]
            exact Ends.exits ⟨add, rfl, .inl used⟩ rfl
          · simp only [if_neg used, Option.isSome_some, if_true, Option.some.injEq, exists_eq_left']
            have fresh : add ∉ order := fun member => by
              obtain ⟨element, there, _⟩ := holds.entry member
              exact used (by rw [there]; rfl)
            have kept : ∀ a ≠ add, (blocks.put add ⟨value, left⟩).elements a = blocks.elements a :=
              fun a different => Blocks.put_elements_of_ne different
            have stored : (blocks.put add ⟨value, left⟩).elements add = some ⟨value, left⟩ :=
              Blocks.put_elements_self
            have held : Holds hash (blocks.put add ⟨value, left⟩) order table :=
              holds.congr rfl fun a member => kept a fun same => fresh (same ▸ member)
            have inserts := held.insertElement_represents
              (fun a outside different => (kept a different).trans (owned a outside)) fresh
              stored enough limited
            exact inserts.congr (or_iff_right used).symm
  | delete k =>
      obtain ⟨written, left, run, remaining, released⟩ :=
        holds.deleteElement_eq k (by omega : table.entries.length < bound)
      refine Ends.of_ok id run ⟨left, rfl, remaining, fun a outside => ?_⟩
      by_cases inside : a ∈ order
      · exact released.freed a inside outside
      · have before := released.others a inside
        rw [owned a inside, Option.map_none, Option.map_eq_none_iff] at before
        exact before
  | clear =>
      have short : order.length < bound := by rw [holds.length_eq]; omega
      obtain ⟨cleared, run, tables, released⟩ := holds.clearLoop_eq short
      have live : ∀ a ∈ order, ∃ element, blocks.elements a = some element := fun a member => by
        obtain ⟨element, there, _⟩ := holds.entry member
        exact ⟨element, there⟩
      have clears : clearElements bound blocks order.head? = .ok (cleared, none) := by
        rw [clearElements, following_eq holds.chained live, run_bind_ok]
        exact run
      refine Ends.of_ok id clears ⟨[], rfl, ⟨rfl, fun _ => tables, fun absurd => (absurd rfl).elim⟩,
        fun a outside => ?_⟩
      by_cases inside : a ∈ order
      · exact released.freed a inside outside
      · have before := released.others a inside
        rw [owned a inside, Option.map_none, Option.map_eq_none_iff] at before
        exact before

/-- An operation adds one entry at most. -/
theorem Op.length_apply_le (op : Op κ α) (table : KeyedTable key) :
    (op.apply table).entries.length ≤ table.entries.length + 1 := by
  have fewer (k : κ) : (table.del k).entries.length ≤ table.entries.length :=
    List.length_filter_le _ _
  cases op with
  | insert value _ offer =>
      simp only [Op.apply]
      split
      · show ((table.del (key value)).entries ++ [value]).length ≤ _
        rw [List.length_append, List.length_singleton]
        exact Nat.succ_le_succ (fewer _)
      · exact Nat.le_succ _
  | delete k => exact Nat.le_succ_of_le (fewer k)
  | clear => exact Nat.zero_le _

/-- The table and the finite map after a run of operations. -/
theorem run_holds (ops : List (Op κ α)) {state : Blocks κ α × Option Addr}
    (represents : Represents hash state table)
    (enough : table.entries.length + ops.length < bound) (limited : ∀ op ∈ ops, op.Limited) :
    Ends (SomeRefused hash key bound ops state)
      (ops.foldlM (fun state op => op.run hash key bound state) state) fun after =>
      Represents hash after (ops.foldl (fun table op => op.apply table) table) := by
  induction ops generalizing state table with
  | nil => exact Ends.of_ok id rfl represents
  | cons op ops ih =>
      rw [List.length_cons] at enough
      rw [List.foldlM_cons, List.foldl_cons]
      refine (Op.run_holds represents op (by omega) (limited op List.mem_cons_self)).bind
        fun after holds => ih holds ?_ fun other member =>
          limited other (List.mem_cons_of_mem op member)
      have grown := op.length_apply_le table
      omega

end Running

/-! ## Counting -/

/-- The elements of a bucket are as many as the entries that its hash value selects. -/
theorem Holds.chain_length {hash : κ → UInt32} {blocks : Blocks κ α} {order : List Addr}
    {table : KeyedTable key} (holds : Holds hash blocks order table) {num_buckets : UInt32}
    {cells : List Addr} {i : Nat} (distinct : cells.Nodup) (single : order.Nodup)
    (hashed : ∀ a ∈ order, ∀ element, blocks.elements a = some element →
      element.hh.hashv = hash element.hh.key)
    (mem : ∀ a, a ∈ cells ↔ a ∈ order ∧ hashToBkt (blocks.hashv a) num_buckets = i) :
    cells.length =
      table.entries.countP fun entry => hashToBkt (hash (key entry)) num_buckets = i := by
  let selects : Option (α × κ) → Bool := fun stored =>
    stored.any fun pair => hashToBkt (hash pair.2) num_buckets = i
  have seen : ∀ a ∈ order, decide (hashToBkt (blocks.hashv a) num_buckets = i) =
      selects ((blocks.elements a).map Element.contents) := by
    intro a member
    obtain ⟨element, there, _⟩ := holds.entry member
    simp [selects, there, Blocks.hashv, Element.contents, hashed a member element there]
  have same : cells.Perm
      (order.filter fun a => hashToBkt (blocks.hashv a) num_buckets = i) := by
    refine (List.perm_ext_iff_of_nodup distinct (single.filter _)).mpr fun a => ?_
    rw [mem, List.mem_filter, decide_eq_true_iff]
  calc cells.length
      = order.countP fun a => hashToBkt (blocks.hashv a) num_buckets = i := by
        rw [same.length_eq, List.countP_eq_length_filter]
    _ = order.countP (selects ∘ fun a => (blocks.elements a).map Element.contents) :=
        List.countP_congr fun a member => by rw [seen a member]; rfl
    _ = (table.entries.map fun entry => some (entry, key entry)).countP selects := by
        rw [← List.countP_map, holds.contents]
    _ = table.entries.countP fun entry => hashToBkt (hash (key entry)) num_buckets = i := by
        rw [List.countP_map]
        rfl

/-! ## What a run leaves -/

section Results

variable [DecidableEq κ]

/-- The operations one after the other, from no block in use. -/
def runOps (hash : κ → UInt32) (key : α → κ) (bound : Nat) (ops : List (Op κ α)) :
    Run (Blocks κ α × Option Addr) :=
  ops.foldlM (fun state op => op.run hash key bound state) (Blocks.empty, none)

/-- The same operations on the finite map. -/
def applyOps (key : α → κ) (ops : List (Op κ α)) : KeyedTable key :=
  ops.foldl (fun table op => op.apply table) KeyedTable.empty

theorem runOps_holds (hash : κ → UInt32) (key : α → κ) {bound : Nat} (ops : List (Op κ α))
    (enough : ops.length < bound) (limited : ∀ op ∈ ops, op.Limited) :
    Ends (SomeRefused hash key bound ops (Blocks.empty, none)) (runOps hash key bound ops)
      fun state => Represents hash state (applyOps key ops) :=
  run_holds ops (represents_empty hash) (by simpa [KeyedTable.empty] using enough) limited

theorem length_applyOps_le (key : α → κ) (ops : List (Op κ α)) :
    (applyOps key ops).entries.length ≤ ops.length := by
  have grows : ∀ (ops : List (Op κ α)) (table : KeyedTable key),
      (ops.foldl (fun table op => op.apply table) table).entries.length ≤
        table.entries.length + ops.length := by
    intro ops
    induction ops with
    | nil => exact fun _ => Nat.le_refl _
    | cons op ops ih =>
        intro table
        refine Nat.le_trans (ih (op.apply table)) ?_
        have step := op.length_apply_le table
        rw [List.length_cons]
        omega
  simpa [KeyedTable.empty, applyOps] using grows ops KeyedTable.empty

/-- **The hash table is the finite map**, with any hash function and any addresses from
`malloc`: a run of insertions, deletions and clearings meets no fault. It ends the
program exactly when an allocation is refused. Otherwise a search under any key finds
afterwards what the finite map has there, and a loop over the table reads its elements
in the order in which they were added. -/
theorem hashTable_agrees (hash : κ → UInt32) (key : α → κ) (ops : List (Op κ α)) {bound : Nat}
    (enough : ops.length < bound) (limited : ∀ op ∈ ops, op.Limited) :
    Ends (SomeRefused hash key bound ops (Blocks.empty, none)) (runOps hash key bound ops) fun state =>
      (∀ k, ∃ out, hashFind hash bound state.1 state.2 k = .ok out ∧
        (out.bind fun a => (state.1.elements a).map Element.value) =
          (applyOps key ops).find k) ∧
      listElements bound state.1 state.2 = .ok (applyOps key ops).entries := by
  refine (runOps_holds hash key ops enough limited).imp fun state => ?_
  rintro ⟨order, first, holds, _⟩
  have few := Nat.lt_of_le_of_lt (length_applyOps_le key ops) enough
  rw [first]
  refine ⟨fun k => ?_, holds.listElements_eq few⟩
  obtain ⟨out, run, _, found⟩ := holds.hashFind_eq k few
  exact ⟨out, run, found⟩

/-- **The clearing loop gives every block back**: behind any run it ends without a fault,
`head` is `NULL`, and neither an element nor a table is in use. -/
theorem clear_gives_all_back (hash : κ → UInt32) (key : α → κ) (ops : List (Op κ α)) {bound : Nat}
    (enough : ops.length + 1 < bound) (limited : ∀ op ∈ ops, op.Limited) :
    Ends (SomeRefused hash key bound ops (Blocks.empty, none)) (runOps hash key bound ops) fun state =>
      ∃ cleared, clearElements bound state.1 state.2 = .ok (cleared, none) ∧
        (∀ a, cleared.elements a = none) ∧ ∀ t, cleared.tables t = none := by
  refine (runOps_holds hash key ops (by omega) limited).imp fun state represents => ?_
  have few := length_applyOps_le key ops
  obtain ⟨⟨cleared, head⟩, run, order, first, holds, owned⟩ :=
    (Op.run_holds represents (.clear : Op κ α) (by omega : _ < bound) trivial).elim
      (fun refusal => refusal.1.elim) And.right
  have nothing : order = [] := by
    have none_ := holds.length_eq
    exact List.eq_nil_of_length_eq_zero none_
  subst nothing
  cases first
  exact ⟨cleared, run, fun a => owned a List.not_mem_nil, holds.unused rfl⟩

/-- **The counts of a table are exact** after every run: the number of buckets is a
power of two between `2 ^ 5` and `2 ^ 31`, the table counts its elements and each
bucket those whose hash value selects it, and no element is in a bucket besides these. -/
theorem counts_are_exact (hash : κ → UInt32) (key : α → κ) (ops : List (Op κ α)) {bound : Nat}
    (enough : ops.length < bound) (limited : ∀ op ∈ ops, op.Limited) :
    Ends (SomeRefused hash key bound ops (Blocks.empty, none)) (runOps hash key bound ops) fun state =>
      ∀ head, state.2 = some head → ∃ hh tbl, state.1.handle head = .ok hh ∧
        state.1.table hh.tbl = .ok tbl ∧ Sized tbl ∧
        tbl.buckets.length = tbl.num_buckets.toNat ∧
        tbl.num_items = UInt32.ofNat (applyOps key ops).entries.length ∧
        ∀ i bucket, tbl.buckets[i]? = some bucket →
          bucket.count = UInt32.ofNat ((applyOps key ops).entries.countP fun entry =>
            hashToBkt (hash (key entry)) tbl.num_buckets = i) := by
  refine (runOps_holds hash key ops enough limited).imp fun state => ?_
  rintro ⟨order, first, holds, _⟩ head isHead
  rw [isHead] at first
  have member : head ∈ order := List.mem_of_mem_head? first.symm
  obtain ⟨t, tbl, wired, _⟩ := holds.wired (List.ne_nil_of_mem member)
  obtain ⟨element, there, own, _⟩ := wired.live head member
  refine ⟨element.hh, tbl, Blocks.handle_of_some there, ?_, wired.sized, wired.filled.size, ?_,
    fun i bucket selected => ?_⟩
  · rw [own]
    exact Blocks.table_of_some wired.there
  · rw [wired.items, holds.length_eq]
  · obtain ⟨cells, distinct, mem, _, count, _⟩ := wired.filled.chain i bucket selected
    rw [count, holds.chain_length distinct wired.distinct (fun a inside element there => ?_) mem]
    obtain ⟨other, otherThere, _, hashed⟩ := wired.live a inside
    cases there.symm.trans otherThere
    exact hashed

/-- Two insertions and a deletion, with addresses at hand and room for small arrays. -/
def shortRun : List (Op (List UInt8) (List UInt8)) :=
  let offer (address : Addr) : Offer :=
    { element := some address, table := some 100, grants := fun size => size ≤ 2 ^ 20 }
  let left : UTHashHandle (List UInt8) :=
    { tbl := 7, prev := some 7, next := some 7, hh_prev := some 7, hh_next := some 7, key := [7],
      hashv := 7 }
  [.insert [97] left (offer 1), .insert [98] left (offer 2), .delete [97]]

theorem limited_shortRun : ∀ op ∈ shortRun, op.Limited := by
  simp [shortRun, Op.Limited, Offer.Limited]

/-- Nothing is refused on the way. -/
theorem returns_shortRun : runOps hashJen id 5 shortRun ≠ .error .exit := by
  have returned : (runOps hashJen id 5 shortRun).isOk = true := by decide +kernel
  intro exit
  rw [exit] at returned
  cases returned

theorem hashTable_agrees_shortRun :
    ∃ state, runOps hashJen id 5 shortRun = .ok state ∧
      (∀ k, ∃ out, hashFind hashJen 5 state.1 state.2 k = .ok out ∧
        (out.bind fun a => (state.1.elements a).map Element.value) =
          (applyOps id shortRun).find k) ∧
      listElements 5 state.1 state.2 = .ok (applyOps id shortRun).entries :=
  (hashTable_agrees hashJen id shortRun (by decide) limited_shortRun).returns returns_shortRun

theorem clear_gives_all_back_shortRun :
    ∃ state, runOps hashJen id 5 shortRun = .ok state ∧
      ∃ cleared, clearElements 5 state.1 state.2 = .ok (cleared, none) ∧
        (∀ a, cleared.elements a = none) ∧ ∀ t, cleared.tables t = none :=
  (clear_gives_all_back hashJen id shortRun (by decide) limited_shortRun).returns returns_shortRun

theorem counts_are_exact_shortRun :
    ∃ state, runOps hashJen id 5 shortRun = .ok state ∧
      ∀ head, state.2 = some head → ∃ hh tbl, state.1.handle head = .ok hh ∧
        state.1.table hh.tbl = .ok tbl ∧ Sized tbl ∧
        tbl.buckets.length = tbl.num_buckets.toNat ∧
        tbl.num_items = UInt32.ofNat (applyOps id shortRun).entries.length ∧
        ∀ i bucket, tbl.buckets[i]? = some bucket →
          bucket.count = UInt32.ofNat ((applyOps id shortRun).entries.countP fun entry =>
            hashToBkt (hashJen (id entry)) tbl.num_buckets = i) :=
  (counts_are_exact hashJen id shortRun (by decide) limited_shortRun).returns returns_shortRun

end Results

end Uthash

end DnsServer
