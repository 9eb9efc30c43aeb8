import Mathlib.Algebra.BigOperators.Group.List.Basic
import Mathlib.Algebra.GroupWithZero.Nat
import Mathlib.Data.List.Basic
import Mathlib.Data.List.Nodup
import Mathlib.Tactic.Common

/-!
# Tables of elements with distinct keys

An intrusive hash table stores elements that contain their own key. Seen from
outside it is a list of elements with pairwise distinct keys, in the order in
which they were added. Adding an element under a key already present is the
caller's error, so `add` asks for the proof that the key is absent.

The results are the equations of a finite map: what `find` returns after an
element was added, deleted or replaced.
-/

set_option autoImplicit false

namespace DnsServer

universe u v

/-- Elements with pairwise distinct keys, in the order in which they were added. -/
structure KeyedTable {α : Type u} {κ : Type v} (key : α → κ) where
  entries : List α
  distinct : (entries.map key).Nodup

namespace KeyedTable

variable {α : Type u} {κ : Type v} {key : α → κ}

/-- The table without elements. -/
def empty : KeyedTable key := ⟨[], List.nodup_nil⟩

instance : Membership α (KeyedTable key) := ⟨fun table entry => entry ∈ table.entries⟩

theorem mem_iff {entry : α} {table : KeyedTable key} : entry ∈ table ↔ entry ∈ table.entries :=
  Iff.rfl

@[simp] theorem not_mem_empty (entry : α) : entry ∉ (empty : KeyedTable key) := by
  simp [mem_iff, empty]

/-- The key determines the element. -/
theorem eq_of_key_eq {table : KeyedTable key} {first second : α} (one : first ∈ table)
    (other : second ∈ table) (same : key first = key second) : first = second :=
  List.inj_on_of_nodup_map table.distinct one other same

@[ext] theorem ext {first second : KeyedTable key} (same : first.entries = second.entries) :
    first = second := by
  cases first
  cases second
  cases same
  rfl

/-- The weights of all elements together. -/
def weight {M : Type} [AddCommMonoid M] (of : α → M) (table : KeyedTable key) : M :=
  (table.entries.map of).sum

/-- The table of the images of all elements, under the images of their keys. -/
def map {β : Type u} {ν : Type v} {otherKey : β → ν} {change : α → β} {rekey : κ → ν}
    (table : KeyedTable key) (injective : Function.Injective rekey)
    (keys : ∀ entry, otherKey (change entry) = rekey (key entry)) : KeyedTable otherKey where
  entries := table.entries.map change
  distinct := by
    rw [List.map_map, show otherKey ∘ change = rekey ∘ key from funext keys, ← List.map_map]
    exact table.distinct.map injective

variable [DecidableEq κ]

/-- The element under a key. -/
def find (table : KeyedTable key) (k : κ) : Option α := table.entries.find? fun e => key e = k

/-- Take out the element under a key, if there is one. -/
def del (table : KeyedTable key) (k : κ) : KeyedTable key where
  entries := table.entries.filter fun e => key e ≠ k
  distinct := (List.filter_sublist.map key).nodup table.distinct

theorem find_eq_some_iff {table : KeyedTable key} {k : κ} {entry : α} :
    table.find k = some entry ↔ entry ∈ table ∧ key entry = k := by
  constructor
  · intro found
    exact ⟨List.mem_of_find?_eq_some found, by simpa using List.find?_some found⟩
  · rintro ⟨member, same⟩
    cases found : table.find k with
    | none =>
        have absent := List.find?_eq_none.mp found entry member
        simp [same] at absent
    | some other =>
        have otherMember : other ∈ table := List.mem_of_find?_eq_some found
        have otherKey : key other = k := by simpa using List.find?_some found
        rw [eq_of_key_eq otherMember member (otherKey.trans same.symm)]

theorem find_eq_none_iff {table : KeyedTable key} {k : κ} :
    table.find k = none ↔ ∀ entry ∈ table, key entry ≠ k := by
  simp [find, mem_iff]

@[simp] theorem find_empty (k : κ) : (empty : KeyedTable key).find k = none := rfl

theorem mem_del_iff {table : KeyedTable key} {k : κ} {entry : α} :
    entry ∈ table.del k ↔ entry ∈ table ∧ key entry ≠ k := by
  simp [mem_iff, del]

theorem find_del_self (table : KeyedTable key) (k : κ) : (table.del k).find k = none :=
  find_eq_none_iff.mpr fun _ member => (mem_del_iff.mp member).2

theorem find_del_of_ne (table : KeyedTable key) {k other : κ} (different : other ≠ k) :
    (table.del k).find other = table.find other := by
  apply Option.ext
  intro entry
  rw [find_eq_some_iff, find_eq_some_iff, mem_del_iff]
  constructor
  · rintro ⟨⟨member, _⟩, same⟩
    exact ⟨member, same⟩
  · rintro ⟨member, same⟩
    exact ⟨⟨member, same ▸ different⟩, same⟩

/-- A key that is absent takes nothing out. -/
theorem del_of_find_eq_none {table : KeyedTable key} {k : κ} (absent : table.find k = none) :
    table.del k = table := by
  apply ext
  refine List.filter_eq_self.mpr fun entry member => ?_
  simpa using find_eq_none_iff.mp absent entry member

/-- What is deleted leaves the others in their order. -/
theorem entries_del {table : KeyedTable key} {front rear : List α} {entry : α}
    (split : table.entries = front ++ entry :: rear) :
    (table.del (key entry)).entries = front ++ rear := by
  have distinct := table.distinct
  rw [split, List.map_append, List.map_cons, List.nodup_middle, List.nodup_cons] at distinct
  have others : (front ++ rear).filter (fun e => key e ≠ key entry) = front ++ rear :=
    List.filter_eq_self.mpr fun other member => by
      simpa using fun same : key other = key entry => distinct.1 (by
        rw [← List.map_append, ← same]
        exact List.mem_map_of_mem member)
  calc (table.del (key entry)).entries
      = table.entries.filter fun e => key e ≠ key entry := rfl
    _ = (front ++ rear).filter fun e => key e ≠ key entry := by
        rw [split, List.filter_append, List.filter_cons_of_neg (by simp), ← List.filter_append]
    _ = front ++ rear := others

/-- Add an element whose key is absent, behind all others. -/
def add (table : KeyedTable key) (entry : α) (absent : table.find (key entry) = none) :
    KeyedTable key where
  entries := table.entries ++ [entry]
  distinct := by
    rw [List.map_append, List.map_singleton, ← List.concat_eq_append]
    refine List.Nodup.concat ?_ table.distinct
    intro member
    obtain ⟨other, otherMember, same⟩ := List.mem_map.mp member
    exact find_eq_none_iff.mp absent other otherMember same

theorem mem_add_iff {table : KeyedTable key} {entry other : α}
    {absent : table.find (key entry) = none} :
    other ∈ table.add entry absent ↔ other ∈ table ∨ other = entry := by
  simp [mem_iff, add]

/-- Take out the element with the same key, if there is one, and add the new
element. -/
def replace (table : KeyedTable key) (entry : α) : KeyedTable key :=
  (table.del (key entry)).add entry (find_del_self table _)

theorem mem_replace_iff {table : KeyedTable key} {entry other : α} :
    other ∈ table.replace entry ↔ (other ∈ table ∧ key other ≠ key entry) ∨ other = entry := by
  rw [replace, mem_add_iff, mem_del_iff]

@[simp] theorem find_replace_self (table : KeyedTable key) (entry : α) :
    (table.replace entry).find (key entry) = some entry :=
  find_eq_some_iff.mpr ⟨mem_replace_iff.mpr (.inr rfl), rfl⟩

theorem find_replace_of_ne (table : KeyedTable key) (entry : α) {k : κ}
    (different : k ≠ key entry) : (table.replace entry).find k = table.find k := by
  apply Option.ext
  intro other
  rw [find_eq_some_iff, find_eq_some_iff, mem_replace_iff]
  constructor
  · rintro ⟨⟨member, _⟩ | rfl, same⟩
    · exact ⟨member, same⟩
    · exact absurd same.symm different
  · rintro ⟨member, same⟩
    exact ⟨.inl ⟨member, same ▸ different⟩, same⟩

/-- Replacing is updating the finite map at one key. -/
theorem find_replace (table : KeyedTable key) (entry : α) :
    (table.replace entry).find = Function.update table.find (key entry) (some entry) := by
  funext k
  by_cases same : k = key entry
  · subst same
    simp
  · rw [find_replace_of_ne table entry same, Function.update_of_ne same]

/-! ## Replacing many elements -/

/-- Replace one element after the other. -/
def replaceAll (table : KeyedTable key) (more : List α) : KeyedTable key :=
  more.foldl replace table

@[simp] theorem replaceAll_nil (table : KeyedTable key) : table.replaceAll [] = table := rfl

theorem replaceAll_append (table : KeyedTable key) (first second : List α) :
    table.replaceAll (first ++ second) = (table.replaceAll first).replaceAll second :=
  List.foldl_append

/-- Replacing brings in no others. -/
theorem mem_of_mem_replaceAll {table : KeyedTable key} {more : List α} {entry : α}
    (member : entry ∈ table.replaceAll more) : entry ∈ table ∨ entry ∈ more := by
  induction more generalizing table with
  | nil => exact .inl member
  | cons first more ih =>
      rcases ih member with before | later
      · rcases mem_replace_iff.mp before with ⟨inTable, _⟩ | rfl
        · exact .inl inTable
        · exact .inr List.mem_cons_self
      · exact .inr (List.mem_cons_of_mem first later)

/-- Among many replacements an element stays when no other one has its key. -/
theorem mem_replaceAll_of_only {more : List α} {entry : α}
    (only : ∀ other ∈ more, key other = key entry → other = entry) :
    ∀ {table : KeyedTable key}, entry ∈ table ∨ entry ∈ more → entry ∈ table.replaceAll more := by
  induction more with
  | nil =>
      rintro table (inTable | absent)
      · exact inTable
      · exact absurd absent List.not_mem_nil
  | cons first more ih =>
      obtain ⟨here, later⟩ := List.forall_mem_cons.mp only
      rintro table (inTable | member)
      · refine ih later (.inl (mem_replace_iff.mpr ?_))
        by_cases same : key first = key entry
        · exact .inr (here same).symm
        · exact .inl ⟨inTable, Ne.symm same⟩
      · rcases List.mem_cons.mp member with rfl | member
        · exact ih later (.inl (mem_replace_iff.mpr (.inr rfl)))
        · exact ih later (.inr member)

/-- The last of several elements under one key. -/
def lastUnder (key : α → κ) (more : List α) (k : κ) : Option α :=
  more.reverse.find? fun e => key e = k

/-- After many replacements the last element under a key is found, and where
there is none what was there before. -/
theorem find_replaceAll (table : KeyedTable key) (more : List α) (k : κ) :
    (table.replaceAll more).find k = (lastUnder key more k).or (table.find k) := by
  induction more generalizing table with
  | nil => rfl
  | cons entry more ih =>
      rw [replaceAll, List.foldl_cons, ← replaceAll, ih, find_replace]
      simp only [lastUnder, List.reverse_cons, List.find?_append, List.find?_singleton]
      by_cases same : k = key entry
      · subst same
        simp
      · rw [Function.update_of_ne same, if_neg (by simpa using Ne.symm same), Option.or_none]

/-! ## Weights -/

section Weights

variable {M : Type} [AddCommMonoid M] (of : α → M)

/-- What is deleted takes its weight away. -/
theorem weight_del (table : KeyedTable key) (k : κ) :
    (table.del k).weight of + ((table.find k).map of).getD 0 = table.weight of := by
  obtain ⟨entries, distinct⟩ := table
  simp only [weight, del, find]
  induction entries with
  | nil => exact add_zero _
  | cons entry entries ih =>
      rw [List.map_cons, List.nodup_cons] at distinct
      by_cases same : key entry = k
      · subst same
        have others : entries.filter (fun e => key e ≠ key entry) = entries :=
          List.filter_eq_self.mpr fun other inside => by
            simpa using fun equal : key other = key entry =>
              distinct.1 (equal ▸ List.mem_map_of_mem inside)
        simp only [ne_eq, decide_not] at others
        simp [others, add_comm]
      · have rest := ih distinct.2
        simp only [ne_eq, decide_not] at rest
        simp [same, ← rest, add_assoc]

/-- What is replaced takes its weight away, and the new element brings its own. -/
theorem weight_replace (table : KeyedTable key) (entry : α) :
    (table.replace entry).weight of + ((table.find (key entry)).map of).getD 0 =
      table.weight of + of entry := by
  rw [← weight_del of table (key entry)]
  simp only [replace, weight, add, List.map_append, List.map_singleton, List.sum_append,
    List.sum_singleton]
  exact add_right_comm _ _ _

end Weights

/-! ## Images -/

section Map

variable {β : Type u} {ν : Type v} [DecidableEq ν] {otherKey : β → ν} {change : α → β}
  {rekey : κ → ν} {injective : Function.Injective rekey}
  {keys : ∀ entry, otherKey (change entry) = rekey (key entry)}

theorem find_map (table : KeyedTable key) (k : κ) :
    (table.map injective keys).find (rekey k) = (table.find k).map change := by
  simp only [find, map, List.find?_map, Function.comp_def, keys, injective.eq_iff]

theorem map_del (table : KeyedTable key) (k : κ) :
    (table.map injective keys).del (rekey k) = (table.del k).map injective keys := by
  simp only [del, map, List.filter_map, Function.comp_def, keys, ne_eq, injective.eq_iff]

theorem map_replace (table : KeyedTable key) (entry : α) :
    (table.map injective keys).replace (change entry) =
      (table.replace entry).map injective keys := by
  have deleted := congrArg entries
    (@map_del _ _ _ _ _ _ _ _ change rekey injective keys table (key entry))
  apply ext
  simp only [replace, add, map, List.map_append, List.map_singleton, keys] at deleted ⊢
  rw [deleted]

end Map

/-! ## Equal contents -/

/-- Two tables hold the same elements: a search cannot tell them apart. -/
def Same (first second : KeyedTable key) : Prop := ∀ k, first.find k = second.find k

@[refl] theorem Same.refl (table : KeyedTable key) : Same table table := fun _ => rfl

end KeyedTable

end DnsServer
