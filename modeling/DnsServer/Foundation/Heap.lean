import Mathlib.Algebra.BigOperators.Group.List.Basic
import Mathlib.Algebra.Order.Group.Multiset
import Mathlib.Data.Finset.Erase
import Mathlib.Data.Finset.Insert
import Mathlib.Tactic.Abel
import DnsServer.Foundation.Memory

/-!
# Memory that is given back

A computation that allocates also gives blocks back. The state has the blocks that are
in use; giving back a block that is not in use stops the computation, as an access
outside a buffer does. A block has a number that no other block has had, so a block that
is given back twice is not in use the second time.

Pointers are optional values, `none` is `NULL`. Arrays of pointers are lists of such
values, which are read and written inside their length only.

A computation of this kind follows one that only allocates (`Heap.Follows`) when
both make the same allocations, their results are related, and the blocks the
computation has added are the ones its result owns. Blocks that belong to others are
not touched, whichever they are.
-/

set_option autoImplicit false

namespace DnsServer

/-- The number of a block: how many there have been before it. -/
abbrev Block := Nat

/-- The outcomes of the allocations still to come, the number of the next block, and the
blocks in use, which have been allocated before. -/
structure Memory where
  allocations : Allocations
  next : Block
  blocks : Finset Block
  older : ∀ block ∈ blocks, block < next

namespace Memory

/-- The memory in which nothing has been allocated yet. -/
def start : Memory where
  allocations := []
  next := 0
  blocks := ∅
  older := fun block member => absurd member (Finset.notMem_empty block)

/-- The memory behind an allocation that has succeeded. -/
def take (memory : Memory) : Memory where
  allocations := (malloc memory.allocations).2
  next := memory.next + 1
  blocks := insert memory.next memory.blocks
  older := by
    intro block member
    rcases Finset.mem_insert.mp member with rfl | before
    · exact Nat.lt_succ_self _
    · exact Nat.lt_succ_of_lt (memory.older block before)

/-- The memory without a block. -/
def without (memory : Memory) (block : Block) : Memory where
  allocations := memory.allocations
  next := memory.next
  blocks := memory.blocks.erase block
  older := fun other member => memory.older other (Finset.mem_of_mem_erase member)

/-- A block that is allocated is added to those in use. -/
theorem blocks_take (memory : Memory) :
    memory.take.blocks.val = memory.blocks.val + {memory.next} := by
  have fresh : memory.next ∉ memory.blocks := fun member =>
    Nat.lt_irrefl _ (memory.older _ member)
  rw [take, Finset.insert_val_of_notMem fresh, ← Multiset.singleton_add, add_comm]

end Memory

/-- A pointer to a block with its contents. -/
structure Pointer (α : Type) where
  block : Block
  contents : α

/-- A computation that allocates blocks, gives them back, and stops at the first
fault. -/
abbrev Heap (α : Type) := StateT Memory Checked α

namespace Heap

/-- One allocation: the block, or `NULL`. -/
def allocate : Heap (Option Block) := fun memory =>
  if (malloc memory.allocations).1 then .ok (some memory.next, memory.take)
  else .ok (none, { memory with allocations := (malloc memory.allocations).2 })

/-- Give one block back. -/
def release (block : Block) : Heap Unit := fun memory =>
  if block ∈ memory.blocks then .ok ((), memory.without block) else .error (.write block)

/-- `free` does nothing to a `NULL`. -/
def free {α : Type} : Option (Pointer α) → Heap Unit
  | none => return ()
  | some pointer => release pointer.block

/-- `strdup` and `asprintf`: a copy of a text, or `NULL`. -/
def duplicate {α : Type} (text : α) : Heap (Option (Pointer α)) := do
  match ← allocate with
  | none => return none
  | some block => return some { block, contents := text }

/-- Follow a pointer. -/
def deref {α : Type} : Option α → Checked α
  | none => .error (.read 0)
  | some value => .ok value

/-- Read an element of an array. -/
def readCell {α : Type} (cells : List α) (i : Nat) : Checked α :=
  match cells[i]? with
  | some cell => .ok cell
  | none => .error (.read i)

/-- Write an element of an array. -/
def writeCell {α : Type} (cells : List α) (i : Nat) (cell : α) : Checked (List α) :=
  if i < cells.length then .ok (cells.set i cell) else .error (.write i)

/-- The block behind a pointer. -/
def behind {α : Type} : Option (Pointer α) → Multiset Block
  | none => 0
  | some pointer => {pointer.block}

@[simp] theorem behind_none {α : Type} : behind (none : Option (Pointer α)) = 0 := rfl

@[simp] theorem behind_some {α : Type} (pointer : Pointer α) :
    behind (some pointer) = {pointer.block} := rfl

/-- Started with some blocks in use besides those of others, the computation makes
the allocations of the other one. It meets no fault, and what it leaves in use
besides those of others is related to both results. -/
def Follows {α β : Type} (owned : Multiset Block) (computation : Heap β) (model : Alloc α)
    (post : α → β → Multiset Block → Prop) : Prop :=
  ∀ (others : Multiset Block) (memory : Memory), memory.blocks.val = others + owned →
    ∃ value left after, computation.run memory = .ok (value, after) ∧
      after.allocations = (model.run memory.allocations).2 ∧ after.blocks.val = others + left ∧
      post (model.under memory.allocations) value left

/-- What comes of an allocation: nothing, or a block that is then in use. -/
inductive Allocated (owned : Multiset Block) : Bool → Option Block → Multiset Block → Prop where
  | refused : Allocated owned false none owned
  | given (block : Block) : Allocated owned true (some block) (owned + {block})

/-- What comes of copying a text. -/
inductive Copied {α : Type} (text : α) (owned : Multiset Block) :
    Bool → Option (Pointer α) → Multiset Block → Prop where
  | refused : Copied text owned false none owned
  | made (block : Block) : Copied text owned true (some ⟨block, text⟩) (owned + {block})

section Rules

variable {α β γ δ : Type} {owned : Multiset Block}

theorem follows_pure {post : α → β → Multiset Block → Prop} {one : α} {other : β}
    (related : post one other owned) : Follows owned (pure other) (pure one) post :=
  fun _ memory uses => ⟨other, owned, memory, rfl, rfl, uses, related⟩

theorem Follows.bind {computation : Heap β} {model : Alloc α} {next : β → Heap δ}
    {modelNext : α → Alloc γ} {middle : α → β → Multiset Block → Prop}
    {post : γ → δ → Multiset Block → Prop} (first : Follows owned computation model middle)
    (second : ∀ one other left, middle one other left →
      Follows left (next other) (modelNext one) post) :
    Follows owned (computation >>= next) (model >>= modelNext) post := by
  intro others memory uses
  obtain ⟨value, left, after, run, allocations, usesAfter, related⟩ := first others memory uses
  obtain ⟨last, rest, ended, runNext, same, usesEnded, holds⟩ :=
    second _ _ _ related others after usesAfter
  rw [allocations] at same holds
  refine ⟨last, rest, ended, ?_, same, usesEnded, holds⟩
  rw [StateT.run_bind, run]
  exact runNext

/-- What makes no allocation may come in front. -/
theorem Follows.before {computation : Heap β} {next : β → Heap δ} {model : Alloc γ}
    {middle : β → Multiset Block → Prop} {post : γ → δ → Multiset Block → Prop}
    (first : Follows owned computation (pure () : Alloc Unit) fun _ => middle)
    (second : ∀ other left, middle other left → Follows left (next other) model post) :
    Follows owned (computation >>= next) model post := by
  have bound := first.bind fun _ other left related => second other left related
  rwa [pure_bind] at bound

/-- What makes no allocation may come behind. -/
theorem Follows.after {computation : Heap β} {next : β → Heap δ} {model : Alloc α}
    {middle : α → β → Multiset Block → Prop} {post : α → δ → Multiset Block → Prop}
    (first : Follows owned computation model middle)
    (second : ∀ one other left, middle one other left →
      Follows left (next other) (pure one : Alloc α) post) :
    Follows owned (computation >>= next) model post := by
  have bound := first.bind second
  rwa [bind_pure] at bound

theorem Follows.imp {computation : Heap β} {model : Alloc α}
    {middle post : α → β → Multiset Block → Prop}
    (follows : Follows owned computation model middle)
    (weaker : ∀ one other left, middle one other left → post one other left) :
    Follows owned computation model post := by
  intro others memory uses
  obtain ⟨value, left, after, run, allocations, usesAfter, related⟩ := follows others memory uses
  exact ⟨value, left, after, run, allocations, usesAfter, weaker _ _ _ related⟩

/-- Blocks that a computation does not know of are kept. -/
theorem Follows.frame {computation : Heap β} {model : Alloc α}
    {post : α → β → Multiset Block → Prop} (follows : Follows owned computation model post)
    (kept : Multiset Block) :
    Follows (kept + owned) computation model fun one other left =>
      ∃ rest, left = kept + rest ∧ post one other rest := by
  intro others memory uses
  rw [← add_assoc] at uses
  obtain ⟨value, left, after, run, allocations, usesAfter, related⟩ :=
    follows (others + kept) memory uses
  rw [add_assoc] at usesAfter
  exact ⟨value, kept + left, after, run, allocations, usesAfter, left, rfl, related⟩

/-- What is known of the end of a run. -/
theorem Follows.of_run {computation : Heap β} {model : Alloc α}
    {post : α → β → Multiset Block → Prop} (follows : Follows owned computation model post)
    {others : Multiset Block} {memory after : Memory} {value : β}
    (run : computation.run memory = .ok (value, after)) (uses : memory.blocks.val = others + owned) :
    ∃ left, after.blocks.val = others + left ∧
      post (model.under memory.allocations) value left := by
  obtain ⟨other, left, ended, runs, _, usesEnded, related⟩ := follows others memory uses
  rw [runs] at run
  cases run
  exact ⟨left, usesEnded, related⟩

theorem follows_allocate : Follows owned allocate malloc (Allocated owned) := by
  intro others memory uses
  cases outcome : (malloc memory.allocations).1 with
  | false =>
      refine ⟨none, owned, { memory with allocations := (malloc memory.allocations).2 }, ?_, rfl,
        uses, ?_⟩
      · exact if_neg (by simp [outcome])
      · rw [show malloc.under memory.allocations = false from outcome]
        exact .refused
  | true =>
      refine ⟨some memory.next, owned + {memory.next}, memory.take, ?_, rfl, ?_, ?_⟩
      · exact if_pos outcome
      · rw [memory.blocks_take, uses, add_assoc]
      · rw [show malloc.under memory.allocations = true from outcome]
        exact .given memory.next

theorem follows_release (block : Block) :
    Follows (owned + {block}) (release block) (pure () : Alloc Unit)
      fun _ _ left => left = owned := by
  intro others memory uses
  have split : memory.blocks.val = block ::ₘ (others + owned) := by
    rw [uses, ← add_assoc, add_comm, Multiset.singleton_add]
  have member : block ∈ memory.blocks := by
    rw [← Finset.mem_val, split]
    exact Multiset.mem_cons_self _ _
  refine ⟨(), owned, memory.without block, if_pos member, rfl, ?_, rfl⟩
  rw [Memory.without, Finset.erase_val, split, Multiset.erase_cons_head]

theorem follows_free (pointer : Option (Pointer α)) :
    Follows (owned + behind pointer) (free pointer) (pure () : Alloc Unit)
      fun _ _ left => left = owned := by
  cases pointer with
  | none => exact follows_pure (add_zero owned)
  | some pointer => exact follows_release pointer.block

/-- An access inside its bounds changes nothing. -/
theorem follows_access {access : Checked β} {value : β} (inside : access = .ok value) :
    Follows owned (liftM access) (pure () : Alloc Unit)
      fun _ other left => other = value ∧ left = owned := by
  subst inside
  exact fun _ memory uses => ⟨value, owned, memory, rfl, rfl, uses, rfl, rfl⟩

/-- What gives blocks back and makes no allocation may come in front. -/
theorem Follows.gives {computation : Heap Unit} {next : Unit → Heap δ} {model : Alloc γ}
    {kept : Multiset Block} {post : γ → δ → Multiset Block → Prop}
    (first : Follows owned computation (pure () : Alloc Unit) fun _ _ left => left = kept)
    (second : Follows kept (next ()) model post) : Follows owned (computation >>= next) model post :=
  first.before fun _ _ same => same ▸ second

/-- An access inside its bounds may come in front. -/
theorem Follows.reads {access : Checked β} {value : β} {next : β → Heap δ} {model : Alloc γ}
    {post : γ → δ → Multiset Block → Prop} (second : Follows owned (next value) model post)
    (inside : access = .ok value) : Follows owned (liftM access >>= next) model post := by
  refine (follows_access inside).before fun _ left same => ?_
  obtain ⟨rfl, rfl⟩ := same
  exact second

theorem Follows.map_model {computation : Heap β} {model : Alloc α} {change : α → γ}
    {post : γ → β → Multiset Block → Prop}
    (follows : Follows owned computation model fun one other left => post (change one) other left) :
    Follows owned computation (change <$> model) post := follows

theorem follows_duplicate (text : α) :
    Follows owned (duplicate text) malloc (Copied text owned) := by
  refine follows_allocate.after fun one other left related => ?_
  cases related with
  | refused => exact follows_pure .refused
  | given block => exact follows_pure (.made block)

/-- The first of several allocations, when the model asks for all of them at once. -/
theorem Follows.mallocs {computation : Heap β} {next : β → Heap δ} {modelNext : Bool → Alloc γ}
    {count : Nat} {middle : Bool → β → Multiset Block → Prop}
    {post : γ → δ → Multiset Block → Prop} (first : Follows owned computation malloc middle)
    (failed : ∀ other left, middle false other left →
      Follows left (next other) (modelNext false) post)
    (succeeded : ∀ other left, middle true other left →
      Follows left (next other) (DnsServer.mallocs count >>= modelNext) post) :
    Follows owned (computation >>= next) (DnsServer.mallocs (count + 1) >>= modelNext) post := by
  rw [DnsServer.mallocs, bind_assoc]
  refine first.bind fun outcome other left related => ?_
  cases outcome with
  | false => exact failed other left related
  | true => exact succeeded other left related

/-- A block among several allocations that the model asks for at once. -/
theorem Follows.allocates {next : Option Block → Heap δ} {modelNext : Bool → Alloc γ}
    {count : Nat} {post : γ → δ → Multiset Block → Prop}
    (failed : Follows owned (next none) (modelNext false) post)
    (succeeded : ∀ block, Follows (owned + {block}) (next (some block))
      (DnsServer.mallocs count >>= modelNext) post) :
    Follows owned (allocate >>= next) (DnsServer.mallocs (count + 1) >>= modelNext) post := by
  refine follows_allocate.mallocs (fun other left related => ?_) fun other left related => ?_
  · cases related
    exact failed
  · cases related with
    | given block => exact succeeded block

/-- A copy among several allocations that the model asks for at once. -/
theorem Follows.copies {text : β} {next : Option (Pointer β) → Heap δ}
    {modelNext : Bool → Alloc γ} {count : Nat} {post : γ → δ → Multiset Block → Prop}
    (failed : Follows owned (next none) (modelNext false) post)
    (succeeded : ∀ block, Follows (owned + {block}) (next (some ⟨block, text⟩))
      (DnsServer.mallocs count >>= modelNext) post) :
    Follows owned (duplicate text >>= next) (DnsServer.mallocs (count + 1) >>= modelNext) post := by
  refine (follows_duplicate text).mallocs (fun other left made => ?_) fun other left made => ?_
  · cases made
    exact failed
  · cases made with
    | made block => exact succeeded block

/-- A loop over the indices of an array that gives back what each element owns. -/
theorem follows_range {round : Nat → Heap Unit} {cells : List (Option (Pointer α))}
    (each : ∀ (owned : Multiset Block) (i : Nat) (cell : Option (Pointer α)),
      cells[i]? = some cell → Follows (owned + behind cell) (round i) (pure () : Alloc Unit)
        fun _ _ left => left = owned) :
    ∀ (count : Nat) (owned : Multiset Block), count ≤ cells.length →
      Follows (owned + ((cells.take count).map behind).sum) ((List.range count).forM round)
        (pure () : Alloc Unit) fun _ _ left => left = owned := by
  intro count
  induction count with
  | zero =>
      intro owned _
      exact follows_pure (add_zero owned)
  | succ count ih =>
      intro owned inside
      have here : cells[count]? = some cells[count] := List.getElem?_eq_getElem (by omega)
      have total : owned + ((cells.take (count + 1)).map behind).sum =
          owned + behind cells[count] + ((cells.take count).map behind).sum := by
        rw [List.take_succ_eq_append_getElem (by omega), List.map_append, List.sum_append,
          List.map_singleton, List.sum_singleton]
        abel
      rw [List.forM_eq_forM] at ih
      rw [total, List.range_succ, List.forM_eq_forM, List.forM_append]
      refine (ih (owned + behind cells[count]) (by omega)).before fun _ left same => ?_
      subst same
      simpa using each owned count cells[count] here

/-- A loop over elements that gives back what each of them owns. -/
theorem follows_forM {round : α → Heap Unit} {weight : α → Multiset Block} {elements : List α}
    (each : ∀ element ∈ elements, ∀ owned, Follows (owned + weight element) (round element)
      (pure () : Alloc Unit) fun _ _ left => left = owned) :
    Follows (owned + (elements.map weight).sum) (elements.forM round) (pure () : Alloc Unit)
      fun _ _ left => left = owned := by
  induction elements with
  | nil => exact follows_pure (add_zero owned)
  | cons element elements ih =>
      obtain ⟨first, others⟩ := List.forall_mem_cons.mp each
      rw [List.map_cons, List.sum_cons, add_comm (weight element), ← add_assoc,
        List.forM_eq_forM, List.forM_cons]
      exact (first _).gives (ih others)

end Rules

/-! ## What is in use in the end -/

/-- Started with some blocks in use besides those of others, the computation meets no fault,
whatever allocations fail. The result and the blocks it leaves in use besides those of others
satisfy a postcondition. -/
def Returns {β : Type} (owned : Multiset Block) (computation : Heap β)
    (post : β → Multiset Block → Prop) : Prop :=
  ∀ (others : Multiset Block) (memory : Memory), memory.blocks.val = others + owned →
    ∃ value left after, computation.run memory = .ok (value, after) ∧
      after.blocks.val = others + left ∧ post value left

section Returning

variable {α β δ : Type} {owned : Multiset Block}

theorem returns_pure {post : β → Multiset Block → Prop} {value : β} (holds : post value owned) :
    Returns owned (pure value) post :=
  fun _ memory uses => ⟨value, owned, memory, rfl, uses, holds⟩

theorem Returns.imp {computation : Heap β} {post weaker : β → Multiset Block → Prop}
    (returns : Returns owned computation post)
    (implies : ∀ value left, post value left → weaker value left) :
    Returns owned computation weaker := by
  intro others memory uses
  obtain ⟨value, left, after, run, usesAfter, holds⟩ := returns others memory uses
  exact ⟨value, left, after, run, usesAfter, implies value left holds⟩

theorem Returns.bind {computation : Heap β} {next : β → Heap δ}
    {middle : β → Multiset Block → Prop} {post : δ → Multiset Block → Prop}
    (first : Returns owned computation middle)
    (second : ∀ value left, middle value left → Returns left (next value) post) :
    Returns owned (computation >>= next) post := by
  intro others memory uses
  obtain ⟨value, left, after, run, usesAfter, holds⟩ := first others memory uses
  obtain ⟨last, rest, ended, runNext, usesEnded, ends⟩ :=
    second value left holds others after usesAfter
  refine ⟨last, rest, ended, ?_, usesEnded, ends⟩
  rw [StateT.run_bind, run]
  exact runNext

/-- What follows a model returns, with some result of the model. -/
theorem Follows.returns {computation : Heap β} {model : Alloc α}
    {post : α → β → Multiset Block → Prop} (follows : Follows owned computation model post) :
    Returns owned computation fun value left =>
      ∃ allocations, post (model.under allocations) value left := by
  intro others memory uses
  obtain ⟨value, left, after, run, _, usesAfter, related⟩ := follows others memory uses
  exact ⟨value, left, after, run, usesAfter, memory.allocations, related⟩

/-- An allocation may come in front. -/
theorem Returns.allocates {next : Option Block → Heap δ} {post : δ → Multiset Block → Prop}
    (failed : Returns owned (next none) post)
    (succeeded : ∀ block, Returns (owned + {block}) (next (some block)) post) :
    Returns owned (allocate >>= next) post := by
  refine follows_allocate.returns.bind fun other left related => ?_
  obtain ⟨allocations, related⟩ := related
  generalize malloc.under allocations = outcome at related
  cases related with
  | refused => exact failed
  | given block => exact succeeded block

/-- A copy of a text may come in front. -/
theorem Returns.copies {text : β} {next : Option (Pointer β) → Heap δ}
    {post : δ → Multiset Block → Prop} (failed : Returns owned (next none) post)
    (succeeded : ∀ block, Returns (owned + {block}) (next (some ⟨block, text⟩)) post) :
    Returns owned (duplicate text >>= next) post := by
  refine (follows_duplicate text).returns.bind fun other left related => ?_
  obtain ⟨allocations, related⟩ := related
  generalize malloc.under allocations = outcome at related
  cases related with
  | refused => exact failed
  | made block => exact succeeded block

/-- An access inside its bounds may come in front. -/
theorem Returns.reads {access : Checked β} {value : β} {next : β → Heap δ}
    {post : δ → Multiset Block → Prop} (second : Returns owned (next value) post)
    (inside : access = .ok value) : Returns owned (liftM access >>= next) post := by
  subst inside
  exact second

end Returning

end Heap

end DnsServer
