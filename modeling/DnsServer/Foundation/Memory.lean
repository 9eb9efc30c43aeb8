import Mathlib.Data.List.Basic
import Mathlib.Tactic.Common

/-!
# Memory: checked access and allocation

A computation over buffers of fixed size either returns a value or stops at the
first access outside a buffer. What such a computation returns says that every
access it made on the way was inside its buffer.

Buffers of fixed size are filled from the front: an `OutBuffer` holds the bytes
written so far and carries the proof that they fit.

A computation that allocates runs over a pattern of outcomes, one for each
allocation in the order in which they are made. Allocations beyond the end of
the pattern succeed, so the empty pattern is the run without a failure.
-/

set_option autoImplicit false

namespace DnsServer

/-- An access outside a buffer, or a loop that used up its bound. -/
inductive Fault where
  | read (index : Nat)
  | write (index : Nat)
  | diverged
  deriving DecidableEq, Repr

/-- A computation that stops at the first fault. -/
abbrev Checked (α : Type) := Except Fault α

namespace Checked

@[simp] theorem pure_eq_ok {α : Type} (value : α) : (pure value : Checked α) = .ok value := rfl

@[simp] theorem ok_bind {α β : Type} (value : α) (next : α → Checked β) :
    (Except.ok value >>= next : Checked β) = next value := rfl

end Checked

/-- Read one byte of a buffer. -/
def readAt (buffer : List UInt8) (index : Nat) : Checked UInt8 :=
  match buffer[index]? with
  | some byte => .ok byte
  | none => .error (.read index)

theorem readAt_of_getElem? {buffer : List UInt8} {index : Nat} {byte : UInt8}
    (there : buffer[index]? = some byte) : readAt buffer index = .ok byte := by
  simp [readAt, there]

/-- A `memcpy` that reads `count` bytes from `start` on. -/
def readRange (buffer : List UInt8) (start count : Nat) : Checked (List UInt8) :=
  if start + count ≤ buffer.length then .ok ((buffer.drop start).take count)
  else .error (.read buffer.length)

/-- A buffer of fixed size, filled from the front. -/
structure OutBuffer (capacity : Nat) where
  bytes : List UInt8
  fits : bytes.length ≤ capacity

namespace OutBuffer

variable {capacity : Nat}

/-- A buffer into which nothing has been written. -/
def empty : OutBuffer capacity := ⟨[], Nat.zero_le _⟩

/-- How many bytes have been written. -/
def length (buffer : OutBuffer capacity) : Nat := buffer.bytes.length

/-- Write further bytes behind those already there. -/
def append (buffer : OutBuffer capacity) (more : List UInt8) : Checked (OutBuffer capacity) :=
  if room : buffer.bytes.length + more.length ≤ capacity then
    .ok ⟨buffer.bytes ++ more, by simpa using room⟩
  else .error (.write capacity)

@[simp] theorem length_empty : (empty : OutBuffer capacity).length = 0 := rfl

@[simp] theorem bytes_empty : (empty : OutBuffer capacity).bytes = [] := rfl

@[ext] theorem ext {first second : OutBuffer capacity} (same : first.bytes = second.bytes) :
    first = second := by
  cases first
  cases second
  cases same
  rfl

/-- A write with room for it succeeds. -/
theorem append_of_room {buffer : OutBuffer capacity} {more : List UInt8}
    (room : buffer.bytes.length + more.length ≤ capacity) :
    buffer.append more = .ok ⟨buffer.bytes ++ more, by simpa using room⟩ :=
  dif_pos room

end OutBuffer

/-- Write one element behind those that an array of `capacity` elements holds. -/
def storeNext {α : Type} (capacity : Nat) (elements : List α) (element : α) : Checked (List α) :=
  if elements.length < capacity then .ok (elements ++ [element])
  else .error (.write elements.length)

/-- The outcomes of the allocations still to come. -/
abbrev Allocations := List Bool

/-- A computation that makes allocations. -/
abbrev Alloc (α : Type) := StateM Allocations α

/-- One allocation: whether it succeeded. -/
def malloc : Alloc Bool
  | [] => (true, [])
  | outcome :: rest => (outcome, rest)

/-- A number of allocations, up to the first that fails: whether all succeeded. -/
def mallocs : Nat → Alloc Bool
  | 0 => pure true
  | count + 1 => do
    if ← malloc then mallocs count else return false

namespace Alloc

/-- The result of a computation under a pattern of outcomes. -/
def under {α : Type} (computation : Alloc α) (allocations : Allocations) : α :=
  (computation.run allocations).1

/-- The result of a computation none of whose allocations fails. -/
def result {α : Type} (computation : Alloc α) : α := computation.under []

@[simp] theorem under_pure {α : Type} (value : α) (allocations : Allocations) :
    under (pure value) allocations = value := rfl

@[simp] theorem under_map {α β : Type} (change : α → β) (computation : Alloc α)
    (allocations : Allocations) :
    under (change <$> computation) allocations = change (computation.under allocations) := rfl

theorem under_bind {α β : Type} (computation : Alloc α) (next : α → Alloc β)
    (allocations : Allocations) :
    under (computation >>= next) allocations =
      (next (computation.under allocations)).under (computation.run allocations).2 := rfl

/-- The computation that none of whose allocations fails has the result and
leaves no outcome over. -/
def Yields {α : Type} (computation : Alloc α) (value : α) : Prop :=
  computation.run [] = (value, [])

theorem Yields.result_eq {α : Type} {computation : Alloc α} {value : α}
    (yields : computation.Yields value) : computation.result = value :=
  congrArg Prod.fst yields

/-- What follows a computation none of whose allocations fails starts from its
result. -/
theorem Yields.result_bind {α β : Type} {computation : Alloc α} {value : α}
    (yields : computation.Yields value) (next : α → Alloc β) :
    (computation >>= next).result = (next value).result := by
  have run : computation.run [] = (value, []) := yields
  simp only [result, under, StateT.run_bind, run]
  rfl

theorem Yields.bind {α β : Type} {computation : Alloc α} {next : α → Alloc β} {value : α}
    {last : β} (first : computation.Yields value) (second : (next value).Yields last) :
    Yields (computation >>= next) last := by
  unfold Yields at *
  rw [StateT.run_bind, first]
  exact second

theorem Yields.map {α β : Type} {computation : Alloc α} {value : α}
    (yields : computation.Yields value) (change : α → β) :
    Yields (change <$> computation) (change value) := by
  unfold Yields at *
  rw [StateT.run_map, yields]
  rfl

theorem yields_malloc : Yields malloc true := rfl

theorem yields_mallocs (count : Nat) : Yields (mallocs count) true := by
  induction count with
  | zero => rfl
  | succ count ih => exact yields_malloc.bind ih

/-- Whatever allocations fail, the result satisfies a postcondition. -/
def Always {α : Type} (computation : Alloc α) (post : α → Prop) : Prop :=
  ∀ allocations, post (computation.under allocations)

theorem always_pure {α : Type} {post : α → Prop} {value : α} (holds : post value) :
    Always (pure value) post := fun _ => holds

theorem Always.bind {α β : Type} {computation : Alloc α} {next : α → Alloc β}
    {middle : α → Prop} {post : β → Prop} (first : computation.Always middle)
    (second : ∀ value, middle value → (next value).Always post) :
    Always (computation >>= next) post := by
  intro allocations
  rw [under_bind]
  exact second _ (first allocations) _

/-- The computation makes a number of allocations: with all of them it has its
result, and when one fails it has none. -/
def Costs {α : Type} (computation : Alloc (Option α)) (count : Nat) (value : Option α) : Prop :=
  ∀ allocations,
    (false ∉ allocations.take count →
      computation.run allocations = (value, allocations.drop count)) ∧
    (false ∈ allocations.take count → computation.under allocations = none)

theorem mallocs_run (count : Nat) (allocations : Allocations) :
    (false ∉ allocations.take count →
      (mallocs count).run allocations = (true, allocations.drop count)) ∧
    (false ∈ allocations.take count → (mallocs count).under allocations = false) := by
  induction count generalizing allocations with
  | zero => exact ⟨fun _ => rfl, fun fails => by simp at fails⟩
  | succ count ih =>
      cases allocations with
      | nil => exact ⟨fun _ => yields_mallocs (count + 1), fun fails => by simp at fails⟩
      | cons outcome rest =>
          cases outcome with
          | false => exact ⟨fun all => by simp at all, fun _ => rfl⟩
          | true =>
              have behind := ih rest
              constructor
              · intro all
                exact behind.1 (by simpa using all)
              · intro fails
                exact behind.2 (by simpa using fails)

theorem costs_pure {α : Type} (value : Option α) : Costs (pure value) 0 value :=
  fun _ => ⟨fun _ => rfl, fun fails => by simp at fails⟩

/-- One more allocation in front of a computation. -/
theorem Costs.malloc {α : Type} {next : Alloc (Option α)} {count : Nat} {value : Option α}
    (after : next.Costs count value) :
    Costs (do if ← malloc then next else return none) (count + 1) value := by
  intro allocations
  cases allocations with
  | nil =>
      refine ⟨fun _ => ?_, fun fails => by simp at fails⟩
      have run := (after []).1 (by simp)
      rw [List.drop_nil] at run ⊢
      exact run
  | cons outcome rest =>
      cases outcome with
      | false => exact ⟨fun all => by simp at all, fun _ => rfl⟩
      | true =>
          obtain ⟨all, fails⟩ := after rest
          exact ⟨fun none_ => all (by simpa using none_), fun one => fails (by simpa using one)⟩

/-- Allocations in front of a value. -/
theorem costs_mallocs {α : Type} (count : Nat) (value : α) :
    Costs (do if ← mallocs count then return some value else return none) count (some value) := by
  intro allocations
  obtain ⟨all, fails⟩ := mallocs_run count allocations
  constructor
  · intro none_
    rw [StateT.run_bind, all none_]
    rfl
  · intro one
    rw [under_bind, fails one]
    rfl

/-- The costs of two computations one behind the other. -/
theorem Costs.bind {α β : Type} {computation : Alloc (Option α)}
    {next : Option α → Alloc (Option β)} {first second : Nat} {middle : α} {value : Option β}
    (before : computation.Costs first (some middle)) (stop : next none = pure none)
    (after : (next (some middle)).Costs second value) :
    Costs (computation >>= next) (first + second) value := by
  intro allocations
  obtain ⟨all, fails⟩ := before allocations
  obtain ⟨allAfter, failsAfter⟩ := after (allocations.drop first)
  rw [List.take_add, List.mem_append, not_or]
  constructor
  · rintro ⟨none_, noneAfter⟩
    rw [StateT.run_bind, all none_, ← List.drop_drop]
    exact allAfter noneAfter
  · intro one
    by_cases here : false ∈ allocations.take first
    · rw [under_bind, fails here, stop]
      rfl
    · rw [under, StateT.run_bind, all here]
      exact failsAfter (one.resolve_left here)

theorem always_any {α : Type} (computation : Alloc α) : computation.Always fun _ => True :=
  fun _ => trivial

/-- Whatever allocations fail, both computations make the same ones, and their
results are related. -/
def Together {α β : Type} (rel : α → β → Prop) (first : Alloc α) (second : Alloc β) : Prop :=
  ∀ allocations, rel (first.under allocations) (second.under allocations) ∧
    (first.run allocations).2 = (second.run allocations).2

theorem together_pure {α β : Type} {rel : α → β → Prop} {one : α} {other : β}
    (related : rel one other) : Together rel (pure one) (pure other) :=
  fun _ => ⟨related, rfl⟩

theorem together_self {α : Type} (computation : Alloc α) :
    Together (· = ·) computation computation :=
  fun _ => ⟨rfl, rfl⟩

theorem Together.bind {α β γ δ : Type} {first : Alloc α} {second : Alloc β} {one : α → Alloc γ}
    {other : β → Alloc δ} {middle : α → β → Prop} {post : γ → δ → Prop}
    (before : Together middle first second)
    (after : ∀ a b, middle a b → Together post (one a) (other b)) :
    Together post (first >>= one) (second >>= other) := by
  intro allocations
  obtain ⟨related, left⟩ := before allocations
  have rest := after _ _ related (second.run allocations).2
  rw [under_bind, under_bind, left]
  refine ⟨rest.1, ?_⟩
  change ((one (first.under allocations)).run (first.run allocations).2).2 = _
  rw [left]
  exact rest.2

end Alloc

end DnsServer
