import Mathlib.Data.List.Basic
import Mathlib.Tactic.Common

/-!
# Runs of a deterministic system

A system moves from state to state by a function of the state and an event. A
run is given by its first state and its events. `Along` says that a relation
between states and events holds at every step of a run.

The rules carry a fact about one step to every run: an invariant holds in all runs
of given events exactly when each of their steps meets the exact condition for
keeping it (`along_choices_keeps_iff`), and two relations that agree where an
invariant holds agree along runs that keep it (`along_congr`).
-/

set_option autoImplicit false

namespace DnsServer

universe u v

variable {σ : Type u} {ε : Type v} {next : σ → ε → σ}

/-- A relation holds at every step of a run. -/
def Along (next : σ → ε → σ) (holds : σ → ε → Prop) : σ → List ε → Prop
  | _, [] => True
  | state, event :: events => holds state event ∧ Along next holds (next state event) events

/-- The states of a run, the first one included. -/
def statesAlong (next : σ → ε → σ) : σ → List ε → List σ
  | state, [] => [state]
  | state, event :: events => state :: statesAlong next (next state event) events

@[simp] theorem along_nil (holds : σ → ε → Prop) (state : σ) : Along next holds state [] := trivial

@[simp] theorem along_cons {holds : σ → ε → Prop} {state : σ} {event : ε} {events : List ε} :
    Along next holds state (event :: events) ↔
      holds state event ∧ Along next holds (next state event) events := Iff.rfl

theorem mem_statesAlong_self (state : σ) (events : List ε) :
    state ∈ statesAlong next state events := by
  cases events <;> exact List.mem_cons_self

theorem foldl_mem_statesAlong (state : σ) (events : List ε) :
    events.foldl next state ∈ statesAlong next state events := by
  induction events generalizing state with
  | nil => exact List.mem_cons_self
  | cons event events ih => exact List.mem_cons_of_mem _ (ih _)

/-- **Conditions that are exact over all choices add up** to the runs of given
events: where each event comes with a choice of the environment, the invariant holds
in every state of all runs of the events exactly when every step of these runs meets
its condition. -/
theorem along_choices_keeps_iff {γ : Type v} {next : σ → ε × γ → σ} {invariant_ : σ → Prop}
    {condition : σ → ε → Prop}
    (step : ∀ state event, invariant_ state →
      ((∀ choice, invariant_ (next state (event, choice))) ↔ condition state event)) :
    ∀ {state : σ} (events : List ε), invariant_ state →
      ((∀ run : List (ε × γ), run.map Prod.fst = events →
          ∀ reached ∈ statesAlong next state run, invariant_ reached) ↔
        ∀ run : List (ε × γ), run.map Prod.fst = events →
          Along next (fun before taken => condition before taken.1) state run) := by
  intro state events
  induction events generalizing state with
  | nil =>
      intro here
      simp [statesAlong, here]
  | cons event events ih =>
      intro here
      constructor
      · intro all run given
        obtain ⟨⟨event, choice⟩, run, rfl, rfl, later⟩ := List.map_eq_cons_iff.mp given
        have kept : ∀ other, invariant_ (next state (event, other)) := fun other =>
          (List.forall_mem_cons.mp (all ((event, other) :: run) (by simp [later]))).2 _
            (mem_statesAlong_self _ run)
        have rest := (ih (kept choice)).mp fun others same =>
          (List.forall_mem_cons.mp (all ((event, choice) :: others) (by simp [same]))).2
        exact ⟨(step state event here).mp kept, rest run later⟩
      · intro met run given
        obtain ⟨⟨event, choice⟩, run, rfl, rfl, later⟩ := List.map_eq_cons_iff.mp given
        have after := (step state event here).mpr (met _ given).1 choice
        exact List.forall_mem_cons.mpr ⟨here, (ih after).mpr (fun others same =>
          (met ((event, choice) :: others) (by simp [same])).2) run later⟩

/-- An invariant that every step under a condition keeps holds in every state of
a run whose steps all meet the condition. -/
theorem invariant_along {invariant_ : σ → Prop} {condition : σ → ε → Prop}
    (step : ∀ state event, invariant_ state → condition state event →
      invariant_ (next state event)) :
    ∀ {state : σ} (events : List ε), invariant_ state → Along next condition state events →
      ∀ reached ∈ statesAlong next state events, invariant_ reached := by
  intro state events
  induction events generalizing state with
  | nil =>
      intro here _
      simp [statesAlong, here]
  | cons event events ih =>
      rintro here ⟨met, later⟩
      exact List.forall_mem_cons.mpr ⟨here, ih (step state event here met) later⟩

/-- A weaker relation holds wherever a stronger one does. -/
theorem Along.mono {strong weak : σ → ε → Prop}
    (weaken : ∀ state event, strong state event → weak state event) :
    ∀ {state : σ} {events : List ε}, Along next strong state events →
      Along next weak state events := by
  intro state events
  induction events generalizing state with
  | nil => exact fun _ => trivial
  | cons event events ih =>
      rintro ⟨here, later⟩
      exact ⟨weaken state event here, ih later⟩

/-- Two relations that agree wherever an invariant holds agree along every run
that starts in it. -/
theorem along_congr {invariant_ : σ → Prop} {first second : σ → ε → Prop}
    (step : ∀ state event, invariant_ state → invariant_ (next state event))
    (agree : ∀ state event, invariant_ state → (first state event ↔ second state event)) :
    ∀ {state : σ} (events : List ε), invariant_ state →
      (Along next first state events ↔ Along next second state events) := by
  intro state events
  induction events generalizing state with
  | nil => exact fun _ => Iff.rfl
  | cons event events ih =>
      intro here
      rw [along_cons, along_cons, agree state event here, ih (step state event here)]

end DnsServer
