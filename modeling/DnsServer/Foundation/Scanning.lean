import Mathlib.Data.List.Basic
import Mathlib.Tactic.Common

/-!
# Scanning: computations over a position that can fail

A scanner works on a state, may fail with the state it has reached, and may stop at a
fault. Three judgments speak of a run from one state. `Gives` names the result and the state
of a run that succeeds. `Safe` says that the run stops at no fault, and what holds if it
succeeds. `Completes` says besides that it succeeds unless there is an excuse. All of them
follow the steps of the computation.
-/

set_option autoImplicit false

namespace DnsServer

/-- A computation that returns a result or fails, or stops at a fault. -/
abbrev Scanner (σ ε α : Type) := OptionT (StateT σ (Except ε)) α

namespace Scanner

variable {σ ε α β : Type} {scan : Scanner σ ε α} {state middle after : σ}

/-- The run succeeds with the result and leaves the state. -/
def Gives (scan : Scanner σ ε α) (state : σ) (value : α) (after : σ) : Prop :=
  scan.run.run state = .ok (some value, after)

/-- The run stops at no fault. If it succeeds, the condition holds of the result and of the
state it leaves. -/
def Safe (scan : Scanner σ ε α) (state : σ) (post : α → σ → Prop) : Prop :=
  ∃ result after, scan.run.run state = .ok (result, after) ∧
    ∀ value, result = some value → post value after

theorem run_bind (scan : Scanner σ ε α) (next : α → Scanner σ ε β) (state : σ) :
    (scan >>= next).run.run state =
      scan.run.run state >>= fun result =>
        match result.1 with
        | some value => (next value).run.run result.2
        | none => .ok (none, result.2) := by
  rw [OptionT.run_bind, Option.elimM, StateT.run_bind]
  congr 1
  funext result
  rcases result with ⟨_ | value, after⟩ <;> rfl

/-! ## What is given -/

section Gives

variable {value : α}

theorem gives_pure : Gives (pure value : Scanner σ ε α) state value state := rfl

theorem Gives.bind {next : α → Scanner σ ε β} {final : β} (first : Gives scan state value middle)
    (second : Gives (next value) middle final after) :
    Gives (scan >>= next) state final after := by
  rw [Gives, run_bind, first]
  exact second

theorem Gives.map (change : α → β) (gives : Gives scan state value after) :
    Gives (change <$> scan) state (change value) after :=
  gives.bind gives_pure

theorem gives_get : Gives (get : Scanner σ ε σ) state state state := rfl

theorem gives_modify {change : σ → σ} :
    Gives (modify change : Scanner σ ε Unit) state () (change state) := rfl

/-- A computation that can only stop at a fault. -/
theorem gives_lift {computation : Except ε α} (returns : computation = .ok value) :
    Gives (liftM computation : Scanner σ ε α) state value state := by
  subst returns
  rfl

theorem gives_guard {condition : Prop} [Decidable condition] (holds : condition) :
    Gives (guard condition : Scanner σ ε Unit) state () state := by
  rw [Gives, guard, if_pos holds]
  rfl

end Gives

/-! ## What is safe -/

section Safe

variable {post : α → σ → Prop}

theorem Gives.safe {value : α} (gives : Gives scan state value after) (holds : post value after) :
    Safe scan state post :=
  ⟨some value, after, gives, fun _ same => Option.some.inj same ▸ holds⟩

theorem safe_failure : Safe (failure : Scanner σ ε α) state post :=
  ⟨none, state, rfl, fun _ absurd => nomatch absurd⟩

theorem Safe.bind {next : α → Scanner σ ε β} {final : β → σ → Prop} (first : Safe scan state post)
    (second : ∀ value after, post value after → Safe (next value) after final) :
    Safe (scan >>= next) state final := by
  obtain ⟨result, middle, run, holds⟩ := first
  cases result with
  | none =>
      refine ⟨none, middle, ?_, fun _ absurd => nomatch absurd⟩
      rw [run_bind, run]
      rfl
  | some value =>
      obtain ⟨result, after, rerun, holdsAfter⟩ := second value middle (holds value rfl)
      refine ⟨result, after, ?_, holdsAfter⟩
      rw [run_bind, run]
      exact rerun

/-- A step whose result is known. -/
theorem Gives.before {value : α} {next : α → Scanner σ ε β} {final : β → σ → Prop}
    (gives : Gives scan state value middle) (rest : Safe (next value) middle final) :
    Safe (scan >>= next) state final := by
  obtain ⟨result, after, run, holds⟩ := rest
  refine ⟨result, after, ?_, holds⟩
  rw [run_bind, gives]
  exact run

theorem Safe.map {change : α → β} {final : β → σ → Prop} (safe : Safe scan state post)
    (holds : ∀ value after, post value after → final (change value) after) :
    Safe (change <$> scan) state final :=
  safe.bind fun value after first => gives_pure.safe (holds value after first)

theorem Safe.imp {final : α → σ → Prop} (safe : Safe scan state post)
    (weaker : ∀ value after, post value after → final value after) : Safe scan state final :=
  let ⟨result, after, run, holds⟩ := safe
  ⟨result, after, run, fun value same => weaker value after (holds value same)⟩

theorem safe_guard {condition : Prop} [Decidable condition] {next : Unit → Scanner σ ε β}
    {final : β → σ → Prop} (rest : condition → Safe (next ()) state final) :
    Safe (guard condition >>= next) state final := by
  by_cases holds : condition
  · exact (gives_guard holds).before (rest holds)
  · refine ⟨none, state, ?_, fun _ absurd => nomatch absurd⟩
    rw [guard, if_neg holds, run_bind]
    rfl

end Safe

/-! ## What completes -/

section Completes

variable {excuse : Prop} {post : α → σ → Prop}

/-- The run stops at no fault. It succeeds, and the condition holds of the result and of the
state it leaves, unless there is an excuse. -/
def Completes (scan : Scanner σ ε α) (state : σ) (excuse : Prop) (post : α → σ → Prop) : Prop :=
  ∃ result after, scan.run.run state = .ok (result, after) ∧
    (∀ value, result = some value → post value after) ∧ (result = none → excuse)

theorem Gives.completes {value : α} (gives : Gives scan state value after) (holds : post value after) :
    Completes scan state excuse post :=
  ⟨some value, after, gives, fun _ same => Option.some.inj same ▸ holds, nofun⟩

theorem completes_failure (excused : excuse) : Completes (failure : Scanner σ ε α) state excuse post :=
  ⟨none, state, rfl, nofun, fun _ => excused⟩

theorem Completes.bind {next : α → Scanner σ ε β} {final : β → σ → Prop}
    (first : Completes scan state excuse post)
    (second : ∀ value after, post value after → Completes (next value) after excuse final) :
    Completes (scan >>= next) state excuse final := by
  obtain ⟨result, middle, run, holds, fails⟩ := first
  cases result with
  | none =>
      refine ⟨none, middle, ?_, nofun, fun _ => fails rfl⟩
      rw [run_bind, run]
      rfl
  | some value =>
      obtain ⟨result, after, rerun, rest⟩ := second value middle (holds value rfl)
      refine ⟨result, after, ?_, rest⟩
      rw [run_bind, run]
      exact rerun

/-- A step whose result is known. -/
theorem Gives.andThen {value : α} {next : α → Scanner σ ε β} {final : β → σ → Prop}
    (gives : Gives scan state value middle) (rest : Completes (next value) middle excuse final) :
    Completes (scan >>= next) state excuse final := by
  obtain ⟨result, after, run, holds⟩ := rest
  refine ⟨result, after, ?_, holds⟩
  rw [run_bind, gives]
  exact run

theorem Completes.imp {final : α → σ → Prop} (completes : Completes scan state excuse post)
    (weaker : ∀ value after, post value after → final value after) :
    Completes scan state excuse final :=
  let ⟨result, after, run, holds, fails⟩ := completes
  ⟨result, after, run, fun value same => weaker value after (holds value same), fails⟩

end Completes

end Scanner

end DnsServer
