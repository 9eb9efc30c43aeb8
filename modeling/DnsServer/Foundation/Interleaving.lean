import DnsServer.Foundation.Runs
import Mathlib.Data.List.ReduceOption

/-!
# Operations in sections, and requests between them

One thread runs operations, each as a list of sections that change a state. A
second thread sends requests, each answered from the state of one moment. While
an operation runs, a schedule says moment by moment whether the next section is
executed or a request is answered, so a schedule is an interleaving of the two.
The sections that it leaves out are executed at its end.

A window is `Atomic` when its answers are those of the whole operation done at
one moment. With at most one section it always is. With two sections it is so
exactly when the requests in the gap between the sections can be split into
some that the state before the operation answers alike and some that the state
after it answers alike (`atomic_pair_iff`).

A run is `Linearizable` when all its answers together are those of a sequential
run, which comes down to the windows one by one (`linearizable_iff`).
-/

set_option autoImplicit false

namespace DnsServer

universe u v w x

variable {σ : Type u} {Q : Type v} {R : Type w}

/-! ## The window of one operation -/

/-- A moment of a schedule: a request is answered, or the next section of the
operation is executed. -/
abbrev Moment (Q : Type v) := Option Q

/-- The state after all sections. -/
def complete (sections : List (σ → σ)) (state : σ) : σ :=
  sections.foldl (fun state change => change state) state

/-- The requests of a schedule, each with its answer. -/
def runWindow (answer : σ → Q → R) : List (σ → σ) → List (Moment Q) → σ → List (Q × R)
  | _, [], _ => []
  | sections, some query :: schedule, state =>
    (query, answer state query) :: runWindow answer sections schedule state
  | [], none :: schedule, state => runWindow answer [] schedule state
  | change :: sections, none :: schedule, state =>
    runWindow answer sections schedule (change state)

/-- Some requests with their answers in one state. -/
def answers (answer : σ → Q → R) (state : σ) (queries : List Q) : List (Q × R) :=
  queries.map fun query => (query, answer state query)

/-- The requests in front of the next section. -/
def beforeSection : List (Moment Q) → List Q
  | some query :: schedule => query :: beforeSection schedule
  | none :: _ | [] => []

/-- The schedule behind the next section. -/
def afterSection : List (Moment Q) → List (Moment Q)
  | some _ :: schedule => afterSection schedule
  | none :: schedule => schedule
  | [] => []

variable {answer : σ → Q → R}

@[simp] theorem complete_nil (state : σ) : complete [] state = state := rfl

@[simp] theorem complete_cons (change : σ → σ) (sections : List (σ → σ)) (state : σ) :
    complete (change :: sections) state = complete sections (change state) := rfl

@[simp] theorem answers_append (state : σ) (first second : List Q) :
    answers answer state (first ++ second) = answers answer state first ++
      answers answer state second := List.map_append

@[simp] theorem length_answers (state : σ) (queries : List Q) :
    (answers answer state queries).length = queries.length := List.length_map _

@[simp] theorem queries_answers (state : σ) (queries : List Q) :
    (answers answer state queries).map Prod.fst = queries := by
  simp [answers, Function.comp_def]

/-- Two states answer the same requests alike exactly when they answer each of
them alike. -/
theorem answers_eq_iff {first second : σ} {queries : List Q} :
    answers answer first queries = answers answer second queries ↔
      ∀ query ∈ queries, answer first query = answer second query := by
  simp [answers, List.map_inj_left]

theorem reduceOption_eq_sections (schedule : List (Moment Q)) :
    schedule.reduceOption = beforeSection schedule ++ (afterSection schedule).reduceOption := by
  induction schedule with
  | nil => rfl
  | cons moment schedule ih =>
      cases moment with
      | none => rfl
      | some query =>
          rw [List.reduceOption_cons_of_some, ih]
          rfl

/-- Without a section every request is answered from one state. -/
theorem runWindow_nil (schedule : List (Moment Q)) (state : σ) :
    runWindow answer [] schedule state = answers answer state schedule.reduceOption := by
  induction schedule with
  | nil => rfl
  | cons moment schedule ih =>
      cases moment with
      | none => exact ih
      | some query =>
          rw [runWindow, ih, List.reduceOption_cons_of_some]
          rfl

/-- Up to the next section every request is answered from one state. -/
theorem runWindow_cons (change : σ → σ) (sections : List (σ → σ)) (schedule : List (Moment Q))
    (state : σ) :
    runWindow answer (change :: sections) schedule state =
      answers answer state (beforeSection schedule) ++
        runWindow answer sections (afterSection schedule) (change state) := by
  induction schedule with
  | nil => cases sections <;> rfl
  | cons moment schedule ih =>
      cases moment with
      | none => rfl
      | some query =>
          rw [runWindow, ih]
          rfl

/-- A window answers the requests of its schedule in their order. -/
theorem runWindow_queries (sections : List (σ → σ)) (schedule : List (Moment Q)) (state : σ) :
    (runWindow answer sections schedule state).map Prod.fst = schedule.reduceOption := by
  induction sections generalizing schedule state with
  | nil => rw [runWindow_nil, queries_answers]
  | cons change sections ih =>
      rw [runWindow_cons, List.map_append, ih, queries_answers, reduceOption_eq_sections schedule]

/-! ## Windows that look atomic -/

/-- The answers of a window are those of the operation done at one moment: all
requests in front of it are answered from the state before, all behind it from
the state after. -/
def Atomic (answer : σ → Q → R) (sections : List (σ → σ)) (schedule : List (Moment Q))
    (state : σ) : Prop :=
  ∃ before after, schedule.reduceOption = before ++ after ∧
    runWindow answer sections schedule state =
      answers answer state before ++ answers answer (complete sections state) after

/-- In such a window every answer comes from the state before or the state
after. -/
theorem Atomic.answer_eq {sections : List (σ → σ)} {schedule : List (Moment Q)} {state : σ}
    (atomic : Atomic answer sections schedule state) {query : Q} {answered : R}
    (member : (query, answered) ∈ runWindow answer sections schedule state) :
    answered = answer state query ∨ answered = answer (complete sections state) query := by
  obtain ⟨before, after, _, window⟩ := atomic
  rw [window, List.mem_append] at member
  rcases member with early | late
  · obtain ⟨_, _, same⟩ := List.mem_map.mp early
    cases same
    exact .inl rfl
  · obtain ⟨_, _, same⟩ := List.mem_map.mp late
    cases same
    exact .inr rfl

/-- Nothing can be seen of an operation with a single section. -/
theorem atomic_single (change : σ → σ) (schedule : List (Moment Q)) (state : σ) :
    Atomic answer [change] schedule state :=
  ⟨beforeSection schedule, (afterSection schedule).reduceOption,
    reduceOption_eq_sections schedule, by rw [runWindow_cons, runWindow_nil]; rfl⟩

/-- The requests between the first and the second section. -/
def gap (schedule : List (Moment Q)) : List Q := beforeSection (afterSection schedule)

/-- **An operation in two sections looks atomic** exactly when the requests in
its gap are answered as before the operation, up to one of them, and as after it
from there on. -/
theorem atomic_pair_iff (first second : σ → σ) (schedule : List (Moment Q)) (state : σ) :
    Atomic answer [first, second] schedule state ↔
      ∃ early late, gap schedule = early ++ late ∧
        (∀ query ∈ early, answer (first state) query = answer state query) ∧
        (∀ query ∈ late, answer (first state) query = answer (second (first state)) query) := by
  have queries : schedule.reduceOption = beforeSection schedule ++
      (gap schedule ++ (afterSection (afterSection schedule)).reduceOption) := by
    rw [reduceOption_eq_sections schedule, reduceOption_eq_sections (afterSection schedule), gap]
  have window : runWindow answer [first, second] schedule state =
      answers answer state (beforeSection schedule) ++ (answers answer (first state) (gap schedule) ++
        answers answer (second (first state))
          (afterSection (afterSection schedule)).reduceOption) := by
    rw [runWindow_cons, runWindow_cons, runWindow_nil, gap]
  unfold Atomic
  rw [queries, window]
  simp only [complete_cons, complete_nil, ← answers_eq_iff]
  constructor
  · rintro ⟨before, after, split, same⟩
    rcases List.append_eq_append_iff.mp split with ⟨more, rfl, rest⟩ | ⟨more, start, rfl⟩
    · rcases List.append_eq_append_iff.mp rest with ⟨more', rfl, tail⟩ | ⟨late, middle, rfl⟩
      · -- the moment lies behind the gap
        refine ⟨gap schedule, [], (List.append_nil _).symm, ?_, rfl⟩
        rw [answers_append, answers_append, List.append_assoc, List.append_assoc] at same
        exact (List.append_inj (List.append_cancel_left same) (by simp)).1
      · -- the moment lies in the gap
        refine ⟨more, late, middle, ?_⟩
        rw [middle, answers_append, answers_append, answers_append, List.append_assoc,
          List.append_assoc] at same
        obtain ⟨early, rest⟩ := List.append_inj (List.append_cancel_left same) (by simp)
        exact ⟨early, (List.append_inj rest (by simp)).1⟩
    · -- the moment lies in front of the gap
      refine ⟨[], gap schedule, rfl, rfl, ?_⟩
      rw [start, answers_append, answers_append, answers_append, List.append_assoc] at same
      have rest := (List.append_inj (List.append_cancel_left same) (by simp)).2
      exact (List.append_inj rest (by simp)).1
  · rintro ⟨early, late, middle, earlySame, lateSame⟩
    refine ⟨beforeSection schedule ++ early,
      late ++ (afterSection (afterSection schedule)).reduceOption, by simp [middle], ?_⟩
    rw [middle, answers_append, answers_append, answers_append, earlySame, lateSame]
    simp only [List.append_assoc]

/-! ## Runs -/

section Runs

variable {Op : Type x} (answer : σ → Q → R) (sections : Op → List (σ → σ))

/-- An event of a run: a request between two operations, or an operation with
the schedule of its window. -/
inductive Event (Op : Type x) (Q : Type v) where
  | request (query : Q)
  | operation (op : Op) (schedule : List (Moment Q))

/-- The state after an event. -/
def afterEvent (state : σ) : Event Op Q → σ
  | .request _ => state
  | .operation op _ => complete (sections op) state

/-- The requests of an event, each with its answer. -/
def eventAnswers (state : σ) : Event Op Q → List (Q × R)
  | .request query => [(query, answer state query)]
  | .operation op schedule => runWindow answer (sections op) schedule state

/-- The requests of a run, each with its answer. -/
def runAnswers : σ → List (Event Op Q) → List (Q × R)
  | _, [] => []
  | state, event :: events =>
    eventAnswers answer sections state event ++ runAnswers (afterEvent sections state event) events

/-- The answers that a sequential run may give: every operation is done at one
moment between its start and its end. -/
inductive SequentialAnswers : σ → List (Event Op Q) → List (Q × R) → Prop
  | done (state : σ) : SequentialAnswers state [] []
  | request {state : σ} {events : List (Event Op Q)} {rest : List (Q × R)} (query : Q)
      (later : SequentialAnswers state events rest) :
      SequentialAnswers state (.request query :: events) ((query, answer state query) :: rest)
  | operation {state : σ} {events : List (Event Op Q)} {rest : List (Q × R)} (op : Op)
      (schedule : List (Moment Q)) (before after : List Q)
      (moment : schedule.reduceOption = before ++ after)
      (later : SequentialAnswers (complete (sections op) state) events rest) :
      SequentialAnswers state (.operation op schedule :: events)
        (answers answer state before ++ (answers answer (complete (sections op) state) after ++ rest))

/-- The answers of the run are those of a sequential run. -/
def Linearizable (state : σ) (events : List (Event Op Q)) : Prop :=
  SequentialAnswers answer sections state events (runAnswers answer sections state events)

/-- The window of an event looks atomic. -/
def AtomicEvent (state : σ) : Event Op Q → Prop
  | .request _ => True
  | .operation op schedule => Atomic answer (sections op) schedule state

/-- **A run is linearizable** exactly when each of its windows looks atomic. -/
theorem linearizable_iff {state : σ} {events : List (Event Op Q)} :
    Linearizable answer sections state events ↔
      Along (afterEvent sections) (AtomicEvent answer sections) state events := by
  unfold Linearizable
  induction events generalizing state with
  | nil => exact ⟨fun _ => trivial, fun _ => .done state⟩
  | cons event events ih =>
      rw [along_cons, ← ih]
      cases event with
      | request query =>
          constructor
          · intro sequential
            cases sequential with
            | request _ later => exact ⟨trivial, later⟩
          · rintro ⟨_, later⟩
            exact .request query later
      | operation op schedule =>
          constructor
          · intro sequential
            generalize given : runAnswers answer sections state (.operation op schedule :: events) =
              answered at sequential
            cases sequential with
            | operation _ _ before after moment later =>
                have sameLength : (runWindow answer (sections op) schedule state).length =
                    (answers answer state before ++
                      answers answer (complete (sections op) state) after).length := by
                  rw [← List.length_map Prod.fst, runWindow_queries, moment]
                  simp
                rw [← List.append_assoc] at given
                obtain ⟨window, rest⟩ := List.append_inj given sameLength
                exact ⟨⟨before, after, moment, window⟩, rest ▸ later⟩
          · rintro ⟨⟨before, after, moment, window⟩, later⟩
            rw [runAnswers, eventAnswers, window, List.append_assoc]
            exact .operation op schedule before after moment later

end Runs

end DnsServer
