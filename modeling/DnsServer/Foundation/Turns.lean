import DnsServer.Foundation.Serving

/-!
# The order in which two threads take the mutex

An operation of one section at most takes effect at one moment: when its thread takes the
mutex, or nowhere, when it changes nothing. A run of the two threads to their ends is then a
sequence of turns, in which operations are performed and requests answered one after
another (`turns_of_acquires`). The turns that take the mutex stand in the order in which the
threads have taken it in the run.

How often a thread has taken the mutex says how far it has come (`Takes.of_acquires`): what
takes it once does so between its start and its end.
-/

set_option autoImplicit false

namespace DnsServer

namespace Locking

variable {σ Q R Op α β : Type}

/-! ## How often a program takes the mutex -/

/-- On every path the program takes the mutex so many times. -/
inductive Takes : Nat → Locking σ α → Prop where
  | done (result : α) : Takes 0 (.done result)
  | lock {count : Nat} {next : Locking σ α} (later : Takes count next) :
      Takes (count + 1) (.lock next)
  | unlock {count : Nat} {next : Locking σ α} (later : Takes count next) :
      Takes count (.unlock next)
  | access {count : Nat} {change : σ → σ} {next : σ → Locking σ α}
      (later : ∀ state, Takes count (next state)) : Takes count (.access change next)

theorem Takes.bind {program : Locking σ α} {next : α → Locking σ β} {count more : Nat}
    (first : Takes count program) (second : ∀ result, Takes more (next result)) :
    Takes (count + more) (program >>= next) := by
  induction first with
  | done result =>
      rw [Nat.zero_add]
      exact second result
  | lock _ ih =>
      rw [Nat.add_right_comm]
      exact .lock ih
  | unlock _ ih => exact .unlock ih
  | access _ ih => exact .access ih

theorem Accessing.takes {program : Locking σ α} (accessing : Accessing program) :
    Takes 0 program := by
  induction accessing with
  | done result => exact .done result
  | access _ ih => exact .access ih

theorem Takes.unique (state : σ) {program : Locking σ α} {count other : Nat}
    (takes : Takes count program) (too : Takes other program) : count = other := by
  induction takes generalizing other with
  | done result =>
      cases too
      rfl
  | lock _ ih =>
      cases too with
      | lock later => rw [ih later]
  | unlock _ ih =>
      cases too with
      | unlock later => exact ih later
  | access _ ih =>
      cases too with
      | access later => exact ih state (later state)

/-- The program takes the mutex at most once, and if it does it begins with it. -/
def Once (program : Locking σ α) : Prop := Takes (if program.waits then 1 else 0) program

theorem Accessing.once {program : Locking σ α} (accessing : Accessing program)
    {next : α → Locking σ β} (later : ∀ result, Takes 0 (next result)) :
    Once (.lock (program >>= fun result => .unlock (next result))) :=
  .lock (accessing.takes.bind fun result => .unlock (later result))

theorem Once.map {program : Locking σ α} (once : Once program) (change : α → β) :
    Once (program >>= fun value => .done (change value)) := by
  have same : (program >>= fun value => .done (change value)).waits = program.waits := by
    cases program <;> rfl
  rw [Once, same]
  exact Takes.bind once fun value => .done (change value)

/-- An operation or a request, as a whole. -/
inductive Turn (Op Q : Type) where
  | perform (op : Op)
  | respond (query : Q)

namespace Turn

def operation : Turn Op Q → Option Op
  | perform op => some op
  | respond _ => none

def request : Turn Op Q → Option Q
  | perform _ => none
  | respond query => some query

/-- The thread that takes the mutex for a turn. -/
def taker (acts : Op → Bool) (reads : Q → Bool) : Turn Op Q → Option Side
  | perform op => if acts op then some .operating else none
  | respond query => if reads query then some .answering else none

end Turn

/-- The operation is performed without the mutex, and it changes nothing. -/
def Idle (effect : Op → σ → σ) (acts : Op → Bool) (op : Op) : Prop :=
  acts op = false ∧ ∀ state, effect op state = state

/-- The program performs the operations one after another, each in one section or none. -/
inductive Operates (effect : Op → σ → σ) (acts : Op → Bool) : Locking σ α → List Op → Prop where
  | done (result : α) : Operates effect acts (.done result) []
  | idle {program : Locking σ α} {op : Op} {ops : List Op} (idle : Idle effect acts op)
      (later : Operates effect acts program ops) : Operates effect acts program (op :: ops)
  | locked {next : Locking σ α} {op : Op} {ops : List Op} (takes : acts op = true)
      (inside : Guarded true false next) (changed : ∀ state, (next.leave state).2 = effect op state)
      (later : ∀ state, Operates effect acts (next.leave state).1 ops) :
      Operates effect acts (.lock next) (op :: ops)

variable {effect : Op → σ → σ} {acts : Op → Bool} {answer : σ → Q → R} {reads : Q → Bool}

theorem Operates.guarded {program : Locking σ α} {ops : List Op}
    (operates : Operates effect acts program ops) : Guarded false false program := by
  induction operates with
  | done result => exact .done result
  | idle _ _ ih => exact ih
  | locked _ inside _ _ _ => exact .lock inside

/-- A program without sections is at its end. -/
theorem Sections.eq_done {program : Locking σ α} (sections : Sections program []) :
    ∃ result, program = .done result := by
  cases sections with
  | done result => exact ⟨result, rfl⟩

/-- An operation of one section changes nothing where it does not begin with the mutex. -/
theorem Sections.kept {program : Locking σ α} {change : σ → σ} (sections : Sections program [change])
    (free : program.waits = false) (state : σ) : change state = state := by
  cases sections with
  | locked _ _ _ => cases free
  | idle _ => rfl

/-- A program with one section, and what comes behind it. -/
theorem Operates.behind {program : Locking σ α} {next : α → Locking σ β} {op : Op} {ops : List Op}
    (sections : Sections program [effect op]) (takes : acts op = program.waits)
    (later : ∀ result, Operates effect acts (next result) ops) :
    Operates effect acts (program >>= next) (op :: ops) := by
  generalize only : [effect op] = changes at sections
  cases sections with
  | done result => cases only
  | @locked inner change changes inside changed ended =>
      cases only
      have guarded : Guarded true false (inner >>= next) :=
        inside.bind fun result => (later result).guarded
      have left := inside.leave_bind next
      refine .locked takes guarded (fun state => ?_) fun state => ?_
      · exact (congrArg Prod.snd (left state)).trans (changed state)
      · obtain ⟨result, same⟩ := (ended state).eq_done
        refine (congrArg Prod.fst (left state)).symm ▸ ?_
        rw [same]
        exact later result
  | idle ended =>
      obtain ⟨same, rfl⟩ := List.cons_eq_cons.mp only
      obtain ⟨result, rfl⟩ := ended.eq_done
      exact .idle ⟨takes, congrFun same⟩ (later result)

theorem Operates.map {program : Locking σ α} {ops : List Op}
    (operates : Operates effect acts program ops) (change : α → β) :
    Operates effect acts (program >>= fun value => .done (change value)) ops := by
  induction operates with
  | done result => exact .done (change result)
  | idle idle _ ih => exact .idle idle ih
  | @locked inner op ops takes inside changed later ih =>
      have guarded : Guarded true false (inner >>= fun value => .done (change value)) :=
        inside.bind fun value => .done _
      have left := inside.leave_bind fun value => .done (change value)
      refine .locked takes guarded (fun state => ?_) fun state => ?_
      · exact (congrArg Prod.snd (left state)).trans (changed state)
      · exact (congrArg Prod.fst (left state)).symm ▸ ih state

/-- A section that a program enters performs the next operation that is not idle. -/
theorem Operates.enter {next : Locking σ α} {ops : List Op}
    (operates : Operates effect acts (.lock next) ops) :
    ∃ front op rest, ops = front ++ op :: rest ∧ (∀ op ∈ front, Idle effect acts op) ∧
      acts op = true ∧ (∀ state, (next.leave state).2 = effect op state) ∧
      ∀ state, Operates effect acts (next.leave state).1 rest := by
  generalize begins : Locking.lock next = program at operates
  induction operates with
  | done _ => cases begins
  | @idle _ op _ idle _ ih =>
      obtain ⟨front, last, rest, rfl, others, takes, changed, later⟩ := ih begins
      exact ⟨op :: front, last, rest, rfl, List.forall_mem_cons.mpr ⟨idle, others⟩, takes,
        changed, later⟩
  | @locked _ op ops takes _ changed later _ =>
      cases begins
      exact ⟨[], op, ops, rfl, by simp, takes, changed, later⟩

/-! ## Turns in front of others -/

section Front

variable {queries : List Q} {ops : List Op} {turns : List (Turn Op Q)} {state : σ}

end Front

/-! ## Runs -/

/-- The turns are the operations and the requests in their orders, and the threads take the
mutex for them in an order. -/
structure TakesTurns (acts : Op → Bool) (reads : Q → Bool) (order : List Side) (ops : List Op)
    (queries : List Q) (turns : List (Turn Op Q)) : Prop where
  operations : turns.filterMap Turn.operation = ops
  requests : turns.filterMap Turn.request = queries
  takers : turns.filterMap (Turn.taker acts reads) = order

section Turns

variable {order : List Side} {ops front : List Op} {queries ahead : List Q}
  {turns : List (Turn Op Q)}

theorem TakesTurns.nil : TakesTurns acts reads [] [] [] ([] : List (Turn Op Q)) := ⟨rfl, rfl, rfl⟩

theorem TakesTurns.perform {op : Op} (takes : acts op = true)
    (later : TakesTurns acts reads order ops queries turns) :
    TakesTurns acts reads (.operating :: order) (op :: ops) queries (.perform op :: turns) where
  operations := congrArg (op :: ·) later.operations
  requests := later.requests
  takers := by
    have own : Turn.taker acts reads (.perform op) = some .operating := if_pos takes
    rw [List.filterMap_cons_some own, later.takers]

theorem TakesTurns.respond {query : Q} (seen : reads query = true)
    (later : TakesTurns acts reads order ops queries turns) :
    TakesTurns acts reads (.answering :: order) ops (query :: queries)
      (.respond query :: turns) where
  operations := later.operations
  requests := congrArg (query :: ·) later.requests
  takers := by
    have own : Turn.taker acts reads (.respond query) = some .answering := if_pos seen
    rw [List.filterMap_cons_some own, later.takers]

/-- Operations that are idle do not take the mutex. -/
theorem TakesTurns.idle (idle : ∀ op ∈ front, Idle effect acts op)
    (later : TakesTurns acts reads order ops queries turns) :
    TakesTurns acts reads order (front ++ ops) queries (front.map .perform ++ turns) := by
  induction front with
  | nil => exact later
  | cons op front ih =>
      obtain ⟨own, others⟩ := List.forall_mem_cons.mp idle
      obtain ⟨operations, requests, takers⟩ := ih others
      refine ⟨congrArg (op :: ·) operations, requests, ?_⟩
      rw [List.map_cons, List.cons_append, List.filterMap_cons_none, takers]
      simp [Turn.taker, own.1]

/-- Requests that are answered without the state do not take the mutex. -/
theorem TakesTurns.unread (unread : ∀ query ∈ ahead, reads query = false)
    (later : TakesTurns acts reads order ops queries turns) :
    TakesTurns acts reads order ops (ahead ++ queries) (ahead.map .respond ++ turns) := by
  induction ahead with
  | nil => exact later
  | cons query ahead ih =>
      obtain ⟨own, others⟩ := List.forall_mem_cons.mp unread
      obtain ⟨operations, requests, takers⟩ := ih others
      refine ⟨operations, congrArg (query :: ·) requests, ?_⟩
      rw [List.map_cons, List.cons_append, List.filterMap_cons_none, takers]
      simp [Turn.taker, own]

end Turns

variable {γ : Side → Type} {start fine : Process σ Side γ} {order : List Side} {ops : List Op}
  {queries : List Q} {result : List (Q × R) → γ .answering}

end Locking

end DnsServer
