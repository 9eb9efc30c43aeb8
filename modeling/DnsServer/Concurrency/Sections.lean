import DnsServer.Foundation.Serving
import DnsServer.Model.Threads
import DnsServer.Concurrency.Atomicity
import DnsServer.Store.Insertions

/-!
# The sections of the commands

Each function of the management thread makes its accesses inside the mutex, and alone it has
the effect of the function of the same name that takes the table as an argument
(`Performs`). So the sections of a command are the ones of `Step.sections`
(`sections_handle`), and its reply is the one of the functions of the table (`exec_handle`).
-/

set_option autoImplicit false

namespace DnsServer

open Libc Locking

namespace Threaded

/-! ## Functions under the mutex -/

variable {α β : Type}

/-- The function makes accesses only. -/
def Inside (program : Locked α) : Prop := ∀ allocations, Accessing (program.run allocations)

theorem Inside.bind {program : Locked α} {next : α → Locked β} (first : Inside program)
    (second : ∀ value, Inside (next value)) : Inside (program >>= next) :=
  fun allocations => (first allocations).bind fun result => second result.1 result.2

theorem run_bind (computation : Alloc α) (next : α → Alloc β) (allocations : Allocations) :
    (computation >>= next).run allocations =
      let (value, allocations) := computation.run allocations
      (next value).run allocations := rfl

/-- Alone, one function behind another. -/
theorem exec_run_bind (program : Locked α) (next : α → Locked β) (allocations : Allocations)
    (store : Store) :
    ((program >>= next).run allocations).exec store =
      let ((value, allocations), store) := (program.run allocations).exec store
      ((next value).run allocations).exec store :=
  exec_bind (program.run allocations) (fun result => (next result.1).run result.2) store

/-- Alone, the function has the effect of a function of the table. -/
def Effects (program : Locked α) (function : Store → Alloc (α × Store)) : Prop :=
  ∀ allocations store, (program.run allocations).exec store =
    let ((value, store), allocations) := (function store).run allocations
    ((value, allocations), store)

theorem Effects.bind {program : Locked α} {next : α → Locked β}
    {function : Store → Alloc (α × Store)} {after : α → Store → Alloc (β × Store)}
    (first : Effects program function) (second : ∀ value, Effects (next value) (after value)) :
    Effects (program >>= next) fun store =>
      function store >>= fun (value, store) => after value store := by
  intro allocations store
  rw [exec_run_bind, first]
  exact second _ _ _

/-- The function makes accesses only, and it has the effect of a function of the table. -/
structure Performs (program : Locked α) (function : Store → Alloc (α × Store)) : Prop where
  inside : Inside program
  effects : Effects program function

theorem Performs.congr {program : Locked α} {function other : Store → Alloc (α × Store)}
    (performs : Performs program function) (same : ∀ store, function store = other store) :
    Performs program other := funext same ▸ performs

theorem Performs.bind {program : Locked α} {next : α → Locked β}
    {function : Store → Alloc (α × Store)} {after : α → Store → Alloc (β × Store)}
    (first : Performs program function) (second : ∀ value, Performs (next value) (after value)) :
    Performs (program >>= next) fun store =>
      function store >>= fun (value, store) => after value store :=
  ⟨first.inside.bind fun value => (second value).inside,
    first.effects.bind fun value => (second value).effects⟩

theorem getRecordsList_eq (store : Store) (allocations : Allocations) :
    DnsServer.getRecordsList store allocations =
      beginList allocations >>= DnsServer.printRecords store.entries := by
  unfold DnsServer.getRecordsList beginList
  obtain ⟨_ | _, allocations⟩ := malloc allocations
  · rfl
  · rw [bind_assoc]
    refine bind_congr fun printed => ?_
    split
    · rfl
    · rw [pure_bind]

/-- A function under the mutex, with what follows it. -/
def locked (body : Locked α) (rest : α → Locked β) : Locked β := do
  mutexLock
  let value ← body
  mutexUnlock
  rest value

theorem Inside.sections {body : Locked α} (inside : Inside body) {rest : α → Locked β}
    {changes : List (Store → Store)} {allocations : Allocations}
    (guarded : ∀ value allocations, Guarded false false ((rest value).run allocations))
    (later : ∀ store, Sections ((rest ((body.run allocations).exec store).1.1).run
      ((body.run allocations).exec store).1.2) changes) :
    Sections ((locked body rest).run allocations)
      ((fun store => ((body.run allocations).exec store).2) :: changes) :=
  Sections.section_ (inside allocations) (fun _ => rfl) (fun result => guarded result.1 result.2) later

/-- The reply to a command that is executed on a table, and the allocations behind it. -/
def replyTo (parse : CString → Option CJSON) (store : Store) :
    Command → Alloc (Checked CString)
  | .add domain type scope value =>
    (fun result => .ok (addReply result.1)) <$>
      DnsServer.addSingleRecord store domain type scope value
  | .delete domain type scope =>
    (fun result => .ok (deleteReply result.1)) <$>
      DnsServer.deleteRecord store domain type scope
  | .list => fun allocations =>
    (listReply (DnsServer.getRecordsList store allocations), allocations)
  | .reload file =>
    (fun result => .ok (reloadReply result.1)) <$>
      DnsServer.loadDNSMappings parse file (DnsServer.clearRecords store)

end Threaded

end DnsServer
