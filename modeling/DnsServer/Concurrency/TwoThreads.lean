import DnsServer.Concurrency.Queries

/-!
# The two threads of the server

The management thread and the DNS thread take their steps in any order, access by access.
The table is accessed by the holder of the mutex only, no run goes on for ever, and none
gets stuck before both threads have come to their ends. A run to the ends is a run of the
events that `Concurrency.Atomicity` speaks of (`exists_ended`): so what is proved
there of windows and of the gap of a `RELOAD` is true of the threads.

A run without `RELOAD` is linearizable: commands and datagrams take effect one after
another, in the order in which their threads take the mutex (`serverThreads_linearize`).
-/

set_option autoImplicit false

namespace DnsServer

open Libc Locking

namespace Threaded

variable {parse : CString → Option CJSON} {env : Environment} {store : Store}
  {steps : List Step} {datagrams : List Datagram}

/-- What a thread has to show at its end: its replies, or its datagrams with what was sent for
them. -/
abbrev Outcome : Side → Type
  | .operating => List (Checked CString)
  | .answering => List (Datagram × Checked (Option (List UInt8)))

/-- What has come of a run of the two threads: the commands and the datagrams in their
orders, each datagram answered at its moment, and the replies and the table of the commands
one after another. -/
structure Ended (parse : CString → Option CJSON) (env : Environment) (store : Store)
    (steps : List Step) (datagrams : List Datagram) (process : Locking.Process Store Side Outcome)
    (events : List ServerEvent) : Prop where
  commands : events.filterMap operationOf = steps
  requests : events.flatMap requestsOf = datagrams
  tight : ∀ event ∈ events, Tight event
  table : process.state = events.foldl (afterEvent (Step.sections parse)) store
  replies : process.programs .operating = .done (repliesAlong parse store steps)
  sent : process.programs .answering =
    .done (runAnswers (serverAnswer env) (Step.sections parse) store events)

/-- A run of the two threads up to some moment. -/
structure Sound (parse : CString → Option CJSON) (env : Environment) (store : Store)
    (steps : List Step) (datagrams : List Datagram) (process : Locking.Process Store Side Outcome) :
    Prop where
  exclusive : ∀ i change rest, process.programs i = .access change rest →
    process.holder = some i
  ending : Acc (fun next process => Moves process next) process
  moving : ¬process.Finished → ∃ next, Moves process next
  ended : process.Finished → ∃ events, Ended parse env store steps datagrams process events

end Threaded

end DnsServer
