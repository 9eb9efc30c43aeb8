import DnsServer.Foundation.Interleaving
import DnsServer.Resolution.Agreement
import DnsServer.Store.Reload

/-!
# Queries while a command runs

The management thread changes the store in critical sections, and the DNS thread
answers each query in one of its own, from the resolution to the last value it
reads. `ADD`, `DELETE` and `LIST` have one critical section each. `RELOAD` has
two: the first deletes every record, the second inserts the records of the file.

A run therefore looks like one in which every command takes effect at a single
moment exactly when the queries that fall between the two sections of a `RELOAD`
would also have found nothing at some moment outside of them: up to one of them
in the old store, from there on in the new one (`commandsAtomic_iff`).
-/

set_option autoImplicit false

namespace DnsServer

open Libc Wire

variable {parse : CString → Option CJSON} {env : Environment} {store : Store}

/-! ## The two threads -/

/-- What the DNS thread sends for a datagram. -/
def serverAnswer (env : Environment) (store : Store) (datagram : Datagram) :
    Checked (Option (List UInt8)) :=
  processDnsQuery env store datagram.bytes

/-- The critical sections of a command. -/
def Step.sections (parse : CString → Option CJSON) : Step → List (Store → Store)
  | (.reload file, allocations) =>
    [clearRecords, fun store => ((loadDNSMappings parse file store).under allocations).2]
  | (command, allocations) => [fun store => (command.execute parse store).under allocations]

/-- A query between two commands, or a command with the queries of its window. -/
abbrev ServerEvent := Event Step Datagram

/-- The sections of a command make up the command. -/
theorem complete_sections (parse : CString → Option CJSON) (step : Step) (store : Store) :
    complete (step.sections parse) store = Store.next parse store step := by
  obtain ⟨command, allocations⟩ := step
  cases command with
  | add domain type scope value => rfl
  | delete domain type scope => rfl
  | list => rfl
  | reload file =>
      simp only [Step.sections, complete_cons, complete_nil, Store.next, Command.execute,
        Alloc.under_map, handleReloadCommand_under, loadDNSMappings_under, clearRecords]

/-! ## What is asked for -/

/-- The datagram asks for nothing that the store holds. -/
def Unresolved (store : Store) (datagram : Datagram) : Prop :=
  ∀ query, parseDNSQuery datagram.bytes 256 16 = .ok (some query) →
    resolveRecord store query.domain query.typeString = .ok none

/-- The datagram asks for something that the store holds. -/
def Held (store : Store) (datagram : Datagram) : Prop :=
  ∃ query record, parseDNSQuery datagram.bytes 256 16 = .ok (some query) ∧
    resolveRecord store query.domain query.typeString = .ok (some record)

theorem lookup_empty (domain type : CString) : lookup KeyedTable.empty domain type = none :=
  lookup_eq_none_iff.mpr fun _ _ => KeyedTable.find_empty _

/-- Empty and filled, a store answers a datagram alike exactly when it holds
nothing that is asked for. -/
theorem serverAnswer_empty_eq_iff {datagram : Datagram} :
    serverAnswer env KeyedTable.empty datagram = serverAnswer env store datagram ↔
      Unresolved store datagram := by
  constructor
  · intro alike query parsed
    rw [resolveRecord_eq, (lookup_none_of_alike parsed alike).mp (lookup_empty _ _)]
  · intro unresolved
    rcases parseDNSQuery_cases datagram.bytes with refused | ⟨query, parsed, _⟩
    · rw [serverAnswer, serverAnswer, processDnsQuery_refused refused,
        processDnsQuery_refused refused]
    · have missing := unresolved query parsed
      rw [resolveRecord_eq, Except.ok.injEq] at missing
      exact processDnsQuery_congr parsed (by rw [lookup_empty, missing])

/-- The response for something that is held is not `NXDOMAIN`. -/
theorem Held.not_nxdomain {datagram : Datagram} (held : Held store datagram)
    {response : List UInt8} {header : Wire.Header}
    (sent : serverAnswer env store datagram = .ok (some response))
    (decoded : decodeHeader response = some header) : header.rcode ≠ DNS_RCODE_NXDOMAIN := by
  obtain ⟨query, record, parsed, resolved⟩ := held
  rw [resolveRecord_eq, Except.ok.injEq] at resolved
  obtain ⟨response', header', sent', decoded', code⟩ := processDnsQuery_rcode env store datagram
    query parsed
  rw [serverAnswer, sent', Except.ok.injEq, Option.some.injEq] at sent
  rw [← sent, decoded', Option.some.injEq] at decoded
  rw [← decoded, ne_eq, code, resolved]
  exact Option.some_ne_none record

/-! ## Commands that look atomic -/

/-- While a `RELOAD` that succeeds runs, no query gets `NXDOMAIN` for something
that is held both before and after it. -/
def NeverMissing (parse : CString → Option CJSON) (env : Environment) (store : Store) :
    ServerEvent → Prop
  | .operation (.reload file, allocations) schedule =>
    ((handleReloadCommand parse file store).under allocations).1 = true →
      ∀ datagram sent, (datagram, sent) ∈ runWindow (serverAnswer env)
          (Step.sections parse (.reload file, allocations)) schedule store →
        Held store datagram → Held (Store.next parse store (.reload file, allocations)) datagram →
          ∀ response header, sent = .ok (some response) → decodeHeader response = some header →
            header.rcode ≠ DNS_RCODE_NXDOMAIN
  | _ => True

/-- Every response is the one of a sequential run in which each command takes
effect at one moment between its start and its end; in particular a reload does
not hide what it keeps. -/
structure CommandsAtomic (parse : CString → Option CJSON) (env : Environment) (store : Store)
    (events : List ServerEvent) : Prop where
  linearizable : Linearizable (serverAnswer env) (Step.sections parse) store events
  never_missing : Along (afterEvent (Step.sections parse)) (NeverMissing parse env) store events

/-- The queries between the two sections of a `RELOAD` ask for nothing that the
old store holds, and from one of them on for nothing that the file defines. -/
def GapUnresolved (parse : CString → Option CJSON) (store : Store) : ServerEvent → Prop
  | .operation (.reload file, allocations) schedule =>
    ∃ early late, gap schedule = early ++ late ∧ (∀ datagram ∈ early, Unresolved store datagram) ∧
      ∀ datagram ∈ late,
        Unresolved (KeyedTable.empty.replaceAll (definedRecords parse file allocations)) datagram
  | _ => True

/-- One command looks atomic exactly when it meets the condition on its gap. -/
theorem atomicEvent_iff (store : Store) (event : ServerEvent) :
    AtomicEvent (serverAnswer env) (Step.sections parse) store event ↔
      GapUnresolved parse store event := by
  cases event with
  | request datagram => exact Iff.rfl
  | operation step schedule =>
      obtain ⟨command, allocations⟩ := step
      cases command with
      | add domain type scope value => exact iff_of_true (atomic_single _ _ _) trivial
      | delete domain type scope => exact iff_of_true (atomic_single _ _ _) trivial
      | list => exact iff_of_true (atomic_single _ _ _) trivial
      | reload file =>
          simp only [AtomicEvent, Step.sections, atomic_pair_iff, clearRecords,
            loadDNSMappings_under, serverAnswer_empty_eq_iff, GapUnresolved]

/-- A window that looks atomic hides nothing that is held before and after. -/
theorem neverMissing_of_atomic {event : ServerEvent}
    (atomic : AtomicEvent (serverAnswer env) (Step.sections parse) store event) :
    NeverMissing parse env store event := by
  cases event with
  | request datagram => trivial
  | operation step schedule =>
      obtain ⟨command, allocations⟩ := step
      cases command with
      | add domain type scope value => trivial
      | delete domain type scope => trivial
      | list => trivial
      | reload file =>
          intro _ datagram sent member heldBefore heldAfter response header outcome decoded
          rw [← complete_sections] at heldAfter
          rcases Atomic.answer_eq atomic member with before | after
          · exact heldBefore.not_nxdomain (before.symm.trans outcome) decoded
          · exact heldAfter.not_nxdomain (after.symm.trans outcome) decoded

/-- **Commands look atomic to every query** of a run exactly when each `RELOAD`
of the run meets the condition on its gap. -/
theorem commandsAtomic_iff (parse : CString → Option CJSON) (env : Environment) (store : Store)
    (events : List ServerEvent) :
    CommandsAtomic parse env store events ↔
      Along (afterEvent (Step.sections parse)) (GapUnresolved parse) store events := by
  have windows : Linearizable (serverAnswer env) (Step.sections parse) store events ↔
      Along (afterEvent (Step.sections parse)) (GapUnresolved parse) store events := by
    rw [linearizable_iff]
    exact ⟨Along.mono fun store event => (atomicEvent_iff store event).mp,
      Along.mono fun store event => (atomicEvent_iff store event).mpr⟩
  constructor
  · intro atomic
    exact windows.mp atomic.linearizable
  · intro condition
    have linearizable := windows.mpr condition
    refine ⟨linearizable, Along.mono (fun _ _ => neverMissing_of_atomic) ?_⟩
    exact (linearizable_iff _ _).mp linearizable

/-- A file with one address. -/
def oneAddressTree : CJSON :=
  (Placement.base (cstr "a")).tree (cstr "A") (.string (cstr "192.0.2.1"))

/-- Reloading the file it was started with, the server denies for a moment the
name that the file defines. -/
theorem not_commandsAtomic_of_query_in_reload :
    ¬ ∀ (parse : CString → Option CJSON) (env : Environment) (store : Store)
      (events : List ServerEvent), Reachable parse store →
        CommandsAtomic parse env store events := by
  intro all
  have loaded : Reachable (fun _ => some oneAddressTree)
      (loadedStore (fun _ => some oneAddressTree) (cstr "\x7b\x7d")) :=
    .started (.contents (cstr "\x7b\x7d")) [] (by rfl)
  have missing := (all _ oneAddressEnvironment _
    [.operation (.reload (.contents (cstr "\x7b\x7d")), []) [none, some addressQuery, none]]
    loaded).never_missing.1
  have parsed : parseDNSQuery addressQuery.bytes 256 16 =
      .ok (some (parsedQuestion [cstr "a"] DNS_TYPE_A)) :=
    parseDNSQuery_of_question questionAt_addressQuery
  let record : DNSRecord :=
    { domain := cstr "a", type := cstr "A", key := cstr "base_a_A", values := [cstr "192.0.2.1"] }
  obtain ⟨response, header, sent, decoded, code⟩ := processDnsQuery_rcode oneAddressEnvironment
    KeyedTable.empty addressQuery _ parsed
  refine missing (by decide +kernel) addressQuery _ List.mem_cons_self
    ⟨_, record, parsed, by rw [resolveRecord_eq]; decide +kernel⟩
    ⟨_, record, parsed, by rw [resolveRecord_eq]; decide +kernel⟩ response header sent decoded ?_
  exact code.mpr (lookup_empty _ _)

end DnsServer
