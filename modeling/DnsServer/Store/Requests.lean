import DnsServer.Foundation.Prefixes
import DnsServer.Store.Reload

/-!
# Requests that arrive in parts

The management thread makes one `read` for a request and handles what it returns
as the whole request. TCP may return any prefix of what was sent. `Asks` says
which command a text asks for, in terms of its words, so the prefix can be
compared with the complete line.

A prefix leaves the store alone or does what the complete line does, unless its
end lies inside the value of an `ADD`, inside the last argument of a `DELETE`, or
makes a `RELOAD` out of another requestWord (`wholeOrNotAtAll_iff`).
-/

set_option autoImplicit false

namespace DnsServer

open Libc Tokenizing

variable {parse : CString → Option CJSON} {file : MappingsFile} {store : Store}
  {allocations : Allocations} {auth_token text : CString}

/-! ## What a request asks for -/

/-- The words of a request, from the token on. -/
abbrev requestWord (position : Nat) (text : CString) : Option CString :=
  tokenAt blanks blanks position text

/-- The value of an `ADD`: the rest of the line behind five words. -/
abbrev requestValue (text : CString) : Option CString := tokenAt blanks (cstr "\n") 5 text

/-- A text asks for a command by its second word, and by the arguments behind it. -/
inductive Asks (file : MappingsFile) (text cmd : CString) : Command → Prop
  | add {domain type scope value : CString} (named : sameIgnoringCase cmd (cstr "ADD"))
      (domain_ : requestWord 2 text = some domain) (type_ : requestWord 3 text = some type)
      (scope_ : requestWord 4 text = some scope) (value_ : requestValue text = some value) :
      Asks file text cmd (.add domain type scope value)
  | delete {domain type scope : CString} (named : sameIgnoringCase cmd (cstr "DELETE"))
      (domain_ : requestWord 2 text = some domain) (type_ : requestWord 3 text = some type)
      (scope_ : requestWord 4 text = some scope) : Asks file text cmd (.delete domain type scope)
  | list (named : sameIgnoringCase cmd (cstr "LIST")) : Asks file text cmd .list
  | reload (named : sameIgnoringCase cmd (cstr "RELOAD")) : Asks file text cmd (.reload file)

theorem run_nextToken_bind {α : Type} (delimiters : CString)
    (next : Option CString → Tokenizing α) :
    (nextToken delimiters >>= next).run text =
      (next (strtok delimiters text).1).run (strtok delimiters text).2 := rfl

theorem run_handleAddCommand_iff {command : Command} :
    handleAddCommand.run (behindTokens blanks 2 text) = .execute command ↔
      ∃ domain type scope value, requestWord 2 text = some domain ∧
        requestWord 3 text = some type ∧ requestWord 4 text = some scope ∧
          requestValue text = some value ∧ command = .add domain type scope value := by
  simp only [handleAddCommand, run_nextToken_bind]
  constructor
  · intro executed
    split at executed
    · next domain type scope value domain_ type_ scope_ value_ =>
      cases executed
      exact ⟨domain, type, scope, value, domain_, type_, scope_, value_, rfl⟩
    · cases executed
  · rintro ⟨domain, type, scope, value, domain_, type_, scope_, value_, rfl⟩
    simp only [tokenAt, behindTokens] at domain_ type_ scope_ value_
    simp only [behindTokens, domain_, type_, scope_, value_]
    rfl

theorem run_handleDeleteCommand_iff {command : Command} :
    handleDeleteCommand.run (behindTokens blanks 2 text) = .execute command ↔
      ∃ domain type scope, requestWord 2 text = some domain ∧
        requestWord 3 text = some type ∧ requestWord 4 text = some scope ∧
          command = .delete domain type scope := by
  simp only [handleDeleteCommand, run_nextToken_bind]
  constructor
  · intro executed
    split at executed
    · next domain type scope domain_ type_ scope_ =>
      cases executed
      exact ⟨domain, type, scope, domain_, type_, scope_, rfl⟩
    · cases executed
  · rintro ⟨domain, type, scope, domain_, type_, scope_, rfl⟩
    simp only [tokenAt, behindTokens] at domain_ type_ scope_
    simp only [behindTokens, domain_, type_, scope_]
    rfl

/-- A word is the name of one command only. -/
theorem sameIgnoringCase_other {cmd name other : CString}
    (different : ¬ sameIgnoringCase name other) (named : sameIgnoringCase cmd name) :
    ¬ sameIgnoringCase cmd other := fun also =>
  different (beq_iff_eq.mpr ((beq_iff_eq.mp named).symm.trans (beq_iff_eq.mp also)))

/-- **The commands that are run** are the ones that authenticated texts ask for. -/
theorem run_managementThread_iff {command : Command} :
    (managementThread auth_token file).run text = .execute command ↔
      requestWord 0 text = some auth_token ∧
        ∃ cmd, requestWord 1 text = some cmd ∧ Asks file text cmd command := by
  have first : (strtok blanks text).1 = requestWord 0 text := rfl
  have second : (strtok blanks (strtok blanks text).2).1 = requestWord 1 text := rfl
  have third : (strtok blanks (strtok blanks text).2).2 = behindTokens blanks 2 text := rfl
  rw [managementThread, run_nextToken_bind, first]
  by_cases authenticated : requestWord 0 text = some auth_token
  · rw [if_neg (not_not.mpr authenticated), run_nextToken_bind, second, third]
    rcases requestWord 1 text with _ | cmd
    · simp [Tokenizing.run, pure]
    simp only [authenticated, true_and, Option.some.injEq, exists_eq_left']
    constructor
    · intro executed
      split at executed
      · next named =>
        obtain ⟨_, _, _, _, domain_, type_, scope_, value_, rfl⟩ :=
          run_handleAddCommand_iff.mp executed
        exact .add named domain_ type_ scope_ value_
      split at executed
      · next named =>
        obtain ⟨_, _, _, domain_, type_, scope_, rfl⟩ := run_handleDeleteCommand_iff.mp executed
        exact .delete named domain_ type_ scope_
      split at executed
      · next named =>
        cases executed
        exact .list named
      split at executed
      · next named =>
        cases executed
        exact .reload named
      · cases executed
    · intro asks
      cases asks with
      | add named domain_ type_ scope_ value_ =>
          rw [if_pos named]
          exact run_handleAddCommand_iff.mpr ⟨_, _, _, _, domain_, type_, scope_, value_, rfl⟩
      | delete named domain_ type_ scope_ =>
          rw [if_neg (sameIgnoringCase_other (by decide) named), if_pos named]
          exact run_handleDeleteCommand_iff.mpr ⟨_, _, _, domain_, type_, scope_, rfl⟩
      | list named =>
          rw [if_neg (sameIgnoringCase_other (by decide) named),
            if_neg (sameIgnoringCase_other (by decide) named), if_pos named]
          rfl
      | reload named =>
          rw [if_neg (sameIgnoringCase_other (by decide) named),
            if_neg (sameIgnoringCase_other (by decide) named),
            if_neg (sameIgnoringCase_other (by decide) named), if_pos named]
          rfl
  · rw [if_pos authenticated]
    simp [Tokenizing.run, pure, authenticated]

/-! ## What a read does -/

/-- The store after what has been read is handled. -/
def handledStore (parse : CString → Option CJSON) (auth_token : CString) (file : MappingsFile)
    (store : Store) (allocations : Allocations) (request : List UInt8) : Store :=
  match (managementThread auth_token file).run (cutAtNul request) with
  | .refuse _ => store
  | .execute command => (command.execute parse store).under allocations

/-- The commands with arguments. -/
def Command.hasArguments : Command → Bool
  | .add _ _ _ _ | .delete _ _ _ => true
  | .list | .reload _ => false

/-- What has been read of a line leaves the store as it was or as the complete
line leaves it, and an `ADD` or a `DELETE` is the one of the complete line. -/
structure WholeOrNotAtAll (parse : CString → Option CJSON) (auth_token : CString)
    (file : MappingsFile) (store : Store) (allocations : Allocations) (line : List UInt8)
    (read : Nat) : Prop where
  store :
    (handledStore parse auth_token file store allocations (line.take read)).Same store ∨
      (handledStore parse auth_token file store allocations (line.take read)).Same
        (handledStore parse auth_token file store allocations line)
  whole : ∀ command, command.hasArguments →
    (managementThread auth_token file).run (cutAtNul (line.take read)) = .execute command →
      (managementThread auth_token file).run (cutAtNul line) = .execute command

/-- The read does not end inside the value of an `ADD` or inside the last argument
of a `DELETE`, and when it leaves the name of a `RELOAD` of a longer word, the
store holds what the file defines. -/
structure CutHarmless (parse : CString → Option CJSON) (file : MappingsFile) (store : Store)
    (allocations : Allocations) (line : List UInt8) (read : Nat) : Prop where
  add : ∀ cmd, requestWord 1 (cutAtNul line) = some cmd →
    sameIgnoringCase cmd (cstr "ADD") → ¬ CutsToken blanks (cstr "\n") 5 (cutAtNul line) read
  delete : ∀ cmd, requestWord 1 (cutAtNul line) = some cmd →
    sameIgnoringCase cmd (cstr "DELETE") → ¬ CutsToken blanks blanks 4 (cutAtNul line) read
  reload : ∀ cmd, requestWord 1 (cutAtNul line) = some cmd →
    CutsToken blanks blanks 1 (cutAtNul line) read →
      sameIgnoringCase (cmd.take (read - tokenStart blanks blanks 1 (cutAtNul line)))
        (cstr "RELOAD") → HoldsExactly store (definedRecords parse file allocations)

theorem cutAtNul_take (line : List UInt8) (read : Nat) :
    cutAtNul (line.take read) = (cutAtNul line).take read :=
  List.take_takeWhile.symm

variable {line : List UInt8} {read : Nat}

theorem handledStore_of_execute {request : List UInt8} {command : Command}
    (executed : (managementThread auth_token file).run (cutAtNul request) = .execute command) :
    handledStore parse auth_token file store allocations request =
      (command.execute parse store).under allocations := by
  simp only [handledStore, executed]

theorem handledStore_of_not_execute {request : List UInt8}
    (refused : ∀ command,
      (managementThread auth_token file).run (cutAtNul request) ≠ .execute command) :
    handledStore parse auth_token file store allocations request = store := by
  rw [handledStore]
  split
  · rfl
  · next command executed => exact absurd executed (refused command)

theorem reload_store :
    ((Command.reload file).execute parse store).under allocations =
      KeyedTable.empty.replaceAll (definedRecords parse file allocations) := by
  rw [Command.execute_store]
  rfl

/-! ## Reads that do no harm -/

/-- What a harmless read has run: a `LIST`, the command of the complete line, or a
`RELOAD` that changes nothing. -/
theorem CutHarmless.executed {command : Command}
    (harmless : CutHarmless parse file store allocations line read)
    (run : (managementThread auth_token file).run (cutAtNul (line.take read)) = .execute command) :
    command = .list ∨
      (managementThread auth_token file).run (cutAtNul line) = .execute command ∨
      (command = .reload file ∧ HoldsExactly store (definedRecords parse file allocations)) := by
  rw [cutAtNul_take, run_managementThread_iff] at run
  obtain ⟨authenticated, cmd, named, asks⟩ := run
  rw [run_managementThread_iff]
  have started := (tokenAt_take_eq_some_iff.mp named).1
  have token := tokenAt_of_take authenticated (not_cutsToken_of_later Nat.zero_lt_one started)
  cases asks with
  | list => exact .inl rfl
  | add isAdd domain_ type_ scope_ value_ =>
      have behind := (tokenAt_take_eq_some_iff.mp value_).1
      have cmd_ := tokenAt_of_take named (not_cutsToken_of_later (by decide) behind)
      refine .inr (.inl ⟨token, cmd, cmd_, .add isAdd ?_ ?_ ?_ ?_⟩)
      · exact tokenAt_of_take domain_ (not_cutsToken_of_later (by decide) behind)
      · exact tokenAt_of_take type_ (not_cutsToken_of_later (by decide) behind)
      · exact tokenAt_of_take scope_ (not_cutsToken_of_later (by decide) behind)
      · exact tokenAt_of_take value_ (harmless.add cmd cmd_ isAdd)
  | delete isDelete domain_ type_ scope_ =>
      have behind := (tokenAt_take_eq_some_iff.mp scope_).1
      have cmd_ := tokenAt_of_take named (not_cutsToken_of_later (by decide) behind)
      refine .inr (.inl ⟨token, cmd, cmd_, .delete isDelete ?_ ?_ ?_⟩)
      · exact tokenAt_of_take domain_ (not_cutsToken_of_later (by decide) behind)
      · exact tokenAt_of_take type_ (not_cutsToken_of_later (by decide) behind)
      · exact tokenAt_of_take scope_ (harmless.delete cmd cmd_ isDelete)
  | reload isReload =>
      by_cases cut : CutsToken blanks blanks 1 (cutAtNul line) read
      · obtain ⟨_, whole, whole_, rfl⟩ := tokenAt_take_eq_some_iff.mp named
        exact .inr (.inr ⟨rfl, harmless.reload whole whole_ cut isReload⟩)
      · exact .inr (.inl ⟨token, cmd, tokenAt_of_take named cut, .reload isReload⟩)

/-- **A harmless read does what the complete line does, or nothing.** -/
theorem CutHarmless.wholeOrNotAtAll
    (harmless : CutHarmless parse file store allocations line read) :
    WholeOrNotAtAll parse auth_token file store allocations line read := by
  constructor
  · by_cases refused : ∀ command,
        (managementThread auth_token file).run (cutAtNul (line.take read)) ≠ .execute command
    · rw [handledStore_of_not_execute refused]
      exact .inl (.refl store)
    · push Not at refused
      obtain ⟨command, run⟩ := refused
      rw [handledStore_of_execute run]
      rcases harmless.executed run with rfl | complete | ⟨rfl, holds⟩
      · exact .inl (.refl store)
      · rw [handledStore_of_execute complete]
        exact .inr (.refl _)
      · rw [reload_store]
        exact .inl (same_replaceAll_empty.mpr holds)
  · intro command arguments run
    rcases harmless.executed run with rfl | complete | ⟨rfl, _⟩
    · cases arguments
    · exact complete
    · cases arguments

/-! ## Reads that do harm -/

section Harm

variable {cmd : CString} (authenticated : requestWord 0 (cutAtNul line) = some auth_token)
  (named : requestWord 1 (cutAtNul line) = some cmd)

include authenticated named

/-- Once an argument has begun, the token and the command have been read in full. -/
theorem run_take_of_asks {delimiters : CString} {position : Nat} {command : Command}
    (argument : 1 < position)
    (started : tokenStart blanks delimiters position (cutAtNul line) < read)
    (asks : Asks file ((cutAtNul line).take read) cmd command) :
    (managementThread auth_token file).run (cutAtNul (line.take read)) = .execute command := by
  rw [cutAtNul_take, run_managementThread_iff]
  exact ⟨tokenAt_take_of_later (by omega) started authenticated, cmd,
    tokenAt_take_of_later argument started named, asks⟩

variable (atomic : WholeOrNotAtAll parse auth_token file store allocations line read)

include atomic

/-- An `ADD` that is cut inside its value stores the part that has been read. -/
theorem WholeOrNotAtAll.not_cut_value (isAdd : sameIgnoringCase cmd (cstr "ADD")) :
    ¬ CutsToken blanks (cstr "\n") 5 (cutAtNul line) read := by
  rintro ⟨value, value_, started, inside⟩
  obtain ⟨domain, domain_⟩ := @tokenAt_earlier _ _ _ _ 2 5 value_ (by decide)
  obtain ⟨type, type_⟩ := @tokenAt_earlier _ _ _ _ 3 5 value_ (by decide)
  obtain ⟨scope, scope_⟩ := @tokenAt_earlier _ _ _ _ 4 5 value_ (by decide)
  have complete : (managementThread auth_token file).run (cutAtNul line) =
      .execute (.add domain type scope value) :=
    run_managementThread_iff.mpr ⟨authenticated, cmd, named,
      .add isAdd domain_ type_ scope_ value_⟩
  have cut := atomic.whole _ rfl (run_take_of_asks authenticated named (by decide) started
    (.add isAdd (tokenAt_take_of_later (by decide) started domain_)
      (tokenAt_take_of_later (by decide) started type_)
      (tokenAt_take_of_later (by decide) started scope_)
      (tokenAt_take_eq_some_iff.mpr ⟨started, value, value_, rfl⟩)))
  rw [complete] at cut
  injection cut with same
  injection same with _ _ _ same
  have lengths := congrArg List.length same
  rw [List.length_take] at lengths
  omega

/-- A `DELETE` that is cut inside its last argument acts on the part that has been
read. -/
theorem WholeOrNotAtAll.not_cut_scope (isDelete : sameIgnoringCase cmd (cstr "DELETE")) :
    ¬ CutsToken blanks blanks 4 (cutAtNul line) read := by
  rintro ⟨scope, scope_, started, inside⟩
  obtain ⟨domain, domain_⟩ := @tokenAt_earlier _ _ _ _ 2 4 scope_ (by decide)
  obtain ⟨type, type_⟩ := @tokenAt_earlier _ _ _ _ 3 4 scope_ (by decide)
  have complete : (managementThread auth_token file).run (cutAtNul line) =
      .execute (.delete domain type scope) :=
    run_managementThread_iff.mpr ⟨authenticated, cmd, named,
      .delete isDelete domain_ type_ scope_⟩
  have cut := atomic.whole _ rfl (run_take_of_asks authenticated named (by decide) started
    (.delete isDelete (tokenAt_take_of_later (by decide) started domain_)
      (tokenAt_take_of_later (by decide) started type_)
      (tokenAt_take_eq_some_iff.mpr ⟨started, scope, scope_, rfl⟩)))
  rw [complete] at cut
  injection cut with same
  injection same with _ _ same
  have lengths := congrArg List.length same
  rw [List.length_take] at lengths
  omega

/-- A word that is cut to the name of a `RELOAD` runs one, which the complete line
does not. -/
theorem WholeOrNotAtAll.holdsExactly
    (cut : CutsToken blanks blanks 1 (cutAtNul line) read)
    (isReload : sameIgnoringCase
      (cmd.take (read - tokenStart blanks blanks 1 (cutAtNul line))) (cstr "RELOAD")) :
    HoldsExactly store (definedRecords parse file allocations) := by
  obtain ⟨whole, whole_, started, inside⟩ := cut
  cases whole_.symm.trans named
  have run : (managementThread auth_token file).run (cutAtNul (line.take read)) =
      .execute (.reload file) := by
    rw [cutAtNul_take]
    exact run_managementThread_iff.mpr ⟨tokenAt_take_of_later (by decide) started authenticated,
      _, tokenAt_take_eq_some_iff.mpr ⟨started, cmd, named, rfl⟩, .reload isReload⟩
  have short := length_eq_of_sameIgnoringCase isReload
  have reload : (cstr "RELOAD").length = 6 := by decide
  rw [List.length_take, reload] at short
  -- no command has a name of seven letters
  have refused : ∀ command,
      (managementThread auth_token file).run (cutAtNul line) ≠ .execute command := by
    intro command executed
    obtain ⟨_, other, other_, asks⟩ := run_managementThread_iff.mp executed
    cases other_.symm.trans named
    have name : cmd.length ≤ 6 := by
      cases asks with
      | add isAdd => exact (length_eq_of_sameIgnoringCase isAdd).le.trans (by decide)
      | delete isDelete => exact (length_eq_of_sameIgnoringCase isDelete).le.trans (by decide)
      | list isList => exact (length_eq_of_sameIgnoringCase isList).le.trans (by decide)
      | reload isReload => exact (length_eq_of_sameIgnoringCase isReload).le.trans (by decide)
    omega
  have kept := atomic.store
  rw [handledStore_of_execute run, handledStore_of_not_execute refused, or_self, reload_store]
    at kept
  exact same_replaceAll_empty.mp kept

end Harm

/-- **A request in parts.** For every authenticated line and every prefix of it
that the read may return, the prefix does what the complete line does or leaves
the store alone, exactly when it is cut where that does no harm. -/
theorem wholeOrNotAtAll_iff (authenticated : requestWord 0 (cutAtNul line) = some auth_token) :
    WholeOrNotAtAll parse auth_token file store allocations line read ↔
      CutHarmless parse file store allocations line read :=
  ⟨fun atomic =>
    ⟨fun _ named isAdd => atomic.not_cut_value authenticated named isAdd,
      fun _ named isDelete => atomic.not_cut_scope authenticated named isDelete,
      fun _ named cut isReload => atomic.holdsExactly authenticated named cut isReload⟩,
    CutHarmless.wholeOrNotAtAll⟩

/-- A line that adds an address. -/
def addLine : List UInt8 := cstr "k ADD a A base 192.0.2.123\n"

/-- Read as a whole, the line adds its address. -/
theorem wholeOrNotAtAll_iff_line :
    WholeOrNotAtAll (fun _ => none) (cstr "k") .missing KeyedTable.empty [] addLine 27 := by
  refine (wholeOrNotAtAll_iff (by decide)).mpr ⟨?_, fun cmd named isDelete => ?_, ?_⟩
  · rintro _ _ _ ⟨value, value_, _, inside⟩
    have last : requestValue (cutAtNul addLine) = some (cstr "192.0.2.123") := by decide
    cases last.symm.trans value_
    exact absurd inside (by decide)
  · have second : requestWord 1 (cutAtNul addLine) = some (cstr "ADD") := by decide
    cases second.symm.trans named
    exact absurd isDelete (by decide)
  · rintro cmd _ ⟨token, named, _, inside⟩
    have second : requestWord 1 (cutAtNul addLine) = some (cstr "ADD") := by decide
    cases second.symm.trans named
    exact absurd inside (by decide)

/-- Without its last three bytes it adds another address. -/
theorem not_wholeOrNotAtAll_of_cut_value :
    requestWord 0 (cutAtNul addLine) = some (cstr "k") ∧
      ¬ WholeOrNotAtAll (fun _ => none) (cstr "k") .missing KeyedTable.empty [] addLine 24 := by
  refine ⟨by decide, fun atomic => ?_⟩
  rcases atomic.store with unchanged | complete
  · exact absurd (unchanged (cstr "base_a_A")) (by decide +kernel)
  · exact absurd (complete (cstr "base_a_A")) (by decide +kernel)

end DnsServer
