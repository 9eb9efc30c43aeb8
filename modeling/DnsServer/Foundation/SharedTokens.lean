import DnsServer.Foundation.CString
import DnsServer.Foundation.Runs
import Mathlib.Data.List.Infix
import Mathlib.Logic.Function.Basic

/-!
# Threads that share the saved position of `strtok`

A program that calls `strtok` is a tree: it ends with a result, or it makes a
call and goes on with the token. Run alone on a text it has a result and a list
of tokens (`Tokenizing.run`, `Tokenizing.tokens`).

`strtok` keeps one saved position for the whole process, so several threads that
tokenise their own buffers at the same time continue from one another's
positions. A call that continues is `Undisturbed` when the saved position lies
in the buffer of the thread that makes it. Where all calls of a run are, every
thread gets the tokens and the result that it would get alone (`own_along`).
-/

set_option autoImplicit false

namespace DnsServer

/-! ## Programs that call `strtok` -/

/-- A program: its end, or a call of `strtok` and what follows it. -/
inductive Tokenizing (α : Type) where
  | done (result : α)
  | strtok (delimiters : CString) (next : Option CString → Tokenizing α)

namespace Tokenizing

variable {α β : Type}

/-- One program after another. -/
def bind : Tokenizing α → (α → Tokenizing β) → Tokenizing β
  | done result, after => after result
  | strtok delimiters next, after => strtok delimiters fun token => (next token).bind after

instance : Monad Tokenizing where
  pure := done
  bind := bind

/-- The next token. -/
def nextToken (delimiters : CString) : Tokenizing (Option CString) := strtok delimiters done

/-- The result of a program that is alone with its text. -/
def run : Tokenizing α → CString → α
  | done result, _ => result
  | strtok delimiters next, text =>
    (next (Libc.strtok delimiters text).1).run (Libc.strtok delimiters text).2

/-- The text that is left after such a run. -/
def rest : Tokenizing α → CString → CString
  | done _, text => text
  | strtok delimiters next, text =>
    (next (Libc.strtok delimiters text).1).rest (Libc.strtok delimiters text).2

/-- The tokens of such a run. -/
def tokens : Tokenizing α → CString → List (Option CString)
  | done _, _ => []
  | strtok delimiters next, text =>
    (Libc.strtok delimiters text).1 ::
      (next (Libc.strtok delimiters text).1).tokens (Libc.strtok delimiters text).2

theorem run_bind (first : Tokenizing α) (after : α → Tokenizing β) (text : CString) :
    (first >>= after).run text = (after (first.run text)).run (first.rest text) := by
  induction first generalizing text with
  | done result => rfl
  | strtok delimiters next ih => exact ih _ _

theorem tokens_bind (first : Tokenizing α) (after : α → Tokenizing β) (text : CString) :
    (first >>= after).tokens text =
      first.tokens text ++ (after (first.run text)).tokens (first.rest text) := by
  induction first generalizing text with
  | done result => rfl
  | strtok delimiters next ih => exact congrArg (_ :: ·) (ih _ _)

end Tokenizing

/-! ## One call on a buffer in memory -/

variable {ι : Type}

/-- A place in the buffer of a thread. -/
structure Position (ι : Type) where
  owner : ι
  offset : Nat
  deriving DecidableEq

/-- The string that starts at a place. Behind the bytes of a buffer there are
zeros. -/
def textAt (memory : ι → List UInt8) (position : Position ι) : CString :=
  cutAtNul ((memory position.owner).drop position.offset)

/-- A string and what stands behind it in its buffer. -/
theorem textAt_split (memory : ι → List UInt8) (position : Position ι) :
    ∃ behind, (memory position.owner).drop position.offset = textAt memory position ++ behind ∧
      ∀ byte ∈ behind.head?, byte = 0 := by
  refine ⟨((memory position.owner).drop position.offset).dropWhile (· ≠ 0),
    (List.takeWhile_append_dropWhile).symm, ?_⟩
  intro byte first
  have head := List.head?_dropWhile_not (fun c : UInt8 => decide (c ≠ 0))
    ((memory position.owner).drop position.offset)
  rw [Option.mem_def.mp first] at head
  simpa using head

theorem cutAtNul_of_clean {text : List UInt8} (clean : 0 ∉ text) : cutAtNul text = text := by
  rw [cutAtNul, List.takeWhile_eq_self_iff]
  intro byte member
  simp only [ne_eq, decide_not, Bool.not_eq_eq_eq_not, Bool.not_true, decide_eq_false_iff_not]
  rintro rfl
  exact clean member

theorem cutAtNul_append {text behind : List UInt8} (clean : 0 ∉ text)
    (ended : ∀ byte ∈ behind.head?, byte = 0) : cutAtNul (text ++ behind) = text := by
  have stop : behind.takeWhile (· ≠ 0) = [] := by
    cases behind with
    | nil => rfl
    | cons byte behind =>
        rw [ended byte rfl]
        rfl
  rw [cutAtNul, List.takeWhile_append_of_pos, stop, List.append_nil]
  exact List.takeWhile_eq_self_iff.mp (cutAtNul_of_clean clean)

section Call

variable [DecidableEq ι]

/-- A call of `strtok` that starts at a place: the token, the memory with a NUL
behind the token, and the new saved position. -/
def strtokAt (delimiters : CString) (memory : ι → List UInt8) (position : Position ι) :
    Option CString × (ι → List UInt8) × Position ι :=
  let text := textAt memory position
  let skipped := text.takeWhile (· ∈ delimiters)
  let rest := text.dropWhile (· ∈ delimiters)
  let start := position.offset + skipped.length
  if rest = [] then (none, memory, { position with offset := start })
  else
    let token := rest.takeWhile (· ∉ delimiters)
    let stop := start + token.length
    if rest.dropWhile (· ∉ delimiters) = [] then
      (some token, memory, { position with offset := stop })
    else (some token,
      Function.update memory position.owner ((memory position.owner).set stop 0),
      { position with offset := stop + 1 })

/-- **A call reads the string it starts at** as `strtok` does, and touches
nothing but the buffer that string is in. -/
theorem strtokAt_spec (delimiters : CString) (memory : ι → List UInt8) (position : Position ι) :
    let called := strtokAt delimiters memory position
    called.1 = (Libc.strtok delimiters (textAt memory position)).1 ∧
      called.2.2.owner = position.owner ∧
      textAt called.2.1 called.2.2 = (Libc.strtok delimiters (textAt memory position)).2 ∧
      ∀ other, other ≠ position.owner → called.2.1 other = memory other := by
  obtain ⟨behind, split, ended⟩ := textAt_split memory position
  have clean : 0 ∉ textAt memory position := by
    intro zero
    simpa using List.mem_takeWhile_imp zero
  have dropped : ∀ front back : CString, textAt memory position = front ++ back →
      cutAtNul ((memory position.owner).drop (position.offset + front.length)) = back := by
    intro front back parts
    rw [← List.drop_drop, split, parts, List.append_assoc, List.drop_left]
    refine cutAtNul_append ?_ ended
    rw [parts] at clean
    exact fun zero => clean (List.mem_append_right _ zero)
  have skip : textAt memory position = (textAt memory position).takeWhile (· ∈ delimiters) ++
      (textAt memory position).dropWhile (· ∈ delimiters) := List.takeWhile_append_dropWhile.symm
  simp only [strtokAt, Libc.strtok]
  generalize (textAt memory position).takeWhile (· ∈ delimiters) = skipped at skip ⊢
  generalize (textAt memory position).dropWhile (· ∈ delimiters) = rest at skip ⊢
  split
  · next empty =>
    refine ⟨rfl, rfl, ?_, fun _ _ => rfl⟩
    rw [textAt, dropped skipped rest skip, empty]
  · have take : rest = rest.takeWhile (· ∉ delimiters) ++ rest.dropWhile (· ∉ delimiters) :=
      List.takeWhile_append_dropWhile.symm
    generalize rest.takeWhile (· ∉ delimiters) = token at take ⊢
    generalize rest.dropWhile (· ∉ delimiters) = tail at take ⊢
    rw [take] at skip
    split
    · next empty =>
      refine ⟨rfl, rfl, ?_, fun _ _ => rfl⟩
      have behindToken := dropped (skipped ++ token) tail (by rw [skip, List.append_assoc])
      rw [List.length_append, ← Nat.add_assoc] at behindToken
      rw [textAt, behindToken, empty]
      rfl
    · next nonempty =>
      obtain ⟨delimiter, more, rfl⟩ := List.exists_cons_of_ne_nil nonempty
      refine ⟨rfl, rfl, ?_, fun other different => Function.update_of_ne different _ _⟩
      have behindDelimiter := dropped (skipped ++ token ++ [delimiter]) more (by
        rw [skip]
        simp)
      rw [List.length_append, List.length_append, List.length_singleton, ← Nat.add_assoc,
        ← Nat.add_assoc] at behindDelimiter
      simp only [textAt, Function.update_self, List.tail_cons]
      rw [List.drop_set_of_lt (Nat.lt_succ_self _), behindDelimiter]

end Call

/-! ## Several threads -/

/-- What the threads of a process do: their tasks, the text that a task puts into
the buffer of its thread, and the calls that it makes. -/
structure Threads (ι : Type) where
  Task : ι → Type
  Result : ι → Type
  text : (i : ι) → Task i → List UInt8
  calls : (i : ι) → Task i → Tokenizing (Result i)

variable {threads : Threads ι} {i : ι}

/-- A thread at work: its task, the tokens it has received for it, and what it
still has to do. -/
structure Activity (threads : Threads ι) (i : ι) where
  task : threads.Task i
  received : List (Option CString)
  remaining : Tokenizing (threads.Result i)

/-- The tokens a thread has received are the first of those of its own text, and
the result of a thread that is done is the one of its own text. -/
structure Activity.Own (activity : Activity threads i) : Prop where
  tokens : activity.received <+:
    (threads.calls i activity.task).tokens (cutAtNul (threads.text i activity.task))
  result : ∀ result, activity.remaining = .done result →
    result = (threads.calls i activity.task).run (cutAtNul (threads.text i activity.task))

/-- The process: the buffers, the position that `strtok` has saved, and the
threads that have started. -/
structure Process (threads : Threads ι) where
  memory : ι → List UInt8
  saved : Option (Position ι)
  activity : (i : ι) → Option (Activity threads i)

/-- A thread takes a new task, or makes its next call. -/
inductive ThreadStep (threads : Threads ι) where
  | start (i : ι) (task : threads.Task i)
  | call (i : ι)

namespace Process

/-- Before the first call nothing is saved. -/
def initial : Process threads where
  memory _ := []
  saved := none
  activity _ := none

/-- Where the next call of a thread starts: the first one in its own buffer, any
other one at the saved position. -/
def nextStart (process : Process threads) (i : ι) (received : List (Option CString)) :
    Option (Position ι) :=
  if received = [] then some ⟨i, 0⟩ else process.saved

section Steps

variable [DecidableEq ι]

/-- A thread fills its buffer and has made no call yet. -/
def takeTask (process : Process threads) (i : ι) (task : threads.Task i) : Process threads where
  memory := Function.update process.memory i (threads.text i task)
  saved := process.saved
  activity := Function.update process.activity i (some ⟨task, [], threads.calls i task⟩)

/-- A thread makes a call and goes on with the token. -/
def makeCall (process : Process threads) (i : ι) (task : threads.Task i)
    (received : List (Option CString)) (delimiters : CString)
    (after : Option CString → Tokenizing (threads.Result i)) (position : Position ι) :
    Process threads where
  memory := (strtokAt delimiters process.memory position).2.1
  saved := some (strtokAt delimiters process.memory position).2.2
  activity := Function.update process.activity i (some ⟨task,
    received ++ [(strtokAt delimiters process.memory position).1],
    after (strtokAt delimiters process.memory position).1⟩)

/-- A thread takes a new task when it is done with its last one, and calls
`strtok` as long as it is not. -/
def next (process : Process threads) : ThreadStep threads → Process threads
  | .start i task =>
    match process.activity i with
    | some ⟨_, _, .strtok _ _⟩ => process
    | some ⟨_, _, .done _⟩ | none => process.takeTask i task
  | .call i =>
    match process.activity i with
    | some ⟨task, received, .strtok delimiters after⟩ =>
      match process.nextStart i received with
      | some position => process.makeCall i task received delimiters after position
      | none => process
    | some ⟨_, _, .done _⟩ | none => process

end Steps

/-- A call that continues finds the saved position in the buffer of the thread
that makes it. -/
def Undisturbed (process : Process threads) : ThreadStep threads → Prop
  | .start _ _ => True
  | .call i => ∀ task received delimiters after,
      process.activity i = some ⟨task, received, .strtok delimiters after⟩ → received ≠ [] →
        ∃ offset, process.saved = some ⟨i, offset⟩

end Process

/-! ## Undisturbed runs -/

/-- With some text left a thread gets the tokens and the result of its own text,
and its next call finds that text if it starts in its own buffer. -/
structure Activity.Synced (process : Process threads) (activity : Activity threads i)
    (rest : CString) : Prop where
  tokens : activity.received ++ activity.remaining.tokens rest =
    (threads.calls i activity.task).tokens (cutAtNul (threads.text i activity.task))
  run : activity.remaining.run rest =
    (threads.calls i activity.task).run (cutAtNul (threads.text i activity.task))
  position : ∀ offset, process.nextStart i activity.received = some ⟨i, offset⟩ →
    textAt process.memory ⟨i, offset⟩ = rest

theorem Activity.Synced.own {process : Process threads} {activity : Activity threads i}
    {rest : CString} (synced : activity.Synced process rest) : activity.Own := by
  refine ⟨⟨_, synced.tokens⟩, fun result finished => ?_⟩
  have run := synced.run
  rw [finished] at run
  exact run

/-- A thread is not affected by a step that leaves its buffer alone and does not
move the saved position within it. -/
theorem Activity.Synced.of_other {before after : Process threads} {activity : Activity threads i}
    {rest : CString} (synced : activity.Synced before rest)
    (memory : after.memory i = before.memory i)
    (saved : ∀ offset, after.saved = some ⟨i, offset⟩ → before.saved = some ⟨i, offset⟩) :
    activity.Synced after rest := by
  refine ⟨synced.tokens, synced.run, fun offset start => ?_⟩
  have same : textAt after.memory ⟨i, offset⟩ = textAt before.memory ⟨i, offset⟩ := by
    simp only [textAt, memory]
  rw [same]
  apply synced.position offset
  unfold Process.nextStart at start ⊢
  split at start
  · next first => rw [if_pos first, start]
  · next later => rw [if_neg later, saved offset start]

namespace Process

/-- Every thread that has started can go on. -/
def Synced (process : Process threads) : Prop :=
  ∀ i activity, process.activity i = some activity → ∃ rest, activity.Synced process rest

theorem synced_initial : (initial : Process threads).Synced := by
  intro i activity started
  cases started

section Steps

variable [DecidableEq ι] {process : Process threads}

/-- A new task does not disturb any thread. -/
theorem synced_takeTask (synced : process.Synced) (i : ι) (task : threads.Task i) :
    (process.takeTask i task).Synced := by
  intro j activity present
  by_cases same : j = i
  · subst same
    simp only [takeTask, Function.update_self, Option.some.injEq] at present
    subst present
    refine ⟨cutAtNul (threads.text j task), rfl, rfl, fun offset start => ?_⟩
    simp only [nextStart, if_true, Option.some.injEq, Position.mk.injEq, true_and] at start
    simp only [textAt, takeTask, Function.update_self, ← start, List.drop_zero]
  · simp only [takeTask, Function.update_of_ne same] at present
    obtain ⟨rest, own⟩ := synced j activity present
    exact ⟨rest, own.of_other (Function.update_of_ne same _ _) fun _ saved => saved⟩

/-- A call in the own buffer gets the next token of the own text, and disturbs no
other thread. -/
theorem synced_makeCall (synced : process.Synced) {i : ι} {task : threads.Task i}
    {received : List (Option CString)} {delimiters : CString}
    {after : Option CString → Tokenizing (threads.Result i)} {offset : Nat}
    (working : process.activity i = some ⟨task, received, .strtok delimiters after⟩)
    (start : process.nextStart i received = some ⟨i, offset⟩) :
    (process.makeCall i task received delimiters after ⟨i, offset⟩).Synced := by
  obtain ⟨rest, own⟩ := synced i _ working
  obtain ⟨token, owner, left, others⟩ := strtokAt_spec delimiters process.memory ⟨i, offset⟩
  rw [own.position offset start] at token left
  intro j activity present
  by_cases same : j = i
  · subst same
    simp only [makeCall, Function.update_self, Option.some.injEq] at present
    subst present
    refine ⟨(Libc.strtok delimiters rest).2, ?_, ?_, fun offset' next => ?_⟩
    · rw [← own.tokens, token, List.append_assoc]
      rfl
    · rw [← own.run, token]
      rfl
    · simp only [nextStart, makeCall, List.append_eq_nil_iff, List.cons_ne_nil, and_false,
        if_false, Option.some.injEq] at next
      rw [← left, makeCall, next]
  · simp only [makeCall, Function.update_of_ne same] at present
    obtain ⟨rest', other⟩ := synced j activity present
    refine ⟨rest', other.of_other (others j same) fun offset' saved => ?_⟩
    simp only [makeCall, Option.some.injEq] at saved
    rw [saved] at owner
    exact absurd owner same

/-- **What an undisturbed step keeps.** -/
theorem synced_next (synced : process.Synced) (step : ThreadStep threads)
    (undisturbed : process.Undisturbed step) : (process.next step).Synced := by
  cases step with
  | start i task =>
      rw [next]
      split
      · exact synced
      · exact synced_takeTask synced i task
      · exact synced_takeTask synced i task
  | call i =>
      rw [next]
      split
      · next task received delimiters after working =>
        split
        · next position start =>
          have own : ∃ offset, position = ⟨i, offset⟩ := by
            by_cases first : received = []
            · rw [nextStart, if_pos first, Option.some.injEq] at start
              exact ⟨0, start.symm⟩
            · obtain ⟨offset, saved⟩ := undisturbed task received delimiters after working first
              rw [nextStart, if_neg first, saved, Option.some.injEq] at start
              exact ⟨offset, start.symm⟩
          obtain ⟨offset, rfl⟩ := own
          exact synced_makeCall synced working start
        · exact synced
      · exact synced
      · exact synced

/-- **Threads that do not disturb one another** get the tokens and the results of
their own texts, in every state of the run. -/
theorem own_along {steps : List (ThreadStep threads)}
    (undisturbed : Along next Undisturbed (initial : Process threads) steps) :
    ∀ reached ∈ statesAlong next (initial : Process threads) steps, ∀ i activity,
      reached.activity i = some activity → activity.Own := by
  intro reached member i activity present
  have synced : reached.Synced :=
    @invariant_along _ _ next Synced Undisturbed (fun _ step synced => synced_next synced step) _
      steps synced_initial undisturbed reached member
  obtain ⟨rest, own⟩ := synced i activity present
  exact own.own

end Steps

end Process

end DnsServer
