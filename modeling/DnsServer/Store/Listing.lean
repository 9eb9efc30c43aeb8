import DnsServer.Model.Listing
import DnsServer.Store.Commands
import Mathlib.Data.Nat.Size

/-!
# When the list of records is complete

As long as every piece fits after at most one doubling, the position stays inside
the buffer, the text so far stands in front of it, and the size of the buffer is
a function of the length of the text (`capacity`). A piece for which one doubling
is not enough is cut off, but the position moves on by its whole length. Either
the list ends there and is not complete, or the next piece is printed from a
position behind the buffer.

The list is therefore exact for every outcome of its allocations exactly when no
piece carries the text to twice the capacity in front of it
(`listsExactly_iff`).
-/

set_option autoImplicit false

namespace DnsServer

open Libc

/-! ## The text and its pieces -/

/-- The line of a record. -/
def recordLine (record : DNSRecord) : CString :=
  cstr "Domain: " ++ record.domain ++ cstr ", Type: " ++ record.type ++ cstr ", Values: " ++
    (cstr ", ").intercalate record.values ++ cstr "\n"

/-- The list of all records. -/
def recordsText (store : Store) : CString :=
  cstr "Current DNS Records:\n" ++ store.entries.flatMap recordLine

/-- What is printed for the values of a record. -/
def valuePieces : List CString → List CString
  | [] => []
  | value :: values =>
    (value ++ if values ≠ [] then cstr ", " else cstr "\n") :: valuePieces values

/-- What is printed for a record. -/
def recordPieces (record : DNSRecord) : List CString :=
  (cstr "Domain: " ++ record.domain ++ cstr ", Type: " ++ record.type ++ cstr ", Values: ") ::
    valuePieces record.values

/-- What is printed for the whole list. -/
def listPieces (store : Store) : List CString :=
  cstr "Current DNS Records:\n" :: store.entries.flatMap recordPieces

theorem flatten_valuePieces {values : List CString} (nonempty : values ≠ []) :
    (valuePieces values).flatten = (cstr ", ").intercalate values ++ cstr "\n" := by
  induction values with
  | nil => exact absurd rfl nonempty
  | cons value values ih =>
      cases values with
      | nil => simp [valuePieces]
      | cons next values =>
          rw [valuePieces, List.flatten_cons, ih (List.cons_ne_nil next values),
            List.intercalate_cons_cons, if_pos (List.cons_ne_nil next values)]
          simp

/-- The pieces make up the text. -/
theorem recordsText_eq {store : Store} (filled : ∀ record ∈ store, record.values ≠ []) :
    recordsText store =
      cstr "Current DNS Records:\n" ++ (store.entries.flatMap recordPieces).flatten := by
  rw [recordsText, List.append_cancel_left_eq]
  have each : ∀ records : List DNSRecord, (∀ record ∈ records, record.values ≠ []) →
      records.flatMap recordLine = (records.flatMap recordPieces).flatten := by
    intro records
    induction records with
    | nil => exact fun _ => rfl
    | cons record records ih =>
        intro filled
        rw [List.flatMap_cons, List.flatMap_cons, List.flatten_append,
          ih fun other member => filled other (List.mem_cons_of_mem _ member), recordPieces,
          List.flatten_cons, flatten_valuePieces (filled record List.mem_cons_self), recordLine]
        simp only [List.append_assoc]
  exact each store.entries filled

/-- The nested loops print one piece after the other. -/
def printAll : List CString → ListState → Except ListStop ListState
  | [], state => return state
  | piece :: pieces, state => do
    let state ← printPiece piece state
    printAll pieces state

theorem printAll_append (first second : List CString) (state : ListState) :
    printAll (first ++ second) state = printAll first state >>= printAll second := by
  induction first generalizing state with
  | nil => rfl
  | cons piece first ih =>
      simp only [List.cons_append, printAll, bind_assoc]
      exact congrArg (printPiece piece state >>= ·) (funext ih)

theorem printValues_eq (values : List CString) (state : ListState) :
    printValues values state = printAll (valuePieces values) state := by
  induction values generalizing state with
  | nil => rfl
  | cons value values ih =>
      simp only [printValues, valuePieces, printAll]
      exact congrArg (printPiece _ state >>= ·) (funext ih)

theorem printRecords_eq (records : List DNSRecord) (state : ListState) :
    printRecords records state = printAll (records.flatMap recordPieces) state := by
  induction records generalizing state with
  | nil => rfl
  | cons record records ih =>
      simp only [printRecords, List.flatMap_cons, printAll_append, recordPieces, printAll, bind_assoc]
      apply congrArg (printPiece _ state >>= ·)
      funext printed
      rw [printValues_eq]
      exact congrArg (printAll (valuePieces record.values) printed >>= ·) (funext ih)

/-! ## The capacity -/

/-- The size of the buffer for a text of some length: the first of the sizes 1024,
2048, and so on that is larger. -/
def capacity (length : Nat) : Nat := 1024 * 2 ^ (length / 1024).size

theorem lt_capacity (length : Nat) : length < capacity length := by
  have := Nat.lt_size_self (length / 1024)
  unfold capacity
  omega

/-- A size that is large enough, and would not be after halving, is the
capacity. -/
theorem capacity_eq {length doublings : Nat} (large : length < 1024 * 2 ^ doublings)
    (needed : doublings ≠ 0 → 1024 * 2 ^ (doublings - 1) ≤ length) :
    capacity length = 1024 * 2 ^ doublings := by
  rw [capacity]
  have atMost : (length / 1024).size ≤ doublings := Nat.size_le.mpr (by omega)
  have atLeast : doublings ≤ (length / 1024).size := by
    by_cases zero : doublings = 0
    · omega
    have := Nat.lt_size.mpr (show 2 ^ (doublings - 1) ≤ length / 1024 by have := needed zero; omega)
    omega
  rw [Nat.le_antisymm atMost atLeast]

theorem capacity_of_lt {length more : Nat} (fits : length + more < capacity length) :
    capacity (length + more) = capacity length := by
  refine capacity_eq fits fun nonzero => ?_
  have := Nat.lt_size.mp (show (length / 1024).size - 1 < (length / 1024).size by omega)
  omega

theorem capacity_of_doubled {length more : Nat} (long : capacity length ≤ length + more)
    (fits : length + more < 2 * capacity length) :
    capacity (length + more) = 2 * capacity length := by
  have double : 2 * capacity length = 1024 * 2 ^ ((length / 1024).size + 1) := by
    rw [capacity, pow_succ]
    omega
  rw [double] at fits ⊢
  exact capacity_eq fits fun _ => long

/-! ## One piece -/

/-- At every call of `snprintf` the position lies inside the buffer. -/
def CallsInside (calls : List (Nat × Nat)) : Prop := ∀ call ∈ calls, call.1 < call.2

theorem callsInside_concat {calls : List (Nat × Nat)} {offset buf_size : Nat} :
    CallsInside (calls ++ [(offset, buf_size)]) ↔ CallsInside calls ∧ offset < buf_size := by
  simp [CallsInside, or_imp, forall_and]

/-- The text so far stands in front of the position, with a NUL behind it, in a
buffer of its capacity. -/
structure Printed (text : CString) (state : ListState) : Prop where
  offset : state.offset = text.length
  memory : ∃ behind, state.memory = text ++ 0 :: behind
  buf_size : state.memory.length = capacity text.length
  calls : CallsInside state.calls

theorem Printed.behind {text : CString} {state : ListState} (printed : Printed text state) :
    ∃ behind, state.memory = text ++ behind ∧ behind ≠ [] ∧
      text.length + behind.length = capacity text.length := by
  obtain ⟨behind, memory⟩ := printed.memory
  refine ⟨0 :: behind, memory, List.cons_ne_nil 0 behind, ?_⟩
  rw [← printed.buf_size, memory, List.length_append]

/-- The bytes behind the position after a piece was printed over them. -/
def overwritten (piece behind : List UInt8) : List UInt8 :=
  piece.take (behind.length - 1) ++ 0 :: behind.drop (min piece.length (behind.length - 1) + 1)

section Overwritten

variable {piece behind : List UInt8}

theorem length_overwritten (inside : behind ≠ []) :
    (overwritten piece behind).length = behind.length := by
  have := List.length_pos_of_ne_nil inside
  simp only [overwritten, List.length_append, List.length_take, List.length_cons, List.length_drop]
  omega

theorem overwritten_fits (fits : piece.length < behind.length) :
    ∃ rest, overwritten piece behind = piece ++ 0 :: rest :=
  ⟨_, by rw [overwritten, List.take_of_length_le (by omega)]⟩

end Overwritten

section Piece

variable {piece before behind : CString} {state : ListState}

/-- A call from inside the buffer writes what fits behind the position. -/
theorem snprintfAt_inside (memory : state.memory = before ++ behind)
    (offset : state.offset = before.length) (inside : behind ≠ []) :
    state.room = behind.length ∧ snprintfAt piece state = .ok
      { memory := before ++ overwritten piece behind, offset := before.length,
        allocations := state.allocations,
        calls := state.calls ++ [(before.length, before.length + behind.length)] } := by
  have positive := List.length_pos_of_ne_nil inside
  have size : state.memory.length = before.length + behind.length := by
    rw [memory, List.length_append]
  have room : state.room = behind.length := by
    rw [ListState.room, if_pos (by omega)]
    omega
  have width : (piece.take (behind.length - 1) ++ [(0 : UInt8)]).length =
      min piece.length (behind.length - 1) + 1 := by
    simp only [List.length_append, List.length_take, List.length_singleton]
    omega
  refine ⟨room, ?_⟩
  simp only [snprintfAt, room, width]
  rw [if_neg (by omega), if_pos (by omega), offset, size, memory, List.take_left,
    ← List.drop_drop, List.drop_left]
  simp only [overwritten, List.append_assoc, List.singleton_append]
  rfl

@[simp]
theorem printed_bind (printed : ListState) (next : ListState → Except ListStop ListState) :
    (Except.ok printed >>= next) = next printed :=
  rfl

/-- A piece that fits is printed once. -/
theorem printPiece_once (memory : state.memory = before ++ behind)
    (offset : state.offset = before.length) (fits : piece.length < behind.length) :
    printPiece piece state = .ok
      { memory := before ++ overwritten piece behind, offset := before.length + piece.length,
        allocations := state.allocations,
        calls := state.calls ++ [(before.length, before.length + behind.length)] } := by
  have inside : behind ≠ [] := List.ne_nil_of_length_pos (by omega)
  obtain ⟨room, first⟩ := @snprintfAt_inside piece before behind state memory offset inside
  rw [printPiece, first, printed_bind, room, if_neg (by omega)]
  rfl

/-- A piece that does not fit is printed again into the doubled buffer, unless it
cannot be doubled. -/
theorem printPiece_twice {doubled : CString} (memory : state.memory = before ++ behind)
    (offset : state.offset = before.length) (inside : behind ≠ [])
    (long : behind.length ≤ piece.length)
    (more : overwritten piece behind ++ List.replicate (before.length + behind.length) 0 =
      doubled) :
    printPiece piece state =
      match malloc state.allocations with
      | (true, allocations) => .ok
        { memory := before ++ overwritten piece doubled, offset := before.length + piece.length,
          allocations
          calls := state.calls ++ [(before.length, before.length + behind.length)] ++
            [(before.length, before.length + doubled.length)] }
      | (false, _) => .error
        (.null (state.calls ++ [(before.length, before.length + behind.length)])) := by
  obtain ⟨room, first⟩ := @snprintfAt_inside piece before behind state memory offset inside
  rw [printPiece, first, printed_bind, room, if_pos long, doubleBuffer]
  rcases malloc state.allocations with ⟨allocated, allocations⟩
  cases allocated with
  | false => rfl
  | true =>
      have size : (before ++ overwritten piece behind).length = before.length + behind.length := by
        rw [List.length_append, length_overwritten inside]
      have filled : doubled ≠ [] := by
        have := List.length_pos_of_ne_nil inside
        rw [← more, size.symm]
        apply List.ne_nil_of_length_pos
        simp only [List.length_append, List.length_replicate, length_overwritten inside]
        omega
      have second := (@snprintfAt_inside piece before doubled
        ⟨before ++ overwritten piece behind ++
            List.replicate (before ++ overwritten piece behind).length 0,
          before.length, allocations,
          state.calls ++ [(before.length, before.length + behind.length)]⟩
        (by rw [← more, size, List.append_assoc]) rfl filled).2
      simp only [second, pure, Except.pure, printed_bind]

end Piece

/-! ## How the list ends -/

/-- The list ends with `NULL`, every call from inside the buffer, or in a state
with a property. -/
inductive Ends (good : ListState → Prop) : Except ListStop ListState → Prop where
  | ok {state : ListState} (holds : good state) : Ends good (.ok state)
  | null {calls : List (Nat × Nat)} (inside : CallsInside calls) : Ends good (.error (.null calls))

theorem Ends.bind {middle good : ListState → Prop} {first : Except ListStop ListState}
    {next : ListState → Except ListStop ListState} (ends : Ends middle first)
    (step : ∀ state, middle state → Ends good (next state)) : Ends good (first >>= next) := by
  cases ends with
  | ok holds => exact step _ holds
  | null inside => exact .null inside

theorem Ends.mono {weak strong : ListState → Prop} {last : Except ListStop ListState}
    (ends : Ends strong last) (weaken : ∀ state, strong state → weak state) : Ends weak last := by
  cases ends with
  | ok holds => exact .ok (weaken _ holds)
  | null inside => exact .null inside

theorem ends_ok {good : ListState → Prop} {state : ListState} :
    Ends good (.ok state) ↔ good state := by
  constructor
  · intro ends
    cases ends with
    | ok holds => exact holds
  · exact .ok

/-- The doubled buffer behind the text. -/
theorem length_doubled {text piece behind doubled : CString} (inside : behind ≠ [])
    (size : text.length + behind.length = capacity text.length)
    (more : overwritten piece behind ++ List.replicate (text.length + behind.length) 0 = doubled) :
    text.length + doubled.length = 2 * capacity text.length := by
  rw [← more, List.length_append, length_overwritten inside, List.length_replicate]
  omega

/-- **A piece that fits after at most one doubling** extends the printed text. -/
theorem ends_printPiece {text piece : CString} {state : ListState} (printed : Printed text state)
    (fits : text.length + piece.length < 2 * capacity text.length) :
    Ends (Printed (text ++ piece)) (printPiece piece state) := by
  obtain ⟨behind, memory, inside, size⟩ := printed.behind
  have positive := List.length_pos_of_ne_nil inside
  by_cases once : piece.length < behind.length
  · rw [printPiece_once memory printed.offset once]
    obtain ⟨rest, printedOver⟩ := overwritten_fits once
    exact .ok {
      offset := List.length_append.symm
      memory := ⟨rest, by simp only [printedOver, List.append_assoc]⟩
      buf_size := by
        rw [List.length_append, length_overwritten inside, size, List.length_append,
          capacity_of_lt (by omega)]
      calls := callsInside_concat.mpr ⟨printed.calls, by omega⟩ }
  obtain ⟨doubled, more⟩ : ∃ doubled, overwritten piece behind ++
    List.replicate (text.length + behind.length) 0 = doubled := ⟨_, rfl⟩
  rw [printPiece_twice memory printed.offset inside (by omega) more]
  have first : CallsInside (state.calls ++ [(text.length, text.length + behind.length)]) :=
    callsInside_concat.mpr ⟨printed.calls, by omega⟩
  have twice := length_doubled inside size more
  rcases malloc state.allocations with ⟨allocated, allocations⟩
  cases allocated with
  | false => exact .null first
  | true =>
      obtain ⟨rest, printedOver⟩ := @overwritten_fits piece doubled (by omega)
      have filled : doubled ≠ [] := List.ne_nil_of_length_pos (by omega)
      exact .ok {
        offset := List.length_append.symm
        memory := ⟨rest, by simp only [printedOver, List.append_assoc]⟩
        buf_size := by
          rw [List.length_append, length_overwritten filled, twice, List.length_append,
            capacity_of_doubled (by omega) fits]
        calls := callsInside_concat.mpr ⟨first, by omega⟩ }

/-- A piece for which one doubling is not enough moves the position out of the
buffer. -/
theorem printPiece_overrun {text piece : CString} {state : ListState} (printed : Printed text state)
    (all : state.allocations = []) (long : 2 * capacity text.length ≤ text.length + piece.length) :
    ∃ next, printPiece piece state = .ok next ∧ next.memory.length ≤ next.offset ∧
      next.offset = text.length + piece.length := by
  obtain ⟨behind, memory, inside, size⟩ := printed.behind
  have := lt_capacity text.length
  obtain ⟨doubled, more⟩ : ∃ doubled, overwritten piece behind ++
    List.replicate (text.length + behind.length) 0 = doubled := ⟨_, rfl⟩
  have twice := length_doubled inside size more
  have filled : doubled ≠ [] := List.ne_nil_of_length_pos (by omega)
  rw [printPiece_twice memory printed.offset inside (by omega) more, all]
  refine ⟨_, rfl, ?_, rfl⟩
  simp only [List.length_append, length_overwritten filled]
  omega

/-- A piece that is printed without a failed allocation leaves none to fail. -/
theorem printPiece_allocations {text piece : CString} {state : ListState}
    (printed : Printed text state) (all : state.allocations = []) :
    ∃ next, printPiece piece state = .ok next ∧ next.allocations = [] := by
  obtain ⟨behind, memory, inside, _⟩ := printed.behind
  by_cases once : piece.length < behind.length
  · exact ⟨_, printPiece_once memory printed.offset once, all⟩
  · rw [printPiece_twice memory printed.offset inside (by omega) rfl, all]
    exact ⟨_, rfl, rfl⟩

/-! ## Calls are never taken back -/

/-- Calls made before are among those at the end. -/
def KeepsCalls (calls : List (Nat × Nat)) : Except ListStop ListState → Prop
  | .ok state => calls <+: state.calls
  | .error (.null later) => calls <+: later
  | .error (.fault _) => True

theorem KeepsCalls.bind {calls : List (Nat × Nat)} {first : Except ListStop ListState}
    {next : ListState → Except ListStop ListState} (kept : KeepsCalls calls first)
    (step : ∀ state, KeepsCalls state.calls (next state)) : KeepsCalls calls (first >>= next) := by
  cases first with
  | error stop => cases stop <;> exact kept
  | ok state =>
      have before : calls <+: state.calls := kept
      have after := step state
      rw [printed_bind]
      cases last : next state with
      | ok ended =>
          rw [last] at after
          exact List.IsPrefix.trans before after
      | error stop =>
          rw [last] at after
          cases stop with
          | null later => exact List.IsPrefix.trans before after
          | fault fault => exact trivial

theorem keepsCalls_snprintfAt (piece : CString) (state : ListState) :
    KeepsCalls (state.calls ++ [(state.offset, state.memory.length)]) (snprintfAt piece state) := by
  simp only [snprintfAt]
  split
  · exact List.prefix_refl _
  · split
    · exact List.prefix_refl _
    · exact trivial

theorem keepsCalls_doubleBuffer (state : ListState) :
    KeepsCalls state.calls (doubleBuffer state) := by
  unfold doubleBuffer
  rcases malloc state.allocations with ⟨allocated, allocations⟩
  cases allocated <;> exact List.prefix_refl _

theorem KeepsCalls.of_concat {calls : List (Nat × Nat)} {call : Nat × Nat}
    {last : Except ListStop ListState} (kept : KeepsCalls (calls ++ [call]) last) :
    KeepsCalls calls last := by
  cases last with
  | ok state => exact (List.prefix_append calls [call]).trans kept
  | error stop =>
      cases stop with
      | null later => exact (List.prefix_append calls [call]).trans kept
      | fault fault => exact trivial

/-- The first call for a piece is made from the position reached so far. -/
theorem keepsCalls_printPiece (piece : CString) (state : ListState) :
    KeepsCalls (state.calls ++ [(state.offset, state.memory.length)]) (printPiece piece state) := by
  refine (keepsCalls_snprintfAt piece state).bind fun printed => ?_
  dsimp only
  split
  · refine (keepsCalls_doubleBuffer printed).bind fun doubled => ?_
    exact (keepsCalls_snprintfAt piece doubled).of_concat.bind fun again => List.prefix_refl _
  · exact List.prefix_refl _

theorem keepsCalls_printAll (pieces : List CString) (state : ListState) :
    KeepsCalls state.calls (printAll pieces state) := by
  induction pieces generalizing state with
  | nil => exact List.prefix_refl _
  | cons piece pieces ih => exact (keepsCalls_printPiece piece state).of_concat.bind ih

/-- Calls that are kept were made from inside the buffer if all were. -/
theorem KeepsCalls.callsInside {calls : List (Nat × Nat)} {last : Except ListStop ListState}
    (kept : KeepsCalls calls last) (ends : Ends (fun state => CallsInside state.calls) last) :
    CallsInside calls := by
  cases ends with
  | ok inside => exact fun call member => inside call (List.IsPrefix.subset kept member)
  | null inside => exact fun call member => inside call (List.IsPrefix.subset kept member)

/-! ## The whole list -/

/-- The buffer holds the text and its NUL, and every call was made from inside it. -/
def Complete (text : CString) (state : ListState) : Prop :=
  text ++ [0] <+: state.memory ∧ CallsInside state.calls

/-- Behind a text of some length each piece fits after at most one doubling. -/
def Fitting : Nat → List CString → Prop
  | _, [] => True
  | length, piece :: pieces =>
    length + piece.length < 2 * capacity length ∧ Fitting (length + piece.length) pieces

theorem Printed.complete {text : CString} {state : ListState} (printed : Printed text state) :
    Complete text state := by
  obtain ⟨behind, memory⟩ := printed.memory
  exact ⟨⟨behind, by rw [memory, List.append_assoc]; rfl⟩, printed.calls⟩

/-- Pieces that fit are printed completely. -/
theorem ends_printAll {pieces : List CString} {text : CString} {state : ListState}
    (printed : Printed text state) (fitting : Fitting text.length pieces) :
    Ends (Complete (text ++ pieces.flatten)) (printAll pieces state) := by
  induction pieces generalizing text state with
  | nil =>
      rw [List.flatten_nil, List.append_nil]
      exact .ok printed.complete
  | cons piece pieces ih =>
      obtain ⟨fits, later⟩ := fitting
      refine (ends_printPiece printed fits).bind fun next more => ?_
      rw [List.flatten_cons, ← List.append_assoc]
      exact ih more (by rwa [List.length_append])

/-- Pieces that are printed completely fit, when no allocation fails. -/
theorem fitting_of_ends {pieces : List CString} {text : CString} {state : ListState}
    (printed : Printed text state) (all : state.allocations = [])
    (ends : Ends (Complete (text ++ pieces.flatten)) (printAll pieces state)) :
    Fitting text.length pieces := by
  induction pieces generalizing text state with
  | nil => exact trivial
  | cons piece pieces ih =>
      rw [printAll] at ends
      by_cases fits : text.length + piece.length < 2 * capacity text.length
      · refine ⟨fits, ?_⟩
        obtain ⟨next, printedPiece, rest⟩ := printPiece_allocations printed all
        have more := ends_printPiece printed fits
        rw [printedPiece, ends_ok] at more
        rw [printedPiece, printed_bind, List.flatten_cons, ← List.append_assoc] at ends
        have later := ih more rest ends
        rwa [List.length_append] at later
      · obtain ⟨next, printedPiece, outside, moved⟩ :=
          printPiece_overrun printed all (Nat.le_of_not_lt fits)
        rw [printedPiece, printed_bind] at ends
        exfalso
        cases pieces with
        | nil =>
            have complete : Complete (text ++ [piece].flatten) next := ends_ok.mp ends
            have held := complete.1.length_le
            simp only [List.length_append, List.flatten_cons, List.flatten_nil, List.length_nil,
              List.length_singleton] at held
            omega
        | cons following pieces =>
            have kept := (keepsCalls_printPiece following next).bind (keepsCalls_printAll pieces)
            have last := kept.callsInside (ends.mono fun state complete => complete.2)
            have := (callsInside_concat.mp last).2
            omega

theorem capacity_header : capacity (cstr "Current DNS Records:\n").length = 1024 := by decide

/-- Behind the header the records are printed piece by piece. -/
theorem getRecordsList_eq (store : Store) {allocations rest : Allocations}
    (allocated : malloc allocations = (true, rest)) :
    ∃ state, Printed (cstr "Current DNS Records:\n") state ∧ state.allocations = rest ∧
      getRecordsList store allocations =
        printAll (store.entries.flatMap recordPieces) state := by
  obtain ⟨memory, filled⟩ : ∃ memory, List.replicate 1024 (0 : UInt8) = memory := ⟨_, rfl⟩
  have size : memory.length = 1024 := by rw [← filled, List.length_replicate]
  have fits : (cstr "Current DNS Records:\n").length < memory.length := by
    rw [size]
    decide
  have inside : memory ≠ [] := List.ne_nil_of_length_pos (by omega)
  obtain ⟨room, first⟩ := @snprintfAt_inside (cstr "Current DNS Records:\n") [] memory
    { memory, offset := 0, allocations := rest, calls := [] } rfl rfl inside
  refine ⟨{ memory := overwritten (cstr "Current DNS Records:\n") memory,
            offset := (cstr "Current DNS Records:\n").length, allocations := rest,
            calls := [(0, memory.length)] }, ?_, rfl, ?_⟩
  · exact {
      offset := rfl
      memory := overwritten_fits fits
      buf_size := by rw [length_overwritten inside, size, capacity_header]
      calls := by simp [CallsInside, size] }
  · unfold getRecordsList
    rw [allocated, filled]
    simp only [first, printed_bind, room]
    rw [if_neg (by omega), printRecords_eq]
    simp

/-! ## The exact condition -/

/-- What the list is to be: `NULL`, or complete. -/
def ListsExactly (store : Store) (allocations : Allocations) : Prop :=
  Ends (Complete (recordsText store)) (getRecordsList store allocations)

theorem fitting_cons_header {pieces : List CString} :
    Fitting 0 (cstr "Current DNS Records:\n" :: pieces) ↔
      Fitting (cstr "Current DNS Records:\n").length pieces := by
  rw [Fitting, Nat.zero_add, and_iff_right (by decide)]

/-- A complete list consists of pieces that fit. -/
theorem fitting_of_listsExactly {parse : CString → Option CJSON} {store : Store}
    (reachable : Reachable parse store) (complete : ListsExactly store []) :
    Fitting 0 (listPieces store) := by
  obtain ⟨state, printed, all, listed⟩ := @getRecordsList_eq store [] [] rfl
  rw [ListsExactly, listed, recordsText_eq fun record => reachable.values_ne_nil] at complete
  exact fitting_cons_header.mpr (fitting_of_ends printed all complete)

/-- **The list is `NULL` or complete, and printed from inside its buffer, for
every outcome of the allocations exactly when no piece carries the text to twice
the capacity in front of it.** -/
theorem listsExactly_iff {parse : CString → Option CJSON} {store : Store}
    (reachable : Reachable parse store) :
    (∀ allocations, ListsExactly store allocations) ↔ Fitting 0 (listPieces store) := by
  constructor
  · exact fun all => fitting_of_listsExactly reachable (all [])
  · intro fitting allocations
    rcases allocated : malloc allocations with ⟨outcome, rest⟩
    cases outcome with
    | false =>
        have stopped : getRecordsList store allocations = .error (.null []) := by
          unfold getRecordsList
          rw [allocated]
          rfl
        rw [ListsExactly, stopped]
        exact .null fun call member => absurd member List.not_mem_nil
    | true =>
        obtain ⟨state, printed, _, listed⟩ := getRecordsList_eq store allocated
        rw [ListsExactly, listed, recordsText_eq fun record => reachable.values_ne_nil]
        exact ends_printAll printed (fitting_cons_header.mp fitting)

/-- One address is listed completely. -/
theorem listsExactly_iff_address :
    (∀ allocations, ListsExactly (addSingleRecord KeyedTable.empty (cstr "a") (cstr "A")
        (cstr "base") (cstr "192.0.2.1")).result.2 allocations) ↔
      Fitting 0 (listPieces (addSingleRecord KeyedTable.empty (cstr "a") (cstr "A")
        (cstr "base") (cstr "192.0.2.1")).result.2) :=
  listsExactly_iff (reachable_empty.added (cstr "a") (cstr "A") (cstr "base") (cstr "192.0.2.1"))

/-- A text of three thousand letters. -/
def longText : CString := List.replicate 3000 120

/-- The store of a server that has loaded a file with that text and a short
one. -/
def longTextStore : Store :=
  KeyedTable.empty.replace
    { domain := cstr "a", type := cstr "TXT", key := cstr "base_a_TXT",
      values := [longText, cstr "y"] }

/-- The list of the long text is not complete. -/
theorem not_listsExactly_of_long_text :
    ¬ ∀ (parse : CString → Option CJSON) (store : Store) (allocations : Allocations),
      Reachable parse store → ListsExactly store allocations := by
  intro all
  have loaded : Reachable (fun _ => some (baseTree (cstr "a") (cstr "TXT")
      (.array [.string longText, .string (cstr "y")]))) longTextStore :=
    .started (.contents (cstr "\x7b\x7d")) [] (by rfl)
  have fitting := fitting_of_listsExactly loaded (all _ _ [] loaded)
  have pieces : listPieces longTextStore = [cstr "Current DNS Records:\n",
      cstr "Domain: a, Type: TXT, Values: ", longText ++ cstr ", ", cstr "y\n"] := rfl
  have long : 3000 ≤ (longText ++ cstr ", ").length := by
    rw [List.length_append, longText, List.length_replicate]
    exact Nat.le_add_right 3000 _
  have before : (cstr "Current DNS Records:\n").length +
      (cstr "Domain: a, Type: TXT, Values: ").length = 51 := by decide
  have small : capacity 51 = 1024 := by decide
  rw [pieces] at fitting
  simp only [Fitting, Nat.zero_add, before, small] at fitting
  omega

end DnsServer
