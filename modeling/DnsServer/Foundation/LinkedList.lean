import Mathlib.Data.List.Basic
import Mathlib.Data.List.Nodup
import Mathlib.Logic.Function.Basic
import Mathlib.Tactic.Common

/-!
# Doubly linked lists in memory

The links of a list are two functions from cells to optional cells, one for each
direction; `none` is `NULL`. A sequence of cells is linked when each cell points
to its neighbours and the outermost pointers are `NULL`. Cells outside the sequence
may hold anything.

The results are the three edits that an intrusive list knows, as updates of the two
functions: a cell is put in front, put behind, or taken out. The links of a segment
between two given pointers are what the edits are proved about, since an edit
changes one seam and leaves both sides alone.
-/

set_option autoImplicit false

namespace DnsServer

namespace LinkedList

variable {Cell : Type}

/-- The cells of a list point to each other, its first cell back to `before` and
its last cell on to `after`. -/
def Segment (prev next : Cell → Option Cell) :
    Option Cell → List Cell → Option Cell → Prop
  | _, [], _ => True
  | before, cell :: rest, after =>
      prev cell = before ∧ next cell = rest.head?.or after ∧
        Segment prev next (some cell) rest after

/-- The cells of a list point to each other and to nothing else. -/
def Linked (prev next : Cell → Option Cell) (cells : List Cell) : Prop :=
  Segment prev next none cells none

/-- Each cell points on to the next one, the last one to `NULL`. -/
def Chained (next : Cell → Option Cell) : List Cell → Prop
  | [] => True
  | cell :: rest => next cell = rest.head? ∧ Chained next rest

section Segments

variable {prev next prev' next' : Cell → Option Cell}

@[simp] theorem segment_nil (before after : Option Cell) :
    Segment prev next before [] after := trivial

theorem segment_append (xs ys : List Cell) (before after : Option Cell) :
    Segment prev next before (xs ++ ys) after ↔
      Segment prev next before xs (ys.head?.or after) ∧
        Segment prev next (xs.getLast?.or before) ys after := by
  induction xs generalizing before with
  | nil => simp
  | cons cell xs ih =>
      simp only [List.cons_append, Segment, ih, List.head?_append, List.getLast?_cons,
        Option.or_assoc, and_assoc]
      cases xs.getLast? <;> rfl

/-- Links are read in the cells of the list only. -/
theorem Segment.congr {cells : List Cell} {before after : Option Cell}
    (segment : Segment prev next before cells after)
    (backward : ∀ cell ∈ cells, prev' cell = prev cell)
    (forward : ∀ cell ∈ cells, next' cell = next cell) :
    Segment prev' next' before cells after := by
  induction cells generalizing before with
  | nil => trivial
  | cons cell cells ih =>
      obtain ⟨back, on, rest⟩ := segment
      refine ⟨(backward cell List.mem_cons_self).trans back,
        (forward cell List.mem_cons_self).trans on, ih rest ?_ ?_⟩
      · exact fun other member => backward other (List.mem_cons_of_mem cell member)
      · exact fun other member => forward other (List.mem_cons_of_mem cell member)

theorem Linked.congr {cells : List Cell} (linked : Linked prev next cells)
    (backward : ∀ cell ∈ cells, prev' cell = prev cell)
    (forward : ∀ cell ∈ cells, next' cell = next cell) : Linked prev' next' cells :=
  Segment.congr linked backward forward

/-- Forward links alone make a chain. -/
theorem Segment.chained {cells : List Cell} {before : Option Cell}
    (segment : Segment prev next before cells none) : Chained next cells := by
  induction cells generalizing before with
  | nil => trivial
  | cons cell cells ih =>
      obtain ⟨_, on, rest⟩ := segment
      exact ⟨by rw [on, Option.or_none], ih rest⟩

theorem Linked.chained {cells : List Cell} (linked : Linked prev next cells) :
    Chained next cells :=
  Segment.chained linked

theorem Chained.congr {cells : List Cell} (chained : Chained next cells)
    (forward : ∀ cell ∈ cells, next' cell = next cell) : Chained next' cells := by
  induction cells with
  | nil => trivial
  | cons cell cells ih =>
      refine ⟨(forward cell List.mem_cons_self).trans chained.1, ih chained.2 ?_⟩
      exact fun other member => forward other (List.mem_cons_of_mem cell member)

/-- What a cell of a linked list points to. -/
theorem Linked.neighbours {xs ys : List Cell} {cell : Cell}
    (linked : Linked prev next (xs ++ cell :: ys)) :
    prev cell = xs.getLast? ∧ next cell = ys.head? := by
  obtain ⟨_, back, on, _⟩ := (segment_append xs (cell :: ys) none none).mp linked
  exact ⟨by rw [back, Option.or_none], by rw [on, Option.or_none]⟩

/-- A cell without a neighbour is alone. -/
theorem Linked.alone {cells : List Cell} {cell : Cell} (linked : Linked prev next cells)
    (member : cell ∈ cells) (first : prev cell = none) (last : next cell = none) :
    cells = [cell] := by
  obtain ⟨xs, ys, rfl⟩ := List.append_of_mem member
  obtain ⟨back, on⟩ := linked.neighbours
  rw [back, List.getLast?_eq_none_iff] at first
  rw [on, List.head?_eq_none_iff] at last
  rw [first, last, List.nil_append]

end Segments

/-! ## Edits -/

section Edits

variable [DecidableEq Cell] {prev next : Cell → Option Cell}

/-- Write a pointer into a cell, if there is one. -/
def assign (link : Cell → Option Cell) (cell : Option Cell) (target : Option Cell) :
    Cell → Option Cell :=
  match cell with
  | none => link
  | some cell => Function.update link cell target

@[simp] theorem assign_none (link : Cell → Option Cell) (target : Option Cell) :
    assign link none target = link := rfl

theorem assign_of_ne {link : Cell → Option Cell} {cell : Option Cell} {target : Option Cell}
    {other : Cell} (different : cell ≠ some other) : assign link cell target other = link other := by
  cases cell with
  | none => rfl
  | some cell =>
      exact Function.update_of_ne (fun same => different (congrArg some same.symm)) _ _

/-- The end of a segment can be redirected. -/
theorem Segment.redirect_end {cells : List Cell} {before after target : Option Cell}
    (distinct : cells.Nodup) (segment : Segment prev next before cells after) :
    Segment prev (assign next cells.getLast? target) before cells target := by
  rcases List.eq_nil_or_concat' cells with rfl | ⟨cells, last, rfl⟩
  · trivial
  · rw [List.getLast?_concat]
    rw [segment_append] at segment ⊢
    obtain ⟨front, back, _, _⟩ := segment
    refine ⟨front.congr (fun _ _ => rfl) fun cell member => ?_, back, ?_, trivial⟩
    · refine assign_of_ne fun same => ?_
      rw [← List.concat_eq_append, List.nodup_concat] at distinct
      exact distinct.1 (Option.some.inj same ▸ member)
    · simp [assign]

/-- The start of a segment can be redirected. -/
theorem Segment.redirect_start {cells : List Cell} {before after target : Option Cell}
    (distinct : cells.Nodup) (segment : Segment prev next before cells after) :
    Segment (assign prev cells.head? target) next target cells after := by
  cases cells with
  | nil => trivial
  | cons first rest =>
      obtain ⟨_, on, others⟩ := segment
      refine ⟨by simp [assign], on, others.congr (fun cell member => ?_) fun _ _ => rfl⟩
      refine assign_of_ne fun same => ?_
      exact (List.nodup_cons.mp distinct).1 (Option.some.inj same ▸ member)

/-- Put a cell in front of all others. -/
theorem Linked.push {cells : List Cell} {cell : Cell} (distinct : (cell :: cells).Nodup)
    (linked : Linked prev next cells) :
    Linked (assign (Function.update prev cell none) cells.head? (some cell))
      (Function.update next cell cells.head?) (cell :: cells) := by
  obtain ⟨absent, others⟩ := List.nodup_cons.mp distinct
  refine ⟨?_, by simp, ?_⟩
  · rw [assign_of_ne, Function.update_self]
    exact fun same => absent (List.mem_of_mem_head? same)
  · have kept : Segment (Function.update prev cell none) (Function.update next cell cells.head?)
        none cells none :=
      Segment.congr linked
        (fun other member => Function.update_of_ne (ne_of_mem_of_not_mem member absent) _ _)
        fun other member => Function.update_of_ne (ne_of_mem_of_not_mem member absent) _ _
    exact kept.redirect_start others

/-- Put a cell behind all others. -/
theorem Linked.concat {cells : List Cell} {cell : Cell} (distinct : (cells ++ [cell]).Nodup)
    (linked : Linked prev next cells) :
    Linked (Function.update prev cell cells.getLast?)
      (assign (Function.update next cell none) cells.getLast? (some cell)) (cells ++ [cell]) := by
  rw [← List.concat_eq_append, List.nodup_concat] at distinct
  obtain ⟨absent, others⟩ := distinct
  have kept : Segment (Function.update prev cell cells.getLast?) (Function.update next cell none)
      none cells none :=
    Segment.congr linked
      (fun other member => Function.update_of_ne (ne_of_mem_of_not_mem member absent) _ _)
      fun other member => Function.update_of_ne (ne_of_mem_of_not_mem member absent) _ _
  rw [Linked, segment_append]
  refine ⟨kept.redirect_end others, by simp, ?_, trivial⟩
  rw [assign_of_ne, Function.update_self]
  · rfl
  · exact fun same => absent (List.mem_of_getLast? same)

/-- Take a cell out: its neighbours now point to each other. -/
theorem Linked.unlink {xs ys : List Cell} {cell : Cell} (distinct : (xs ++ cell :: ys).Nodup)
    (linked : Linked prev next (xs ++ cell :: ys)) :
    Linked (assign prev (next cell) (prev cell)) (assign next (prev cell) (next cell))
      (xs ++ ys) := by
  obtain ⟨back, on⟩ := linked.neighbours
  obtain ⟨front, _, _, behind⟩ := (segment_append xs (cell :: ys) none none).mp linked
  obtain ⟨left, right, apart⟩ := List.nodup_append.mp distinct
  rw [back, on, Linked, segment_append]
  constructor
  · rw [Option.or_none]
    refine (front.redirect_end left).congr (fun other member => ?_) fun _ _ => rfl
    refine assign_of_ne fun same => ?_
    exact apart other member other (List.mem_cons_of_mem cell (List.mem_of_mem_head? same)) rfl
  · rw [Option.or_none]
    refine (behind.redirect_start (List.nodup_cons.mp right).2).congr (fun _ _ => rfl)
      fun other member => ?_
    refine assign_of_ne fun same => ?_
    exact apart other (List.mem_of_getLast? same) other (List.mem_cons_of_mem cell member) rfl

end Edits

end LinkedList

end DnsServer
