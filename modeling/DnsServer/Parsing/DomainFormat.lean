import DnsServer.Model.Parser
import DnsServer.Wire.Name

/-!
# What `domainToDNSFormat` computes

The scan keeps the text in three parts: the labels already written, the label
being read, and the rest. It succeeds exactly when every label of the text is
legal and the labels leave room for the final zero byte, and it then writes the
name of the text (`domainToDNSFormat_eq`). It never writes outside its buffer.
-/

set_option autoImplicit false

namespace DnsServer

open Libc Wire

/-- A text that has a place on the wire in a buffer of the given size. -/
def Encodable (size : Nat) (text : CString) : Prop :=
  (∀ label ∈ splitDots text, LegalLabel label) ∧ text.length + 2 ≤ size

instance (size : Nat) (text : CString) : Decidable (Encodable size text) :=
  inferInstanceAs (Decidable (_ ∧ _))

/-- A substring is read back from inside its text. -/
theorem readRange_middle (before middle after : List UInt8) :
    readRange (before ++ (middle ++ after)) before.length middle.length = .ok middle := by
  simp only [readRange, List.length_append, List.drop_left, List.take_left]
  rw [if_pos (by omega)]

/-- The end of a label: it is written when it is legal and leaves room. -/
theorem endLabel_eq {max_size : Nat} (before label after : List UInt8)
    (written : OutBuffer max_size) :
    ((if before.length + label.length ≤ before.length ∨
          63 < before.length + label.length - before.length then
        return none
      else if max_size ≤ written.length + 1 + (before.length + label.length - before.length) then
        return none
      else do
        let written ← written.append
          [UInt8.ofNat (before.length + label.length - before.length)]
        let label ← readRange (before ++ (label ++ after)) before.length
          (before.length + label.length - before.length)
        some <$> written.append label : Checked (Option (OutBuffer max_size)))) =
      if fits : LegalLabel label ∧ written.length + 1 + label.length < max_size then
        .ok (some ⟨written.bytes ++ encodeLabels [label], by
          have := fits.2
          simp [OutBuffer.length] at this ⊢
          omega⟩)
      else .ok none := by
  have width : before.length + label.length - before.length = label.length := by omega
  rw [width, readRange_middle]
  by_cases legal : LegalLabel label
  · rw [if_neg (by have := legal.1; have := legal.2; omega)]
    by_cases room : written.length + 1 + label.length < max_size
    · have first : written.bytes.length + [UInt8.ofNat label.length].length ≤ max_size := by
        simp [OutBuffer.length] at room ⊢
        omega
      have second : (written.bytes ++ [UInt8.ofNat label.length]).length + label.length ≤
          max_size := by
        simp [OutBuffer.length] at room ⊢
        omega
      rw [if_neg (by omega), dif_pos ⟨legal, room⟩, OutBuffer.append_of_room first]
      simp only [Checked.ok_bind]
      rw [OutBuffer.append_of_room second]
      simp [Functor.map, Except.map]
    · rw [if_pos (by omega), dif_neg (fun both => room both.2)]
      rfl
  · rw [if_pos (by unfold LegalLabel at legal; omega), dif_neg (fun both => legal both.1)]
    rfl

/-- The result of the scan from the start of a label on: the labels of the text,
when they are all legal and leave room for one more byte. -/
def scanned {max_size : Nat} (written : OutBuffer max_size) (text : CString) :
    Checked (Option (OutBuffer max_size)) :=
  if fits : (∀ part ∈ splitDots text, LegalLabel part) ∧
      written.length + text.length + 1 < max_size then
    .ok (some ⟨written.bytes ++ encodeLabels (splitDots text), by
      have := fits.2
      rw [List.length_append, length_encodeLabels_splitDots]
      simp [OutBuffer.length] at this ⊢
      omega⟩)
  else .ok none

/-- The last label is written on its own. -/
theorem scanned_label {max_size : Nat} {label : CString} (noDot : 46 ∉ label)
    (written : OutBuffer max_size) :
    scanned written label =
      if fits : LegalLabel label ∧ written.length + 1 + label.length < max_size then
        .ok (some ⟨written.bytes ++ encodeLabels [label], by
          have := fits.2
          simp [OutBuffer.length] at this ⊢
          omega⟩)
      else .ok none := by
  simp only [scanned, splitDots_of_not_mem noDot, List.forall_mem_singleton]
  by_cases fits : LegalLabel label ∧ written.length + 1 + label.length < max_size
  · rw [dif_pos fits, dif_pos ⟨fits.1, by have := fits.2; omega⟩]
  · rw [dif_neg fits, dif_neg (fun both => fits ⟨both.1, by have := both.2; omega⟩)]

/-- Any other label is written in front of the labels behind its dot. -/
theorem scanned_dot {max_size : Nat} {label rest : CString} (noDot : 46 ∉ label)
    (written : OutBuffer max_size) :
    scanned written (label ++ 46 :: rest) =
      if fits : LegalLabel label ∧ written.length + 1 + label.length < max_size then
        scanned ⟨written.bytes ++ encodeLabels [label], by
          have := fits.2
          simp [OutBuffer.length] at this ⊢
          omega⟩ rest
      else .ok none := by
  simp only [scanned, splitDots_append_dot noDot, List.forall_mem_cons]
  by_cases fits : LegalLabel label ∧ written.length + 1 + label.length < max_size
  · rw [dif_pos fits]
    by_cases all : ∀ part ∈ splitDots rest, LegalLabel part
    · by_cases room : written.length + (label ++ 46 :: rest).length + 1 < max_size
      · rw [dif_pos ⟨⟨fits.1, all⟩, room⟩,
          dif_pos ⟨all, by simp [OutBuffer.length] at room ⊢; omega⟩]
        simp
      · rw [dif_neg (fun both => room both.2), dif_neg (fun both => room (by
          have := both.2
          simp [OutBuffer.length] at this ⊢
          omega))]
    · rw [dif_neg (fun both => all both.1.2), dif_neg (fun both => all both.1)]
  · rw [dif_neg fits, dif_neg (fun both => fits ⟨both.1.1, by
      have := both.2
      simp at this
      omega⟩)]

/-- **The scan writes the labels of the text from the current label on**, when
they are all legal and leave room for one more byte. -/
theorem formatLoop_eq {max_size : Nat} :
    ∀ (rest before label : List UInt8) (written : OutBuffer max_size), 46 ∉ label →
      formatLoop (before ++ (label ++ rest)) max_size rest (before.length + label.length) before.length
          written = scanned written (label ++ rest) := by
  intro rest
  induction rest with
  | nil =>
      intro before label written noDot
      rw [formatLoop]
      simp only [List.append_nil, scanned_label noDot]
      have ended := endLabel_eq before label [] written
      rw [List.append_nil] at ended
      exact ended
  | cons c rest ih =>
      intro before label written noDot
      rw [formatLoop]
      by_cases dot : c = 46
      · subst dot
        simp only [if_true, scanned_dot noDot]
        rw [endLabel_eq before label (46 :: rest) written]
        by_cases fits : LegalLabel label ∧ written.length + 1 + label.length < max_size
        · rw [dif_pos fits, dif_pos fits]
          simp only [Checked.ok_bind]
          have next := ih (before ++ (label ++ [46])) [] ⟨written.bytes ++ encodeLabels [label], by
            have := fits.2
            simp [OutBuffer.length] at this ⊢
            omega⟩ (List.not_mem_nil)
          simp only [List.append_assoc, List.nil_append, List.length_append, List.length_singleton,
            List.length_nil, Nat.add_zero, List.singleton_append] at next
          rw [Nat.add_assoc, next]
        · rw [dif_neg fits, dif_neg fits]
          rfl
      · have longer : 46 ∉ label ++ [c] := by
          simp only [List.mem_append, List.mem_singleton, not_or]
          exact ⟨noDot, fun same => dot same.symm⟩
        have next := ih before (label ++ [c]) written longer
        simp only [List.append_assoc, List.singleton_append, List.length_append,
          List.length_singleton] at next
        simp only [dot, if_false]
        rw [Nat.add_assoc, next]

/-- **`domainToDNSFormat` writes the name of an encodable text**, and fails on
every other text. -/
theorem domainToDNSFormat_eq (text : CString) (max_size : Nat) :
    domainToDNSFormat text max_size =
      .ok (if Encodable max_size text then some (splitDots text).encode else none) := by
  unfold domainToDNSFormat domainToDNSFormatInto
  by_cases small : max_size < 2
  · rw [if_pos small, if_neg (fun fits => by have := fits.2; omega)]
    rfl
  · rw [if_neg small]
    have scan := formatLoop_eq text [] [] (OutBuffer.empty : OutBuffer max_size) List.not_mem_nil
    simp only [List.nil_append, List.length_nil, Nat.zero_add, OutBuffer.length_empty,
      Nat.add_zero, scanned] at scan
    rw [scan]
    by_cases fits : Encodable max_size text
    · have total := length_encodeLabels_splitDots text
      have room := fits.2
      rw [dif_pos ⟨fits.1, by omega⟩, if_pos fits]
      simp only [Checked.ok_bind]
      rw [if_pos (by simp [OutBuffer.length, total]; omega), OutBuffer.append_of_room (by
        simp [total]
        omega)]
      simp [Name.encode]
    · rw [dif_neg (fun both => fits ⟨both.1, by have := both.2; omega⟩), if_neg fits]
      rfl

/-- **What `domainToDNSFormat` promises.** It writes only inside its buffer, whether
it fails or not. It succeeds exactly for a text whose labels have 1 to 63 bytes and
which leaves two bytes of the buffer free, and it then writes each label behind its
length, and a zero byte. The positions of the source are `int`s: they stand for the
numbers of this model as long as the text is shorter than 2 ^ 31 bytes. -/
theorem domainToDNSFormat_spec (domain : CString) (max_size : Nat) :
    ∃ result, domainToDNSFormat domain max_size = .ok result ∧
      (result.isSome ↔
        (∀ label ∈ splitDots domain, LegalLabel label) ∧ domain.length + 2 ≤ max_size) ∧
      ∀ dns_format, result = some dns_format →
        dns_format = (splitDots domain).encode ∧ dns_format.length = domain.length + 2 := by
  refine ⟨_, domainToDNSFormat_eq domain max_size, ?_, ?_⟩
  · by_cases fits : Encodable max_size domain
    · rw [if_pos fits]
      exact iff_of_true rfl fits
    · rw [if_neg fits]
      exact iff_of_false Bool.false_ne_true fits
  · intro dns_format written
    rw [Option.ite_none_right_eq_some, Option.some.injEq] at written
    obtain ⟨_, rfl⟩ := written
    refine ⟨rfl, ?_⟩
    rw [length_encode, Name.octets, length_encodeLabels_splitDots]

/-- **A text that was cut stays encodable unless it ends behind a dot.** -/
theorem encodable_take_iff {size count : Nat} {text : CString} (encodable : Encodable size text)
    (positive : 0 < count) :
    Encodable size (text.take count) ↔ (text.take count).getLast? ≠ some 46 := by
  obtain ⟨legal, short⟩ := encodable
  have room : (text.take count).length + 2 ≤ size := by
    rw [List.length_take]
    omega
  rw [Encodable, and_iff_left room]
  clear short room
  have inLabel : ∀ label : CString, 46 ∉ label → LegalLabel label → ∀ count, 0 < count →
      ((∀ part ∈ splitDots (label.take count), LegalLabel part) ↔
        (label.take count).getLast? ≠ some 46) := by
    intro label noDot bounds count positive
    have clean : 46 ∉ label.take count := fun member => noDot (List.mem_of_mem_take member)
    rw [splitDots_of_not_mem clean, List.forall_mem_singleton]
    refine iff_of_true ⟨?_, ?_⟩ fun last => clean (List.mem_of_getLast? last)
    · have := bounds.1
      rw [List.length_take]
      omega
    · have := bounds.2
      rw [List.length_take]
      omega
  induction text using dots_induction generalizing count with
  | last label noDot =>
      exact inLabel label noDot (legal label (by simp [splitDots_of_not_mem noDot])) count positive
  | dot label rest noDot ih =>
      rw [splitDots_append_dot noDot, List.forall_mem_cons] at legal
      rcases Nat.lt_or_ge label.length count with behind | inside
      · obtain ⟨more, rfl⟩ : ∃ more, count = label.length + (more + 1) :=
          ⟨count - label.length - 1, by omega⟩
        rw [List.take_length_add_append, List.take_succ_cons, splitDots_append_dot noDot,
          List.forall_mem_cons, and_iff_right legal.1]
        cases more with
        | zero => simp [splitDots_of_not_mem, LegalLabel]
        | succ more =>
            refine Iff.trans (ih (Nat.succ_pos more) legal.2) ?_
            cases rest with
            | nil => exact absurd (legal.2 [] (by simp [splitDots_of_not_mem])).1 (by simp)
            | cons c rest => simp [List.getLast?_append]
      · rw [List.take_append_of_le_length inside]
        exact inLabel label noDot legal.1 count positive

end DnsServer
