import Mathlib.Data.List.Basic
import Mathlib.Data.List.TakeWhile
import Mathlib.Algebra.BigOperators.Group.List.Basic
import Mathlib.Tactic.Common

/-!
# Domain names on the wire

A name is a sequence of labels. On the wire each label is a length byte from 1
to 63 followed by that many bytes, and the name ends with a zero byte or with a
two-byte pointer to an earlier name in the message.

The reader follows pointers anywhere in the message and is bounded by the
number of bytes of the message: a reader that takes more steps has visited a
byte twice and would never end.

The main results are that the reader undoes the writer (`decodeName_encode`)
and that a name is never shorter than the labels the reader has passed
(`length_lt_octets`).
-/

set_option autoImplicit false

namespace DnsServer.Wire

/-- The bytes of one label. -/
abbrev Label := List UInt8

/-- The labels of a name, without the root. -/
abbrev Name := List Label

/-- The labels that have a place on the wire. -/
def LegalLabel (label : Label) : Prop := 1 ≤ label.length ∧ label.length ≤ 63

instance (label : Label) : Decidable (LegalLabel label) :=
  inferInstanceAs (Decidable (_ ∧ _))

/-- The bytes of the labels, without the byte that ends the name. -/
def encodeLabels (name : Name) : List UInt8 :=
  name.flatMap fun label => UInt8.ofNat label.length :: label

/-- The uncompressed name. -/
def Name.encode (name : Name) : List UInt8 := encodeLabels name ++ [0]

/-- The octets a name takes on the wire when it is not compressed. -/
def Name.octets (name : Name) : Nat := (encodeLabels name).length + 1

@[simp] theorem encodeLabels_nil : encodeLabels [] = [] := rfl

@[simp] theorem encodeLabels_cons (label : Label) (name : Name) :
    encodeLabels (label :: name) = UInt8.ofNat label.length :: (label ++ encodeLabels name) := rfl

@[simp] theorem length_encode (name : Name) : name.encode.length = name.octets := by
  simp [Name.encode, Name.octets]

@[simp] theorem octets_nil : Name.octets [] = 1 := rfl

@[simp] theorem octets_cons (label : Label) (name : Name) :
    Name.octets (label :: name) = label.length + 1 + name.octets := by
  simp [Name.octets]
  omega

theorem octets_pos (name : Name) : 1 ≤ name.octets := by
  simp [Name.octets]

theorem length_lt_octets (name : Name) : name.length < name.octets := by
  induction name with
  | nil => simp
  | cons label name ih =>
      simp only [List.length_cons, octets_cons]
      omega

/-- The length byte of a legal label reads back as its length. -/
theorem LegalLabel.toNat_ofNat {label : Label} (legal : LegalLabel label) :
    (UInt8.ofNat label.length).toNat = label.length := by
  have bound := legal.2
  simp
  omega

/-! ## Names as text -/

/-- The labels of a dotted text. -/
def splitDots (text : List UInt8) : Name := text.splitOn 46

/-- The dotted text of a name. -/
def joinDots (name : Name) : List UInt8 := [46].intercalate name

/-- Splitting a text at its dots loses nothing. -/
@[simp] theorem joinDots_splitDots (text : List UInt8) : joinDots (splitDots text) = text :=
  List.intercalate_splitOn 46

theorem splitDots_of_not_mem {text : List UInt8} (noDot : 46 ∉ text) : splitDots text = [text] :=
  List.splitOn_eq_singleton noDot

theorem splitDots_append_dot {label rest : List UInt8} (noDot : 46 ∉ label) :
    splitDots (label ++ 46 :: rest) = label :: splitDots rest :=
  List.splitOn_append_cons_self_of_not_mem noDot rest

/-- Joining labels that contain no dot loses nothing. -/
theorem splitDots_joinDots {name : Name} (nonempty : name ≠ []) (noDot : ∀ label ∈ name, 46 ∉ label) :
    splitDots (joinDots name) = name :=
  List.splitOn_intercalate 46 noDot nonempty

/-- Induction over the labels of a text: the last one, and a label with a dot
behind it. -/
theorem dots_induction {motive : List UInt8 → Prop}
    (last : ∀ label, 46 ∉ label → motive label)
    (dot : ∀ label rest, 46 ∉ label → motive rest → motive (label ++ 46 :: rest))
    (text : List UInt8) : motive text := by
  induction length : text.length using Nat.strongRecOn generalizing text with
  | ind size ih =>
      have parts : text.takeWhile (· ≠ 46) ++ text.dropWhile (· ≠ 46) = text :=
        List.takeWhile_append_dropWhile
      have clean : 46 ∉ text.takeWhile (· ≠ 46) := by
        intro member
        simpa using List.mem_takeWhile_imp member
      cases behind : text.dropWhile (· ≠ 46) with
      | nil =>
          rw [behind, List.append_nil] at parts
          rw [← parts]
          exact last _ clean
      | cons c rest =>
          have head := List.head?_dropWhile_not (fun c : UInt8 => decide (c ≠ 46)) text
          rw [behind] at head
          have isDot : c = 46 := by simpa using head
          subst isDot
          rw [behind] at parts
          have shorter := congrArg List.length parts
          simp only [List.length_append, List.length_cons] at shorter
          rw [← parts]
          exact dot _ rest clean (ih rest.length (by omega) rest rfl)

/-- The labels of a text contain its other bytes. -/
theorem mem_of_mem_splitDots {text : List UInt8} {label : Label} (member : label ∈ splitDots text) :
    46 ∉ label ∧ ∀ c ∈ label, c ∈ text := by
  induction text using dots_induction with
  | last only noDot =>
      rw [splitDots_of_not_mem noDot, List.mem_singleton] at member
      subst member
      exact ⟨noDot, fun _ inside => inside⟩
  | dot first rest noDot ih =>
      rw [splitDots_append_dot noDot, List.mem_cons] at member
      rcases member with rfl | later
      · exact ⟨noDot, fun c inside => List.mem_append_left _ inside⟩
      · obtain ⟨clean, inside⟩ := ih later
        exact ⟨clean, fun c here => List.mem_append_right first (List.mem_cons_of_mem 46 (inside c here))⟩

/-- The labels of a text take one byte more than the text. -/
theorem length_encodeLabels_joinDots {name : Name} (nonempty : name ≠ []) :
    (encodeLabels name).length = (joinDots name).length + 1 := by
  induction name with
  | nil => exact absurd rfl nonempty
  | cons label name ih =>
      cases name with
      | nil => simp [joinDots]
      | cons next name =>
          have tail := ih (List.cons_ne_nil next name)
          simp only [joinDots, List.intercalate_cons_cons, List.length_append, encodeLabels_cons,
            List.length_cons] at tail ⊢
          simp at tail ⊢
          omega

theorem length_encodeLabels_splitDots (text : List UInt8) :
    (encodeLabels (splitDots text)).length = text.length + 1 := by
  have nonempty : splitDots text ≠ [] := List.splitOn_ne_nil 46 text
  rw [length_encodeLabels_joinDots nonempty, joinDots_splitDots]

/-! ## Reading -/

/-- Read a name from an offset of the message: its labels, and the offset
behind it. -/
def decodeNameAt (message : List UInt8) : Nat → Nat → Option (Name × Nat)
  | 0, _ => none
  | fuel + 1, offset =>
    match message[offset]? with
    | none => none
    | some byte =>
      if byte = 0 then some ([], offset + 1)
      else if byte.toNat ≤ 63 then
        if offset + 1 + byte.toNat ≤ message.length then
          match decodeNameAt message fuel (offset + 1 + byte.toNat) with
          | none => none
          | some (name, next) =>
              some ((message.drop (offset + 1)).take byte.toNat :: name, next)
        else none
      else if 192 ≤ byte.toNat then
        match message[offset + 1]? with
        | none => none
        | some low =>
          match decodeNameAt message fuel (256 * (byte.toNat - 192) + low.toNat) with
          | none => none
          | some (name, _) => some (name, offset + 2)
      else none

/-- Read a name, with a bound that only a pointer loop exceeds. -/
def decodeName (message : List UInt8) (offset : Nat) : Option (Name × Nat) :=
  decodeNameAt message message.length offset

/-- What the reader does at a zero byte. -/
theorem decodeNameAt_root {message : List UInt8} {fuel offset : Nat}
    (root : message[offset]? = some 0) :
    decodeNameAt message (fuel + 1) offset = some ([], offset + 1) := by
  simp [decodeNameAt, root]

/-- What the reader does at a label. -/
theorem decodeNameAt_label {message : List UInt8} {fuel offset : Nat} {byte : UInt8}
    (there : message[offset]? = some byte) (nonzero : byte ≠ 0) (small : byte.toNat ≤ 63) :
    decodeNameAt message (fuel + 1) offset =
      if offset + 1 + byte.toNat ≤ message.length then
        (decodeNameAt message fuel (offset + 1 + byte.toNat)).map fun result =>
          ((message.drop (offset + 1)).take byte.toNat :: result.1, result.2)
      else none := by
  simp only [decodeNameAt, there, nonzero, small, if_false, if_true]
  split
  · cases decodeNameAt message fuel (offset + 1 + byte.toNat) <;> rfl
  · rfl

/-- What the reader does at a pointer. -/
theorem decodeNameAt_pointer {message : List UInt8} {fuel offset : Nat} {high low : UInt8}
    (there : message[offset]? = some high) (pointer : 192 ≤ high.toNat)
    (lowThere : message[offset + 1]? = some low) :
    decodeNameAt message (fuel + 1) offset =
      (decodeNameAt message fuel (256 * (high.toNat - 192) + low.toNat)).map fun result =>
        (result.1, offset + 2) := by
  have nonzero : high ≠ 0 := by
    rintro rfl
    simp at pointer
  have notLabel : ¬ high.toNat ≤ 63 := by omega
  simp only [decodeNameAt, there, nonzero, notLabel, pointer, lowThere, if_false, if_true]
  cases decodeNameAt message fuel (256 * (high.toNat - 192) + low.toNat) <;> rfl

/-- **The reader undoes the writer**, wherever the name stands in the message. -/
theorem decodeNameAt_encode {message : List UInt8} :
    ∀ {name : Name} {fuel offset : Nat} {rest : List UInt8},
      (∀ label ∈ name, LegalLabel label) → name.length < fuel →
      message.drop offset = name.encode ++ rest →
      decodeNameAt message fuel offset = some (name, offset + name.octets) := by
  intro name
  induction name with
  | nil =>
      intro fuel offset rest _ enough here
      obtain ⟨fuel, rfl⟩ : ∃ smaller, fuel = smaller + 1 := ⟨fuel - 1, by omega⟩
      apply decodeNameAt_root
      rw [← List.head?_drop, here]
      rfl
  | cons label name ih =>
      intro fuel offset rest legal enough here
      obtain ⟨fuel, rfl⟩ : ∃ smaller, fuel = smaller + 1 := ⟨fuel - 1, by omega⟩
      have headLegal : LegalLabel label := legal label List.mem_cons_self
      have width := headLegal.toNat_ofNat
      have split : message.drop offset =
          UInt8.ofNat label.length :: (label ++ (Name.encode name ++ rest)) := by
        simpa [Name.encode] using here
      have there : message[offset]? = some (UInt8.ofNat label.length) := by
        rw [← List.head?_drop, split]
        rfl
      have afterByte : message.drop (offset + 1) = label ++ (Name.encode name ++ rest) := by
        rw [← List.drop_drop, split]
        rfl
      have afterLabel : message.drop (offset + 1 + label.length) = Name.encode name ++ rest := by
        rw [← List.drop_drop, afterByte, List.drop_left]
      have nonzero : UInt8.ofNat label.length ≠ 0 := by
        intro zero
        have := headLegal.1
        rw [zero] at width
        simp at width
        omega
      have inside : offset + 1 + label.length ≤ message.length := by
        have := congrArg List.length afterByte
        simp at this
        have := octets_pos name
        omega
      rw [decodeNameAt_label there nonzero (by rw [width]; exact headLegal.2), width,
        if_pos inside, ih (fun other member => legal other (List.mem_cons_of_mem _ member))
          (by simpa using enough) afterLabel, afterByte, Option.map_some, List.take_left]
      simp only [octets_cons]
      congr 2
      omega

theorem decodeName_encode {message : List UInt8} {name : Name} {offset : Nat} {rest : List UInt8}
    (legal : ∀ label ∈ name, LegalLabel label) (here : message.drop offset = name.encode ++ rest) :
    decodeName message offset = some (name, offset + name.octets) := by
  refine decodeNameAt_encode legal ?_ here
  have sizes := congrArg List.length here
  have := length_lt_octets name
  simp at sizes
  omega

end DnsServer.Wire
