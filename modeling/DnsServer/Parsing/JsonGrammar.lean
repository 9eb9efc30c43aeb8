import DnsServer.Parsing.JsonTokens

/-!
# Every JSON text is read as its tree

The grammar of JSON values, with the tree a text stands for: `ValueText depth` has the values
whose arrays and objects are nested at most so deep. White space between tokens is any byte
up to the blank; the members of an object keep their order, and names may repeat.

`cJSON_Parse` returns the tree of every text of the grammar up to `CJSON_NESTING_LIMIT`
(`parse_text`). A byte order mark in front of it is left out, and what is behind the value
is not read.
-/

set_option autoImplicit false

namespace DnsServer

namespace CJSON

open Libc Scanner

/-! ## The grammar of values -/

/-- White space between tokens. -/
def Blank (text : CString) : Prop := ∀ byte ∈ text, byte ≠ 0 ∧ byte ≤ 32

/-- The values without children. A numeral has at most the 63 characters that `parse_number`
copies. -/
inductive ScalarText : CString → CJSON → Prop where
  | null : ScalarText (cstr "null") .null
  | false : ScalarText (cstr "false") (.bool false)
  | true : ScalarText (cstr "true") (.bool true)
  | number {text : CString} {number : DecimalNumber} (spells : NumberText text number)
      (short : text.length ≤ 63) : ScalarText text (.number number.valueint)
  | string {body bytes : CString} (spells : StringBody body bytes) :
      ScalarText (34 :: (body ++ [34])) (.string (cutAtNul bytes))

/-- Items with commas between them. -/
inductive ItemsText {α : Type} (item : CString → α → Prop) : CString → List α → Prop where
  | one {text : CString} {value : α} (only : item text value) : ItemsText item text [value]
  | more {text rest : CString} {value : α} {values : List α} (first : item text value)
      (others : ItemsText item rest values) : ItemsText item (text ++ 44 :: rest) (value :: values)

section Layers

variable (value : CString → CJSON → Prop)

/-- An element of an array, with the white space around it. -/
inductive ElementText : CString → CJSON → Prop where
  | mk {before core after : CString} {tree : CJSON} (front : Blank before) (inner : value core tree)
      (back : Blank after) : ElementText (before ++ (core ++ after)) tree

/-- A member of an object. -/
inductive MemberText : CString → CString × CJSON → Prop where
  | mk {before body bytes between element : CString} {tree : CJSON} (front : Blank before)
      (spells : StringBody body bytes) (middle : Blank between)
      (inner : ElementText value element tree) :
      MemberText (before ++ 34 :: (body ++ 34 :: (between ++ 58 :: element))) (cutAtNul bytes, tree)

/-- A value whose children are of the given kind. -/
inductive LayerText : CString → CJSON → Prop where
  | scalar {text : CString} {tree : CJSON} (plain : ScalarText text tree) : LayerText text tree
  | emptyArray {blanks : CString} (blank : Blank blanks) :
      LayerText (91 :: (blanks ++ [93])) (.array [])
  | array {text : CString} {items : List CJSON} (inner : ItemsText (ElementText value) text items) :
      LayerText (91 :: (text ++ [93])) (.array items)
  | emptyObject {blanks : CString} (blank : Blank blanks) :
      LayerText (123 :: (blanks ++ [125])) (.object [])
  | object {text : CString} {members : List (CString × CJSON)}
      (inner : ItemsText (MemberText value) text members) :
      LayerText (123 :: (text ++ [125])) (.object members)

end Layers

/-- The values whose arrays and objects are nested at most so deep. -/
def ValueText : Nat → CString → CJSON → Prop
  | 0 => ScalarText
  | depth + 1 => LayerText (ValueText depth)

/-! ## Reading parts of the text -/

variable {content : List UInt8} {depth : Nat}

/-- Where the text is next, the part reads it as the value and stops behind it. -/
def Reads {α : Type} (content : List UInt8) (depth : Nat) (part : Parsing α) (text : CString)
    (value : α) (tail : CString) : Prop :=
  ∀ offset, content.drop offset = text ++ tail →
    Gives part { offset, depth } value { offset := offset + text.length, depth }

/-- Where the text is behind the byte at the position, the part reads it as the value. -/
def ReadsBehind {α : Type} (content : List UInt8) (depth : Nat) (part : Parsing α) (text : CString)
    (value : α) (tail : CString) : Prop :=
  ∀ offset, content.drop (offset + 1) = text ++ tail →
    Gives part { offset, depth } value { offset := offset + 1 + text.length, depth }

theorem skipLoop_eq {blanks tail : CString} {first : UInt8} {bound offset : Nat}
    (blank : Blank blanks) (visible : ¬first ≤ 32)
    (there : content.drop offset = blanks ++ first :: tail) (enough : blanks.length < bound) :
    skipLoop content bound offset = .ok (offset + blanks.length) := by
  induction blanks generalizing bound offset with
  | nil =>
      obtain ⟨bound, rfl⟩ : ∃ rest, bound = rest + 1 := ⟨bound - 1, by omega⟩
      have here : content[offset]? = some first := byte_of_drop there 0
      have inside := (List.getElem?_eq_some_iff.mp here).1
      rw [skipLoop, if_pos inside, readAt_of_getElem? here, Checked.ok_bind, if_neg visible]
      rfl
  | cons byte blanks ih =>
      obtain ⟨bound, rfl⟩ : ∃ rest, bound = rest + 1 := ⟨bound - 1, by omega⟩
      have here : content[offset]? = some byte := byte_of_drop there 0
      have inside := (List.getElem?_eq_some_iff.mp here).1
      obtain ⟨own, others⟩ := List.forall_mem_cons.mp blank
      have rest : skipLoop content bound (offset + 1) = .ok (offset + 1 + blanks.length) :=
        ih others (drop_behind [byte] there) (Nat.lt_of_succ_lt_succ enough)
      rw [skipLoop, if_pos inside, readAt_of_getElem? here, Checked.ok_bind, if_pos own.2, rest,
        List.length_cons, Nat.add_right_comm, Nat.add_assoc]

/-- White space is skipped up to the first other byte. -/
theorem reads_skip {blanks tail : CString} {first : UInt8} (blank : Blank blanks)
    (visible : ¬first ≤ 32) :
    Reads content depth (bufferSkipWhitespace content) blanks () (first :: tail) := by
  intro offset there
  have stop : content[offset + blanks.length]? = some first := byte_of_drop (drop_behind blanks there) 0
  have last := (List.getElem?_eq_some_iff.mp stop).1
  refine gives_get.bind ?_
  rw [if_pos (by simp [canAccess]; omega)]
  refine (gives_lift (skipLoop_eq blank visible there (by omega))).bind ?_
  have inside : ¬offset + blanks.length = content.length := by omega
  simp only [if_neg inside]
  exact gives_modify

/-! ## Items -/

/-- What may be behind an item. -/
def Ends (tail : CString) : Prop :=
  ∃ mark rest, tail = mark :: rest ∧ (mark = 44 ∨ mark = 93 ∨ mark = 125)

/-- A text that begins with a byte other than white space and closing brackets. -/
def Begins (text : CString) : Prop :=
  ∃ first rest, text = first :: rest ∧ ¬first ≤ 32 ∧ first ≠ 93 ∧ first ≠ 125

/-- An item is its white space in front and an item that begins at once. -/
def Strips {α : Type} (item : CString → α → Prop) : Prop :=
  ∀ text value, item text value →
    ∃ blanks core, text = blanks ++ core ∧ Blank blanks ∧ item core value ∧ Begins core

section Items

variable {α : Type} {item : Parsing α} {kind : CString → α → Prop}

theorem Begins.append {front : CString} (begins : Begins front) (rest : CString) :
    Begins (front ++ rest) := by
  obtain ⟨first, behind, rfl, visible⟩ := begins
  exact ⟨first, behind ++ rest, rfl, visible⟩

theorem ItemsText.strip (strips : Strips kind) : Strips (ItemsText kind) := by
  intro text values items
  cases items with
  | one only =>
      obtain ⟨blanks, core, rfl, blank, inner, begins⟩ := strips _ _ only
      exact ⟨blanks, core, rfl, blank, .one inner, begins⟩
  | @more _ rest _ _ first others =>
      obtain ⟨blanks, core, rfl, blank, inner, begins⟩ := strips _ _ first
      exact ⟨blanks, core ++ 44 :: rest, List.append_assoc _ _ _, blank, .more inner others,
        begins.append _⟩

theorem ItemsText.length_le {text : CString} {values : List α} (items : ItemsText kind text values) :
    values.length ≤ text.length + 1 := by
  induction items with
  | one _ => exact Nat.succ_le_succ (Nat.zero_le _)
  | more _ _ ih =>
      rw [List.length_cons, List.length_append, List.length_cons]
      omega

/-- The loop over items reads them up to the closing bracket. -/
theorem reads_parseItems
    (each : ∀ text value tail, kind text value → Ends tail →
      ReadsBehind content depth item text value tail)
    {text tail : CString} {values : List α} (items : ItemsText kind text values) {close : UInt8}
    (closes : close = 93 ∨ close = 125) {bound : Nat} (enough : values.length ≤ bound) :
    ReadsBehind content depth (parseItems content item bound) text values (close :: tail) := by
  induction items generalizing bound with
  | @one text value only =>
      intro offset there
      obtain ⟨bound, rfl⟩ : ∃ rest, bound = rest + 1 := ⟨bound - 1, by
        rw [List.length_singleton] at enough
        omega⟩
      refine (each text value _ only ⟨close, tail, rfl, .inr closes⟩ offset there).bind ?_
      refine (gives_peek _).bind ?_
      have mark : content[offset + 1 + text.length]? = some close :=
        byte_of_drop (drop_behind text there) 0
      have other : content[offset + 1 + text.length]? ≠ some 44 := by
        rw [mark]
        rcases closes with rfl | rfl <;> decide
      rw [if_neg other]
      exact gives_pure
  | @more text rest value values first others ih =>
      intro offset there
      obtain ⟨bound, rfl⟩ : ∃ left, bound = left + 1 := ⟨bound - 1, by
        rw [List.length_cons] at enough
        omega⟩
      rw [List.append_assoc, List.cons_append] at there
      refine (each text value _ first ⟨44, _, rfl, .inl rfl⟩ offset there).bind ?_
      refine (gives_peek _).bind ?_
      have mark : content[offset + 1 + text.length]? = some 44 :=
        byte_of_drop (drop_behind text there) 0
      rw [if_pos mark]
      have behind := drop_behind [44] (drop_behind text there)
      have further := (ih (Nat.le_of_succ_le_succ enough) _ behind).map (value :: ·)
      rw [List.length_append, List.length_cons]
      have place : offset + 1 + (text.length + (rest.length + 1)) =
          offset + 1 + text.length + 1 + rest.length := by omega
      rw [place]
      exact further

/-- A body without items. -/
theorem reads_emptyBody {blanks tail : CString} (blank : Blank blanks) {mark close : UInt8}
    (closes : close = 93 ∨ close = 125) (offset : Nat)
    (there : content.drop offset = mark :: (blanks ++ close :: tail)) :
    Gives (parseBody content close item) { offset, depth := depth + 1 } []
      { offset := offset + (blanks.length + 2), depth } := by
  have visible : ¬close ≤ 32 := by rcases closes with rfl | rfl <;> decide
  have inner : content.drop (offset + 1) = blanks ++ close :: tail := drop_behind [mark] there
  refine gives_modify.bind ((reads_skip blank visible _ inner).bind ?_)
  have last : content[offset + 1 + blanks.length]? = some close :=
    byte_of_drop (drop_behind blanks inner) 0
  have between : Gives (parseBetween content close item)
      { offset := offset + 1 + blanks.length, depth := depth + 1 } []
      { offset := offset + 1 + blanks.length, depth := depth + 1 } := by
    refine (gives_peek _).bind ?_
    rw [if_pos last]
    exact gives_pure
  refine between.bind ?_
  have place : offset + (blanks.length + 2) = offset + 1 + blanks.length + 1 := by omega
  rw [place]
  exact gives_modify.bind gives_pure

/-- A body with items. -/
theorem reads_parseBody (strips : Strips kind)
    (each : ∀ text value tail, kind text value → Ends tail →
      ReadsBehind content (depth + 1) item text value tail)
    {text tail : CString} {values : List α} (items : ItemsText kind text values)
    {mark close : UInt8} (closes : close = 93 ∨ close = 125) (offset : Nat)
    (there : content.drop offset = mark :: (text ++ close :: tail)) :
    Gives (parseBody content close item) { offset, depth := depth + 1 } values
      { offset := offset + (text.length + 2), depth } := by
  obtain ⟨blanks, core, rfl, blank, inner, first, rest, rfl, visible, notArray, notObject⟩ :=
    items.strip strips
  have other : first ≠ close := by rcases closes with rfl | rfl <;> assumption
  have behind : content.drop (offset + 1) = blanks ++ first :: (rest ++ close :: tail) :=
    (drop_behind [mark] there).trans (List.append_assoc blanks (first :: rest) (close :: tail))
  -- the position of the first item
  obtain ⟨before, start⟩ : ∃ before, offset + 1 + blanks.length = before + 1 :=
    ⟨offset + blanks.length, by omega⟩
  have here : content.drop (before + 1) = first :: rest ++ close :: tail := by
    rw [← start]
    exact drop_behind blanks behind
  have byte : content[before + 1]? = some first := byte_of_drop here 0
  have last : content[before + 1 + (first :: rest).length]? = some close :=
    byte_of_drop (drop_behind _ here) 0
  have inside := (List.getElem?_eq_some_iff.mp last).1
  have skips : Gives (bufferSkipWhitespace content) { offset := offset + 1, depth := depth + 1 } ()
      { offset := offset + 1 + blanks.length, depth := depth + 1 } := reads_skip blank visible _ behind
  rw [start] at skips
  refine gives_modify.bind (skips.bind ?_)
  have enough : values.length ≤ content.length + 1 := by
    have := inner.length_le
    omega
  have filled : Gives (parseFilled content close item) { offset := before + 1, depth := depth + 1 }
      values { offset := before + 1 + (first :: rest).length, depth := depth + 1 } := by
    refine gives_get.bind (gives_modify.bind ((gives_guard ?_).bind ?_))
    · simp only [canAccess, decide_eq_true_eq]
      omega
    · refine (reads_parseItems each inner closes enough before here).bind ((gives_peek _).bind ?_)
      exact (gives_guard last).bind gives_pure
  have between : Gives (parseBetween content close item)
      { offset := before + 1, depth := depth + 1 } values
      { offset := before + 1 + (first :: rest).length, depth := depth + 1 } := by
    refine (gives_peek _).bind ?_
    rw [if_neg (by rw [byte]; exact fun same => other (Option.some.inj same))]
    exact filled
  refine between.bind ?_
  have place : offset + ((blanks ++ first :: rest).length + 2) =
      before + 1 + (first :: rest).length + 1 := by
    rw [List.length_append]
    omega
  rw [place]
  exact gives_modify.bind gives_pure

end Items

/-! ## Values -/

/-- The first byte of a value. -/
def Starts (byte : UInt8) : Prop := byte ∈ [34, 45, 91, 102, 110, 116, 123] ∨ isDigit byte

theorem Starts.visible {byte : UInt8} (starts : Starts byte) :
    ¬byte ≤ 32 ∧ byte ≠ 93 ∧ byte ≠ 125 ∧ byte ≠ 0xEF := by
  rcases starts with listed | digit
  · simp only [List.mem_cons, List.not_mem_nil, or_false] at listed
    rcases listed with rfl | rfl | rfl | rfl | rfl | rfl | rfl <;> decide
  · have range := isDigit_range digit
    refine ⟨fun small => ?_, ?_, ?_, ?_⟩
    · have := UInt8.le_iff_toNat_le.mp small
      have blank : (32 : UInt8).toNat = 32 := rfl
      omega
    all_goals
      rintro rfl
      simp at range

theorem NumberText.starts {text : CString} {number : DecimalNumber} (spells : NumberText text number) :
    ∃ first rest, text = first :: rest ∧ (first = 45 ∨ isDigit first) := by
  cases spells with
  | @mk negative whole fractionText fraction exponentText exponent filled all fractional scaled =>
      cases negative with
      | true => exact ⟨45, _, rfl, .inl rfl⟩
      | false =>
          cases whole with
          | nil => exact absurd rfl filled
          | cons first whole =>
              exact ⟨first, _, rfl, .inr (all first List.mem_cons_self)⟩

theorem ScalarText.starts {text : CString} {tree : CJSON} (plain : ScalarText text tree) :
    ∃ first rest, text = first :: rest ∧ Starts first := by
  cases plain with
  | null => exact ⟨110, _, rfl, .inl (by decide)⟩
  | false => exact ⟨102, _, rfl, .inl (by decide)⟩
  | true => exact ⟨116, _, rfl, .inl (by decide)⟩
  | number spells _ =>
      obtain ⟨first, rest, same, rfl | digit⟩ := spells.starts
      · exact ⟨45, rest, same, .inl (by decide)⟩
      · exact ⟨first, rest, same, .inr digit⟩
  | string _ => exact ⟨34, _, rfl, .inl (by decide)⟩

theorem ValueText.starts {nesting : Nat} {text : CString} {tree : CJSON}
    (value : ValueText nesting text tree) : ∃ first rest, text = first :: rest ∧ Starts first := by
  cases nesting with
  | zero => exact ScalarText.starts value
  | succ nesting =>
      cases value with
      | scalar plain => exact plain.starts
      | emptyArray _ => exact ⟨91, _, rfl, .inl (by decide)⟩
      | array _ => exact ⟨91, _, rfl, .inl (by decide)⟩
      | emptyObject _ => exact ⟨123, _, rfl, .inl (by decide)⟩
      | object _ => exact ⟨123, _, rfl, .inl (by decide)⟩

theorem startsWith_eq (buffer : ParseBuffer) {literal : CString} (filled : literal ≠ []) :
    startsWith content buffer literal =
      .ok (decide ((content.drop buffer.offset).take literal.length = literal)) := by
  by_cases room : buffer.offset + literal.length ≤ content.length
  · rw [startsWith, if_pos room, readRange, if_pos room, Checked.ok_bind]
    exact congrArg Except.ok (Bool.eq_iff_iff.mpr (by simp))
  · have short : (content.drop buffer.offset).take literal.length ≠ literal := by
      intro same
      have lengths := congrArg List.length same
      have positive := List.length_pos_of_ne_nil filled
      rw [List.length_take, List.length_drop] at lengths
      omega
    rw [startsWith, if_neg room, decide_eq_false short]
    rfl

section Literals

variable {literal tail : CString} {otherwise : Parsing CJSON} {tree : CJSON}

theorem reads_literal (filled : literal ≠ []) :
    Reads content depth (parseLiteral content literal tree otherwise) literal tree tail := by
  intro offset there
  have found : (content.drop offset).take literal.length = literal := by
    rw [there, List.take_left]
  refine gives_get.bind ((gives_lift (startsWith_eq _ filled)).bind ?_)
  rw [decide_eq_true found]
  exact gives_modify.bind gives_pure

/-- A text that begins with another byte is not the literal. -/
theorem reads_otherwise {text rest : CString} {first : UInt8} {value : CJSON}
    (begins : text = first :: rest) (other : ∀ byte ∈ literal.head?, byte ≠ first)
    (filled : literal ≠ []) (reads : Reads content depth otherwise text value tail) :
    Reads content depth (parseLiteral content literal tree otherwise) text value tail := by
  intro offset there
  have missed : (content.drop offset).take literal.length ≠ literal := by
    intro same
    cases literal with
    | nil => exact filled rfl
    | cons byte literal =>
        rw [there, begins, List.length_cons, List.cons_append, List.take_succ_cons] at same
        exact other byte rfl (List.cons.inj same).1.symm
  refine gives_get.bind ((gives_lift (startsWith_eq _ filled)).bind ?_)
  rw [decide_eq_false missed]
  exact reads offset there

end Literals

section Layers

variable {value : Parsing CJSON} {kind : CString → CJSON → Prop}

/-- A value is read wherever an item may end. -/
def ReadsAll (content : List UInt8) (depth : Nat) (value : Parsing CJSON)
    (kind : CString → CJSON → Prop) : Prop :=
  ∀ text tree tail, kind text tree → (∀ byte ∈ tail.head?, isNumberByte byte = false) →
    Reads content depth value text tree tail

theorem Ends.notNumber {after tail : CString} (back : Blank after) (ends : Ends tail) :
    ∀ byte ∈ (after ++ tail).head?, isNumberByte byte = false := by
  cases after with
  | nil =>
      obtain ⟨mark, rest, rfl, marks⟩ := ends
      intro byte head
      cases head
      rcases marks with rfl | rfl | rfl <;> rfl
  | cons first after =>
      intro byte head
      cases head
      have small := UInt8.le_iff_toNat_le.mp (back first List.mem_cons_self).2
      have blank : (32 : UInt8).toNat = 32 := rfl
      refine Bool.eq_false_iff.mpr fun number => ?_
      simp only [isNumberByte, Bool.or_eq_true, decide_eq_true_eq] at number
      rcases number with (((((digit | rfl) | rfl) | rfl) | rfl) | rfl)
      · have range := isDigit_range digit
        omega
      all_goals simp at small

/-- The values begin with a byte of a value. -/
def AllStart (kind : CString → CJSON → Prop) : Prop :=
  ∀ text tree, kind text tree → ∃ first rest, text = first :: rest ∧ Starts first

/-- White space and a value, from the byte in front of them. -/
theorem reads_element (starts : AllStart kind) (reads : ReadsAll content depth value kind)
    {text tail : CString} {tree : CJSON} (element : ElementText kind text tree) (ends : Ends tail) :
    ReadsBehind content depth (parseElement content value) text tree tail := by
  intro offset there
  cases element with
  | @mk before core after _ front inner back =>
      obtain ⟨first, rest, rfl, begins⟩ := starts core tree inner
      have stop := ends.notNumber back
      obtain ⟨mark, further, rfl, marks⟩ := ends
      have visible : ¬mark ≤ 32 := by rcases marks with rfl | rfl | rfl <;> decide
      have all : content.drop (offset + 1) =
          before ++ first :: (rest ++ (after ++ mark :: further)) := by
        rw [there]
        simp only [List.append_assoc, List.cons_append]
      have atCore := drop_behind before all
      have atAfter : content.drop (offset + 1 + before.length + (first :: rest).length) =
          after ++ mark :: further := drop_behind (first :: rest) atCore
      refine gives_modify.bind ((reads_skip front begins.visible.1 _ all).bind ?_)
      refine (reads _ tree _ inner stop _ atCore).bind ?_
      refine (reads_skip back visible _ atAfter).bind ?_
      have place : offset + 1 + (before ++ (first :: rest ++ after)).length =
          offset + 1 + before.length + (first :: rest).length + after.length := by
        rw [List.length_append, List.length_append]
        omega
      rw [place]
      exact gives_pure

/-- A name, a colon and a value, from the byte in front of them. -/
theorem reads_member (terminated : Terminated content) (starts : AllStart kind)
    (reads : ReadsAll content depth value kind) {text tail : CString} {member : CString × CJSON}
    (spelled : MemberText kind text member) (ends : Ends tail) :
    ReadsBehind content depth (parseMember content value) text member tail := by
  intro offset there
  cases spelled with
  | @mk before body bytes between element tree front spells middle inner =>
      have all : content.drop (offset + 1) =
          before ++ 34 :: (body ++ 34 :: (between ++ 58 :: (element ++ tail))) := by
        rw [there]
        simp only [List.append_assoc, List.cons_append]
      have atName := drop_behind before all
      have atBetween : content.drop (offset + 1 + before.length + (body.length + 2)) =
          between ++ 58 :: (element ++ tail) := by
        have behind := drop_behind [34] (drop_behind body (drop_behind [34] atName))
        refine Eq.trans (congrArg (content.drop ·) ?_) behind
        show _ = offset + 1 + before.length + 1 + body.length + 1
        omega
      have atColon := drop_behind between atBetween
      have colon : content[offset + 1 + before.length + (body.length + 2) + between.length]? = some 58 :=
        byte_of_drop atColon 0
      refine gives_modify.bind ((reads_skip front (by decide) _ all).bind ?_)
      refine (gives_parseString terminated spells atName).bind ?_
      refine (reads_skip middle (by decide) _ atBetween).bind ((gives_peek _).bind ?_)
      refine (gives_guard colon).bind ?_
      refine (reads_element starts reads inner ends _ (drop_behind [58] atColon)).bind ?_
      have place : offset + 1 +
          (before ++ 34 :: (body ++ 34 :: (between ++ 58 :: element))).length =
          offset + 1 + before.length + (body.length + 2) + between.length + 1 + element.length := by
        simp only [List.length_append, List.length_cons]
        omega
      rw [place]
      exact gives_pure

theorem strips_element (starts : AllStart kind) : Strips (ElementText kind) := by
  intro text tree element
  cases element with
  | @mk before core after _ front inner back =>
      obtain ⟨first, rest, same, begins⟩ := starts core tree inner
      have visible := begins.visible
      have nothing : Blank [] := by simp [Blank]
      have stripped : ElementText kind ([] ++ (core ++ after)) tree := .mk nothing inner back
      exact ⟨before, core ++ after, rfl, front, stripped, first, rest ++ after, by rw [same]; rfl,
        visible.1, visible.2.1, visible.2.2.1⟩

theorem strips_member : Strips (MemberText kind) := by
  intro text member spelled
  cases spelled with
  | @mk before body bytes between element tree front spells middle inner =>
      have nothing : Blank [] := by simp [Blank]
      have stripped : MemberText kind ([] ++ 34 :: (body ++ 34 :: (between ++ 58 :: element)))
          (cutAtNul bytes, tree) := .mk nothing spells middle inner
      exact ⟨before, _, rfl, front, stripped, 34, _, rfl, by decide, by decide, by decide⟩

theorem gives_enter {offset : Nat} (room : depth < nestingLimit) :
    Gives enter { offset, depth } () { offset, depth := depth + 1 } :=
  gives_get.bind ((gives_guard room).bind gives_modify)

/-- The branch of `parse_value` for the first byte of the text. -/
theorem reads_selected {text tail : CString} {tree : CJSON} {first : UInt8} {rest : CString}
    (begins : text = first :: rest) {branch : Parsing CJSON}
    (selects : (if first = 34 then .string <$> parseString content
      else if first = 45 ∨ isDigit first then parseNumber content
      else if first = 91 then parseArray content value
      else if first = 123 then parseObject content value
      else failure) = branch)
    (reads : Reads content depth branch text tree tail) :
    Reads content depth (parseSelected content value) text tree tail := by
  intro offset there
  have here : content[offset]? = some first := by
    rw [begins] at there
    exact byte_of_drop there 0
  have peeks : Gives (peek content) { offset, depth } content[offset]? { offset, depth } :=
    gives_peek _
  rw [here] at peeks
  refine Gives.bind peeks ?_
  dsimp only
  rw [selects]
  exact reads offset there

/-- `parse_value` over the parser of its children. -/
def parseLayer (content : List UInt8) (value : Parsing CJSON) : Parsing CJSON :=
  parseLiteral content (cstr "null") .null <|
  parseLiteral content (cstr "false") (.bool false) <|
  parseLiteral content (cstr "true") (.bool true) <|
  parseSelected content value

/-- A text that begins as no literal does. -/
theorem reads_layer {text tail : CString} {tree : CJSON} {first : UInt8} {rest : CString}
    (begins : text = first :: rest) (other : first ≠ 110 ∧ first ≠ 102 ∧ first ≠ 116)
    (reads : Reads content depth (parseSelected content value) text tree tail) :
    Reads content depth (parseLayer content value) text tree tail := by
  refine reads_otherwise begins ?_ (by decide) ?_
  · rintro byte ⟨⟩
    exact other.1.symm
  refine reads_otherwise begins ?_ (by decide) ?_
  · rintro byte ⟨⟩
    exact other.2.1.symm
  refine reads_otherwise begins ?_ (by decide) reads
  · rintro byte ⟨⟩
    exact other.2.2.symm

theorem reads_scalar (terminated : Terminated content) :
    ReadsAll content depth (parseLayer content value) ScalarText := by
  intro text tree tail plain stop
  cases plain with
  | null => exact reads_literal (by decide)
  | false =>
      refine reads_otherwise (rfl : cstr "false" = 102 :: _) ?_ (by decide) (reads_literal (by decide))
      rintro byte ⟨⟩
      decide
  | true =>
      refine reads_otherwise (rfl : cstr "true" = 116 :: _) ?_ (by decide) ?_
      · rintro byte ⟨⟩
        decide
      refine reads_otherwise (rfl : cstr "true" = 116 :: _) ?_ (by decide) (reads_literal (by decide))
      rintro byte ⟨⟩
      decide
  | number spells short =>
      obtain ⟨first, rest, begins, starts⟩ := spells.starts
      have other : first ≠ 34 ∧ first ≠ 110 ∧ first ≠ 102 ∧ first ≠ 116 := by
        rcases starts with rfl | digit
        · decide
        · refine ⟨?_, ?_, ?_, ?_⟩
          all_goals
            rintro rfl
            exact absurd digit (by decide)
      refine reads_layer begins other.2 (reads_selected begins ?_ fun offset there =>
        gives_parseNumber spells short stop there)
      rw [if_neg other.1, if_pos starts]
  | @string body bytes spells =>
      refine reads_layer rfl (by decide) (reads_selected rfl (if_pos rfl) fun offset there => ?_)
      have spelled : content.drop offset = 34 :: (body ++ 34 :: tail) := by
        rw [there]
        simp only [List.cons_append, List.append_assoc, List.nil_append]
      have place : (34 :: (body ++ [34])).length = body.length + 2 := by
        rw [List.length_cons, List.length_append, List.length_singleton]
      rw [place]
      have reads : Gives (parseString content) { offset, depth } (cutAtNul bytes)
          { offset := offset + (body.length + 2), depth } := gives_parseString terminated spells spelled
      exact reads.map CJSON.string

/-- Brackets around a text. -/
theorem bracketed {mark close : UInt8} {text tail : CString} {offset : Nat}
    (there : content.drop offset = mark :: (text ++ [close]) ++ tail) :
    content[offset]? = some mark ∧ content.drop offset = mark :: (text ++ close :: tail) := by
  refine ⟨byte_of_drop there 0, there.trans ?_⟩
  simp only [List.cons_append, List.append_assoc, List.nil_append]

theorem length_bracketed (mark close : UInt8) (text : CString) :
    (mark :: (text ++ [close])).length = text.length + 2 := by
  rw [List.length_cons, List.length_append, List.length_singleton]

theorem gives_parseArray {offset : Nat} {items : List CJSON} {after : ParseBuffer}
    (room : depth < nestingLimit) (opens : content[offset]? = some 91)
    (body : Gives (parseBody content 93 (parseElement content value)) { offset, depth := depth + 1 }
      items after) :
    Gives (parseArray content value) { offset, depth } (.array items) after := by
  refine (gives_enter room).bind ((gives_atOffset opens).bind ?_)
  exact (gives_guard rfl).bind (body.map CJSON.array)

theorem gives_parseObject {offset : Nat} {members : List (CString × CJSON)} {after : ParseBuffer}
    (room : depth < nestingLimit) (opens : content[offset]? = some 123)
    (body : Gives (parseBody content 125 (parseMember content value)) { offset, depth := depth + 1 }
      members after) :
    Gives (parseObject content value) { offset, depth } (.object members) after := by
  refine (gives_enter room).bind ((gives_peek _).bind ?_)
  exact (gives_guard opens).bind (body.map CJSON.object)

/-- A value is read when its children are. -/
theorem reads_children (terminated : Terminated content) (room : depth < nestingLimit)
    (starts : AllStart kind) (reads : ReadsAll content (depth + 1) value kind) :
    ReadsAll content depth (parseLayer content value) (LayerText kind) := by
  intro text tree tail spelled stop
  cases spelled with
  | scalar plain => exact reads_scalar terminated text tree tail plain stop
  | emptyArray blank =>
      refine reads_layer rfl (by decide) (reads_selected rfl rfl fun offset there => ?_)
      obtain ⟨opens, spelled⟩ := bracketed there
      rw [length_bracketed]
      exact gives_parseArray room opens (reads_emptyBody blank (.inl rfl) offset spelled)
  | array inner =>
      refine reads_layer rfl (by decide) (reads_selected rfl rfl fun offset there => ?_)
      obtain ⟨opens, spelled⟩ := bracketed there
      rw [length_bracketed]
      exact gives_parseArray room opens (reads_parseBody (strips_element starts)
        (fun _ _ _ element ends => reads_element starts reads element ends) inner (.inl rfl) offset
        spelled)
  | emptyObject blank =>
      refine reads_layer rfl (by decide) (reads_selected rfl rfl fun offset there => ?_)
      obtain ⟨opens, spelled⟩ := bracketed there
      rw [length_bracketed]
      exact gives_parseObject room opens (reads_emptyBody blank (.inr rfl) offset spelled)
  | object inner =>
      refine reads_layer rfl (by decide) (reads_selected rfl rfl fun offset there => ?_)
      obtain ⟨opens, spelled⟩ := bracketed there
      rw [length_bracketed]
      exact gives_parseObject room opens (reads_parseBody strips_member
        (fun _ _ _ member ends => reads_member terminated starts reads member ends) inner (.inr rfl)
        offset spelled)

end Layers

/-- A value is read by as many calls as it is nested, where the nesting limit allows it. -/
theorem reads_value (terminated : Terminated content) {nesting bound : Nat} (enough : nesting < bound)
    (room : depth + nesting ≤ nestingLimit) :
    ReadsAll content depth (parseValue content bound) (ValueText nesting) := by
  induction nesting generalizing bound depth with
  | zero =>
      obtain ⟨bound, rfl⟩ : ∃ rest, bound = rest + 1 := ⟨bound - 1, by omega⟩
      exact reads_scalar terminated
  | succ nesting ih =>
      obtain ⟨bound, rfl⟩ : ∃ rest, bound = rest + 1 := ⟨bound - 1, by omega⟩
      refine reads_children terminated (by omega) (fun _ _ value => ValueText.starts value) ?_
      exact ih (by omega) (by omega)

/-! ## The whole text -/

/-- A byte order mark is left out, and nothing else is. -/
theorem gives_skipUtf8Bom {marked rest : List UInt8} {first : UInt8}
    (mark : marked = [] ∨ marked = [0xEF, 0xBB, 0xBF]) (other : first ≠ 0xEF) (long : 1 ≤ rest.length)
    (there : content = marked ++ first :: rest) :
    Gives (skipUtf8Bom content) { offset := 0, depth } () { offset := marked.length, depth } := by
  refine gives_get.bind ?_
  rcases mark with rfl | rfl
  · split_ifs
    · have missed : (content.drop 0).take [0xEF, 0xBB, 0xBF].length ≠ [0xEF, 0xBB, 0xBF] := by
        rw [there]
        exact fun same => other (List.cons.inj same).1
      have starts : startsWith content { offset := 0, depth } [0xEF, 0xBB, 0xBF] = .ok false := by
        rw [startsWith_eq _ (by simp)]
        exact congrArg Except.ok (decide_eq_false missed)
      exact (gives_lift starts).bind gives_pure
    · exact gives_pure
  · have found : (content.drop 0).take [0xEF, 0xBB, 0xBF].length = [0xEF, 0xBB, 0xBF] := by
      rw [there]
      rfl
    have access : canAccess content { offset := 0, depth } 4 = true := by
      rw [canAccess, decide_eq_true_eq, there]
      simp only [List.length_append, List.length_cons, List.length_nil]
      omega
    rw [if_pos access]
    have starts : startsWith content { offset := 0, depth } [0xEF, 0xBB, 0xBF] = .ok true := by
      rw [startsWith_eq _ (by simp)]
      exact congrArg Except.ok (decide_eq_true found)
    exact (gives_lift starts).bind gives_modify

/-- **Every JSON text is read as its tree.** The text may have a byte order mark and white
space in front of it; what is behind it must not go on as a number. -/
theorem parse_text {marked before text tail : CString} {tree : CJSON}
    (mark : marked = [] ∨ marked = [0xEF, 0xBB, 0xBF]) (front : Blank before)
    (value : ValueText nestingLimit text tree)
    (stop : ∀ byte ∈ tail.head?, isNumberByte byte = false) :
    parse (marked ++ (before ++ (text ++ tail))) = some tree := by
  have terminated : Terminated (marked ++ (before ++ (text ++ tail)) ++ [0]) := List.getLast?_concat
  obtain ⟨first, rest, rfl, starts⟩ := value.starts
  have visible := starts.visible
  have stopNul : ∀ byte ∈ (tail ++ [0]).head?, isNumberByte byte = false := by
    cases tail with
    | nil =>
        intro byte head
        cases head
        rfl
    | cons byte tail => exact stop
  have spelled : marked ++ (before ++ (first :: rest ++ tail)) ++ [0] =
      marked ++ (before ++ first :: (rest ++ (tail ++ [0]))) := by
    simp only [List.append_assoc, List.cons_append]
  -- the byte in front of which the mark may stand
  obtain ⟨byte, behind, same, other, long⟩ : ∃ byte behind,
      before ++ first :: (rest ++ (tail ++ [0])) = byte :: behind ∧ byte ≠ 0xEF ∧
        1 ≤ behind.length := by
    cases before with
    | nil =>
        refine ⟨first, _, rfl, visible.2.2.2, ?_⟩
        rw [List.length_append, List.length_append, List.length_singleton]
        omega
    | cons byte before =>
        refine ⟨byte, before ++ first :: (rest ++ (tail ++ [0])), rfl, ?_, ?_⟩
        · rintro rfl
          exact absurd (front 0xEF List.mem_cons_self).2 (by decide)
        · rw [List.length_append, List.length_cons]
          omega
  generalize contentIs : marked ++ (before ++ (first :: rest ++ tail)) ++ [0] = content at *
  have skipsMark : Gives (skipUtf8Bom content) { offset := 0, depth := 0 } ()
      { offset := marked.length, depth := 0 } :=
    gives_skipUtf8Bom mark other long (spelled.trans (by rw [same]))
  have atBlank : content.drop marked.length = before ++ first :: (rest ++ (tail ++ [0])) := by
    rw [spelled, List.drop_left]
  have atText : content.drop (marked.length + before.length) = first :: rest ++ (tail ++ [0]) :=
    drop_behind before atBlank
  have skipsBlank : Gives (bufferSkipWhitespace content) { offset := marked.length, depth := 0 } ()
      { offset := marked.length + before.length, depth := 0 } := reads_skip front visible.1 _ atBlank
  have reads : ReadsAll content 0 (parseValue content (nestingLimit + 1)) (ValueText nestingLimit) :=
    reads_value terminated (Nat.lt_succ_self nestingLimit) (Nat.zero_add _).le
  have run : runParse (marked ++ (before ++ (first :: rest ++ tail))) =
      .ok (some tree, { offset := marked.length + before.length + (first :: rest).length, depth := 0 }) := by
    rw [runParse, contentIs]
    exact skipsMark.bind (skipsBlank.bind (reads _ tree _ value stopNul _ atText))
  rw [parse, run]

theorem valueText_list : ValueText nestingLimit
    (cstr "[\"\\u00e9\", \x7b\"a\":true\x7d]")
    (.array [.string [0xC3, 0xA9], .object [(cstr "a", .bool true)]]) := by
  have nothing : Blank [] := by simp [Blank]
  have space : Blank [32] := by simp [Blank]
  have letter : StringBody (92 :: 117 :: ([48, 48, 101, 57] ++ []))
      (String.utf8EncodeChar 'é' ++ []) :=
    .unit (HexDigits.mk rfl rfl rfl rfl : HexDigits [48, 48, 101, 57] (0 * 4096 + 0 * 256 + 14 * 16 + 9))
      .nil
  have name : StringBody [97] [97] := .byte (by decide) (by decide) .nil
  have string : ElementText (ValueText 999)
      ([] ++ (34 :: (92 :: 117 :: ([48, 48, 101, 57] ++ []) ++ [34]) ++ []))
      (.string (cutAtNul (String.utf8EncodeChar 'é' ++ []))) :=
    .mk nothing (LayerText.scalar (.string letter)) nothing
  have member : MemberText (ValueText 998)
      ([] ++ 34 :: ([97] ++ 34 :: ([] ++ 58 :: ([] ++ (cstr "true" ++ [])))))
      (cutAtNul [97], .bool true) :=
    .mk nothing name nothing (.mk nothing (LayerText.scalar .true) nothing)
  exact LayerText.array (.more string (.one (.mk space (LayerText.object (.one member)) nothing)))

theorem parse_text_list :
    parse ([0xEF, 0xBB, 0xBF] ++ ([32] ++ (cstr "[\"\\u00e9\", \x7b\"a\":true\x7d]" ++ [10]))) =
      some (.array [.string [0xC3, 0xA9], .object [(cstr "a", .bool true)]]) :=
  parse_text (.inr rfl) (by simp [Blank]) valueText_list (by simp [isNumberByte, isDigit])

/-- A text stands for one tree only. -/
theorem ValueText.unique {text : CString} {first second : CJSON}
    (one : ValueText nestingLimit text first) (other : ValueText nestingLimit text second) :
    first = second := by
  have nothing : Blank [] := by simp [Blank]
  have stop : ∀ byte ∈ ([] : CString).head?, isNumberByte byte = false := by simp
  have reads := parse_text (.inl rfl) nothing one stop
  rw [parse_text (.inl rfl) nothing other stop] at reads
  exact (Option.some.inj reads).symm

/-! ## Texts in a file -/

theorem nul_not_mem_append {front rest : CString} (one : 0 ∉ front) (two : 0 ∉ rest) :
    0 ∉ front ++ rest := fun member => (List.mem_append.mp member).elim one two

theorem nul_not_mem_cons {byte : UInt8} {rest : CString} (visible : byte ≠ 0) (others : 0 ∉ rest) :
    0 ∉ byte :: rest :=
  fun member => (List.mem_cons.mp member).elim (fun same => visible same.symm) others

theorem Blank.nul_not_mem {text : CString} (blank : Blank text) : 0 ∉ text :=
  fun member => (blank 0 member).1 rfl

theorem HexDigits.nul_not_mem {digits : CString} {code : Nat} (spells : HexDigits digits code) :
    0 ∉ digits := by
  have digit {byte : UInt8} {value : Nat} (known : hexDigit byte = some value) : byte ≠ 0 := by
    rintro rfl
    exact nomatch known
  cases spells with
  | mk one two three four =>
      exact nul_not_mem_cons (digit one) (nul_not_mem_cons (digit two)
        (nul_not_mem_cons (digit three) (nul_not_mem_cons (digit four) List.not_mem_nil)))

theorem StringBody.nul_not_mem {body bytes : CString} (spells : StringBody body bytes) : 0 ∉ body := by
  have escape (rest : CString) (others : 0 ∉ rest) : 0 ∉ 92 :: 117 :: rest :=
    nul_not_mem_cons (by decide) (nul_not_mem_cons (by decide) others)
  induction spells with
  | nil => exact List.not_mem_nil
  | byte visible _ _ ih => exact nul_not_mem_cons visible ih
  | escape known _ ih =>
      refine nul_not_mem_cons (by decide) (nul_not_mem_cons ?_ ih)
      rintro rfl
      exact nomatch known
  | unit spells _ ih => exact escape _ (nul_not_mem_append spells.nul_not_mem ih)
  | pair _ first second _ ih =>
      exact escape _ (nul_not_mem_append first.nul_not_mem
        (escape _ (nul_not_mem_append second.nul_not_mem ih)))

theorem ScalarText.nul_not_mem {text : CString} {tree : CJSON} (plain : ScalarText text tree) :
    0 ∉ text := by
  cases plain with
  | null => decide
  | false => decide
  | true => decide
  | number spells _ => exact fun member => nomatch spells.bytes 0 member
  | string spells =>
      exact nul_not_mem_cons (by decide) (nul_not_mem_append spells.nul_not_mem (by decide))

section Layers

variable {kind : CString → CJSON → Prop} {text : CString} {tree : CJSON}

theorem ItemsText.nul_not_mem {α : Type} {item : CString → α → Prop} {values : List α}
    (each : ∀ text value, item text value → 0 ∉ text) (items : ItemsText item text values) :
    0 ∉ text := by
  induction items with
  | one only => exact each _ _ only
  | more first _ ih => exact nul_not_mem_append (each _ _ first) (nul_not_mem_cons (by decide) ih)

theorem ElementText.nul_not_mem (each : ∀ text tree, kind text tree → 0 ∉ text)
    (element : ElementText kind text tree) : 0 ∉ text := by
  cases element with
  | mk front inner back =>
      exact nul_not_mem_append front.nul_not_mem
        (nul_not_mem_append (each _ _ inner) back.nul_not_mem)

theorem MemberText.nul_not_mem {member : CString × CJSON} (each : ∀ text tree, kind text tree → 0 ∉ text)
    (spelled : MemberText kind text member) : 0 ∉ text := by
  cases spelled with
  | mk front spells middle inner =>
      refine nul_not_mem_append front.nul_not_mem (nul_not_mem_cons (by decide) ?_)
      refine nul_not_mem_append spells.nul_not_mem (nul_not_mem_cons (by decide) ?_)
      exact nul_not_mem_append middle.nul_not_mem
        (nul_not_mem_cons (by decide) (inner.nul_not_mem each))

theorem LayerText.nul_not_mem (each : ∀ text tree, kind text tree → 0 ∉ text)
    (spelled : LayerText kind text tree) : 0 ∉ text := by
  cases spelled with
  | scalar plain => exact plain.nul_not_mem
  | emptyArray blank =>
      exact nul_not_mem_cons (by decide) (nul_not_mem_append blank.nul_not_mem (by decide))
  | array inner =>
      exact nul_not_mem_cons (by decide) (nul_not_mem_append
        (inner.nul_not_mem fun _ _ element => element.nul_not_mem each) (by decide))
  | emptyObject blank =>
      exact nul_not_mem_cons (by decide) (nul_not_mem_append blank.nul_not_mem (by decide))
  | object inner =>
      exact nul_not_mem_cons (by decide) (nul_not_mem_append
        (inner.nul_not_mem fun _ _ member => member.nul_not_mem each) (by decide))

end Layers

/-- A text has no NUL. -/
theorem ValueText.nul_not_mem {nesting : Nat} {text : CString} {tree : CJSON}
    (value : ValueText nesting text tree) : 0 ∉ text := by
  induction nesting generalizing text tree with
  | zero => exact ScalarText.nul_not_mem value
  | succ nesting ih => exact LayerText.nul_not_mem (fun _ _ => ih) value

end CJSON

end DnsServer
