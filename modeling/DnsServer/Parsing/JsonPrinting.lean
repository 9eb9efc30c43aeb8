import DnsServer.Model.JsonPrinting
import DnsServer.Parsing.JsonGrammar

/-!
# What is printed is read back

The text of a tree is a function of the tree alone (`shownValue`). The printer writes it: it
makes no access outside its buffer and reads no byte it has not written, whatever allocations
are refused, and it returns the text unless one is refused or the text is too long
(`print_completes`).

The text is one of the grammar (`spells_value`), so the parser reads it as the tree
(`parse_print`).
-/

set_option autoImplicit false

namespace DnsServer

namespace CJSON

open Libc Scanner

/-! ## The text of a tree -/

/-- The text of a byte in a string. -/
def shownByte (byte : UInt8) : CString :=
  if 31 < byte ∧ byte ≠ 34 ∧ byte ≠ 92 then [byte]
  else
    match escapeLetter byte with
    | some letter => [92, letter]
    | none => 92 :: 117 :: hex4 byte

/-- The text of a string. -/
def shownString (text : CString) : CString := 34 :: (text.flatMap shownByte ++ [34])

section Shown

variable (format : Bool)

mutual

/-- The text of a value at a depth. -/
def shownValue (depth : Nat) : CJSON → CString
  | .null => cstr "null"
  | .bool false => cstr "false"
  | .bool true => cstr "true"
  | .number valueint => decimal valueint
  | .string text => shownString text
  | .array items => 91 :: (shownElements (depth + 1) items ++ [93])
  | .object members =>
    123 :: (formatted format [10] ++ (shownMembers (depth + 1) members ++
      (formatted format (List.replicate depth 9) ++ [125])))

/-- The text of the elements of an array. -/
def shownElements (depth : Nat) : List CJSON → CString
  | [] => []
  | item :: items =>
    shownValue depth item ++ ((if items.isEmpty then [] else 44 :: formatted format [32]) ++
      shownElements depth items)

/-- The text of the members of an object. -/
def shownMembers (depth : Nat) : List (CString × CJSON) → CString
  | [] => []
  | (name, value) :: members =>
    formatted format (List.replicate depth 9) ++ (shownString name ++
      (58 :: formatted format [9] ++ (shownValue depth value ++
        (((if members.isEmpty then [] else [44]) ++ formatted format [10]) ++
          shownMembers depth members))))

end

end Shown

/-! ## The buffer -/

/-- What holds between two parts: the buffer has what is printed so far in front of its
offset, with room behind it. Refused allocations are an excuse. -/
structure Holds (excuse : Prop) (format : Bool) (depth : Nat) (front : CString)
    (buffer : PrintBuffer) : Prop where
  written : front.map some <+: buffer.content
  room : front.length < buffer.content.length
  offset_eq : buffer.offset = front.length
  format_eq : buffer.format = format
  depth_eq : buffer.depth = depth
  excused : false ∈ buffer.allocations → excuse

/-- What holds behind a part: its text is there with a NUL, and the offset is somewhere in
it. -/
structure Shows (excuse : Prop) (format : Bool) (depth : Nat) (front text : CString)
    (buffer : PrintBuffer) : Prop where
  written : (front ++ text ++ [0]).map some <+: buffer.content
  reached : ∃ done, done <+: text ∧ Holds excuse format depth (front ++ done) buffer

/-- The part prints the text behind what is printed, unless there is an excuse. A text that is
too long for `INT_MAX` is one. -/
def Prints (excuse : Prop) (format : Bool) (depth : Nat) (part : Printing Unit) (text : CString) :
    Prop :=
  ∀ (front : CString) (buffer : PrintBuffer), Holds excuse format depth front buffer →
    (intMax < front.length + text.length + 2 → excuse) →
      Completes part buffer excuse fun _ after => Holds excuse format depth (front ++ text) after

/-- The part leaves the text and a NUL behind what is printed. -/
def Leaves (excuse : Prop) (format : Bool) (depth : Nat) (part : Printing Unit) (text : CString) :
    Prop :=
  ∀ (front : CString) (buffer : PrintBuffer), Holds excuse format depth front buffer →
    (intMax < front.length + text.length + 2 → excuse) →
      Completes part buffer excuse fun _ after => Shows excuse format depth front text after

variable {excuse : Prop} {format : Bool} {depth : Nat} {front : CString} {buffer : PrintBuffer}

theorem prefix_resized {content : List (Option UInt8)} {size : Nat} (grows : content.length ≤ size) :
    content <+: resized content size := by
  rw [resized, List.take_of_length_le grows]
  exact List.prefix_append _ _

theorem length_resized (content : List (Option UInt8)) (size : Nat) :
    (resized content size).length = size := by
  rw [resized, List.length_append, List.length_take, List.length_replicate]
  omega

/-- One allocation takes one outcome. -/
theorem gives_allocate (buffer : PrintBuffer) :
    ∃ granted left, Gives allocate buffer granted { buffer with allocations := left } ∧
      (granted = false → false ∈ buffer.allocations) ∧
      (false ∈ left → false ∈ buffer.allocations) := by
  obtain ⟨content, offset, depth, format, allocations⟩ := buffer
  cases allocations with
  | nil => exact ⟨true, [], rfl, nofun, id⟩
  | cons outcome left =>
      exact ⟨outcome, left, rfl, fun refused => refused ▸ List.mem_cons_self,
        List.mem_cons_of_mem outcome⟩

/-- A refused allocation frees the buffer, another one changes its size. -/
theorem completes_reallocate (size : Nat) (excused : false ∈ buffer.allocations → excuse) :
    Completes (reallocate size) buffer excuse fun _ after =>
      after.content = resized buffer.content size ∧ after.offset = buffer.offset ∧
        after.format = buffer.format ∧ after.depth = buffer.depth ∧
        (false ∈ after.allocations → excuse) := by
  obtain ⟨granted, left, run, refused, later⟩ := gives_allocate buffer
  refine run.andThen ?_
  cases granted with
  | true => exact gives_modify.completes ⟨rfl, rfl, rfl, rfl, fun member => excused (later member)⟩
  | false => exact gives_modify.andThen (completes_failure (excused (refused rfl)))

/-- The buffer grows beyond what is needed, unless that is too much. -/
theorem newsize_cases (needed : Nat) :
    (∃ size, newsize needed = some size ∧ needed ≤ size) ∨
      newsize needed = none ∧ intMax < needed := by
  rw [newsize]
  split_ifs with large fits
  · exact .inl ⟨intMax, rfl, fits⟩
  · exact .inr ⟨rfl, Nat.lt_of_not_le fits⟩
  · exact .inl ⟨_, rfl, by omega⟩

theorem completes_ensure {needed : Nat} (holds : Holds excuse format depth front buffer)
    (large : intMax < needed + (front.length + 1) → excuse) :
    Completes (ensure needed) buffer excuse fun _ after =>
      Holds excuse format depth front after ∧
        front.length + needed + 1 ≤ after.content.length := by
  obtain ⟨written, room, offset, sameFormat, sameDepth, excused⟩ := holds
  refine gives_get.andThen ?_
  rw [offset, if_neg (by omega)]
  split_ifs with huge enough
  · exact completes_failure (large (by omega))
  · exact gives_pure.completes
      ⟨⟨written, room, offset, sameFormat, sameDepth, excused⟩, by omega⟩
  · rcases newsize_cases (needed + (front.length + 1)) with ⟨size, same, fits⟩ | ⟨same, beyond⟩
    · rw [same]
      refine (completes_reallocate size excused).imp fun _ after grown => ?_
      obtain ⟨content, sameOffset, formats, depths, later⟩ := grown
      have long : after.content.length = size := by rw [content, length_resized]
      have grows : buffer.content <+: after.content := by
        rw [content]
        exact prefix_resized (by omega)
      exact ⟨⟨written.trans grows, by omega, sameOffset.trans offset, formats.trans sameFormat,
        depths.trans sameDepth, later⟩, by omega⟩
    · rw [same]
      exact completes_failure (large beyond)

theorem gives_putAt {position : Nat} {bytes : List UInt8}
    (room : position + bytes.length ≤ buffer.content.length) :
    Gives (putAt position bytes) buffer ()
      { buffer with content := overwritten buffer.content position bytes } := by
  refine gives_get.bind ?_
  rw [if_pos room]
  exact gives_modify

/-- A write keeps what is in front of it. -/
theorem prefix_overwritten {content : List (Option UInt8)} {front : CString} (bytes : List UInt8)
    (written : front.map some <+: content) :
    (front ++ bytes).map some <+: overwritten content front.length bytes := by
  have kept : content.take front.length = front.map some := by
    have := List.prefix_iff_eq_take.mp written
    rw [List.length_map] at this
    exact this.symm
  rw [overwritten, kept, List.map_append]
  exact List.prefix_append _ _

theorem length_overwritten {content : List (Option UInt8)} {position : Nat} {bytes : List UInt8}
    (room : position + bytes.length ≤ content.length) :
    (overwritten content position bytes).length = content.length := by
  simp only [overwritten, List.length_append, List.length_take, List.length_map, List.length_drop]
  omega

/-- Part of the bytes that are written is in front of the offset behind it. -/
theorem completes_emit {needed : Nat} (text tail : CString)
    (holds : Holds excuse format depth front buffer)
    (enough : text.length + tail.length ≤ needed + 1) (short : text.length ≤ needed)
    (large : intMax < needed + (front.length + 1) → excuse) :
    Completes (emit needed (text ++ tail) text.length) buffer excuse fun _ after =>
      Holds excuse format depth (front ++ text) after ∧
        (front ++ (text ++ tail)).map some <+: after.content := by
  refine (completes_ensure holds large).bind fun _ grown kept => ?_
  obtain ⟨⟨written, room, offset, sameFormat, sameDepth, excused⟩, space⟩ := kept
  have fits : front.length + (text ++ tail).length ≤ grown.content.length := by
    rw [List.length_append]
    omega
  refine gives_get.andThen ?_
  rw [offset]
  refine (gives_putAt fits).andThen (gives_modify.completes ?_)
  have whole := prefix_overwritten (text ++ tail) written
  refine ⟨⟨?_, ?_, ?_, sameFormat, sameDepth, excused⟩, whole⟩
  · refine List.IsPrefix.trans ?_ whole
    exact ⟨tail.map some, by simp⟩
  · show _ < (overwritten _ _ _).length
    rw [length_overwritten fits, List.length_append]
    omega
  · show grown.offset + _ = _
    rw [offset, List.length_append]

/-- A part that ends with the text it writes and a NUL. -/
theorem Holds.shows {done : CString} (left : CString)
    (holds : Holds excuse format depth (front ++ done) buffer)
    (written : (front ++ (done ++ left) ++ [0]).map some <+: buffer.content) :
    Shows excuse format depth front (done ++ left) buffer :=
  ⟨written, done, List.prefix_append _ _, holds⟩

theorem strlen_eq {text : CString} (visible : 0 ∉ text) (rest : List (Option UInt8)) (index : Nat) :
    strlen ((text ++ [0]).map some ++ rest) index = .ok text.length := by
  induction text generalizing index with
  | nil => rfl
  | cons byte text ih =>
      rw [List.mem_cons, not_or] at visible
      have step := ih visible.2 (index + 1)
      rw [List.cons_append, List.map_cons, List.cons_append, strlen, if_neg (Ne.symm visible.1), step]
      rfl

/-- `update_offset` finds the end of the text. -/
theorem completes_updateOffset {text : CString} (shows_ : Shows excuse format depth front text buffer)
    (visible : 0 ∉ text) :
    Completes updateOffset buffer excuse fun _ after =>
      Holds excuse format depth (front ++ text) after ∧
        (front ++ text ++ [0]).map some <+: after.content := by
  obtain ⟨written, done, ⟨left, rfl⟩, ⟨_, _, offset, sameFormat, sameDepth, excused⟩⟩ := shows_
  obtain ⟨rest, whole⟩ := written
  have long : (front ++ (done ++ left)).length < buffer.content.length := by
    rw [← whole]
    simp
  have filled : buffer.content.isEmpty = false := by
    rw [← whole]
    simp
  have behind : buffer.content.drop buffer.offset = (left ++ [0]).map some ++ rest := by
    have split : (front ++ (done ++ left) ++ [0]).map some ++ rest =
        (front ++ done).map some ++ ((left ++ [0]).map some ++ rest) := by simp
    rw [← whole, split, offset, ← List.length_map (f := some), List.drop_left]
  have hidden : 0 ∉ left := fun member => visible (List.mem_append_right done member)
  refine gives_get.andThen ?_
  rw [filled, behind]
  refine (gives_lift (strlen_eq hidden rest _)).andThen (gives_modify.completes ⟨?_, rest, whole⟩)
  refine ⟨?_, long, ?_, sameFormat, sameDepth, excused⟩
  · exact ⟨some 0 :: rest, by simp [← whole]⟩
  · show buffer.offset + left.length = _
    rw [offset]
    simp only [List.length_append]
    omega

/-! ## Scalars -/

theorem leaves_literal (literal : CString) :
    Leaves excuse format depth (printLiteral literal) literal := by
  intro front buffer holds large
  have emitted := completes_emit [] (literal ++ [0]) holds
    (by simp : _ ≤ literal.length + 1 + 1) (Nat.zero_le _) fun beyond => large (by omega)
  exact emitted.imp fun _ after done => done.1.shows literal (by simpa using done.2)

/-- An `int` has its decimal digits in the buffer for a number. -/
theorem length_decimal_le {valueint : Int} (range : -2 ^ 31 ≤ valueint ∧ valueint ≤ 2 ^ 31 - 1) :
    (decimal valueint).length ≤ 25 := by
  have digits {n : Nat} (small : n < 10 ^ 20) : (decimalNat n).length ≤ 20 :=
    length_decimalNat_le (by decide) small
  cases valueint with
  | ofNat n =>
      have small : (n : Int) ≤ 2 ^ 31 - 1 := range.2
      exact (digits (by omega)).trans (by decide)
  | negSucc n =>
      exact Nat.succ_le_succ ((digits (by omega)).trans (by decide))

theorem leaves_number {valueint : Int} (range : -2 ^ 31 ≤ valueint ∧ valueint ≤ 2 ^ 31 - 1) :
    Leaves excuse format depth (printNumber valueint) (decimal valueint) := by
  intro front buffer holds large
  refine (gives_guard (length_decimal_le range)).andThen ?_
  have emitted := completes_emit (decimal valueint) [0] holds
    (by simp : _ ≤ (decimal valueint).length + 1 + 1) (Nat.le_succ _) fun beyond => large (by omega)
  refine emitted.imp fun _ after done => ?_
  have whole := done.1.shows [] (by simpa using done.2)
  rwa [List.append_nil] at whole

/-- The first pass over a string counts what the second one writes. -/
theorem length_shownByte (byte : UInt8) : (shownByte byte).length = 1 + escapeCharacters byte := by
  have all : ∀ n < 256, (shownByte (UInt8.ofNat n)).length = 1 + escapeCharacters (UInt8.ofNat n) := by
    decide +kernel
  have own := all byte.toNat (UInt8.toNat_lt byte)
  rwa [UInt8.ofNat_toNat] at own

theorem length_shownBytes (input : CString) :
    (input.flatMap shownByte).length = input.length + (input.map escapeCharacters).sum := by
  induction input with
  | nil => rfl
  | cons byte input ih =>
      rw [List.flatMap_cons, List.length_append, ih, length_shownByte, List.length_cons,
        List.map_cons, List.sum_cons]
      omega

/-- A byte that needs no further character is copied. -/
theorem shownByte_plain {byte : UInt8} (plain : escapeCharacters byte = 0) :
    shownByte byte = [byte] := by
  rw [shownByte]
  split_ifs with copied
  · rfl
  · have long := length_shownByte byte
    rw [shownByte, if_neg copied, plain] at long
    split at long <;> exact absurd long (by simp [hex4])

theorem shownBytes_plain {input : CString} (plain : (input.map escapeCharacters).sum = 0) :
    input.flatMap shownByte = input := by
  induction input with
  | nil => rfl
  | cons byte input ih =>
      rw [List.map_cons, List.sum_cons] at plain
      rw [List.flatMap_cons, shownByte_plain (by omega), ih (by omega)]
      rfl

/-- The part writes the text to the position, where everything in front of it is written and
there is room for one byte more. -/
def Fills (part : Printing Unit) (position : Nat) (text : CString) : Prop :=
  ∀ (front : CString) (buffer : PrintBuffer), front.length = position →
    front.map some <+: buffer.content → position + text.length < buffer.content.length →
      ∃ content, Gives part buffer () { buffer with content } ∧
        (front ++ text).map some <+: content ∧ content.length = buffer.content.length

theorem fills_nothing (position : Nat) : Fills (pure ()) position [] :=
  fun front buffer _ written _ => ⟨buffer.content, gives_pure, by simpa using written, rfl⟩

theorem Fills.bind {part next : Printing Unit} {position : Nat} {text more : CString}
    (first : Fills part position text) (second : Fills next (position + text.length) more) :
    Fills (do part; next) position (text ++ more) := by
  intro front buffer here written room
  rw [List.length_append] at room
  obtain ⟨middle, run, done, same⟩ := first front buffer here written (by omega)
  obtain ⟨content, rerun, whole, long⟩ := second (front ++ text) { buffer with content := middle }
    (by rw [List.length_append, here]) done (by show _ < middle.length; omega)
  exact ⟨content, run.bind rerun, by rwa [List.append_assoc] at whole, long.trans same⟩

/-- A write of the text, with at most one byte behind it. -/
theorem fills_putAt (position : Nat) (text behind : CString) (one : behind.length ≤ 1) :
    Fills (putAt position (text ++ behind)) position text := by
  intro front buffer here written room
  have fits : position + (text ++ behind).length ≤ buffer.content.length := by
    rw [List.length_append]
    omega
  refine ⟨_, gives_putAt fits, ?_, length_overwritten fits⟩
  have whole := prefix_overwritten (text ++ behind) written
  rw [here, ← List.append_assoc, List.map_append] at whole
  exact (List.prefix_append _ _).trans whole

theorem fills_bytes (position : Nat) (text : CString) : Fills (putAt position text) position text := by
  have writes := fills_putAt position text [] (Nat.zero_le 1)
  rwa [List.append_nil] at writes

/-- The loop writes the escaped string. The NUL of `sprintf` is the one byte more. -/
theorem fills_escapeLoop (input : CString) (position : Nat) :
    Fills (escapeLoop input position) position (input.flatMap shownByte) := by
  induction input generalizing position with
  | nil => exact fills_nothing position
  | cons byte input ih =>
      rw [List.flatMap_cons, escapeLoop, shownByte]
      split_ifs with plain
      · exact (fills_bytes position [byte]).bind (ih _)
      · cases escapeLetter byte with
        | some letter =>
            have letters := (fills_bytes (position + 1) [letter]).bind (ih (position + 2))
            exact (fills_bytes position [92]).bind letters
        | none =>
            have unicode :=
              (fills_putAt (position + 1) (117 :: hex4 byte) [0] le_rfl).bind (ih (position + 6))
            exact (fills_bytes position [92]).bind unicode

/-- A string that needs escapes. The closing quotation mark is where the first pass says. -/
theorem fills_string (input : CString) (position : Nat) :
    Fills (do
        putAt position [34]
        escapeLoop input (position + 1)
        putAt (position + (input.length + (input.map escapeCharacters).sum) + 1) [34, 0])
      position (shownString input ++ [0]) := by
  have last : position + (input.length + (input.map escapeCharacters).sum) + 1 =
      position + 1 + (input.flatMap shownByte).length := by
    rw [length_shownBytes]
    omega
  rw [last]
  have closing := fills_bytes (position + 1 + (input.flatMap shownByte).length) [34, 0]
  have whole := (fills_bytes position [34]).bind ((fills_escapeLoop input (position + 1)).bind closing)
  simpa [shownString] using whole

theorem length_shownString (input : CString) :
    (shownString input).length = input.length + (input.map escapeCharacters).sum + 2 := by
  rw [shownString, List.length_cons, List.length_append, length_shownBytes, List.length_singleton]

theorem leaves_string (input : CString) :
    Leaves excuse format depth (printStringPtr input) (shownString input) := by
  intro front buffer holds large
  rw [length_shownString] at large
  refine (completes_ensure holds fun beyond => large (by omega)).bind fun _ grown kept => ?_
  obtain ⟨⟨written, room, offset, sameFormat, sameDepth, excused⟩, space⟩ := kept
  refine gives_get.andThen ?_
  -- either way the whole string is written, with its NUL
  have fills : Fills (if (input.map escapeCharacters).sum = 0 then
        putAt grown.offset (34 :: (input ++ [34, 0]))
      else do
        putAt grown.offset [34]
        escapeLoop input (grown.offset + 1)
        putAt (grown.offset + (input.length + (input.map escapeCharacters).sum) + 1) [34, 0])
      grown.offset (shownString input ++ [0]) := by
    split_ifs with plain
    · have copied := fills_bytes grown.offset (34 :: (input ++ [34, 0]))
      rwa [shownString, shownBytes_plain plain, List.cons_append, List.append_assoc]
    · exact fills_string input grown.offset
  obtain ⟨content, run, whole, long⟩ := fills front grown offset.symm written (by
    rw [List.length_append, length_shownString, List.length_singleton]
    omega)
  refine run.completes ⟨by rwa [List.append_assoc], [], List.nil_prefix, ?_⟩
  rw [List.append_nil]
  refine ⟨?_, by rw [long]; exact room, offset, sameFormat, sameDepth, excused⟩
  rw [List.map_append] at whole
  exact (List.prefix_append _ _).trans whole

/-! ## The text is one of the grammar -/

/-- The trees that are printed as they are: `int` numbers, strings without a NUL, and
nesting at most so deep. -/
inductive Writable : Nat → CJSON → Prop where
  | null {nesting : Nat} : Writable nesting .null
  | bool {nesting : Nat} (value : Bool) : Writable nesting (.bool value)
  | number {nesting : Nat} {valueint : Int} (range : -2 ^ 31 ≤ valueint ∧ valueint ≤ 2 ^ 31 - 1) :
      Writable nesting (.number valueint)
  | string {nesting : Nat} {valuestring : CString} (visible : 0 ∉ valuestring) :
      Writable nesting (.string valuestring)
  | array {nesting : Nat} {items : List CJSON} (inner : ∀ item ∈ items, Writable nesting item) :
      Writable (nesting + 1) (.array items)
  | object {nesting : Nat} {members : List (CString × CJSON)}
      (names : ∀ member ∈ members, 0 ∉ member.1)
      (inner : ∀ member ∈ members, Writable nesting member.2) :
      Writable (nesting + 1) (.object members)

theorem ScalarText.value {text : CString} {tree : CJSON} (plain : ScalarText text tree)
    (nesting : Nat) : ValueText nesting text tree := by
  cases nesting with
  | zero => exact plain
  | succ nesting => exact .scalar plain

/-- The digits of an `int` are a number whose `valueint` is it. -/
theorem spells_decimal {valueint : Int} (range : -2 ^ 31 ≤ valueint ∧ valueint ≤ 2 ^ 31 - 1) :
    ScalarText (decimal valueint) (.number valueint) := by
  have spells (negative : Bool) (n : Nat) :
      NumberText ((if negative then [45] else []) ++ decimalNat n)
        { negative, digits := n, exponent := 0 } := by
    have number : NumberText ((if negative then [45] else []) ++ decimalNat n ++ [] ++ []) _ :=
      .mk (decimalNat_ne_nil n) isDigit_of_mem_decimalNat .none .none
    rw [List.append_nil, List.append_nil, List.append_nil, numeral_decimalNat] at number
    exact number
  have same : integer valueint = .number valueint := by
    rw [integer]
    congr 1
    omega
  have short := (length_decimal_le range).trans (by decide : 25 ≤ 63)
  cases valueint with
  | ofNat n =>
      have scalar := ScalarText.number (spells false n) short
      rw [valueint_integer] at scalar
      exact same ▸ scalar
  | negSucc n =>
      have scalar := ScalarText.number (spells true (n + 1)) short
      rw [valueint_integer] at scalar
      exact same ▸ scalar

/-- The escape of a control character is its code unit. -/
theorem spells_control {byte : UInt8} (control : byte.toNat < 32) {body bytes : CString}
    (tail : StringBody body bytes) :
    StringBody (92 :: 117 :: (hex4 byte ++ body)) (byte :: bytes) := by
  have digit : ∀ n < 16, hexDigit (hexLetter n) = some n := by decide
  have encoded : ∀ n < 32, String.utf8EncodeChar (Char.ofNat n) = [UInt8.ofNat n] := by decide
  have numbered : ∀ n < 32, (Char.ofNat n).toNat = n := by decide
  have spells : HexDigits (hex4 byte) (Char.ofNat byte.toNat).toNat := by
    have digits : HexDigits (hex4 byte)
        (0 * 4096 + 0 * 256 + byte.toNat / 16 * 16 + byte.toNat % 16) :=
      .mk rfl rfl (digit (byte.toNat / 16) (by omega)) (digit (byte.toNat % 16) (by omega))
    have value : 0 * 4096 + 0 * 256 + byte.toNat / 16 * 16 + byte.toNat % 16 = byte.toNat := by omega
    rw [numbered _ control]
    rwa [value] at digits
  have unit := StringBody.unit spells tail
  rwa [encoded _ control, UInt8.ofNat_toNat] at unit

/-- What is written for a byte spells it. -/
theorem spells_byte {byte : UInt8} {body bytes : CString} (visible : byte ≠ 0)
    (tail : StringBody body bytes) : StringBody (shownByte byte ++ body) (byte :: bytes) := by
  rw [shownByte]
  split_ifs with plain
  · exact .byte visible plain.2 tail
  · have letters : ∀ n < 256, ∀ letter, escapeLetter (UInt8.ofNat n) = some letter →
        escaped letter = some (UInt8.ofNat n) := by decide +kernel
    have marks : ∀ n < 256, escapeLetter (UInt8.ofNat n) = none →
        UInt8.ofNat n ≠ 34 ∧ UInt8.ofNat n ≠ 92 := by decide +kernel
    have number := UInt8.toNat_lt byte
    have same : UInt8.ofNat byte.toNat = byte := UInt8.ofNat_toNat
    cases escapes : escapeLetter byte with
    | some letter =>
        have own := letters byte.toNat number letter
        rw [same] at own
        exact .escape (own escapes) tail
    | none =>
        have own := marks byte.toNat number
        rw [same] at own
        have low : ¬31 < byte := fun high => plain ⟨high, own escapes⟩
        have limit : (31 : UInt8).toNat = 31 := rfl
        rw [UInt8.lt_iff_toNat_lt] at low
        exact spells_control (by omega) tail

theorem spells_bytes {text : CString} (visible : 0 ∉ text) :
    StringBody (text.flatMap shownByte) text := by
  induction text with
  | nil => exact .nil
  | cons byte text ih =>
      rw [List.mem_cons, not_or] at visible
      exact spells_byte (Ne.symm visible.1) (ih visible.2)

theorem blank_formatted {format : Bool} {blanks : CString} (blank : Blank blanks) :
    Blank (formatted format blanks) := by
  cases format with
  | false => exact fun _ member => nomatch member
  | true => exact blank

theorem blank_tabs (count : Nat) : Blank (List.replicate count 9) := by
  intro byte member
  rw [List.eq_of_mem_replicate member]
  decide

theorem Blank.append {front rest : CString} (one : Blank front) (two : Blank rest) :
    Blank (front ++ rest) := fun byte member =>
  (List.mem_append.mp member).elim (one byte) (two byte)

section Layers

variable {kind : CString → CJSON → Prop} {format : Bool} {depth : Nat}

/-- The elements of an array, each with the blank behind the comma in front of it. -/
theorem spells_elements {items : List CJSON} (filled : items ≠ [])
    (each : ∀ item ∈ items, kind (shownValue format depth item) item) {before : CString}
    (front : Blank before) :
    ItemsText (ElementText kind) (before ++ shownElements format depth items) items := by
  have nothing : Blank [] := by simp [Blank]
  induction items generalizing before with
  | nil => exact absurd rfl filled
  | cons item items ih =>
      obtain ⟨own, others⟩ := List.forall_mem_cons.mp each
      have element := ElementText.mk front own nothing
      cases items with
      | nil =>
          have one := ItemsText.one element
          simpa [shownElements] using one
      | cons next items =>
          have space : Blank (formatted format [32]) := blank_formatted (by simp [Blank])
          have more := ItemsText.more element (ih (List.cons_ne_nil _ _) others space)
          rw [shownElements]
          simpa using more

/-- The members of an object, each with the white space in front of it. What is behind the
last one belongs to it. -/
theorem spells_members {members : List (CString × CJSON)} (filled : members ≠ [])
    (names : ∀ member ∈ members, 0 ∉ member.1)
    (each : ∀ member ∈ members, kind (shownValue format depth member.2) member.2)
    {before after : CString} (front : Blank before) (back : Blank after) :
    ItemsText (MemberText kind) (before ++ (shownMembers format depth members ++ after)) members := by
  have nothing : Blank [] := by simp [Blank]
  have line : Blank (formatted format [10]) := blank_formatted (by simp [Blank])
  have tab : Blank (formatted format [9]) := blank_formatted (by simp [Blank])
  have tabs : Blank (formatted format (List.replicate depth 9)) := blank_formatted (blank_tabs depth)
  induction members generalizing before with
  | nil => exact absurd rfl filled
  | cons member members ih =>
      obtain ⟨name, value⟩ := member
      obtain ⟨visible, others⟩ := List.forall_mem_cons.mp names
      obtain ⟨own, rest⟩ := List.forall_mem_cons.mp each
      have spelled (behind : CString) (blank : Blank behind) := MemberText.mk (front.append tabs)
        (spells_bytes visible) nothing (.mk tab own blank)
      rw [cutAtNul_eq_self_iff.mpr visible] at spelled
      cases members with
      | nil =>
          have one := ItemsText.one (spelled _ (line.append back))
          simpa [shownMembers, shownString] using one
      | cons next members =>
          have more := ItemsText.more (spelled _ nothing) (ih (List.cons_ne_nil _ _) others rest line)
          rw [shownMembers]
          simpa [shownString] using more

end Layers

/-- The text of a tree spells it. -/
theorem spells_value {nesting : Nat} {tree : CJSON} (writable : Writable nesting tree)
    (format : Bool) (depth : Nat) : ValueText nesting (shownValue format depth tree) tree := by
  have nothing : Blank [] := by simp [Blank]
  have line : Blank (formatted format [10]) := blank_formatted (by simp [Blank])
  induction writable generalizing depth with
  | null => exact ScalarText.null.value _
  | bool value =>
      cases value with
      | false => exact ScalarText.false.value _
      | true => exact ScalarText.true.value _
  | number range => exact (spells_decimal range).value _
  | string visible =>
      have scalar := ScalarText.string (spells_bytes visible)
      rw [cutAtNul_eq_self_iff.mpr visible] at scalar
      exact scalar.value _
  | @array nesting items _ ih =>
      rw [shownValue]
      cases items with
      | nil => exact LayerText.emptyArray nothing
      | cons item items =>
          exact .array (spells_elements (List.cons_ne_nil _ _)
            (fun item member => ih item member (depth + 1)) nothing)
  | @object nesting members names _ ih =>
      have tabs : Blank (formatted format (List.replicate depth 9)) :=
        blank_formatted (blank_tabs depth)
      rw [shownValue]
      show LayerText (ValueText nesting) _ _
      cases members with
      | nil => simpa [shownMembers] using LayerText.emptyObject (line.append tabs)
      | cons member members =>
          have filled := LayerText.object (spells_members (List.cons_ne_nil _ _) names
            (fun member inside => ih member inside (depth + 1)) line tabs)
          simpa using filled

/-! ## Printing values -/

theorem Prints.bind {part next : Printing Unit} {text more : CString}
    (first : Prints excuse format depth part text) (second : Prints excuse format depth next more) :
    Prints excuse format depth (do part; next) (text ++ more) := by
  intro front buffer holds large
  rw [List.length_append] at large
  refine (first front buffer holds fun beyond => large (by omega)).bind fun _ after held => ?_
  rw [← List.append_assoc]
  refine second _ after held fun beyond => large ?_
  rw [List.length_append] at beyond
  omega

/-- A part with `update_offset` behind it, and a further part. -/
theorem Leaves.bind {part next : Printing Unit} {text more : CString}
    (leaves : Leaves excuse format depth part text) (visible : 0 ∉ text)
    (prints : Prints excuse format depth next more) :
    Prints excuse format depth (do part; updateOffset; next) (text ++ more) := by
  intro front buffer holds large
  rw [List.length_append] at large
  refine (leaves front buffer holds fun beyond => large (by omega)).bind fun _ _ shows_ => ?_
  refine (completes_updateOffset shows_ visible).bind fun _ after held => ?_
  rw [← List.append_assoc]
  refine prints _ after held.1 fun beyond => large ?_
  rw [List.length_append] at beyond
  omega

theorem prints_nothing : Prints excuse format depth (pure ()) [] := fun front _ holds _ =>
  gives_pure.completes (by rwa [List.append_nil])

theorem prints_emit {needed : Nat} (text tail : CString)
    (enough : text.length + tail.length ≤ needed + 1) (short : text.length ≤ needed)
    (tight : needed ≤ text.length + 1) :
    Prints excuse format depth (emit needed (text ++ tail) text.length) text :=
  fun front _ holds large => (completes_emit text tail holds enough short
    fun beyond => large (by omega)).imp fun _ _ done => done.1

/-- A part that looks at the buffer. -/
theorem prints_get {part : PrintBuffer → Printing Unit} {text : CString}
    (prints : ∀ buffer : PrintBuffer, buffer.format = format → buffer.depth = depth →
      Prints excuse format depth (part buffer) text) :
    Prints excuse format depth (get >>= part) text := fun front buffer holds large =>
  gives_get.andThen (prints buffer holds.format_eq holds.depth_eq front buffer holds large)

theorem prints_comma (last : Bool) : Prints excuse format depth (printComma last)
    (if last then [] else 44 :: formatted format [32]) := by
  cases last with
  | true => exact prints_nothing
  | false =>
      refine prints_get fun buffer same _ => ?_
      rw [same]
      exact prints_emit _ [0] (by simp) (Nat.le_succ _) le_rfl

theorem prints_colon : Prints excuse format depth printColon (58 :: formatted format [9]) := by
  refine prints_get fun buffer same _ => ?_
  rw [same]
  have emitted : Prints excuse format depth _ (58 :: formatted format [9]) :=
    prints_emit _ [] (Nat.le_succ _) le_rfl (Nat.le_succ _)
  rwa [List.append_nil] at emitted

theorem prints_behind (last : Bool) : Prints excuse format depth (printBehind last)
    ((if last then [] else [44]) ++ formatted format [10]) := by
  refine prints_get fun buffer same _ => ?_
  rw [same]
  exact prints_emit _ [0] (by simp) (Nat.le_succ _) le_rfl

theorem prints_tabs :
    Prints excuse format depth printTabs (formatted format (List.replicate depth 9)) := by
  refine prints_get fun buffer same level => ?_
  rw [same, level]
  cases format with
  | false => exact prints_nothing
  | true =>
      have emitted : Prints excuse true depth _ (List.replicate depth 9) :=
        prints_emit _ [] (Nat.le_succ _) le_rfl (Nat.le_succ _)
      simpa [formatted] using emitted

/-- The opening of an array or an object, one level deeper behind it. -/
def Opens (excuse : Prop) (format : Bool) (depth : Nat) (part : Printing Unit) (text : CString) :
    Prop :=
  ∀ (front : CString) (buffer : PrintBuffer), Holds excuse format depth front buffer →
    (intMax < front.length + text.length + 2 → excuse) →
      Completes part buffer excuse fun _ after =>
        Holds excuse format (depth + 1) (front ++ text) after

/-- The closing, with the offset still in front of it. -/
def Closes (excuse : Prop) (format : Bool) (depth : Nat) (part : Printing Unit) (text : CString) :
    Prop :=
  ∀ (front : CString) (buffer : PrintBuffer), Holds excuse format (depth + 1) front buffer →
    (intMax < front.length + text.length + 2 → excuse) →
      Completes part buffer excuse fun _ after =>
        Holds excuse format depth front after ∧ (front ++ text ++ [0]).map some <+: after.content

theorem leaves_bracketed {opening inside closing : Printing Unit} {first text last : CString}
    (opens : Opens excuse format depth opening first)
    (prints : Prints excuse format (depth + 1) inside text)
    (closes : Closes excuse format depth closing last) :
    Leaves excuse format depth (do opening; inside; closing) (first ++ (text ++ last)) := by
  intro front buffer holds large
  simp only [List.length_append] at large
  refine (opens front buffer holds fun beyond => large (by omega)).bind fun _ opened held => ?_
  refine (prints _ opened held fun beyond => large ?_).bind fun _ filled inner => ?_
  · rw [List.length_append] at beyond
    omega
  refine (closes _ filled inner fun beyond => large ?_).imp fun _ after done => ?_
  · simp only [List.length_append] at beyond
    omega
  · have held : Holds excuse format depth (front ++ (first ++ text)) after := by simpa using done.1
    have whole := held.shows last (by simpa using done.2)
    rwa [List.append_assoc] at whole

theorem opens_emit {needed : Nat} (text tail : CString)
    (enough : text.length + tail.length ≤ needed + 1) (short : text.length ≤ needed)
    (tight : needed ≤ text.length + 1) :
    Opens excuse format depth (do emit needed (text ++ tail) text.length; deeper) text :=
  fun front buffer holds large =>
    (prints_emit text tail enough short tight front buffer holds large).bind fun _ _ held =>
      gives_modify.completes ⟨held.written, held.room, held.offset_eq, held.format_eq,
        congrArg (· + 1) held.depth_eq, held.excused⟩

theorem closes_emit {needed : Nat} (text : CString) (enough : text.length + 1 ≤ needed + 1)
    (tight : needed ≤ text.length + 1) :
    Closes excuse format depth (do emit needed (text ++ [0]) 0; shallower) text := by
  intro front buffer holds large
  have emitted := completes_emit [] (text ++ [0]) holds (by simpa using enough) (Nat.zero_le _)
    fun beyond => large (by omega)
  refine emitted.bind fun _ after done => gives_modify.completes ⟨?_, ?_⟩
  · have held := done.1
    rw [List.append_nil] at held
    exact ⟨held.written, held.room, held.offset_eq, held.format_eq,
      congrArg (· - 1) held.depth_eq, held.excused⟩
  · simpa using done.2

theorem opens_array : Opens excuse format depth openArray [91] :=
  opens_emit [91] [] (by decide) le_rfl (by decide)

theorem closes_array : Closes excuse format depth closeArray [93] :=
  closes_emit [93] (by decide) le_rfl

theorem opens_object : Opens excuse format depth openObject (123 :: formatted format [10]) := by
  intro front buffer holds large
  refine gives_get.andThen ?_
  rw [holds.format_eq]
  have opens : Opens excuse format depth _ (123 :: formatted format [10]) :=
    opens_emit _ [] (Nat.le_add_right _ 2) (Nat.le_succ _) le_rfl
  rw [List.append_nil] at opens
  exact opens front buffer holds large

theorem closes_object :
    Closes excuse format depth closeObject (formatted format (List.replicate depth 9) ++ [125]) := by
  intro front buffer holds large
  refine gives_get.andThen ?_
  rw [holds.format_eq, holds.depth_eq, Nat.add_sub_cancel]
  have closes : Closes excuse format depth
      (do emit (if format then depth + 1 + 1 else 2)
            (formatted format (List.replicate depth 9) ++ [125] ++ [0]) 0
          shallower)
      (formatted format (List.replicate depth 9) ++ [125]) := by
    apply closes_emit <;> cases format <;> simp [formatted]
  rw [List.append_assoc] at closes
  exact closes front buffer holds large

/-- The loop of `print_array`. -/
theorem prints_elements {items : List CJSON}
    (each : ∀ item ∈ items, Leaves excuse format depth (printValue item)
      (shownValue format depth item) ∧ 0 ∉ shownValue format depth item) :
    Prints excuse format depth (printElements items) (shownElements format depth items) := by
  induction items with
  | nil => exact prints_nothing
  | cons item items ih =>
      obtain ⟨own, others⟩ := List.forall_mem_cons.mp each
      exact own.1.bind own.2 ((prints_comma items.isEmpty).bind (ih others))

/-- A string has no NUL. -/
theorem nul_not_mem_shownString (input : CString) : 0 ∉ shownString input := by
  have shown : ∀ n < 256, 0 ∉ shownByte (UInt8.ofNat n) := by decide +kernel
  refine nul_not_mem_cons (by decide) (nul_not_mem_append (fun member => ?_) (by decide))
  obtain ⟨byte, _, inside⟩ := List.mem_flatMap.mp member
  refine shown byte.toNat (UInt8.toNat_lt byte) ?_
  rwa [UInt8.ofNat_toNat]

/-- The loop of `print_object`. -/
theorem prints_members {members : List (CString × CJSON)}
    (each : ∀ member ∈ members, Leaves excuse format depth (printValue member.2)
      (shownValue format depth member.2) ∧ 0 ∉ shownValue format depth member.2) :
    Prints excuse format depth (printMembers members) (shownMembers format depth members) := by
  induction members with
  | nil => exact prints_nothing
  | cons member members ih =>
      obtain ⟨name, value⟩ := member
      obtain ⟨own, others⟩ := List.forall_mem_cons.mp each
      have behind := (prints_behind members.isEmpty).bind (ih others)
      have rest := prints_colon.bind (own.1.bind own.2 behind)
      exact prints_tabs.bind ((leaves_string name).bind (nul_not_mem_shownString name) rest)

/-- `print_value` leaves the text of the tree. -/
theorem leaves_value {nesting : Nat} {tree : CJSON} (writable : Writable nesting tree) :
    Leaves excuse format depth (printValue tree) (shownValue format depth tree) := by
  induction writable generalizing depth with
  | null => exact leaves_literal _
  | bool value => cases value <;> exact leaves_literal _
  | number range => exact leaves_number range
  | string _ => exact leaves_string _
  | array inner ih =>
      exact leaves_bracketed opens_array (prints_elements fun item member =>
        ⟨ih item member, (spells_value (inner item member) format _).nul_not_mem⟩) closes_array
  | object names inner ih =>
      have filled : Leaves excuse format depth _ _ :=
        leaves_bracketed opens_object (prints_members fun member inside =>
          ⟨ih member inside, (spells_value (inner member inside) format _).nul_not_mem⟩) closes_object
      simpa [shownValue, printValue] using filled

/-! ## The whole printer -/

/-- The room with which the printer starts. -/
theorem holds_start {left : Allocations} (excused : false ∈ left → excuse) (offset : Nat)
    (start : offset = 0) :
    Holds excuse format depth []
      { content := List.replicate 256 none, offset, depth, format, allocations := left } := by
  refine ⟨List.nil_prefix, ?_, start, rfl, rfl, excused⟩
  rw [List.length_replicate]
  decide

theorem completes_printBlock {nesting : Nat} {tree : CJSON} (writable : Writable nesting tree)
    {allocations : Allocations} (excused : false ∈ allocations → excuse)
    (large : intMax < (shownValue format 0 tree).length + 2 → excuse) :
    Completes (printBlock tree) { content := [], offset := 0, depth := 0, format, allocations }
      excuse fun block _ => block = (shownValue format 0 tree ++ [0]).map some := by
  obtain ⟨granted, left, takes, refused, later⟩ :=
    gives_allocate { content := [], offset := 0, depth := 0, format, allocations }
  refine takes.andThen ?_
  cases granted with
  | false => exact completes_failure (excused (refused rfl))
  | true =>
      refine (gives_guard rfl).andThen (gives_modify.andThen ?_)
      have start : Holds excuse format 0 [] _ :=
        holds_start (fun member => excused (later member)) 0 rfl
      refine (leaves_value writable [] _ start fun beyond => large ?_).bind fun _ _ shows_ => ?_
      · simpa using beyond
      have visible := (spells_value writable format 0).nul_not_mem
      refine (completes_updateOffset shows_ visible).bind fun _ whole done => ?_
      obtain ⟨held, rest, content⟩ := done
      refine gives_get.andThen ((completes_reallocate _ held.excused).bind fun _ last kept => ?_)
      refine gives_get.andThen (gives_pure.completes ?_)
      have size : whole.offset + 1 = ((shownValue format 0 tree ++ [0]).map some).length := by
        rw [held.offset_eq]
        simp
      rw [kept.1, resized, size, ← content, List.nil_append, List.take_left]
      simp

/-- **The printer is safe and prints the text.** Whatever allocations are refused, it stops at
no fault. The block it returns has the text with its NUL and nothing else; it returns none
only after a refused allocation or for a text that is too long. -/
theorem print_completes {nesting : Nat} {tree : CJSON} (writable : Writable nesting tree)
    (format : Bool) (allocations : Allocations) :
    ∃ printed, print tree format allocations = .ok printed ∧
      (∀ block, printed = some block → block = (shownValue format 0 tree ++ [0]).map some) ∧
      (printed = none →
        false ∈ allocations ∨ intMax < (shownValue format 0 tree).length + 2) := by
  obtain ⟨printed, after, run, holds, fails⟩ :
      Completes (printBlock tree) { content := [], offset := 0, depth := 0, format, allocations }
        (false ∈ allocations ∨ intMax < (shownValue format 0 tree).length + 2)
        fun block _ => block = (shownValue format 0 tree ++ [0]).map some :=
    completes_printBlock writable Or.inl Or.inr
  refine ⟨printed, ?_, holds, fails⟩
  rw [print, run]
  rfl

example : printText (.object [(cstr "a", .array [.number 1])]) true =
    some (cstr "\x7b\n\t\"a\":\t[1]\n\x7d") := by decide +kernel

/-- **What is printed is read back.** Whatever allocations are refused, the printer stops at no
fault, and the parser reads a text it returns as the tree. It returns one unless an allocation
is refused or the text is too long. -/
theorem parse_print {tree : CJSON} (writable : Writable nestingLimit tree) (format : Bool)
    (allocations : Allocations) :
    ∃ printed, print tree format allocations = .ok printed ∧
      (∀ block, printed = some block →
        ∃ text, block = (text ++ [0]).map some ∧ 0 ∉ text ∧ parse text = some tree) ∧
      (printed = none →
        false ∈ allocations ∨ intMax < (shownValue format 0 tree).length + 2) := by
  obtain ⟨printed, run, holds, fails⟩ := print_completes writable format allocations
  refine ⟨printed, run, fun block same => ?_, fails⟩
  have value := spells_value writable format 0
  have reads := parse_text (.inl rfl) (by simp [Blank] : Blank []) value
    (by simp : ∀ byte ∈ ([] : CString).head?, isNumberByte byte = false)
  rw [List.nil_append, List.nil_append, List.append_nil] at reads
  exact ⟨_, holds block same, value.nul_not_mem, reads⟩

theorem parse_print_members :
    ∃ printed, print (.object [(cstr "a\n", .array [.number (-12), .bool true, .string []])]) true
        [] = .ok printed ∧
      (∀ block, printed = some block →
        ∃ text, block = (text ++ [0]).map some ∧ 0 ∉ text ∧ parse text =
          some (.object [(cstr "a\n", .array [.number (-12), .bool true, .string []])])) ∧
      (printed = none → false ∈ [] ∨ intMax < (shownValue true 0
        (.object [(cstr "a\n", .array [.number (-12), .bool true, .string []])])).length + 2) := by
  refine parse_print (.object (by decide) fun member inside => ?_) true []
  rw [List.mem_singleton] at inside
  subst inside
  refine .array fun item inside => ?_
  simp only [List.mem_cons, List.not_mem_nil, or_false] at inside
  rcases inside with rfl | rfl | rfl
  · exact .number (by decide)
  · exact .bool true
  · exact .string List.not_mem_nil

end CJSON

end DnsServer
