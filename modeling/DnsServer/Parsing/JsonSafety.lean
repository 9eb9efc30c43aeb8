import DnsServer.Model.JsonText

/-!
# The JSON parser stays in its buffers

`cJSON_Parse` reads no byte outside its text and writes none outside the block of a string,
on any text, and it ends (`runParse_safe`). Its trees are nested at most as deep as
`CJSON_NESTING_LIMIT` says.

The parser moves over bytes that are not NUL, and a text ends with one, so the offset never
leaves the text (`Onward`). The block of a string is sized by a first pass over the literal.
The second pass need not see the same escapes as the first one: a malformed `\u` is skipped
together with a backslash that the first pass has paired with the byte behind it. What the
bound on the writes rests on is that of two bytes in a row the first pass skips at most one
(`Skips`).
-/

set_option autoImplicit false

namespace DnsServer

namespace CJSON

open Scanner

variable {content : List UInt8}

/-! ## Access to the text -/

/-- The text ends with its NUL. -/
def Terminated (content : List UInt8) : Prop := content.getLast? = some 0

/-- A byte that is not NUL has a byte behind it. -/
theorem Terminated.next (terminated : Terminated content) {i : Nat} {byte : UInt8}
    (there : content[i]? = some byte) (visible : byte ≠ 0) : i + 1 < content.length := by
  have inside := (List.getElem?_eq_some_iff.mp there).1
  refine lt_of_le_of_ne inside fun last => visible ?_
  rw [Terminated, List.getLast?_eq_getElem?, ← last, Nat.add_sub_cancel, there] at terminated
  exact Option.some.inj terminated

theorem exists_byte {i : Nat} (inside : i < content.length) :
    ∃ byte, content[i]? = some byte ∧ readAt content i = .ok byte :=
  ⟨content[i], List.getElem?_eq_getElem inside,
    readAt_of_getElem? (List.getElem?_eq_getElem inside)⟩

/-- The parser has moved on inside the text, at the same depth. -/
structure Onward (content : List UInt8) (before after : ParseBuffer) : Prop where
  inside : after.offset < content.length
  forward : before.offset ≤ after.offset
  depth : after.depth = before.depth

theorem Onward.trans {before middle after : ParseBuffer} (first : Onward content before middle)
    (second : Onward content middle after) : Onward content before after :=
  ⟨second.inside, first.forward.trans second.forward, second.depth.trans first.depth⟩

theorem gives_atOffset {buffer : ParseBuffer} {byte : UInt8}
    (there : content[buffer.offset]? = some byte) : Gives (atOffset content) buffer byte buffer := by
  refine gives_get.bind ?_
  exact gives_lift (readAt_of_getElem? there)

theorem gives_peek (buffer : ParseBuffer) :
    Gives (peek content) buffer content[buffer.offset]? buffer := by
  refine gives_get.bind ?_
  by_cases inside : buffer.offset < content.length
  · rw [if_pos (by simpa [canAccess] using inside)]
    obtain ⟨byte, there, _⟩ := exists_byte inside
    rw [there]
    exact (gives_atOffset there).map some
  · rw [if_neg (by simpa [canAccess] using inside), List.getElem?_eq_none (by omega)]
    exact gives_pure

/-! ## Moving over the text -/

theorem skipLoop_stops {offset : Nat} (bound : Nat) (inside : offset ≤ content.length)
    (enough : content.length < offset + bound) :
    ∃ stop, skipLoop content bound offset = .ok stop ∧ offset ≤ stop ∧ stop ≤ content.length := by
  induction bound generalizing offset with
  | zero => omega
  | succ bound ih =>
      by_cases before : offset < content.length
      · obtain ⟨byte, _, reads⟩ := exists_byte before
        rw [skipLoop, if_pos before, reads, Checked.ok_bind]
        split
        · obtain ⟨stop, run, first, last⟩ := ih before (by omega)
          exact ⟨stop, run, by omega, last⟩
        · exact ⟨offset, rfl, le_rfl, inside⟩
      · exact ⟨offset, by rw [skipLoop, if_neg before]; rfl, le_rfl, inside⟩

/-- Skipping white space ends inside the text: from its end it goes back by one. -/
theorem safe_skip {buffer : ParseBuffer} (inside : buffer.offset < content.length) :
    Safe (bufferSkipWhitespace content) buffer fun _ after => Onward content buffer after := by
  obtain ⟨stop, run, first, last⟩ :=
    skipLoop_stops (content.length + 1) (le_of_lt inside) (by omega)
  refine gives_get.before ?_
  rw [if_pos (by simpa [canAccess] using inside)]
  refine (gives_lift run).before (gives_modify.safe ?_)
  by_cases atEnd : stop = content.length
  · simp only [if_pos atEnd]
    exact ⟨by show stop - 1 < _; omega, by show _ ≤ stop - 1; omega, rfl⟩
  · simp only [if_neg atEnd]
    exact ⟨by show stop < _; omega, first, rfl⟩

theorem startsWith_cases (content : List UInt8) (buffer : ParseBuffer) (literal : CString) :
    ∃ found, startsWith content buffer literal = .ok found ∧
      (found = true → (content.drop buffer.offset).take literal.length = literal) := by
  by_cases room : buffer.offset + literal.length ≤ content.length
  · refine ⟨_, by rw [startsWith, if_pos room, readRange, if_pos room]; rfl, fun same => ?_⟩
    exact eq_of_beq same
  · exact ⟨false, by rw [startsWith, if_neg room]; rfl, fun absurd => nomatch absurd⟩

/-- Behind a literal the text goes on. -/
theorem Terminated.behind (terminated : Terminated content) {offset : Nat} {literal : CString}
    (there : (content.drop offset).take literal.length = literal) (filled : literal ≠ [])
    (visible : 0 ∉ literal) : offset + literal.length < content.length := by
  have last := List.getLast?_eq_some_getLast filled
  rw [List.getLast?_eq_getElem?] at last
  have positive := List.length_pos_of_ne_nil filled
  have byte : content[offset + (literal.length - 1)]? = some (literal.getLast filled) := by
    have part : ((content.drop offset).take literal.length)[literal.length - 1]? =
        literal[literal.length - 1]? := by rw [there]
    rw [List.getElem?_take_of_lt (by omega), List.getElem?_drop] at part
    exact part.trans last
  have next := terminated.next byte fun same => visible (same ▸ List.getLast_mem filled)
  omega

/-! ## Strings -/

/-- How many bytes the first pass has skipped before each position, from one position to the
quotation mark at which it ends. -/
structure Skips (content : List UInt8) (first stop skipped : Nat) (skips : Nat → Nat) : Prop where
  start : ∀ i ≤ first, skips i = skipped
  one : ∀ i, skips (i + 1) ≤ skips i + 1
  two : ∀ i, skips (i + 2) ≤ skips i + 1
  plain : ∀ i byte, content[i]? = some byte → byte ≠ 92 → i < stop → skips (i + 1) ≤ skips i
  last : skips stop ≤ skips (stop + 1)

/-- The first pass skips a byte in front of the others. -/
theorem Skips.escape {first stop skipped : Nat} {skips : Nat → Nat}
    (rest : Skips content (first + 2) stop (skipped + 1) skips) (inside : first + 2 ≤ stop)
    (backslash : content[first]? = some 92) :
    Skips content first stop skipped fun i => if i ≤ first then skipped else skips i where
  start := fun i before => if_pos before
  one := fun i => by
    have next := rest.one i
    by_cases before : i + 1 ≤ first
    · rw [if_pos before, if_pos (by omega)]
      exact Nat.le_succ skipped
    · rw [if_neg before]
      by_cases here : i ≤ first
      · rw [if_pos here, rest.start _ (by omega)]
      · rw [if_neg here]
        exact next
  two := fun i => by
    have next := rest.two i
    have here (j : Nat) (before : j ≤ first + 2) := rest.start j before
    by_cases before : i ≤ first
    · by_cases behind : i + 2 ≤ first
      · rw [if_pos before, if_pos behind]
        omega
      · rw [if_pos before, if_neg behind, here _ (by omega)]
    · rw [if_neg before, if_neg (by omega)]
      exact next
  plain := fun i byte there visible earlier => by
    have next := rest.plain i byte there visible earlier
    by_cases before : i ≤ first
    · have different : i ≠ first := by
        rintro rfl
        exact visible (Option.some.inj (there.symm.trans backslash))
      rw [if_pos before, if_pos (by omega)]
    · rw [if_neg before, if_neg (by omega)]
      exact next
  last := by
    rw [if_neg (by omega), if_neg (by omega)]
    exact rest.last

/-- The first pass over a literal ends inside the text. -/
theorem scanLoop_stops {first : Nat} (bound skipped : Nat) (inside : first ≤ content.length)
    (enough : content.length < first + bound) :
    scanLoop content bound first skipped = .ok none ∨
      ∃ stop skips, scanLoop content bound first skipped = .ok (some (stop, skips stop)) ∧
        first ≤ stop ∧ content[stop]? = some 34 ∧ Skips content first stop skipped skips := by
  induction bound generalizing first skipped with
  | zero => omega
  | succ bound ih =>
      by_cases before : first < content.length
      · obtain ⟨byte, there, reads⟩ := exists_byte before
        rw [scanLoop, if_pos before, reads, Checked.ok_bind]
        by_cases quote : byte = 34
        · rw [if_pos quote]
          exact .inr ⟨first, fun _ => skipped, rfl, le_rfl, quote ▸ there, fun _ _ => rfl,
            fun _ => Nat.le_succ _, fun _ => Nat.le_succ _, fun _ _ _ _ _ => le_rfl, le_rfl⟩
        · rw [if_neg quote]
          by_cases backslash : byte = 92
          · rw [if_pos backslash]
            by_cases cut : first + 1 ≥ content.length
            · rw [if_pos cut]
              exact .inl rfl
            · rw [if_neg cut]
              rcases ih _ (by omega : first + 2 ≤ content.length) (by omega) with
                fails | ⟨stop, skips, run, onward, mark, rest⟩
              · exact .inl fails
              · refine .inr ⟨stop, _, ?_, by omega, mark, rest.escape onward (backslash ▸ there)⟩
                simp only [if_neg (by omega : ¬stop ≤ first)]
                exact run
          · rw [if_neg backslash]
            rcases ih _ before (by omega) with fails | ⟨stop, skips, run, onward, mark, rest⟩
            · exact .inl fails
            · exact .inr ⟨stop, skips, run, by omega, mark,
                fun i early => rest.start i (by omega), rest.one, rest.two, rest.plain, rest.last⟩
      · rw [scanLoop, if_neg before]
        exact .inl rfl

theorem hexDigit_lt {byte : UInt8} {digit : Nat} (same : hexDigit byte = some digit) :
    digit < 16 := by
  simp only [hexDigit] at same
  split at same
  · cases same
    rename_i range
    have := UInt8.le_iff_toNat_le.mp range.2
    have nine : (57 : UInt8).toNat = 57 := rfl
    omega
  · split at same
    · cases same
      rename_i range
      have := UInt8.le_iff_toNat_le.mp range.2
      have upper : (70 : UInt8).toNat = 70 := rfl
      omega
    · split at same
      · cases same
        rename_i range
        have := UInt8.le_iff_toNat_le.mp range.2
        have lower : (102 : UInt8).toNat = 102 := rfl
        omega
      · cases same

/-- The digits that are left add at most four bits each. -/
theorem hexLoop_lt {left index h top : Nat} (inside : index + left + 1 ≤ content.length)
    (small : h + 16 ≤ top) :
    ∃ code, hexLoop content (left + 1) index h = .ok code ∧ code < top * 16 ^ left := by
  induction left generalizing index h top with
  | zero =>
      obtain ⟨byte, _, reads⟩ := exists_byte (by omega : index < content.length)
      rw [hexLoop, reads, Checked.ok_bind]
      split
      · exact ⟨0, rfl, by omega⟩
      · rename_i digit found
        have := hexDigit_lt found
        exact ⟨h + digit, rfl, by omega⟩
  | succ left ih =>
      obtain ⟨byte, _, reads⟩ := exists_byte (by omega : index < content.length)
      rw [hexLoop, reads, Checked.ok_bind]
      have positive : 0 < 16 ^ (left + 1) := Nat.pow_pos (by decide)
      split
      · exact ⟨0, rfl, Nat.mul_pos (by omega) positive⟩
      · rename_i digit found
        have := hexDigit_lt found
        have shifted : (h + digit) <<< 4 + 16 ≤ top * 16 := by
          rw [Nat.shiftLeft_eq]
          omega
        obtain ⟨code, run, bounded⟩ := ih (by omega : index + 1 + left + 1 ≤ content.length) shifted
        refine ⟨code, ?_, ?_⟩
        · simpa using run
        · rwa [Nat.pow_succ', ← Nat.mul_assoc]

theorem parseHex4_lt {index : Nat} (inside : index + 4 ≤ content.length) :
    ∃ code, parseHex4 content index = .ok code ∧ code < 0x10000 := by
  have few : 0 + 16 ≤ 16 := le_rfl
  have fits : index + 3 + 1 ≤ content.length := inside
  exact hexLoop_lt fits few

/-- A code point takes at most four bytes, and one that is not from a pair at most three. -/
theorem length_encodeUtf8 (codepoint : Nat) :
    (encodeUtf8 codepoint).length ≤ if codepoint < 0x10000 then 3 else 4 := by
  by_cases one : codepoint < 0x80
  · simp [encodeUtf8, encodeLoop, one, (by omega : codepoint < 0x10000)]
  by_cases two : codepoint < 0x800
  · simp [encodeUtf8, encodeLoop, one, two, (by omega : codepoint < 0x10000)]
  by_cases three : codepoint < 0x10000
  · simp [encodeUtf8, encodeLoop, one, two, three]
  · simp [encodeUtf8, encodeLoop, one, two, three]

/-- An escape of one code unit brings at most three bytes for six, a pair at most four for
twelve. -/
theorem utf16LiteralToUtf8_cases {p input_end : Nat} (inside : input_end ≤ content.length) :
    utf16LiteralToUtf8 content p input_end = .ok none ∨
      ∃ length bytes, utf16LiteralToUtf8 content p input_end = .ok (some (length, bytes)) ∧
        p + length ≤ input_end ∧
        (length = 6 ∧ bytes.length ≤ 3 ∨ length = 12 ∧ bytes.length ≤ 4) := by
  by_cases short : input_end - p < 6
  · exact .inl (by rw [utf16LiteralToUtf8, if_pos short]; rfl)
  obtain ⟨first, reads, small⟩ := parseHex4_lt (by omega : p + 2 + 4 ≤ content.length)
  rw [utf16LiteralToUtf8, if_neg short, reads, Checked.ok_bind]
  by_cases low : 0xDC00 ≤ first ∧ first ≤ 0xDFFF
  · exact .inl (by rw [if_pos low]; rfl)
  rw [if_neg low]
  by_cases high : 0xD800 ≤ first ∧ first ≤ 0xDBFF
  · rw [if_pos high]
    by_cases cut : input_end - (p + 6) < 6
    · exact .inl (by rw [if_pos cut]; rfl)
    obtain ⟨mark, _, readsMark⟩ := exists_byte (by omega : p + 6 < content.length)
    obtain ⟨letter, _, readsLetter⟩ := exists_byte (by omega : p + 6 + 1 < content.length)
    obtain ⟨second, readsSecond, _⟩ := parseHex4_lt (by omega : p + 6 + 2 + 4 ≤ content.length)
    simp only [if_neg cut, readsMark, readsLetter, readsSecond, Checked.ok_bind]
    by_cases missing : mark ≠ 92
    · exact .inl (by rw [if_pos missing]; rfl)
    rw [if_neg missing]
    by_cases other : letter ≠ 117
    · exact .inl (by rw [if_pos other]; rfl)
    rw [if_neg other]
    by_cases single : second < 0xDC00 ∨ 0xDFFF < second
    · exact .inl (by rw [if_pos single]; rfl)
    rw [if_neg single]
    refine .inr ⟨12, _, rfl, by omega, .inr ⟨rfl, (length_encodeUtf8 _).trans ?_⟩⟩
    split <;> decide
  · rw [if_neg high]
    refine .inr ⟨6, _, rfl, by omega, .inl ⟨rfl, (length_encodeUtf8 first).trans ?_⟩⟩
    rw [if_pos small]

/-- Six bytes in a row have three that are not skipped. -/
theorem Skips.six {first stop skipped : Nat} {skips : Nat → Nat}
    (counted : Skips content first stop skipped skips) (i : Nat) : skips (i + 6) ≤ skips i + 3 := by
  have one := counted.two i
  have two : skips (i + 4) ≤ skips (i + 2) + 1 := counted.two (i + 2)
  have three : skips (i + 6) ≤ skips (i + 4) + 1 := counted.two (i + 4)
  omega

/-- What is not skipped before a position leaves room in the block. -/
theorem Skips.bounded {first stop skipped : Nat} {skips : Nat → Nat}
    (counted : Skips content first stop skipped skips) {i : Nat} (inside : i ≤ stop + 1) :
    skips stop + i ≤ skips i + (stop + 1) := by
  have steps (count : Nat) : skips (i + count) ≤ skips i + count := by
    induction count with
    | zero => exact le_rfl
    | succ count ih => exact (counted.one (i + count)).trans (Nat.succ_le_succ ih)
  by_cases before : i ≤ stop
  · have all := steps (stop - i)
    rw [Nat.add_sub_of_le before] at all
    omega
  · have atEnd : i = stop + 1 := by omega
    have last := counted.last
    rw [atEnd]
    omega

/-- The second pass over a literal. What it has written so far is at most what it has read
without the bytes that the first pass has skipped there. -/
theorem unescapeLoop_safe {first stop size : Nat} {skips : Nat → Nat}
    (counted : Skips content first stop 0 skips) (mark : content[stop]? = some 34)
    (room : stop + 1 - first - skips stop + 1 ≤ size) (bound : Nat) {p : Nat}
    (output : OutBuffer size)
    (behind : first ≤ p) (inside : p ≤ stop + 1) (enough : stop < p + bound) (positive : 0 < bound)
    (written : output.length + skips p ≤ p - first) :
    ∃ result, unescapeLoop content stop bound p output = .ok result ∧
      ∀ copied, result.2 = some copied → copied.length + 1 ≤ size := by
  have last := (List.getElem?_eq_some_iff.mp mark).1
  induction bound generalizing p output with
  | zero => omega
  | succ bound ih =>
      have spare := counted.bounded inside
      by_cases before : p < stop
      · have step (bytes : List UInt8) (next : Nat) (onward : p < next) (ends : next ≤ stop + 1)
            (fits : output.length + bytes.length + skips next ≤ next - first) :
            ∃ result, (output.append bytes >>= fun output =>
                unescapeLoop content stop bound next output) = .ok result ∧
              ∀ copied, result.2 = some copied → copied.length + 1 ≤ size := by
          have spareNext := counted.bounded ends
          have enoughRoom : output.bytes.length + bytes.length ≤ size := by
            have : output.length = output.bytes.length := rfl
            omega
          rw [OutBuffer.append_of_room enoughRoom, Checked.ok_bind]
          refine ih _ (by omega) ends (by omega) (by omega) ?_
          rw [OutBuffer.length, List.length_append]
          exact fits
        obtain ⟨byte, there, reads⟩ := exists_byte (by omega : p < content.length)
        rw [unescapeLoop, if_pos before, reads, Checked.ok_bind]
        by_cases plain : byte ≠ 92
        · rw [if_pos plain]
          have same := counted.plain p byte there plain before
          exact step [byte] (p + 1) (by omega) (by omega) (by rw [List.length_singleton]; omega)
        · obtain ⟨letter, _, readsLetter⟩ := exists_byte (by omega : p + 1 < content.length)
          have two := counted.two p
          rw [if_neg plain, readsLetter, Checked.ok_bind]
          by_cases unicode : letter = 117
          · rw [if_pos unicode]
            rcases utf16LiteralToUtf8_cases (le_of_lt last) with fails | ⟨length, bytes, run, ends, takes⟩
            · rw [fails]
              exact ⟨_, rfl, fun _ absurd => nomatch absurd⟩
            · rw [run]
              refine step bytes (p + length) (by omega) (by omega) ?_
              have six := counted.six p
              have twelve : skips (p + 12) ≤ skips (p + 6) + 3 := counted.six (p + 6)
              rcases takes with ⟨rfl, few⟩ | ⟨rfl, few⟩ <;> omega
          · rw [if_neg unicode]
            cases escaped letter with
            | none => exact ⟨_, rfl, fun _ absurd => nomatch absurd⟩
            | some byte =>
                exact step [byte] (p + 2) (by omega) (by omega)
                  (by rw [List.length_singleton]; omega)
      · rw [unescapeLoop, if_neg before]
        refine ⟨_, rfl, fun copied same => ?_⟩
        cases same
        omega

/-- `parse_string` ends behind the literal. -/
theorem safe_parseString (terminated : Terminated content) {buffer : ParseBuffer}
    (inside : buffer.offset < content.length) :
    Safe (parseString content) buffer fun _ after => Onward content buffer after := by
  obtain ⟨byte, there, _⟩ := exists_byte inside
  have fails (offset : Nat) : Safe (failAt offset : Parsing CString) buffer fun _ after =>
      Onward content buffer after := gives_modify.before safe_failure
  refine gives_get.before ((gives_atOffset there).before ?_)
  by_cases quote : byte ≠ 34
  · rw [if_pos quote]
    exact fails _
  rw [if_neg quote]
  have next := terminated.next there (by rintro rfl; exact quote (by decide))
  rcases scanLoop_stops (content.length + 1) 0 (le_of_lt next) (by omega) with
    run | ⟨stop, skips, run, onward, mark, counted⟩
  · exact (gives_lift run).before (fails _)
  · have last := (List.getElem?_eq_some_iff.mp mark).1
    let block : OutBuffer (stop - buffer.offset - skips stop + 1) := OutBuffer.empty
    have nothing : block.length + skips (buffer.offset + 1) ≤
        buffer.offset + 1 - (buffer.offset + 1) := by
      rw [OutBuffer.length_empty, counted.start _ le_rfl]
      exact Nat.zero_le _
    obtain ⟨result, copies, room⟩ := unescapeLoop_safe counted mark (by omega)
      (content.length + 1) block le_rfl (by omega) (by omega) (by omega) nothing
    refine (gives_lift run).before ((gives_lift copies).before ?_)
    obtain ⟨input_pointer, output⟩ := result
    cases output with
    | none => exact fails _
    | some output =>
        have enough := room output rfl
        refine (gives_lift (OutBuffer.append_of_room enough)).before ?_
        refine gives_modify.before (gives_pure.safe ⟨?_, ?_, rfl⟩)
        · exact terminated.next mark (by decide)
        · exact Nat.le_succ_of_le (Nat.le_of_succ_le onward)

/-! ## Values -/

/-- A tree whose arrays and objects are nested at most so deep. -/
inductive Nested : Nat → CJSON → Prop where
  | null {depth : Nat} : Nested depth .null
  | bool {depth : Nat} (value : Bool) : Nested depth (.bool value)
  | number {depth : Nat} (valueint : Int) : Nested depth (.number valueint)
  | string {depth : Nat} (valuestring : CString) : Nested depth (.string valuestring)
  | array {depth : Nat} {items : List CJSON} (inner : ∀ item ∈ items, Nested depth item) :
      Nested (depth + 1) (.array items)
  | object {depth : Nat} {members : List (CString × CJSON)}
      (inner : ∀ member ∈ members, Nested depth member.2) : Nested (depth + 1) (.object members)

/-- A part of the parser from a position inside the text: it ends behind that position, at
the same depth, with a good result. -/
def Parses {α : Type} (content : List UInt8) (part : Parsing α) (good : α → Prop)
    (buffer : ParseBuffer) : Prop :=
  Safe part buffer fun value after => Onward content buffer after ∧ good value

/-- A part of the parser that steps over the byte at its position first. -/
def ParsesBehind {α : Type} (content : List UInt8) (part : Parsing α) (good : α → Prop)
    (buffer : ParseBuffer) : Prop :=
  Safe part buffer fun value after =>
    Onward content { buffer with offset := buffer.offset + 1 } after ∧ good value

/-- The bytes of a number are not the NUL of the text. -/
theorem numberLoop_stops (terminated : Terminated content) (left : Nat) {index : Nat}
    (inside : index < content.length) :
    ∃ taken, numberLoop content left index = .ok taken ∧ index + taken.length < content.length := by
  induction left generalizing index with
  | zero => exact ⟨[], rfl, inside⟩
  | succ left ih =>
      obtain ⟨byte, there, reads⟩ := exists_byte inside
      rw [numberLoop, if_pos inside, reads, Checked.ok_bind]
      by_cases copied : isNumberByte byte = true
      · obtain ⟨taken, run, last⟩ := ih (terminated.next there (by rintro rfl; exact nomatch copied))
        refine ⟨byte :: taken, by rw [if_pos copied, run]; rfl, ?_⟩
        rw [List.length_cons]
        omega
      · exact ⟨[], by rw [if_neg copied]; rfl, inside⟩

theorem parses_number (terminated : Terminated content) {buffer : ParseBuffer} {depth : Nat}
    (inside : buffer.offset < content.length) :
    Parses content (parseNumber content) (Nested depth) buffer := by
  obtain ⟨taken, run, last⟩ := numberLoop_stops terminated 63 inside
  refine gives_get.before ((gives_lift run).before ?_)
  cases strtod taken with
  | none => exact safe_failure
  | some result =>
      refine gives_modify.before (gives_pure.safe ⟨⟨?_, Nat.le_add_right _ _, rfl⟩, .number _⟩)
      show buffer.offset + (taken.length - result.2.length) < content.length
      omega

section Items

variable {α : Type} {item : Parsing α} {good : α → Prop} {buffer : ParseBuffer} {depth : Nat}

/-- The loop over items. -/
theorem parses_items (terminated : Terminated content)
    (each : ∀ before : ParseBuffer, before.offset + 1 < content.length → before.depth = depth →
      ParsesBehind content item good before)
    (bound : Nat) {buffer : ParseBuffer} (front : buffer.offset + 1 < content.length)
    (level : buffer.depth = depth) (enough : content.length ≤ buffer.offset + bound) :
    ParsesBehind content (parseItems content item bound) (fun items => ∀ value ∈ items, good value)
      buffer := by
  induction bound generalizing buffer with
  | zero => omega
  | succ bound ih =>
      refine (each buffer front level).bind fun first after ⟨onward, isGood⟩ => ?_
      refine (gives_peek after).before ?_
      have moved : buffer.offset + 1 ≤ after.offset := onward.forward
      have kept : after.depth = buffer.depth := onward.depth
      by_cases comma : content[after.offset]? = some 44
      · rw [if_pos comma]
        have next := terminated.next comma (by decide)
        refine (ih next (kept.trans level) (by omega)).map fun rest last ⟨further, areGood⟩ => ?_
        have beyond : after.offset + 1 ≤ last.offset := further.forward
        refine ⟨⟨further.inside, ?_, further.depth.trans kept⟩, ?_⟩
        · show buffer.offset + 1 ≤ last.offset
          omega
        · exact List.forall_mem_cons.mpr ⟨isGood, areGood⟩
      · rw [if_neg comma]
        exact gives_pure.safe ⟨onward, by simpa using isGood⟩

/-- A body between brackets. It goes back to the depth in front of its bracket. -/
theorem safe_parseBody (terminated : Terminated content) {mark close : UInt8} (visible : close ≠ 0)
    (each : ∀ before : ParseBuffer, before.offset + 1 < content.length → before.depth = depth + 1 →
      ParsesBehind content item good before)
    (open_ : content[buffer.offset]? = some mark) (opens : mark ≠ 0)
    (level : buffer.depth = depth + 1) :
    Safe (parseBody content close item) buffer fun items after =>
      Onward content { buffer with depth } after ∧ ∀ value ∈ items, good value := by
  have next := terminated.next open_ opens
  refine gives_modify.before ((safe_skip next).bind fun _ start onward => ?_)
  have moved : buffer.offset + 1 ≤ start.offset := onward.forward
  have startLevel : start.depth = depth + 1 := onward.depth.trans level
  have body : Safe (parseBetween content close item) start fun items after =>
      content[after.offset]? = some close ∧ buffer.offset ≤ after.offset ∧
        after.depth = depth + 1 ∧ ∀ value ∈ items, good value := by
    refine (gives_peek start).before ?_
    by_cases empty : content[start.offset]? = some close
    · rw [if_pos empty]
      exact gives_pure.safe ⟨empty, by omega, startLevel, by simp⟩
    · rw [if_neg empty]
      refine gives_get.before (gives_modify.before (safe_guard fun _ => ?_))
      let back : ParseBuffer := { start with offset := start.offset - 1 }
      have inside := onward.inside
      have front : back.offset + 1 < content.length := by show start.offset - 1 + 1 < _; omega
      refine (parses_items terminated each (content.length + 1) front startLevel
        (by omega)).bind fun items after ⟨further, areGood⟩ => ?_
      have beyond : start.offset - 1 + 1 ≤ after.offset := further.forward
      refine (gives_peek after).before (safe_guard fun closes => ?_)
      exact gives_pure.safe ⟨closes, by omega, further.depth.trans startLevel, areGood⟩
  refine body.bind fun items after ⟨closes, forward, level, areGood⟩ => ?_
  refine gives_modify.before (gives_pure.safe ⟨⟨terminated.next closes visible, ?_, ?_⟩, areGood⟩)
  · exact Nat.le_succ_of_le forward
  · show after.depth - 1 = depth
    omega

end Items

section Values

variable {value : Parsing CJSON} {good : CJSON → Prop} {buffer : ParseBuffer} {depth : Nat}

theorem parses_element (inside : buffer.offset + 1 < content.length)
    (each : ∀ before : ParseBuffer, before.offset < content.length → before.depth = buffer.depth →
      Parses content value good before) :
    ParsesBehind content (parseElement content value) good buffer := by
  refine gives_modify.before ((safe_skip inside).bind fun _ start onward => ?_)
  refine (each start onward.inside onward.depth).bind fun tree middle ⟨parsed, isGood⟩ => ?_
  refine (safe_skip parsed.inside).bind fun _ after skipped => ?_
  exact gives_pure.safe ⟨(onward.trans parsed).trans skipped, isGood⟩

theorem parses_member (terminated : Terminated content) (inside : buffer.offset + 1 < content.length)
    (each : ∀ before : ParseBuffer, before.offset < content.length → before.depth = buffer.depth →
      Parses content value good before) :
    ParsesBehind content (parseMember content value) (fun member => good member.2) buffer := by
  refine gives_modify.before ((safe_skip inside).bind fun _ start onward => ?_)
  refine (safe_parseString terminated onward.inside).bind fun name behind named => ?_
  refine (safe_skip named.inside).bind fun _ colon skipped => ?_
  refine (gives_peek colon).before (safe_guard fun isColon => ?_)
  have before := (onward.trans named).trans skipped
  have element := parses_element (terminated.next isColon (by decide)) fun start inside level =>
    each start inside (level.trans before.depth)
  refine element.bind fun tree after ⟨parsed, isGood⟩ => gives_pure.safe ⟨⟨parsed.inside, ?_, ?_⟩, isGood⟩
  · exact before.forward.trans ((Nat.le_succ _).trans parsed.forward)
  · exact parsed.depth.trans before.depth

theorem safe_enter {next : Unit → Parsing CJSON} {final : CJSON → ParseBuffer → Prop}
    (rest : buffer.depth < nestingLimit →
      Safe (next ()) { buffer with depth := buffer.depth + 1 } final) :
    Safe (enter >>= next) buffer final := by
  have enters : Safe enter buffer fun _ after =>
      buffer.depth < nestingLimit ∧ after = { buffer with depth := buffer.depth + 1 } :=
    gives_get.before (safe_guard fun room => gives_modify.safe ⟨room, rfl⟩)
  exact enters.bind fun _ after ⟨room, same⟩ => same ▸ rest room

/-- The elements are values one level deeper. -/
theorem parses_array (terminated : Terminated content) (inside : buffer.offset < content.length)
    (each : buffer.depth < nestingLimit → ∀ before : ParseBuffer, before.offset < content.length →
      before.depth = buffer.depth + 1 →
      Parses content value (Nested (nestingLimit - (buffer.depth + 1))) before) :
    Parses content (parseArray content value) (Nested (nestingLimit - buffer.depth)) buffer := by
  refine safe_enter fun room => ?_
  have level : nestingLimit - buffer.depth = nestingLimit - (buffer.depth + 1) + 1 := by omega
  obtain ⟨byte, there, _⟩ := exists_byte inside
  refine Gives.before (gives_atOffset there) (safe_guard fun opens => ?_)
  let entered : ParseBuffer := { buffer with depth := buffer.depth + 1 }
  have bracket : content[entered.offset]? = some 91 := opens ▸ there
  have body := safe_parseBody terminated (by decide : (93 : UInt8) ≠ 0)
    (fun before front same => parses_element front fun start inner equal =>
      each room start inner (equal.trans same)) bracket (by decide) rfl
  exact body.map fun items after ⟨onward, nested⟩ => ⟨onward, level ▸ .array nested⟩

/-- The members have values one level deeper. -/
theorem parses_object (terminated : Terminated content)
    (each : buffer.depth < nestingLimit → ∀ before : ParseBuffer, before.offset < content.length →
      before.depth = buffer.depth + 1 →
      Parses content value (Nested (nestingLimit - (buffer.depth + 1))) before) :
    Parses content (parseObject content value) (Nested (nestingLimit - buffer.depth)) buffer := by
  refine safe_enter fun room => Gives.before (gives_peek _) (safe_guard fun opens => ?_)
  have level : nestingLimit - buffer.depth = nestingLimit - (buffer.depth + 1) + 1 := by omega
  have body := safe_parseBody terminated (by decide : (125 : UInt8) ≠ 0)
    (fun before front same => parses_member terminated front fun start inner equal =>
      each room start inner (equal.trans same)) opens (by decide) rfl
  exact body.map fun members after ⟨onward, nested⟩ => ⟨onward, level ▸ .object nested⟩

theorem parses_literal (terminated : Terminated content) {literal : CString} {tree : CJSON}
    (filled : literal ≠ []) (visible : 0 ∉ literal) (isGood : good tree)
    (otherwise : Parses content value good buffer) :
    Parses content (parseLiteral content literal tree value) good buffer := by
  obtain ⟨found, run, there⟩ := startsWith_cases content buffer literal
  refine gives_get.before ((gives_lift run).before ?_)
  cases found with
  | false => exact otherwise
  | true =>
      refine gives_modify.before (gives_pure.safe ⟨⟨?_, Nat.le_add_right _ _, rfl⟩, isGood⟩)
      exact terminated.behind (there rfl) filled visible

/-- The branch of `parse_value` that the first byte selects. -/
theorem parses_selected (terminated : Terminated content) (inside : buffer.offset < content.length)
    (each : buffer.depth < nestingLimit → ∀ before : ParseBuffer, before.offset < content.length →
      before.depth = buffer.depth + 1 →
      Parses content value (Nested (nestingLimit - (buffer.depth + 1))) before) :
    Parses content (parseSelected content value) (Nested (nestingLimit - buffer.depth)) buffer := by
  obtain ⟨byte, there, _⟩ := exists_byte inside
  have peeks : Gives (peek content) buffer content[buffer.offset]? buffer := gives_peek buffer
  rw [there] at peeks
  refine peeks.before ?_
  dsimp only
  split_ifs
  · exact (safe_parseString terminated inside).map fun text after onward => ⟨onward, .string text⟩
  · exact parses_number terminated inside
  · exact parses_array terminated inside each
  · exact parses_object terminated each
  · exact safe_failure

/-- `parse_value` with enough calls left for the depth that is left. -/
theorem parses_value (terminated : Terminated content) (bound : Nat)
    (inside : buffer.offset < content.length) (shallow : buffer.depth ≤ nestingLimit)
    (enough : nestingLimit < bound + buffer.depth) :
    Parses content (parseValue content bound) (Nested (nestingLimit - buffer.depth)) buffer := by
  induction bound generalizing buffer with
  | zero => omega
  | succ bound ih =>
      refine parses_literal terminated (by decide) (by decide) .null ?_
      refine parses_literal terminated (by decide) (by decide) (.bool false) ?_
      refine parses_literal terminated (by decide) (by decide) (.bool true) ?_
      refine parses_selected terminated inside fun room before inner level => ?_
      have parsed := ih inner (by omega) (by omega)
      rwa [level] at parsed

end Values

/-! ## The whole parser -/

theorem safe_skipUtf8Bom (terminated : Terminated content) {buffer : ParseBuffer}
    (inside : buffer.offset < content.length) :
    Safe (skipUtf8Bom content) buffer fun _ after => Onward content buffer after := by
  have stays : Onward content buffer buffer := ⟨inside, le_rfl, rfl⟩
  refine gives_get.before ?_
  split_ifs
  · obtain ⟨found, run, there⟩ := startsWith_cases content buffer [0xEF, 0xBB, 0xBF]
    refine (gives_lift run).before ?_
    cases found with
    | false => exact gives_pure.safe stays
    | true =>
        refine gives_modify.safe ⟨?_, Nat.le_add_right _ _, rfl⟩
        exact terminated.behind (there rfl) (by decide) (by decide)
  · exact gives_pure.safe stays

/-- **`cJSON_Parse` is safe on every text**: it ends, it reads inside the text and its NUL
and writes inside the blocks of its strings, and the offset it leaves is inside the text. A
tree it returns is nested at most as deep as `CJSON_NESTING_LIMIT`. -/
theorem runParse_safe (text : CString) :
    ∃ result buffer, runParse text = .ok (result, buffer) ∧
      ∀ tree, result = some tree → buffer.offset ≤ text.length ∧ Nested nestingLimit tree := by
  have terminated : Terminated (text ++ [0]) := List.getLast?_concat
  let start : ParseBuffer := { offset := 0, depth := 0 }
  have inside : start.offset < (text ++ [0]).length := by simp [start]
  have parses : Safe (do
      skipUtf8Bom (text ++ [0])
      bufferSkipWhitespace (text ++ [0])
      parseValue (text ++ [0]) (nestingLimit + 1)) start fun tree after =>
        Onward (text ++ [0]) start after ∧ Nested nestingLimit tree := by
    refine (safe_skipUtf8Bom terminated inside).bind fun _ marked first => ?_
    refine (safe_skip first.inside).bind fun _ skipped second => ?_
    have before := first.trans second
    have level : skipped.depth = 0 := before.depth
    refine (parses_value terminated (nestingLimit + 1) before.inside (by omega) (by omega)).imp
      fun tree after ⟨onward, nested⟩ => ⟨before.trans onward, ?_⟩
    rwa [level] at nested
  obtain ⟨result, buffer, run, holds⟩ := parses
  refine ⟨result, buffer, run, fun tree same => ?_⟩
  obtain ⟨onward, nested⟩ := holds tree same
  have last := onward.inside
  rw [List.length_append, List.length_singleton] at last
  exact ⟨Nat.le_of_lt_succ last, nested⟩

end CJSON

end DnsServer
