import DnsServer.Parsing.JsonSafety

/-!
# The strings and numbers of JSON

The grammar of the two kinds of token, with what a token stands for. The body of a string
spells bytes (`StringBody`): a character behind `\u` is given by its UTF-16 code units, and
the bytes are its UTF-8 encoding. A number spells a decimal fraction with an exponent
(`NumberText`).

The parser reads every such token as what it stands for (`gives_parseString`,
`gives_parseNumber`), wherever in the text it is. That the second pass over a string has the
room it needs is known from the safety of the parser.
-/

set_option autoImplicit false

namespace DnsServer

namespace CJSON

open Libc Scanner

/-! ## The grammar of tokens -/

/-- Four hexadecimal digits of a number. -/
inductive HexDigits : CString → Nat → Prop where
  | mk {first second third fourth : UInt8} {a b c d : Nat} (one : hexDigit first = some a)
      (two : hexDigit second = some b) (three : hexDigit third = some c)
      (four : hexDigit fourth = some d) :
      HexDigits [first, second, third, fourth] (a * 4096 + b * 256 + c * 16 + d)

/-- What is between the quotation marks of a string, and the bytes it spells. -/
inductive StringBody : CString → CString → Prop where
  | nil : StringBody [] []
  | byte {byte : UInt8} {body bytes : CString} (visible : byte ≠ 0) (plain : byte ≠ 34 ∧ byte ≠ 92)
      (tail : StringBody body bytes) : StringBody (byte :: body) (byte :: bytes)
  | escape {letter byte : UInt8} {body bytes : CString} (known : escaped letter = some byte)
      (tail : StringBody body bytes) : StringBody (92 :: letter :: body) (byte :: bytes)
  | unit {digits body bytes : CString} {char : Char} (spells : HexDigits digits char.toNat)
      (tail : StringBody body bytes) :
      StringBody (92 :: 117 :: (digits ++ body)) (String.utf8EncodeChar char ++ bytes)
  | pair {high low body bytes : CString} {char : Char} (large : 0x10000 ≤ char.toNat)
      (first : HexDigits high (0xD800 + (char.toNat - 0x10000) / 0x400))
      (second : HexDigits low (0xDC00 + (char.toNat - 0x10000) % 0x400))
      (tail : StringBody body bytes) :
      StringBody (92 :: 117 :: (high ++ 92 :: 117 :: (low ++ body)))
        (String.utf8EncodeChar char ++ bytes)

/-- The exponent of a number. -/
inductive ExponentText : CString → Int → Prop where
  | none : ExponentText [] 0
  | some {mark : UInt8} {sign digits : CString} {negative : Bool} (exponent : mark = 101 ∨ mark = 69)
      (signed : (sign, negative) ∈ [([], false), ([43], false), ([45], true)])
      (filled : digits ≠ []) (all : ∀ digit ∈ digits, isDigit digit) :
      ExponentText (mark :: (sign ++ digits))
        (if negative then -numeral digits else numeral digits)

/-- The fraction of a number, with its digits. -/
inductive FractionText : CString → CString → Prop where
  | none : FractionText [] []
  | some {digits : CString} (filled : digits ≠ []) (all : ∀ digit ∈ digits, isDigit digit) :
      FractionText (46 :: digits) digits

/-- A number, and the decimal fraction it stands for. -/
inductive NumberText : CString → DecimalNumber → Prop where
  | mk {negative : Bool} {whole fractionText fraction exponentText : CString} {exponent : Int}
      (filled : whole ≠ []) (all : ∀ digit ∈ whole, isDigit digit)
      (fractional : FractionText fractionText fraction)
      (scaled : ExponentText exponentText exponent) :
      NumberText ((if negative then [45] else []) ++ whole ++ fractionText ++ exponentText)
        { negative, digits := numeral (whole ++ fraction), exponent := exponent - fraction.length }

/-! ## UTF-8 -/

/-- A byte behind the first one has six bits of the code point. -/
theorem continuation_byte (n : Nat) :
    UInt8.ofNat ((n ||| 0x80) &&& 0xBF) = UInt8.ofNat (n % 64 + 0x80) := by
  have bytes : ∀ m < 256, (m ||| 128) &&& 191 = m % 64 + 128 := by decide +kernel
  apply UInt8.toNat_inj.mp
  rw [UInt8.ofNat_and, UInt8.ofNat_or, UInt8.toNat_and, UInt8.toNat_or]
  have byte := bytes (UInt8.ofNat n).toNat (UInt8.toNat_lt _)
  simp only [UInt8.toNat_ofNat'] at byte ⊢
  refine byte.trans ?_
  omega

/-- The first byte has the mark of the length above the highest bits. -/
theorem first_byte {b mark n : Nat} (marks : (b, mark) ∈ [(32, 0xC0), (16, 0xE0), (8, 0xF0)])
    (small : n < b) : UInt8.ofNat ((n ||| mark) &&& 0xFF) = UInt8.ofNat (n % b + mark) := by
  have bytes : ∀ bits mark, (bits, mark) ∈ [(32, 0xC0), (16, 0xE0), (8, 0xF0)] →
      ∀ m < bits, (m ||| mark) &&& 0xFF = m % bits + mark := by
    intro bits mark marks
    simp only [List.mem_cons, Prod.mk.injEq, List.not_mem_nil, or_false] at marks
    rcases marks with ⟨rfl, rfl⟩ | ⟨rfl, rfl⟩ | ⟨rfl, rfl⟩ <;> decide
  rw [bytes b mark marks n small]

theorem toNat_lt_char (char : Char) : char.toNat < 0x110000 := by
  rcases char.valid with small | ⟨_, large⟩
  · exact Nat.lt_trans small (by decide)
  · exact large

/-- The parser encodes a character as UTF-8 says. -/
theorem encodeUtf8_char (char : Char) : encodeUtf8 char.toNat = String.utf8EncodeChar char := by
  have scalar := toNat_lt_char char
  have same : char.val.toNat = char.toNat := rfl
  simp only [String.utf8EncodeChar, same]
  generalize char.toNat = code at scalar
  by_cases one : code ≤ 0x7f
  · have least : code &&& 0x7F = code := by
      rw [Nat.and_two_pow_sub_one_eq_mod code 7]
      omega
    rw [if_pos one, encodeUtf8, if_pos (by omega : code < 0x80)]
    show [UInt8.ofNat (code &&& 0x7F)] = _
    rw [least]
  rw [if_neg one, encodeUtf8, if_neg (by omega : ¬code < 0x80)]
  by_cases two : code ≤ 0x7ff
  · rw [if_pos two, if_pos (by omega : code < 0x800)]
    show [UInt8.ofNat ((code >>> 6 ||| 0xC0) &&& 0xFF), UInt8.ofNat ((code ||| 0x80) &&& 0xBF)] = _
    rw [continuation_byte, Nat.shiftRight_eq_div_pow, first_byte (b := 32) (by decide) (by omega)]
  rw [if_neg two, if_neg (by omega : ¬code < 0x800)]
  by_cases three : code ≤ 0xffff
  · rw [if_pos three, if_pos (by omega : code < 0x10000)]
    show [UInt8.ofNat ((code >>> 6 >>> 6 ||| 0xE0) &&& 0xFF),
      UInt8.ofNat ((code >>> 6 ||| 0x80) &&& 0xBF), UInt8.ofNat ((code ||| 0x80) &&& 0xBF)] = _
    rw [continuation_byte, continuation_byte, ← Nat.shiftRight_add, Nat.shiftRight_eq_div_pow,
      Nat.shiftRight_eq_div_pow, first_byte (b := 16) (by decide) (by omega)]
  rw [if_neg three, if_neg (by omega : ¬code < 0x10000)]
  show [UInt8.ofNat ((code >>> 6 >>> 6 >>> 6 ||| 0xF0) &&& 0xFF),
    UInt8.ofNat ((code >>> 6 >>> 6 ||| 0x80) &&& 0xBF),
    UInt8.ofNat ((code >>> 6 ||| 0x80) &&& 0xBF), UInt8.ofNat ((code ||| 0x80) &&& 0xBF)] = _
  rw [continuation_byte, continuation_byte, continuation_byte, ← Nat.shiftRight_add,
    ← Nat.shiftRight_add, Nat.shiftRight_eq_div_pow, Nat.shiftRight_eq_div_pow,
    Nat.shiftRight_eq_div_pow, Nat.div_div_eq_div_mul, first_byte (b := 8) (by decide) (by omega)]

/-! ## Reading strings -/

variable {content : List UInt8}

/-- A byte of what is left at a position. -/
theorem byte_of_drop {i : Nat} {text : List UInt8} (there : content.drop i = text) (k : Nat) :
    content[i + k]? = text[k]? := by
  rw [← there, List.getElem?_drop]

theorem drop_behind {i : Nat} (front : List UInt8) {rest : List UInt8}
    (there : content.drop i = front ++ rest) :
    content.drop (i + front.length) = rest := by
  rw [← List.drop_drop, there, List.drop_left]

theorem HexDigits.length_eq {digits : CString} {code : Nat} (spells : HexDigits digits code) :
    digits.length = 4 := by
  cases spells
  rfl

/-- A digit is neither a quotation mark nor a backslash. -/
theorem HexDigits.plain {digits : CString} {code : Nat} (spells : HexDigits digits code) :
    ∀ byte ∈ digits, byte ≠ 34 ∧ byte ≠ 92 := by
  have digit {byte : UInt8} {value : Nat} (known : hexDigit byte = some value) :
      byte ≠ 34 ∧ byte ≠ 92 := by
    constructor <;> rintro rfl <;> exact nomatch known
  cases spells with
  | mk one two three four =>
      simp only [List.forall_mem_cons, List.not_mem_nil, false_implies, implies_true, and_true]
      exact ⟨digit one, digit two, digit three, digit four⟩

theorem parseHex4_digits {digits tail : CString} {code index : Nat} (spells : HexDigits digits code)
    (there : content.drop index = digits ++ tail) : parseHex4 content index = .ok code := by
  cases spells with
  | @mk _ _ _ _ a b c d one two three four =>
      have first := readAt_of_getElem? (byte_of_drop there 0)
      have second := readAt_of_getElem? (byte_of_drop there 1)
      have third := readAt_of_getElem? (byte_of_drop there 2)
      have fourth := readAt_of_getElem? (byte_of_drop there 3)
      rw [Nat.add_zero] at first
      simp only [parseHex4, hexLoop, first, second, third, fourth, Checked.ok_bind, one, two, three,
        four]
      show Except.ok ((((0 + a) <<< 4 + b) <<< 4 + c) <<< 4 + d) = _
      refine congrArg Except.ok ?_
      simp only [Nat.shiftLeft_eq]
      omega

theorem unit_not_surrogate (char : Char) : ¬(0xD800 ≤ char.toNat ∧ char.toNat ≤ 0xDFFF) := by
  rcases char.valid with small | ⟨large, _⟩
  · exact fun inside => absurd (Nat.lt_of_le_of_lt inside.1 small) (by decide)
  · exact fun inside => absurd (Nat.lt_of_lt_of_le large inside.2) (by decide)

/-- An escape of one code unit is read as its character. -/
theorem utf16LiteralToUtf8_unit {digits tail : CString} {char : Char} {p stop : Nat}
    (spells : HexDigits digits char.toNat)
    (there : content.drop p = 92 :: 117 :: (digits ++ tail)) (inside : p + 6 ≤ stop) :
    utf16LiteralToUtf8 content p stop = .ok (some (6, String.utf8EncodeChar char)) := by
  have behind : content.drop (p + 2) = digits ++ tail := drop_behind [92, 117] there
  have single := unit_not_surrogate char
  have enough : ¬stop - p < 6 := by omega
  have notLow : ¬(0xDC00 ≤ char.toNat ∧ char.toNat ≤ 0xDFFF) := by omega
  have notHigh : ¬(0xD800 ≤ char.toNat ∧ char.toNat ≤ 0xDBFF) := by omega
  rw [utf16LiteralToUtf8, if_neg enough, parseHex4_digits spells behind, Checked.ok_bind,
    if_neg notLow, if_neg notHigh, encodeUtf8_char]
  rfl

/-- An escape of two code units is read as the character of the pair. -/
theorem utf16LiteralToUtf8_pair {high low tail : CString} {char : Char} {a b p stop : Nat}
    (first : HexDigits high a) (second : HexDigits low b) (isHigh : 0xD800 ≤ a ∧ a ≤ 0xDBFF)
    (isLow : 0xDC00 ≤ b ∧ b ≤ 0xDFFF)
    (joined : 0x10000 + (a % 0x400 * 0x400 + b % 0x400) = char.toNat)
    (there : content.drop p = 92 :: 117 :: (high ++ 92 :: 117 :: (low ++ tail)))
    (inside : p + 12 ≤ stop) :
    utf16LiteralToUtf8 content p stop = .ok (some (12, String.utf8EncodeChar char)) := by
  have behindHigh : content.drop (p + 2) = high ++ 92 :: 117 :: (low ++ tail) :=
    drop_behind [92, 117] there
  have next : content.drop (p + 6) = 92 :: 117 :: (low ++ tail) := by
    have := drop_behind _ behindHigh
    rwa [first.length_eq] at this
  have behindLow : content.drop (p + 6 + 2) = low ++ tail := drop_behind [92, 117] next
  have mark := readAt_of_getElem? (byte_of_drop next 0)
  have letter := readAt_of_getElem? (byte_of_drop next 1)
  rw [Nat.add_zero] at mark
  have codepoint : 0x10000 + (((a &&& 0x3FF) <<< 10) ||| (b &&& 0x3FF)) = char.toNat := by
    rw [Nat.and_two_pow_sub_one_eq_mod _ 10, Nat.and_two_pow_sub_one_eq_mod _ 10,
      ← Nat.shiftLeft_add_eq_or_of_lt (by omega), Nat.shiftLeft_eq]
    exact joined
  have enough : ¬stop - p < 6 := by omega
  have enoughLow : ¬stop - (p + 6) < 6 := by omega
  have notLow : ¬(0xDC00 ≤ a ∧ a ≤ 0xDFFF) := by omega
  have notSingle : ¬(b < 0xDC00 ∨ 0xDFFF < b) := by omega
  rw [utf16LiteralToUtf8, if_neg enough, parseHex4_digits first behindHigh, Checked.ok_bind,
    if_neg notLow, if_pos isHigh]
  simp only [mark, letter, Checked.ok_bind, parseHex4_digits second behindLow, if_neg enoughLow,
    if_neg notSingle, codepoint, encodeUtf8_char]
  rfl

/-- The first pass goes over the text, wherever it is. -/
def Passes (content text : List UInt8) : Prop :=
  ∀ (tail : CString) (first bound skipped : Nat), content.drop first = text ++ tail →
    content.length < first + bound →
      ∃ left skips, scanLoop content bound first skipped =
          scanLoop content left (first + text.length) skips ∧
        content.length < first + text.length + left

theorem passes_nil : Passes content [] := fun _ _ _ skipped _ enough =>
  ⟨_, skipped, rfl, enough⟩

theorem Passes.append {front back : CString} (one : Passes content front)
    (two : Passes content back) : Passes content (front ++ back) := by
  intro tail first bound skipped there enough
  rw [List.append_assoc] at there
  obtain ⟨left, middle, run, room⟩ := one _ first bound skipped there enough
  obtain ⟨rest, skips, rerun, further⟩ := two tail _ left middle (drop_behind front there) room
  rw [List.length_append, ← Nat.add_assoc]
  exact ⟨rest, skips, run.trans rerun, further⟩

theorem passes_byte {byte : UInt8} (plain : byte ≠ 34 ∧ byte ≠ 92) : Passes content [byte] := by
  intro tail first bound skipped there enough
  have here : content[first]? = some byte := byte_of_drop there 0
  have inside := (List.getElem?_eq_some_iff.mp here).1
  obtain ⟨bound, rfl⟩ : ∃ rest, bound = rest + 1 := ⟨bound - 1, by omega⟩
  refine ⟨bound, skipped, ?_, by rw [List.length_singleton]; omega⟩
  rw [scanLoop, if_pos inside, readAt_of_getElem? here, Checked.ok_bind, if_neg plain.1,
    if_neg plain.2, List.length_singleton]

theorem passes_plain {text : CString} (all : ∀ byte ∈ text, byte ≠ 34 ∧ byte ≠ 92) :
    Passes content text := by
  induction text with
  | nil => exact passes_nil
  | cons byte text ih =>
      have rest := ih fun other member => all other (List.mem_cons_of_mem byte member)
      exact (passes_byte (all byte List.mem_cons_self)).append rest

theorem passes_escape (letter : UInt8) : Passes content [92, letter] := by
  intro tail first bound skipped there enough
  have here : content[first]? = some 92 := byte_of_drop there 0
  have inside := (List.getElem?_eq_some_iff.mp here).1
  have next := (List.getElem?_eq_some_iff.mp (byte_of_drop there 1)).1
  obtain ⟨bound, rfl⟩ : ∃ rest, bound = rest + 1 := ⟨bound - 1, by omega⟩
  refine ⟨bound, skipped + 1, ?_, by show _ < first + 2 + bound; omega⟩
  rw [scanLoop, if_pos inside, readAt_of_getElem? here, Checked.ok_bind, if_neg (by decide),
    if_pos rfl, if_neg (by omega)]
  rfl

/-- The first pass goes over a body. -/
theorem passes_body {body bytes : CString} (spells : StringBody body bytes) :
    Passes content body := by
  induction spells with
  | nil => exact passes_nil
  | byte _ plain _ ih => exact (passes_byte plain).append ih
  | @escape letter _ _ _ _ _ ih => exact (passes_escape letter).append ih
  | unit spells _ ih => exact (passes_escape 117).append ((passes_plain spells.plain).append ih)
  | pair _ first second _ ih =>
      have low := (passes_escape 117).append ((passes_plain second.plain).append ih)
      exact (passes_escape 117).append ((passes_plain first.plain).append low)

/-- The first pass ends at the quotation mark behind a body. -/
theorem scanLoop_body {body bytes tail : CString} (spells : StringBody body bytes) {first bound : Nat}
    (skipped : Nat) (there : content.drop first = body ++ 34 :: tail)
    (enough : content.length < first + bound) :
    ∃ skips, scanLoop content bound first skipped = .ok (some (first + body.length, skips)) := by
  obtain ⟨left, skips, run, room⟩ := passes_body spells _ first bound skipped there enough
  have mark : content[first + body.length]? = some 34 := byte_of_drop (drop_behind body there) 0
  have inside := (List.getElem?_eq_some_iff.mp mark).1
  obtain ⟨left, rfl⟩ : ∃ rest, left = rest + 1 := ⟨left - 1, by omega⟩
  refine ⟨skips, run.trans ?_⟩
  rw [scanLoop, if_pos inside, readAt_of_getElem? mark, Checked.ok_bind]
  rfl

/-- What a run that succeeds has appended. -/
theorem append_eq_ok {size : Nat} {output after : OutBuffer size} {more : List UInt8}
    (run : output.append more = .ok after) : after.bytes = output.bytes ++ more := by
  rw [OutBuffer.append] at run
  split at run
  · cases run
    rfl
  · cases run

theorem bind_eq_ok {α β : Type} {computation : Checked α} {next : α → Checked β} {result : β}
    (run : computation >>= next = .ok result) :
    ∃ value, computation = .ok value ∧ next value = .ok result := by
  cases computation with
  | error fault => cases run
  | ok value => exact ⟨value, rfl, run⟩

/-- In one round the second pass goes over the text and writes the bytes, wherever it is. -/
def Writes (content text bytes : List UInt8) : Prop :=
  ∀ (size : Nat) (tail : CString) (stop bound p : Nat) (output : OutBuffer size),
    content.drop p = text ++ tail → p + text.length ≤ stop →
      unescapeLoop content stop (bound + 1) p output = do
        let output ← output.append bytes
        unescapeLoop content stop bound (p + text.length) output

theorem writes_byte {byte : UInt8} (plain : byte ≠ 92) : Writes content [byte] [byte] := by
  intro size tail stop bound p output there inside
  have here : content[p]? = some byte := byte_of_drop there 0
  have before : p < stop := inside
  rw [unescapeLoop, if_pos before, readAt_of_getElem? here, Checked.ok_bind, if_pos plain]
  rfl

theorem writes_escape {letter byte : UInt8} (known : escaped letter = some byte) :
    Writes content [92, letter] [byte] := by
  intro size tail stop bound p output there inside
  have here : content[p]? = some 92 := byte_of_drop there 0
  have next : content[p + 1]? = some letter := byte_of_drop there 1
  have other : letter ≠ 117 := by
    rintro rfl
    exact nomatch known
  have enough : p + 2 ≤ stop := inside
  have before : p < stop := by omega
  rw [unescapeLoop, if_pos before, readAt_of_getElem? here, Checked.ok_bind, if_neg (by decide),
    readAt_of_getElem? next, Checked.ok_bind, if_neg other, known]
  rfl

/-- An escape that is read as bytes. -/
theorem writes_unicode {text bytes : CString} (filled : 0 < text.length)
    (reads : ∀ tail p stop, content.drop p = 92 :: 117 :: text ++ tail → p + text.length + 2 ≤ stop →
      utf16LiteralToUtf8 content p stop = .ok (some (text.length + 2, bytes))) :
    Writes content (92 :: 117 :: text) bytes := by
  intro size tail stop bound p output there inside
  have here : content[p]? = some 92 := byte_of_drop there 0
  have next : content[p + 1]? = some 117 := byte_of_drop there 1
  rw [List.length_cons, List.length_cons] at inside ⊢
  rw [unescapeLoop, if_pos (by omega), readAt_of_getElem? here, Checked.ok_bind, if_neg (by decide),
    readAt_of_getElem? next, Checked.ok_bind, if_pos rfl, reads tail p stop there inside]
  rfl

theorem writes_unit {digits : CString} {char : Char} (spells : HexDigits digits char.toNat) :
    Writes content (92 :: 117 :: digits) (String.utf8EncodeChar char) := by
  have four := spells.length_eq
  refine writes_unicode (by omega : 0 < digits.length) fun tail p stop there inside => ?_
  rw [four] at inside ⊢
  exact utf16LiteralToUtf8_unit spells there (by omega)

theorem writes_pair {high low : CString} {char : Char} (large : 0x10000 ≤ char.toNat)
    (first : HexDigits high (0xD800 + (char.toNat - 0x10000) / 0x400))
    (second : HexDigits low (0xDC00 + (char.toNat - 0x10000) % 0x400)) :
    Writes content (92 :: 117 :: (high ++ 92 :: 117 :: low)) (String.utf8EncodeChar char) := by
  have scalar := toNat_lt_char char
  have four := first.length_eq
  have fourLow := second.length_eq
  have ten : (high ++ 92 :: 117 :: low).length = 10 := by
    rw [List.length_append, List.length_cons, List.length_cons, four, fourLow]
  refine writes_unicode (by rw [ten]; decide) fun tail p stop there inside => ?_
  rw [ten] at inside ⊢
  refine utf16LiteralToUtf8_pair first second (by omega) (by omega) (by omega)
    (?_ : _ = _ :: _ :: (_ ++ _ :: _ :: (_ ++ tail))) inside
  simpa using there

/-- The second pass over a body writes what the body spells, where it meets no fault. -/
theorem unescapeLoop_body {size stop : Nat} {body bytes : CString} (spells : StringBody body bytes)
    {p bound : Nat} {tail : CString} {output : OutBuffer size} {result : Nat × Option (OutBuffer size)}
    (there : content.drop p = body ++ tail) (ends : stop = p + body.length)
    (run : unescapeLoop content stop bound p output = .ok result) :
    ∃ copied, result.2 = some copied ∧ copied.bytes = output.bytes ++ bytes := by
  -- one round, and the rounds behind it
  have step {text first body bytes : CString} {p bound : Nat} {output : OutBuffer size}
      (writes : Writes content text first)
      (ih : ∀ {p bound : Nat} {output : OutBuffer size}, content.drop p = body ++ tail →
        stop = p + body.length → unescapeLoop content stop bound p output = .ok result →
          ∃ copied, result.2 = some copied ∧ copied.bytes = output.bytes ++ bytes)
      (there : content.drop p = text ++ body ++ tail) (ends : stop = p + (text ++ body).length)
      (run : unescapeLoop content stop bound p output = .ok result) :
      ∃ copied, result.2 = some copied ∧ copied.bytes = output.bytes ++ (first ++ bytes) := by
    cases bound with
    | zero => cases run
    | succ bound =>
        rw [List.append_assoc] at there
        rw [List.length_append, ← Nat.add_assoc] at ends
        rw [writes _ _ stop bound p output there (by omega)] at run
        obtain ⟨middle, appends, run⟩ := bind_eq_ok run
        obtain ⟨copied, same, appended⟩ := ih (drop_behind text there) ends run
        refine ⟨copied, same, ?_⟩
        rw [appended, append_eq_ok appends, List.append_assoc]
  induction spells generalizing p bound output with
  | nil =>
      cases bound with
      | zero => cases run
      | succ bound =>
          rw [unescapeLoop, if_neg (by rw [ends, List.length_nil]; omega)] at run
          cases run
          exact ⟨output, rfl, (List.append_nil _).symm⟩
  | byte _ plain _ ih => exact step (writes_byte plain.2) ih there ends run
  | escape known _ ih => exact step (writes_escape known) ih there ends run
  | unit spells _ ih => exact step (writes_unit spells) ih there ends run
  | pair large first second _ ih =>
      refine step (writes_pair large first second) ih (by simpa using there) ?_ run
      simpa using ends

/-- A string is read as the text in front of the first NUL that it spells. -/
theorem gives_parseString (terminated : Terminated content) {body bytes tail : CString}
    (spells : StringBody body bytes) {buffer : ParseBuffer}
    (there : content.drop buffer.offset = 34 :: (body ++ 34 :: tail)) :
    Gives (parseString content) buffer (cutAtNul bytes)
      { buffer with offset := buffer.offset + (body.length + 2) } := by
  have quote : content[buffer.offset]? = some 34 := byte_of_drop there 0
  have next := terminated.next quote (by decide)
  have inner : content.drop (buffer.offset + 1) = body ++ 34 :: tail := drop_behind [34] there
  obtain ⟨count, scans⟩ := scanLoop_body spells 0 inner
    (by omega : content.length < buffer.offset + 1 + (content.length + 1))
  rcases scanLoop_stops (content.length + 1) 0 (le_of_lt next) (by omega) with
    fails | ⟨stop, skips, run, _, mark, counted⟩
  · exact nomatch scans.symm.trans fails
  cases scans.symm.trans run
  have last := (List.getElem?_eq_some_iff.mp mark).1
  let block : OutBuffer (buffer.offset + 1 + body.length - buffer.offset -
    skips (buffer.offset + 1 + body.length) + 1) := OutBuffer.empty
  have nothing : block.length + skips (buffer.offset + 1) ≤
      buffer.offset + 1 - (buffer.offset + 1) := by
    rw [OutBuffer.length_empty, counted.start _ le_rfl]
    exact Nat.zero_le _
  obtain ⟨result, copies, room⟩ := unescapeLoop_safe counted mark (by omega)
    (content.length + 1) block le_rfl (by omega) (by omega) (by omega) nothing
  obtain ⟨copied, same, written⟩ := unescapeLoop_body spells inner rfl copies
  obtain ⟨input_pointer, output⟩ := result
  cases same
  rw [OutBuffer.bytes_empty, List.nil_append] at written
  refine gives_get.bind ((gives_atOffset quote).bind ?_)
  rw [if_neg (by decide)]
  refine (gives_lift run).bind ((gives_lift copies).bind ?_)
  refine (gives_lift (OutBuffer.append_of_room (room copied rfl))).bind ?_
  have behind : buffer.offset + 1 + body.length + 1 = buffer.offset + (body.length + 2) := by omega
  refine gives_modify.bind ?_
  rw [behind]
  show Gives (pure (cutAtNul (copied.bytes ++ [0]))) _ _ _
  rw [cutAtNul_concat_nul, written]
  exact gives_pure

/-! ## Reading numbers -/

/-- A number below the precision of a double is the integer part of its double. -/
theorem truncateDouble_small {n : Nat} (small : n < 2 ^ 53) : truncateDouble n 1 = n := by
  rw [truncateDouble]
  split
  · omega
  · have positive : 2 * n ≠ 0 := by omega
    have size : Nat.log2 (2 * n) ≤ 53 :=
      Nat.le_of_lt_succ ((Nat.log2_lt positive).mpr (by omega : 2 * n < 2 ^ 54))
    have exact_ (m : Nat) : roundHalfEven m 1 = m := by
      rw [roundHalfEven, Nat.mod_one, Nat.div_one]
      rfl
    simp only [Nat.div_one, if_pos size, exact_]
    exact Nat.mul_div_cancel n (Nat.pow_pos (by decide))

/-- A number beyond that stays beyond it. -/
theorem le_truncateDouble {n : Nat} (large : 2 ^ 53 ≤ n) : 2 ^ 53 ≤ truncateDouble n 1 := by
  rw [truncateDouble, if_neg (by omega)]
  have positive : 2 * n ≠ 0 := by omega
  have size : ¬Nat.log2 (2 * n / 1) ≤ 53 := by
    rw [Nat.div_one]
    have := (Nat.le_log2 positive).mpr (by omega : 2 ^ 54 ≤ 2 * n)
    omega
  have least : 2 ^ Nat.log2 (2 * n / 1) ≤ 2 * n := by
    rw [Nat.div_one]
    exact Nat.log2_self_le positive
  simp only [if_neg size]
  generalize Nat.log2 (2 * n / 1) = bits at size least
  obtain ⟨rest, rfl⟩ : ∃ rest, bits = rest + 54 := ⟨bits - 54, by omega⟩
  have scale : rest + 54 - 53 = rest + 1 := by omega
  rw [scale, one_mul]
  have rounded : n / 2 ^ (rest + 1) ≤ roundHalfEven n (2 ^ (rest + 1)) := by
    simp only [roundHalfEven]
    split_ifs <;> omega
  have quotient : 2 ^ 52 ≤ n / 2 ^ (rest + 1) := by
    rw [Nat.le_div_iff_mul_le (Nat.pow_pos (by decide)), ← Nat.pow_add]
    have : 2 ^ (rest + 54) = 2 * 2 ^ (52 + (rest + 1)) := by
      rw [← Nat.pow_succ']
      congr 1
      omega
    omega
  calc 2 ^ 53 = 2 ^ 52 * 2 := rfl
    _ ≤ 2 ^ 52 * 2 ^ (rest + 1) := Nat.mul_le_mul_left _ (Nat.le_self_pow (by omega) 2)
    _ ≤ roundHalfEven n (2 ^ (rest + 1)) * 2 ^ (rest + 1) :=
        Nat.mul_le_mul_right _ (quotient.trans rounded)

/-- A number without fraction and exponent is the node of an integer. -/
theorem valueint_integer (negative : Bool) (n : Nat) :
    CJSON.number (DecimalNumber.valueint { negative, digits := n, exponent := 0 }) =
      integer (if negative then -n else n) := by
  have unscaled : DecimalNumber.valueint { negative, digits := n, exponent := 0 } =
      if negative then max (-2 ^ 31) (-(truncateDouble n 1 : Int))
      else min (2 ^ 31 - 1) (truncateDouble n 1 : Int) := by
    simp [DecimalNumber.valueint]
  rw [unscaled, integer]
  congr 1
  by_cases small : n < 2 ^ 53
  · rw [truncateDouble_small small]
    split_ifs <;> omega
  · have large := le_truncateDouble (Nat.le_of_not_lt small)
    split_ifs <;> omega

theorem scanSign_digit {first : UInt8} {rest : CString} (digit : isDigit first) :
    scanSign (first :: rest) = (false, first :: rest) := by
  have range := isDigit_range digit
  unfold scanSign
  split
  · next same =>
    cases same
    simp at range
  · next same =>
    cases same
    simp at range
  · rfl

/-- A sign in front of digits. -/
theorem scanSign_signed {sign digits : CString} {negative : Bool} (rest : CString)
    (signed : (sign, negative) ∈ [([], false), ([43], false), ([45], true)]) (filled : digits ≠ [])
    (all : ∀ digit ∈ digits, isDigit digit) :
    scanSign (sign ++ (digits ++ rest)) = (negative, digits ++ rest) := by
  simp only [List.mem_cons, Prod.mk.injEq, List.not_mem_nil, or_false] at signed
  rcases signed with ⟨rfl, rfl⟩ | ⟨rfl, rfl⟩ | ⟨rfl, rfl⟩
  · cases digits with
    | nil => exact absurd rfl filled
    | cons first digits => exact scanSign_digit (all first List.mem_cons_self)
  · rfl
  · rfl

theorem ExponentText.scan {text : CString} {exponent : Int} (spells : ExponentText text exponent) :
    scanExponent text = (exponent, []) := by
  cases spells with
  | none => rfl
  | @some mark sign digits negative marks signed filled all =>
      have stop : ∀ byte ∈ ([] : CString).head?, isDigit byte = false := by simp
      obtain ⟨taken, dropped⟩ := span_append all stop
      have scanned := scanSign_signed [] signed filled all
      rw [List.append_nil] at taken dropped scanned
      simp only [scanExponent, if_pos marks, scanned, taken, dropped, if_neg filled]

theorem ExponentText.stop {text : CString} {exponent : Int} (spells : ExponentText text exponent) :
    ∀ byte ∈ text.head?, isDigit byte = false ∧ byte ≠ 46 := by
  cases spells with
  | none => simp
  | some marks _ _ _ =>
      intro byte head
      cases head
      rcases marks with rfl | rfl <;> decide

theorem FractionText.scan {text digits exponentText : CString} {exponent : Int}
    (spells : FractionText text digits) (behind : ExponentText exponentText exponent) :
    scanFraction (text ++ exponentText) = (digits, exponentText) := by
  cases spells with
  | none =>
      have stop := behind.stop
      rw [List.nil_append]
      unfold scanFraction
      split
      · exact absurd rfl (stop 46 rfl).2
      · rfl
  | some _ all =>
      obtain ⟨taken, dropped⟩ := span_append all fun byte head => (behind.stop byte head).1
      simp only [scanFraction, List.cons_append, taken, dropped]

/-- `strtod` reads a number up to its end. -/
theorem NumberText.strtod_eq {text : CString} {number : DecimalNumber}
    (spells : NumberText text number) : strtod text = some (number, []) := by
  cases spells with
  | @mk negative whole fractionText fraction exponentText exponent filled all fractional scaled =>
      have stop : ∀ byte ∈ (fractionText ++ exponentText).head?, isDigit byte = false := by
        cases fractional with
        | none => exact fun byte head => (scaled.stop byte head).1
        | some _ _ =>
            intro byte head
            cases head
            rfl
      have signed : ((if negative then [45] else [] : CString), negative) ∈
          [([], false), ([43], false), ([45], true)] := by
        cases negative <;> simp
      have sign := scanSign_signed (fractionText ++ exponentText) signed filled all
      obtain ⟨taken, dropped⟩ := span_append all stop
      rw [List.append_assoc, List.append_assoc, strtod, sign]
      simp only [taken, dropped, fractional.scan scaled, scaled.scan]
      rw [if_neg fun empty => filled empty.1]

theorem isNumberByte_digit {byte : UInt8} (digit : isDigit byte) : isNumberByte byte := by
  simp [isNumberByte, digit]

theorem NumberText.bytes {text : CString} {number : DecimalNumber} (spells : NumberText text number) :
    ∀ byte ∈ text, isNumberByte byte := by
  cases spells with
  | @mk negative whole fractionText fraction exponentText exponent filled all fractional scaled =>
      have ofFraction : ∀ byte ∈ fractionText, isNumberByte byte := by
        cases fractional with
        | none => simp
        | some _ all =>
            exact List.forall_mem_cons.mpr ⟨rfl, fun byte member => isNumberByte_digit (all byte member)⟩
      have ofExponent : ∀ byte ∈ exponentText, isNumberByte byte := by
        cases scaled with
        | none => simp
        | some marks signed _ all =>
            refine List.forall_mem_cons.mpr ⟨by rcases marks with rfl | rfl <;> rfl, ?_⟩
            refine List.forall_mem_append.mpr ⟨?_, fun byte member => isNumberByte_digit (all byte member)⟩
            simp only [List.mem_cons, Prod.mk.injEq, List.not_mem_nil, or_false] at signed
            rcases signed with ⟨rfl, _⟩ | ⟨rfl, _⟩ | ⟨rfl, _⟩ <;> simp [isNumberByte]
      refine List.forall_mem_append.mpr ⟨List.forall_mem_append.mpr
        ⟨List.forall_mem_append.mpr ⟨?_, fun byte member => isNumberByte_digit (all byte member)⟩,
          ofFraction⟩, ofExponent⟩
      cases negative <;> simp [isNumberByte]

/-- The copy of a number ends where the number ends. -/
theorem numberLoop_eq {text tail : CString} {left index : Nat} (bytes : ∀ byte ∈ text, isNumberByte byte)
    (stop : ∀ byte ∈ tail.head?, isNumberByte byte = false) (room : text.length ≤ left)
    (there : content.drop index = text ++ tail) : numberLoop content left index = .ok text := by
  induction text generalizing left index with
  | nil =>
      cases left with
      | zero => rfl
      | succ left =>
          have here := byte_of_drop there 0
          rw [List.nil_append, ← List.head?_eq_getElem?, Nat.add_zero] at here
          rw [numberLoop]
          split
          · next inside =>
            rw [List.getElem?_eq_getElem inside] at here
            have other := stop _ (Option.mem_def.mpr here.symm)
            rw [readAt_of_getElem? (List.getElem?_eq_getElem inside), Checked.ok_bind, if_neg]
            · rfl
            · rw [other]
              exact Bool.false_ne_true
          · rfl
  | cons byte text ih =>
      cases left with
      | zero => exact absurd room (Nat.not_succ_le_zero _)
      | succ left =>
          have here : content[index]? = some byte := byte_of_drop there 0
          have inside := (List.getElem?_eq_some_iff.mp here).1
          obtain ⟨own, others⟩ := List.forall_mem_cons.mp bytes
          have rest : numberLoop content left (index + 1) = .ok text :=
            ih others (Nat.le_of_succ_le_succ room) (drop_behind [byte] there)
          rw [numberLoop, if_pos inside, readAt_of_getElem? here, Checked.ok_bind, if_pos own, rest]
          rfl

/-- A number that fits the copy of `parse_number` is read as what it stands for. -/
theorem gives_parseNumber {text tail : CString} {number : DecimalNumber}
    (spells : NumberText text number) (short : text.length ≤ 63)
    (stop : ∀ byte ∈ tail.head?, isNumberByte byte = false) {buffer : ParseBuffer}
    (there : content.drop buffer.offset = text ++ tail) :
    Gives (parseNumber content) buffer (.number number.valueint)
      { buffer with offset := buffer.offset + text.length } := by
  refine gives_get.bind ((gives_lift (numberLoop_eq spells.bytes stop short there)).bind ?_)
  rw [spells.strtod_eq]
  exact gives_modify.bind gives_pure

end CJSON

end DnsServer
