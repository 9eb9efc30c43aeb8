import DnsServer.Foundation.Memory
import DnsServer.Foundation.Scanning
import DnsServer.Model.Json

/-!
# Parsing JSON text: `cJSON.c`

The parser walks over a buffer that ends with the NUL of the text. Every byte is read
through its index, so that what a run returns says that it stayed inside the buffer;
the bytes of a string are written into a block of the size that a first pass over the
literal has computed.

A result `none` is a `false` that is handed up to `cJSON_Parse`, with the buffer as it is
left; the allocations of the nodes all succeed here. Of a number the parser keeps
`valueint`, the integer part of a double that the server reads.
-/

set_option autoImplicit false

namespace DnsServer

open Libc

/-! ## Numbers -/

/-- The decimal number that `strtod` reads: `digits` times a power of ten. -/
structure DecimalNumber where
  negative : Bool
  digits : Nat
  exponent : Int
  deriving DecidableEq, Repr

/-- The exponent behind the digits, if there is one: its value, and the text after it. -/
def scanExponent (text : CString) : Int × CString :=
  match text with
  | e :: rest =>
    if e = 101 ∨ e = 69 then
      let (negative, rest) := scanSign rest
      let digits := rest.takeWhile isDigit
      if digits = [] then (0, text)
      else (if negative then -numeral digits else numeral digits, rest.dropWhile isDigit)
    else (0, text)
  | [] => (0, text)

/-- The fraction, if there is one: its digits, and the text after it. -/
def scanFraction (text : CString) : CString × CString :=
  match text with
  | 46 :: rest => (rest.takeWhile isDigit, rest.dropWhile isDigit)
  | _ => ([], text)

/-- `strtod` on a text of digits, signs, points and exponent marks: the number, and the
text after it. -/
def strtod (text : CString) : Option (DecimalNumber × CString) :=
  let (negative, rest) := scanSign text
  let whole := rest.takeWhile isDigit
  let (fraction, rest) := scanFraction (rest.dropWhile isDigit)
  if whole = [] ∧ fraction = [] then none
  else
    let (exponent, rest) := scanExponent rest
    some ({ negative, digits := numeral (whole ++ fraction),
            exponent := exponent - fraction.length }, rest)

/-- The integer nearest to a quotient, the even one of two that are equally near. -/
def roundHalfEven (numerator denominator : Nat) : Nat :=
  let quotient := numerator / denominator
  let remainder := numerator % denominator
  if 2 * remainder < denominator then quotient
  else if denominator < 2 * remainder then quotient + 1
  else quotient + quotient % 2

/-- The integer part of the double that is nearest to a quotient. A double has 53
significant bits; a quotient below one half has an integer part of zero. -/
def truncateDouble (numerator denominator : Nat) : Nat :=
  if 2 * numerator < denominator then 0
  else
    let size := Nat.log2 (2 * numerator / denominator)
    if size ≤ 53 then roundHalfEven (numerator * 2 ^ (53 - size)) denominator / 2 ^ (53 - size)
    else roundHalfEven numerator (denominator * 2 ^ (size - 53)) * 2 ^ (size - 53)

/-- The `valueint` of a number: the integer part of the double, saturated. -/
def DecimalNumber.valueint (number : DecimalNumber) : Int :=
  let magnitude := truncateDouble (number.digits * 10 ^ number.exponent.toNat)
    (10 ^ (-number.exponent).toNat)
  if number.negative then max (-2 ^ 31) (-(magnitude : Int))
  else min (2 ^ 31 - 1) (magnitude : Int)

/-! ## The buffer -/

/-- `parse_buffer`, without its `content`. -/
structure ParseBuffer where
  offset : Nat
  depth : Nat
  deriving DecidableEq, Repr

/-- A function of the parser: a result or `none`, and the buffer it leaves. -/
abbrev Parsing (α : Type) := Scanner ParseBuffer Fault α

namespace CJSON

/-- `CJSON_NESTING_LIMIT`. -/
def nestingLimit : Nat := 1000

section Buffer

variable (content : List UInt8)

/-- `can_access_at_index`. -/
def canAccess (buffer : ParseBuffer) (index : Nat) : Bool := buffer.offset + index < content.length

/-- `buffer_at_offset(buffer)[0]`. -/
def atOffset : Parsing UInt8 := do
  readAt content (← get).offset

/-- The byte at the offset, where it can be accessed. -/
def peek : Parsing (Option UInt8) := do
  let buffer ← get
  if canAccess content buffer 0 then some <$> atOffset content else return none

/-- Move the offset by some bytes. -/
def advance (count : Nat) : Parsing Unit :=
  modify fun buffer => { buffer with offset := buffer.offset + count }

/-- Move the offset back by one. -/
def retreat : Parsing Unit :=
  modify fun buffer => { buffer with offset := buffer.offset - 1 }

/-- Fail at a position. -/
def failAt {α : Type} (offset : Nat) : Parsing α := do
  modify fun buffer => { buffer with offset }
  failure

/-- The loop of `buffer_skip_whitespace`. -/
def skipLoop : Nat → Nat → Checked Nat
  | 0, _ => .error .diverged
  | bound + 1, offset =>
    if offset < content.length then do
      let byte ← readAt content offset
      if byte ≤ 32 then skipLoop bound (offset + 1) else return offset
    else return offset

/-- `buffer_skip_whitespace`. -/
def bufferSkipWhitespace : Parsing Unit := do
  let buffer ← get
  if canAccess content buffer 0 then
    let offset ← skipLoop content (content.length + 1) buffer.offset
    modify fun buffer =>
      { buffer with offset := if offset = content.length then offset - 1 else offset }
  else return ()

/-- `can_read` and `strncmp`: whether a literal is next in the buffer. -/
def startsWith (buffer : ParseBuffer) (literal : CString) : Checked Bool :=
  if buffer.offset + literal.length ≤ content.length then do
    let bytes ← readRange content buffer.offset literal.length
    return bytes == literal
  else return false

/-- `skip_utf8_bom`. -/
def skipUtf8Bom : Parsing Unit := do
  let buffer ← get
  if canAccess content buffer 4 then
    if ← startsWith content buffer [0xEF, 0xBB, 0xBF] then advance 3 else return ()
  else return ()

end Buffer

/-! ## Strings -/

section Strings

variable (content : List UInt8)

/-- A hexadecimal digit. -/
def hexDigit (byte : UInt8) : Option Nat :=
  if 48 ≤ byte ∧ byte ≤ 57 then some (byte.toNat - 48)
  else if 65 ≤ byte ∧ byte ≤ 70 then some (10 + byte.toNat - 65)
  else if 97 ≤ byte ∧ byte ≤ 102 then some (10 + byte.toNat - 97)
  else none

/-- The loop of `parse_hex4`, with the digits that are left. -/
def hexLoop : Nat → Nat → Nat → Checked Nat
  | 0, _, h => return h
  | left + 1, index, h => do
    match hexDigit (← readAt content index) with
    | none => return 0
    | some digit => hexLoop left (index + 1) (if 0 < left then (h + digit) <<< 4 else h + digit)

/-- `parse_hex4`. -/
def parseHex4 (index : Nat) : Checked Nat := hexLoop content 4 index 0

/-- The loop that writes the last bytes of a code point, from the last one on: the bytes,
and what is left of the code point. -/
def encodeLoop : Nat → Nat → List UInt8 → Nat × List UInt8
  | 0, codepoint, bytes => (codepoint, bytes)
  | position + 1, codepoint, bytes =>
    encodeLoop position (codepoint >>> 6) (UInt8.ofNat ((codepoint ||| 0x80) &&& 0xBF) :: bytes)

/-- The end of `utf16_literal_to_utf8`: the bytes of a code point. -/
def encodeUtf8 (codepoint : Nat) : List UInt8 :=
  let (utf8_length, first_byte_mark) :=
    if codepoint < 0x80 then (1, 0)
    else if codepoint < 0x800 then (2, 0xC0)
    else if codepoint < 0x10000 then (3, 0xE0)
    else (4, 0xF0)
  let (codepoint, bytes) := encodeLoop (utf8_length - 1) codepoint []
  if utf8_length > 1 then UInt8.ofNat ((codepoint ||| first_byte_mark) &&& 0xFF) :: bytes
  else UInt8.ofNat (codepoint &&& 0x7F) :: bytes

/-- `utf16_literal_to_utf8`: how many bytes the literal has, and the code point in UTF-8.
A code point above `0x10FFFF` cannot come out of a pair. -/
def utf16LiteralToUtf8 (input_pointer input_end : Nat) : Checked (Option (Nat × List UInt8)) :=
  if input_end - input_pointer < 6 then return none
  else do
    let first_code ← parseHex4 content (input_pointer + 2)
    if 0xDC00 ≤ first_code ∧ first_code ≤ 0xDFFF then return none
    else if 0xD800 ≤ first_code ∧ first_code ≤ 0xDBFF then
      let second_sequence := input_pointer + 6
      if input_end - second_sequence < 6 then return none
      else
        let backslash ← readAt content second_sequence
        if backslash ≠ 92 then return none
        else
          let mark ← readAt content (second_sequence + 1)
          if mark ≠ 117 then return none
          else
            let second_code ← parseHex4 content (second_sequence + 2)
            if second_code < 0xDC00 ∨ 0xDFFF < second_code then return none
            else
              let codepoint :=
                0x10000 + (((first_code &&& 0x3FF) <<< 10) ||| (second_code &&& 0x3FF))
              return some (12, encodeUtf8 codepoint)
    else return some (6, encodeUtf8 first_code)

/-- The first pass over a literal: its end, and the bytes that escapes leave out. -/
def scanLoop : Nat → Nat → Nat → Checked (Option (Nat × Nat))
  | 0, _, _ => .error .diverged
  | bound + 1, input_end, skipped_bytes =>
    if input_end < content.length then do
      let byte ← readAt content input_end
      if byte = 34 then return some (input_end, skipped_bytes)
      else if byte = 92 then
        if input_end + 1 ≥ content.length then return none
        else scanLoop bound (input_end + 2) (skipped_bytes + 1)
      else scanLoop bound (input_end + 1) skipped_bytes
    else return none

/-- What an escape of one letter stands for. -/
def escaped (letter : UInt8) : Option UInt8 :=
  if letter = 98 then some 8
  else if letter = 102 then some 12
  else if letter = 110 then some 10
  else if letter = 114 then some 13
  else if letter = 116 then some 9
  else if letter = 34 ∨ letter = 92 ∨ letter = 47 then some letter
  else none

/-- The second pass: copy the literal into the block, without its escapes. The first
result is the pointer where the pass has stopped. -/
def unescapeLoop (input_end : Nat) {size : Nat} :
    Nat → Nat → OutBuffer size → Checked (Nat × Option (OutBuffer size))
  | 0, _, _ => .error .diverged
  | bound + 1, input_pointer, output =>
    if input_pointer < input_end then do
      let byte ← readAt content input_pointer
      if byte ≠ 92 then
        let output ← output.append [byte]
        unescapeLoop input_end bound (input_pointer + 1) output
      else
        let letter ← readAt content (input_pointer + 1)
        if letter = 117 then
          match ← utf16LiteralToUtf8 content input_pointer input_end with
          | none => return (input_pointer, none)
          | some (sequence_length, bytes) =>
            let output ← output.append bytes
            unescapeLoop input_end bound (input_pointer + sequence_length) output
        else
          match escaped letter with
          | none => return (input_pointer, none)
          | some byte =>
            let output ← output.append [byte]
            unescapeLoop input_end bound (input_pointer + 2) output
    else return (input_pointer, some output)

/-- `parse_string`. What the string functions see of the block ends at its first NUL. -/
def parseString : Parsing CString := do
  let start := (← get).offset
  let byte ← atOffset content
  if byte ≠ 34 then failAt (start + 1)
  else
    match ← scanLoop content (content.length + 1) (start + 1) 0 with
    | none => failAt (start + 1)
    | some (input_end, skipped_bytes) =>
      let allocation_length := input_end - start - skipped_bytes
      let (input_pointer, output) ← unescapeLoop content input_end (content.length + 1) (start + 1)
        (OutBuffer.empty : OutBuffer (allocation_length + 1))
      match output with
      | none => failAt input_pointer
      | some output =>
        let output ← output.append [0]
        modify fun buffer => { buffer with offset := input_end + 1 }
        return cutAtNul output.bytes

end Strings

/-! ## Values -/

section Values

variable (content : List UInt8)

/-- Whether `parse_number` copies a byte. -/
def isNumberByte (byte : UInt8) : Bool :=
  isDigit byte || byte = 43 || byte = 45 || byte = 101 || byte = 69 || byte = 46

/-- The loop of `parse_number`: the copied bytes, as many as there is room for. -/
def numberLoop : Nat → Nat → Checked CString
  | 0, _ => return []
  | left + 1, index =>
    if index < content.length then do
      let byte ← readAt content index
      if isNumberByte byte then return byte :: (← numberLoop left (index + 1)) else return []
    else return []

/-- `parse_number`. -/
def parseNumber : Parsing CJSON := do
  let number_c_string ← numberLoop content 63 (← get).offset
  match strtod number_c_string with
  | none => failure
  | some (decimal, rest) =>
    advance (number_c_string.length - rest.length)
    return .number decimal.valueint

/-- A loop over the elements of an array or of an object: after each of them a comma
asks for one more. -/
def parseItems {α : Type} (item : Parsing α) : Nat → Parsing (List α)
  | 0 => (throw .diverged : Checked (List α))
  | bound + 1 => do
    let first ← item
    if (← peek content) = some 44 then (first :: ·) <$> parseItems item bound else return [first]

/-- The loop over the items, from the byte in front of the first one, and the closing
bracket behind the last one. -/
def parseFilled {α : Type} (close : UInt8) (item : Parsing α) : Parsing (List α) := do
  let inside := canAccess content (← get) 0
  retreat
  guard inside
  let items ← parseItems content item (content.length + 1)
  guard ((← peek content) = some close)
  return items

/-- What is between the brackets. -/
def parseBetween {α : Type} (close : UInt8) (item : Parsing α) : Parsing (List α) := do
  if (← peek content) = some close then return [] else parseFilled content close item

/-- The rest of `parse_array` and `parse_object`, from the opening bracket on. -/
def parseBody {α : Type} (close : UInt8) (item : Parsing α) : Parsing (List α) := do
  advance 1
  bufferSkipWhitespace content
  let items ← parseBetween content close item
  modify fun buffer => { offset := buffer.offset + 1, depth := buffer.depth - 1 }
  return items

/-- The nesting check at the start of both functions. -/
def enter : Parsing Unit := do
  guard ((← get).depth < nestingLimit)
  modify fun buffer => { buffer with depth := buffer.depth + 1 }

/-- An element of an array, from the byte in front of it. -/
def parseElement (parseValue : Parsing CJSON) : Parsing CJSON := do
  advance 1
  bufferSkipWhitespace content
  let value ← parseValue
  bufferSkipWhitespace content
  return value

/-- A member of an object, from the byte in front of it. -/
def parseMember (parseValue : Parsing CJSON) : Parsing (CString × CJSON) := do
  advance 1
  bufferSkipWhitespace content
  let name ← parseString content
  bufferSkipWhitespace content
  guard ((← peek content) = some 58)
  let value ← parseElement content parseValue
  return (name, value)

/-- `parse_array`. -/
def parseArray (parseValue : Parsing CJSON) : Parsing CJSON := do
  enter
  guard ((← atOffset content) = 91)
  .array <$> parseBody content 93 (parseElement content parseValue)

/-- `parse_object`. -/
def parseObject (parseValue : Parsing CJSON) : Parsing CJSON := do
  enter
  guard ((← peek content) = some 123)
  .object <$> parseBody content 125 (parseMember content parseValue)

/-- A literal of the parser and the value it stands for. -/
def parseLiteral (literal : CString) (value : CJSON) (otherwise : Parsing CJSON) :
    Parsing CJSON := do
  if ← startsWith content (← get) literal then
    advance literal.length
    return value
  else otherwise

/-- The branches of `parse_value` that the first byte selects. -/
def parseSelected (parseValue : Parsing CJSON) : Parsing CJSON := do
  match ← peek content with
  | none => failure
  | some byte =>
    if byte = 34 then .string <$> parseString content
    else if byte = 45 ∨ isDigit byte then parseNumber content
    else if byte = 91 then parseArray content parseValue
    else if byte = 123 then parseObject content parseValue
    else failure

/-- `parse_value`. The first argument bounds the nesting of its calls. -/
def parseValue : Nat → Parsing CJSON
  | 0 => (throw .diverged : Checked CJSON)
  | bound + 1 =>
    parseLiteral content (cstr "null") .null <|
    parseLiteral content (cstr "false") (.bool false) <|
    parseLiteral content (cstr "true") (.bool true) <|
    parseSelected content (parseValue bound)

end Values

/-- `cJSON_Parse` on a text in memory, with its NUL: a fault, or the tree or `NULL`, and
the buffer at the end. -/
def runParse (text : CString) : Checked (Option CJSON × ParseBuffer) :=
  let content := text ++ [0]
  let start : Parsing CJSON := do
    skipUtf8Bom content
    bufferSkipWhitespace content
    parseValue content (nestingLimit + 1)
  start.run.run { offset := 0, depth := 0 }

/-- `cJSON_Parse`. -/
def parse (text : CString) : Option CJSON :=
  match runParse text with
  | .ok (json, _) => json
  | .error _ => none

end CJSON

end DnsServer
