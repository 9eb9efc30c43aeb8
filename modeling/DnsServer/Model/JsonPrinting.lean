import DnsServer.Foundation.Memory
import DnsServer.Foundation.Scanning
import DnsServer.Model.Json

/-!
# Printing JSON trees: `cJSON.c`

The printer writes into a buffer that grows with `realloc` when a part asks for more room
than is left (`ensure`). A part leaves its text with a NUL behind it, and `update_offset`
finds the end of it with `strlen`. Every byte is written and read through its index, and a
byte that has not been written cannot be read.

A result `none` is a `false` that is handed up to `print`, after a refused allocation or for
a text beyond `INT_MAX`. The numbers are those whose double is their `valueint`; the names
of members are not `NULL`.
-/

set_option autoImplicit false

namespace DnsServer

open Libc

/-- `printbuffer`, with the outcomes of the allocations to come. The content is empty where
the buffer is `NULL`; a byte is `none` until it is written. -/
structure PrintBuffer where
  content : List (Option UInt8)
  offset : Nat
  depth : Nat
  format : Bool
  allocations : Allocations

/-- A function of the printer: a result or `none`, and the buffer it leaves. -/
abbrev Printing (α : Type) := Scanner PrintBuffer Fault α

namespace CJSON

/-- `INT_MAX`. -/
def intMax : Nat := 2 ^ 31 - 1

/-! ## The buffer -/

/-- Whether the next allocation succeeds. -/
def allocate : Printing Bool := do
  let outcome := malloc.run (← get).allocations
  modify fun buffer => { buffer with allocations := outcome.2 }
  return outcome.1

/-- A block of another size with the same bytes. -/
def resized (content : List (Option UInt8)) (size : Nat) : List (Option UInt8) :=
  content.take size ++ List.replicate (size - content.length) none

/-- `realloc` of the buffer. Where it fails, the buffer is freed. -/
def reallocate (size : Nat) : Printing Unit := do
  if ← allocate then
    modify fun buffer => { buffer with content := resized buffer.content size }
  else
    modify fun buffer => { buffer with content := [] }
    failure

/-- The new size of a buffer that needs so much. -/
def newsize (needed : Nat) : Option Nat :=
  if intMax / 2 < needed then
    if needed ≤ intMax then some intMax else none
  else some (needed * 2)

/-- `ensure`. The pointer it returns is that of the offset. -/
def ensure (needed : Nat) : Printing Unit := do
  let buffer ← get
  if buffer.content.length ≤ buffer.offset then failure
  else if intMax < needed then failure
  else if needed + (buffer.offset + 1) ≤ buffer.content.length then return ()
  else
    match newsize (needed + (buffer.offset + 1)) with
    | none => failure
    | some size => reallocate size

/-- A block with other bytes from a position on. -/
def overwritten (content : List (Option UInt8)) (position : Nat) (bytes : List UInt8) :
    List (Option UInt8) :=
  content.take position ++ bytes.map some ++ content.drop (position + bytes.length)

/-- Write bytes from a position on. -/
def putAt (position : Nat) (bytes : List UInt8) : Printing Unit := do
  let content := (← get).content
  if position + bytes.length ≤ content.length then
    modify fun buffer => { buffer with content := overwritten content position bytes }
  else (throw (.write content.length) : Checked Unit)

/-- `strlen` on the bytes from an index on. -/
def strlen : List (Option UInt8) → Nat → Checked Nat
  | some byte :: rest, index =>
    if byte = 0 then return 0 else (· + 1) <$> strlen rest (index + 1)
  | _, index => throw (.read index)

/-- Move the offset by some bytes. -/
def moveOffset (count : Nat) : Printing Unit :=
  modify fun buffer => { buffer with offset := buffer.offset + count }

/-- `update_offset`. -/
def updateOffset : Printing Unit := do
  let buffer ← get
  if buffer.content.isEmpty then return ()
  else
    let length ← strlen (buffer.content.drop buffer.offset) buffer.offset
    moveOffset length

/-- Ask for room, write bytes to the pointer, and move the offset. -/
def emit (needed : Nat) (bytes : List UInt8) (count : Nat) : Printing Unit := do
  ensure needed
  putAt (← get).offset bytes
  moveOffset count

/-! ## Scalars -/

/-- A literal of `print_value`. -/
def printLiteral (literal : CString) : Printing Unit := emit (literal.length + 1) (literal ++ [0]) 0

/-- `print_number`. -/
def printNumber (valueint : Int) : Printing Unit := do
  let number := decimal valueint
  guard (number.length ≤ 25)
  emit (number.length + 1) (number ++ [0]) number.length

/-- The number of additional characters that escaping a byte needs. -/
def escapeCharacters (byte : UInt8) : Nat :=
  if byte = 34 ∨ byte = 92 ∨ byte = 8 ∨ byte = 12 ∨ byte = 10 ∨ byte = 13 ∨ byte = 9 then 1
  else if byte < 32 then 5
  else 0

/-- The escape of one letter for a byte. -/
def escapeLetter (byte : UInt8) : Option UInt8 :=
  if byte = 92 then some 92
  else if byte = 34 then some 34
  else if byte = 8 then some 98
  else if byte = 12 then some 102
  else if byte = 10 then some 110
  else if byte = 13 then some 114
  else if byte = 9 then some 116
  else none

/-- A hexadecimal digit of `%x`. -/
def hexLetter (digit : Nat) : UInt8 := UInt8.ofNat (if digit < 10 then 48 + digit else 87 + digit)

/-- `%04x` of a byte. -/
def hex4 (byte : UInt8) : CString :=
  [48, 48, hexLetter (byte.toNat / 16), hexLetter (byte.toNat % 16)]

/-- The loop that copies a string and escapes it. The NUL that `sprintf` writes is
overwritten. -/
def escapeLoop : CString → Nat → Printing Unit
  | [], _ => return ()
  | byte :: input, output_pointer =>
    if 31 < byte ∧ byte ≠ 34 ∧ byte ≠ 92 then do
      putAt output_pointer [byte]
      escapeLoop input (output_pointer + 1)
    else do
      putAt output_pointer [92]
      match escapeLetter byte with
      | some letter =>
        putAt (output_pointer + 1) [letter]
        escapeLoop input (output_pointer + 2)
      | none =>
        putAt (output_pointer + 1) (117 :: (hex4 byte ++ [0]))
        escapeLoop input (output_pointer + 6)

/-- `print_string_ptr`. -/
def printStringPtr (input : CString) : Printing Unit := do
  let escape_characters := (input.map escapeCharacters).sum
  let output_length := input.length + escape_characters
  ensure (output_length + 3)
  let output := (← get).offset
  if escape_characters = 0 then putAt output (34 :: (input ++ [34, 0]))
  else
    putAt output [34]
    escapeLoop input (output + 1)
    putAt (output + output_length + 1) [34, 0]

/-! ## Values -/

/-- What is written only where the print is a formatted one. -/
def formatted (format : Bool) (bytes : List UInt8) : List UInt8 := if format then bytes else []

/-- One level deeper. -/
def deeper : Printing Unit := modify fun buffer => { buffer with depth := buffer.depth + 1 }

/-- One level back. -/
def shallower : Printing Unit := modify fun buffer => { buffer with depth := buffer.depth - 1 }

/-- The comma of `print_array` behind an element that is not the last. -/
def printComma (last : Bool) : Printing Unit :=
  if last then return ()
  else do
    let comma := 44 :: formatted (← get).format [32]
    emit (comma.length + 1) (comma ++ [0]) comma.length

/-- The tabs in front of a member. -/
def printTabs : Printing Unit := do
  let buffer ← get
  if buffer.format then
    emit buffer.depth (List.replicate buffer.depth 9) buffer.depth
  else return ()

/-- The colon behind the name of a member. -/
def printColon : Printing Unit := do
  let colon := 58 :: formatted (← get).format [9]
  emit colon.length colon colon.length

/-- What is behind a member: a comma if it is not the last, and the end of the line. -/
def printBehind (last : Bool) : Printing Unit := do
  let behind := (if last then [] else [44]) ++ formatted (← get).format [10]
  emit (behind.length + 1) (behind ++ [0]) behind.length

/-- The opening bracket of `print_array`. -/
def openArray : Printing Unit := do
  emit 1 [91] 1
  deeper

/-- Its closing bracket. -/
def closeArray : Printing Unit := do
  emit 2 [93, 0] 0
  shallower

/-- The opening brace of `print_object`. -/
def openObject : Printing Unit := do
  let opening := 123 :: formatted (← get).format [10]
  emit (opening.length + 1) opening opening.length
  deeper

/-- Its closing brace. -/
def closeObject : Printing Unit := do
  let buffer ← get
  emit (if buffer.format then buffer.depth + 1 else 2)
    (formatted buffer.format (List.replicate (buffer.depth - 1) 9) ++ [125, 0]) 0
  shallower

mutual

/-- `print_value`, with `print_array` and `print_object`. -/
def printValue : CJSON → Printing Unit
  | .null => printLiteral (cstr "null")
  | .bool false => printLiteral (cstr "false")
  | .bool true => printLiteral (cstr "true")
  | .number valueint => printNumber valueint
  | .string valuestring => printStringPtr valuestring
  | .array items => do
    openArray
    printElements items
    closeArray
  | .object members => do
    openObject
    printMembers members
    closeObject

/-- The loop of `print_array`. -/
def printElements : List CJSON → Printing Unit
  | [] => return ()
  | item :: items => do
    printValue item
    updateOffset
    printComma items.isEmpty
    printElements items

/-- The loop of `print_object`. -/
def printMembers : List (CString × CJSON) → Printing Unit
  | [] => return ()
  | (name, value) :: members => do
    printTabs
    printStringPtr name
    updateOffset
    printColon
    printValue value
    updateOffset
    printBehind members.isEmpty
    printMembers members

end

/-- The body of `print`, where the buffer is still `NULL`: the block with the text. -/
def printBlock (item : CJSON) : Printing (List (Option UInt8)) := do
  guard (← allocate)
  modify fun buffer => { buffer with content := List.replicate 256 none }
  printValue item
  updateOffset
  reallocate ((← get).offset + 1)
  return (← get).content

/-- `print`: a fault, or the block with the text, or `NULL`. -/
def print (item : CJSON) (format : Bool) (allocations : Allocations) :
    Checked (Option (List (Option UInt8))) := do
  let (printed, _) ← (printBlock item).run.run
    { content := [], offset := 0, depth := 0, format, allocations }
  return printed

/-- `cJSON_Print` and `cJSON_PrintUnformatted`, where every allocation succeeds: the text. -/
def printText (item : CJSON) (format : Bool) : Option CString :=
  match print item format [] with
  | .ok (some block) => some (cutAtNul (block.filterMap id))
  | _ => none

end CJSON

end DnsServer
