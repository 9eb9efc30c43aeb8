import DnsServer.Model.Records

/-!
# The text of all records: `get_records_list`

The list is printed piece by piece into a buffer that grows. Each piece is
printed once; when it does not fit the buffer is doubled and the piece is printed
again, and the position moves on by the length of the piece in any case.

`snprintf` returns the length of the whole text and writes at most the size it
is given, the NUL included. The size is a `size_t`, so the difference of the size
of the buffer and the position wraps once the position is behind the buffer.
-/

set_option autoImplicit false

namespace DnsServer

open Libc

/-- The locals of `get_records_list`: the allocation at `buffer`, whose length is
`buf_size`, and the position in it. The outcomes of the allocations to come and
the calls of `snprintf` so far, each with its position and buffer size, are kept
with them. -/
structure ListState where
  memory : List UInt8
  offset : Nat
  allocations : Allocations
  calls : List (Nat × Nat)

/-- The function returns `NULL`, or it has written outside its allocation. -/
inductive ListStop where
  | null (calls : List (Nat × Nat))
  | fault (fault : Fault)

/-- `buf_size - offset` in 64 bits. -/
def ListState.room (state : ListState) : Nat :=
  if state.offset ≤ state.memory.length then state.memory.length - state.offset
  else 2 ^ 64 - (state.offset - state.memory.length)

/-- `snprintf(buffer + offset, buf_size - offset, ..)`: nothing is written for the
size zero, else the text or a part of it, with a NUL behind it. -/
def snprintfAt (text : CString) (state : ListState) : Except ListStop ListState :=
  let calls := state.calls ++ [(state.offset, state.memory.length)]
  if state.room = 0 then return { state with calls }
  else
    let written := text.take (state.room - 1) ++ [0]
    if state.offset + written.length ≤ state.memory.length then
      return { state with
        memory := state.memory.take state.offset ++ written ++
          state.memory.drop (state.offset + written.length)
        calls }
    else throw (.fault (.write state.memory.length))

/-- `realloc` to twice the size. The new half is never read before it is
written. -/
def doubleBuffer (state : ListState) : Except ListStop ListState :=
  match malloc state.allocations with
  | (true, allocations) =>
    return { state with
      memory := state.memory ++ List.replicate state.memory.length 0
      allocations }
  | (false, _) => throw (.null state.calls)

/-- Print a piece, a second time into the doubled buffer when it does not fit. -/
def printPiece (text : CString) (state : ListState) : Except ListStop ListState := do
  let printed ← snprintfAt text state
  let printed ←
    if text.length ≥ state.room then do
      let doubled ← doubleBuffer printed
      snprintfAt text doubled
    else pure printed
  return { printed with offset := printed.offset + text.length }

/-- The inner loop: each value with its separator. -/
def printValues : List CString → ListState → Except ListStop ListState
  | [], state => return state
  | value :: values, state => do
    let separator := if values ≠ [] then cstr ", " else cstr "\n"
    let state ← printPiece (value ++ separator) state
    printValues values state

/-- The loop over the records, in the order of the hash table. -/
def printRecords : List DNSRecord → ListState → Except ListStop ListState
  | [], state => return state
  | record :: records, state => do
    let state ← printPiece
      (cstr "Domain: " ++ record.domain ++ cstr ", Type: " ++ record.type ++ cstr ", Values: ") state
    let state ← printValues record.values state
    printRecords records state

/-- The buffer that is returned is the one in the last state. -/
def getRecordsList (store : Store) (allocations : Allocations) : Except ListStop ListState := do
  match malloc allocations with
  | (false, _) => throw (.null [])
  | (true, allocations) =>
    let state : ListState :=
      { memory := List.replicate 1024 0, offset := 0, allocations, calls := [] }
    let header := cstr "Current DNS Records:\n"
    let printed ← snprintfAt header state
    if header.length ≥ state.room then throw (.null printed.calls)
    else printRecords store.entries { printed with offset := printed.offset + header.length }

end DnsServer
