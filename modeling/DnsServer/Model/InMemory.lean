import DnsServer.Foundation.Heap
import DnsServer.Model.Records

/-!
# Records under construction: `dns_server.c`

A record in memory is a block of pointers. It is built field by field, and its
`num_values` is set before there is an array of values. When an allocation or an
element fails half way, what has been built is handed to `free_dns_record`, which
runs over as many values as `num_values` says.

This is the same code as in the model of the store, with its pointers and with the
blocks it allocates and gives back.
-/

set_option autoImplicit false

namespace DnsServer

open Libc

/-- `cJSON_GetArrayItem`: the child at an index, of any node. -/
def CJSON.getArrayItem (node : CJSON) (index : Nat) : Option CJSON :=
  (node.children[index]?).map Prod.snd

namespace InMemory

open Heap

/-- A record in its block; `none` is `NULL`. -/
structure DNSRecord where
  block : Block
  domain : Option (Pointer CString)
  type : Option (Pointer CString)
  key : Option (Pointer CString)
  values : Option (Pointer (List (Option (Pointer CString))))
  num_values : Nat

/-- The text that the hash table has the record under. -/
def DNSRecord.storedKey (record : DNSRecord) : Option CString := record.key.map Pointer.contents

/-- `dns_records`: the hash table of all records. -/
abbrev Store := KeyedTable DNSRecord.storedKey

/-- The loop that frees the values, with the array they are in. -/
def freeValues (record : DNSRecord) (cells : List (Option (Pointer CString))) : Heap Unit :=
  (List.range record.num_values).forM fun i => do
    let value ← readCell cells i
    free value

def freeDnsRecord (record : DNSRecord) : Heap Unit := do
  match record.values with
  | none => pure ()
  | some cells => freeValues record cells.contents
  free record.values
  free record.key
  free record.type
  free record.domain
  release record.block

def createDnsRecord (domain type scope : CString) : Heap (Option DNSRecord) := do
  match ← allocate with
  | none => return none
  | some block =>
    let record : DNSRecord :=
      { block, domain := none, type := none, key := none, values := none, num_values := 0 }
    match ← duplicate domain with
    | none =>
      freeDnsRecord record
      return none
    | some copy =>
      let record := { record with domain := some copy }
      match ← duplicate type with
      | none =>
        freeDnsRecord record
        return none
      | some copy =>
        let record := { record with type := some copy }
        match ← duplicate (recordKey scope domain type) with
        | none =>
          freeDnsRecord record
          return none
        | some key => return some { record with key := some key }

/-- `record->values[i] = value`. -/
def DNSRecord.setValue (record : DNSRecord) (i : Nat) (value : Option (Pointer CString)) :
    Checked DNSRecord := do
  let cells ← deref record.values
  let contents ← writeCell cells.contents i value
  return { record with values := some { cells with contents } }

/-- The loop over the elements. The record is returned as the loop leaves it. -/
def fillValues (values : CJSON) : Nat → Nat → DNSRecord → Heap (Bool × DNSRecord)
  | 0, _, record => return (true, record)
  | left + 1, i, record =>
    match values.getArrayItem i with
    | none => return (false, record)
    | some item => do
      let type ← deref record.type
      match valueText type.contents item with
      | none => return (false, record)
      | some text =>
        let copy ← duplicate text
        let record ← record.setValue i copy
        if copy.isNone then return (false, record)
        else fillValues values left (i + 1) record

/-- The result is `1` or `0`, with the record as it is left. -/
def parseValuesToRecord (record : DNSRecord) (values : CJSON) : Heap (Bool × DNSRecord) := do
  let record := { record with num_values := values.getArraySize }
  if record.num_values ≤ 0 then return (false, record)
  else
    match ← allocate with
    | none => return (false, record)
    | some block =>
      let record :=
        { record with values := some ⟨block, List.replicate record.num_values none⟩ }
      fillValues values record.num_values 0 record

def addRecordToHash (store : Store) (domain type : CString) (values : CJSON)
    (scope : CString) : Heap Store := do
  match ← createDnsRecord domain type scope with
  | none => return store
  | some record =>
    let (parsed, record) ← parseValuesToRecord record values
    if parsed then
      let key ← deref record.key
      match store.find (some key.contents) with
      | none => pure ()
      | some existing_record => freeDnsRecord existing_record
      return store.replace record
    else
      freeDnsRecord record
      return store

/-- The deletion of a record that `delete_record` and `handle_reload_command`
contain; it does not ask whether there is an array of values. -/
def freeFields (record : DNSRecord) : Heap Unit := do
  free record.domain
  free record.type
  free record.key
  (List.range record.num_values).forM fun i => do
    let cells ← deref record.values
    let value ← readCell cells.contents i
    free value
  free record.values
  release record.block

def deleteRecord (store : Store) (domain type scope : CString) : Heap (Int × Store) := do
  match ← duplicate (recordKey scope domain type) with
  | none => return (-1, store)
  | some key =>
    match store.find (some key.contents) with
    | none =>
      free (some key)
      return (-1, store)
    | some record =>
      freeFields record
      free (some key)
      return (0, store.del (some key.contents))

/-- The first critical section of `handle_reload_command`. -/
def clearRecords (store : Store) : Heap Store := do
  store.entries.forM freeFields
  return KeyedTable.empty

end InMemory

end DnsServer
