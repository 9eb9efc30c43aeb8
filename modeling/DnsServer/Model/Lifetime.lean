import DnsServer.Model.InMemory
import DnsServer.Model.Loader
import DnsServer.Model.Management
import DnsServer.Model.Query

/-!
# The blocks of the server, from its start to its end

The functions around the records in memory, with the other blocks they allocate and give
back: the nodes of JSON trees, the data of the mappings file, and the keys that records are
looked up under. `lifetime` runs from the first load over commands and queries to
`cleanup_dns_records`.

The parser of the mappings file is a parameter: it leaves the blocks of its tree in use.
-/

set_option autoImplicit false

namespace DnsServer

open Libc

namespace InMemory

open Heap

/-! ## JSON trees -/

/-- A node in its block, with its texts and its children. -/
inductive Node where
  | null (block : Block)
  | bool (block : Block) (value : Bool)
  | number (block : Block) (valueint : Int)
  | string (block : Block) (valuestring : Pointer CString)
  | array (block : Block) (items : List Node)
  | object (block : Block) (members : List (Pointer CString × Node))

mutual

/-- The tree that a node shows to what reads it. -/
def Node.tree : Node → CJSON
  | .null _ => .null
  | .bool _ value => .bool value
  | .number _ valueint => .number valueint
  | .string _ valuestring => .string valuestring.contents
  | .array _ items => .array (itemTrees items)
  | .object _ members => .object (memberTrees members)

def itemTrees : List Node → List CJSON
  | [] => []
  | item :: items => item.tree :: itemTrees items

def memberTrees : List (Pointer CString × Node) → List (CString × CJSON)
  | [] => []
  | (key, item) :: members => (key.contents, item.tree) :: memberTrees members

end

mutual

/-- `cJSON_Delete`, for one node. -/
def deleteNode (key : Option (Pointer CString)) : Node → Heap Unit
  | .null block | .bool block _ | .number block _ => do
    free key
    release block
  | .string block valuestring => do
    free (some valuestring)
    free key
    release block
  | .array block items => do
    deleteItems items
    free key
    release block
  | .object block members => do
    deleteMembers members
    free key
    release block

/-- The loop of `cJSON_Delete` over the elements of an array. -/
def deleteItems : List Node → Heap Unit
  | [] => return ()
  | item :: items => do
    deleteNode none item
    deleteItems items

/-- The loop of `cJSON_Delete` over the members of an object. -/
def deleteMembers : List (Pointer CString × Node) → Heap Unit
  | [] => return ()
  | (key, item) :: members => do
    deleteNode (some key) item
    deleteMembers members

end

/-- `cJSON_Delete`. -/
def delete : Option Node → Heap Unit
  | none => return ()
  | some item => deleteNode none item

/-- `cJSON_CreateNumber`. -/
def createNumber (num : Int) : Heap (Option Node) := do
  match ← allocate with
  | none => return none
  | some block => return some (.number block num)

/-- `cJSON_CreateString`. -/
def createString (string : CString) : Heap (Option Node) := do
  match ← allocate with
  | none => return none
  | some block =>
    match ← duplicate string with
    | none =>
      -- the node has no text yet
      deleteNode none (.null block)
      return none
    | some valuestring => return some (.string block valuestring)

/-- `cJSON_AddNumberToObject` and `cJSON_AddStringToObject` behind the creation of the item:
the members with the item among them. -/
def addToObject (members : List (Pointer CString × Node)) (name : CString) (item : Option Node) :
    Heap (Option (List (Pointer CString × Node))) :=
  match item with
  | none => return none
  | some item => do
    match ← duplicate name with
    | none =>
      delete (some item)
      return none
    | some new_key => return some (members ++ [(new_key, item)])

/-- The JSON value of `add_single_record`. -/
def createValue (type value : CString) : Heap (Option Node) :=
  if type = cstr "MX" then
    match scanPriority value with
    | none => return none
    | some (priority, mx_value) => do
      match ← allocate with
      | none => return none
      | some block =>
        match ← addToObject [] (cstr "priority") (← createNumber priority) with
        | none =>
          delete (some (.object block []))
          return none
        | some members =>
          match ← addToObject members (cstr "value") (← createString mx_value) with
          | none =>
            delete (some (.object block members))
            return none
          | some members => return some (.object block members)
  else createString value

/-! ## The functions of the store -/

def addSingleRecord (table : Store) (domain type scope value : CString) : Heap (Int × Store) := do
  -- `cJSON_CreateArray`
  match ← allocate with
  | none => return (-1, table)
  | some block =>
    match ← createValue type value with
    | none =>
      delete (some (.array block []))
      return (-1, table)
    | some json_value =>
      let values : Node := .array block [json_value]
      let table ← addRecordToHash table domain type values.tree scope
      delete (some values)
      return (0, table)

/-- `add_record_to_hash` on the table in the state. -/
def insert (domain type : CString) (values : CJSON) (scope : CString) :
    StateT Store Heap Unit := do
  set (← addRecordToHash (← get) domain type values scope)

/-- What `loadDNSMappings` does once the data of the file is in memory. -/
def loadData (parse : CString → Heap (Option Node)) (table : Store)
    (data : Pointer (List UInt8)) : Heap (Int × Store) := do
  match ← parse (cutAtNul data.contents) with
  | none =>
    free (some data)
    return (-1, table)
  | some json =>
    match json.tree.getObjectItem (cstr "domains") with
    | some (.object members) =>
      let (loaded, table) ← (Loader.loadDomains insert members).run table
      free (some data)
      delete (some json)
      return (if loaded then 0 else -1, table)
    | _ =>
      free (some data)
      delete (some json)
      return (-1, table)

def loadDNSMappings (parse : CString → Heap (Option Node)) (table : Store) (file : MappingsFile) :
    Heap (Int × Store) :=
  match file with
  | .missing => return (-1, table)
  | .unreadable length =>
    if length ≤ 0 then return (-1, table)
    else do
      match ← allocate with
      | none => return (-1, table)
      | some data =>
        release data
        return (-1, table)
  | .contents bytes =>
    if bytes.length ≤ 0 then return (-1, table)
    else do
      match ← allocate with
      | none => return (-1, table)
      | some block => loadData parse table { block, contents := bytes }

/-- The two sections of `handle_reload_command`, with the status of the second. -/
def handleReloadCommand (parse : CString → Heap (Option Node)) (table : Store)
    (file : MappingsFile) : Heap (Int × Store) := do
  let table ← clearRecords table
  loadDNSMappings parse table file

/-- One of the lookups of `resolveRecord`; without its key it is left out. -/
def lookUp (table : Store) (key : CString) : Heap (Option DNSRecord) := do
  match ← duplicate key with
  | none => return none
  | some key =>
    let record := table.find (some key.contents)
    free (some key)
    return record

/-- The loop over the suffixes of the labels. -/
def searchWildcards (table : Store) (type : CString) : List CString → Heap (Option DNSRecord)
  | [] => return none
  | label :: labels => do
    let wildcard_domain ← (OutBuffer.empty.append (cstr "*") >>= appendLabels (label :: labels) :
      Checked StringBuffer)
    match ← lookUp table (cstr "wildcard_" ++ wildcard_domain.bytes ++ cstr "_" ++ type) with
    | some record => return some record
    | none => searchWildcards table type labels

def resolveRecord (table : Store) (domain type : CString) : Heap (Option DNSRecord) := do
  match ← lookUp table (cstr "base_" ++ domain ++ cstr "_" ++ type) with
  | some record => return some record
  | none =>
    match ← lookUp table (cstr "subdomain_" ++ domain ++ cstr "_" ++ type) with
    | some record => return some record
    | none => searchWildcards table type (tokenLabels 10 (domain.take 255)).tail

/-- What the two threads are asked for. The buffer of a `LIST` is left out: the list is the
subject of a model of its own. -/
inductive Task where
  | command (command : Command)
  | query (domain type : CString)

/-- The table behind a task. -/
def perform (parse : CString → Heap (Option Node)) (table : Store) : Task → Heap Store
  | .command (.add domain type scope value) => do
    let (_, table) ← addSingleRecord table domain type scope value
    return table
  | .command (.delete domain type scope) => do
    let (_, table) ← deleteRecord table domain type scope
    return table
  | .command .list => return table
  | .command (.reload file) => do
    let (_, table) ← handleReloadCommand parse table file
    return table
  | .query domain type => do
    let _ ← resolveRecord table domain type
    return table

end InMemory

end DnsServer
