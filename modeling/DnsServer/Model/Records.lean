import DnsServer.Foundation.KeyedTable
import DnsServer.Foundation.Memory
import DnsServer.Model.Json

/-!
# The record store: `dns_server.c`

A record sits in the hash table under the key `scope_domain_type`. It is built
completely before it replaces an earlier record with the same key.

The store is passed explicitly. Functions that allocate run over a pattern of
allocation outcomes; a result `none` is a `NULL` or a failure that the caller
cleans up after.
-/

set_option autoImplicit false

namespace DnsServer

open Libc

/-! ## Records -/

structure DNSRecord where
  domain : CString
  type : CString
  key : CString
  values : List CString
  deriving DecidableEq, Repr

/-- The number of values. -/
def DNSRecord.num_values (record : DNSRecord) : Nat := record.values.length

/-- `dns_records`: the hash table of all records. -/
abbrev Store := KeyedTable DNSRecord.key

/-- The `"%s_%s_%s"` of scope, domain and type. -/
def recordKey (scope domain type : CString) : CString :=
  scope ++ cstr "_" ++ domain ++ cstr "_" ++ type

/-- A record without values. -/
def createDnsRecord (domain type scope : CString) : Alloc (Option DNSRecord) := do
  -- the record itself, the copies of domain and type, and the key
  if ← mallocs 4 then
    return some { domain, type, key := recordKey scope domain type, values := [] }
  else return none

/-- The text stored for one element of a list of values. -/
def valueText (type : CString) (item : CJSON) : Option CString :=
  if type = cstr "MX" ∧ item.isObject then
    match item.getObjectItem (cstr "priority"), item.getObjectItem (cstr "value") with
    | some (.number valueint), some (.string valuestring) =>
        some (snprintf 256 (decimal valueint ++ cstr " " ++ valuestring))
    | _, _ => none
  else
    match item with
    | .string valuestring => some valuestring
    | _ => none

/-- The loop over the elements: convert and duplicate each of them. -/
def parseItems (type : CString) : List CJSON → Alloc (Option (List CString))
  | [] => return some []
  | item :: items =>
    match valueText type item with
    | none => return none
    | some text => do
      if ← malloc then
        return (← parseItems type items).map (text :: ·)
      else return none

/-- The record with the listed values. -/
def parseValuesToRecord (record : DNSRecord) (values : CJSON) : Alloc (Option DNSRecord) := do
  if values.getArraySize ≤ 0 then return none
  else if ← malloc then
    match ← parseItems record.type (values.children.map Prod.snd) with
    | none => return none
    | some texts => return some { record with values := texts }
  else return none

def addRecordToHash (store : Store) (domain type : CString) (values : CJSON)
    (scope : CString) : Alloc Store := do
  match ← createDnsRecord domain type scope with
  | none => return store
  | some record =>
    match ← parseValuesToRecord record values with
    | none => return store
    | some record => return store.replace record

/-! ## Loading the mappings file -/

/-- What the file system makes of the mappings file: `fopen` fails, `fread`
returns less than the length of the file, or all its bytes are read. -/
inductive MappingsFile where
  | missing
  | unreadable (length : Nat)
  | contents (bytes : List UInt8)
  deriving DecidableEq, Repr

/-- The first part of `loadDNSMappings`: the members of `domains`. The JSON
parser is a parameter; it reads the data up to the first NUL. -/
def readDomains (parse : CString → Option CJSON) (file : MappingsFile) :
    Alloc (Option (List (CString × CJSON))) :=
  match file with
  | .missing => return none
  | .unreadable length =>
    if length ≤ 0 then return none
    else do
      let _ ← malloc
      return none
  | .contents bytes =>
    if bytes.length ≤ 0 then return none
    else do
      if ← malloc then
        match parse (cutAtNul bytes) with
        | none => return none
        | some json =>
          match json.getObjectItem (cstr "domains") with
          | some (.object members) => return some members
          | _ => return none
      else return none

/-- One of the loops over the types of a `records` object. The values are
looked up again under the name of the type. -/
def loadTypes (records : CJSON) (name scope : CString) (store : Store) : Alloc Store :=
  records.children.foldlM (fun store (typeName, _) =>
    match typeName with
    | none => return store
    | some typeName =>
      match records.getObjectItem typeName with
      | none => return store
      | some values => addRecordToHash store name typeName values scope) store

/-- The flags `has_cname` and `has_other_records` after the loop over the types
of the base records. -/
def cnameFlags (records : CJSON) : Bool × Bool :=
  records.children.foldl (fun (has_cname, has_other_records) (typeName, _) =>
    match typeName with
    | none => (has_cname, has_other_records)
    | some typeName =>
      match records.getObjectItem typeName with
      | none => (has_cname, has_other_records)
      | some _ =>
        if typeName = cstr "CNAME" then (true, has_other_records) else (has_cname, true))
    (false, false)

/-- The base records of a domain. The conflict between a `CNAME` and other
records is noticed after the loop has added them. -/
def loadBase (domainName : CString) (domain : CJSON) (store : Store) : Alloc (Bool × Store) :=
  match domain.getObjectItem (cstr "records") with
  | none => return (true, store)
  | some records => do
    let store ← loadTypes records domainName (cstr "base") store
    let (has_cname, has_other_records) := cnameFlags records
    return (!(has_cname && has_other_records), store)

/-- The wildcard records of a domain. -/
def loadWildcards (domainName : CString) (domain : CJSON) (store : Store) : Alloc Store :=
  match domain.getObjectItem (cstr "wildcards") with
  | none => return store
  | some wildcards =>
    match wildcards.getObjectItem (cstr "records") with
    | none => return store
    | some wildcard_records =>
      loadTypes wildcard_records (snprintf 512 (cstr "*." ++ domainName)) (cstr "wildcard") store

/-- The records of the subdomains of a domain. A key that is `NULL` is printed
as `(null)`. -/
def loadSubdomains (domainName : CString) (domain : CJSON) (store : Store) : Alloc Store :=
  match domain.getObjectItem (cstr "subdomains") with
  | none => return store
  | some subdomains =>
    subdomains.children.foldlM (fun store (subdomainName, subdomain) =>
      match subdomain.getObjectItem (cstr "records") with
      | none => return store
      | some subdomain_records =>
        loadTypes subdomain_records
          (snprintf 512 (subdomainName.getD (cstr "(null)") ++ cstr "." ++ domainName))
          (cstr "subdomain") store) store

/-- The loop over the domains, up to the first conflict. -/
def loadDomains : List (CString × CJSON) → Store → Alloc (Bool × Store)
  | [], store => return (true, store)
  | (domainName, domain) :: domains, store => do
    let (compatible, store) ← loadBase domainName domain store
    if compatible then
      let store ← loadWildcards domainName domain store
      let store ← loadSubdomains domainName domain store
      loadDomains domains store
    else return (false, store)

/-- The result is `0` or `-1`, with the store that is left. -/
def loadDNSMappings (parse : CString → Option CJSON) (file : MappingsFile) (store : Store) :
    Alloc (Int × Store) := do
  match ← readDomains parse file with
  | none => return (-1, store)
  | some domains =>
    let (loaded, store) ← loadDomains domains store
    return (if loaded then 0 else -1, store)

/-! ## The management commands -/

/-- `sscanf` with `"%d %255s"`. -/
def scanPriority (value : CString) : Option (Int × CString) := do
  let (priority, rest) ← scanInt value
  let mx_value ← scanWord 255 rest
  return (priority, mx_value)

/-- The JSON value of `addSingleRecord`: an object for `MX`, else a string. -/
def createValue (type value : CString) : Alloc (Option CJSON) :=
  if type = cstr "MX" then
    match scanPriority value with
    | none => return none
    | some (priority, mx_value) => do
      -- the object, the number and its key, the string node, its text and its key
      if ← mallocs 6 then
        return some (.object
          [(cstr "priority", .number priority), (cstr "value", .string mx_value)])
      else return none
  else do
    if ← mallocs 2 then return some (.string value) else return none

def addSingleRecord (store : Store) (domain type scope value : CString) :
    Alloc (Int × Store) := do
  -- `cJSON_CreateArray`
  if ← malloc then
    match ← createValue type value with
    | none => return (-1, store)
    | some json_value =>
      let store ← addRecordToHash store domain type (.array [json_value]) scope
      return (0, store)
  else return (-1, store)

def deleteRecord (store : Store) (domain type scope : CString) : Alloc (Int × Store) := do
  -- `asprintf`
  if ← malloc then
    match store.find (recordKey scope domain type) with
    | some record => return (0, store.del record.key)
    | none => return (-1, store)
  else return (-1, store)

/-- The first critical section of `handle_reload_command`: every record is
deleted. -/
def clearRecords (_store : Store) : Store := KeyedTable.empty

/-- The result is whether the reply is the one of success. -/
def handleReloadCommand (parse : CString → Option CJSON) (file : MappingsFile) (store : Store) :
    Alloc (Bool × Store) := do
  let (status, store) ← loadDNSMappings parse file (clearRecords store)
  return (status == 0, store)

end DnsServer
