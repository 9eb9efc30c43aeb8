import DnsServer.Foundation.Locking
import DnsServer.Model.Listing
import DnsServer.Model.Loader
import DnsServer.Model.Management
import DnsServer.Model.Query

/-!
# The threads and the mutex: `dns_records_mutex`

The functions of the two threads once more, access by access to the table they share: every
`HASH_FIND`, `HASH_DEL` and `HASH_ADD`, every record that a loop over the table comes to, and
every value of a record that is read. The mutex is locked and unlocked where the source does
it, on each path through a function.

What a function does without the table is the code of the other models. A record that was
found is a pointer: its values are looked up in the table as it is when they are read.
-/

set_option autoImplicit false

namespace DnsServer

open Libc

namespace Threaded

/-- A function of a thread: it allocates, and makes accesses to the table. -/
abbrev Locked (α : Type) := StateT Allocations (Locking Store) α

/-- What makes no access. -/
def allocating {α : Type} (computation : Alloc α) : Locked α :=
  fun allocations => pure (computation.run allocations)

/-- `pthread_mutex_lock(&dns_records_mutex)`. -/
def mutexLock : Locked Unit := StateT.lift Locking.acquire

/-- `pthread_mutex_unlock(&dns_records_mutex)`. -/
def mutexUnlock : Locked Unit := StateT.lift Locking.release

/-- `HASH_FIND_STR`. -/
def hashFind (key : CString) : Locked (Option DNSRecord) :=
  StateT.lift (Locking.fetch fun store => store.find key)

/-- `HASH_DEL`. -/
def hashDel (record : DNSRecord) : Locked Unit :=
  StateT.lift (Locking.alter fun store => store.del record.key)

/-- `HASH_ADD_KEYPTR`, for a key that is not there. -/
def hashAddKeyptr (record : DNSRecord) : Locked Unit :=
  StateT.lift <| Locking.alter fun store =>
    if absent : store.find record.key = none then store.add record absent else store

/-! ## The management thread -/

def addRecordToHash (domain type : CString) (values : CJSON) (scope : CString) : Locked Unit := do
  match ← allocating (createDnsRecord domain type scope) with
  | none => return ()
  | some record =>
    match ← allocating (parseValuesToRecord record values) with
    | none => return ()
    | some record =>
      match ← hashFind record.key with
      | none => hashAddKeyptr record
      | some existing_record =>
        hashDel existing_record
        hashAddKeyptr record

def loadDNSMappings (parse : CString → Option CJSON) (file : MappingsFile) : Locked Int := do
  match ← allocating (readDomains parse file) with
  | none => return -1
  | some domains =>
    mutexLock
    let loaded ← Loader.loadDomains addRecordToHash domains
    mutexUnlock
    return if loaded then 0 else -1

def addSingleRecord (domain type scope value : CString) : Locked Int := do
  if ← allocating malloc then
    match ← allocating (createValue type value) with
    | none => return -1
    | some json_value =>
      mutexLock
      addRecordToHash domain type (.array [json_value]) scope
      mutexUnlock
      return 0
  else return -1

/-- What `delete_record` does under the mutex. -/
def findAndDelete (key : CString) : Locked Int := do
  if ← allocating malloc then
    match ← hashFind key with
    | none => return -1
    | some record =>
      hashDel record
      return 0
  else return -1

def deleteRecord (domain type scope : CString) : Locked Int := do
  mutexLock
  let result ← findAndDelete (recordKey scope domain type)
  mutexUnlock
  return result

/-- The loop of `get_records_list`, with as many records as are left. Each of them is read
where the loop comes to it. -/
def printRecords : Nat → Nat → ListState → Locking Store (Except ListStop ListState)
  | 0, _, state => return .ok state
  | left + 1, i, state => do
    match ← Locking.fetch fun store : Store => store.entries[i]? with
    | none => return .ok state
    | some record =>
      match DnsServer.printRecords [record] state with
      | .error stop => return .error stop
      | .ok state => printRecords left (i + 1) state

/-- `get_records_list` up to its loop: the buffer with the header in it. -/
def beginList (allocations : Allocations) : Except ListStop ListState := do
  match malloc allocations with
  | (false, _) => throw (.null [])
  | (true, allocations) =>
    let state : ListState :=
      { memory := List.replicate 1024 0, offset := 0, allocations, calls := [] }
    let header := cstr "Current DNS Records:\n"
    let printed ← snprintfAt header state
    if header.length ≥ state.room then throw (.null printed.calls)
    else return { printed with offset := printed.offset + header.length }

/-- What `get_records_list` does under the mutex. -/
def printList (allocations : Allocations) : Locking Store (Except ListStop ListState) :=
  match beginList allocations with
  | .error stop => return .error stop
  | .ok state => do
    let count ← Locking.fetch fun store : Store => store.entries.length
    printRecords count 0 state

def getRecordsList : Locked (Except ListStop ListState) := do
  mutexLock
  let list ← StateT.lift (printList (← get))
  mutexUnlock
  return list

/-- The loop that deletes the records, with as many as are left. -/
def clearLoop : Nat → Locked Unit
  | 0 => return ()
  | left + 1 => do
    match ← StateT.lift (Locking.fetch fun store : Store => store.entries.head?) with
    | none => return ()
    | some record =>
      hashDel record
      clearLoop left

/-- What the first critical section of `handle_reload_command` does under the mutex. -/
def deleteRecords : Locked Unit := do
  let count ← StateT.lift (Locking.fetch fun store : Store => store.entries.length)
  clearLoop count

def handleReloadCommand (parse : CString → Option CJSON) (file : MappingsFile) : Locked Int := do
  mutexLock
  deleteRecords
  mutexUnlock
  loadDNSMappings parse file

/-- The reply of `handle_add_command`. -/
def addReply (status : Int) : CString :=
  if status = 0 then cstr "SUCCESS: Record added\n" else cstr "ERROR: Failed to add record\n"

/-- The reply of `handle_delete_command`. -/
def deleteReply (status : Int) : CString :=
  if status = 0 then cstr "SUCCESS: Record deleted\n" else cstr "ERROR: Record not found\n"

/-- The reply of `handle_list_command`: the text in the buffer, up to its NUL. It is a fault
where `get_records_list` has written outside of its buffer. -/
def listReply : Except ListStop ListState → Checked CString
  | .ok list => .ok (cutAtNul list.memory)
  | .error (.null _) => .ok (cstr "ERROR: Failed to generate records list\n")
  | .error (.fault fault) => .error fault

/-- The reply of `handle_reload_command`. -/
def reloadReply (status : Int) : CString :=
  if status = 0 then cstr "SUCCESS: Configuration reloaded\n"
  else cstr "ERROR: Failed to reload configuration\n"

/-- The handlers of the commands, up to the `write` of their reply. -/
def handle (parse : CString → Option CJSON) : Command → Locked (Checked CString)
  | .add domain type scope value => do
    let status ← addSingleRecord domain type scope value
    return .ok (addReply status)
  | .delete domain type scope => do
    let status ← deleteRecord domain type scope
    return .ok (deleteReply status)
  | .list => do
    let list ← getRecordsList
    return listReply list
  | .reload file => do
    let status ← handleReloadCommand parse file
    return .ok (reloadReply status)

/-! ## The DNS thread -/

/-- The loop over the suffixes of the labels. -/
def searchWildcards (type : CString) : List CString → Locking Store (Checked (Option DNSRecord))
  | [] => return .ok none
  | label :: labels =>
    match (OutBuffer.empty.append (cstr "*") >>= appendLabels (label :: labels) :
        Checked StringBuffer) with
    | .error fault => return .error fault
    | .ok wildcard_domain => do
      match ← Locking.fetch fun store : Store =>
          store.find (cstr "wildcard_" ++ wildcard_domain.bytes ++ cstr "_" ++ type) with
      | some record => return .ok (some record)
      | none => searchWildcards type labels

def resolveRecord (domain type : CString) : Locking Store (Checked (Option DNSRecord)) := do
  match ← Locking.fetch fun store : Store =>
      store.find (cstr "base_" ++ domain ++ cstr "_" ++ type) with
  | some record => return .ok (some record)
  | none =>
    match ← Locking.fetch fun store : Store =>
        store.find (cstr "subdomain_" ++ domain ++ cstr "_" ++ type) with
    | some record => return .ok (some record)
    | none =>
      match copyDomain domain >>= fun domain_copy => storeLabels 10 domain_copy [] with
      | .error fault => return .error fault
      | .ok labels => searchWildcards type labels.tail

/-- `record->values[i]`, for the record behind a pointer. It is read from the table as it is
then; a record that is gone is a fault. -/
def readValue (key : CString) (i : Nat) : Locking Store (Checked CString) := do
  match ← Locking.fetch fun store : Store => (store.find key).bind fun record => record.values[i]? with
  | none => return .error (.read i)
  | some value => return .ok value

/-- How a round of the loop over the values ends: with the response for the next round, or
with the loop. -/
inductive Round where
  | next (response : Response)
  | stop (ended : LoopEnd)

/-- The part of a round that follows the reading of the value. -/
def answerValue (env : Environment) (query : ParsedQuery) (value : CString) (response : Response) :
    Checked Round :=
  if query.typeString = cstr "A" then
    match env.inet_aton value with
    | none => return .next response
    | some addr =>
      if response.length + 6 > DEFAULT_BUFFER_SIZE then return .stop (.finished response)
      else .next <$> endAnswer addr.toList response
  else if query.typeString = cstr "AAAA" then
    match env.inet_pton value with
    | none => return .next response
    | some addr6 =>
      if response.length + 18 > DEFAULT_BUFFER_SIZE then return .stop (.finished response)
      else .next <$> endAnswer addr6.toList response
  else if query.typeString = cstr "CNAME" ∨ query.typeString = cstr "NS" then do
    match ← domainToDNSFormatInto value (OutBuffer.empty : OutBuffer 256) 256 with
    | none => return .next response
    | some dns_format =>
      if response.length + 2 + dns_format.length > DEFAULT_BUFFER_SIZE then
        return .stop (.finished response)
      else .next <$> endAnswer dns_format response
  else if query.typeString = cstr "MX" then
    match scanPreference value with
    | none => return .next response
    | some (preference, exchange_str) => do
      match ← domainToDNSFormatInto exchange_str (OutBuffer.empty : OutBuffer 256) 256 with
      | none => return .next response
      | some exchange_dns =>
        if response.length + 4 + exchange_dns.length > DEFAULT_BUFFER_SIZE then
          return .stop (.finished response)
        else .next <$> endAnswer (htons preference ++ exchange_dns) response
  else return .stop (.notImplemented response)

/-- The loop over the values of the record behind a pointer, with as many as are left. -/
def answerLoop (env : Environment) (query : ParsedQuery) (key : CString) :
    Nat → Nat → Response → Locking Store (Checked LoopEnd)
  | 0, _, response => return .ok (.finished response)
  | left + 1, i, response =>
    if response.length + 16 > DEFAULT_BUFFER_SIZE then return .ok (.finished response)
    else do
      match beginAnswer env query response with
      | .error fault => return .error fault
      | .ok response =>
        let value ← readValue key i
        match value >>= fun value => answerValue env query value response with
        | .error fault => return .error fault
        | .ok (.stop ended) => return .ok ended
        | .ok (.next response) => answerLoop env query key left (i + 1) response

/-- The part of `process_dns_query` in front of the mutex: the query, the header and the
response with the question in it. -/
def beginResponse (buffer : List UInt8) : Checked (Option (ParsedQuery × DNSHeader × Response)) := do
  match ← parseDNSQueryInto buffer (OutBuffer.empty : OutBuffer 256) 256
      (OutBuffer.empty : OutBuffer 16) 16 with
  | none => return none
  | some query =>
    let resHeader ← initialHeader buffer
    let response : Response ← OutBuffer.empty.append resHeader.bytes
    if response.length + query.query_len > DEFAULT_BUFFER_SIZE then return none
    else
      let response ← response.append (← readRange buffer headerSize query.query_len)
      return some (query, resHeader, response)

/-- The part of `process_dns_query` under the mutex: the header and the response as they are
sent. -/
def answerQuery (env : Environment) (query : ParsedQuery) (resHeader : DNSHeader)
    (response : Response) : Locking Store (Checked (DNSHeader × Response)) := do
  match ← resolveRecord query.domain query.typeString with
  | .error fault => return .error fault
  | .ok none => return .ok ({ resHeader with rcode := DNS_RCODE_NXDOMAIN }, response)
  | .ok (some record) =>
    match ← Locking.fetch fun store : Store => (store.find record.key).map DNSRecord.num_values with
    | none => return .error (.read 0)
    | some num_values =>
      let resHeader := { resHeader with rcode := DNS_RCODE_NOERROR, ancount := num_values }
      match ← answerLoop env query record.key num_values 0 response with
      | .error fault => return .error fault
      | .ok (.finished response) => return .ok (resHeader, response)
      | .ok (.notImplemented response) =>
        return .ok ({ resHeader with rcode := DNS_RCODE_NOTIMP, ancount := 0 }, response)

def processDnsQuery (env : Environment) (buffer : List UInt8) :
    Locking Store (Checked (Option (List UInt8))) :=
  match beginResponse buffer with
  | .error fault => return .error fault
  | .ok none => return .ok none
  | .ok (some (query, resHeader, response)) => do
    Locking.acquire
    let answered ← answerQuery env query resHeader response
    Locking.release
    return (fun (resHeader, response) => some (withHeader resHeader response)) <$> answered

/-! ## The loops -/

/-- The loop of `management_thread`: the commands of its requests, each with the outcomes of
its allocations. The result is their replies. -/
def managementThread (parse : CString → Option CJSON) :
    List (Command × Allocations) → Locking Store (List (Checked CString))
  | [] => return []
  | (command, allocations) :: requests => do
    let (reply, _) ← (handle parse command).run allocations
    let replies ← managementThread parse requests
    return reply :: replies

end Threaded

end DnsServer
