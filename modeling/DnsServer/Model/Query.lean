import DnsServer.Model.Parser
import DnsServer.Model.Records

/-!
# Answering a query: `resolveRecord` and `main.c`

`resolveRecord` tries the base key, the subdomain key and then the wildcard
keys of the suffixes of the name. The suffixes are built from the first ten
tokens that `strtok` finds between dots.

`processDnsQuery` parses the datagram, copies the question behind a fresh
header, resolves the name, and writes one answer for each value of the record.
It runs from the resolution to the last value read under the mutex, so it is one
step on the store it is given. The conversions of addresses and the answers'
time to live come from an `Environment`.
-/

set_option autoImplicit false

namespace DnsServer

open Libc

/-! ## Resolution -/

/-- The tokens `strtok` finds between dots, up to a number of them. -/
def tokenLabels : Nat → CString → List CString
  | 0, _ => []
  | slots + 1, text =>
    match strtok (cstr ".") text with
    | (none, _) => []
    | (some token, rest) => token :: tokenLabels slots rest

/-- The `strncpy` into the 256 bytes of `domain_copy`, which pads with NULs, and the
NUL in the last byte: the bytes in front of the NULs. -/
def copyDomain (domain : CString) : Checked CString := do
  let domain_copy : OutBuffer 256 ← OutBuffer.empty.append (domain.take 255)
  let padded ← domain_copy.append (List.replicate (255 - domain.length) 0)
  let _terminated ← padded.append [0]
  return domain_copy.bytes

/-- The loop over the tokens, which fills the ten slots of `labels`. The first
argument is how far `label_count` is from its bound. -/
def storeLabels : Nat → CString → List CString → Checked (List CString)
  | 0, _, labels => return labels
  | left + 1, text, labels =>
    match strtok (cstr ".") text with
    | (none, _) => return labels
    | (some token, rest) => do
      let labels ← storeNext 10 labels token
      storeLabels left rest labels

/-- A buffer of 256 bytes that holds a string: one byte is left for the NUL. -/
abbrev StringBuffer := OutBuffer 255

/-- The inner loop: append a dot and a label for each label of the suffix. -/
def appendLabels : List CString → StringBuffer → Checked StringBuffer
  | [], wildcard_domain => return wildcard_domain
  | label :: labels, wildcard_domain => do
    let wildcard_domain ← wildcard_domain.append (cstr ".")
    let wildcard_domain ← wildcard_domain.append label
    appendLabels labels wildcard_domain

/-- The loop over the suffixes of the labels, the longest first. -/
def searchWildcards (store : Store) (type : CString) : List CString → Checked (Option DNSRecord)
  | [] => return none
  | label :: labels => do
    let wildcard_domain ← OutBuffer.empty.append (cstr "*")
    let wildcard_domain ← appendLabels (label :: labels) wildcard_domain
    match store.find (cstr "wildcard_" ++ wildcard_domain.bytes ++ cstr "_" ++ type) with
    | some record => return some record
    | none => searchWildcards store type labels

def resolveRecord (store : Store) (domain type : CString) : Checked (Option DNSRecord) :=
  match store.find (cstr "base_" ++ domain ++ cstr "_" ++ type) with
  | some record => return some record
  | none =>
    match store.find (cstr "subdomain_" ++ domain ++ cstr "_" ++ type) with
    | some record => return some record
    | none => do
      let domain_copy ← copyDomain domain
      let labels ← storeLabels 10 domain_copy []
      searchWildcards store type labels.tail

/-! ## The header -/

/-- The header as it lies in memory; `id` is never converted. -/
structure DNSHeader where
  id : UInt8 × UInt8
  rd : Bool
  tc : Bool
  aa : Bool
  opcode : Nat
  qr : Bool
  rcode : Nat
  z : Nat
  ra : Bool
  qdcount : Nat
  ancount : Nat
  nscount : Nat
  arcount : Nat
  deriving DecidableEq, Repr

def DNS_RCODE_NOERROR : Nat := 0
def DNS_RCODE_NXDOMAIN : Nat := 3
def DNS_RCODE_NOTIMP : Nat := 4

/-- `sizeof(DNSHeader)`. -/
def headerSize : Nat := 12

/-- `DEFAULT_BUFFER_SIZE`. -/
def DEFAULT_BUFFER_SIZE : Nat := 512

/-- The bytes of the packed header. The first field of a byte takes its lowest
bits; the counts have gone through `htons`. -/
def DNSHeader.bytes (header : DNSHeader) : List UInt8 :=
  [header.id.1, header.id.2,
    UInt8.ofNat (header.rd.toNat + 2 * header.tc.toNat + 4 * header.aa.toNat +
      8 * (header.opcode % 16) + 128 * header.qr.toNat),
    UInt8.ofNat (header.rcode % 16 + 16 * (header.z % 8) + 128 * header.ra.toNat)] ++
    htons header.qdcount ++ htons header.ancount ++ htons header.nscount ++ htons header.arcount

@[simp] theorem DNSHeader.length_bytes (header : DNSHeader) : header.bytes.length = 12 := rfl

/-- The header of the answer to a request, with `rcode` and `ancount` still
zero. -/
def initialHeader (buffer : List UInt8) : Checked DNSHeader := do
  let idHigh ← readAt buffer 0
  let idLow ← readAt buffer 1
  let flags ← readAt buffer 2
  return {
    id := (idHigh, idLow)
    rd := flags.toNat % 2 == 1
    tc := false
    aa := true
    opcode := flags.toNat / 8 % 16
    qr := true
    rcode := 0
    z := 0
    ra := false
    qdcount := 1
    ancount := 0
    nscount := 0
    arcount := 0 }

/-! ## Answers -/

/-- What the server is given from outside: the conversions of addresses and the
time to live in its configuration. -/
structure Environment where
  inet_aton : CString → Option (Vector UInt8 4)
  inet_pton : CString → Option (Vector UInt8 16)
  default_ttl : UInt32

/-- The response buffer. -/
abbrev Response := OutBuffer DEFAULT_BUFFER_SIZE

/-- How the loop over the values ends: behind the loop, or with the return for
an unsupported type. -/
inductive LoopEnd where
  | finished (response : Response)
  | notImplemented (response : Response)

/-- `ans_type`. -/
def answerType (query : ParsedQuery) : Nat :=
  if query.typeString = cstr "A" then DNS_TYPE_A
  else if query.typeString = cstr "AAAA" then DNS_TYPE_AAAA
  else if query.typeString = cstr "CNAME" then DNS_TYPE_CNAME
  else if query.typeString = cstr "MX" then DNS_TYPE_MX
  else if query.typeString = cstr "NS" then DNS_TYPE_NS
  else if query.typeString = cstr "TXT" then DNS_TYPE_TXT
  else if query.typeString = cstr "SRV" then DNS_TYPE_SRV
  else query.queryType

/-- The part of an answer that is written before the value is looked at. -/
def beginAnswer (env : Environment) (query : ParsedQuery) (response : Response) :
    Checked Response := do
  let response ← response.append [0xC0, UInt8.ofNat headerSize]
  let response ← response.append (htons (answerType query))
  let response ← response.append (htons 1)
  response.append (htonl env.default_ttl.toNat)

/-- The length and the data of an answer. -/
def endAnswer (rdata : List UInt8) (response : Response) : Checked Response := do
  let response ← response.append (htons rdata.length)
  response.append rdata

/-- `sscanf` with `"%hu %255s"`. -/
def scanPreference (value : CString) : Option (Nat × CString) := do
  let (preference, rest) ← scanUnsignedShort value
  let exchange_str ← scanWord 255 rest
  return (preference, exchange_str)

/-- The loop over the values of the record. -/
def answerLoop (env : Environment) (query : ParsedQuery) :
    List CString → Response → Checked LoopEnd
  | [], response => return .finished response
  | value :: values, response =>
    if response.length + 16 > DEFAULT_BUFFER_SIZE then return .finished response
    else do
      let response ← beginAnswer env query response
      if query.typeString = cstr "A" then
        match env.inet_aton value with
        | none => answerLoop env query values response
        | some addr =>
          if response.length + 6 > DEFAULT_BUFFER_SIZE then return .finished response
          else
            let response ← endAnswer addr.toList response
            answerLoop env query values response
      else if query.typeString = cstr "AAAA" then
        match env.inet_pton value with
        | none => answerLoop env query values response
        | some addr6 =>
          if response.length + 18 > DEFAULT_BUFFER_SIZE then return .finished response
          else
            let response ← endAnswer addr6.toList response
            answerLoop env query values response
      else if query.typeString = cstr "CNAME" ∨ query.typeString = cstr "NS" then
        match ← domainToDNSFormatInto value (OutBuffer.empty : OutBuffer 256) 256 with
        | none => answerLoop env query values response
        | some dns_format =>
          if response.length + 2 + dns_format.length > DEFAULT_BUFFER_SIZE then
            return .finished response
          else
            let response ← endAnswer dns_format response
            answerLoop env query values response
      else if query.typeString = cstr "MX" then
        match scanPreference value with
        | none => answerLoop env query values response
        | some (preference, exchange_str) =>
          match ← domainToDNSFormatInto exchange_str (OutBuffer.empty : OutBuffer 256) 256 with
          | none => answerLoop env query values response
          | some exchange_dns =>
            if response.length + 4 + exchange_dns.length > DEFAULT_BUFFER_SIZE then
              return .finished response
            else
              let response ← endAnswer (htons preference ++ exchange_dns) response
              answerLoop env query values response
      else return .notImplemented response

/-- The last `memcpy` before `sendto`: the final header replaces the first
twelve bytes. -/
def withHeader (header : DNSHeader) (response : Response) : List UInt8 :=
  header.bytes ++ response.bytes.drop headerSize

/-- The datagram that is sent, if one is sent. -/
def processDnsQuery (env : Environment) (store : Store) (buffer : List UInt8) :
    Checked (Option (List UInt8)) := do
  match ← parseDNSQueryInto buffer (OutBuffer.empty : OutBuffer 256) 256
      (OutBuffer.empty : OutBuffer 16) 16 with
  | none => return none
  | some query =>
    let resHeader ← initialHeader buffer
    let response : Response ← OutBuffer.empty.append resHeader.bytes
    if response.length + query.query_len > DEFAULT_BUFFER_SIZE then return none
    else
      let response ← response.append (← readRange buffer headerSize query.query_len)
      match ← resolveRecord store query.domain query.typeString with
      | none => return some (withHeader { resHeader with rcode := DNS_RCODE_NXDOMAIN } response)
      | some record =>
        let resHeader :=
          { resHeader with rcode := DNS_RCODE_NOERROR, ancount := record.num_values }
        match ← answerLoop env query record.values response with
        | .finished response => return some (withHeader resHeader response)
        | .notImplemented response =>
          return some (withHeader
            { resHeader with rcode := DNS_RCODE_NOTIMP, ancount := 0 } response)

/-- One round of the loop in `main`: `recvfrom` keeps what fits into its buffer,
and a datagram with less than a header and five more bytes is left alone. -/
def mainReceive (env : Environment) (store : Store) (sent : List UInt8) :
    Checked (Option (List UInt8)) :=
  let buffer := sent.take DEFAULT_BUFFER_SIZE
  if buffer.length < headerSize + 5 then return none else processDnsQuery env store buffer

/-- A datagram as `main` hands it on: the buffer of `recvfrom` bounds it above,
the test for a header and five more bytes bounds it below. -/
structure Datagram where
  bytes : List UInt8
  large_enough : headerSize + 5 ≤ bytes.length
  fits : bytes.length ≤ DEFAULT_BUFFER_SIZE

end DnsServer
