import DnsServer.Foundation.CString
import DnsServer.Foundation.Memory

/-!
# Reading a question and writing a name: `dns_parser.c`

`parseDNSQuery` reads the first question of a datagram. Its label loop copies
the labels into `domain` with a dot behind each of them, and stops at a zero
byte, at the end of the datagram, or when `domain` is full. The position `j` in
`domain` is the number of bytes written so far.

`domainToDNSFormat` writes a dotted string as a sequence of labels. The output
position `offset` is the number of bytes written so far.

Both are told the sizes of the buffers they write to. The caller's buffers have
capacities of their own, and a write beyond the capacity is a fault whatever size
was passed: `parseDNSQueryInto` and `domainToDNSFormatInto` take the buffers, and
the two functions under the source's names are the calls with buffers of the sizes
passed.

A result `none` is the return value `-1`.
-/

set_option autoImplicit false

namespace DnsServer

open Libc

/-! ## Record types -/

def DNS_TYPE_A : Nat := 1
def DNS_TYPE_NS : Nat := 2
def DNS_TYPE_CNAME : Nat := 5
def DNS_TYPE_MX : Nat := 15
def DNS_TYPE_TXT : Nat := 16
def DNS_TYPE_AAAA : Nat := 28
def DNS_TYPE_SRV : Nat := 33

/-- The name of a type in a question, before `snprintf` bounds it. -/
def typeName (queryType : Nat) : CString :=
  if queryType = DNS_TYPE_A then cstr "A"
  else if queryType = DNS_TYPE_AAAA then cstr "AAAA"
  else if queryType = DNS_TYPE_NS then cstr "NS"
  else if queryType = DNS_TYPE_CNAME then cstr "CNAME"
  else if queryType = DNS_TYPE_MX then cstr "MX"
  else if queryType = DNS_TYPE_TXT then cstr "TXT"
  else if queryType = DNS_TYPE_SRV then cstr "SRV"
  else cstr "TYPE" ++ decimalNat queryType

/-! ## Reading a question -/

/-- What `parseDNSQuery` hands back on success. -/
structure ParsedQuery where
  domain : CString
  queryType : Nat
  typeString : CString
  query_len : Nat
  deriving DecidableEq, Repr

/-- The inner loop: copy what is left of a label while `domain` has room for
one more byte and the dot. -/
def copyLabel (buffer : List UInt8) (domain_size : Nat) {capacity : Nat} :
    Nat → Nat → OutBuffer capacity → Checked (Nat × OutBuffer capacity)
  | 0, i, domain => .ok (i, domain)
  | left + 1, i, domain =>
    if domain.length < domain_size - 2 then do
      let byte ← readAt buffer i
      let domain ← domain.append [byte]
      copyLabel buffer domain_size left (i + 1) domain
    else .ok (i, domain)

/-- The label loop. The first argument bounds the number of rounds. -/
def labelLoop (buffer : List UInt8) (domain_size : Nat) {capacity : Nat} :
    Nat → Nat → OutBuffer capacity → Checked (Option (Nat × OutBuffer capacity))
  | 0, _, _ => .error .diverged
  | rounds + 1, i, domain =>
    if i < buffer.length then do
      let len ← readAt buffer i
      if len ≠ 0 ∧ domain.length < domain_size - 1 then
        if len.toNat > 63 then return none
        else if i + 1 + len.toNat > buffer.length then return none
        else
          let (i, domain) ← copyLabel buffer domain_size len.toNat (i + 1) domain
          if domain.length < domain_size - 1 then
            let domain ← domain.append [46]
            labelLoop buffer domain_size rounds i domain
          else labelLoop buffer domain_size rounds i domain
      else return some (i, domain)
    else return some (i, domain)

/-- Two bytes at a position, the first one the more significant. -/
def readShort (buffer : List UInt8) (i : Nat) : Checked Nat := do
  let high ← readAt buffer i
  let low ← readAt buffer (i + 1)
  return 256 * high.toNat + low.toNat

/-- `snprintf` into a buffer of the caller: the text that fits in front of the NUL. -/
def printInto {capacity : Nat} (buffer : OutBuffer capacity) (size : Nat) (text : CString) :
    Checked CString := do
  let _written ← buffer.append ((snprintf size text ++ [0]).take size)
  return snprintf size text

def parseDNSQueryInto {domain_capacity typeString_capacity : Nat} (buffer : List UInt8)
    (domain : OutBuffer domain_capacity) (domain_size : Nat)
    (typeString : OutBuffer typeString_capacity) (typeString_size : Nat) :
    Checked (Option ParsedQuery) :=
  if 12 ≥ buffer.length then return none
  else do
    match ← labelLoop buffer domain_size (buffer.length + 1) 12 domain with
    | none => return none
    | some (i, domain) =>
      if 0 < domain.length ∧ domain.length < domain_size then
        let i := i + 1
        if i + 4 > buffer.length then return none
        else
          let queryType ← readShort buffer i
          let _qclass ← readShort buffer (i + 2)
          let typeString ← printInto typeString typeString_size (typeName queryType)
          return some
            { -- the NUL takes the place of the last dot
              domain := cutAtNul domain.bytes.dropLast
              queryType
              typeString
              query_len := i + 4 - 12 }
      else return none

/-- The call with buffers of the sizes passed. -/
def parseDNSQuery (buffer : List UInt8) (domain_size typeString_size : Nat) :
    Checked (Option ParsedQuery) :=
  parseDNSQueryInto buffer (OutBuffer.empty : OutBuffer domain_size) domain_size
    (OutBuffer.empty : OutBuffer typeString_size) typeString_size

/-! ## Writing a name -/

/-- The scan of `domainToDNSFormat` at position `i` with `rest` in front of it.
The label that ends here is copied from its start in `domain`. -/
def formatLoop (domain : CString) (max_size : Nat) {capacity : Nat} :
    List UInt8 → Nat → Nat → OutBuffer capacity → Checked (Option (OutBuffer capacity))
  | rest, i, label_start, dns_format =>
    let endLabel (dns_format : OutBuffer capacity) :
        Checked (Option (OutBuffer capacity)) :=
      if i ≤ label_start ∨ 63 < i - label_start then return none
      else if max_size ≤ dns_format.length + 1 + (i - label_start) then return none
      else do
        let dns_format ← dns_format.append [UInt8.ofNat (i - label_start)]
        let label ← readRange domain label_start (i - label_start)
        some <$> dns_format.append label
    match rest with
    | [] => endLabel dns_format
    | c :: rest =>
      if c = 46 then do
        match ← endLabel dns_format with
        | none => return none
        | some dns_format => formatLoop domain max_size rest (i + 1) (i + 1) dns_format
      else formatLoop domain max_size rest (i + 1) label_start dns_format

/-- The encoded name; the result of the source is its length. -/
def domainToDNSFormatInto {capacity : Nat} (domain : CString) (dns_format : OutBuffer capacity)
    (max_size : Nat) : Checked (Option (List UInt8)) :=
  if max_size < 2 then return none
  else do
    match ← formatLoop domain max_size domain 0 0 dns_format with
    | none => return none
    | some dns_format =>
      if dns_format.length < max_size then
        let dns_format ← dns_format.append [0]
        return some dns_format.bytes
      else return none

/-- The call with a buffer of the size passed. -/
def domainToDNSFormat (domain : CString) (max_size : Nat) : Checked (Option (List UInt8)) :=
  domainToDNSFormatInto domain (OutBuffer.empty : OutBuffer max_size) max_size

end DnsServer
