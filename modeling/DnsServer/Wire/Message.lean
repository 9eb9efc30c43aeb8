import DnsServer.Wire.Name

/-!
# Messages on the wire

A message is a header of twelve bytes, the counted questions and three counted
sections of resource records. The reader here accepts a message when every
counted entry is complete, every record has exactly the data its length says,
the data of the record types with a fixed layout has that layout, and no byte
is left over.

A message is well formed when it can be read and each of its names takes at
most 255 octets.
-/

set_option autoImplicit false

namespace DnsServer.Wire

/-- The number in two bytes of network order. -/
def word (high low : UInt8) : Nat := 256 * high.toNat + low.toNat

/-- The two bytes of a number in network order. -/
def encodeWord (n : Nat) : List UInt8 := [UInt8.ofNat (n / 256), UInt8.ofNat n]

theorem word_encode {n : Nat} (small : n < 2 ^ 16) :
    word (UInt8.ofNat (n / 256)) (UInt8.ofNat n) = n := by
  simp [word]
  omega

/-- Record types with a fixed layout of their data. -/
def typeA : Nat := 1
def typeNS : Nat := 2
def typeCNAME : Nat := 5
def typeMX : Nat := 15
def typeAAAA : Nat := 28

/-! ## The header -/

/-- The header fields in the order in which they stand on the wire. -/
structure Header where
  id : Nat
  qr : Bool
  opcode : Nat
  aa : Bool
  tc : Bool
  rd : Bool
  ra : Bool
  z : Nat
  rcode : Nat
  qdcount : Nat
  ancount : Nat
  nscount : Nat
  arcount : Nat
  deriving DecidableEq, Repr

/-- The fields that are narrower than the bytes they share fit their widths. -/
def Header.InRange (header : Header) : Prop :=
  header.id < 2 ^ 16 ∧ header.opcode < 16 ∧ header.z < 8 ∧ header.rcode < 16 ∧
    header.qdcount < 2 ^ 16 ∧ header.ancount < 2 ^ 16 ∧ header.nscount < 2 ^ 16 ∧
    header.arcount < 2 ^ 16

/-- The first byte of flags. -/
def Header.flagsHigh (header : Header) : Nat :=
  128 * header.qr.toNat + 8 * header.opcode + 4 * header.aa.toNat + 2 * header.tc.toNat +
    header.rd.toNat

/-- The second byte of flags. -/
def Header.flagsLow (header : Header) : Nat :=
  128 * header.ra.toNat + 16 * header.z + header.rcode

/-- The twelve bytes of a header. -/
def Header.encode (header : Header) : List UInt8 :=
  encodeWord header.id ++ [UInt8.ofNat header.flagsHigh, UInt8.ofNat header.flagsLow] ++
    encodeWord header.qdcount ++ encodeWord header.ancount ++ encodeWord header.nscount ++
    encodeWord header.arcount

@[simp] theorem Header.length_encode (header : Header) : header.encode.length = 12 := rfl

/-- Read a header from the front of a message. -/
def decodeHeader : List UInt8 → Option Header
  | b₀ :: b₁ :: b₂ :: b₃ :: b₄ :: b₅ :: b₆ :: b₇ :: b₈ :: b₉ :: b₁₀ :: b₁₁ :: _ =>
      some
        { id := word b₀ b₁
          qr := b₂.toNat / 128 % 2 == 1
          opcode := b₂.toNat / 8 % 16
          aa := b₂.toNat / 4 % 2 == 1
          tc := b₂.toNat / 2 % 2 == 1
          rd := b₂.toNat % 2 == 1
          ra := b₃.toNat / 128 % 2 == 1
          z := b₃.toNat / 16 % 8
          rcode := b₃.toNat % 16
          qdcount := word b₄ b₅
          ancount := word b₆ b₇
          nscount := word b₈ b₉
          arcount := word b₁₀ b₁₁ }
  | _ => none

/-- A flag at the bottom of a sum of weighted flags reads back. -/
theorem flag_of_sum (rest : Nat) {value : Nat} {flag : Bool} (sum : value = 2 * rest + flag.toNat) :
    (value % 2 == 1) = flag := by
  cases flag <;> simp at sum <;> simp <;> omega

/-- **Reading a header that was written gives its fields back.** -/
theorem decodeHeader_encode {header : Header} (range : header.InRange) (rest : List UInt8) :
    decodeHeader (header.encode ++ rest) = some header := by
  obtain ⟨idRange, opcodeRange, zRange, rcodeRange, qdRange, anRange, nsRange, arRange⟩ := range
  obtain ⟨id, qr, opcode, aa, tc, rd, ra, z, rcode, qdcount, ancount, nscount, arcount⟩ := header
  have qrBound := Bool.toNat_le qr
  have aaBound := Bool.toNat_le aa
  have tcBound := Bool.toNat_le tc
  have rdBound := Bool.toNat_le rd
  have raBound := Bool.toNat_le ra
  simp only at idRange opcodeRange zRange rcodeRange qdRange anRange nsRange arRange
  have high : (UInt8.ofNat (128 * qr.toNat + 8 * opcode + 4 * aa.toNat + 2 * tc.toNat +
      rd.toNat)).toNat = 128 * qr.toNat + 8 * opcode + 4 * aa.toNat + 2 * tc.toNat + rd.toNat := by
    simp
    omega
  have low : (UInt8.ofNat (128 * ra.toNat + 16 * z + rcode)).toNat =
      128 * ra.toNat + 16 * z + rcode := by
    simp
    omega
  simp only [Header.encode, Header.flagsHigh, Header.flagsLow, encodeWord, List.cons_append,
    List.nil_append, decodeHeader, high, low, word_encode idRange,
    word_encode qdRange, word_encode anRange, word_encode nsRange, word_encode arRange,
    Option.some.injEq, Header.mk.injEq, true_and, and_true]
  refine ⟨flag_of_sum 0 (by omega), by omega,
    flag_of_sum (16 * qr.toNat + opcode) (by omega),
    flag_of_sum (32 * qr.toNat + 2 * opcode + aa.toNat) (by omega),
    flag_of_sum (64 * qr.toNat + 4 * opcode + 2 * aa.toNat + tc.toNat) (by omega),
    flag_of_sum 0 (by omega), by omega, by omega⟩

/-! ## Questions and records -/

structure Question where
  name : Name
  qtype : Nat
  qclass : Nat
  deriving DecidableEq, Repr

/-- The data of a record, by the layout of its type. -/
inductive RData where
  | address (bytes : List UInt8)
  | domain (name : Name)
  | exchange (preference : Nat) (name : Name)
  | raw (bytes : List UInt8)
  deriving DecidableEq, Repr

structure ResourceRecord where
  owner : Name
  type : Nat
  class_ : Nat
  ttl : Nat
  rdata : RData
  deriving DecidableEq, Repr

/-- The names inside the data of a record. -/
def RData.names : RData → List Name
  | .domain name => [name]
  | .exchange _ name => [name]
  | .address _ | .raw _ => []

/-- Two bytes of network order at an offset. -/
def decodeWord (message : List UInt8) (offset : Nat) : Option (Nat × Nat) :=
  match message.drop offset with
  | high :: low :: _ => some (word high low, offset + 2)
  | _ => none

def decodeQuestion (message : List UInt8) (offset : Nat) : Option (Question × Nat) := do
  let (name, offset) ← decodeName message offset
  let (qtype, offset) ← decodeWord message offset
  let (qclass, offset) ← decodeWord message offset
  return ({ name, qtype, qclass }, offset)

/-- A name that fills the data of a record up to its end. -/
def decodeNameUpTo (message : List UInt8) (offset last : Nat) : Option Name := do
  let (name, next) ← decodeName message offset
  if next = last then some name else none

/-- Read the data of a record of the given type and length. -/
def decodeRData (message : List UInt8) (type offset length : Nat) : Option RData :=
  let bytes := (message.drop offset).take length
  if message.length < offset + length then none
  else if type = typeA then
    if length = 4 then some (.address bytes) else none
  else if type = typeAAAA then
    if length = 16 then some (.address bytes) else none
  else if type = typeNS ∨ type = typeCNAME then
    (decodeNameUpTo message offset (offset + length)).map .domain
  else if type = typeMX then do
    let (preference, next) ← decodeWord message offset
    let name ← decodeNameUpTo message next (offset + length)
    return .exchange preference name
  else some (.raw bytes)

def decodeRecord (message : List UInt8) (offset : Nat) : Option (ResourceRecord × Nat) := do
  let (owner, offset) ← decodeName message offset
  let (type, offset) ← decodeWord message offset
  let (class_, offset) ← decodeWord message offset
  let (ttlHigh, offset) ← decodeWord message offset
  let (ttlLow, offset) ← decodeWord message offset
  let (length, offset) ← decodeWord message offset
  let rdata ← decodeRData message type offset length
  return ({ owner, type, class_, ttl := 65536 * ttlHigh + ttlLow, rdata }, offset + length)

/-- Read a counted section. -/
def decodeMany {α : Type} (decode : Nat → Option (α × Nat)) : Nat → Nat → Option (List α × Nat)
  | 0, offset => some ([], offset)
  | count + 1, offset => do
    let (entry, offset) ← decode offset
    let (entries, offset) ← decodeMany decode count offset
    return (entry :: entries, offset)

/-! ## Whole messages -/

structure Message where
  header : Header
  questions : List Question
  answers : List ResourceRecord
  authority : List ResourceRecord
  additional : List ResourceRecord
  deriving DecidableEq, Repr

/-- Read a message that has no byte behind its last counted entry. -/
def decodeMessage (message : List UInt8) : Option Message := do
  let header ← decodeHeader message
  let (questions, offset) ← decodeMany (decodeQuestion message) header.qdcount 12
  let (answers, offset) ← decodeMany (decodeRecord message) header.ancount offset
  let (authority, offset) ← decodeMany (decodeRecord message) header.nscount offset
  let (additional, offset) ← decodeMany (decodeRecord message) header.arcount offset
  if offset = message.length then
    some { header, questions, answers, authority, additional }
  else none

/-- The records of the three sections. -/
def Message.records (message : Message) : List ResourceRecord :=
  message.answers ++ message.authority ++ message.additional

/-- Every name a message contains. -/
def Message.names (message : Message) : List Name :=
  message.questions.map Question.name ++
    message.records.flatMap fun record => record.owner :: record.rdata.names

/-- The largest number of octets a name may take. -/
def maxNameOctets : Nat := 255

/-- A message that can be read and whose names all have a legal size. -/
def WellFormed (message : List UInt8) : Prop :=
  ∃ decoded, decodeMessage message = some decoded ∧
    ∀ name ∈ decoded.names, name.octets ≤ maxNameOctets

instance (message : List UInt8) : Decidable (WellFormed message) :=
  match found : decodeMessage message with
  | none => isFalse (by rintro ⟨_, same, _⟩; rw [found] at same; cases same)
  | some decoded =>
    if legal : ∀ name ∈ decoded.names, name.octets ≤ maxNameOctets then
      isTrue ⟨decoded, found, legal⟩
    else isFalse (by rintro ⟨_, same, all⟩; rw [found] at same; cases same; exact legal all)

end DnsServer.Wire
