import DnsServer.Answering.Values
import DnsServer.Parsing.Question
import DnsServer.Resolution.Lookup

/-!
# The datagram that is sent

For an accepted query the response is a header, the bytes of the question, and
what the loop over the values has written (`replyBytes`). Three theorems say
which response it is: nothing was found, the record was answered, or the type
has no conversion. No access of `processDnsQuery` leaves a buffer.

The header is described through the fields of the request as the grammar reads
them, and its twelve bytes are those of a header on the wire
(`DNSHeader.bytes_eq_encode`).
-/

set_option autoImplicit false

namespace DnsServer

open Libc Wire

/-! ## The header on the wire -/

/-- The header a reader of the wire sees. -/
def DNSHeader.wire (header : DNSHeader) : Wire.Header where
  id := word header.id.1 header.id.2
  qr := header.qr
  opcode := header.opcode % 16
  aa := header.aa
  tc := header.tc
  rd := header.rd
  ra := header.ra
  z := header.z % 8
  rcode := header.rcode % 16
  qdcount := header.qdcount % 65536
  ancount := header.ancount % 65536
  nscount := header.nscount % 65536
  arcount := header.arcount % 65536

theorem word_lt (high low : UInt8) : word high low < 2 ^ 16 := by
  have := high.toNat_lt
  have := low.toNat_lt
  simp only [word]
  omega

/-- The fields of a header in memory have the widths of the fields on the wire. -/
theorem DNSHeader.wire_inRange (header : DNSHeader) : header.wire.InRange := by
  have id := word_lt header.id.1 header.id.2
  simp only [DNSHeader.wire, Wire.Header.InRange]
  omega

theorem encodeWord_mod (n : Nat) : encodeWord (n % 65536) = htons n := by
  have high : UInt8.ofNat (n % 65536 / 256) = UInt8.ofNat (n / 256) :=
    UInt8.toNat_inj.mp (by simp; omega)
  have low : UInt8.ofNat (n % 65536) = UInt8.ofNat n := UInt8.toNat_inj.mp (by simp)
  rw [encodeWord, high, low]
  rfl

/-- **The packed header is a header on the wire.** -/
theorem DNSHeader.bytes_eq_encode (header : DNSHeader) : header.bytes = header.wire.encode := by
  have id : encodeWord (word header.id.1 header.id.2) = [header.id.1, header.id.2] :=
    htons_bytes header.id.1 header.id.2
  simp only [DNSHeader.bytes, Wire.Header.encode, DNSHeader.wire, encodeWord_mod, id,
    Wire.Header.flagsHigh, Wire.Header.flagsLow]
  have high : header.rd.toNat + 2 * header.tc.toNat + 4 * header.aa.toNat +
      8 * (header.opcode % 16) + 128 * header.qr.toNat =
      128 * header.qr.toNat + 8 * (header.opcode % 16) + 4 * header.aa.toNat +
        2 * header.tc.toNat + header.rd.toNat := by omega
  have low : header.rcode % 16 + 16 * (header.z % 8) + 128 * header.ra.toNat =
      128 * header.ra.toNat + 16 * (header.z % 8) + header.rcode % 16 := by omega
  rw [high, low]
  simp

/-- The header of a reply, in terms of the request. -/
def replyHeader (request : Wire.Header) : DNSHeader where
  id := (UInt8.ofNat (request.id / 256), UInt8.ofNat request.id)
  rd := request.rd
  tc := false
  aa := true
  opcode := request.opcode
  qr := true
  rcode := 0
  z := 0
  ra := false
  qdcount := 1
  ancount := 0
  nscount := 0
  arcount := 0

/-- A datagram with room for a header has one. -/
theorem decodeHeader_of_length (buffer : List UInt8) (large : 12 ≤ buffer.length) :
    ∃ request, decodeHeader buffer = some request := by
  unfold decodeHeader
  split
  · exact ⟨_, rfl⟩
  · next small =>
    match buffer, large, small with
    | [b₀, b₁, b₂, b₃, b₄, b₅, b₆, b₇, b₈, b₉, b₁₀], large, _ => simp at large
    | b₀ :: b₁ :: b₂ :: b₃ :: b₄ :: b₅ :: b₆ :: b₇ :: b₈ :: b₉ :: b₁₀ :: b₁₁ :: rest, _, small =>
        exact absurd rfl (small b₀ b₁ b₂ b₃ b₄ b₅ b₆ b₇ b₈ b₉ b₁₀ b₁₁ rest)

/-- An accepted datagram has a header. -/
theorem Accepted.decodeHeader {buffer : List UInt8} {query : ParsedQuery}
    (accepted : Accepted buffer query) :
    ∃ request, Wire.decodeHeader buffer = some request := by
  have inside := accepted.inside
  exact decodeHeader_of_length buffer (by omega)

/-- What the server takes over from the header of the request. -/
theorem initialHeader_eq {buffer : List UInt8} {request : Wire.Header}
    (decoded : decodeHeader buffer = some request) :
    initialHeader buffer = .ok (replyHeader request) ∧ request.opcode < 16 := by
  unfold decodeHeader at decoded
  split at decoded
  · next b₀ b₁ b₂ _ _ _ _ _ _ _ _ _ _ =>
    cases decoded
    have id : [UInt8.ofNat (word b₀ b₁ / 256), UInt8.ofNat (word b₀ b₁)] = [b₀, b₁] :=
      htons_bytes b₀ b₁
    simp only [List.cons.injEq, and_true] at id
    refine ⟨?_, Nat.mod_lt _ (by decide)⟩
    simp only [replyHeader, id.1, id.2]
    rfl
  · cases decoded

/-! ## The response -/

/-- The bytes of the question. -/
def questionBytes (buffer : List UInt8) (query : ParsedQuery) : List UInt8 :=
  (buffer.drop 12).take query.query_len

/-- A response with the given code and count: the header, the question, and
what was written behind them. -/
def replyBytes (request : Wire.Header) (buffer : List UInt8) (query : ParsedQuery)
    (rcode ancount : Nat) (answers : List UInt8) : List UInt8 :=
  DNSHeader.bytes { replyHeader request with rcode, ancount } ++
    (questionBytes buffer query ++ answers)

/-- The response in front of the first answer. -/
def questionResponse (request : Wire.Header) (buffer : List UInt8) (query : ParsedQuery)
    (fits : 12 + query.query_len ≤ 512) : Response :=
  ⟨(replyHeader request).bytes ++ questionBytes buffer query, by
    have : (questionBytes buffer query).length ≤ query.query_len := List.length_take_le _ _
    simp [DEFAULT_BUFFER_SIZE]
    omega⟩

section Accepted

variable {env : Environment} {store : Store} {buffer : List UInt8} {query : ParsedQuery}
  {request : Wire.Header}

theorem Accepted.length_questionBytes (accepted : Accepted buffer query) :
    (questionBytes buffer query).length = query.query_len := by
  have inside := accepted.inside
  simp only [questionBytes, List.length_take, List.length_drop]
  omega

theorem Accepted.fits (accepted : Accepted buffer query) : 12 + query.query_len ≤ 512 := by
  have := accepted.bounded
  omega

theorem Accepted.length_questionResponse (accepted : Accepted buffer query)
    (request : Wire.Header) :
    (questionResponse request buffer query accepted.fits).bytes.length = 12 + query.query_len := by
  simp [questionResponse, accepted.length_questionBytes]

/-- The last `memcpy` puts the final header in front of the question. -/
theorem withHeader_eq {rcode ancount : Nat} {answers : List UInt8} {response : Response}
    (written : response.bytes =
      (replyHeader request).bytes ++ (questionBytes buffer query ++ answers)) :
    withHeader { replyHeader request with rcode, ancount } response =
      replyBytes request buffer query rcode ancount answers := by
  rw [withHeader, written, replyBytes]
  rfl

/-- A datagram that is not parsed is not answered. -/
theorem processDnsQuery_refused (refused : parseDNSQuery buffer 256 16 = .ok none) :
    processDnsQuery env store buffer = .ok none := by
  rw [processDnsQuery, ← parseDNSQuery, refused]
  rfl

/-- Up to the resolution an accepted query is always processed in the same
way. -/
theorem processDnsQuery_start (parsed : parseDNSQuery buffer 256 16 = .ok (some query))
    (accepted : Accepted buffer query) (decoded : decodeHeader buffer = some request) :
    processDnsQuery env store buffer =
      match lookup store query.domain query.typeString with
      | none => .ok (some (replyBytes request buffer query DNS_RCODE_NXDOMAIN 0 []))
      | some record => do
        match ← answerLoop env query record.values
          (questionResponse request buffer query accepted.fits) with
        | .finished response =>
          return some (withHeader
            { replyHeader request with
              rcode := DNS_RCODE_NOERROR, ancount := record.num_values } response)
        | .notImplemented response =>
          return some (withHeader
            { replyHeader request with rcode := DNS_RCODE_NOTIMP, ancount := 0 } response) := by
  have room := accepted.fits
  have inside := accepted.inside
  have question := accepted.length_questionBytes
  rw [processDnsQuery, ← parseDNSQuery, parsed]
  simp only [Checked.ok_bind, (initialHeader_eq decoded).1]
  rw [OutBuffer.append_of_room (by simp [DEFAULT_BUFFER_SIZE])]
  simp only [Checked.ok_bind]
  rw [if_neg (by simp [OutBuffer.length, DEFAULT_BUFFER_SIZE]; omega), readRange,
    if_pos (by simp only [headerSize]; omega)]
  simp only [Checked.ok_bind]
  rw [OutBuffer.append_of_room (by
    simp [DEFAULT_BUFFER_SIZE, headerSize]
    omega)]
  simp only [Checked.ok_bind, resolveRecord_eq]
  cases lookup store query.domain query.typeString with
  | none =>
      refine congrArg (fun sent => Except.ok (some sent)) (withHeader_eq ?_)
      simp [questionBytes, headerSize]
  | some record => rfl

/-- **Nothing was found**: the response carries the question and the code
`NXDOMAIN`. -/
theorem processDnsQuery_unresolved (parsed : parseDNSQuery buffer 256 16 = .ok (some query))
    (decoded : decodeHeader buffer = some request)
    (unresolved : lookup store query.domain query.typeString = none) :
    processDnsQuery env store buffer =
      .ok (some (replyBytes request buffer query DNS_RCODE_NXDOMAIN 0 [])) := by
  rw [processDnsQuery_start parsed (parseDNSQuery_accepted parsed) decoded, unresolved]

/-- **A record was found** and its type has a conversion: the response carries
whatever the loop writes, and counts all values. -/
theorem processDnsQuery_answered {record : DNSRecord}
    (parsed : parseDNSQuery buffer 256 16 = .ok (some query))
    (decoded : decodeHeader buffer = some request)
    (resolved : lookup store query.domain query.typeString = some record)
    (answered : query.typeString ∈ answeredTypes) :
    processDnsQuery env store buffer =
      .ok (some (replyBytes request buffer query DNS_RCODE_NOERROR record.num_values
        (writtenAnswers env query (record.values.map (answerData env query.typeString))
          (12 + query.query_len)))) := by
  have accepted := parseDNSQuery_accepted parsed
  rw [processDnsQuery_start parsed accepted decoded, resolved]
  obtain ⟨written, run, bytes⟩ := answerLoop_eq env answered record.values
    (questionResponse request buffer query accepted.fits)
  rw [accepted.length_questionResponse request] at bytes
  simp only [run, Checked.ok_bind]
  refine congrArg (fun sent => Except.ok (some sent)) (withHeader_eq ?_)
  rw [bytes, questionResponse, List.append_assoc]

/-- A record was found but its type has no conversion: without values there is
nothing to answer, else the fixed part of the first answer is left behind and
the code is `NOTIMP`. -/
theorem processDnsQuery_other {record : DNSRecord}
    (parsed : parseDNSQuery buffer 256 16 = .ok (some query))
    (decoded : decodeHeader buffer = some request)
    (resolved : lookup store query.domain query.typeString = some record)
    (other : query.typeString ∉ answeredTypes) :
    processDnsQuery env store buffer =
      .ok (some (if record.values = [] then
          replyBytes request buffer query DNS_RCODE_NOERROR 0 []
        else replyBytes request buffer query DNS_RCODE_NOTIMP 0 (answerHead env query))) := by
  have accepted := parseDNSQuery_accepted parsed
  have length := accepted.length_questionResponse request
  have bounded := accepted.bounded
  rw [processDnsQuery_start parsed accepted decoded, resolved]
  rcases answerLoop_other env other record.values
    (questionResponse request buffer query accepted.fits) with
    ⟨empty | tight, run⟩ | ⟨nonempty, _, written, run, bytes⟩
  · simp only [run, Checked.ok_bind]
    rw [if_pos empty]
    refine congrArg (fun sent => Except.ok (some sent)) ?_
    have none : record.num_values = 0 := by rw [DNSRecord.num_values, empty]; rfl
    rw [none]
    exact withHeader_eq (by rw [questionResponse, List.append_nil])
  · rw [OutBuffer.length, length, DEFAULT_BUFFER_SIZE] at tight
    omega
  · simp only [run, Checked.ok_bind]
    rw [if_neg nonempty]
    refine congrArg (fun sent => Except.ok (some sent)) (withHeader_eq ?_)
    rw [bytes, questionResponse, List.append_assoc]

/-- **Every datagram is processed without a fault.** -/
theorem processDnsQuery_safe (env : Environment) (store : Store) (datagram : Datagram) :
    ∃ sent, processDnsQuery env store datagram.bytes = .ok sent := by
  obtain ⟨request, decoded⟩ := decodeHeader_of_length datagram.bytes (by
    have := datagram.large_enough
    simp only [headerSize] at this
    omega)
  rcases parseDNSQuery_cases datagram.bytes with refused | ⟨query, parsed, _⟩
  · exact ⟨none, processDnsQuery_refused refused⟩
  cases found : lookup store query.domain query.typeString with
  | none => exact ⟨_, processDnsQuery_unresolved parsed decoded found⟩
  | some record =>
      by_cases answered : query.typeString ∈ answeredTypes
      · exact ⟨_, processDnsQuery_answered parsed decoded found answered⟩
      · exact ⟨_, processDnsQuery_other parsed decoded found answered⟩

end Accepted

end DnsServer
