import DnsServer.Answering.Reading
import DnsServer.Store.Commands
import Mathlib.Order.Bounds.Basic

/-!
# Answers that fit, and answers that do not

When all values of a record have data and their answers fit, the response is the
one a reference encoder writes: the header, the question as it was asked, and
one record for each value (`processDnsQuery_complete`). A reader of the grammar
gets the values back in order.

When the answers do not all fit, the response would have to carry the first of
them, count those, and say that it is truncated. The server does so exactly when
nothing is truncated (`processDnsQuery_carries_iff`): its count is always the
number of values, its flag is never set, and sixteen free bytes are asked for
even where a smaller answer would fit.
-/

set_option autoImplicit false

namespace DnsServer

open Libc Wire

/-! ## The reference encoder -/

/-- The header of a complete response to a request. -/
def referenceHeader (request : Wire.Header) (count : Nat) : Wire.Header where
  id := request.id
  qr := true
  opcode := request.opcode
  aa := true
  tc := false
  rd := request.rd
  ra := false
  z := 0
  rcode := 0
  qdcount := 1
  ancount := count
  nscount := 0
  arcount := 0

/-- A complete response: the header, the bytes of the question, and a record for
each piece of data, owned by the name in the question. -/
def referenceResponse (request : Wire.Header) (question : List UInt8) (qtype ttl : Nat)
    (data : List RData) : List UInt8 :=
  (referenceHeader request data.length).encode ++
    (question ++ data.flatMap (encodeCompressed qtype 1 (ttl / 65536) (ttl % 65536)))

/-- The message that a complete response stands for. -/
def referenceMessage (request : Wire.Header) (question : Question) (ttl : Nat)
    (data : List RData) : Message where
  header := referenceHeader request data.length
  questions := [question]
  answers := data.map fun rdata =>
    { owner := question.name, type := question.qtype, class_ := 1, ttl, rdata }
  authority := []
  additional := []

/-- The types of the questions that are answered from values. -/
def answeredQtypes : List Nat :=
  [DNS_TYPE_A, DNS_TYPE_AAAA, DNS_TYPE_CNAME, DNS_TYPE_NS, DNS_TYPE_MX]

/-- The type in an answer is the type of the question. -/
theorem answered_of_mem {qtype : Nat} (member : qtype ∈ answeredQtypes) (name : Name) :
    (parsedQuestion name qtype).typeString ∈ answeredTypes ∧
      answerType (parsedQuestion name qtype) = qtype := by
  simp only [answeredQtypes, List.mem_cons, List.not_mem_nil, or_false] at member
  rcases member with rfl | rfl | rfl | rfl | rfl <;>
    exact ⟨by simp only [parsedQuestion]; decide, rfl⟩

/-- Every answer takes at least twelve bytes, so few of them fit. -/
theorem length_le_answersSize (data : List RData) : 12 * data.length ≤ answersSize data := by
  induction data with
  | nil => simp
  | cons rdata data ih =>
      rw [List.length_cons, answersSize_cons]
      omega

section Complete

variable {env : Environment} {query : ParsedQuery} {request : Wire.Header} {buffer : List UInt8}

/-- The header of a reply with few answers is the reference header. -/
theorem replyWire_eq {count : Nat} (requestOpcode : request.opcode < 16)
    (requestId : request.id < 2 ^ 16) (few : count < 65536) :
    replyWire request DNS_RCODE_NOERROR count = referenceHeader request count := by
  have id : word (UInt8.ofNat (request.id / 256)) (UInt8.ofNat request.id) = request.id :=
    word_encode requestId
  simp only [replyWire, DNSHeader.wire, replyHeader, referenceHeader, id,
    Nat.mod_eq_of_lt requestOpcode, Nat.mod_eq_of_lt few]
  rfl

theorem decodeHeader_id_lt {message : List UInt8} (decoded : decodeHeader message = some request) :
    request.id < 2 ^ 16 := by
  unfold decodeHeader at decoded
  split at decoded
  · cases decoded
    exact word_lt _ _
  · cases decoded

theorem answerBytes_eq (rdata : RData) :
    answerBytes env query rdata = encodeCompressed (answerType query) 1
      (env.default_ttl.toNat / 65536) (env.default_ttl.toNat % 65536) rdata := by
  rw [answerBytes, compressedHead_ttl]
  rfl

/-- When the answers fit the loop writes all of them and nothing else. -/
theorem writtenAnswers_complete {data : List RData} {start : Nat} (fits : Fits start data) :
    writtenAnswers env query (data.map some) start = data.flatMap (answerBytes env query) := by
  have written := writtenAnswers_append env query [] fits
  rw [List.append_nil] at written
  rw [written]
  simp [writtenAnswers]

end Complete

/-- Values that can all be encoded have as many pieces of data. -/
theorem length_of_encodable {record : DNSRecord} {data : List RData}
    {encode : CString → Option RData} (encodable : record.values.map encode = data.map some) :
    data.length = record.num_values := by
  have lengths := congrArg List.length encodable
  simpa [DNSRecord.num_values] using lengths.symm

/-- **A complete answer is the one of the reference encoder**, and a reader of
the grammar gets back the header, the question and the data of the values in
order. -/
theorem processDnsQuery_complete (env : Environment) (store : Store) (datagram : Datagram)
    (name : Name) (qtype : Nat) (record : DNSRecord) (data : List RData)
    (question : QuestionAt datagram.bytes name qtype 1) (answered : qtype ∈ answeredQtypes)
    (resolved : resolveRecord store (parsedQuestion name qtype).domain
      (parsedQuestion name qtype).typeString = .ok (some record))
    (encodable : record.values.map (answerData env (parsedQuestion name qtype).typeString) =
      data.map some)
    (fits : Fits (12 + (parsedQuestion name qtype).query_len) data) :
    ∃ request, decodeHeader datagram.bytes = some request ∧
      processDnsQuery env store datagram.bytes = .ok (some (referenceResponse request
        ((datagram.bytes.drop 12).take (parsedQuestion name qtype).query_len) qtype
        env.default_ttl.toNat data)) ∧
      decodeMessage (referenceResponse request
        ((datagram.bytes.drop 12).take (parsedQuestion name qtype).query_len) qtype
        env.default_ttl.toNat data) =
        some (referenceMessage request { name, qtype, qclass := 1 } env.default_ttl.toNat data) := by
  obtain ⟨answeredType, type⟩ := answered_of_mem answered name
  generalize asked : parsedQuestion name qtype = query at *
  have accepted : Accepted datagram.bytes query := asked ▸ question.accepted
  have parsed : parseDNSQuery datagram.bytes 256 16 = .ok (some query) :=
    asked ▸ parseDNSQuery_of_question question
  obtain ⟨request, decoded⟩ := accepted.decodeHeader
  have count := length_of_encodable encodable
  have few : data.length < 65536 := by
    have := length_le_answersSize data
    have := fits.1
    omega
  rw [resolveRecord_eq, Except.ok.injEq] at resolved
  have sent : processDnsQuery env store datagram.bytes = _ :=
    processDnsQuery_answered parsed decoded resolved answeredType
  have header : replyWire request DNS_RCODE_NOERROR record.num_values =
      referenceHeader request data.length := by
    rw [← count]
    exact replyWire_eq (initialHeader_eq decoded).2 (decodeHeader_id_lt decoded) few
  have bytes : answerBytes env query = encodeCompressed qtype 1 (env.default_ttl.toNat / 65536)
      (env.default_ttl.toNat % 65536) := by
    funext rdata
    rw [answerBytes_eq, type]
  have same : replyBytes request datagram.bytes query DNS_RCODE_NOERROR record.num_values
      (writtenAnswers env query (record.values.map (answerData env query.typeString))
        (12 + query.query_len)) =
      referenceResponse request ((datagram.bytes.drop 12).take query.query_len) qtype
        env.default_ttl.toNat data := by
    rw [encodable, writtenAnswers_complete fits, replyBytes, DNSHeader.bytes_eq_encode,
      referenceResponse, ← header, bytes]
    rfl
  refine ⟨request, decoded, by rw [sent, same], ?_⟩
  have counted : record.num_values % 65536 = record.num_values :=
    Nat.mod_eq_of_lt (count ▸ few)
  rw [← same]
  refine (decodeMessage_reply question asked.symm).mpr
    ⟨_, (decodeMany_reply env question asked.symm accepted record _).mpr
      ⟨data, ?_, fits, ?_, rfl⟩, ?_⟩
  · rw [counted, DNSRecord.num_values, List.take_length, encodable]
  · omega
  · have records : answerRecord env query name = fun rdata =>
        { owner := name, type := qtype, class_ := 1, ttl := env.default_ttl.toNat, rdata } := by
      funext rdata
      rw [answerRecord, type]
    rw [header, referenceMessage, records]

theorem processDnsQuery_complete_address :
    ∃ request, decodeHeader addressQuery.bytes = some request ∧
      processDnsQuery oneAddressEnvironment
        (addSingleRecord KeyedTable.empty (cstr "a") (cstr "A") (cstr "base")
          (cstr "192.0.2.1")).result.2 addressQuery.bytes =
        .ok (some (referenceResponse request ((addressQuery.bytes.drop 12).take 7) DNS_TYPE_A 300
          [.address [192, 0, 2, 1]])) ∧
      decodeMessage (referenceResponse request ((addressQuery.bytes.drop 12).take 7) DNS_TYPE_A 300
          [.address [192, 0, 2, 1]]) =
        some (referenceMessage request { name := [cstr "a"], qtype := DNS_TYPE_A, qclass := 1 } 300
          [.address [192, 0, 2, 1]]) :=
  processDnsQuery_complete oneAddressEnvironment _ addressQuery [cstr "a"] DNS_TYPE_A
    { domain := cstr "a", type := cstr "A", key := cstr "base_a_A", values := [cstr "192.0.2.1"] }
    [.address [192, 0, 2, 1]] questionAt_addressQuery (by decide) (by decide +kernel)
    (by decide +kernel) ⟨by decide, by decide⟩

/-! ## Truncation -/

/-- A response that truncates openly: it carries the first answers, as many as
fit by their exact sizes, counts them, and sets the flag exactly when answers
are left out. -/
def CarriesFitting (env : Environment) (query : ParsedQuery) (question : List UInt8)
    (data : List RData) (response : List UInt8) : Prop :=
  ∃ (k : Nat) (header : Wire.Header),
    IsGreatest { k | k ≤ data.length ∧ 12 + query.query_len + answersSize (data.take k) ≤ 512 } k ∧
      decodeHeader response = some header ∧ header.ancount = k ∧
      (header.tc = true ↔ k < data.length) ∧
      response.drop 12 = question ++ (data.take k).flatMap (answerBytes env query)

/-- The loop writes all answers, and nothing else, only when they fit with
sixteen bytes free in front of each. -/
theorem fits_of_writtenAnswers {env : Environment} {query : ParsedQuery} {data : List RData} :
    ∀ {start : Nat}, start + answersSize data ≤ 512 →
      writtenAnswers env query (data.map some) start = data.flatMap (answerBytes env query) →
      Fits start data := by
  induction data with
  | nil =>
      intro start total _
      exact ⟨total, by simp⟩
  | cons rdata data ih =>
      intro start total written
      rw [answersSize_cons] at total
      by_cases tight : 512 < start + 16
      · rw [List.map_cons, writtenAnswers_full tight] at written
        cases written
      · have fits : start + 12 + rdata.encode.length ≤ 512 := by omega
        rw [List.map_cons, writtenAnswers_fits (by omega) fits, List.flatMap_cons,
          List.append_cancel_left_eq] at written
        exact fits_cons.mpr ⟨by omega, ih (by omega) written⟩

/-- The number of answers that fit by their exact sizes is all of them exactly
when all sizes together fit. -/
theorem isGreatest_length {start : Nat} {data : List RData} (total : start + answersSize data ≤ 512) :
    IsGreatest { k | k ≤ data.length ∧ start + answersSize (data.take k) ≤ 512 } data.length :=
  ⟨⟨le_rfl, by rwa [List.take_length]⟩, fun _ member => member.1⟩

/-- What the server sends truncates openly exactly when nothing is left out. -/
theorem carriesFitting_reply_iff {env : Environment} {query : ParsedQuery} {request : Wire.Header}
    {buffer : List UInt8} {data : List RData} :
    CarriesFitting env query (questionBytes buffer query) data
        (replyBytes request buffer query DNS_RCODE_NOERROR data.length
          (writtenAnswers env query (data.map some) (12 + query.query_len))) ↔
      Fits (12 + query.query_len) data := by
  constructor
  · rintro ⟨k, header, ⟨⟨atMost, fits⟩, _⟩, decoded, _, flag, answers⟩
    rw [decodeHeader_replyBytes, Option.some.injEq] at decoded
    have unset : header.tc = false := by
      rw [← decoded]
      rfl
    have all : k = data.length := by
      have : ¬ k < data.length := fun fewer => by
        rw [flag.mpr fewer] at unset
        cases unset
      omega
    subst all
    rw [drop_replyBytes, List.take_length, List.append_cancel_left_eq] at answers
    rw [List.take_length] at fits
    exact fits_of_writtenAnswers fits answers
  · intro fits
    have few : data.length < 65536 := by
      have := length_le_answersSize data
      have := fits.1
      omega
    refine ⟨data.length, _, isGreatest_length fits.1, decodeHeader_replyBytes,
      Nat.mod_eq_of_lt few, ⟨fun set => ?_, fun fewer => absurd fewer (lt_irrefl _)⟩, ?_⟩
    · cases set
    · rw [drop_replyBytes, List.take_length, writtenAnswers_complete fits]

/-- **A response truncates openly** exactly when all answers fit, with sixteen
bytes free in front of each. -/
theorem processDnsQuery_carries_iff (env : Environment) (store : Store) (datagram : Datagram)
    (query : ParsedQuery) (record : DNSRecord) (data : List RData)
    (parsed : parseDNSQuery datagram.bytes 256 16 = .ok (some query))
    (answered : query.typeString ∈ answeredTypes)
    (resolved : resolveRecord store query.domain query.typeString = .ok (some record))
    (encodable : record.values.map (answerData env query.typeString) = data.map some) :
    ∃ response, processDnsQuery env store datagram.bytes = .ok (some response) ∧
      (CarriesFitting env query ((datagram.bytes.drop 12).take query.query_len) data response ↔
        Fits (12 + query.query_len) data) := by
  have accepted := parseDNSQuery_accepted parsed
  obtain ⟨request, decoded⟩ := accepted.decodeHeader
  have count := length_of_encodable encodable
  rw [resolveRecord_eq, Except.ok.injEq] at resolved
  refine ⟨_, processDnsQuery_answered parsed decoded resolved answered, ?_⟩
  rw [← count, encodable]
  exact carriesFitting_reply_iff

theorem processDnsQuery_carries_iff_address :
    ∃ response, processDnsQuery oneAddressEnvironment
        (addSingleRecord KeyedTable.empty (cstr "a") (cstr "A") (cstr "base")
          (cstr "192.0.2.1")).result.2 addressQuery.bytes = .ok (some response) ∧
      (CarriesFitting oneAddressEnvironment (parsedQuestion [cstr "a"] DNS_TYPE_A)
          ((addressQuery.bytes.drop 12).take 7) [.address [192, 0, 2, 1]] response ↔
        Fits 19 [.address [192, 0, 2, 1]]) :=
  processDnsQuery_carries_iff oneAddressEnvironment _ addressQuery
    (parsedQuestion [cstr "a"] DNS_TYPE_A)
    { domain := cstr "a", type := cstr "A", key := cstr "base_a_A", values := [cstr "192.0.2.1"] }
    [.address [192, 0, 2, 1]] (by decide +kernel) (by decide +kernel) (by decide +kernel)
    (by decide +kernel)

/-- A file that gives one name more addresses than a response can hold. -/
def manyAddresses : CJSON := .object [(cstr "domains", .object [(cstr "a", .object [(cstr "records",
  .object [(cstr "A", .array (List.replicate 31 (.string (cstr "192.0.2.1"))))])])])]

/-- The store of a server that has loaded that file. -/
def manyAddressesStore : Store :=
  (loadDNSMappings (fun _ => some manyAddresses) (.contents (cstr "\x7b\x7d"))
    KeyedTable.empty).result.2

/-- Of thirty-one addresses thirty fit, but the response counts all of them and
does not say that it is truncated. -/
theorem not_carriesFitting_of_many_addresses :
    ¬ ∀ (parse : CString → Option CJSON) (env : Environment) (store : Store) (datagram : Datagram)
      (query : ParsedQuery) (record : DNSRecord) (data : List RData), Reachable parse store →
        parseDNSQuery datagram.bytes 256 16 = .ok (some query) →
        query.typeString ∈ answeredTypes →
        resolveRecord store query.domain query.typeString = .ok (some record) →
        record.values.map (answerData env query.typeString) = data.map some →
        ∃ response, processDnsQuery env store datagram.bytes = .ok (some response) ∧
          CarriesFitting env query ((datagram.bytes.drop 12).take query.query_len) data response := by
  intro all
  have parsed : parseDNSQuery addressQuery.bytes 256 16 =
      .ok (some (parsedQuestion [cstr "a"] DNS_TYPE_A)) :=
    parseDNSQuery_of_question questionAt_addressQuery
  let record : DNSRecord :=
    { domain := cstr "a", type := cstr "A", key := cstr "base_a_A",
      values := List.replicate 31 (cstr "192.0.2.1") }
  have resolved : lookup manyAddressesStore (cstr "a") (cstr "A") = some record := by
    decide +kernel
  have encodable : record.values.map (answerData oneAddressEnvironment (cstr "A")) =
      (List.replicate 31 (RData.address [192, 0, 2, 1])).map some := by decide +kernel
  have loaded : Reachable (fun _ => some manyAddresses) manyAddressesStore :=
    .started (.contents (cstr "\x7b\x7d")) [] (by rfl)
  obtain ⟨response, sent, carries⟩ := all _ oneAddressEnvironment manyAddressesStore addressQuery
    (parsedQuestion [cstr "a"] DNS_TYPE_A) record _ loaded parsed (by decide)
    (by rw [resolveRecord_eq]; exact congrArg Except.ok resolved) encodable
  obtain ⟨request, decoded⟩ := decodeHeader_of_length addressQuery.bytes (by decide)
  rw [processDnsQuery_answered parsed decoded resolved (by decide), Except.ok.injEq,
    Option.some.injEq] at sent
  rw [← sent] at carries
  have fits := carriesFitting_reply_iff.mp carries
  exact absurd fits.1 (by decide +kernel)

end DnsServer
