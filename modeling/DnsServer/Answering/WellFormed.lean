import DnsServer.Answering.Reading
import DnsServer.Store.Commands

/-!
# When a response is a well-formed message

The response to an accepted query can be read, with names of legal size and no
byte left over, exactly when the question is well formed and the loop over the
values left nothing half-written (`processDnsQuery_wellFormed_iff`). The count in
the header is the number of values modulo `2 ^ 16`, whatever the loop wrote, so
that many values must have been answered completely and nothing may follow them.
-/

set_option autoImplicit false

namespace DnsServer

open Libc Wire

/-- The datagram has a question with a name of legal size. -/
def WellFormedQuestion (buffer : List UInt8) : Prop :=
  ∃ name qtype qclass, QuestionAt buffer name qtype qclass

/-- The counted values of a record have data with names of legal size, their
answers fit with sixteen bytes free in front of each, and where the count leaves
values out there is no room to start another answer. -/
def CompleteAnswers (env : Environment) (query : ParsedQuery) (record : DNSRecord) : Prop :=
  let counted := record.num_values % 65536
  ∃ data : List RData,
    (record.values.take counted).map (answerData env query.typeString) = data.map some ∧
      Fits (12 + query.query_len) data ∧
      (counted < record.num_values → 512 < 12 + query.query_len + answersSize data + 16) ∧
      ∀ rdata ∈ data, ∀ name ∈ rdata.names, name.octets ≤ maxNameOctets

variable {env : Environment} {buffer : List UInt8} {query : ParsedQuery} {name : Name}
  {qtype qclass : Nat} {request : Wire.Header} {rcode ancount : Nat}

/-- A response without answers is as well formed as its question. -/
theorem wellFormed_reply_nil (question : QuestionAt buffer name qtype qclass)
    (asked : query = parsedQuestion name qtype) (accepted : Accepted buffer query)
    (none_ : ancount % 65536 = 0) :
    WellFormed (replyBytes request buffer query rcode ancount []) := by
  refine ⟨_, (decodeMessage_reply question asked).mpr ⟨[], ?_, rfl⟩, ?_⟩
  · rw [none_, accepted.length_replyBytes]
    rfl
  · simpa [Message.names, Message.records, maxNameOctets] using question.short

/-- A response whose count is zero has nothing behind its question. -/
theorem not_wellFormed_reply {answers : List UInt8} (question : QuestionAt buffer name qtype qclass)
    (asked : query = parsedQuestion name qtype) (accepted : Accepted buffer query)
    (none_ : ancount % 65536 = 0) (left : answers ≠ []) :
    ¬ WellFormed (replyBytes request buffer query rcode ancount answers) := by
  rintro ⟨decoded, read, _⟩
  obtain ⟨records, answersRead, _⟩ := (decodeMessage_reply question asked).mp read
  rw [none_, accepted.length_replyBytes] at answersRead
  simp only [decodeMany, Option.some.injEq, Prod.mk.injEq] at answersRead
  have := List.length_pos_of_ne_nil left
  omega

/-- **The response for a record with an answered type** is well formed exactly
when the counted values are answered completely. -/
theorem wellFormed_reply_answers (question : QuestionAt buffer name qtype qclass)
    (asked : query = parsedQuestion name qtype) (accepted : Accepted buffer query)
    (record : DNSRecord) :
    WellFormed (replyBytes request buffer query rcode record.num_values
        (writtenAnswers env query (record.values.map (answerData env query.typeString))
          (12 + query.query_len))) ↔ CompleteAnswers env query record := by
  have questionName : name.octets ≤ maxNameOctets := question.short
  constructor
  · rintro ⟨decoded, read, legal⟩
    obtain ⟨records, answersRead, rfl⟩ := (decodeMessage_reply question asked).mp read
    obtain ⟨data, taken, fits, last, rfl⟩ :=
      (decodeMany_reply env question asked accepted record records).mp answersRead
    refine ⟨data, taken, fits, last, fun rdata member other otherMember => legal other ?_⟩
    simp only [Message.names, Message.records, List.append_nil, List.mem_append, List.mem_flatMap,
      List.mem_map]
    exact .inr ⟨answerRecord env query name rdata, ⟨rdata, member, rfl⟩,
      List.mem_cons_of_mem _ otherMember⟩
  · rintro ⟨data, taken, fits, last, legal⟩
    refine ⟨_, (decodeMessage_reply question asked).mpr ⟨_,
      (decodeMany_reply env question asked accepted record _).mpr ⟨data, taken, fits, last, rfl⟩,
      rfl⟩, ?_⟩
    intro other member
    simp only [Message.names, Message.records, List.append_nil, List.mem_append, List.mem_flatMap,
      List.map_cons, List.map_nil, List.mem_singleton, List.mem_map] at member
    rcases member with rfl | ⟨_, ⟨rdata, rdataMember, rfl⟩, inRecord⟩
    · exact questionName
    · rcases List.mem_cons.mp inRecord with rfl | inData
      · exact questionName
      · exact legal rdata rdataMember other inData

/-- A record whose type has no conversion is answered completely only when it
has no values. -/
theorem completeAnswers_other {record : DNSRecord} (accepted : Accepted buffer query)
    (other : query.typeString ∉ answeredTypes) :
    CompleteAnswers env query record ↔ record.values = [] := by
  have bounded := accepted.bounded
  constructor
  · rintro ⟨data, taken, _, last, _⟩
    cases data with
    | cons rdata data =>
        have member : some rdata ∈ (record.values.take (record.num_values % 65536)).map
            (answerData env query.typeString) := by
          rw [taken]
          exact List.mem_map_of_mem List.mem_cons_self
        obtain ⟨value, _, encoded⟩ := List.mem_map.mp member
        rw [answerData_of_not_mem other] at encoded
        cases encoded
    | nil =>
        have none_ : record.num_values % 65536 = 0 ∨ record.values = [] := by
          simpa using taken
        rcases none_ with zero | empty
        · by_contra nonempty
          have positive : 0 < record.num_values := List.length_pos_of_ne_nil nonempty
          have := last (by omega)
          rw [answersSize_nil] at this
          omega
        · exact empty
  · intro empty
    have zero : record.num_values = 0 := by rw [DNSRecord.num_values, empty]; rfl
    refine ⟨[], by simp [empty], ⟨by simpa using accepted.fits, by simp⟩, ?_, by simp⟩
    rw [zero]
    intro impossible
    exact absurd impossible (by decide)

/-- An overlong question makes every response to it malformed. -/
theorem WellFormedQuestion.of_reply {answers : List UInt8} (accepted : Accepted buffer query)
    (wellFormed : WellFormed (replyBytes request buffer query rcode ancount answers)) :
    WellFormedQuestion buffer := by
  rcases accepted.question with ⟨name, qtype, qclass, question, _⟩ | ⟨full, overlong⟩
  · exact ⟨name, qtype, qclass, question⟩
  · obtain ⟨message, read, legal⟩ := wellFormed
    obtain ⟨name, member, long⟩ := octets_of_overlong accepted full overlong read
    exact absurd (legal name member) (Nat.not_le.mpr long)

/-- A well-formed question is the one that was parsed. -/
theorem WellFormedQuestion.parsed (formed : WellFormedQuestion buffer)
    (parsed : parseDNSQuery buffer 256 16 = .ok (some query)) :
    ∃ name qtype qclass, QuestionAt buffer name qtype qclass ∧
      query = parsedQuestion name qtype := by
  obtain ⟨name, qtype, qclass, question⟩ := formed
  have same := (parseDNSQuery_of_question question).symm.trans parsed
  simp only [Except.ok.injEq, Option.some.injEq] at same
  exact ⟨name, qtype, qclass, question, same.symm⟩

/-- A response without answers is well formed exactly when its question is. -/
theorem wellFormed_reply_nil_iff (parsed : parseDNSQuery buffer 256 16 = .ok (some query))
    (none_ : ancount % 65536 = 0) :
    WellFormed (replyBytes request buffer query rcode ancount []) ↔ WellFormedQuestion buffer := by
  have accepted := parseDNSQuery_accepted parsed
  constructor
  · exact WellFormedQuestion.of_reply accepted
  · intro formed
    obtain ⟨name, qtype, qclass, question, asked⟩ := formed.parsed parsed
    exact wellFormed_reply_nil question asked accepted none_

/-- **The response to an accepted query is well formed** exactly when its
question is and every counted value was answered completely. -/
theorem processDnsQuery_wellFormed_iff (env : Environment) (store : Store) (datagram : Datagram)
    (query : ParsedQuery) (parsed : parseDNSQuery datagram.bytes 256 16 = .ok (some query)) :
    ∃ response, processDnsQuery env store datagram.bytes = .ok (some response) ∧
      (WellFormed response ↔ WellFormedQuestion datagram.bytes ∧
        ∀ record, lookup store query.domain query.typeString = some record →
          CompleteAnswers env query record) := by
  have accepted := parseDNSQuery_accepted parsed
  obtain ⟨request, decoded⟩ := accepted.decodeHeader
  cases found : lookup store query.domain query.typeString with
  | none =>
      refine ⟨_, processDnsQuery_unresolved parsed decoded found, ?_⟩
      rw [wellFormed_reply_nil_iff parsed rfl]
      simp
  | some record =>
      have single : (∀ other, some record = some other → CompleteAnswers env query other) ↔
          CompleteAnswers env query record := by simp
      rw [single]
      by_cases answered : query.typeString ∈ answeredTypes
      · refine ⟨_, processDnsQuery_answered parsed decoded found answered, ?_⟩
        constructor
        · intro wellFormed
          have formed := WellFormedQuestion.of_reply accepted wellFormed
          obtain ⟨name, qtype, qclass, question, asked⟩ := formed.parsed parsed
          exact ⟨formed, (wellFormed_reply_answers question asked accepted record).mp wellFormed⟩
        · rintro ⟨formed, complete⟩
          obtain ⟨name, qtype, qclass, question, asked⟩ := formed.parsed parsed
          exact (wellFormed_reply_answers question asked accepted record).mpr complete
      · refine ⟨_, processDnsQuery_other parsed decoded found answered, ?_⟩
        rw [completeAnswers_other accepted answered]
        by_cases empty : record.values = []
        · rw [if_pos empty, wellFormed_reply_nil_iff parsed rfl]
          simp [empty]
        · -- the fixed part of the first answer is left behind the question
          rw [if_neg empty]
          refine iff_of_false (fun wellFormed => ?_) (fun both => empty both.2)
          have formed := WellFormedQuestion.of_reply accepted wellFormed
          obtain ⟨name, qtype, qclass, question, asked⟩ := formed.parsed parsed
          exact not_wellFormed_reply question asked accepted rfl (List.cons_ne_nil _ _) wellFormed

/-- The store after an address that is none was added for that name. -/
def invalidAddressStore : Store :=
  (addSingleRecord KeyedTable.empty (cstr "a") (cstr "A") (cstr "base") (cstr "x")).result.2

theorem processDnsQuery_wellFormed_iff_invalid :
    ∃ response, processDnsQuery oneAddressEnvironment invalidAddressStore addressQuery.bytes =
        .ok (some response) ∧
      (WellFormed response ↔ WellFormedQuestion addressQuery.bytes ∧
        ∀ record, lookup invalidAddressStore (cstr "a") (cstr "A") = some record →
          CompleteAnswers oneAddressEnvironment (parsedQuestion [cstr "a"] DNS_TYPE_A) record) :=
  processDnsQuery_wellFormed_iff oneAddressEnvironment invalidAddressStore addressQuery
    (parsedQuestion [cstr "a"] DNS_TYPE_A) (by decide +kernel)

/-- The answer for a value that is no address stops behind its time to live,
and the header counts it. -/
theorem not_wellFormed_of_invalid_value :
    ¬ ∀ (parse : CString → Option CJSON) (env : Environment) (store : Store)
      (datagram : Datagram) (response : List UInt8), Reachable parse store →
        processDnsQuery env store datagram.bytes = .ok (some response) →
        WellFormed response := by
  intro all
  have malformed := all (fun _ => some noDomains) oneAddressEnvironment invalidAddressStore
    addressQuery
    [0, 1, 133, 0, 0, 1, 0, 1, 0, 0, 0, 0, 1, 97, 0, 0, 1, 0, 1, 192, 12, 0, 1, 0, 1, 0, 0, 1, 44]
    (reachable_empty.added _ _ _ _) (by decide +kernel)
  exact absurd malformed (by decide +kernel)

end DnsServer
