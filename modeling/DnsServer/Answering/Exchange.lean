import DnsServer.Answering.Buffers
import DnsServer.Answering.Delivery

/-!
# Responses that are answered

A response repeats the question, so a server that receives a response finds a
question in it. Nothing in the path from `recvfrom` to `sendto` looks at the bit
of the header that marks a response. Two servers of which one has received a
single query from the address of the other go on answering one another, whatever
happens to their stores (`exchange_endless`).

The only responses that are not answered are those that a server refuses to
parse. They answer a query whose labels fill `domain` with a label that ends
behind the end of the response (`quiet_iff`).
-/

set_option autoImplicit false

namespace DnsServer

open Libc Wire

/-- No response to a datagram is answered, whichever server receives it. -/
def Quiet (datagram : List UInt8) : Prop :=
  ∀ (parse parse' : CString → Option CJSON) (env env' : Environment) (store store' : Store),
    Reachable parse store → Reachable parse' store' →
    ∀ response, mainReceive env store datagram = .ok (some response) →
      mainReceive env' store' response = .ok none

/-! ## What a server receives -/

section Receive

variable {env : Environment} {store : Store} {datagram response : List UInt8} {query : ParsedQuery}

/-- A datagram with a question is large enough. -/
theorem mainReceive_accepted
    (parsed : parseDNSQuery (datagram.take 512) 256 16 = .ok (some query)) :
    mainReceive env store datagram = processDnsQuery env store (datagram.take 512) := by
  obtain ⟨last, written, _, place, positive, _, inside, _, _⟩ := parseDNSQuery_written parsed
  rw [mainReceive]
  exact if_neg (by simp only [DEFAULT_BUFFER_SIZE, headerSize]; omega)

/-- A datagram without one is not answered. -/
theorem mainReceive_refused (refused : parseDNSQuery (datagram.take 512) 256 16 = .ok none) :
    mainReceive env store datagram = .ok none := by
  rw [mainReceive]
  split
  · rfl
  · exact processDnsQuery_refused refused

/-- Every datagram that is answered was accepted. -/
theorem accepted_of_mainReceive (sent : mainReceive env store datagram = .ok (some response)) :
    ∃ query, parseDNSQuery (datagram.take 512) 256 16 = .ok (some query) := by
  rcases parseDNSQuery_cases (datagram.take 512) with refused | ⟨query, parsed, _⟩
  · rw [mainReceive_refused refused] at sent
    cases sent
  · exact ⟨query, parsed⟩

end Receive

/-! ## The question in a response -/

section Reply

variable {buffer : List UInt8} {query : ParsedQuery} {request : Wire.Header} {rcode ancount : Nat}
  {answers : List UInt8}

/-- A response to a well-formed question holds the same question. -/
theorem QuestionAt.reply {name : Name} {qtype qclass : Nat}
    (question : QuestionAt buffer name qtype qclass) :
    QuestionAt (replyBytes request buffer (parsedQuestion name qtype) rcode ancount answers) name
      qtype qclass where
  nonempty := question.nonempty
  legal := question.legal
  short := question.short
  layout := ⟨answers, by
    rw [drop_replyBytes, question.questionBytes_eq]
    simp only [List.append_assoc]
    rfl⟩
  qtype_lt := question.qtype_lt
  qclass_lt := question.qclass_lt

/-- A response to labels that fill `domain` holds the same labels, up to the
length byte of the last one. -/
theorem Filling.reply {front : Name} {len : UInt8} (filling : Filling buffer 12 255 front len)
    (full : query.query_len = 260) :
    Filling (replyBytes request buffer query rcode ancount answers) 12 255 front len where
  legal := filling.legal
  here := by
    obtain ⟨rest, here⟩ := filling.here
    have open_ := filling.open_
    obtain ⟨more, enough⟩ : ∃ more, 260 - (encodeLabels front).length = more + 1 :=
      ⟨260 - (encodeLabels front).length - 1, by omega⟩
    refine ⟨rest.take more ++ answers, ?_⟩
    rw [drop_replyBytes, questionBytes, full, here, List.take_append, enough,
      List.take_of_length_le (by omega), List.take_succ_cons, List.append_assoc, List.cons_append]
  nonzero := filling.nonzero
  short := filling.short
  open_ := filling.open_
  full := filling.full

end Reply

/-! ## Two servers -/

/-- What comes of a datagram that goes from server to server. -/
def exchange : List (Environment × Store) → List UInt8 → Checked (Option (List UInt8))
  | [], datagram => return some datagram
  | (env, store) :: servers, datagram => do
    match ← mainReceive env store datagram with
    | none => return none
    | some response => exchange servers response

/-- A response to a well-formed question is a question for the next server. -/
theorem mainReceive_question {datagram : List UInt8} {name : Name} {qtype qclass : Nat}
    (question : QuestionAt (datagram.take 512) name qtype qclass) (env : Environment)
    (store : Store) :
    ∃ response, mainReceive env store datagram = .ok (some response) ∧
      QuestionAt (response.take 512) name qtype qclass := by
  have parsed := parseDNSQuery_of_question question
  obtain ⟨request, rcode, ancount, answers, sent, fits⟩ := processDnsQuery_sent env store parsed
  refine ⟨_, (mainReceive_accepted parsed).trans sent, ?_⟩
  rw [List.take_of_length_le (by rw [question.accepted.length_replyBytes]; exact fits)]
  exact question.reply

/-- **An exchange of responses does not end**: after any number of servers, each
with a store of its own at that time, there is still a datagram under way. -/
theorem exchange_endless {name : Name} {qtype qclass : Nat} :
    ∀ (servers : List (Environment × Store)) (datagram : List UInt8),
      QuestionAt (datagram.take 512) name qtype qclass →
      ∃ response, exchange servers datagram = .ok (some response) := by
  intro servers
  induction servers with
  | nil =>
      intro datagram _
      exact ⟨datagram, rfl⟩
  | cons server servers ih =>
      intro datagram question
      obtain ⟨response, sent, again⟩ := mainReceive_question question server.1 server.2
      obtain ⟨last, rest⟩ := ih response again
      exact ⟨last, by rw [exchange, sent, Checked.ok_bind]; exact rest⟩

/-! ## Labels that fill the output -/

section Overfull

/-- The type of a question is converted exactly for the answered types. -/
theorem typeString_answered_iff (qtype : Nat) :
    snprintf 16 (typeName qtype) ∈ answeredTypes ↔ qtype ∈ answeredQtypes := by
  constructor
  · intro member
    by_contra other
    simp only [answeredQtypes, List.mem_cons, List.not_mem_nil, or_false, not_or] at other
    obtain ⟨notA, notAAAA, notCNAME, notNS, notMX⟩ := other
    unfold typeName at member
    rw [if_neg notA, if_neg notAAAA, if_neg notNS, if_neg notCNAME, if_neg notMX] at member
    split at member
    · exact absurd member (by decide)
    split at member
    · exact absurd member (by decide)
    · -- all other names start with the four letters of `TYPE`
      simp [answeredTypes, snprintf, cstr] at member
  · intro member
    exact (answered_of_mem member []).1

/-- A text that no conversion accepts. -/
def unreadable : CString := cstr "."

theorem answerData_unreadable (typeString : CString) :
    answerData oneAddressEnvironment typeString unreadable = none := by
  unfold answerData
  split_ifs <;> rfl

/-- Six values that cannot be encoded leave sixty bytes behind. -/
theorem length_writtenAnswers_unreadable {query : ParsedQuery} {start : Nat}
    (room : start + 66 ≤ 512) :
    (writtenAnswers oneAddressEnvironment query (List.replicate 6 none) start).length = 60 := by
  simp only [List.replicate_succ, List.replicate_zero]
  rw [writtenAnswers_none (by omega), writtenAnswers_none (by omega),
    writtenAnswers_none (by omega), writtenAnswers_none (by omega),
    writtenAnswers_none (by omega), writtenAnswers_none (by omega)]
  simp [writtenAnswers]

variable {datagram : List UInt8} {query : ParsedQuery}

/-- Some server answers an accepted query with ten bytes behind the question, and
with sixty when the type has a conversion. -/
theorem exists_long_response (parsed : parseDNSQuery datagram 256 16 = .ok (some query))
    (full : query.query_len = 260) :
    ∃ parse store, Reachable parse store ∧ ∃ request rcode ancount answers,
      processDnsQuery oneAddressEnvironment store datagram =
        .ok (some (replyBytes request datagram query rcode ancount answers)) ∧
      10 ≤ answers.length ∧ (query.typeString ∈ answeredTypes → 60 ≤ answers.length) := by
  have accepted := parseDNSQuery_accepted parsed
  obtain ⟨request, decoded⟩ := accepted.decodeHeader
  have texted : valueTexts query.typeString (.array (List.replicate 6 (.string unreadable))) =
      some (List.replicate 6 unreadable) := by
    simp [valueTexts, CJSON.children, valueText, CJSON.isObject, List.replicate_succ]
  obtain ⟨store, reachable, found⟩ := reachable_baseTree query.domain query.typeString texted
  refine ⟨_, store, reachable, request, ?_⟩
  by_cases answered : query.typeString ∈ answeredTypes
  · have sent := @processDnsQuery_answered oneAddressEnvironment _ _ _ _ _ parsed decoded
      (lookup_of_base found) answered
    have length := @length_writtenAnswers_unreadable query _
      (show 12 + query.query_len + 66 ≤ 512 by omega)
    simp only [List.map_replicate, answerData_unreadable] at sent
    exact ⟨_, _, _, sent, by omega, fun _ => by omega⟩
  · have sent := @processDnsQuery_other oneAddressEnvironment _ _ _ _ _ parsed decoded
      (lookup_of_base found) answered
    rw [if_neg (by simp)] at sent
    exact ⟨_, _, _, sent, by simp, fun member => absurd member answered⟩

/-- A server has at most ten bytes to put behind a question whose type has no
conversion. -/
theorem length_response_other {env : Environment} {store : Store} {response : List UInt8}
    (parsed : parseDNSQuery datagram 256 16 = .ok (some query)) (full : query.query_len = 260)
    (other : query.typeString ∉ answeredTypes)
    (sent : processDnsQuery env store datagram = .ok (some response)) :
    ∃ request rcode ancount answers,
      response = replyBytes request datagram query rcode ancount answers ∧
        response.length ≤ 282 := by
  have accepted := parseDNSQuery_accepted parsed
  obtain ⟨request, decoded⟩ := accepted.decodeHeader
  have length : ∀ {rcode ancount : Nat} {answers : List UInt8}, answers.length ≤ 10 →
      (replyBytes request datagram query rcode ancount answers).length ≤ 282 := by
    intro rcode ancount answers short
    rw [accepted.length_replyBytes]
    omega
  cases found : lookup store query.domain query.typeString with
  | none =>
      rw [processDnsQuery_unresolved parsed decoded found, Except.ok.injEq,
        Option.some.injEq] at sent
      exact ⟨request, _, _, _, sent.symm, sent ▸ length (by simp)⟩
  | some record =>
      rw [processDnsQuery_other parsed decoded found other, Except.ok.injEq,
        Option.some.injEq] at sent
      by_cases empty : record.values = []
      · rw [if_pos empty] at sent
        exact ⟨request, _, _, _, sent.symm, sent ▸ length (by simp)⟩
      · rw [if_neg empty] at sent
        exact ⟨request, _, _, _, sent.symm, sent ▸ length (by simp)⟩

end Overfull

/-- A well-formed question is answered, and so is the response to it. -/
theorem Quiet.no_question {datagram : List UInt8} (quiet : Quiet datagram) (name : Name)
    (qtype qclass : Nat) : ¬ QuestionAt (datagram.take 512) name qtype qclass := by
  intro question
  obtain ⟨response, sent, again⟩ := mainReceive_question question oneAddressEnvironment
    KeyedTable.empty
  obtain ⟨next, answered, _⟩ := mainReceive_question again oneAddressEnvironment KeyedTable.empty
  have silent := quiet _ _ _ oneAddressEnvironment _ _ reachable_empty reachable_empty response sent
  rw [answered] at silent
  cases silent

/-- The response to labels that fill `domain` is answered when it can reach the end
of the last of them. -/
theorem Quiet.far {datagram : List UInt8} (quiet : Quiet datagram) {front : Name} {len : UInt8}
    {qtype : Nat} (filling : Filling (datagram.take 512) 12 255 front len)
    (ends : fillingEnd 12 front len ≤ (datagram.take 512).length)
    (large : 272 ≤ (datagram.take 512).length)
    (typeHere : readShort (datagram.take 512) 268 = .ok qtype) :
    282 < fillingEnd 12 front len ∧ qtype ∉ answeredQtypes := by
  obtain ⟨query, parsed, full, type⟩ := filling.parseDNSQuery_eq.1 ends large
  rw [type, Except.ok.injEq] at typeHere
  subst typeHere
  have accepted := parseDNSQuery_accepted parsed
  rw [← typeString_answered_iff, ← accepted.typeString_eq]
  by_contra loud
  obtain ⟨parse, store, reachable, request, rcode, ancount, answers, sent, some_, more⟩ :=
    exists_long_response parsed full
  have length := accepted.length_replyBytes request rcode ancount answers
  have inside := accepted.inside
  have open_ := filling.open_
  have short := filling.short
  -- the response reaches the end of the last label
  have reaches : fillingEnd 12 front len ≤ 272 + answers.length := by
    simp only [fillingEnd] at loud ⊢
    by_cases answered : query.typeString ∈ answeredTypes
    · have := more answered
      omega
    · simp only [answered, not_false_eq_true, and_true] at loud
      omega
  have silent := quiet _ _ _ oneAddressEnvironment _ _ reachable reachable_empty _
    ((mainReceive_accepted parsed).trans sent)
  obtain ⟨_, _, _, _, sentAgain, fits⟩ := processDnsQuery_sent oneAddressEnvironment store parsed
  rw [sent, Except.ok.injEq, Option.some.injEq] at sentAgain
  have small : (replyBytes request (datagram.take 512) query rcode ancount answers).length ≤
      512 := by
    rw [sentAgain, accepted.length_replyBytes]
    exact fits
  have echoed : Filling (replyBytes request (datagram.take 512) query rcode ancount answers)
      12 255 front len := filling.reply full
  obtain ⟨next, parsedAgain, _⟩ := echoed.parseDNSQuery_eq.1 (by rw [length]; omega)
    (by rw [length]; omega)
  obtain ⟨_, _, _, _, answered, _⟩ := processDnsQuery_sent oneAddressEnvironment
    KeyedTable.empty parsedAgain
  have received := parsedAgain
  rw [← List.take_of_length_le small] at received
  rw [mainReceive_accepted received, List.take_of_length_le small, answered] at silent
  cases silent

/-- The response to labels that fill `domain` is refused when it ends inside the
last of them. -/
theorem quiet_of_far {datagram : List UInt8}
    (noQuestion : ∀ name qtype qclass, ¬ QuestionAt (datagram.take 512) name qtype qclass)
    (far : ∀ front len qtype, Filling (datagram.take 512) 12 255 front len →
      fillingEnd 12 front len ≤ (datagram.take 512).length → 272 ≤ (datagram.take 512).length →
      readShort (datagram.take 512) 268 = .ok qtype →
      282 < fillingEnd 12 front len ∧ qtype ∉ answeredQtypes) : Quiet datagram := by
  intro parse parse' env env' store store' _ _ response sent
  obtain ⟨query, parsed⟩ := accepted_of_mainReceive sent
  rcases (parseDNSQuery_accepts_iff _).mp ⟨query, parsed⟩ with
    ⟨name, qtype, qclass, question⟩ | ⟨front, len, filling, ends, large⟩
  · exact absurd question (noQuestion name qtype qclass)
  obtain ⟨other, otherParsed, full, type⟩ := filling.parseDNSQuery_eq.1 ends large
  rw [parsed, Except.ok.injEq, Option.some.injEq] at otherParsed
  subst otherParsed
  obtain ⟨behind, unanswered⟩ := far front len query.queryType filling ends large type
  rw [← typeString_answered_iff, ← (parseDNSQuery_accepted parsed).typeString_eq] at unanswered
  rw [mainReceive_accepted parsed] at sent
  obtain ⟨request, rcode, ancount, answers, rfl, short⟩ :=
    length_response_other parsed full unanswered sent
  apply mainReceive_refused
  rw [List.take_of_length_le (by omega)]
  exact (filling.reply full).parseDNSQuery_eq.2 (.inl (by omega))

/-- **A response is answered**, whatever the second server holds, exactly when it repeats a
well-formed question, or when it reaches the end of labels that fill `domain`. -/
theorem mainReceive_response_iff {env env' : Environment} {store store' : Store}
    {datagram response : List UInt8} (sent : mainReceive env store datagram = .ok (some response)) :
    (∃ next, mainReceive env' store' response = .ok (some next)) ↔
      (∃ name qtype qclass, QuestionAt (datagram.take 512) name qtype qclass) ∨
        ∃ front len, Filling (datagram.take 512) 12 255 front len ∧
          fillingEnd 12 front len ≤ response.length ∧ 272 ≤ response.length := by
  obtain ⟨query, parsed⟩ := accepted_of_mainReceive sent
  rcases (parseDNSQuery_accepts_iff _).mp ⟨query, parsed⟩ with
    ⟨name, qtype, qclass, question⟩ | ⟨front, len, filling, ends, large⟩
  · refine iff_of_true ?_ (.inl ⟨name, qtype, qclass, question⟩)
    obtain ⟨_, same, again⟩ := mainReceive_question question env store
    rw [sent, Except.ok.injEq, Option.some.injEq] at same
    subst same
    obtain ⟨next, answered, _⟩ := mainReceive_question again env' store'
    exact ⟨next, answered⟩
  obtain ⟨other, otherParsed, full, _⟩ := filling.parseDNSQuery_eq.1 ends large
  rw [parsed, Except.ok.injEq, Option.some.injEq] at otherParsed
  subst otherParsed
  obtain ⟨request, rcode, ancount, answers, made, fits⟩ := processDnsQuery_sent env store parsed
  rw [mainReceive_accepted parsed, made, Except.ok.injEq, Option.some.injEq] at sent
  have small : (response.take 512) = response :=
    List.take_of_length_le (by rw [← sent, (parseDNSQuery_accepted parsed).length_replyBytes]; exact fits)
  have echoed {front : Name} {len : UInt8} (filling : Filling (datagram.take 512) 12 255 front len) :
      Filling (response.take 512) 12 255 front len := by
    rw [small, ← sent]
    exact filling.reply full
  constructor
  · rintro ⟨next, answered⟩
    refine .inr ⟨front, len, filling, ?_⟩
    by_contra short
    rw [mainReceive_refused ((echoed filling).parseDNSQuery_eq.2 (by rw [small]; omega))] at answered
    cases answered
  · rintro (⟨name, qtype, qclass, question⟩ | ⟨front, len, filling, ends, large⟩)
    · obtain ⟨_, same, again⟩ := mainReceive_question question env store
      rw [mainReceive_accepted parsed, made, Except.ok.injEq, Option.some.injEq, sent] at same
      subst same
      obtain ⟨next, answered, _⟩ := mainReceive_question again env' store'
      exact ⟨next, answered⟩
    · obtain ⟨_, accepted, _⟩ := (echoed filling).parseDNSQuery_eq.1 (by rwa [small])
        (by rwa [small])
      obtain ⟨_, _, _, _, answered, _⟩ := processDnsQuery_sent env' store' accepted
      exact ⟨_, (mainReceive_accepted accepted).trans answered⟩

/-- **No response to a datagram is ever answered** exactly when the datagram holds
no well-formed question, and when labels of its name that fill `domain` belong to
a type without a conversion and end more than 282 bytes behind its start. -/
theorem quiet_iff (datagram : List UInt8) :
    Quiet datagram ↔
      (∀ name qtype qclass, ¬ QuestionAt (datagram.take 512) name qtype qclass) ∧
      ∀ front len qtype, Filling (datagram.take 512) 12 255 front len →
        fillingEnd 12 front len ≤ (datagram.take 512).length → 272 ≤ (datagram.take 512).length →
        readShort (datagram.take 512) 268 = .ok qtype →
        282 < fillingEnd 12 front len ∧ qtype ∉ answeredQtypes :=
  ⟨fun quiet => ⟨quiet.no_question, fun _ _ _ => quiet.far⟩,
    fun ⟨noQuestion, far⟩ => quiet_of_far noQuestion far⟩

/-- Two servers without records answer one another once one of them has been
asked for an address. -/
theorem not_quiet_of_address_query :
    ¬ ∀ (parse parse' : CString → Option CJSON) (env env' : Environment) (store store' : Store)
      (datagram response : List UInt8), Reachable parse store → Reachable parse' store' →
        mainReceive env store datagram = .ok (some response) →
        mainReceive env' store' response = .ok none := by
  intro all
  obtain ⟨response, sent, again⟩ := @mainReceive_question addressQuery.bytes _ _ _
    questionAt_addressQuery oneAddressEnvironment KeyedTable.empty
  obtain ⟨next, answered, _⟩ := mainReceive_question again oneAddressEnvironment KeyedTable.empty
  have silent := all _ _ _ oneAddressEnvironment _ _ _ _ reachable_empty reachable_empty sent
  rw [answered] at silent
  cases silent

end DnsServer
