import DnsServer.Answering.Response

/-!
# How the grammar reads a response

The written answers are complete as long as each value has data, each answer
fits, and sixteen bytes are free in front of it (`Fits`). The reader then reads
those answers back, and it reads no others: a count that reaches past them makes
it fail (`decodeMany_writtenAnswers`).

A response is read as its header, its question and its counted answers
(`decodeMessage_reply`). A question whose name the server could not hold is not
read as a name of legal size.
-/

set_option autoImplicit false

namespace DnsServer

open Libc Wire

/-! ## Answers that are complete -/

/-- The bytes taken by the answers for some data. -/
def answersSize (data : List RData) : Nat := (data.map fun rdata => 12 + rdata.encode.length).sum

@[simp] theorem answersSize_nil : answersSize [] = 0 := rfl

@[simp] theorem answersSize_cons (rdata : RData) (data : List RData) :
    answersSize (rdata :: data) = 12 + rdata.encode.length + answersSize data := rfl

/-- Behind `start` bytes there is room for all answers, and sixteen bytes are
free in front of each. -/
def Fits (start : Nat) (data : List RData) : Prop :=
  start + answersSize data ≤ 512 ∧
    ∀ i < data.length, start + answersSize (data.take i) + 16 ≤ 512

theorem fits_cons {start : Nat} {rdata : RData} {data : List RData} :
    Fits start (rdata :: data) ↔
      start + 16 ≤ 512 ∧ Fits (start + (12 + rdata.encode.length)) data := by
  constructor
  · rintro ⟨total, before⟩
    refine ⟨?_, ?_, fun i small => ?_⟩
    · simpa using before 0 (by simp)
    · rw [answersSize_cons] at total
      omega
    · have := before (i + 1) (by simpa using small)
      rw [List.take_succ_cons, answersSize_cons] at this
      omega
  · rintro ⟨first, total, before⟩
    refine ⟨?_, fun i small => ?_⟩
    · rw [answersSize_cons]
      omega
    · cases i with
      | zero => simpa using first
      | succ i =>
          have := before i (by simpa using small)
          rw [List.take_succ_cons, answersSize_cons]
          omega

section Written

variable {env : Environment} {query : ParsedQuery}

/-- Answers that fit are written completely, and the loop goes on behind
them. -/
theorem writtenAnswers_append (env : Environment) (query : ParsedQuery) {data : List RData}
    (more : List (Option RData)) :
    ∀ {start : Nat}, Fits start data →
      writtenAnswers env query (data.map some ++ more) start =
        data.flatMap (answerBytes env query) ++
          writtenAnswers env query more (start + answersSize data) := by
  induction data with
  | nil =>
      intro start _
      simp
  | cons rdata data ih =>
      intro start fits
      obtain ⟨room, rest⟩ := fits_cons.mp fits
      have total := rest.1
      rw [List.map_cons, List.cons_append, writtenAnswers_fits room (by omega), ih rest,
        List.flatMap_cons, List.append_assoc, answersSize_cons, Nat.add_assoc]

/-- The loop writes nothing only when it has nothing to write or no room. -/
theorem writtenAnswers_eq_nil {all : List (Option RData)} {start : Nat} :
    writtenAnswers env query all start = [] ↔ all = [] ∨ 512 < start + 16 := by
  cases all with
  | nil => simp [writtenAnswers]
  | cons data more =>
      by_cases tight : 512 < start + 16
      · simp [writtenAnswers_full tight, tight]
      have room : start + 16 ≤ 512 := by omega
      have head : answerHead env query ≠ [] := List.cons_ne_nil _ _
      cases data with
      | none => simp [writtenAnswers_none room, head, tight]
      | some rdata =>
          by_cases long : 512 < start + 12 + rdata.encode.length
          · simp [writtenAnswers_long room long, head, tight]
          · have fits : start + 12 + rdata.encode.length ≤ 512 := by omega
            simp [writtenAnswers_fits room fits, answerBytes, head, tight]

/-- Whatever the loop writes starts with the pointer of an owner. -/
theorem writtenAnswers_pointer (all : List (Option RData)) (start : Nat) :
    writtenAnswers env query all start = [] ∨
      ∃ rest, writtenAnswers env query all start = 0xC0 :: 12 :: rest := by
  cases all with
  | nil => exact .inl rfl
  | cons data more =>
      by_cases tight : 512 < start + 16
      · exact .inl (writtenAnswers_full tight)
      have room : start + 16 ≤ 512 := by omega
      right
      cases data with
      | none => exact ⟨_, writtenAnswers_none room⟩
      | some rdata =>
          by_cases long : 512 < start + 12 + rdata.encode.length
          · exact ⟨_, writtenAnswers_long room long⟩
          · exact ⟨_, writtenAnswers_fits room (by omega)⟩

/-- The loop stays inside the response. -/
theorem length_writtenAnswers {all : List (Option RData)} :
    ∀ {start : Nat}, start ≤ 512 →
      start + (writtenAnswers env query all start).length ≤ 512 := by
  induction all with
  | nil =>
      intro start inside
      simpa [writtenAnswers] using inside
  | cons data more ih =>
      intro start inside
      by_cases tight : 512 < start + 16
      · simpa [writtenAnswers_full tight] using inside
      have room : start + 16 ≤ 512 := by omega
      cases data with
      | none =>
          have rest := ih (show start + 10 ≤ 512 by omega)
          simp only [writtenAnswers_none room, List.length_append, length_answerHead]
          omega
      | some rdata =>
          by_cases long : 512 < start + 12 + rdata.encode.length
          · simp only [writtenAnswers_long room long, length_answerHead]
            omega
          · have fits : start + 12 + rdata.encode.length ≤ 512 := by omega
            have rest := ih (show start + (12 + rdata.encode.length) ≤ 512 by omega)
            simp only [writtenAnswers_fits room fits, List.length_append, length_answerBytes]
            omega

end Written

/-! ## Reading the answers -/

/-- The record a reader sees for an answer. -/
def answerRecord (env : Environment) (query : ParsedQuery) (question : Name) (rdata : RData) :
    ResourceRecord where
  owner := question
  type := answerType query
  class_ := 1
  ttl := env.default_ttl.toNat
  rdata := rdata

section Reading

variable {env : Environment} {query : ParsedQuery} {question : Name} {message : List UInt8}

theorem answerType_lt (small : query.queryType < 2 ^ 16) : answerType query < 2 ^ 16 := by
  unfold answerType
  repeat' split
  all_goals first | exact small | decide

theorem compressedHead_ttl (env : Environment) (query : ParsedQuery) :
    answerHead env query = compressedHead (answerType query) 1 (env.default_ttl.toNat / 65536)
      (env.default_ttl.toNat % 65536) := by
  rw [answerHead, compressedHead, compressedHead, encodeWord_mod]
  rfl

theorem headInRange (small : query.queryType < 2 ^ 16) :
    HeadInRange (answerType query) 1 (env.default_ttl.toNat / 65536)
      (env.default_ttl.toNat % 65536) where
  type_lt := answerType_lt small
  class_lt := by decide
  ttlHigh_lt := by
    have := env.default_ttl.toNat_lt
    omega
  ttlLow_lt := Nat.mod_lt _ (by decide)

/-- A complete answer is read back. -/
theorem decodeRecord_answerBytes {rdata : RData} {offset : Nat} {rest : List UInt8}
    (name : NameAtTwelve message question) (small : query.queryType < 2 ^ 16)
    (layout : rdata.HasLayout (answerType query)) (fits : rdata.encode.length < 2 ^ 16)
    (here : message.drop offset = answerBytes env query rdata ++ rest) :
    decodeRecord message offset = some (answerRecord env query question rdata,
      offset + (12 + rdata.encode.length)) := by
  have split : answerBytes env query rdata =
      encodeCompressed (answerType query) 1 (env.default_ttl.toNat / 65536)
        (env.default_ttl.toNat % 65536) rdata := by
    rw [answerBytes, compressedHead_ttl]
    rfl
  have ttl : 65536 * (env.default_ttl.toNat / 65536) + env.default_ttl.toNat % 65536 =
      env.default_ttl.toNat := Nat.div_add_mod _ _
  rw [split] at here
  rw [decodeRecord_encode name (headInRange small) layout fits here, ttl]
  rfl

/-- A fixed part that was left behind is not read as a record. -/
theorem decodeRecord_answerHead {offset : Nat} {rest : List UInt8}
    (name : NameAtTwelve message question) (small : query.queryType < 2 ^ 16)
    (short : message.length ≤ 512) (cut : rest = [] ∨ ∃ more, rest = 0xC0 :: 12 :: more)
    (here : message.drop offset = answerHead env query ++ rest) :
    decodeRecord message offset = none := by
  rw [compressedHead_ttl] at here
  exact decodeRecord_cut name (headInRange small) short cut here

/-- What is read for a number of answers: the first values all have data, their
answers are complete, and the records are those of the data. -/
def AnswersRead (env : Environment) (query : ParsedQuery) (question : Name)
    (all : List (Option RData)) (count start : Nat) (result : List ResourceRecord × Nat) : Prop :=
  ∃ data : List RData, all.take count = data.map some ∧ Fits start data ∧
    result = (data.map (answerRecord env query question), start + answersSize data)

variable {all more : List (Option RData)} {count start : Nat}
  {result : List ResourceRecord × Nat}

/-- No record is read for the count zero. -/
theorem decodeMany_zero (inside : start ≤ 512) :
    decodeMany (decodeRecord message) 0 start = some result ↔
      AnswersRead env query question all 0 start result := by
  constructor
  · intro read
    cases read
    exact ⟨[], rfl, ⟨inside, by simp⟩, rfl⟩
  · rintro ⟨data, taken, _, rfl⟩
    cases data with
    | nil => rfl
    | cons rdata data => simp at taken

/-- Where the first answer is not complete, nothing is read. -/
theorem decodeMany_stuck {head : Option RData} (unread : decodeRecord message start = none)
    (incomplete : ∀ rdata, head = some rdata → ¬ Fits start [rdata]) :
    decodeMany (decodeRecord message) (count + 1) start = some result ↔
      AnswersRead env query question (head :: more) (count + 1) start result := by
  rw [decodeMany_none unread]
  constructor
  · intro impossible
    cases impossible
  · rintro ⟨data, taken, fits, _⟩
    cases data with
    | nil => simp at taken
    | cons rdata data =>
        rw [List.take_succ_cons, List.map_cons, List.cons.injEq] at taken
        obtain ⟨room, rest⟩ := fits_cons.mp fits
        refine absurd (fits_cons.mpr ⟨room, ?_⟩) (incomplete rdata taken.1)
        exact ⟨by have := rest.1; simp; omega, by simp⟩

/-- A complete answer is read in front of those behind it. -/
theorem decodeMany_answer {rdata : RData} (room : start + 16 ≤ 512)
    (first : decodeRecord message start =
      some (answerRecord env query question rdata, start + (12 + rdata.encode.length)))
    (rest : ∀ result, decodeMany (decodeRecord message) count (start + (12 + rdata.encode.length)) =
        some result ↔
      AnswersRead env query question more count (start + (12 + rdata.encode.length)) result) :
    decodeMany (decodeRecord message) (count + 1) start = some result ↔
      AnswersRead env query question (some rdata :: more) (count + 1) start result := by
  simp only [decodeMany, first, Option.bind_eq_bind, Option.bind_some, Option.bind_eq_some_iff,
    Prod.exists]
  constructor
  · rintro ⟨records, next, others, same⟩
    obtain ⟨data, taken, dataFits, both⟩ := (rest (records, next)).mp others
    cases both
    cases same
    refine ⟨rdata :: data, ?_, fits_cons.mpr ⟨room, dataFits⟩, ?_⟩
    · rw [List.take_succ_cons, taken, List.map_cons]
    · rw [List.map_cons, answersSize_cons, Nat.add_assoc start]
  · rintro ⟨data, taken, dataFits, rfl⟩
    cases data with
    | nil => simp at taken
    | cons other data =>
        rw [List.take_succ_cons, List.map_cons, List.cons.injEq, Option.some.injEq] at taken
        obtain ⟨rfl, taken⟩ := taken
        refine ⟨_, _, (rest _).mpr ⟨data, taken, (fits_cons.mp dataFits).2, rfl⟩, ?_⟩
        rw [List.map_cons, answersSize_cons, Nat.add_assoc start]
        rfl

/-- **The answers that are read are exactly the complete ones**: the induction
follows the loop, and a value whose answer is not complete stops the reader. -/
theorem decodeMany_writtenAnswers (name : NameAtTwelve message question)
    (small : query.queryType < 2 ^ 16) (short : message.length ≤ 512) :
    ∀ (all : List (Option RData)) (count start : Nat) (result : List ResourceRecord × Nat),
      (∀ rdata, some rdata ∈ all → rdata.HasLayout (answerType query)) → count ≤ all.length →
      start ≤ 512 → message.drop start = writtenAnswers env query all start →
      (decodeMany (decodeRecord message) count start = some result ↔
        AnswersRead env query question all count start result) := by
  intro all
  induction all with
  | nil =>
      intro count start result _ enough inside _
      have zero : count = 0 := by simpa using enough
      subst zero
      exact decodeMany_zero inside
  | cons head more ih =>
      intro count start result layout enough inside here
      cases count with
      | zero => exact decodeMany_zero inside
      | succ count =>
      by_cases tight : 512 < start + 16
      · rw [writtenAnswers_full tight] at here
        apply decodeMany_stuck (decodeRecord_none (List.drop_eq_nil_iff.mp here))
        intro rdata _ fits
        have := (fits_cons.mp fits).1
        omega
      have room : start + 16 ≤ 512 := by omega
      cases head with
      | none =>
          rw [writtenAnswers_none room] at here
          exact decodeMany_stuck
            (decodeRecord_answerHead name small short (writtenAnswers_pointer more _) here) (by simp)
      | some rdata =>
          by_cases long : 512 < start + 12 + rdata.encode.length
          · rw [writtenAnswers_long room long, ← List.append_nil (answerHead env query)] at here
            apply decodeMany_stuck (decodeRecord_answerHead name small short (.inl rfl) here)
            intro other same fits
            cases same
            have := (fits_cons.mp fits).2.1
            simp at this
            omega
          · have fits : start + 12 + rdata.encode.length ≤ 512 := by omega
            rw [writtenAnswers_fits room fits] at here
            have first := decodeRecord_answerBytes name small
              (layout rdata List.mem_cons_self) (by omega) here
            have behind := drop_add_of_drop here
            rw [length_answerBytes] at behind
            apply decodeMany_answer room first
            intro result
            exact ih count (start + (12 + rdata.encode.length)) result
              (fun other member => layout other (List.mem_cons_of_mem _ member))
              (by simpa using enough) (by omega) behind

end Reading

/-! ## Reading a response -/

section Reply

variable {buffer : List UInt8} {query : ParsedQuery} {request : Wire.Header} {rcode ancount : Nat}
  {answers : List UInt8}

/-- The header a reader sees in a response. -/
def replyWire (request : Wire.Header) (rcode ancount : Nat) : Wire.Header :=
  DNSHeader.wire { replyHeader request with rcode, ancount }

theorem drop_replyBytes (request : Wire.Header) (buffer : List UInt8) (query : ParsedQuery)
    (rcode ancount : Nat) (answers : List UInt8) :
    (replyBytes request buffer query rcode ancount answers).drop 12 =
      questionBytes buffer query ++ answers := by
  rw [replyBytes]
  rfl

theorem Accepted.drop_replyBytes (accepted : Accepted buffer query) (request : Wire.Header)
    (rcode ancount : Nat) (answers : List UInt8) :
    (replyBytes request buffer query rcode ancount answers).drop (12 + query.query_len) =
      answers := by
  rw [← List.drop_drop, DnsServer.drop_replyBytes, List.drop_left' accepted.length_questionBytes]

theorem Accepted.length_replyBytes (accepted : Accepted buffer query) (request : Wire.Header)
    (rcode ancount : Nat) (answers : List UInt8) :
    (replyBytes request buffer query rcode ancount answers).length =
      12 + query.query_len + answers.length := by
  simp [replyBytes, accepted.length_questionBytes]
  omega

theorem decodeHeader_replyBytes :
    decodeHeader (replyBytes request buffer query rcode ancount answers) =
      some (replyWire request rcode ancount) := by
  rw [replyBytes, DNSHeader.bytes_eq_encode]
  exact decodeHeader_encode (DNSHeader.wire_inRange _) _

section Question

variable {name : Name} {qtype qclass : Nat}

/-- The question is copied as it stands in the datagram. -/
theorem QuestionAt.questionBytes_eq (question : QuestionAt buffer name qtype qclass) :
    questionBytes buffer (parsedQuestion name qtype) =
      name.encode ++ (encodeWord qtype ++ encodeWord qclass) := by
  obtain ⟨rest, layout⟩ := question.layout
  have split : buffer.drop 12 =
      (name.encode ++ (encodeWord qtype ++ encodeWord qclass)) ++ rest := by
    rw [layout]
    simp [encodeWord, htons]
  rw [questionBytes, split]
  exact List.take_left' (by simp [parsedQuestion, encodeWord])

theorem QuestionAt.nameAtTwelve (question : QuestionAt buffer name qtype qclass)
    (asked : query = parsedQuestion name qtype) :
    NameAtTwelve (replyBytes request buffer query rcode ancount answers) name where
  legal := question.legal
  here := ⟨encodeWord qtype ++ encodeWord qclass ++ answers, by
    rw [drop_replyBytes, asked, question.questionBytes_eq]
    simp only [List.append_assoc]⟩

theorem QuestionAt.decodeQuestion (question : QuestionAt buffer name qtype qclass)
    (asked : query = parsedQuestion name qtype) :
    decodeQuestion (replyBytes request buffer query rcode ancount answers) 12 =
      some ({ name, qtype, qclass }, 12 + query.query_len) := by
  have here : (replyBytes request buffer query rcode ancount answers).drop 12 =
      name.encode ++ (encodeWord qtype ++ (encodeWord qclass ++ answers)) := by
    rw [drop_replyBytes, asked, question.questionBytes_eq]
    simp only [List.append_assoc]
  have atType := drop_add_of_drop here
  rw [length_encode] at atType
  have atClass := drop_add_of_drop atType
  have readType := decodeWord_of_drop question.qtype_lt atType
  have readClass := decodeWord_of_drop question.qclass_lt atClass
  have width : (encodeWord qtype).length = 2 := rfl
  rw [width] at readClass
  simp only [Wire.decodeQuestion, decodeName_encode question.legal here, readType, readClass,
    Option.bind_eq_bind, Option.bind_some]
  rw [asked]
  rfl

/-- **A response to a well-formed question** is read as its header, the
question, and its counted answers, which must end where the response ends. -/
theorem decodeMessage_reply (question : QuestionAt buffer name qtype qclass)
    (asked : query = parsedQuestion name qtype) {decoded : Message} :
    decodeMessage (replyBytes request buffer query rcode ancount answers) = some decoded ↔
      ∃ records, decodeMany (decodeRecord (replyBytes request buffer query rcode ancount answers))
          (ancount % 65536) (12 + query.query_len) =
            some (records, (replyBytes request buffer query rcode ancount answers).length) ∧
        decoded =
          { header := replyWire request rcode ancount
            questions := [{ name, qtype, qclass }]
            answers := records
            authority := []
            additional := [] } := by
  have questions : decodeMany
      (Wire.decodeQuestion (replyBytes request buffer query rcode ancount answers)) 1 12 =
      some ([{ name, qtype, qclass }], 12 + query.query_len) := by
    simp only [decodeMany, question.decodeQuestion asked, Option.bind_eq_bind, Option.bind_some]
    rfl
  have one : (replyWire request rcode ancount).qdcount = 1 := rfl
  have noAuthority : (replyWire request rcode ancount).nscount = 0 := rfl
  have noAdditional : (replyWire request rcode ancount).arcount = 0 := rfl
  have counted : (replyWire request rcode ancount).ancount = ancount % 65536 := rfl
  simp only [decodeMessage, decodeHeader_replyBytes, one, questions, noAuthority, noAdditional,
    counted, decodeMany, Option.bind_eq_bind, Option.bind_some, Option.bind_eq_some_iff,
    Prod.exists]
  constructor
  · rintro ⟨records, last, read, ended⟩
    split at ended
    · next atEnd =>
      cases ended
      exact ⟨records, by rw [← atEnd]; exact read, rfl⟩
    · cases ended
  · rintro ⟨records, read, rfl⟩
    exact ⟨records, _, read, if_pos rfl⟩

/-- **The answers that the loop wrote for the values of a record are read to the
end of the response exactly when they are complete**. -/
theorem decodeMany_reply (env : Environment) (question : QuestionAt buffer name qtype qclass)
    (asked : query = parsedQuestion name qtype) (accepted : Accepted buffer query)
    (record : DNSRecord) (records : List ResourceRecord) :
    let message := replyBytes request buffer query rcode record.num_values
      (writtenAnswers env query (record.values.map (answerData env query.typeString))
        (12 + query.query_len))
    decodeMany (decodeRecord message) (record.num_values % 65536) (12 + query.query_len) =
        some (records, message.length) ↔
      ∃ data : List RData,
        (record.values.take (record.num_values % 65536)).map (answerData env query.typeString) =
            data.map some ∧
          Fits (12 + query.query_len) data ∧
          (record.num_values % 65536 < record.num_values →
            512 < 12 + query.query_len + answersSize data + 16) ∧
          records = data.map (answerRecord env query name) := by
  intro message
  have length : message.length = 12 + query.query_len + (writtenAnswers env query
      (record.values.map (answerData env query.typeString)) (12 + query.query_len)).length :=
    accepted.length_replyBytes _ _ _ _
  have layout : ∀ rdata, some rdata ∈ record.values.map (answerData env query.typeString) →
      rdata.HasLayout (answerType query) := by
    intro rdata member
    obtain ⟨value, _, encoded⟩ := List.mem_map.mp member
    exact answerData_layout encoded
  have enough : record.num_values % 65536 ≤
      (record.values.map (answerData env query.typeString)).length := by
    rw [List.length_map]
    exact Nat.mod_le _ _
  rw [decodeMany_writtenAnswers (question.nameAtTwelve asked) accepted.queryType_lt
    (by rw [length]; exact length_writtenAnswers accepted.fits) _ _ _ _ layout enough
    accepted.fits (accepted.drop_replyBytes _ _ _ _)]
  apply exists_congr
  intro data
  rw [← List.map_take]
  refine and_congr_right fun taken => and_congr_right fun fits => ?_
  -- the loop went on behind the counted values with the rest of them
  have split : writtenAnswers env query (record.values.map (answerData env query.typeString))
      (12 + query.query_len) = data.flatMap (answerBytes env query) ++
        writtenAnswers env query ((record.values.drop (record.num_values % 65536)).map
          (answerData env query.typeString)) (12 + query.query_len + answersSize data) := by
    rw [← writtenAnswers_append env query _ fits, ← taken, ← List.map_append, List.take_append_drop]
  have sizes : (data.flatMap (answerBytes env query)).length = answersSize data := by
    simp [List.length_flatMap, answersSize]
  have atEnd : 12 + query.query_len + answersSize data = message.length ↔
      (record.num_values % 65536 < record.num_values →
        512 < 12 + query.query_len + answersSize data + 16) := by
    rw [length, split, List.length_append, sizes, ← Nat.add_assoc, left_eq_add,
      List.length_eq_zero_iff, writtenAnswers_eq_nil, List.map_eq_nil_iff, List.drop_eq_nil_iff,
      ← DNSRecord.num_values, ← Nat.not_lt, ← imp_iff_not_or]
  rw [← atEnd, Prod.mk.injEq, and_comm, @eq_comm _ message.length]

end Question

/-- Whatever a reader makes of a response to an overlong question, it has read a
name of more than 255 octets. -/
theorem octets_of_overlong (accepted : Accepted buffer query) (full : query.query_len = 260)
    (overlong : OverlongQuestion buffer) {decoded : Message}
    (read : decodeMessage (replyBytes request buffer query rcode ancount answers) =
      some decoded) :
    ∃ name ∈ decoded.names, 255 < name.octets := by
  have one : (replyWire request rcode ancount).qdcount = 1 := rfl
  simp only [decodeMessage, decodeHeader_replyBytes, one, decodeMany, Option.bind_eq_bind,
    Option.bind_some, Option.bind_eq_some_iff, Prod.exists] at read
  obtain ⟨_, _, ⟨first, afterFirst, firstRead, same⟩, _, _, _, _, _, _, _, _, _, ended⟩ := read
  cases same
  split at ended
  swap
  · cases ended
  cases ended
  simp only [Wire.decodeQuestion, Option.bind_eq_bind, Option.bind_eq_some_iff, Prod.exists]
    at firstRead
  obtain ⟨name, next, nameRead, _, _, _, _, _, _, question⟩ := firstRead
  cases question
  refine ⟨name, by simp [Message.names], ?_⟩
  refine overlong _ name next (fun position atLeast below => ?_) nameRead
  -- the question bytes are copied, so both messages agree on the name
  have width := accepted.length_questionBytes
  obtain ⟨i, rfl⟩ : ∃ i, position = 12 + i := ⟨position - 12, by omega⟩
  rw [← List.getElem?_drop, ← List.getElem?_drop, drop_replyBytes,
    List.getElem?_append_left (by omega), questionBytes, List.getElem?_take_of_lt (by omega)]

end Reply

/-! ## A query to try -/

/-- Conversions that know a single address. -/
def oneAddressEnvironment : Environment where
  inet_aton text := if text = cstr "192.0.2.1" then some #v[192, 0, 2, 1] else none
  inet_pton _ := none
  default_ttl := 300

/-- The query for the addresses of a one-letter name. -/
def addressQuery : Datagram where
  bytes := queryBytes [cstr "a"] DNS_TYPE_A
  large_enough := by decide
  fits := by decide

theorem questionAt_addressQuery : QuestionAt addressQuery.bytes [cstr "a"] DNS_TYPE_A 1 :=
  questionAt_queryBytes (by decide) (by decide) (by decide) (by decide)

end DnsServer
