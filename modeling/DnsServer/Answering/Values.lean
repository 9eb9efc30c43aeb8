import DnsServer.Model.Query
import DnsServer.Parsing.DomainFormat
import DnsServer.Wire.Records

/-!
# What the loop over the values writes

The type of the question decides how a value becomes the data of an answer.
`answerData` gives that data, or nothing when the value cannot be encoded. The
loop then depends on the data only: for every type with a conversion it writes
`writtenAnswers`, whatever the values are (`answerLoop_eq`).

The first ten bytes of an answer are written before the value is looked at. A
value that cannot be encoded, or that turns out too long, leaves them behind.
-/

set_option autoImplicit false

namespace DnsServer

open Libc Wire

/-! ## The data of an answer -/

/-- The types whose values are converted; for any other type the server answers
that it is not implemented. -/
def answeredTypes : List CString := [cstr "A", cstr "AAAA", cstr "CNAME", cstr "NS", cstr "MX"]

/-- The name a text stands for, when it has a place on the wire. -/
def nameData (text : CString) : Option Name :=
  if Encodable 256 text then some (splitDots text) else none

/-- The data of the answer for a value, when the value can be encoded. -/
def answerData (env : Environment) (typeString value : CString) : Option RData :=
  if typeString = cstr "A" then (env.inet_aton value).map fun addr => .address addr.toList
  else if typeString = cstr "AAAA" then (env.inet_pton value).map fun addr => .address addr.toList
  else if typeString = cstr "CNAME" ∨ typeString = cstr "NS" then (nameData value).map .domain
  else if typeString = cstr "MX" then do
    let (preference, exchange_str) ← scanPreference value
    (nameData exchange_str).map (.exchange preference)
  else none

theorem nameData_legal {text : CString} {name : Name} (encoded : nameData text = some name) :
    ∀ label ∈ name, LegalLabel label := by
  unfold nameData at encoded
  split at encoded
  · next fits =>
    cases encoded
    exact fits.1
  · cases encoded

theorem toUnsignedShort_lt (negative : Bool) (magnitude : Nat) :
    toUnsignedShort negative magnitude < 2 ^ 16 :=
  Nat.mod_lt _ (by decide)

theorem scanPreference_lt {value exchange_str : CString} {preference : Nat}
    (scanned : scanPreference value = some (preference, exchange_str)) : preference < 2 ^ 16 := by
  simp only [scanPreference, scanUnsignedShort, Option.bind_eq_bind, Option.bind_eq_some_iff,
    Option.map_eq_some_iff, Prod.exists] at scanned
  obtain ⟨_, _, ⟨negative, magnitude, _, _, same⟩, _, _, result⟩ := scanned
  cases same
  cases result
  exact toUnsignedShort_lt negative magnitude

/-- Only the values of answered types have data. -/
theorem answerData_of_not_mem {env : Environment} {typeString value : CString}
    (other : typeString ∉ answeredTypes) : answerData env typeString value = none := by
  simp only [answeredTypes, List.mem_cons, List.not_mem_nil, or_false, not_or] at other
  obtain ⟨notA, notAAAA, notCNAME, notNS, notMX⟩ := other
  simp [answerData, notA, notAAAA, notCNAME, notNS, notMX]

/-- The data has the layout that the type in the answer asks for. -/
theorem answerData_layout {env : Environment} {query : ParsedQuery} {value : CString}
    {rdata : RData} (encoded : answerData env query.typeString value = some rdata) :
    rdata.HasLayout (answerType query) := by
  unfold answerData at encoded
  unfold answerType
  split at encoded
  · next isA =>
    obtain ⟨addr, _, rfl⟩ := Option.map_eq_some_iff.mp encoded
    rw [if_pos isA]
    exact .inl ⟨rfl, by simp⟩
  next notA =>
  split at encoded
  · next isAAAA =>
    obtain ⟨addr, _, rfl⟩ := Option.map_eq_some_iff.mp encoded
    rw [if_neg notA, if_pos isAAAA]
    exact .inr ⟨rfl, by simp⟩
  next notAAAA =>
  rw [if_neg notA, if_neg notAAAA]
  split at encoded
  · next isName =>
    obtain ⟨name, found, rfl⟩ := Option.map_eq_some_iff.mp encoded
    rcases isName with isCNAME | isNS
    · rw [if_pos isCNAME]
      exact ⟨.inr rfl, nameData_legal found⟩
    · rw [if_neg (by rw [isNS]; decide), if_neg (by rw [isNS]; decide), if_pos isNS]
      exact ⟨.inl rfl, nameData_legal found⟩
  next notName =>
  split at encoded
  · next isMX =>
    simp only [Option.bind_eq_bind, Option.bind_eq_some_iff, Prod.exists] at encoded
    obtain ⟨preference, exchange_str, scanned, converted⟩ := encoded
    obtain ⟨name, found, rfl⟩ := Option.map_eq_some_iff.mp converted
    rw [if_neg (fun same => notName (.inl same)), if_pos isMX]
    exact ⟨rfl, scanPreference_lt scanned, nameData_legal found⟩
  · cases encoded

/-! ## One round of the loop -/

/-- The fixed part of every answer to a query. -/
def answerHead (env : Environment) (query : ParsedQuery) : List UInt8 :=
  compressedHead (answerType query) 1 (env.default_ttl.toNat / 65536) env.default_ttl.toNat

/-- The bytes of the answer that carries some data. -/
def answerBytes (env : Environment) (query : ParsedQuery) (rdata : RData) : List UInt8 :=
  answerHead env query ++ encodeWord rdata.encode.length ++ rdata.encode

@[simp] theorem length_answerHead (env : Environment) (query : ParsedQuery) :
    (answerHead env query).length = 10 := rfl

@[simp] theorem length_answerBytes (env : Environment) (query : ParsedQuery) (rdata : RData) :
    (answerBytes env query rdata).length = 12 + rdata.encode.length := by
  simp [answerBytes, encodeWord]
  omega

/-- The fixed part is written in one piece when there is room for it. -/
theorem beginAnswer_eq {env : Environment} {query : ParsedQuery} {response : Response}
    (room : response.bytes.length + 10 ≤ 512) :
    beginAnswer env query response =
      .ok ⟨response.bytes ++ answerHead env query, by simpa [DEFAULT_BUFFER_SIZE] using room⟩ := by
  unfold beginAnswer
  rw [OutBuffer.append_of_room (by simp [DEFAULT_BUFFER_SIZE]; omega), Checked.ok_bind,
    OutBuffer.append_of_room (by simp [DEFAULT_BUFFER_SIZE]; omega), Checked.ok_bind,
    OutBuffer.append_of_room (by simp [DEFAULT_BUFFER_SIZE]; omega), Checked.ok_bind,
    OutBuffer.append_of_room (by simp [DEFAULT_BUFFER_SIZE]; omega)]
  simp only [List.append_assoc]
  rfl

theorem endAnswer_eq {rdata : List UInt8} {response : Response}
    (room : (response.bytes ++ (encodeWord rdata.length ++ rdata)).length ≤ DEFAULT_BUFFER_SIZE) :
    endAnswer rdata response =
      .ok ⟨response.bytes ++ (encodeWord rdata.length ++ rdata), room⟩ := by
  have total : response.bytes.length + (2 + rdata.length) ≤ DEFAULT_BUFFER_SIZE := by
    rw [List.length_append, List.length_append] at room
    exact room
  unfold endAnswer
  rw [OutBuffer.append_of_room (by simp; omega), Checked.ok_bind,
    OutBuffer.append_of_room (by simp; omega)]
  simp only [List.append_assoc]
  rfl

/-- The continuation of a round behind the conversion of its value: nothing for
a value without data, the end of the loop for data that does not fit, else the
length and the data. -/
def finishRound (env : Environment) (query : ParsedQuery) (values : List CString)
    (data : Option RData) (response : Response) : Checked LoopEnd :=
  match data with
  | none => answerLoop env query values response
  | some rdata =>
    if response.length + 2 + rdata.encode.length > DEFAULT_BUFFER_SIZE then
      return .finished response
    else do
      let response ← endAnswer rdata.encode response
      answerLoop env query values response

/-- The conversion of a name in the loop is `nameData`. -/
theorem domainToDNSFormat_nameData (text : CString) :
    domainToDNSFormatInto text (OutBuffer.empty : OutBuffer 256) 256 =
      .ok ((nameData text).map Name.encode) := by
  refine (domainToDNSFormat_eq text 256).trans ?_
  rw [nameData]
  split <;> rfl

/-- **One round of the loop** for an answered type, with the five conversions
brought to one form. -/
theorem answerLoop_cons {env : Environment} {query : ParsedQuery}
    (answered : query.typeString ∈ answeredTypes) (value : CString) (values : List CString)
    (response : Response) :
    answerLoop env query (value :: values) response =
      if response.length + 16 > DEFAULT_BUFFER_SIZE then return .finished response
      else
        beginAnswer env query response >>=
          finishRound env query values (answerData env query.typeString value) := by
  rw [answerLoop]
  split
  · rfl
  apply congrArg (fun next => beginAnswer env query response >>= next)
  funext response
  unfold answerData
  split
  · cases env.inet_aton value with
    | none => rfl
    | some addr => simp [finishRound, RData.encode, DEFAULT_BUFFER_SIZE]
  split
  · cases env.inet_pton value with
    | none => rfl
    | some addr => simp [finishRound, RData.encode, DEFAULT_BUFFER_SIZE]
  split
  · rw [domainToDNSFormat_nameData]
    cases nameData value with
    | none => rfl
    | some name => simp [finishRound, RData.encode]
  split
  · cases scanPreference value with
    | none => rfl
    | some scanned =>
        obtain ⟨preference, exchange_str⟩ := scanned
        simp only [domainToDNSFormat_nameData, Option.bind_eq_bind, Option.bind_some]
        cases nameData exchange_str with
        | none => rfl
        | some name =>
            have width : (encodeWord preference).length = 2 := rfl
            simp only [Option.map_some, finishRound, RData.encode, Checked.ok_bind,
              List.length_append, width, length_encode, ← Nat.add_assoc]
            rfl
  · next notA notAAAA notName notMX =>
    simp [answeredTypes, notA, notAAAA, notMX] at answered
    exact absurd answered notName

/-- For every other type the first round ends the loop, once it has written the
fixed part. -/
theorem answerLoop_cons_other {env : Environment} {query : ParsedQuery}
    (other : query.typeString ∉ answeredTypes) (value : CString) (values : List CString)
    (response : Response) :
    answerLoop env query (value :: values) response =
      if response.length + 16 > DEFAULT_BUFFER_SIZE then return .finished response
      else beginAnswer env query response >>= fun response => return .notImplemented response := by
  simp only [answeredTypes, List.mem_cons, List.not_mem_nil, or_false, not_or] at other
  obtain ⟨notA, notAAAA, notCNAME, notNS, notMX⟩ := other
  simp [answerLoop, notA, notAAAA, notCNAME, notNS, notMX]

/-! ## The whole loop -/

/-- The bytes the loop writes behind `start` bytes for values with the given
data. -/
def writtenAnswers (env : Environment) (query : ParsedQuery) : List (Option RData) → Nat →
    List UInt8
  | [], _ => []
  | data :: more, start =>
    if start + 16 > DEFAULT_BUFFER_SIZE then []
    else
      match data with
      | none => answerHead env query ++ writtenAnswers env query more (start + 10)
      | some rdata =>
        if start + 12 + rdata.encode.length > DEFAULT_BUFFER_SIZE then answerHead env query
        else
          answerBytes env query rdata ++
            writtenAnswers env query more (start + (12 + rdata.encode.length))

section Written

variable {env : Environment} {query : ParsedQuery} {more : List (Option RData)} {start : Nat}

/-- Less than sixteen free bytes end the loop. -/
theorem writtenAnswers_full {data : Option RData} (tight : 512 < start + 16) :
    writtenAnswers env query (data :: more) start = [] := by
  cases data <;> simp [writtenAnswers, DEFAULT_BUFFER_SIZE, tight]

/-- A value without data leaves the fixed part behind. -/
theorem writtenAnswers_none (room : start + 16 ≤ 512) :
    writtenAnswers env query (none :: more) start =
      answerHead env query ++ writtenAnswers env query more (start + 10) := by
  have open_ : ¬ 512 < start + 16 := by omega
  simp [writtenAnswers, DEFAULT_BUFFER_SIZE, open_]

/-- Data that does not fit leaves the fixed part behind and ends the loop. -/
theorem writtenAnswers_long {rdata : RData} (room : start + 16 ≤ 512)
    (long : 512 < start + 12 + rdata.encode.length) :
    writtenAnswers env query (some rdata :: more) start = answerHead env query := by
  have open_ : ¬ 512 < start + 16 := by omega
  simp [writtenAnswers, DEFAULT_BUFFER_SIZE, open_, long]

/-- Data that fits becomes a complete answer. -/
theorem writtenAnswers_fits {rdata : RData} (room : start + 16 ≤ 512)
    (fits : start + 12 + rdata.encode.length ≤ 512) :
    writtenAnswers env query (some rdata :: more) start =
      answerBytes env query rdata ++
        writtenAnswers env query more (start + (12 + rdata.encode.length)) := by
  have open_ : ¬ 512 < start + 16 := by omega
  have short : ¬ 512 < start + 12 + rdata.encode.length := by omega
  simp [writtenAnswers, DEFAULT_BUFFER_SIZE, open_, short]

end Written

/-- **The loop ends without a fault** and has written the answers of its values
behind what was there. -/
theorem answerLoop_eq (env : Environment) {query : ParsedQuery}
    (answered : query.typeString ∈ answeredTypes) :
    ∀ (values : List CString) (response : Response), ∃ written : Response,
      answerLoop env query values response = .ok (.finished written) ∧
        written.bytes = response.bytes ++
          writtenAnswers env query (values.map (answerData env query.typeString))
            response.bytes.length := by
  intro values
  induction values with
  | nil =>
      intro response
      exact ⟨response, rfl, by simp [writtenAnswers]⟩
  | cons value values ih =>
      intro response
      rw [answerLoop_cons answered, List.map_cons]
      by_cases tight : response.length + 16 > DEFAULT_BUFFER_SIZE
      · rw [if_pos tight]
        have full : 512 < response.bytes.length + 16 := tight
        exact ⟨response, rfl, by rw [writtenAnswers_full full, List.append_nil]⟩
      have room : response.bytes.length + 16 ≤ 512 := by
        simpa [DEFAULT_BUFFER_SIZE, OutBuffer.length] using tight
      rw [if_neg tight, beginAnswer_eq (by omega), Checked.ok_bind]
      cases answerData env query.typeString value with
      | none =>
          obtain ⟨written, run, bytes⟩ := ih ⟨response.bytes ++ answerHead env query, by
            simp [DEFAULT_BUFFER_SIZE]
            omega⟩
          refine ⟨written, run, ?_⟩
          rw [bytes, writtenAnswers_none room]
          simp
      | some rdata =>
          simp only [finishRound, OutBuffer.length, List.length_append, length_answerHead]
          by_cases long : 512 < response.bytes.length + 12 + rdata.encode.length
          · rw [if_pos (by simp only [DEFAULT_BUFFER_SIZE]; omega), writtenAnswers_long room long]
            exact ⟨_, rfl, rfl⟩
          · rw [if_neg (by simp only [DEFAULT_BUFFER_SIZE]; omega),
              endAnswer_eq (by simp [encodeWord, DEFAULT_BUFFER_SIZE]; omega), Checked.ok_bind]
            obtain ⟨written, run, bytes⟩ := ih ⟨response.bytes ++ answerBytes env query rdata, by
              simp [DEFAULT_BUFFER_SIZE]
              omega⟩
            refine ⟨written, ?_, ?_⟩
            · simpa [answerBytes] using run
            · rw [bytes, writtenAnswers_fits room (by omega)]
              simp

/-- For every other type the loop has written nothing or one fixed part, and in
the second case the server answers that the type is not implemented. -/
theorem answerLoop_other (env : Environment) {query : ParsedQuery}
    (other : query.typeString ∉ answeredTypes) (values : List CString) (response : Response) :
    ((values = [] ∨ response.length + 16 > DEFAULT_BUFFER_SIZE) ∧
      answerLoop env query values response = .ok (.finished response)) ∨
    (values ≠ [] ∧ response.length + 16 ≤ DEFAULT_BUFFER_SIZE ∧ ∃ written : Response,
      answerLoop env query values response = .ok (.notImplemented written) ∧
        written.bytes = response.bytes ++ answerHead env query) := by
  cases values with
  | nil => exact .inl ⟨.inl rfl, rfl⟩
  | cons value values =>
      rw [answerLoop_cons_other other]
      by_cases tight : response.length + 16 > DEFAULT_BUFFER_SIZE
      · rw [if_pos tight]
        exact .inl ⟨.inr tight, rfl⟩
      · have room : response.bytes.length + 16 ≤ 512 := by
          simpa [DEFAULT_BUFFER_SIZE, OutBuffer.length] using tight
        rw [if_neg tight, beginAnswer_eq (by omega)]
        exact .inr ⟨List.cons_ne_nil _ _, by omega, _, rfl, rfl⟩

end DnsServer
