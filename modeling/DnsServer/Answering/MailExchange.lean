import DnsServer.Answering.Reading
import DnsServer.Store.Commands

/-!
# What becomes of the data of an `MX`

A priority and an exchange enter the store as an object of the mappings file or
as the value of an `ADD`. Either way they are printed into a text of at most 255
bytes, which is scanned again for every answer.

The scan gives back the priority and the exchange as long as the priority is a
16-bit number and the exchange is not cut. An exchange that is cut is not
encodable when it is cut right behind a dot, and then no answer is made of it;
in all other cases the answer carries something else (`mxSurvives_iff`).
-/

set_option autoImplicit false

namespace DnsServer

open Libc Wire

/-- The two ways a priority and an exchange enter the store. -/
inductive MXWay where
  | file
  | command
  deriving DecidableEq

/-- The integer that is stored for a priority. -/
def MXWay.priority : MXWay → Int → Int
  | .file, p => max (-2 ^ 31) (min (2 ^ 31 - 1) p)
  | .command, p => toInt (decide (p < 0)) p.natAbs

/-- The text that is stored for a priority and an exchange. What is in a file is the object
of the parsed tree: a numeral of more than the 63 characters that `parse_number` reads never
becomes one. -/
def MXWay.text : MXWay → Int → CString → Option CString
  | .file, p, e => valueText (cstr "MX")
      (.object [(cstr "priority", .integer p), (cstr "value", .string e)])
  | .command, p, e => (createValue (cstr "MX") (decimal p ++ cstr " " ++ e)).result.bind
      (valueText (cstr "MX"))

/-- What the buffer of the text leaves for the exchange. -/
def MXWay.room (way : MXWay) (p : Int) : Nat := 254 - (decimal (way.priority p)).length

/-- In some round of its loop the server makes an answer with a preference and
an exchange of a value. -/
def EmitsMX (value : CString) (preference : Nat) (exchange : List UInt8) : Prop :=
  ∃ (env : Environment) (query : ParsedQuery) (response written : Response),
    query.typeString = cstr "MX" ∧
    answerLoop env query [value] response = .ok (.finished written) ∧
    written.bytes = response.bytes ++ (answerHead env query ++
      (htons (2 + exchange.length) ++ (htons preference ++ exchange)))

/-- Every answer that is made of the pair carries the priority, and the encoding
of the exchange. -/
def MXSurvives (way : MXWay) (p : Int) (e encoded : List UInt8) : Prop :=
  ∀ text, way.text p e = some text → ∀ (preference : Nat) (exchange : List UInt8),
    preference < 2 ^ 16 → EmitsMX text preference exchange →
      (preference : Int) = p ∧ exchange = encoded

/-- The priority is a 16-bit number and the exchange has room, or the exchange is
cut behind a dot. -/
def MXCarried (way : MXWay) (p : Int) (e : CString) : Prop :=
  (0 ≤ p ∧ p < 2 ^ 16 ∧ e.length ≤ way.room p) ∨ (e.take (way.room p)).getLast? = some 46

instance (way : MXWay) (p : Int) (e : CString) : Decidable (MXCarried way p e) :=
  inferInstanceAs (Decidable (_ ∨ _))

/-! ## The stored integer -/

theorem toInt_of_small {p : Int} (lower : 0 ≤ p) (upper : p < 2 ^ 16) :
    toInt (decide (p < 0)) p.natAbs = p := by
  obtain ⟨n, rfl⟩ := Int.eq_ofNat_of_zero_le lower
  simp only [toInt, Int.natAbs_natCast]
  rw [if_neg (by simp), min_eq_right (by omega)]
  exact Int.bmod_eq_of_le (by omega) (by omega)

theorem MXWay.priority_of_small (way : MXWay) {p : Int} (lower : 0 ≤ p) (upper : p < 2 ^ 16) :
    way.priority p = p := by
  cases way with
  | file => exact (by simp only [MXWay.priority]; omega)
  | command => exact toInt_of_small lower upper

theorem MXWay.priority_bounds (way : MXWay) (p : Int) :
    -2 ^ 31 ≤ way.priority p ∧ way.priority p < 2 ^ 31 := by
  cases way with
  | file =>
      simp only [MXWay.priority]
      omega
  | command =>
      simp only [MXWay.priority, toInt]
      exact ⟨Int.le_bmod (by decide), Int.bmod_lt (by decide)⟩

theorem length_decimal_le {n : Int} (lower : -2 ^ 31 ≤ n) (upper : n < 2 ^ 31) :
    (decimal n).length ≤ 11 := by
  cases n with
  | ofNat n =>
      have small : (n : Int) < 2 ^ 31 := upper
      have := length_decimalNat_le (show 0 < 10 by decide) (show n < 10 ^ 10 by omega)
      rw [decimal]
      omega
  | negSucc n =>
      have := length_decimalNat_le (show 0 < 10 by decide) (show n + 1 < 10 ^ 10 by omega)
      rw [decimal, List.length_cons]
      omega

theorem MXWay.room_pos (way : MXWay) (p : Int) : 243 ≤ way.room p := by
  have bounds := way.priority_bounds p
  have := length_decimal_le bounds.1 bounds.2
  unfold MXWay.room
  omega

/-! ## The stored text and what is read back -/

section Text

variable {way : MXWay} {p : Int} {e encoded : List UInt8}

/-- Behind a printed integer the blank ends the digits. -/
theorem blank_stops (rest : CString) :
    ∀ c ∈ (cstr " " ++ rest).head?, isDigit c = false := by
  intro c member
  have isBlank : c = 32 := by simpa [cstr] using member.symm
  subst isBlank
  decide

theorem isSpace_blank : ∀ c ∈ cstr " ", isSpace c := by
  intro c member
  have isBlank : c = 32 := by simpa [cstr] using member
  subst isBlank
  decide

/-- A pair as it is printed is scanned back. -/
theorem scanWord_blank {width : Nat} (positive : 0 < width) (nonempty : e ≠ [])
    (clean : ∀ c ∈ e, isSpace c = false) :
    scanWord width (cstr " " ++ e) = some (e.take width) := by
  have scanned := @scanWord_word width (cstr " ") e [] positive nonempty isSpace_blank clean
    (by simp)
  rwa [List.append_nil] at scanned

theorem scanPriority_pair (nonempty : e ≠ []) (clean : ∀ c ∈ e, isSpace c = false) :
    scanPriority (decimal p ++ cstr " " ++ e) =
      some (toInt (decide (p < 0)) p.natAbs, e.take 255) := by
  rw [List.append_assoc, scanPriority, scanInt, scanNumber_decimal p (blank_stops e)]
  simp only [Option.map_some, Option.bind_eq_bind, Option.bind_some,
    scanWord_blank (show 0 < 255 by decide) nonempty clean]
  rfl

theorem scanPreference_pair (nonempty : e ≠ []) (clean : ∀ c ∈ e, isSpace c = false) :
    scanPreference (decimal p ++ cstr " " ++ e) =
      some (toUnsignedShort (decide (p < 0)) p.natAbs, e.take 255) := by
  rw [List.append_assoc, scanPreference, scanUnsignedShort, scanNumber_decimal p (blank_stops e)]
  simp only [Option.map_some, Option.bind_eq_bind, Option.bind_some,
    scanWord_blank (show 0 < 255 by decide) nonempty clean]
  rfl

/-- What the buffer keeps of a printed pair. -/
theorem snprintf_pair (short : (decimal p).length ≤ 11) (e : CString) :
    snprintf 256 (decimal p ++ cstr " " ++ e) =
      decimal p ++ cstr " " ++ e.take (254 - (decimal p).length) := by
  have blank : (cstr " ").length = 1 := rfl
  have front : (decimal p ++ cstr " ").length + (254 - (decimal p).length) = 256 - 1 := by
    rw [List.length_append, blank]
    omega
  rw [snprintf, ← front, List.take_length_add_append]

/-- **The stored text**: the integer, and the part of the exchange for which there
is room. -/
theorem MXWay.text_eq (nonempty : e ≠ []) (clean : ∀ c ∈ e, isSpace c = false)
    (short : e.length ≤ 255) :
    way.text p e = some (decimal (way.priority p) ++ cstr " " ++ e.take (way.room p)) := by
  have bounds := way.priority_bounds p
  rw [MXWay.room, ← snprintf_pair (length_decimal_le bounds.1 bounds.2)]
  cases way with
  | file => rfl
  | command =>
      have made : (createValue (cstr "MX") (decimal p ++ cstr " " ++ e)).result =
          some (.object [(cstr "priority", .number (toInt (decide (p < 0)) p.natAbs)),
            (cstr "value", .string e)]) := by
        rw [(yields_createValue _ _).result_eq, addedNode, if_pos rfl,
          scanPriority_pair nonempty clean, List.take_of_length_le short]
        rfl
      rw [MXWay.text, made]
      rfl

/-- **What the loop reads back.** -/
theorem answerData_pair {env : Environment} {e' : CString} {q : Int} (nonempty : e' ≠ [])
    (clean : ∀ c ∈ e', isSpace c = false) (short : e'.length ≤ 255) :
    answerData env (cstr "MX") (decimal q ++ cstr " " ++ e') =
      (nameData e').map (.exchange (toUnsignedShort (decide (q < 0)) q.natAbs)) := by
  rw [answerData, if_neg (by decide), if_neg (by decide), if_neg (by decide), if_pos rfl,
    scanPreference_pair nonempty clean, List.take_of_length_le short]
  rfl

end Text

/-! ## One round of the loop -/

theorem htons_injective {first second : Nat} (firstSmall : first < 2 ^ 16)
    (secondSmall : second < 2 ^ 16) (same : htons first = htons second) : first = second := by
  simp only [htons, List.cons.injEq, and_true] at same
  have high := congrArg UInt8.toNat same.1
  have low := congrArg UInt8.toNat same.2
  simp only [UInt8.toNat_ofNat'] at high low
  omega

/-- **An answer is made exactly when the exchange that is read can be encoded**,
and then it carries what was read. -/
theorem emitsMX_iff {value text : CString} {preference number : Nat} {exchange : List UInt8}
    (small : preference < 2 ^ 16) (numberSmall : number < 2 ^ 16)
    (read : ∀ env, answerData env (cstr "MX") value = (nameData text).map (.exchange number)) :
    EmitsMX value preference exchange ↔
      Encodable 256 text ∧ preference = number ∧ exchange = (splitDots text).encode := by
  constructor
  · rintro ⟨env, query, response, written, isMX, run, bytes⟩
    have answered : query.typeString ∈ answeredTypes := by
      rw [isMX]
      decide
    obtain ⟨last, lastRun, lastBytes⟩ := answerLoop_eq env answered [value] response
    rw [run, Except.ok.injEq, LoopEnd.finished.injEq] at lastRun
    rw [← lastRun, bytes, List.append_cancel_left_eq, isMX, List.map_singleton, read] at lastBytes
    have lengths := congrArg List.length lastBytes
    simp only [List.length_append, length_answerHead, length_htons] at lengths
    by_cases tight : 512 < response.bytes.length + 16
    · rw [writtenAnswers_full tight, List.length_nil] at lengths
      omega
    have room : response.bytes.length + 16 ≤ 512 := Nat.le_of_not_lt tight
    by_cases encodable : Encodable 256 text
    · rw [nameData, if_pos encodable, Option.map_some] at lastBytes lengths
      by_cases long : 512 < response.bytes.length + 12 +
          (RData.exchange number (splitDots text)).encode.length
      · rw [writtenAnswers_long room long, length_answerHead] at lengths
        omega
      · rw [writtenAnswers_fits room (Nat.le_of_not_lt long), answerBytes, writtenAnswers,
          List.append_nil, List.append_assoc, List.append_cancel_left_eq] at lastBytes
        have data := (List.append_inj lastBytes rfl).2
        obtain ⟨first, second⟩ := List.append_inj data rfl
        exact ⟨encodable, htons_injective small numberSmall first, second⟩
    · rw [nameData, if_neg encodable, Option.map_none, writtenAnswers_none room,
        List.length_append, length_answerHead, writtenAnswers, List.length_nil] at lengths
      omega
  · rintro ⟨encodable, rfl, rfl⟩
    let query : ParsedQuery :=
      { domain := [], queryType := DNS_TYPE_MX, typeString := cstr "MX", query_len := 0 }
    obtain ⟨written, run, bytes⟩ :=
      @answerLoop_eq oneAddressEnvironment query (by decide) [value] OutBuffer.empty
    refine ⟨oneAddressEnvironment, query, OutBuffer.empty, written, rfl, run, ?_⟩
    have size : (RData.exchange preference (splitDots text)).encode.length =
        2 + (splitDots text).encode.length := by
      simp only [RData.encode, List.length_append, encodeWord, List.length_cons, List.length_nil]
    have name : (splitDots text).encode.length ≤ 256 := by
      have := encodable.2
      rw [length_encode, Name.octets, length_encodeLabels_splitDots]
      omega
    rw [bytes, List.map_singleton, read, nameData, if_pos encodable, Option.map_some,
      OutBuffer.bytes_empty, List.nil_append, List.nil_append, List.length_nil,
      writtenAnswers_fits (by omega) (by omega), answerBytes, writtenAnswers, List.append_nil, size,
      List.append_assoc]
    rfl

/-! ## The exact condition -/

section Survival

variable {way : MXWay} {p : Int} {e encoded text : List UInt8}

theorem ne_nil_of_encodable {size : Nat} (encodable : Encodable size e) : e ≠ [] := by
  rintro rfl
  exact absurd (encodable.1 [] (by simp [splitDots_of_not_mem])).1 (by simp)

theorem encoded_of_accepted {size : Nat} (accepted : domainToDNSFormat e size = .ok (some encoded)) :
    Encodable size e ∧ encoded = (splitDots e).encode := by
  rw [domainToDNSFormat_eq, Except.ok.injEq] at accepted
  split at accepted
  · next encodable =>
    exact ⟨encodable, (Option.some.inj accepted).symm⟩
  · cases accepted

/-- An accepted exchange without white space is read from the stored text as far
as there was room for it. -/
theorem emitsMX_text_iff {preference : Nat} {exchange : List UInt8}
    (clean : ∀ c ∈ e, isSpace c = false) (encodable : Encodable 256 e)
    (stored : way.text p e = some text) (small : preference < 2 ^ 16) :
    EmitsMX text preference exchange ↔ (e.take (way.room p)).getLast? ≠ some 46 ∧
      preference = toUnsignedShort (decide (way.priority p < 0)) (way.priority p).natAbs ∧
        exchange = (splitDots (e.take (way.room p))).encode := by
  have roomy := way.room_pos p
  have nonempty := ne_nil_of_encodable encodable
  have short : e.length ≤ 255 := by
    have := encodable.2
    omega
  rw [MXWay.text_eq nonempty clean short, Option.some.injEq] at stored
  subst stored
  rw [← encodable_take_iff encodable (by omega)]
  refine emitsMX_iff small (toUnsignedShort_lt _ _) fun env => answerData_pair ?_
    (fun c member => clean c (List.mem_of_mem_take member)) ?_
  · simp [nonempty]
    omega
  · rw [List.length_take]
    omega

/-- **An `MX` keeps its data exactly when it is carried.** -/
theorem mxSurvives_iff (clean : ∀ c ∈ e, isSpace c = false)
    (accepted : domainToDNSFormat e 256 = .ok (some encoded)) :
    MXSurvives way p e encoded ↔ MXCarried way p e := by
  obtain ⟨encodable, rfl⟩ := encoded_of_accepted accepted
  constructor
  · intro survives
    by_cases dot : (e.take (way.room p)).getLast? = some 46
    · exact .inr dot
    have short : e.length ≤ 255 := by
      have := encodable.2
      omega
    have stored := @MXWay.text_eq way p e (ne_nil_of_encodable encodable) clean short
    obtain ⟨kept, same⟩ := survives _ stored _ _ (toUnsignedShort_lt _ _)
      ((emitsMX_text_iff clean encodable stored (toUnsignedShort_lt _ _)).mpr ⟨dot, rfl, rfl⟩)
    have small := toUnsignedShort_lt (decide (way.priority p < 0)) (way.priority p).natAbs
    have lengths := congrArg List.length same
    simp only [length_encode, Name.octets, length_encodeLabels_splitDots, List.length_take]
      at lengths
    exact .inl ⟨by omega, by omega, by omega⟩
  · intro carried text stored preference exchange small emitted
    obtain ⟨noDot, rfl, rfl⟩ := (emitsMX_text_iff clean encodable stored small).mp emitted
    rcases carried with ⟨lower, upper, room⟩ | dot
    · rw [List.take_of_length_le room, way.priority_of_small lower upper]
      refine ⟨?_, rfl⟩
      obtain ⟨n, rfl⟩ := Int.eq_ofNat_of_zero_le lower
      simp only [toUnsignedShort, Int.natAbs_natCast]
      rw [if_neg (by omega), if_neg (by simp), Nat.mod_eq_of_lt (by omega)]
    · exact absurd dot noDot

end Survival

/-! ## One string for priority and exchange -/

/-- The word that is scanned is not empty, short, and without white space. -/
theorem scanWord_spec {width : Nat} {text word : CString}
    (scanned : scanWord width text = some word) :
    word ≠ [] ∧ word.length ≤ width ∧ ∀ c ∈ word, isSpace c = false := by
  simp only [scanWord] at scanned
  split at scanned
  · cases scanned
  · next nonempty =>
    cases scanned
    refine ⟨nonempty, List.length_take_le _ _, fun c member => ?_⟩
    simpa using List.mem_takeWhile_imp (List.mem_of_mem_take member)

theorem toInt_bounds (negative : Bool) (magnitude : Nat) :
    -2 ^ 31 ≤ toInt negative magnitude ∧ toInt negative magnitude < 2 ^ 31 :=
  ⟨Int.le_bmod (by decide), Int.bmod_lt (by decide)⟩

/-- What is scanned of the value of an `MX`: its integer and its preference come from one
numeral, and the exchange is the same word. -/
theorem scanPriority_cases {value e : CString} {p : Int}
    (scanned : scanPriority value = some (p, e)) :
    ∃ negative magnitude, p = toInt negative magnitude ∧
      scanPreference value = some (toUnsignedShort negative magnitude, e) ∧
      e ≠ [] ∧ e.length ≤ 255 ∧ ∀ c ∈ e, isSpace c = false := by
  simp only [scanPriority, scanInt, Option.bind_eq_bind, Option.bind_eq_some_iff,
    Option.map_eq_some_iff, Prod.exists] at scanned
  obtain ⟨_, _, ⟨negative, magnitude, rest, number, same⟩, word, found, result⟩ := scanned
  cases same
  cases result
  obtain ⟨nonempty, short, clean⟩ := scanWord_spec found
  refine ⟨negative, magnitude, rfl, ?_, nonempty, short, clean⟩
  simp only [scanPreference, scanUnsignedShort, number, Option.map_some, Option.bind_eq_bind,
    Option.bind_some, found]
  rfl

/-- Below `2 ^ 64` nothing saturates. -/
theorem toUnsignedShort_of_lt (negative : Bool) {magnitude : Nat} (small : magnitude < 2 ^ 64) :
    (toUnsignedShort negative magnitude : Int) =
      (if negative then -(magnitude : Int) else magnitude) % 2 ^ 16 := by
  rw [toUnsignedShort, if_neg (Nat.not_le_of_lt small)]
  cases negative with
  | true =>
      rw [if_pos rfl, if_pos rfl]
      omega
  | false =>
      rw [if_neg Bool.false_ne_true, if_neg Bool.false_ne_true]
      omega

/-- A printed `int` is read back as its low sixteen bits. -/
theorem toUnsignedShort_int {p : Int} (lower : -2 ^ 31 ≤ p) (upper : p < 2 ^ 31) :
    (toUnsignedShort (decide (p < 0)) p.natAbs : Int) = p % 2 ^ 16 := by
  rw [toUnsignedShort_of_lt _ (by omega)]
  by_cases negative : p < 0
  · rw [if_pos (by simpa using negative)]
    omega
  · rw [if_neg (by simpa using negative)]
    omega

/-- **A numeral below `2 ^ 63` keeps its low sixteen bits** when it is scanned with `%d`
and printed. -/
theorem toUnsignedShort_toInt (negative : Bool) {magnitude : Nat} (small : magnitude < 2 ^ 63) :
    (toUnsignedShort negative magnitude : Int) = toInt negative magnitude % 2 ^ 16 := by
  have wrap : ∀ n : Int, n.bmod (2 ^ 32) % 2 ^ 16 = n % 2 ^ 16 := fun n => by
    rw [Int.bmod_def]
    split <;> omega
  rw [toInt, wrap, toUnsignedShort_of_lt negative (by omega)]
  cases negative with
  | true => rw [if_pos rfl, if_pos rfl, max_eq_right (by omega)]
  | false => rw [if_neg Bool.false_ne_true, if_neg Bool.false_ne_true, min_eq_right (by omega)]

/-- What is read of the text that `ADD` prints for an integer and a word. -/
theorem scanPreference_snprintf {p : Int} {e : CString} (lower : -2 ^ 31 ≤ p) (upper : p < 2 ^ 31)
    (nonempty : e ≠ []) (short : e.length ≤ 255) (clean : ∀ c ∈ e, isSpace c = false) :
    scanPreference (snprintf 256 (decimal p ++ cstr " " ++ e)) =
      some ((p % 2 ^ 16).toNat, e.take (254 - (decimal p).length)) := by
  have digits := length_decimal_le lower upper
  have cut : e.take (254 - (decimal p).length) ≠ [] := by
    simp [nonempty]
    omega
  rw [snprintf_pair digits, scanPreference_pair cut
    (fun c member => clean c (List.mem_of_mem_take member)), List.take_of_length_le (by
      rw [List.length_take]
      omega), ← toUnsignedShort_int lower upper, Int.toNat_natCast]

/-- A short exchange with an ordinary priority. -/
theorem mxSurvives_iff_mail :
    MXSurvives .file 10 (cstr "mail") (4 :: cstr "mail" ++ [0]) ↔ MXCarried .file 10 (cstr "mail") :=
  mxSurvives_iff (by decide +kernel) (by decide +kernel)

/-- An exchange of 254 bytes: four labels, the last one a byte shorter than the
longest possible. -/
def longExchange : CString :=
  joinDots [List.replicate 63 120, List.replicate 63 120, List.replicate 63 120,
    List.replicate 62 120]

/-- The text of an ordinary priority and a long exchange ends inside the
exchange, and the answer carries the shorter name. -/
theorem not_mxSurvives_of_long_exchange :
    ¬ ∀ (way : MXWay) (p : Int) (e encoded : List UInt8), (∀ c ∈ e, isSpace c = false) →
      domainToDNSFormat e 256 = .ok (some encoded) → MXSurvives way p e encoded := by
  intro all
  have accepted : domainToDNSFormat longExchange 256 = .ok (some (splitDots longExchange).encode) := by
    decide +kernel
  have clean : ∀ c ∈ longExchange, isSpace c = false := by decide +kernel
  have stored : MXWay.file.text 10 longExchange =
      some (cstr "10 " ++ longExchange.take 252) := by decide +kernel
  have read : ∀ env, answerData env (cstr "MX") (cstr "10 " ++ longExchange.take 252) =
      (nameData (longExchange.take 252)).map (.exchange 10) := fun env =>
    @answerData_pair env (longExchange.take 252) 10 (by decide +kernel) (by decide +kernel)
      (by decide +kernel)
  have emitted : EmitsMX (cstr "10 " ++ longExchange.take 252) 10
      (splitDots (longExchange.take 252)).encode :=
    (emitsMX_iff (by decide) (by decide) read).mpr ⟨by decide +kernel, rfl, rfl⟩
  obtain ⟨_, same⟩ := all .file 10 longExchange _ clean accepted _ stored 10 _ (by decide) emitted
  exact absurd same (by decide +kernel)

end DnsServer
