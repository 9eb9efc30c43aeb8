import DnsServer.Wire.Message

/-!
# Writing and reading records

A writer that compresses the owner of every answer to a pointer at the question
writes twelve bytes in front of the data of a record. The reader undoes such a
writer (`decodeRecord_encode`), and it stops at a record that is cut off
(`decodeRecord_cut`).
-/

set_option autoImplicit false

namespace DnsServer.Wire

/-! ## Reading pieces -/

theorem decodeWord_of_drop {message rest : List UInt8} {offset n : Nat} (small : n < 2 ^ 16)
    (here : message.drop offset = encodeWord n ++ rest) :
    decodeWord message offset = some (n, offset + 2) := by
  simp only [decodeWord, here, encodeWord, List.cons_append, List.nil_append, word_encode small]

theorem decodeWord_none {message : List UInt8} {offset : Nat}
    (past : message.length < offset + 2) : decodeWord message offset = none := by
  have short : (message.drop offset).length < 2 := by
    simp
    omega
  unfold decodeWord
  split
  · next same =>
    rw [same] at short
    simp only [List.length_cons] at short
    omega
  · rfl

theorem decodeName_none {message : List UInt8} {offset : Nat} (past : message.length ≤ offset) :
    decodeName message offset = none := by
  rw [decodeName]
  cases message.length with
  | zero => rfl
  | succ fuel => simp [decodeNameAt, List.getElem?_eq_none past]

/-- Moving on in a message by what was read. -/
theorem drop_add_of_drop {message first rest : List UInt8} {offset : Nat}
    (here : message.drop offset = first ++ rest) :
    message.drop (offset + first.length) = rest := by
  rw [← List.drop_drop, here, List.drop_left]

/-! ## The data of a record -/

/-- The bytes of the data of a record. -/
def RData.encode : RData → List UInt8
  | .address bytes => bytes
  | .domain name => name.encode
  | .exchange preference name => encodeWord preference ++ name.encode
  | .raw bytes => bytes

/-- Data that has the fixed layout of a record type. -/
def RData.HasLayout (type : Nat) : RData → Prop
  | .address bytes => (type = typeA ∧ bytes.length = 4) ∨ (type = typeAAAA ∧ bytes.length = 16)
  | .domain name => (type = typeNS ∨ type = typeCNAME) ∧ ∀ label ∈ name, LegalLabel label
  | .exchange preference name =>
      type = typeMX ∧ preference < 2 ^ 16 ∧ ∀ label ∈ name, LegalLabel label
  | .raw _ => False

theorem RData.HasLayout.encode_pos {type : Nat} {rdata : RData} (layout : rdata.HasLayout type) :
    1 ≤ rdata.encode.length := by
  cases rdata with
  | address bytes =>
      rcases layout with ⟨_, length⟩ | ⟨_, length⟩ <;> simp [RData.encode, length]
  | domain name => simpa [RData.encode] using octets_pos name
  | exchange preference name =>
      simp [RData.encode, encodeWord]
  | raw bytes => exact layout.elim

theorem decodeNameUpTo_encode {message rest : List UInt8} {name : Name} {offset last : Nat}
    (legal : ∀ label ∈ name, LegalLabel label)
    (here : message.drop offset = name.encode ++ rest) (ends : offset + name.octets = last) :
    decodeNameUpTo message offset last = some name := by
  simp [decodeNameUpTo, decodeName_encode legal here, ends]

/-- **Reading data that was written gives it back.** -/
theorem decodeRData_encode {message rest : List UInt8} {type offset : Nat} {rdata : RData}
    (layout : rdata.HasLayout type) (here : message.drop offset = rdata.encode ++ rest) :
    decodeRData message type offset rdata.encode.length = some rdata := by
  have positive := layout.encode_pos
  have inside : ¬ message.length < offset + rdata.encode.length := by
    have sizes := congrArg List.length here
    simp at sizes
    omega
  rw [decodeRData, if_neg inside, here, List.take_left]
  cases rdata with
  | address bytes =>
      rcases layout with ⟨rfl, length⟩ | ⟨rfl, length⟩
      · simp only [RData.encode, length, if_true]
      · rw [if_neg (by decide)]
        simp only [RData.encode, length, if_true]
  | domain name =>
      obtain ⟨type, legal⟩ := layout
      have read := decodeNameUpTo_encode legal here rfl
      rw [← length_encode] at read
      rcases type with rfl | rfl <;>
        rw [if_neg (by decide), if_neg (by decide), if_pos (by decide)] <;>
        exact congrArg (Option.map RData.domain) read
  | exchange preference name =>
      obtain ⟨rfl, small, legal⟩ := layout
      simp only [RData.encode, List.append_assoc] at here
      have first := decodeWord_of_drop small here
      have behind : message.drop (offset + 2) = name.encode ++ rest := drop_add_of_drop here
      have read := decodeNameUpTo_encode legal behind (Nat.add_assoc offset 2 name.octets)
      have size : (RData.exchange preference name).encode.length = 2 + name.octets := by
        simp [RData.encode, encodeWord]
        omega
      rw [if_neg (by decide), if_neg (by decide), if_neg (by decide), if_pos rfl, size]
      simp only [first, Option.bind_eq_bind, Option.bind_some, read]
      rfl
  | raw bytes => exact layout.elim

/-! ## Records whose owner is a pointer -/

/-- A record whose owner is a pointer at offset twelve. -/
def encodeCompressed (type class_ ttlHigh ttlLow : Nat) (rdata : RData) : List UInt8 :=
  [0xC0, 12] ++ encodeWord type ++ encodeWord class_ ++ encodeWord ttlHigh ++ encodeWord ttlLow ++
    encodeWord rdata.encode.length ++ rdata.encode

/-- The fixed part of such a record, up to the length of its data. -/
def compressedHead (type class_ ttlHigh ttlLow : Nat) : List UInt8 :=
  [0xC0, 12] ++ encodeWord type ++ encodeWord class_ ++ encodeWord ttlHigh ++ encodeWord ttlLow

variable {message : List UInt8} {question : Name} {type class_ ttlHigh ttlLow : Nat}

/-- The numbers of the fixed part fit their fields. -/
structure HeadInRange (type class_ ttlHigh ttlLow : Nat) : Prop where
  type_lt : type < 2 ^ 16
  class_lt : class_ < 2 ^ 16
  ttlHigh_lt : ttlHigh < 2 ^ 16
  ttlLow_lt : ttlLow < 2 ^ 16

/-- A name stands at offset twelve, where the pointers point. -/
structure NameAtTwelve (message : List UInt8) (name : Name) : Prop where
  legal : ∀ label ∈ name, LegalLabel label
  here : ∃ rest, message.drop 12 = name.encode ++ rest

theorem NameAtTwelve.decode_pointer {offset : Nat} {rest : List UInt8}
    (name : NameAtTwelve message question) (here : message.drop offset = 0xC0 :: 12 :: rest) :
    decodeName message offset = some (question, offset + 2) := by
  obtain ⟨rest', layout⟩ := name.here
  have first : message[offset]? = some 0xC0 := by
    rw [← List.head?_drop, here]
    rfl
  have second : message[offset + 1]? = some 12 := by
    rw [← List.head?_drop, ← List.drop_drop, here]
    rfl
  have sizes := congrArg List.length layout
  have labels := length_lt_octets question
  simp at sizes
  obtain ⟨fuel, enough⟩ : ∃ fuel, message.length = fuel + 1 := ⟨message.length - 1, by omega⟩
  rw [decodeName, enough, decodeNameAt_pointer first (by decide) second]
  have target : 256 * ((0xC0 : UInt8).toNat - 192) + (12 : UInt8).toNat = 12 := by decide
  rw [target, decodeNameAt_encode name.legal (by omega) layout]
  rfl

/-- The reader up to the length of the data. -/
theorem decodeRecord_head {offset : Nat} {rest : List UInt8}
    (name : NameAtTwelve message question) (range : HeadInRange type class_ ttlHigh ttlLow)
    (here : message.drop offset = compressedHead type class_ ttlHigh ttlLow ++ rest) :
    decodeRecord message offset = (do
      let (length, next) ← decodeWord message (offset + 10)
      let rdata ← decodeRData message type next length
      return ({ owner := question, type, class_, ttl := 65536 * ttlHigh + ttlLow, rdata },
        next + length)) := by
  simp only [compressedHead, List.append_assoc] at here
  have owner := name.decode_pointer here
  have atType := drop_add_of_drop here
  have atClass := drop_add_of_drop atType
  have atHigh := drop_add_of_drop atClass
  have atLow := drop_add_of_drop atHigh
  have readType := decodeWord_of_drop range.type_lt atType
  have readClass := decodeWord_of_drop range.class_lt atClass
  have readHigh := decodeWord_of_drop range.ttlHigh_lt atHigh
  have readLow := decodeWord_of_drop range.ttlLow_lt atLow
  simp only [List.length_cons, List.length_nil, encodeWord, Nat.zero_add, Nat.reduceAdd,
    Nat.add_assoc] at readType readClass readHigh readLow
  simp only [decodeRecord, owner, Option.bind_eq_bind, Option.bind_some, readType, readClass,
    readHigh, readLow]

/-- **A written record is read back**, and the reader stands behind it. -/
theorem decodeRecord_encode {offset : Nat} {rest : List UInt8} {rdata : RData}
    (name : NameAtTwelve message question) (range : HeadInRange type class_ ttlHigh ttlLow)
    (layout : rdata.HasLayout type) (small : rdata.encode.length < 2 ^ 16)
    (here : message.drop offset = encodeCompressed type class_ ttlHigh ttlLow rdata ++ rest) :
    decodeRecord message offset =
      some ({ owner := question, type, class_, ttl := 65536 * ttlHigh + ttlLow, rdata },
        offset + (12 + rdata.encode.length)) := by
  have split : message.drop offset = compressedHead type class_ ttlHigh ttlLow ++
      (encodeWord rdata.encode.length ++ (rdata.encode ++ rest)) := by
    rw [here]
    simp [encodeCompressed, compressedHead]
  have atLength : message.drop (offset + 10) =
      encodeWord rdata.encode.length ++ (rdata.encode ++ rest) := drop_add_of_drop split
  have atData : message.drop (offset + 10 + 2) = rdata.encode ++ rest := drop_add_of_drop atLength
  rw [decodeRecord_head name range split, decodeWord_of_drop small atLength]
  simp only [Option.bind_eq_bind, Option.bind_some, decodeRData_encode layout atData]
  exact congrArg (fun next => some (_, next)) (by omega)

/-- **A record that is cut off is not read**: behind its fixed part the message
ends, or goes on with a pointer that asks for more data than there is. -/
theorem decodeRecord_cut {offset : Nat} {rest : List UInt8}
    (name : NameAtTwelve message question) (range : HeadInRange type class_ ttlHigh ttlLow)
    (short : message.length ≤ 512)
    (cut : rest = [] ∨ ∃ more, rest = 0xC0 :: 12 :: more)
    (here : message.drop offset = compressedHead type class_ ttlHigh ttlLow ++ rest) :
    decodeRecord message offset = none := by
  have behind : message.drop (offset + 10) = rest := drop_add_of_drop here
  rw [decodeRecord_head name range here]
  rcases cut with rfl | ⟨more, rfl⟩
  · have past : message.length ≤ offset + 10 := List.drop_eq_nil_iff.mp behind
    rw [decodeWord_none (by omega)]
    rfl
  · -- the bytes of a pointer, read as a length
    obtain ⟨count, large, length⟩ : ∃ count, 512 < count ∧
        decodeWord message (offset + 10) = some (count, offset + 10 + 2) :=
      ⟨49164, by omega, by simp [decodeWord, behind, word]⟩
    have tooLong : decodeRData message type (offset + 10 + 2) count = none := by
      rw [decodeRData, if_pos (by omega)]
    simp only [length, Option.bind_eq_bind, Option.bind_some, tooLong, Option.bind_none]

theorem decodeRecord_none {offset : Nat} (past : message.length ≤ offset) :
    decodeRecord message offset = none := by
  simp [decodeRecord, decodeName_none past]

/-! ## Counted sections -/

section Sections

variable {α : Type} {decode : Nat → Option (α × Nat)}

theorem decodeMany_none {count offset : Nat} (stuck : decode offset = none) :
    decodeMany decode (count + 1) offset = none := by
  simp [decodeMany, stuck]

end Sections

end DnsServer.Wire
