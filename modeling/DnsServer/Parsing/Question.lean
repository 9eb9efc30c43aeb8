import DnsServer.Model.Parser
import DnsServer.Wire.Name

/-!
# What `parseDNSQuery` accepts

One round of the label loop copies a label, or the part of it for which
`domain` has room, and a dot. Input and output advance together, so the
position in the datagram is always twelve more than the bytes in `domain`.

* A datagram whose question has a well-formed name of at most 255 octets is
  accepted, and its fields are the expected ones (`parseDNSQuery_of_question`).
* Every accepted datagram has such a name, or its name is cut off by the end of
  `domain`. In the second case `query_len` is 260, and whatever a reader of the
  grammar makes of the copied bytes takes more than 255 octets
  (`parseDNSQuery_cases`).
* No read and no write leaves its buffer (`parseDNSQuery_safe`).
-/

set_option autoImplicit false

namespace DnsServer

open Libc Wire

/-- A buffer of the size passed has room for what `snprintf` writes. -/
theorem printInto_eq (size : Nat) (text : CString) :
    printInto (OutBuffer.empty : OutBuffer size) size text = .ok (snprintf size text) := by
  have room : (OutBuffer.empty : OutBuffer size).bytes.length +
      ((snprintf size text ++ [0]).take size).length ≤ size := by
    rw [OutBuffer.bytes_empty, List.length_nil, Nat.zero_add]
    exact List.length_take_le _ _
  rw [printInto, OutBuffer.append_of_room room]
  rfl

/-! ## One round of the label loop -/

variable {domain_size : Nat}

/-- The inner loop copies what fits in front of the last two bytes of
`domain`. -/
theorem copyLabel_eq (buffer : List UInt8) :
    ∀ (left i : Nat) (domain : OutBuffer domain_size), i + left ≤ buffer.length →
      ∃ copied : OutBuffer domain_size,
        copyLabel buffer domain_size left i domain =
          .ok (i + min left (domain_size - 2 - domain.length), copied) ∧
        copied.bytes = domain.bytes ++
          (buffer.drop i).take (min left (domain_size - 2 - domain.length)) := by
  intro left
  induction left with
  | zero =>
      intro i domain _
      exact ⟨domain, by simp [copyLabel], by simp⟩
  | succ left ih =>
      intro i domain inside
      by_cases room : domain.length < domain_size - 2
      · have here : i < buffer.length := by omega
        have split : buffer.drop i = buffer[i] :: buffer.drop (i + 1) :=
          List.drop_eq_getElem_cons here
        have fits : domain.bytes.length + [buffer[i]].length ≤ domain_size := by
          simp [OutBuffer.length] at room ⊢
          omega
        obtain ⟨copied, rest, bytes⟩ := ih (i + 1) ⟨domain.bytes ++ [buffer[i]], by simpa using fits⟩
          (by omega)
        have count : min (left + 1) (domain_size - 2 - domain.length) =
            min left (domain_size - 2 - (domain.length + 1)) + 1 := by omega
        have grown : OutBuffer.length (⟨domain.bytes ++ [buffer[i]], by simpa using fits⟩ :
            OutBuffer domain_size) = domain.length + 1 := by simp [OutBuffer.length]
        rw [grown] at rest bytes
        refine ⟨copied, ?_, ?_⟩
        · rw [copyLabel, if_pos room, readAt_of_getElem? (List.getElem?_eq_getElem here),
            Checked.ok_bind, OutBuffer.append_of_room fits, Checked.ok_bind, rest, count]
          congr 2
          omega
        · rw [bytes, count, split, List.take_succ_cons]
          simp
      · refine ⟨domain, ?_, ?_⟩
        · rw [copyLabel, if_neg room]
          have : domain_size - 2 - domain.length = 0 := by omega
          simp [this]
        · have : domain_size - 2 - domain.length = 0 := by omega
          simp [this]

/-- The loop stops at a zero byte, at the end, or when `domain` is full. -/
theorem labelLoop_stop {buffer : List UInt8} {rounds i : Nat} {domain : OutBuffer domain_size}
    (stop : buffer.length ≤ i ∨ buffer[i]? = some 0 ∨ domain_size - 1 ≤ domain.length) :
    labelLoop buffer domain_size (rounds + 1) i domain = .ok (some (i, domain)) := by
  rw [labelLoop]
  split
  · next here =>
    rw [readAt_of_getElem? (List.getElem?_eq_getElem here), Checked.ok_bind]
    rw [if_neg]
    · rfl
    · rintro ⟨nonzero, room⟩
      rcases stop with past | zero | full
      · omega
      · rw [List.getElem?_eq_getElem here, Option.some.injEq] at zero
        exact nonzero zero
      · omega
  · rfl

/-- **One round**: a label longer than 63 bytes or than the datagram is
refused, else the part of it that fits is copied and a dot put behind it. -/
theorem labelLoop_round {buffer : List UInt8} (rounds : Nat) {i : Nat}
    (domain : OutBuffer domain_size) {len : UInt8} (there : buffer[i]? = some len) (nonzero : len ≠ 0)
    (room : domain.length < domain_size - 1) :
    (63 < len.toNat ∨ buffer.length < i + 1 + len.toNat →
        labelLoop buffer domain_size (rounds + 1) i domain = .ok none) ∧
      (len.toNat ≤ 63 → i + 1 + len.toNat ≤ buffer.length →
        ∃ copied : OutBuffer domain_size,
          copied.bytes = domain.bytes ++
            (buffer.drop (i + 1)).take (min len.toNat (domain_size - 2 - domain.length)) ++ [46] ∧
          labelLoop buffer domain_size (rounds + 1) i domain =
            labelLoop buffer domain_size rounds
              (i + 1 + min len.toNat (domain_size - 2 - domain.length)) copied) := by
  have here : i < buffer.length := (List.getElem?_eq_some_iff.mp there).1
  constructor
  · intro refused
    rw [labelLoop, if_pos here, readAt_of_getElem? there, Checked.ok_bind,
      if_pos ⟨nonzero, room⟩]
    by_cases long : len.toNat > 63
    · rw [if_pos long]
      rfl
    · rw [if_neg long, if_pos (by omega)]
      rfl
  · intro short inside
    obtain ⟨copied, copy, bytes⟩ := copyLabel_eq buffer len.toNat (i + 1) domain inside
    have grown : copied.length ≤ domain_size - 2 := by
      have := congrArg List.length bytes
      simp [OutBuffer.length] at this room ⊢
      omega
    have fits : copied.bytes.length + [(46 : UInt8)].length ≤ domain_size := by
      simp [OutBuffer.length] at grown ⊢
      omega
    refine ⟨⟨copied.bytes ++ [46], by simpa using fits⟩, congrArg (· ++ [46]) bytes, ?_⟩
    rw [labelLoop, if_pos here, readAt_of_getElem? there, Checked.ok_bind,
      if_pos ⟨nonzero, room⟩, if_neg (by omega), if_neg (by omega), copy, Checked.ok_bind]
    simp only
    rw [if_pos (by omega), OutBuffer.append_of_room fits, Checked.ok_bind]

/-! ## Whole runs of the label loop -/

/-- The text of some labels with a dot behind each of them. -/
def dotted (name : Name) : List UInt8 := name.flatMap fun label => label ++ [46]

@[simp] theorem length_dotted (name : Name) :
    (dotted name).length = (encodeLabels name).length := by
  induction name with
  | nil => rfl
  | cons label name ih =>
      simp only [dotted, List.flatMap_cons, List.length_append] at ih ⊢
      rw [ih]
      simp
      omega

/-- Without the last dot it is the dotted text of the name. -/
theorem dropLast_dotted {name : Name} (nonempty : name ≠ []) :
    (dotted name).dropLast = joinDots name := by
  induction name with
  | nil => exact absurd rfl nonempty
  | cons label name ih =>
      cases name with
      | nil => simp [dotted, joinDots]
      | cons next name =>
          have tail := ih (List.cons_ne_nil next name)
          have behind : dotted (next :: name) ≠ [] := by simp [dotted]
          have split : dotted (label :: next :: name) = (label ++ [46]) ++ dotted (next :: name) :=
            rfl
          rw [split, List.dropLast_append_of_ne_nil behind, tail]
          simp [joinDots]

/-- The loop runs over labels for which `domain` has room, one round for each. -/
theorem labelLoop_labels {buffer : List UInt8} :
    ∀ (name : Name) (rounds i : Nat) (domain : OutBuffer domain_size) (rest : List UInt8),
      (∀ label ∈ name, LegalLabel label) → buffer.drop i = encodeLabels name ++ rest →
      domain.length + (encodeLabels name).length ≤ domain_size - 1 →
      ∃ written : OutBuffer domain_size, written.bytes = domain.bytes ++ dotted name ∧
        labelLoop buffer domain_size (rounds + name.length) i domain =
          labelLoop buffer domain_size rounds (i + (encodeLabels name).length) written := by
  intro name
  induction name with
  | nil =>
      intro rounds i domain rest _ _ _
      exact ⟨domain, by simp [dotted], rfl⟩
  | cons label name ih =>
      intro rounds i domain rest legal here room
      have headLegal := legal label List.mem_cons_self
      have width := headLegal.toNat_ofNat
      have there : buffer[i]? = some (UInt8.ofNat label.length) := by
        rw [← List.head?_drop, here]
        rfl
      have nonzero : UInt8.ofNat label.length ≠ 0 := by
        intro zero
        have := headLegal.1
        rw [zero] at width
        simp at width
        omega
      have afterByte : buffer.drop (i + 1) = label ++ (encodeLabels name ++ rest) := by
        rw [← List.drop_drop, here]
        simp
      have inside : i + 1 + label.length ≤ buffer.length := by
        have sizes := congrArg List.length afterByte
        have := headLegal.1
        simp at sizes
        omega
      simp only [encodeLabels_cons, List.length_cons, List.length_append] at room
      obtain ⟨copied, bytes, step⟩ := (labelLoop_round (rounds + name.length) domain there nonzero
        (by omega)).2 (by rw [width]; exact headLegal.2) (by rw [width]; exact inside)
      have whole : min label.length (domain_size - 2 - domain.length) = label.length := by omega
      rw [width, whole] at bytes step
      rw [afterByte, List.take_left] at bytes
      have afterLabel : buffer.drop (i + 1 + label.length) = encodeLabels name ++ rest := by
        rw [← List.drop_drop, afterByte, List.drop_left]
      have length : copied.length = domain.length + label.length + 1 := by
        have := congrArg List.length bytes
        simp [OutBuffer.length] at this ⊢
        omega
      obtain ⟨written, writtenBytes, run⟩ := ih rounds (i + 1 + label.length) copied rest
        (fun other member => legal other (List.mem_cons_of_mem _ member)) afterLabel (by omega)
      refine ⟨written, ?_, ?_⟩
      · rw [writtenBytes, bytes]
        simp [dotted]
      · rw [List.length_cons, ← Nat.add_assoc, step, run]
        simp only [encodeLabels_cons, List.length_cons, List.length_append]
        congr 1
        omega

/-- Behind a name for which `domain` has room the loop stops at the zero byte. -/
theorem labelLoop_name {buffer : List UInt8} (name : Name) (rounds i : Nat)
    (domain : OutBuffer domain_size) (rest : List UInt8)
    (legal : ∀ label ∈ name, LegalLabel label)
    (here : buffer.drop i = encodeLabels name ++ 0 :: rest) (enough : name.length < rounds)
    (room : domain.length + (encodeLabels name).length ≤ domain_size - 1) :
    ∃ written : OutBuffer domain_size, written.bytes = domain.bytes ++ dotted name ∧
      labelLoop buffer domain_size rounds i domain = .ok (some (i + (encodeLabels name).length, written)) := by
  obtain ⟨left, rfl⟩ : ∃ left, rounds = left + 1 + name.length :=
    ⟨rounds - 1 - name.length, by omega⟩
  obtain ⟨written, bytes, run⟩ := labelLoop_labels name (left + 1) i domain _ legal here room
  refine ⟨written, bytes, run.trans (labelLoop_stop (.inr (.inl ?_)))⟩
  rw [← List.head?_drop, ← List.drop_drop, here, List.drop_left]
  rfl

/-- What is known when the loop has gone from `i` and `domain` to `last` and
`written`. -/
structure LoopExit (buffer : List UInt8) (i : Nat) (domain : OutBuffer domain_size) (last : Nat)
    (written : OutBuffer domain_size) : Prop where
  forward : i ≤ last
  together : last + domain.length = i + written.length
  bounded : written.length ≤ max domain.length (domain_size - 1)
  complete : written.length < domain_size - 1 → ∃ name : Name,
    (∀ label ∈ name, LegalLabel label) ∧ buffer.drop i = encodeLabels name ++ buffer.drop last ∧
      (buffer.length ≤ last ∨ buffer[last]? = some 0)
  octets : ∀ (message : List UInt8) (fuel : Nat) (name : Name) (next : Nat),
    (∀ position, i ≤ position → position < last → message[position]? = buffer[position]?) →
      decodeNameAt message fuel i = some (name, next) → last + 1 ≤ i + name.octets
  text : ∃ parts : Name, written.bytes = domain.bytes ++ dotted parts ∧
    ∀ part ∈ parts, part.length ≤ 63

section Exit

variable {buffer : List UInt8} {i last : Nat} {domain copied written : OutBuffer domain_size}

/-- The loop may stop where it is. -/
theorem LoopExit.stop
    (stop : buffer.length ≤ i ∨ buffer[i]? = some 0 ∨ domain_size - 1 ≤ domain.length) :
    LoopExit buffer i domain i domain := by
  refine ⟨le_rfl, by omega, by omega, ?_, ?_, [], by simp [dotted], by simp⟩
  · intro room
    refine ⟨[], by simp, by simp, ?_⟩
    rcases stop with past | zero | full
    · exact .inl past
    · exact .inr zero
    · omega
  · intro message fuel name next _ _
    have := octets_pos name
    omega

variable {len : UInt8}

/-- A label that was copied whole comes in front of the labels behind it. -/
theorem LoopExit.complete_label (there : buffer[i]? = some len) (nonzero : len ≠ 0)
    (short : len.toNat ≤ 63) (inside : i + 1 + len.toNat ≤ buffer.length)
    (exit : LoopExit buffer (i + 1 + len.toNat) copied last written)
    (unfilled : written.length < domain_size - 1) :
    ∃ name : Name, (∀ label ∈ name, LegalLabel label) ∧
      buffer.drop i = encodeLabels name ++ buffer.drop last ∧
        (buffer.length ≤ last ∨ buffer[last]? = some 0) := by
  obtain ⟨here, value⟩ := List.getElem?_eq_some_iff.mp there
  obtain ⟨name, legal, behind, ended⟩ := exit.complete unfilled
  have size : ((buffer.drop (i + 1)).take len.toNat).length = len.toNat := by
    simp
    omega
  have positive : 1 ≤ len.toNat := by
    by_contra small
    exact nonzero (UInt8.toNat_inj.mp (by simp; omega))
  refine ⟨(buffer.drop (i + 1)).take len.toNat :: name, ?_, ?_, ended⟩
  · intro label member
    rcases List.mem_cons.mp member with rfl | tail
    · exact ⟨by omega, by omega⟩
    · exact legal label tail
  · have rejoin := List.take_append_drop len.toNat (buffer.drop (i + 1))
    rw [List.drop_drop, behind] at rejoin
    rw [encodeLabels_cons, size, UInt8.ofNat_toNat, List.cons_append, List.append_assoc, rejoin,
      ← value]
    exact List.drop_eq_getElem_cons here

/-- A reader of the grammar passes the label too, and what the loop passes
behind it unless the loop stops there. -/
theorem LoopExit.octets_label {count : Nat} (there : buffer[i]? = some len) (nonzero : len ≠ 0)
    (short : len.toNat ≤ 63) (part : count ≤ len.toNat)
    (exit : LoopExit buffer (i + 1 + count) copied last written)
    (ends : count = len.toNat ∨ last ≤ i + 1 + count) {message : List UInt8} {fuel : Nat}
    {name : Name} {next : Nat}
    (agree : ∀ position, i ≤ position → position < last → message[position]? = buffer[position]?)
    (decoded : decodeNameAt message fuel i = some (name, next)) : last + 1 ≤ i + name.octets := by
  have forward := exit.forward
  have messageThere : message[i]? = some len := (agree i le_rfl (by omega)).trans there
  cases fuel with
  | zero => cases decoded
  | succ fuel =>
      rw [decodeNameAt_label messageThere nonzero short] at decoded
      split at decoded
      · next fits =>
        obtain ⟨⟨tail, tailNext⟩, tailDecoded, same⟩ := Option.map_eq_some_iff.mp decoded
        cases same
        have size : ((message.drop (i + 1)).take len.toNat).length = len.toNat := by
          simp
          omega
        rw [octets_cons, size]
        simp only
        rcases ends with rfl | stopped
        · have behind := exit.octets message fuel tail tailNext
            (fun position after before => agree position (by omega) before) tailDecoded
          omega
        · have := octets_pos tail
          omega
      · cases decoded

/-- **An exit behind a label is an exit in front of it.** -/
theorem LoopExit.round (there : buffer[i]? = some len) (nonzero : len ≠ 0)
    (room : domain.length < domain_size - 1) (short : len.toNat ≤ 63)
    (inside : i + 1 + len.toNat ≤ buffer.length)
    (bytes : copied.bytes = domain.bytes ++
      (buffer.drop (i + 1)).take (min len.toNat (domain_size - 2 - domain.length)) ++ [46])
    (exit : LoopExit buffer (i + 1 + min len.toNat (domain_size - 2 - domain.length)) copied last
      written) : LoopExit buffer i domain last written := by
  have length : copied.length =
      domain.length + min len.toNat (domain_size - 2 - domain.length) + 1 := by
    have := congrArg List.length bytes
    simp [OutBuffer.length] at this ⊢
    omega
  have forward := exit.forward
  have together := exit.together
  have bounded := exit.bounded
  refine ⟨by omega, by omega, by omega, ?_, ?_, ?_⟩
  · intro unfilled
    -- there was room behind the label, so it was copied whole
    have whole : min len.toNat (domain_size - 2 - domain.length) = len.toNat := by omega
    rw [whole] at exit
    exact exit.complete_label there nonzero short inside unfilled
  · intro message fuel name next agree decoded
    -- a label that was cut fills `domain`, so the loop stops behind it
    exact exit.octets_label there nonzero short (Nat.min_le_left _ _) (by omega) agree decoded
  · obtain ⟨parts, writtenBytes, shortParts⟩ := exit.text
    refine ⟨(buffer.drop (i + 1)).take
      (min len.toNat (domain_size - 2 - domain.length)) :: parts, ?_, ?_⟩
    · rw [writtenBytes, bytes]
      simp [dotted]
    · intro part member
      rcases List.mem_cons.mp member with rfl | tail
      · rw [List.length_take]
        omega
      · exact shortParts part tail

end Exit

/-- **The loop ends**, with a refusal or with an exit. The induction is on the
rounds that are left, which are more than the bytes that are left. -/
theorem labelLoop_exit (buffer : List UInt8) :
    ∀ (rounds i : Nat) (domain : OutBuffer domain_size), 1 ≤ rounds →
      buffer.length < rounds + i →
      labelLoop buffer domain_size rounds i domain = .ok none ∨
        ∃ (last : Nat) (written : OutBuffer domain_size),
          labelLoop buffer domain_size rounds i domain = .ok (some (last, written)) ∧
            LoopExit buffer i domain last written := by
  intro rounds
  induction rounds with
  | zero =>
      intro i domain positive
      omega
  | succ rounds ih =>
      intro i domain _ enough
      by_cases stop : buffer.length ≤ i ∨ buffer[i]? = some 0 ∨ domain_size - 1 ≤ domain.length
      · exact .inr ⟨i, domain, labelLoop_stop stop, .stop stop⟩
      · push Not at stop
        obtain ⟨here, nonzero, room⟩ := stop
        have there : buffer[i]? = some buffer[i] := List.getElem?_eq_getElem here
        have lenNonzero : buffer[i] ≠ 0 := fun zero => nonzero (there.trans (congrArg some zero))
        obtain ⟨refuse, accept⟩ := labelLoop_round rounds domain there lenNonzero room
        by_cases refused : 63 < buffer[i].toNat ∨ buffer.length < i + 1 + buffer[i].toNat
        · exact .inl (refuse refused)
        · push Not at refused
          obtain ⟨short, inside⟩ := refused
          obtain ⟨copied, bytes, step⟩ := accept short inside
          rw [step]
          rcases ih (i + 1 + min buffer[i].toNat (domain_size - 2 - domain.length)) copied
            (by omega) (by omega) with refusal | ⟨last, written, run, exit⟩
          · exact .inl refusal
          · exact .inr ⟨last, written, run, exit.round there lenNonzero room short inside bytes⟩

/-! ## The whole parser -/

/-- A well-formed question behind the header: a name of at least one label, of a
size the grammar allows, a type and a class. -/
structure QuestionAt (buffer : List UInt8) (name : Name) (qtype qclass : Nat) : Prop where
  nonempty : name ≠ []
  legal : ∀ label ∈ name, LegalLabel label
  short : name.octets ≤ 255
  layout : ∃ rest, buffer.drop 12 = name.encode ++ (htons qtype ++ htons qclass ++ rest)
  qtype_lt : qtype < 2 ^ 16
  qclass_lt : qclass < 2 ^ 16

/-- What a question of the given name and type is parsed to. -/
def parsedQuestion (name : Name) (qtype : Nat) : ParsedQuery where
  domain := cutAtNul (joinDots name)
  queryType := qtype
  typeString := snprintf 16 (typeName qtype)
  query_len := name.octets + 4

theorem readShort_of_drop {buffer rest : List UInt8} {i n : Nat} (small : n < 2 ^ 16)
    (here : buffer.drop i = htons n ++ rest) : readShort buffer i = .ok n := by
  have first : buffer[i]? = some (UInt8.ofNat (n / 256)) := by
    rw [← List.head?_drop, here]
    rfl
  have second : buffer[i + 1]? = some (UInt8.ofNat n) := by
    rw [← List.head?_drop, ← List.drop_drop, here]
    rfl
  rw [readShort, readAt_of_getElem? first, Checked.ok_bind, readAt_of_getElem? second,
    Checked.ok_bind, Checked.pure_eq_ok]
  simp
  omega

/-- A name for which `domain` has room is read as it stands. Such a name has at
most 256 octets, one more than the grammar allows. -/
theorem parseDNSQuery_of_layout {buffer : List UInt8} {name : Name} {qtype qclass : Nat}
    (nonempty : name ≠ []) (legal : ∀ label ∈ name, LegalLabel label)
    (short : name.octets ≤ 256)
    (layout : ∃ rest, buffer.drop 12 = name.encode ++ (htons qtype ++ htons qclass ++ rest))
    (qtypeLt : qtype < 2 ^ 16) (qclassLt : qclass < 2 ^ 16) :
    parseDNSQuery buffer 256 16 = .ok (some (parsedQuestion name qtype)) := by
  obtain ⟨rest, layout⟩ := layout
  have sizes := congrArg List.length layout
  have labels := length_lt_octets name
  simp at sizes
  obtain ⟨written, bytes, run⟩ := labelLoop_name name (buffer.length + 1) 12
    (OutBuffer.empty : OutBuffer 256) (htons qtype ++ htons qclass ++ rest) legal
    (by simpa [Name.encode] using layout) (by omega) (by
      simp [Name.octets] at short ⊢
      omega)
  have length : written.length + 1 = name.octets := by
    simp [OutBuffer.length, bytes, Name.octets]
  have positive : 2 ≤ name.octets := by
    have := List.length_pos_of_ne_nil nonempty
    omega
  have behind : buffer.drop (12 + name.octets) = htons qtype ++ htons qclass ++ rest := by
    rw [← List.drop_drop, layout, ← length_encode, List.drop_left]
  have behindType : buffer.drop (12 + name.octets + 2) = htons qclass ++ rest := by
    rw [← List.drop_drop, behind]
    rfl
  have last : 12 + (encodeLabels name).length + 1 = 12 + name.octets := by
    simp [Name.octets]
    omega
  rw [parseDNSQuery, parseDNSQueryInto, if_neg (by omega), run]
  simp only [Checked.ok_bind, printInto_eq]
  rw [if_pos (by omega), last, if_neg (by omega),
    readShort_of_drop qtypeLt (by rw [behind, List.append_assoc]), Checked.ok_bind,
    readShort_of_drop qclassLt behindType, Checked.ok_bind, Checked.pure_eq_ok]
  have text : written.bytes.dropLast = joinDots name := by
    rw [bytes, OutBuffer.bytes_empty, List.nil_append, dropLast_dotted nonempty]
  have len : 12 + name.octets + 4 - 12 = name.octets + 4 := by omega
  rw [text, len]
  rfl

/-- **A well-formed question is accepted** and its fields are read as they
stand. -/
theorem parseDNSQuery_of_question {buffer : List UInt8} {name : Name} {qtype qclass : Nat}
    (question : QuestionAt buffer name qtype qclass) :
    parseDNSQuery buffer 256 16 = .ok (some (parsedQuestion name qtype)) :=
  parseDNSQuery_of_layout question.nonempty question.legal (question.short.trans (by decide))
    question.layout question.qtype_lt question.qclass_lt

/-- The bytes of a question whose name `domain` cannot hold: however a reader of
the grammar goes on behind them, it has passed more than 255 octets. -/
def OverlongQuestion (buffer : List UInt8) : Prop :=
  ∀ (message : List UInt8) (name : Name) (next : Nat),
    (∀ position, 12 ≤ position → position < 267 → message[position]? = buffer[position]?) →
      decodeName message 12 = some (name, next) → 255 < name.octets

/-- What holds of every accepted datagram. -/
structure Accepted (buffer : List UInt8) (query : ParsedQuery) : Prop where
  typeString_eq : query.typeString = snprintf 16 (typeName query.queryType)
  queryType_lt : query.queryType < 2 ^ 16
  inside : 12 + query.query_len ≤ buffer.length
  bounded : query.query_len ≤ 260
  question : (∃ name qtype qclass, QuestionAt buffer name qtype qclass ∧
      query = parsedQuestion name qtype) ∨ (query.query_len = 260 ∧ OverlongQuestion buffer)
  domain_length : query.domain.length ≤ 254
  text : ∃ parts : Name, query.domain = cutAtNul (dotted parts).dropLast ∧
    ∀ part ∈ parts, part.length ≤ 63

/-- The name of a type has no underscore. -/
theorem Accepted.typeString_clean {buffer : List UInt8} {query : ParsedQuery}
    (accepted : Accepted buffer query) : 95 ∉ query.typeString := by
  have clean : 95 ∉ typeName query.queryType := by
    have digits : 95 ∉ decimalNat query.queryType := fun member =>
      absurd (isDigit_of_mem_decimalNat 95 member) (by decide)
    have letters : 95 ∉ cstr "TYPE" := by decide
    unfold typeName
    split_ifs
    case neg => exact fun member => (List.mem_append.mp member).elim letters digits
    all_goals decide
  rw [accepted.typeString_eq]
  exact fun member => clean (List.mem_of_mem_take member)

theorem htons_bytes (high low : UInt8) : htons (256 * high.toNat + low.toNat) = [high, low] := by
  have highLt := high.toNat_lt
  have lowLt := low.toNat_lt
  have first : (256 * high.toNat + low.toNat) / 256 = high.toNat := by omega
  have second : UInt8.ofNat (256 * high.toNat + low.toNat) = low :=
    UInt8.toNat_inj.mp (by simp)
  rw [htons, first, second, UInt8.ofNat_toNat]

/-- Two bytes of a buffer are a number in network order. -/
theorem drop_eq_htons {buffer : List UInt8} (i : Nat) (inside : i + 2 ≤ buffer.length) :
    ∃ n, n < 2 ^ 16 ∧ buffer.drop i = htons n ++ buffer.drop (i + 2) := by
  have first : i < buffer.length := by omega
  have second : i + 1 < buffer.length := by omega
  refine ⟨256 * buffer[i].toNat + buffer[i + 1].toNat, ?_, ?_⟩
  · have := buffer[i].toNat_lt
    have := buffer[i + 1].toNat_lt
    omega
  · rw [htons_bytes, List.drop_eq_getElem_cons first, List.drop_eq_getElem_cons second]
    rfl

theorem length_cutAtNul_le (buffer : List UInt8) : (cutAtNul buffer).length ≤ buffer.length :=
  (List.takeWhile_prefix _).length_le

theorem QuestionAt.accepted {buffer : List UInt8} {name : Name} {qtype qclass : Nat}
    (question : QuestionAt buffer name qtype qclass) :
    Accepted buffer (parsedQuestion name qtype) := by
  obtain ⟨rest, layout⟩ := question.layout
  have sizes := congrArg List.length layout
  have short := question.short
  simp at sizes
  exact
    { typeString_eq := rfl
      queryType_lt := question.qtype_lt
      inside := by simp only [parsedQuestion]; omega
      bounded := Nat.add_le_add_right (short.trans (by decide)) 4
      question := .inl ⟨name, qtype, qclass, question, rfl⟩
      domain_length := by
        have cut := length_cutAtNul_le (joinDots name)
        rw [← dropLast_dotted question.nonempty, List.length_dropLast, length_dotted] at cut
        simp only [Name.octets] at short
        simp only [parsedQuestion, ← dropLast_dotted question.nonempty]
        omega
      text := ⟨name, by rw [dropLast_dotted question.nonempty]; rfl,
        fun label member => (question.legal label member).2⟩ }

section Exit

variable {buffer : List UInt8} {last : Nat} {written : OutBuffer 256}

/-- What follows the loop, when it exits. -/
theorem parseDNSQuery_exit (large : 12 < buffer.length)
    (run : labelLoop buffer 256 (buffer.length + 1) 12 (OutBuffer.empty : OutBuffer 256) =
      .ok (some (last, written))) :
    parseDNSQuery buffer 256 16 =
      if 0 < written.length ∧ written.length < 256 then
        if last + 1 + 4 > buffer.length then .ok none
        else do
          let queryType ← readShort buffer (last + 1)
          let _qclass ← readShort buffer (last + 1 + 2)
          return some
            { domain := cutAtNul written.bytes.dropLast
              queryType
              typeString := snprintf 16 (typeName queryType)
              query_len := last + 1 + 4 - 12 }
      else .ok none := by
  rw [parseDNSQuery, parseDNSQueryInto, if_neg (by omega), run]
  simp only [Checked.ok_bind, printInto_eq]
  rfl

/-- When `domain` is not full, the loop has passed a well-formed question. -/
theorem LoopExit.question {qtype qclass : Nat}
    (exit : LoopExit buffer 12 (OutBuffer.empty : OutBuffer 256) last written)
    (started : 0 < written.length) (room : written.length < 255)
    (inside : last + 1 + 4 ≤ buffer.length) (qtypeLt : qtype < 2 ^ 16) (qclassLt : qclass < 2 ^ 16)
    (typeHere : buffer.drop (last + 1) = htons qtype ++ buffer.drop (last + 1 + 2))
    (classHere : buffer.drop (last + 1 + 2) = htons qclass ++ buffer.drop (last + 1 + 2 + 2)) :
    ∃ name, QuestionAt buffer name qtype qclass := by
  have together := exit.together
  simp only [OutBuffer.length_empty] at together
  obtain ⟨name, legal, here, ended⟩ := exit.complete room
  have zero : buffer[last]? = some 0 := ended.resolve_left (by omega)
  have lastInside : last < buffer.length := by omega
  have atZero : buffer.drop last = 0 :: buffer.drop (last + 1) := by
    rw [List.getElem?_eq_getElem lastInside, Option.some.injEq] at zero
    rw [List.drop_eq_getElem_cons lastInside, zero]
  have sizes := congrArg List.length here
  exact ⟨name,
    { nonempty := by
        rintro rfl
        simp at sizes
        omega
      legal
      short := by
        simp [Name.octets] at sizes ⊢
        omega
      layout := ⟨buffer.drop (last + 1 + 2 + 2), by
        rw [here, atZero, typeHere, classHere]
        simp [Name.encode]⟩
      qtype_lt := qtypeLt
      qclass_lt := qclassLt }⟩

/-- When `domain` is full, the loop has passed 255 bytes of a name. -/
theorem LoopExit.accepted_full {qtype : Nat}
    (exit : LoopExit buffer 12 (OutBuffer.empty : OutBuffer 256) last written)
    (full : written.length = 255) (inside : last + 1 + 4 ≤ buffer.length)
    (qtypeLt : qtype < 2 ^ 16) :
    Accepted buffer
      { domain := cutAtNul written.bytes.dropLast
        queryType := qtype
        typeString := snprintf 16 (typeName qtype)
        query_len := last + 1 + 4 - 12 } := by
  have together := exit.together
  simp only [OutBuffer.length_empty] at together
  have filled : last = 267 := by omega
  subst filled
  exact
    { typeString_eq := rfl
      queryType_lt := qtypeLt
      inside := by simp only; omega
      bounded := le_rfl
      question := .inr ⟨rfl, fun message name next agree decoded => by
        have passed := exit.octets message message.length name next agree decoded
        omega⟩
      domain_length := by
        have cut := length_cutAtNul_le written.bytes.dropLast
        have size : written.bytes.length = 255 := full
        rw [List.length_dropLast] at cut
        simp only
        omega
      text := by
        obtain ⟨parts, bytes, short⟩ := exit.text
        exact ⟨parts, by simp only [bytes, OutBuffer.bytes_empty, List.nil_append], short⟩ }

end Exit

/-- **What `parseDNSQuery` returns**: it refuses, or everything in `Accepted`
holds of its result. -/
theorem parseDNSQuery_cases (buffer : List UInt8) :
    parseDNSQuery buffer 256 16 = .ok none ∨
      ∃ query, parseDNSQuery buffer 256 16 = .ok (some query) ∧ Accepted buffer query := by
  by_cases tiny : 12 ≥ buffer.length
  · exact .inl (by rw [parseDNSQuery, parseDNSQueryInto, if_pos tiny]; rfl)
  rcases labelLoop_exit buffer (buffer.length + 1) 12 (OutBuffer.empty : OutBuffer 256)
    (by omega) (by omega) with refusal | ⟨last, written, run, exit⟩
  · exact .inl (by rw [parseDNSQuery, parseDNSQueryInto, if_neg tiny, refusal]; rfl)
  have parse := parseDNSQuery_exit (by omega) run
  by_cases started : 0 < written.length ∧ written.length < 256
  swap
  · exact .inl (by rw [parse, if_neg started])
  by_cases truncated : last + 1 + 4 > buffer.length
  · exact .inl (by rw [parse, if_pos started, if_pos truncated])
  obtain ⟨qtype, qtypeLt, typeHere⟩ := drop_eq_htons (last + 1)
    (show last + 1 + 2 ≤ buffer.length by omega)
  obtain ⟨qclass, qclassLt, classHere⟩ := drop_eq_htons (last + 1 + 2)
    (show last + 1 + 2 + 2 ≤ buffer.length by omega)
  right
  by_cases room : written.length < 255
  · obtain ⟨name, question⟩ := exit.question started.1 room (by omega) qtypeLt qclassLt typeHere
      classHere
    exact ⟨_, parseDNSQuery_of_question question, question.accepted⟩
  · refine ⟨_, ?_, exit.accepted_full (by omega) (by omega) qtypeLt⟩
    rw [parse, if_pos started, if_neg truncated, readShort_of_drop qtypeLt typeHere,
      Checked.ok_bind, readShort_of_drop qclassLt classHere, Checked.ok_bind, Checked.pure_eq_ok]

/-- Parsing stays inside the datagram and inside `domain`. -/
theorem parseDNSQuery_safe (buffer : List UInt8) :
    ∃ result, parseDNSQuery buffer 256 16 = .ok result := by
  rcases parseDNSQuery_cases buffer with refused | ⟨query, parsed, _⟩
  · exact ⟨none, refused⟩
  · exact ⟨some query, parsed⟩

theorem parseDNSQuery_accepted {buffer : List UInt8} {query : ParsedQuery}
    (parsed : parseDNSQuery buffer 256 16 = .ok (some query)) : Accepted buffer query := by
  rcases parseDNSQuery_cases buffer with refused | ⟨other, same, accepted⟩
  · rw [parsed] at refused
    cases refused
  · rw [parsed] at same
    cases same
    exact accepted

/-- A part without dots of a text made of labels lies inside one label. -/
theorem length_le_of_infix_dotted {bound : Nat} {run : List UInt8} (noDot : 46 ∉ run) :
    ∀ parts : Name, (∀ part ∈ parts, part.length ≤ bound) → run <:+: dotted parts →
      run.length ≤ bound := by
  intro parts
  induction parts with
  | nil =>
      intro _ inside
      simp [dotted] at inside
      simp [inside]
  | cons part parts ih =>
      intro short inside
      have partShort := short part List.mem_cons_self
      have rest := ih fun other member => short other (List.mem_cons_of_mem _ member)
      have split : dotted (part :: parts) = part ++ 46 :: dotted parts := by simp [dotted]
      rw [split] at inside
      obtain ⟨before, after, whole⟩ := inside
      rcases List.append_eq_append_iff.mp whole with
        ⟨more, inPart, _⟩ | ⟨more, pastPart, behind⟩
      · have := congrArg List.length inPart
        simp at this
        omega
      cases more with
      | nil =>
          have := congrArg List.length pastPart
          simp at this
          omega
      | cons c more =>
          rw [List.cons_append, List.cons.injEq] at behind
          obtain ⟨rfl, behind⟩ := behind
          -- the run ends behind the dot, so it starts behind it as well
          rcases List.append_eq_append_iff.mp pastPart with
            ⟨extra, _, startsIn⟩ | ⟨extra, _, startsIn⟩
          · exact absurd (by rw [startsIn]; simp) noDot
          · cases extra with
            | nil => exact absurd (by rw [← show _ = run from startsIn]; simp) noDot
            | cons d extra =>
                rw [List.cons_append, List.cons.injEq] at startsIn
                exact rest ⟨extra, after, by rw [behind, startsIn.2]⟩

/-- The parts without dots of an accepted name are no longer than a label. -/
theorem Accepted.run_length {buffer : List UInt8} {query : ParsedQuery}
    (accepted : Accepted buffer query) {run : List UInt8} (noDot : 46 ∉ run)
    (inside : run <:+: query.domain) : run.length ≤ 63 := by
  obtain ⟨parts, text, short⟩ := accepted.text
  refine length_le_of_infix_dotted noDot parts short (inside.trans ?_)
  rw [text]
  exact ((List.takeWhile_prefix _).isInfix).trans (List.dropLast_prefix _).isInfix

/-- An accepted name contains no NUL. -/
theorem Accepted.nul_not_mem {buffer : List UInt8} {query : ParsedQuery}
    (accepted : Accepted buffer query) : 0 ∉ query.domain := by
  obtain ⟨parts, text, _⟩ := accepted.text
  rw [text]
  intro member
  simpa using List.mem_takeWhile_imp member

/-! ## Asking a question -/

/-- The bytes of a query: a header, a name, a type and the class of the
Internet. -/
def queryBytes (name : Name) (qtype : Nat) : List UInt8 :=
  [0, 1, 1, 0, 0, 1, 0, 0, 0, 0, 0, 0] ++ (name.encode ++ (htons qtype ++ htons 1))

/-- A query for a legal name is a well-formed question. -/
theorem questionAt_queryBytes {name : Name} {qtype : Nat} (nonempty : name ≠ [])
    (legal : ∀ label ∈ name, LegalLabel label) (short : name.octets ≤ 255)
    (small : qtype < 2 ^ 16) : QuestionAt (queryBytes name qtype) name qtype 1 where
  nonempty := nonempty
  legal := legal
  short := short
  layout := ⟨[], by simp [queryBytes]⟩
  qtype_lt := small
  qclass_lt := by decide

end DnsServer
