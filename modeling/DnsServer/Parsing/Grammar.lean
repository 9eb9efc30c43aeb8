import DnsServer.Parsing.Question

/-!
# Which datagrams are accepted

The label loop stops in front of a zero byte, or when `domain` is full. In the
first case the datagram holds a well-formed question. In the second case the
labels fill `domain` (`Filling`): one of them reaches its last byte, the input
position stands somewhere behind that point, and the type and the class are read
there, whatever the bytes are.

A datagram is accepted exactly in these two cases (`parseDNSQuery_accepts_iff`).
The parser therefore reads the question grammar exactly when the labels do not
fill `domain` and none of them contains a NUL, which would end the text of the
name (`parsesGrammar_iff`).
-/

set_option autoImplicit false

namespace DnsServer

open Libc Wire

/-! ## Labels that fill the output -/

/-- The labels from a position on fill the given room: those of `front` leave
some of it, and the label of length `len` behind them takes the rest. -/
structure Filling (buffer : List UInt8) (start room : Nat) (front : Name) (len : UInt8) : Prop where
  legal : ∀ label ∈ front, LegalLabel label
  here : ∃ rest, buffer.drop start = encodeLabels front ++ len :: rest
  nonzero : len ≠ 0
  short : len.toNat ≤ 63
  open_ : (encodeLabels front).length < room
  full : room ≤ (encodeLabels front).length + 1 + len.toNat

/-- Where the label that fills the room ends. -/
def fillingEnd (start : Nat) (front : Name) (len : UInt8) : Nat :=
  start + ((encodeLabels front).length + 1 + len.toNat)

section Loop

variable {domain_size : Nat} {buffer : List UInt8} {start last : Nat} {front : Name} {len : UInt8}
  {domain written : OutBuffer domain_size}

/-- **Labels that fill `domain`** are refused when the last of them is cut off by
the end of the datagram. Else the loop stops as soon as `domain` is full. -/
theorem labelLoop_filling (rounds : Nat)
    (filling : Filling buffer start (domain_size - 1 - domain.length) front len) :
    (buffer.length < fillingEnd start front len →
      labelLoop buffer domain_size (rounds + 2 + front.length) start domain = .ok none) ∧
    (fillingEnd start front len ≤ buffer.length → ∃ written : OutBuffer domain_size,
      written.length = domain_size - 1 ∧
        labelLoop buffer domain_size (rounds + 2 + front.length) start domain =
          .ok (some (start + (domain_size - 1 - domain.length), written))) := by
  obtain ⟨rest, here⟩ := filling.here
  have room := filling.open_
  have full := filling.full
  obtain ⟨copied, bytes, run⟩ := labelLoop_labels front (rounds + 2) start domain _ filling.legal
    here (by omega)
  have length : copied.length = domain.length + (encodeLabels front).length := by
    have := congrArg List.length bytes
    simpa [OutBuffer.length] using this
  have there : buffer[start + (encodeLabels front).length]? = some len := by
    rw [← List.head?_drop, ← List.drop_drop, here, List.drop_left]
    rfl
  obtain ⟨refuse, accept⟩ := labelLoop_round (rounds + 1) copied there filling.nonzero (by omega)
  rw [run]
  refine ⟨fun cut => refuse (.inr (by simp only [fillingEnd] at cut; omega)), fun inside => ?_⟩
  obtain ⟨written, writtenBytes, step⟩ := accept filling.short
    (by simp only [fillingEnd] at inside; omega)
  have part : min len.toNat (domain_size - 2 - copied.length) = domain_size - 2 - copied.length := by
    omega
  rw [part] at writtenBytes step
  have size : written.length = domain_size - 1 := by
    have sizes := congrArg List.length writtenBytes
    simp only [List.length_append, List.length_take, List.length_drop, List.length_singleton]
      at sizes
    simp only [fillingEnd] at inside
    simp only [OutBuffer.length] at length sizes full room ⊢
    omega
  refine ⟨written, size, ?_⟩
  rw [step, labelLoop_stop (.inr (.inr (by omega)))]
  congr 3
  omega

/-- A label in front of labels that fill the room behind it. -/
theorem Filling.cons {room : Nat} {first : UInt8} (there : buffer[start]? = some first)
    (nonzero : first ≠ 0) (short : first.toNat ≤ 63)
    (inside : start + 1 + first.toNat ≤ buffer.length)
    (filling : Filling buffer (start + 1 + first.toNat) room front len)
    (ends : fillingEnd (start + 1 + first.toNat) front len ≤ buffer.length) :
    Filling buffer start (room + (first.toNat + 1))
        ((buffer.drop (start + 1)).take first.toNat :: front) len ∧
      fillingEnd start ((buffer.drop (start + 1)).take first.toNat :: front) len ≤
        buffer.length := by
  obtain ⟨here, rfl⟩ := List.getElem?_eq_some_iff.mp there
  have size : ((buffer.drop (start + 1)).take buffer[start].toNat).length =
      buffer[start].toNat := by
    simp
    omega
  obtain ⟨rest, behind⟩ := filling.here
  have rejoin := List.take_append_drop buffer[start].toNat (buffer.drop (start + 1))
  rw [List.drop_drop, behind] at rejoin
  have positive : 1 ≤ buffer[start].toNat := by
    by_contra small
    exact nonzero (UInt8.toNat_inj.mp (by simp; omega))
  have open_ := filling.open_
  have filled := filling.full
  refine ⟨
    { legal := List.forall_mem_cons.mpr ⟨⟨by omega, by omega⟩, filling.legal⟩
      here := ⟨rest, ?_⟩
      nonzero := filling.nonzero
      short := filling.short
      open_ := ?_
      full := ?_ }, ?_⟩
  · rw [encodeLabels_cons, size, UInt8.ofNat_toNat, List.cons_append, List.append_assoc, rejoin]
    exact List.drop_eq_getElem_cons here
  · rw [encodeLabels_cons, List.length_cons, List.length_append, size]
    omega
  · rw [encodeLabels_cons, List.length_cons, List.length_append, size]
    omega
  · simp only [fillingEnd] at ends ⊢
    rw [encodeLabels_cons, List.length_cons, List.length_append, size]
    omega

/-- **A loop that has filled `domain`** has passed such labels, the last of which
ends inside the datagram. The induction is on the rounds. -/
theorem filling_of_labelLoop :
    ∀ (rounds start : Nat) (domain : OutBuffer domain_size), domain.length < domain_size - 1 →
      labelLoop buffer domain_size rounds start domain = .ok (some (last, written)) →
      domain_size - 1 ≤ written.length → ∃ front len,
        Filling buffer start (domain_size - 1 - domain.length) front len ∧
          fillingEnd start front len ≤ buffer.length := by
  intro rounds
  induction rounds with
  | zero =>
      intro start domain _ run
      cases run
  | succ rounds ih =>
      intro start domain room run full
      by_cases stop : buffer.length ≤ start ∨ buffer[start]? = some 0 ∨
          domain_size - 1 ≤ domain.length
      · rw [labelLoop_stop stop] at run
        cases run
        omega
      · push Not at stop
        obtain ⟨here, nonzero, _⟩ := stop
        have there : buffer[start]? = some buffer[start] := List.getElem?_eq_getElem here
        have lenNonzero : buffer[start] ≠ 0 := fun zero => nonzero (there.trans (congrArg some zero))
        obtain ⟨refuse, accept⟩ := labelLoop_round rounds domain there lenNonzero room
        by_cases refused : 63 < buffer[start].toNat ∨ buffer.length < start + 1 + buffer[start].toNat
        · rw [refuse refused] at run
          cases run
        push Not at refused
        obtain ⟨short, inside⟩ := refused
        obtain ⟨copied, bytes, step⟩ := accept short inside
        rw [step] at run
        by_cases fills : domain_size - 1 - domain.length ≤ 1 + buffer[start].toNat
        · exact ⟨[], buffer[start],
            { legal := by simp
              here := ⟨_, List.drop_eq_getElem_cons here⟩
              nonzero := lenNonzero
              short
              open_ := by simp; omega
              full := by simpa using fills },
            by simp only [fillingEnd, encodeLabels_nil, List.length_nil]; omega⟩
        · have whole : min buffer[start].toNat (domain_size - 2 - domain.length) =
              buffer[start].toNat := by omega
          rw [whole] at bytes run
          have length : copied.length = domain.length + buffer[start].toNat + 1 := by
            have := congrArg List.length bytes
            simp [OutBuffer.length] at this ⊢
            omega
          obtain ⟨front, len, filling, ends⟩ := ih _ copied (by omega) run full
          obtain ⟨longer, inside⟩ := filling.cons there lenNonzero short inside ends
          have grown : domain_size - 1 - domain.length =
              domain_size - 1 - copied.length + (buffer[start].toNat + 1) := by omega
          rw [grown]
          exact ⟨_, len, longer, inside⟩

end Loop

/-! ## What is accepted -/

section Parser

variable {buffer : List UInt8} {front : Name} {len : UInt8}

/-- The labels of the question fill the 255 bytes that `domain` has in front of
its NUL, the last of them is complete, and behind the byte at which the loop
stops there are five more. -/
def OverfullQuestion (buffer : List UInt8) : Prop :=
  ∃ front len, Filling buffer 12 255 front len ∧ fillingEnd 12 front len ≤ buffer.length ∧
    272 ≤ buffer.length

/-- Labels that fill `domain` are accepted when the last of them is complete and
there are five bytes behind the byte at which the loop stops, whatever these
are. -/
theorem Filling.parseDNSQuery_eq (filling : Filling buffer 12 255 front len) :
    (fillingEnd 12 front len ≤ buffer.length → 272 ≤ buffer.length →
      ∃ query, parseDNSQuery buffer 256 16 = .ok (some query) ∧ query.query_len = 260 ∧
        readShort buffer 268 = .ok query.queryType) ∧
    (buffer.length < fillingEnd 12 front len ∨ buffer.length < 272 →
      parseDNSQuery buffer 256 16 = .ok none) := by
  obtain ⟨rest, here⟩ := filling.here
  have sizes := congrArg List.length here
  have labels := length_lt_octets front
  simp only [List.length_drop, List.length_append, List.length_cons, Name.octets] at sizes labels
  have past : 12 < buffer.length := by omega
  obtain ⟨rounds, enough⟩ : ∃ rounds, buffer.length + 1 = rounds + 2 + front.length :=
    ⟨buffer.length + 1 - 2 - front.length, by omega⟩
  obtain ⟨refuse, accept⟩ := @labelLoop_filling 256 _ _ _ _ OutBuffer.empty rounds
    filling
  have stop : 12 + (256 - 1 - (OutBuffer.empty : OutBuffer 256).length) = 267 := rfl
  rw [← enough] at refuse accept
  rw [stop] at accept
  by_cases cut : buffer.length < fillingEnd 12 front len
  · refine ⟨fun inside => by omega, fun _ => ?_⟩
    rw [parseDNSQuery, parseDNSQueryInto, if_neg (by omega), refuse cut]
    rfl
  · obtain ⟨written, full, run⟩ := accept (Nat.le_of_not_lt cut)
    have parse := parseDNSQuery_exit past run
    rw [if_pos (by omega)] at parse
    refine ⟨fun _ large => ?_, fun short => ?_⟩
    · obtain ⟨qtype, qtypeLt, typeHere⟩ := @drop_eq_htons buffer 268 (by omega)
      obtain ⟨qclass, qclassLt, classHere⟩ := @drop_eq_htons buffer 270 (by omega)
      rw [if_neg (by omega), readShort_of_drop qtypeLt typeHere, Checked.ok_bind,
        readShort_of_drop qclassLt classHere, Checked.ok_bind] at parse
      exact ⟨_, parse, rfl, readShort_of_drop qtypeLt typeHere⟩
    · rw [parse, if_pos (by omega)]

/-- An accepted datagram has gone through the label loop, and its fields are
taken from where the loop stopped. -/
theorem parseDNSQuery_written {query : ParsedQuery}
    (parsed : parseDNSQuery buffer 256 16 = .ok (some query)) :
    ∃ (last : Nat) (written : OutBuffer 256),
      labelLoop buffer 256 (buffer.length + 1) 12 OutBuffer.empty = .ok (some (last, written)) ∧
        last = 12 + written.length ∧ 0 < written.length ∧ written.length < 256 ∧
        last + 5 ≤ buffer.length ∧ query.domain = cutAtNul written.bytes.dropLast ∧
        query.query_len = last + 5 - 12 := by
  have inside := (parseDNSQuery_accepted parsed).inside
  have large : 12 < buffer.length := by
    by_contra tiny
    rw [parseDNSQuery, parseDNSQueryInto, if_pos (by omega)] at parsed
    cases parsed
  rcases labelLoop_exit buffer (buffer.length + 1) 12 (OutBuffer.empty : OutBuffer 256)
    (by omega) (by omega) with refusal | ⟨last, written, run, exit⟩
  · rw [parseDNSQuery, parseDNSQueryInto, if_neg (by omega), refusal] at parsed
    cases parsed
  have together := exit.together
  simp only [OutBuffer.length_empty] at together
  have parse := parseDNSQuery_exit large run
  rw [parsed] at parse
  split at parse
  swap
  · cases parse
  next bounds =>
  split at parse
  · cases parse
  refine ⟨last, written, run, by omega, bounds.1, bounds.2, by omega, ?_⟩
  obtain ⟨qtype, qtypeLt, typeHere⟩ := @drop_eq_htons buffer (last + 1) (by omega)
  obtain ⟨qclass, qclassLt, classHere⟩ := @drop_eq_htons buffer (last + 1 + 2) (by omega)
  rw [readShort_of_drop qtypeLt typeHere, Checked.ok_bind, readShort_of_drop qclassLt classHere,
    Checked.ok_bind] at parse
  cases parse
  exact ⟨rfl, rfl⟩

/-- **A datagram is accepted** exactly when it holds a well-formed question, or
labels that fill `domain`. -/
theorem parseDNSQuery_accepts_iff (buffer : List UInt8) :
    (∃ query, parseDNSQuery buffer 256 16 = .ok (some query)) ↔
      (∃ name qtype qclass, QuestionAt buffer name qtype qclass) ∨ OverfullQuestion buffer := by
  constructor
  · rintro ⟨query, parsed⟩
    rcases (parseDNSQuery_accepted parsed).question with ⟨name, qtype, qclass, question, _⟩ | ⟨long, _⟩
    · exact .inl ⟨name, qtype, qclass, question⟩
    -- a `query_len` of 260 says that `domain` is full
    obtain ⟨last, written, run, _, _, _, inside, _, passed⟩ := parseDNSQuery_written parsed
    obtain ⟨front, len, filling, ends⟩ := filling_of_labelLoop _ _ _
      (by simp only [OutBuffer.length_empty]; omega) run (by omega)
    exact .inr ⟨front, len, filling, ends, by omega⟩
  · rintro (⟨name, qtype, qclass, question⟩ | ⟨front, len, filling, ends, large⟩)
    · exact ⟨_, parseDNSQuery_of_question question⟩
    · obtain ⟨query, parsed, _⟩ := filling.parseDNSQuery_eq.1 ends large
      exact ⟨query, parsed⟩

/-- A well-formed question does not fill `domain`. -/
theorem QuestionAt.not_overfull {name : Name} {qtype qclass : Nat}
    (question : QuestionAt buffer name qtype qclass) : ¬ OverfullQuestion buffer := by
  rintro ⟨front, len, filling, ends, large⟩
  obtain ⟨query, parsed, long, _⟩ := filling.parseDNSQuery_eq.1 ends large
  rw [parseDNSQuery_of_question question, Except.ok.injEq, Option.some.injEq] at parsed
  have short := question.short
  rw [← parsed] at long
  simp only [parsedQuestion] at long
  omega

/-- A datagram holds at most one question. -/
theorem QuestionAt.unique {name other : Name} {qtype qclass otherType otherClass : Nat}
    (question : QuestionAt buffer name qtype qclass)
    (another : QuestionAt buffer other otherType otherClass) :
    name = other ∧ qtype = otherType := by
  obtain ⟨_, layout⟩ := question.layout
  obtain ⟨_, otherLayout⟩ := another.layout
  have names := (decodeName_encode question.legal layout).symm.trans
    (decodeName_encode another.legal otherLayout)
  rw [Option.some.injEq, Prod.mk.injEq] at names
  have parsed := (parseDNSQuery_of_question question).symm.trans (parseDNSQuery_of_question another)
  rw [Except.ok.injEq, Option.some.injEq] at parsed
  exact ⟨names.1, congrArg ParsedQuery.queryType parsed⟩

end Parser

/-! ## The question grammar -/

/-- The parser reads the question grammar: it accepts exactly the datagrams with
a well-formed question, and hands back the whole name, its type and its
length. -/
structure ParsesGrammar (buffer : List UInt8) : Prop where
  accepts : (∃ query, parseDNSQuery buffer 256 16 = .ok (some query)) ↔
    ∃ name qtype qclass, QuestionAt buffer name qtype qclass
  fields : ∀ query, parseDNSQuery buffer 256 16 = .ok (some query) →
    ∃ name qtype qclass, QuestionAt buffer name qtype qclass ∧ query.domain = joinDots name ∧
      query.queryType = qtype ∧ query.query_len = name.octets + 4

/-- A dotted text has the bytes of its labels, and dots. -/
theorem mem_joinDots_iff {name : Name} {c : UInt8} (notDot : c ≠ 46) :
    c ∈ joinDots name ↔ ∃ label ∈ name, c ∈ label := by
  induction name with
  | nil => simp [joinDots]
  | cons label name ih =>
      cases name with
      | nil => simp [joinDots]
      | cons next name =>
          have step : joinDots (label :: next :: name) = label ++ 46 :: joinDots (next :: name) := by
            simp [joinDots]
          rw [step, List.mem_append, List.mem_cons, ih, List.exists_mem_cons_iff]
          simp [notDot]

/-- **The parser reads the question grammar** exactly when the labels of the
datagram do not fill `domain` and its question, if it has one, contains no
NUL. -/
theorem parsesGrammar_iff (buffer : List UInt8) :
    ParsesGrammar buffer ↔
      ¬ OverfullQuestion buffer ∧
        ∀ name qtype qclass, QuestionAt buffer name qtype qclass → ∀ label ∈ name, 0 ∉ label := by
  have whole : ∀ {name : Name}, cutAtNul (joinDots name) = joinDots name ↔
      ∀ label ∈ name, 0 ∉ label := by
    intro name
    rw [cutAtNul_eq_self_iff, mem_joinDots_iff (by decide)]
    simp
  constructor
  · intro grammar
    refine ⟨fun overfull => ?_, fun name qtype qclass question => ?_⟩
    · have accepted := (parseDNSQuery_accepts_iff buffer).mpr (.inr overfull)
      obtain ⟨name, qtype, qclass, question⟩ := grammar.accepts.mp accepted
      exact question.not_overfull overfull
    · obtain ⟨other, otherType, otherClass, another, text, _⟩ := grammar.fields _
        (parseDNSQuery_of_question question)
      rw [← (question.unique another).1] at text
      exact whole.mp text
  · rintro ⟨notOverfull, clean⟩
    have accepts := parseDNSQuery_accepts_iff buffer
    refine ⟨accepts.trans (or_iff_left notOverfull), fun query parsed => ?_⟩
    obtain ⟨name, qtype, qclass, question⟩ := (accepts.mp ⟨query, parsed⟩).resolve_right notOverfull
    rw [parseDNSQuery_of_question question, Except.ok.injEq, Option.some.injEq] at parsed
    subst parsed
    exact ⟨name, qtype, qclass, question, whole.mpr (clean name qtype qclass question), rfl, rfl⟩

/-- The name of a query whose label contains a NUL is handed back in part. -/
theorem not_parsesGrammar_of_nul :
    ¬ ∀ buffer : List UInt8, ParsesGrammar buffer := by
  intro all
  obtain ⟨name, qtype, qclass, question, text, _, length⟩ :=
    (all (queryBytes [[97, 0, 98]] DNS_TYPE_A)).fields
      { domain := cstr "a", queryType := DNS_TYPE_A, typeString := cstr "A", query_len := 9 } (by decide)
  have sizes := length_encodeLabels_joinDots question.nonempty
  rw [← text] at sizes
  simp only [Name.octets, sizes] at length
  exact absurd length (by decide)

end DnsServer
