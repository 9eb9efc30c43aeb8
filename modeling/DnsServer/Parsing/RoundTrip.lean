import DnsServer.Parsing.DomainFormat
import DnsServer.Parsing.Grammar

/-!
# Names on the wire and names as text

The parser turns the labels of a question into a dotted text, and the encoder turns
a dotted text into labels. A text that can be encoded is read back from any datagram
that carries its encoding, up to the longest one of 254 bytes
(`parseDNSQuery_encoded`).

The other way round, the text has no place for a dot or a NUL inside a label, and
`domain` has none for a name of more than 256 octets. The bytes of an accepted name
come back exactly when the datagram has a `PlainName` (`reencodes_iff`). Names that
are not plain are handed back as the text of another name.
-/

set_option autoImplicit false

namespace DnsServer

open Libc Wire

/-! ## From a text to the wire and back -/

/-- **Parsing undoes encoding**, whatever header stands in front of the name and
whatever follows the type and the class. -/
theorem parseDNSQuery_encoded {domain : CString} {header dns_format : List UInt8}
    (qtype qclass : UInt16) (trailing : List UInt8) (noNul : 0 ∉ domain)
    (header_length : header.length = 12)
    (encoded : domainToDNSFormat domain 256 = .ok (some dns_format)) :
    ∃ query, parseDNSQuery (header ++ (dns_format ++ (htons qtype.toNat ++ (htons qclass.toNat ++
        trailing)))) 256 16 = .ok (some query) ∧
      query.domain = domain ∧ query.queryType = qtype.toNat ∧
        query.query_len = dns_format.length + 4 := by
  rw [domainToDNSFormat_eq, Except.ok.injEq, Option.ite_none_right_eq_some, Option.some.injEq]
    at encoded
  obtain ⟨⟨legal, short⟩, rfl⟩ := encoded
  have octets : (splitDots domain).octets = domain.length + 2 := by
    rw [Name.octets, length_encodeLabels_splitDots]
  have layout : (header ++ ((splitDots domain).encode ++ (htons qtype.toNat ++
      (htons qclass.toNat ++ trailing)))).drop 12 =
        (splitDots domain).encode ++ (htons qtype.toNat ++ htons qclass.toNat ++ trailing) := by
    rw [List.drop_left' header_length, List.append_assoc]
  have nonempty : splitDots domain ≠ [] := List.splitOn_ne_nil 46 domain
  refine ⟨_, parseDNSQuery_of_layout nonempty legal (octets ▸ short) ⟨trailing, layout⟩
    qtype.toNat_lt qclass.toNat_lt, ?_, rfl, ?_⟩
  · rw [parsedQuestion, joinDots_splitDots]
    exact cutAtNul_eq_self_iff.mpr noNul
  · rw [length_encode]
    rfl

/-- The longest name: three labels of 63 bytes and one of 62. -/
def longestText : CString :=
  List.replicate 63 97 ++ 46 :: (List.replicate 63 97 ++ 46 :: (List.replicate 63 97 ++ 46 ::
    List.replicate 62 97))

theorem parseDNSQuery_encoded_longest :
    ∃ query, parseDNSQuery (List.replicate 12 0 ++ ((splitDots longestText).encode ++
        (htons (1 : UInt16).toNat ++ (htons (1 : UInt16).toNat ++ [])))) 256 16 = .ok (some query) ∧
      query.domain = longestText ∧ query.queryType = (1 : UInt16).toNat ∧
        query.query_len = (splitDots longestText).encode.length + 4 :=
  parseDNSQuery_encoded 1 1 [] (by decide +kernel) rfl (by
    rw [domainToDNSFormat_eq, if_pos (by decide +kernel)])

/-! ## From the wire to a text and back -/

/-- The bytes of the name in an accepted datagram. -/
def questionName (buffer : List UInt8) (query : ParsedQuery) : List UInt8 :=
  (buffer.drop 12).take (query.query_len - 4)

/-- Encoding the text the parser hands back gives the bytes of the name. -/
def Reencodes (buffer : List UInt8) (query : ParsedQuery) : Prop :=
  domainToDNSFormat query.domain 256 = .ok (some (questionName buffer query))

/-- The datagram has a name of at most 256 octets, whose labels contain neither a
dot nor a NUL. -/
def PlainName (buffer : List UInt8) : Prop :=
  ∃ name : Name, (∀ label ∈ name, LegalLabel label ∧ 46 ∉ label ∧ 0 ∉ label) ∧
    name.octets ≤ 256 ∧ ∃ rest, buffer.drop 12 = name.encode ++ rest

section Accepted

variable {buffer : List UInt8} {query : ParsedQuery}

/-- A name that comes back is the plain name of its text. -/
theorem Reencodes.plainName (reencodes : Reencodes buffer query)
    (parsed : parseDNSQuery buffer 256 16 = .ok (some query)) : PlainName buffer := by
  have noNul := (parseDNSQuery_accepted parsed).nul_not_mem
  rw [Reencodes, domainToDNSFormat_eq, Except.ok.injEq, Option.ite_none_right_eq_some,
    Option.some.injEq] at reencodes
  obtain ⟨⟨legal, short⟩, bytes⟩ := reencodes
  refine ⟨splitDots query.domain, fun label member => ?_, ?_, ?_⟩
  · obtain ⟨noDot, inside⟩ := mem_of_mem_splitDots member
    exact ⟨legal label member, noDot, fun zero => noNul (inside 0 zero)⟩
  · rwa [Name.octets, length_encodeLabels_splitDots]
  · exact ⟨(buffer.drop 12).drop (query.query_len - 4), by
      rw [bytes, questionName, List.take_append_drop]⟩

/-- An accepted name for which `domain` has room is followed by a type and a
class. -/
theorem layout_of_accepted {name : Name} {rest : List UInt8}
    (parsed : parseDNSQuery buffer 256 16 = .ok (some query))
    (legal : ∀ label ∈ name, LegalLabel label) (short : name.octets ≤ 256)
    (here : buffer.drop 12 = name.encode ++ rest) :
    ∃ qtype qclass, qtype < 2 ^ 16 ∧ qclass < 2 ^ 16 ∧ name ≠ [] ∧
      ∃ behind, buffer.drop 12 = name.encode ++ (htons qtype ++ htons qclass ++ behind) := by
  obtain ⟨last, written, run, started, positive, _, inside, _⟩ := parseDNSQuery_written parsed
  have sizes := congrArg List.length here
  have labels := length_lt_octets name
  simp only [List.length_drop, List.length_append, length_encode] at sizes
  obtain ⟨other, bytes, passed⟩ := labelLoop_name name (buffer.length + 1) 12
    (OutBuffer.empty : OutBuffer 256) rest legal (by simpa [Name.encode] using here) (by omega) (by
      simp only [Name.octets] at short
      simp only [OutBuffer.length_empty]
      omega)
  rw [passed, Except.ok.injEq, Option.some.injEq, Prod.mk.injEq] at run
  obtain ⟨rfl, rfl⟩ := run
  simp only [Name.octets] at sizes
  obtain ⟨qtype, qtypeLt, typeHere⟩ := @drop_eq_htons rest 0 (by omega)
  obtain ⟨qclass, qclassLt, classHere⟩ := @drop_eq_htons rest 2 (by omega)
  refine ⟨qtype, qclass, qtypeLt, qclassLt, ?_, rest.drop 4, ?_⟩
  · rintro rfl
    simp [OutBuffer.length, bytes, dotted] at positive
  · rw [here, List.append_assoc, ← classHere, ← typeHere, List.drop_zero]

/-- **A plain name comes back.** -/
theorem PlainName.reencodes (plain : PlainName buffer)
    (parsed : parseDNSQuery buffer 256 16 = .ok (some query)) : Reencodes buffer query := by
  obtain ⟨name, labels, short, rest, here⟩ := plain
  have legal : ∀ label ∈ name, LegalLabel label := fun label member => (labels label member).1
  obtain ⟨qtype, qclass, qtypeLt, qclassLt, nonempty, layout⟩ :=
    layout_of_accepted parsed legal short here
  rw [parseDNSQuery_of_layout nonempty legal short layout qtypeLt qclassLt, Except.ok.injEq,
    Option.some.injEq] at parsed
  subst parsed
  have noNul : cutAtNul (joinDots name) = joinDots name := by
    rw [cutAtNul_eq_self_iff, mem_joinDots_iff (by decide)]
    rintro ⟨label, member, zero⟩
    exact (labels label member).2.2 zero
  have split : splitDots (joinDots name) = name :=
    splitDots_joinDots nonempty fun label member => (labels label member).2.1
  have size : name.octets = (joinDots name).length + 2 := by
    rw [Name.octets, length_encodeLabels_joinDots nonempty]
  have fits : Encodable 256 (joinDots name) := ⟨by rwa [split], size ▸ short⟩
  rw [Reencodes, parsedQuestion, noNul, domainToDNSFormat_eq, if_pos fits, split, questionName, here,
    Nat.add_sub_cancel, ← length_encode, List.take_left]

end Accepted

/-- **The bytes of an accepted name come back** exactly when the name is plain. So
two plain names that are handed back as one text are one name. -/
theorem reencodes_iff (buffer : List UInt8) :
    (∀ query, parseDNSQuery buffer 256 16 = .ok (some query) →
      (Reencodes buffer query ↔ PlainName buffer)) ∧
    ∀ (second : List UInt8) (query other : ParsedQuery),
      parseDNSQuery buffer 256 16 = .ok (some query) →
      parseDNSQuery second 256 16 = .ok (some other) →
      PlainName buffer → PlainName second → query.domain = other.domain →
        questionName buffer query = questionName second other := by
  constructor
  · intro query parsed
    exact ⟨fun reencodes => reencodes.plainName parsed, fun plain => plain.reencodes parsed⟩
  · intro second query other parsed otherParsed plain otherPlain same
    have one := plain.reencodes parsed
    have another := otherPlain.reencodes otherParsed
    rw [Reencodes, same, another, Except.ok.injEq, Option.some.injEq] at one
    exact one.symm

theorem reencodes_iff_address :
    Reencodes (queryBytes [cstr "a"] DNS_TYPE_A) (parsedQuestion [cstr "a"] DNS_TYPE_A) ∧
      questionName (queryBytes [cstr "a"] DNS_TYPE_A) (parsedQuestion [cstr "a"] DNS_TYPE_A) =
        questionName (queryBytes [cstr "a"] DNS_TYPE_NS) (parsedQuestion [cstr "a"] DNS_TYPE_NS) :=
  have parsed : ∀ qtype, qtype < 2 ^ 16 → parseDNSQuery (queryBytes [cstr "a"] qtype) 256 16 =
      .ok (some (parsedQuestion [cstr "a"] qtype)) := fun _ small =>
    parseDNSQuery_of_question (questionAt_queryBytes (by decide) (by decide) (by decide) small)
  have plain : ∀ qtype, PlainName (queryBytes [cstr "a"] qtype) := fun qtype =>
    ⟨[cstr "a"], by decide, by decide, htons qtype ++ htons 1, rfl⟩
  ⟨((reencodes_iff _).1 _ (parsed DNS_TYPE_A (by decide))).mpr (plain DNS_TYPE_A),
    (reencodes_iff _).2 _ _ _ (parsed DNS_TYPE_A (by decide)) (parsed DNS_TYPE_NS (by decide))
      (plain DNS_TYPE_A) (plain DNS_TYPE_NS) rfl⟩

/-- A dot inside a label makes one name out of two: both questions are handed back
as the same text, and the bytes of the first do not come back. -/
theorem not_reencodes_of_dot :
    ¬ (∀ (buffer : List UInt8) (query : ParsedQuery),
      parseDNSQuery buffer 256 16 = .ok (some query) → Reencodes buffer query) ∧
    ¬ (∀ (first second : List UInt8) (query other : ParsedQuery),
      parseDNSQuery first 256 16 = .ok (some query) →
      parseDNSQuery second 256 16 = .ok (some other) → query.domain = other.domain →
        questionName first query = questionName second other) := by
  have dotted : parseDNSQuery (queryBytes [cstr "a.b"] DNS_TYPE_A) 256 16 =
      .ok (some (parsedQuestion [cstr "a.b"] DNS_TYPE_A)) :=
    parseDNSQuery_of_question
      (questionAt_queryBytes (by decide) (by decide) (by decide) (by decide))
  have plain : parseDNSQuery (queryBytes [cstr "a", cstr "b"] DNS_TYPE_A) 256 16 =
      .ok (some (parsedQuestion [cstr "a", cstr "b"] DNS_TYPE_A)) :=
    parseDNSQuery_of_question
      (questionAt_queryBytes (by decide) (by decide) (by decide) (by decide))
  constructor
  · intro all
    have bytes := all _ _ dotted
    rw [Reencodes, domainToDNSFormat_eq] at bytes
    revert bytes
    decide
  · intro all
    exact absurd (all _ _ _ _ dotted plain (by decide)) (by decide)

end DnsServer
