import DnsServer.Answering.Reading
import DnsServer.Parsing.Grammar

/-!
# The buffers of the query path

Between `recvfrom` and `sendto` a query passes through eight buffers of fixed
size. The sizes are defended by checks in four functions, and a check in one of
them relies on what another one has established: the parser bounds the name, the
name bounds the tokens and the scratch buffer of the wildcard search, and
`query_len` bounds the response in front of the answers.

Each buffer of the model has the capacity it is declared with, whatever size is
passed along with it, and a write beyond it is a fault, as is a read of the request
beyond its end. `queryPath_safe` says that no part of the path has a fault, for every
datagram, every store and every environment, and what it leaves in the buffers.
-/

set_option autoImplicit false

namespace DnsServer

open Libc Wire

/-- What the query path does with a datagram stays inside its buffers. Reads of
the request and writes to the buffers are checked, so a computation that returns
has made no access outside. The whole path is `processDnsQuery`; its parts are safe
for any arguments that reach them. -/
structure QueryPathSafe (env : Environment) (store : Store) (datagram : Datagram) : Prop where
  /-- `domain` and `typeString`. -/
  parsing : ∃ parsed, parseDNSQueryInto datagram.bytes (OutBuffer.empty : OutBuffer 256) 256
    (OutBuffer.empty : OutBuffer 16) 16 = .ok parsed
  /-- The NUL takes the place of the last byte that the loop wrote. -/
  domain_terminated : ∀ query, parseDNSQuery datagram.bytes 256 16 = .ok (some query) →
    ∃ (last : Nat) (domain : OutBuffer 256),
      labelLoop datagram.bytes 256 (datagram.bytes.length + 1) 12 OutBuffer.empty =
        .ok (some (last, domain)) ∧ 0 < domain.length ∧ domain.length < 256 ∧
      query.domain = cutAtNul (domain.bytes.set (domain.length - 1) 0) ∧
      query.domain.length < domain.length
  typeString : ∀ query, parseDNSQuery datagram.bytes 256 16 = .ok (some query) →
    query.typeString.length < 16
  inside : ∀ query, parseDNSQuery datagram.bytes 256 16 = .ok (some query) →
    12 + query.query_len ≤ datagram.bytes.length
  /-- `domain_copy`, `labels` and `wildcard_domain`. -/
  resolving : ∀ domain type, ∃ found, resolveRecord store domain type = .ok found
  copying : ∀ domain, ∃ domain_copy, copyDomain domain = .ok domain_copy ∧
    domain_copy.length < 256
  tokens : ∀ domain_copy, ∃ labels, storeLabels 10 domain_copy [] = .ok labels ∧
    labels.length ≤ 10
  /-- `dns_format` and `exchange_dns`. -/
  formatting : ∀ text, ∃ written,
    domainToDNSFormatInto text (OutBuffer.empty : OutBuffer 256) 256 = .ok written ∧
      ∀ bytes, written = some bytes → bytes.length ≤ 256
  /-- `exchange_str`. -/
  exchange : ∀ value preference exchange_str,
    scanPreference value = some (preference, exchange_str) → exchange_str.length < 256
  answering : ∀ query values (response : Response), ∃ ended,
    answerLoop env query values response = .ok ended
  sending : ∃ sent, processDnsQuery env store datagram.bytes = .ok sent ∧
    ∀ response, sent = some response → 12 ≤ response.length ∧ response.length ≤ 512

section Sent

variable {env : Environment} {store : Store} {buffer : List UInt8} {query : ParsedQuery}

/-- **An accepted query is answered**, by a header, its question, and answers that
leave the response inside its 512 bytes. -/
theorem processDnsQuery_sent (env : Environment) (store : Store)
    (parsed : parseDNSQuery buffer 256 16 = .ok (some query)) :
    ∃ request rcode ancount answers,
      processDnsQuery env store buffer =
        .ok (some (replyBytes request buffer query rcode ancount answers)) ∧
      12 + query.query_len + answers.length ≤ 512 := by
  have accepted := parseDNSQuery_accepted parsed
  have bounded := accepted.bounded
  obtain ⟨request, decoded⟩ := accepted.decodeHeader
  cases found : lookup store query.domain query.typeString with
  | none =>
      exact ⟨request, _, _, _, processDnsQuery_unresolved parsed decoded found,
        by simp only [List.length_nil]; omega⟩
  | some record =>
      by_cases answered : query.typeString ∈ answeredTypes
      · exact ⟨request, _, _, _, processDnsQuery_answered parsed decoded found answered,
          length_writtenAnswers accepted.fits⟩
      · have sent := @processDnsQuery_other env _ _ _ _ _ parsed decoded found answered
        by_cases empty : record.values = []
        · rw [if_pos empty] at sent
          exact ⟨request, _, _, _, sent, by simp only [List.length_nil]; omega⟩
        · rw [if_neg empty] at sent
          exact ⟨request, _, _, _, sent, by rw [length_answerHead]; omega⟩

end Sent

theorem length_typeName_lt (queryType : Nat) : (snprintf 16 (typeName queryType)).length < 16 := by
  rw [snprintf, List.length_take]
  omega

theorem length_scanWord {width : Nat} {text word : CString}
    (scanned : scanWord width text = some word) : word.length ≤ width := by
  simp only [scanWord] at scanned
  split at scanned
  · cases scanned
  · cases scanned
    exact List.length_take_le _ _

theorem scanPreference_length {value exchange_str : CString} {preference : Nat}
    (scanned : scanPreference value = some (preference, exchange_str)) :
    exchange_str.length ≤ 255 := by
  simp only [scanPreference, Option.bind_eq_bind, Option.bind_eq_some_iff, Prod.exists] at scanned
  obtain ⟨_, _, _, word, found, result⟩ := scanned
  cases result
  exact length_scanWord found

/-- A NUL at the place of the last byte ends the text in front of it. -/
theorem cutAtNul_set_last {bytes : List UInt8} (nonempty : bytes ≠ []) :
    cutAtNul (bytes.set (bytes.length - 1) 0) = cutAtNul bytes.dropLast := by
  obtain ⟨front, last, rfl⟩ : ∃ front last, bytes = front ++ [last] :=
    ⟨_, _, (List.dropLast_append_getLast nonempty).symm⟩
  have place : (front ++ [last]).length - 1 = front.length := by simp
  rw [place, List.set_append_right _ _ (le_refl front.length), Nat.sub_self, List.dropLast_concat]
  exact cutAtNul_concat_nul front

/-- **The query path stays inside its buffers**, for every datagram and every
store. -/
theorem queryPath_safe (env : Environment) (store : Store) (datagram : Datagram) :
    QueryPathSafe env store datagram where
  parsing := parseDNSQuery_safe datagram.bytes
  domain_terminated query parsed := by
    obtain ⟨last, written, run, _, positive, small, _, text, _⟩ := parseDNSQuery_written parsed
    have nonempty : written.bytes ≠ [] := List.length_pos_iff.mp positive
    refine ⟨last, written, run, positive, small, ?_, ?_⟩
    · exact text.trans (cutAtNul_set_last nonempty).symm
    · have cut := length_cutAtNul_le written.bytes.dropLast
      rw [List.length_dropLast] at cut
      rw [text]
      simp only [OutBuffer.length] at positive ⊢
      omega
  typeString query parsed := by
    rw [(parseDNSQuery_accepted parsed).typeString_eq]
    exact length_typeName_lt _
  inside query parsed := (parseDNSQuery_accepted parsed).inside
  resolving domain type := ⟨_, resolveRecord_eq store domain type⟩
  copying domain := ⟨_, copyDomain_eq domain, Nat.lt_succ_of_le (List.length_take_le _ _)⟩
  tokens domain_copy := ⟨_, storeLabels_nil domain_copy, length_tokenLabels_le 10 _⟩
  formatting text := by
    refine ⟨_, domainToDNSFormat_eq text 256, fun bytes encoded => ?_⟩
    split at encoded
    · next fits =>
      cases encoded
      have total := length_encodeLabels_splitDots text
      have room := fits.2
      rw [length_encode, Name.octets]
      omega
    · cases encoded
  exchange value preference exchange_str scanned := Nat.lt_succ_of_le (scanPreference_length scanned)
  answering query values response := by
    by_cases answered : query.typeString ∈ answeredTypes
    · obtain ⟨written, run, _⟩ := answerLoop_eq env answered values response
      exact ⟨_, run⟩
    · rcases answerLoop_other env answered values response with ⟨_, run⟩ | ⟨_, _, written, run, _⟩
      · exact ⟨_, run⟩
      · exact ⟨_, run⟩
  sending := by
    rcases parseDNSQuery_cases datagram.bytes with refused | ⟨query, parsed, accepted⟩
    · exact ⟨none, processDnsQuery_refused refused, fun response sent => by cases sent⟩
    · obtain ⟨request, rcode, ancount, answers, sent, fits⟩ := processDnsQuery_sent env store parsed
      refine ⟨_, sent, fun response same => ?_⟩
      cases same
      rw [accepted.length_replyBytes]
      omega

end DnsServer
