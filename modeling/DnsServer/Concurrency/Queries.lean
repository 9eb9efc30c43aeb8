import DnsServer.Concurrency.Sections
import DnsServer.Foundation.Turns

/-!
# The sections of the queries

The DNS thread answers a datagram in at most one section: what it reads there is one table,
and the answer is the one that `processDnsQuery` makes of this table (`serves_mainLoop`).
-/

set_option autoImplicit false

namespace DnsServer

open Libc Locking

namespace Threaded

/-! ## The section of a query -/

/-- What follows a round of the loop over the values. -/
def afterRound (env : Environment) (query : ParsedQuery) (values : List CString) :
    Round → Checked LoopEnd
  | .next response => DnsServer.answerLoop env query values response
  | .stop ended => .ok ended

/-- The loop over the values, round by round. -/
theorem answerLoop_cons (env : Environment) (query : ParsedQuery) (value : CString)
    (values : List CString) (response : Response) :
    DnsServer.answerLoop env query (value :: values) response =
      if response.length + 16 > DEFAULT_BUFFER_SIZE then .ok (.finished response)
      else beginAnswer env query response >>= fun response =>
        answerValue env query value response >>= afterRound env query values := by
  rw [DnsServer.answerLoop]
  by_cases full : response.length + 16 > DEFAULT_BUFFER_SIZE
  · rw [if_pos full, if_pos full]
    rfl
  rw [if_neg full, if_neg full]
  refine bind_congr fun response => ?_
  unfold answerValue
  by_cases isA : query.typeString = cstr "A"
  · rw [if_pos isA, if_pos isA]
    cases env.inet_aton value with
    | none => rfl
    | some addr =>
        simp only
        split
        · rfl
        · rw [bind_map_left]
          rfl
  rw [if_neg isA, if_neg isA]
  by_cases isAAAA : query.typeString = cstr "AAAA"
  · rw [if_pos isAAAA, if_pos isAAAA]
    cases env.inet_pton value with
    | none => rfl
    | some addr6 =>
        simp only
        split
        · rfl
        · rw [bind_map_left]
          rfl
  rw [if_neg isAAAA, if_neg isAAAA]
  by_cases isName : query.typeString = cstr "CNAME" ∨ query.typeString = cstr "NS"
  · rw [if_pos isName, if_pos isName, bind_assoc]
    refine bind_congr fun formatted => ?_
    cases formatted with
    | none => rfl
    | some dns_format =>
        simp only
        split
        · rfl
        · rw [bind_map_left]
          rfl
  rw [if_neg isName, if_neg isName]
  by_cases isMX : query.typeString = cstr "MX"
  · rw [if_pos isMX, if_pos isMX]
    cases scanPreference value with
    | none => rfl
    | some scanned =>
        obtain ⟨preference, exchange_str⟩ := scanned
        simp only [bind_assoc]
        refine bind_congr fun formatted => ?_
        cases formatted with
        | none => rfl
        | some exchange_dns =>
            simp only
            split
            · rfl
            · rw [bind_map_left]
              rfl
  · rw [if_neg isMX, if_neg isMX]
    rfl

/-- The replies to commands that are executed one after another. -/
def repliesAlong (parse : CString → Option CJSON) : Store → List Step → List (Checked CString)
  | _, [] => []
  | store, step :: steps =>
    (replyTo parse store step.1).under step.2 :: repliesAlong parse (store.next parse step) steps

end Threaded

end DnsServer
