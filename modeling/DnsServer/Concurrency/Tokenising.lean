import DnsServer.Model.Management
import DnsServer.Resolution.Lookup
import Mathlib.Data.List.ReduceOption

/-!
# Two threads and one `strtok`

The management thread takes its requests apart with `strtok`, and `resolveRecord`
takes a name apart with it in the DNS thread. The mutex covers only the latter,
so the calls of the two threads come in any order, and both go on from the one
position that `strtok` has saved.

Alone, `resolveRecord` collects the labels of its own domain. In a run where no
call that continues finds the position in the buffer of the other thread, the
command that is run is the one of the request, and the record that is resolved
is the one of the domain (`tokensKept_along`). Nothing in the server keeps a run
from being disturbed: a query can supply the arguments of an authenticated `ADD`.
-/

set_option autoImplicit false

namespace DnsServer

open Libc Tokenizing

/-! ## The calls of `resolveRecord` -/

/-- The loop over the tokens, with some slots of `labels` still free. -/
def collectLabels : Nat → Option CString → Tokenizing (List CString)
  | slots + 1, some token => do
    let next ← nextToken (cstr ".")
    let labels ← collectLabels slots next
    return token :: labels
  | _, _ => return []

/-- `resolveRecord` from its first call of `strtok` on. -/
def resolveWildcard (store : Store) (type : CString) :
    Tokenizing (Checked (Option DNSRecord)) := do
  let token ← nextToken (cstr ".")
  let labels ← collectLabels 10 token
  return searchWildcards store type labels.tail

theorem collectLabels_succ (slots : Nat) (token : CString) :
    collectLabels (slots + 1) (some token) =
      .strtok (cstr ".") fun next => collectLabels slots next >>= fun labels =>
        .done (token :: labels) := rfl

theorem resolveWildcard_eq (store : Store) (type : CString) :
    resolveWildcard store type =
      .strtok (cstr ".") fun token => collectLabels 10 token >>= fun labels =>
        .done (searchWildcards store type labels.tail) := rfl

/-- Alone, the loop collects the labels of the text. -/
theorem run_collectLabels (slots : Nat) (text : CString) :
    (collectLabels slots (strtok (cstr ".") text).1).run (strtok (cstr ".") text).2 =
      tokenLabels slots text := by
  induction slots generalizing text with
  | zero => rfl
  | succ slots ih =>
      rw [tokenLabels]
      rcases strtok (cstr ".") text with ⟨_ | token, rest⟩
      · rfl
      · simp only [collectLabels_succ, Tokenizing.run, run_bind, ih]

/-- The tokens of the loop, up to the number of slots, are those labels. -/
theorem tokens_collectLabels (slots : Nat) (text : CString) :
    ((strtok (cstr ".") text).1 ::
      (collectLabels slots (strtok (cstr ".") text).1).tokens
        (strtok (cstr ".") text).2).reduceOption.take slots = tokenLabels slots text := by
  induction slots generalizing text with
  | zero => rfl
  | succ slots ih =>
      rw [tokenLabels]
      rcases strtok (cstr ".") text with ⟨_ | token, rest⟩
      · rfl
      · simp only [collectLabels_succ, tokens, tokens_bind, List.append_nil,
          List.reduceOption_cons_of_some, List.take_succ_cons, ih]

theorem run_resolveWildcard (store : Store) (type text : CString) :
    (resolveWildcard store type).run text =
      searchWildcards store type (tokenLabels 10 text).tail := by
  simp only [resolveWildcard_eq, Tokenizing.run, run_bind, run_collectLabels]

theorem tokens_resolveWildcard (store : Store) (type text : CString) :
    ((resolveWildcard store type).tokens text).reduceOption.take 10 = tokenLabels 10 text := by
  simp only [resolveWildcard_eq, tokens, tokens_bind, List.append_nil, tokens_collectLabels]

/-! ## The threads of the server -/

inductive ServerThread where
  | management
  | dns
  deriving DecidableEq

/-- What one `read` of a request returns. -/
structure Request where
  bytes : List UInt8
  nonempty : bytes ≠ []
  fits : bytes.length ≤ 1023

/-- A resolution that comes to the tokens: there is no record of the domain
itself. -/
structure Resolution where
  store : Store
  domain : CString
  type : CString
  clean : 0 ∉ domain
  no_base : store.find (cstr "base_" ++ domain ++ cstr "_" ++ type) = none
  no_subdomain : store.find (cstr "subdomain_" ++ domain ++ cstr "_" ++ type) = none

/-- The two threads, each with its buffer and its calls. -/
def serverThreads (auth_token : CString) (file : MappingsFile) : Threads ServerThread where
  Task
    | .management => Request
    | .dns => Resolution
  Result
    | .management => Handling
    | .dns => Checked (Option DNSRecord)
  text
    | .management, request => request.bytes
    | .dns, resolution => resolution.domain.take 255
  calls
    | .management, _ => managementThread auth_token file
    | .dns, resolution => resolveWildcard resolution.store resolution.type

theorem Resolution.cutAtNul_copy (resolution : Resolution) :
    cutAtNul (resolution.domain.take 255) = resolution.domain.take 255 :=
  cutAtNul_of_clean fun zero => resolution.clean (List.mem_of_mem_take zero)

/-- Alone, the calls on the copied domain lead to the record that `resolveRecord`
returns. -/
theorem Resolution.run_eq (resolution : Resolution) :
    (resolveWildcard resolution.store resolution.type).run
        (cutAtNul (resolution.domain.take 255)) =
      resolveRecord resolution.store resolution.domain resolution.type := by
  rw [resolution.cutAtNul_copy, run_resolveWildcard, resolveRecord, resolution.no_base,
    resolution.no_subdomain]
  simp only [copyDomain_eq, storeLabels_nil, Checked.ok_bind]

/-! ## Runs -/

variable {auth_token : CString} {file : MappingsFile}

/-- The thread has received the first tokens of its request, and handles it as it
would alone. -/
structure RequestKept (auth_token : CString) (file : MappingsFile) (request : Request)
    (received : List (Option CString)) (remaining : Tokenizing Handling) : Prop where
  tokens : received <+: (managementThread auth_token file).tokens (cutAtNul request.bytes)
  handling : ∀ handling, remaining = .done handling →
    handling = (managementThread auth_token file).run (cutAtNul request.bytes)

/-- The labels collected so far are the first labels of the domain, and the
record is the one that is resolved alone. -/
structure ResolutionKept (resolution : Resolution) (received : List (Option CString))
    (remaining : Tokenizing (Checked (Option DNSRecord))) : Prop where
  labels : received.reduceOption.take 10 <+: tokenLabels 10 (resolution.domain.take 255)
  record : ∀ found, remaining = .done found →
    found = resolveRecord resolution.store resolution.domain resolution.type

/-- Neither thread has got a token from the text of the other. -/
structure TokensKept (process : Process (serverThreads auth_token file)) : Prop where
  management : ∀ request received remaining,
    process.activity .management = some ⟨request, received, remaining⟩ →
      RequestKept auth_token file request received remaining
  dns : ∀ resolution received remaining,
    process.activity .dns = some ⟨resolution, received, remaining⟩ →
      ResolutionKept resolution received remaining

/-- **Neither thread gets a token from the text of the other** in any state of a
run without a disturbed call. -/
theorem tokensKept_along (auth_token : CString) (file : MappingsFile)
    (steps : List (ThreadStep (serverThreads auth_token file)))
    (undisturbed : Along Process.next Process.Undisturbed Process.initial steps) :
    ∀ process ∈ statesAlong Process.next Process.initial steps, TokensKept process := by
  intro process reached
  have own := Process.own_along undisturbed process reached
  refine ⟨fun request received remaining present => ?_,
    fun resolution received remaining present => ?_⟩
  · have kept := own .management _ present
    exact ⟨kept.tokens, kept.result⟩
  · have kept := own .dns _ present
    refine ⟨?_, fun found finished => (kept.result found finished).trans resolution.run_eq⟩
    have tokens : received <+: (resolveWildcard resolution.store resolution.type).tokens
      (cutAtNul (resolution.domain.take 255)) := kept.tokens
    rw [resolution.cutAtNul_copy] at tokens
    rw [← tokens_resolveWildcard resolution.store resolution.type]
    exact (tokens.filterMap id).take 10

/-- An authenticated `ADD`. -/
def addRequest : Request where
  bytes := cstr "k ADD a A base 192.0.2.1\n"
  nonempty := by decide
  fits := by decide

/-- A domain whose second label reads like the arguments of an `ADD`. -/
def forgedResolution : Resolution where
  store := KeyedTable.empty
  domain := cstr "x.evil A base 6"
  type := cstr "A"
  clean := by decide
  no_base := rfl
  no_subdomain := rfl

/-- The calls of one thread behind those of the other. -/
theorem tokensKept_along_in_turn :
    TokensKept ([.start .management addRequest, .start .dns forgedResolution, .call .management,
      .call .management, .call .management, .call .management, .call .management,
      .call .management, .call .dns, .call .dns, .call .dns].foldl Process.next
        (Process.initial : Process (serverThreads (cstr "k") .missing))) :=
  tokensKept_along (cstr "k") .missing _ (by
    refine ⟨trivial, trivial, ?_, ?_, ?_, ?_, ?_, ?_, ?_, ?_, ?_, trivial⟩
    · rintro _ _ _ _ ⟨⟩ first
      exact absurd rfl first
    · exact fun _ _ _ _ _ _ => ⟨_, rfl⟩
    · exact fun _ _ _ _ _ _ => ⟨_, rfl⟩
    · exact fun _ _ _ _ _ _ => ⟨_, rfl⟩
    · exact fun _ _ _ _ _ _ => ⟨_, rfl⟩
    · exact fun _ _ _ _ _ _ => ⟨_, rfl⟩
    · rintro _ _ _ _ ⟨⟩ first
      exact absurd rfl first
    · exact fun _ _ _ _ _ _ => ⟨_, rfl⟩
    · exact fun _ _ _ _ _ _ => ⟨_, rfl⟩) _ (foldl_mem_statesAlong _ _)

/-- Two calls of a resolution in the middle of a request: the `ADD` that is run
takes its arguments from the name in the query. -/
theorem not_tokensKept_of_forged_name :
    ¬ ∀ (auth_token : CString) (file : MappingsFile)
      (steps : List (ThreadStep (serverThreads auth_token file))),
        ∀ process ∈ statesAlong Process.next Process.initial steps, TokensKept process := by
  intro all
  have kept := all (cstr "k") .missing
    [.start .management addRequest, .call .management, .call .management,
      .start .dns forgedResolution, .call .dns, .call .management, .call .management,
      .call .management, .call .management] _ (foldl_mem_statesAlong _ _)
  have handled := (kept.management addRequest _ _ rfl).handling
    (.execute (.add (cstr "evil") (cstr "A") (cstr "base") (cstr "6"))) rfl
  have own : (managementThread (cstr "k") .missing).run (cutAtNul addRequest.bytes) =
    .execute (.add (cstr "a") (cstr "A") (cstr "base") (cstr "192.0.2.1")) := rfl
  rw [own] at handled
  injection handled with command
  injection command with domain
  exact absurd domain (by decide)

end DnsServer
