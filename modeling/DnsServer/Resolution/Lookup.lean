import DnsServer.Model.Query
import DnsServer.Wire.Name
import Mathlib.Data.List.Infix

/-!
# What `resolveRecord` looks up

`resolveRecord` tries a list of keys that depends on the name and the type
only, and returns the first record it finds (`resolveRecord_eq`). The list
starts with the base key and the subdomain key. The wildcard keys behind them
are those of the suffixes of the first ten tokens of the name, without the name
itself.

The scratch buffers are large enough for every name.
-/

set_option autoImplicit false

namespace DnsServer

open Libc Wire

/-- The domain of a wildcard record for a suffix of labels: an asterisk, and a dot
in front of each label. -/
def wildcardDomain (labels : List CString) : CString :=
  cstr "*" ++ labels.flatMap fun label => cstr "." ++ label

/-- The suffixes whose wildcard records are tried, the longest first. -/
def searchedSuffixes (domain : CString) : List (List CString) :=
  (tokenLabels 10 (domain.take 255)).tail.tails.filter (· ≠ [])

/-- The keys tried for a name and a type, in the order in which they are tried. -/
def lookupKeys (domain type : CString) : List CString :=
  recordKey (cstr "base") domain type :: recordKey (cstr "subdomain") domain type ::
    (searchedSuffixes domain).map fun labels =>
      recordKey (cstr "wildcard") (wildcardDomain labels) type

/-- The record a query for a name and a type is answered from. -/
def lookup (store : Store) (domain type : CString) : Option DNSRecord :=
  (lookupKeys domain type).findSome? store.find

/-! ## The tokens of a name -/

/-- A token is not empty, and together with a delimiter behind it it is taken
off the text. -/
theorem length_of_strtok {delimiters text token rest : CString}
    (found : strtok delimiters text = (some token, rest)) :
    1 ≤ token.length ∧ token.length ≤ text.length ∧
      (rest ≠ [] → token.length + 1 + rest.length ≤ text.length) := by
  obtain ⟨nonempty, _, skipped, behind, rfl, _, ended⟩ := strtok_some found
  refine ⟨List.length_pos_of_ne_nil nonempty, by simp; omega, ?_⟩
  rcases ended with ⟨rfl, rfl⟩ | ⟨c, _, rfl⟩
  · intro more
    exact absurd rfl more
  · intro _
    simp
    omega

theorem tokenLabels_nil (slots : Nat) : tokenLabels slots [] = [] := by
  cases slots <;> rfl

/-- The tokens with a dot in front of each take at most one byte more than the
text. -/
theorem length_tokenLabels (slots : Nat) (text : CString) :
    ((tokenLabels slots text).flatMap fun label => cstr "." ++ label).length ≤
      text.length + 1 := by
  induction slots generalizing text with
  | zero => simp [tokenLabels]
  | succ slots ih =>
      rw [tokenLabels]
      split
      · simp
      · next token rest found =>
        obtain ⟨_, fits, more⟩ := length_of_strtok found
        have dot : (cstr ".").length = 1 := rfl
        rw [List.flatMap_cons, List.length_append, List.length_append, dot]
        by_cases done : rest = []
        · rw [done, tokenLabels_nil]
          simp
          omega
        · have := ih rest
          have := more done
          omega

/-- The labels behind the first one leave room for the asterisk. -/
theorem length_tail_tokenLabels (slots : Nat) (text : CString) :
    ((tokenLabels slots text).tail.flatMap fun label => cstr "." ++ label).length + 1 ≤
      max 1 text.length := by
  cases slots with
  | zero => simp [tokenLabels]
  | succ slots =>
      rw [tokenLabels]
      split
      · simp
      · next token rest found =>
        obtain ⟨positive, fits, more⟩ := length_of_strtok found
        simp only [List.tail_cons]
        by_cases done : rest = []
        · rw [done, tokenLabels_nil]
          simp
        · have := length_tokenLabels slots rest
          have := more done
          omega

theorem length_tokenLabels_le (slots : Nat) (text : CString) :
    (tokenLabels slots text).length ≤ slots := by
  induction slots generalizing text with
  | zero => exact le_rfl
  | succ slots ih =>
      rw [tokenLabels]
      split
      · exact Nat.zero_le _
      · next token rest _ =>
        rw [List.length_cons]
        exact Nat.succ_le_succ (ih rest)

/-- A token is a part of the text without dots. -/
theorem mem_tokenLabels {token : CString} {slots : Nat} {text : CString}
    (member : token ∈ tokenLabels slots text) : token ≠ [] ∧ 46 ∉ token ∧ token <:+: text := by
  induction slots generalizing text with
  | zero => cases member
  | succ slots ih =>
      rw [tokenLabels] at member
      split at member
      · cases member
      · next first rest found =>
        obtain ⟨nonempty, clean, skipped, behind, split, _, ended⟩ := strtok_some found
        rcases List.mem_cons.mp member with rfl | later
        · refine ⟨nonempty, fun dot => clean 46 dot (List.mem_singleton.mpr rfl), ?_⟩
          exact ⟨skipped, behind, by rw [split, List.append_assoc]⟩
        · obtain ⟨laterNonempty, noDot, inRest⟩ := ih later
          refine ⟨laterNonempty, noDot, inRest.trans ?_⟩
          rcases ended with ⟨_, rfl⟩ | ⟨c, _, rfl⟩
          · exact List.nil_infix
          · exact ⟨skipped ++ (first ++ [c]), [], by rw [split]; simp⟩

/-- The tokens of a dotted name are its labels. -/
theorem tokenLabels_joinDots {name : Name} (slots : Nat)
    (labels : ∀ label ∈ name, label ≠ [] ∧ 46 ∉ label) :
    tokenLabels slots (joinDots name) = name.take slots := by
  induction name generalizing slots with
  | nil =>
      rw [List.take_nil]
      exact tokenLabels_nil slots
  | cons label name ih =>
      cases slots with
      | zero => rfl
      | succ slots =>
      obtain ⟨nonempty, noDot⟩ := labels label List.mem_cons_self
      have tail := ih slots fun other member => labels other (List.mem_cons_of_mem _ member)
      have clean : ∀ c ∈ label, c ∉ cstr "." := by
        intro c member dot
        rw [List.mem_singleton.mp dot] at member
        exact noDot member
      rw [tokenLabels, List.take_succ_cons]
      cases name with
      | nil =>
          have found : strtok (cstr ".") (joinDots [label]) = (some label, []) := by
            have split := strtok_of_split [] [] nonempty clean
              (by simp) (by simp)
            simpa [joinDots] using split
          rw [found]
          simp only [tokenLabels_nil, List.take_nil]
      | cons next name =>
          have found : strtok (cstr ".") (joinDots (label :: next :: name)) =
              (some label, joinDots (next :: name)) := by
            have split := strtok_of_split [] (46 :: joinDots (next :: name)) nonempty clean
              (by simp) (by simp [cstr])
            simpa [joinDots] using split
          rw [found]
          simp only [tail]

/-! ## The scratch buffers -/

/-- `domain_copy` has room for the copy, the padding behind it and the last NUL. -/
theorem copyDomain_eq (domain : CString) : copyDomain domain = .ok (domain.take 255) := by
  have empty : (OutBuffer.empty : OutBuffer 256).bytes = [] := rfl
  have copied : (OutBuffer.empty : OutBuffer 256).bytes.length + (domain.take 255).length ≤ 256 := by
    rw [empty, List.length_take, List.length_nil]
    omega
  have padding : ((OutBuffer.empty : OutBuffer 256).bytes ++ domain.take 255).length +
      (List.replicate (255 - domain.length) (0 : UInt8)).length ≤ 256 := by
    rw [List.length_append, empty, List.length_take, List.length_replicate, List.length_nil]
    omega
  have nul : ((OutBuffer.empty : OutBuffer 256).bytes ++ domain.take 255 ++
      List.replicate (255 - domain.length) (0 : UInt8)).length + [(0 : UInt8)].length ≤ 256 := by
    rw [List.length_append, List.length_append, empty, List.length_take, List.length_replicate,
      List.length_nil, List.length_singleton]
    omega
  rw [copyDomain, OutBuffer.append_of_room copied, Checked.ok_bind,
    OutBuffer.append_of_room padding, Checked.ok_bind, OutBuffer.append_of_room nul,
    Checked.ok_bind]
  rfl

/-- The slots of `labels` are enough for the tokens that the loop stores. -/
theorem storeLabels_eq :
    ∀ (left : Nat) (text : CString) (labels : List CString), labels.length + left ≤ 10 →
      storeLabels left text labels = .ok (labels ++ tokenLabels left text) := by
  intro left
  induction left with
  | zero =>
      intro text labels _
      simp [storeLabels, tokenLabels]
  | succ left ih =>
      intro text labels room
      rw [storeLabels, tokenLabels]
      split
      · simp
      · next token rest _ =>
        have stored : storeNext 10 labels token = .ok (labels ++ [token]) := if_pos (by omega)
        rw [stored, Checked.ok_bind, ih rest (labels ++ [token]) (by simp; omega),
          List.append_assoc, List.singleton_append]

theorem storeLabels_nil (text : CString) : storeLabels 10 text [] = .ok (tokenLabels 10 text) :=
  storeLabels_eq 10 text [] le_rfl

/-! ## The search -/

/-- The inner loop never overruns the scratch buffer when the suffix fits. -/
theorem appendLabels_eq :
    ∀ (labels : List CString) (buffer : StringBuffer)
      (fits : (buffer.bytes ++ labels.flatMap fun label => cstr "." ++ label).length ≤ 255),
        appendLabels labels buffer =
          .ok ⟨buffer.bytes ++ labels.flatMap fun label => cstr "." ++ label, fits⟩ := by
  intro labels
  induction labels with
  | nil =>
      intro buffer _
      simp [appendLabels]
  | cons label labels ih =>
      intro buffer fits
      simp only [List.flatMap_cons, List.length_append] at fits
      have room : buffer.bytes.length + (cstr ".").length ≤ 255 := by omega
      have room' : (buffer.bytes ++ cstr ".").length + label.length ≤ 255 := by
        rw [List.length_append]
        omega
      rw [appendLabels, OutBuffer.append_of_room room, Checked.ok_bind,
        OutBuffer.append_of_room room', Checked.ok_bind, ih _ (by
          simp only [List.length_append]
          omega)]
      simp

/-- The loop over the suffixes looks up their wildcard keys one after the
other. -/
theorem searchWildcards_eq (store : Store) (type : CString) :
    ∀ labels : List CString,
      (labels.flatMap fun label => cstr "." ++ label).length + 1 ≤ 255 →
        searchWildcards store type labels =
          .ok (((labels.tails.filter (· ≠ [])).map fun suffix =>
            recordKey (cstr "wildcard") (wildcardDomain suffix) type).findSome? store.find) := by
  intro labels
  induction labels with
  | nil =>
      intro _
      rfl
  | cons label labels ih =>
      intro fits
      have star : (OutBuffer.empty : StringBuffer).bytes.length + (cstr "*").length ≤ 255 := by
        decide
      have tailFits : (labels.flatMap fun label => cstr "." ++ label).length + 1 ≤ 255 := by
        simp only [List.flatMap_cons, List.length_append] at fits
        omega
      have prefix_eq : cstr "wildcard_" = cstr "wildcard" ++ cstr "_" := by decide
      have room : (((OutBuffer.empty : StringBuffer).bytes ++ cstr "*") ++
          (label :: labels).flatMap fun label => cstr "." ++ label).length ≤ 255 := by
        have one : ((OutBuffer.empty : StringBuffer).bytes ++ cstr "*").length = 1 := by decide
        rw [List.length_append, one]
        omega
      rw [searchWildcards, OutBuffer.append_of_room star, Checked.ok_bind,
        appendLabels_eq _ _ room, Checked.ok_bind]
      simp only [OutBuffer.bytes_empty, List.nil_append]
      have key : cstr "wildcard_" ++ (cstr "*" ++ (label :: labels).flatMap fun label =>
          cstr "." ++ label) ++ cstr "_" ++ type =
          recordKey (cstr "wildcard") (wildcardDomain (label :: labels)) type := by
        rw [prefix_eq]
        simp only [recordKey, wildcardDomain]
      rw [key]
      rw [List.tails_cons, List.filter_cons_of_pos (by simp), List.map_cons,
        List.findSome?_cons]
      cases store.find (recordKey (cstr "wildcard") (wildcardDomain (label :: labels)) type) with
      | some record => rfl
      | none => exact ih tailFits

/-- **`resolveRecord` returns the first record under the keys it tries**, and
stays inside its buffers. -/
theorem resolveRecord_eq (store : Store) (domain type : CString) :
    resolveRecord store domain type = .ok (lookup store domain type) := by
  have base : cstr "base_" = cstr "base" ++ cstr "_" := by decide
  have subdomain : cstr "subdomain_" = cstr "subdomain" ++ cstr "_" := by decide
  have copied : (domain.take 255).length ≤ 255 := by simp
  have fits := length_tail_tokenLabels 10 (domain.take 255)
  rw [resolveRecord, base, subdomain, lookup, lookupKeys, List.findSome?_cons]
  simp only [← recordKey.eq_1]
  cases store.find (recordKey (cstr "base") domain type) with
  | some record => rfl
  | none =>
      rw [List.findSome?_cons]
      cases store.find (recordKey (cstr "subdomain") domain type) with
      | some record => rfl
      | none =>
          simp only [copyDomain_eq, storeLabels_nil, Checked.ok_bind]
          exact searchWildcards_eq store type _ (by omega)

/-- A name and a type resolve exactly when a key tried for them is present. -/
theorem lookup_eq_none_iff {store : Store} {domain type : CString} :
    lookup store domain type = none ↔ ∀ key ∈ lookupKeys domain type, store.find key = none :=
  List.findSome?_eq_none_iff

theorem lookup_of_base {store : Store} {domain type : CString} {record : DNSRecord}
    (found : store.find (recordKey (cstr "base") domain type) = some record) :
    lookup store domain type = some record := by
  rw [lookup, lookupKeys, List.findSome?_cons, found]

/-! ## The keys that are tried -/

theorem length_wildcardDomain (labels : List CString) :
    (wildcardDomain labels).length =
      (labels.flatMap fun label => cstr "." ++ label).length + 1 := by
  rw [wildcardDomain, List.length_append]
  exact Nat.add_comm 1 _

/-- The key of a base record is tried for its own type. -/
theorem baseKey_mem_iff {domain type queriedType : CString} :
    recordKey (cstr "base") domain type ∈ lookupKeys domain queriedType ↔ type = queriedType := by
  rw [lookupKeys, List.mem_cons, List.mem_cons, List.mem_map]
  constructor
  · rintro (key | key | ⟨labels, _, key⟩)
    · exact List.append_cancel_left key
    · cases key
    · cases key
  · rintro rfl
    exact .inl rfl

/-- The key of a wildcard record is tried for the suffixes that are searched. -/
theorem wildcardKey_mem_iff {domain type queried queriedType : CString} :
    recordKey (cstr "wildcard") domain type ∈ lookupKeys queried queriedType ↔
      ∃ labels ∈ searchedSuffixes queried,
        domain ++ cstr "_" ++ type = wildcardDomain labels ++ cstr "_" ++ queriedType := by
  rw [lookupKeys, List.mem_cons, List.mem_cons, List.mem_map]
  constructor
  · rintro (key | key | ⟨labels, member, key⟩)
    · cases key
    · cases key
    · refine ⟨labels, member, ?_⟩
      simp only [recordKey, List.append_assoc, List.append_cancel_left_eq] at key
      simpa using key.symm
  · rintro ⟨labels, member, same⟩
    refine .inr (.inr ⟨labels, member, ?_⟩)
    simp only [recordKey, List.append_assoc] at same ⊢
    rw [same]

/-- The key of a subdomain record is tried for its own domain. -/
theorem subdomainKey_mem_iff {domain type queried queriedType : CString} :
    recordKey (cstr "subdomain") domain type ∈ lookupKeys queried queriedType ↔
      domain ++ cstr "_" ++ type = queried ++ cstr "_" ++ queriedType := by
  rw [lookupKeys, List.mem_cons, List.mem_cons, List.mem_map]
  constructor
  · rintro (key | key | ⟨labels, _, key⟩)
    · cases key
    · simp only [recordKey, List.append_assoc, List.append_cancel_left_eq] at key
      simpa using key
    · cases key
  · intro same
    refine .inr (.inl ?_)
    simp only [recordKey, List.append_assoc] at same ⊢
    rw [same]

/-- Two suffixes of one list of labels whose wildcards are equally long are equal. -/
theorem eq_of_length_wildcardDomain {labels first second : List CString} (one : first <:+ labels)
    (other : second <:+ labels)
    (same : (wildcardDomain first).length = (wildcardDomain second).length) : first = second := by
  have shorter : ∀ {first second : List CString}, first <:+ second →
      (wildcardDomain first).length = (wildcardDomain second).length → first = second := by
    rintro first second ⟨front, rfl⟩ same
    rw [length_wildcardDomain, length_wildcardDomain, List.flatMap_append, List.length_append]
      at same
    cases front with
    | nil => rfl
    | cons label front =>
        have dot : (cstr ".").length = 1 := rfl
        simp only [List.flatMap_cons, List.length_append, dot] at same
        omega
  rcases List.suffix_or_suffix_of_suffix one other with inside | inside
  · exact shorter inside same
  · exact (shorter inside same.symm).symm

/-- **Keys that are tried for one name differ in their scopes or in their lengths.** -/
theorem lookupKeys_told_apart {domain type first second : CString}
    (one : first ∈ lookupKeys domain type) (other : second ∈ lookupKeys domain type)
    (head : first.head? = second.head?) (length : first.length = second.length) :
    first = second := by
  rw [lookupKeys, List.mem_cons, List.mem_cons, List.mem_map] at one other
  rcases one with rfl | rfl | ⟨labels, searched, rfl⟩ <;>
    rcases other with rfl | rfl | ⟨others, otherSearched, rfl⟩
  case inr.inr.inr.inr =>
    have same : (wildcardDomain labels).length = (wildcardDomain others).length := by
      simpa [recordKey] using length
    rw [eq_of_length_wildcardDomain ((List.mem_tails _ _).mp (List.mem_filter.mp searched).1)
      ((List.mem_tails _ _).mp (List.mem_filter.mp otherSearched).1) same]
  all_goals first
    | rfl
    | cases head

/-- The suffixes that are searched are short. -/
theorem length_wildcardDomain_le {domain : CString} {labels : List CString}
    (searched : labels ∈ searchedSuffixes domain) :
    (wildcardDomain labels).length ≤ max 1 domain.length := by
  obtain ⟨suffix, _⟩ := List.mem_filter.mp searched
  have inTail : labels <:+ (tokenLabels 10 (domain.take 255)).tail := (List.mem_tails _ _).mp suffix
  obtain ⟨front, split⟩ := inTail
  have total := length_tail_tokenLabels 10 (domain.take 255)
  rw [← split, List.flatMap_append, List.length_append] at total
  have cut : (domain.take 255).length ≤ domain.length := List.length_take_le' _ _
  rw [length_wildcardDomain]
  omega

end DnsServer
