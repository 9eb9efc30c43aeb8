import DnsServer.Parsing.Question
import DnsServer.Resolution.Lookup

/-!
# The wildcard search against its reference

A wildcard `*.s` is meant for every name that ends in a dot and `s`. The
reference search tries the suffixes of a name behind each of its dots, the
longest first, however many there are. `resolveRecord` takes the suffixes from
the tokens of `strtok`, which skips empty labels, and it keeps ten of them.

Both searches try the same keys exactly for names of at most ten labels, none of
which is empty, and for names without a dot, which have no suffix at all
(`resolveRecord_reference_iff`).
-/

set_option autoImplicit false

namespace DnsServer

open Libc Wire

/-! ## The reference -/

/-- The labels behind each dot of a name, the longest suffix first. -/
def properSuffixes (domain : CString) : List Name := (splitDots domain).tail.tails.filter (· ≠ [])

/-- The keys under which a record for a name is looked for. -/
def referenceKeys (domain type : CString) : List CString :=
  recordKey (cstr "base") domain type :: recordKey (cstr "subdomain") domain type ::
    (properSuffixes domain).map fun labels =>
      recordKey (cstr "wildcard") (cstr "*." ++ joinDots labels) type

/-- The first record found under those keys. -/
def referenceRecord (store : Store) (domain type : CString) : Option DNSRecord :=
  (referenceKeys domain type).findSome? store.find

theorem properSuffixes_last {label : CString} (noDot : 46 ∉ label) : properSuffixes label = [] := by
  rw [properSuffixes, splitDots_of_not_mem noDot]
  rfl

theorem properSuffixes_dot {label rest : CString} (noDot : 46 ∉ label) :
    properSuffixes (label ++ 46 :: rest) = splitDots rest :: properSuffixes rest := by
  have nonempty : splitDots rest ≠ [] := List.splitOn_ne_nil 46 rest
  obtain ⟨first, more, split⟩ := List.exists_cons_of_ne_nil nonempty
  rw [properSuffixes, properSuffixes, splitDots_append_dot noDot, List.tail_cons, split,
    List.tails_cons, List.filter_cons_of_pos (by simp), List.tail_cons]

/-- **The suffixes are what stands behind the dots**: a wildcard is looked for
exactly when the name ends in a dot and its domain. -/
theorem exists_properSuffixes_iff {domain suffix : CString} :
    (∃ labels ∈ properSuffixes domain, joinDots labels = suffix) ↔ 46 :: suffix <:+ domain := by
  induction domain using dots_induction with
  | last label noDot =>
      rw [properSuffixes_last noDot]
      constructor
      · rintro ⟨_, member, _⟩
        cases member
      · rintro ⟨front, rfl⟩
        exact absurd (by simp) noDot
  | dot label rest noDot ih =>
      rw [properSuffixes_dot noDot, List.exists_mem_cons_iff, ih, joinDots_splitDots]
      constructor
      · rintro (rfl | behind)
        · exact ⟨label, rfl⟩
        · exact behind.trans ⟨label ++ [46], by simp⟩
      · rintro ⟨front, same⟩
        -- the dot in front of the suffix is the first one of the name, or behind it
        rcases List.append_eq_append_iff.mp same with ⟨more, inLabel, behind⟩ | ⟨more, past, behind⟩
        · cases more with
          | nil =>
              simp only [List.nil_append, List.cons.injEq] at behind
              exact .inl behind.2.symm
          | cons c more =>
              rw [List.cons_append, List.cons.injEq] at behind
              rw [← behind.1] at inLabel
              exact absurd (by rw [inLabel]; simp) noDot
        · cases more with
          | nil =>
              simp only [List.nil_append, List.cons.injEq] at behind
              exact .inl behind.2
          | cons c more =>
              rw [List.cons_append, List.cons.injEq] at behind
              exact .inr ⟨more, behind.2.symm⟩

/-! ## The tokens of a name -/

/-- **The tokens are the labels that are not empty**, as many as there are
slots. -/
theorem tokenLabels_eq (text : CString) :
    ∀ slots, tokenLabels slots text = ((splitDots text).filter (· ≠ [])).take slots := by
  induction text using dots_induction with
  | last label noDot =>
      intro slots
      rw [splitDots_of_not_mem noDot]
      by_cases empty : label = []
      · subst empty
        rw [tokenLabels_nil]
        simp
      · have tokens := @tokenLabels_joinDots [label] slots (by simpa using ⟨empty, noDot⟩)
        have text : joinDots [label] = label := by simp [joinDots]
        rw [text] at tokens
        rw [tokens, List.filter_cons_of_pos (by simpa using empty), List.filter_nil]
  | dot label rest noDot ih =>
      intro slots
      rw [splitDots_append_dot noDot]
      cases slots with
      | zero => simp [tokenLabels]
      | succ slots =>
      by_cases empty : label = []
      · subst empty
        have skip : strtok (cstr ".") ([] ++ 46 :: rest) = strtok (cstr ".") rest := by
          simp [strtok, cstr]
        rw [List.filter_cons_of_neg (by simp), ← ih, tokenLabels, skip, tokenLabels]
      · have clean : ∀ c ∈ label, c ∉ cstr "." := by
          intro c member dot
          rw [List.mem_singleton.mp dot] at member
          exact noDot member
        have found := @strtok_of_split (cstr ".") _ [] (46 :: rest) empty clean
          (by simp) (by simp [cstr])
        rw [List.nil_append, List.tail_cons] at found
        rw [tokenLabels, found, List.filter_cons_of_pos (by simpa using empty), List.take_succ_cons,
          ← ih]

/-! ## Where both searches agree -/

theorem wildcardDomain_eq {labels : List CString} (nonempty : labels ≠ []) :
    wildcardDomain labels = cstr "*." ++ joinDots labels := by
  have star : cstr "*." = cstr "*" ++ cstr "." := by decide
  rw [wildcardDomain, star, List.append_assoc, List.append_cancel_left_eq]
  induction labels with
  | nil => exact absurd rfl nonempty
  | cons label labels ih =>
      cases labels with
      | nil => simp [joinDots]
      | cons next labels =>
          rw [List.flatMap_cons, ih (List.cons_ne_nil next labels)]
          simp [joinDots, cstr]

/-- Names of at most ten labels, none of them empty, and names without a dot. -/
def FewLabels (domain : CString) : Prop :=
  (splitDots domain).length = 1 ∨ ((splitDots domain).length ≤ 10 ∧ [] ∉ splitDots domain)

instance (domain : CString) : Decidable (FewLabels domain) := inferInstanceAs (Decidable (_ ∨ _))

/-- For such names the tokens have the suffixes of the name. -/
theorem searchedSuffixes_eq {domain : CString} (short : domain.length ≤ 255)
    (few : FewLabels domain) : searchedSuffixes domain = properSuffixes domain := by
  rw [searchedSuffixes, properSuffixes, List.take_of_length_le short, tokenLabels_eq]
  rcases few with single | ⟨few, noEmpty⟩
  · obtain ⟨label, split⟩ := List.length_eq_one_iff.mp single
    rw [split]
    by_cases empty : label = []
    · rw [List.filter_cons_of_neg (by simpa using empty)]
      rfl
    · rw [List.filter_cons_of_pos (by simpa using empty)]
      rfl
  · have all : (splitDots domain).filter (· ≠ []) = splitDots domain := by
      rw [List.filter_eq_self]
      intro label member
      simp only [ne_eq, decide_not, Bool.not_eq_eq_eq_not, Bool.not_true, decide_eq_false_iff_not]
      rintro rfl
      exact noEmpty member
    rw [all, List.take_of_length_le few]

theorem length_filter_tails {α : Type} [DecidableEq α] (list : List α) :
    (list.tails.filter (· ≠ [])).length = list.length := by
  induction list with
  | nil => rfl
  | cons first rest ih =>
      rw [List.tails_cons, List.filter_cons_of_pos (by simp), List.length_cons, ih,
        List.length_cons]

/-- The wildcard key of some labels. -/
def wildcardKey (type : CString) (labels : Name) : CString :=
  recordKey (cstr "wildcard") (cstr "*." ++ joinDots labels) type

theorem joinDots_eq_of_wildcardKey_eq {type : CString} {first second : Name}
    (same : wildcardKey type first = wildcardKey type second) : joinDots first = joinDots second := by
  simpa [wildcardKey, recordKey] using same

/-- The wildcard keys of a name are different, since each suffix is shorter than
the one in front of it. -/
theorem nodup_wildcardKeys (domain type : CString) :
    ((properSuffixes domain).map (wildcardKey type)).Nodup := by
  induction domain using dots_induction with
  | last label noDot =>
      rw [properSuffixes_last noDot]
      exact List.nodup_nil
  | dot label rest noDot ih =>
      rw [properSuffixes_dot noDot, List.map_cons, List.nodup_cons]
      refine ⟨fun member => ?_, ih⟩
      obtain ⟨labels, searched, same⟩ := List.mem_map.mp member
      have text := joinDots_eq_of_wildcardKey_eq same
      rw [joinDots_splitDots] at text
      have shorter := (exists_properSuffixes_iff.mp ⟨labels, searched, text⟩).length_le
      rw [List.length_cons] at shorter
      omega

/-- For all other names the tokens have fewer suffixes than the name. -/
theorem length_searchedSuffixes_lt {domain : CString} (short : domain.length ≤ 255)
    (many : ¬ FewLabels domain) :
    (searchedSuffixes domain).length < (properSuffixes domain).length := by
  rw [searchedSuffixes, properSuffixes, length_filter_tails, length_filter_tails, List.length_tail,
    List.length_tail, List.take_of_length_le short, tokenLabels_eq, List.length_take]
  simp only [FewLabels, not_or, not_and, not_not] at many
  obtain ⟨several, noFew⟩ := many
  have positive : 1 ≤ (splitDots domain).length :=
    List.length_pos_of_ne_nil (List.splitOn_ne_nil 46 domain)
  by_cases long : (splitDots domain).length ≤ 10
  · have fewer : ((splitDots domain).filter (· ≠ [])).length < (splitDots domain).length :=
      List.length_filter_lt_length_iff_exists.mpr ⟨[], noFew long, by simp⟩
    omega
  · omega

/-- A wildcard key that only the reference tries. -/
theorem exists_missed_key {domain : CString} (type : CString) (short : domain.length ≤ 255)
    (many : ¬ FewLabels domain) :
    ∃ key ∈ referenceKeys domain type, key ∉ lookupKeys domain type := by
  by_contra all
  push Not at all
  have subset : (properSuffixes domain).map (wildcardKey type) ⊆
      (searchedSuffixes domain).map fun labels =>
        recordKey (cstr "wildcard") (wildcardDomain labels) type := by
    intro key member
    have tried := all key (List.mem_cons_of_mem _ (List.mem_cons_of_mem _ member))
    obtain ⟨labels, _, rfl⟩ := List.mem_map.mp member
    rcases List.mem_cons.mp tried with base | tried
    · cases base
    rcases List.mem_cons.mp tried with subdomain | tried
    · cases subdomain
    · exact tried
  have fewer := length_searchedSuffixes_lt short many
  have atMost := (List.subperm_of_subset (nodup_wildcardKeys domain type) subset).length_le
  simp only [List.length_map] at atMost
  omega

/-- **`resolveRecord` is the reference search**, whatever the store holds, exactly
for names with few labels. -/
theorem resolveRecord_reference_iff (datagram : Datagram) (query : ParsedQuery)
    (parsed : parseDNSQuery datagram.bytes 256 16 = .ok (some query)) :
    (∀ store, resolveRecord store query.domain query.typeString =
        .ok (referenceRecord store query.domain query.typeString)) ↔
      FewLabels query.domain := by
  have short : query.domain.length ≤ 255 := by
    have := (parseDNSQuery_accepted parsed).domain_length
    omega
  constructor
  · intro refines
    by_contra many
    obtain ⟨key, tried, missed⟩ := exists_missed_key query.typeString short many
    have same := refines (KeyedTable.empty.replace
      { domain := query.domain, type := query.typeString, key, values := [] })
    rw [resolveRecord_eq, Except.ok.injEq] at same
    have find : ∀ other, other ≠ key → (KeyedTable.empty.replace
        { domain := query.domain, type := query.typeString, key, values := [] } :
          Store).find other = none := by
      intro other different
      rw [KeyedTable.find_replace_of_ne _ _ different, KeyedTable.find_empty]
    have nothing : lookup (KeyedTable.empty.replace
        { domain := query.domain, type := query.typeString, key, values := [] }) query.domain
          query.typeString = none :=
      lookup_eq_none_iff.mpr fun other member => find other (fun here => missed (here ▸ member))
    rw [nothing, eq_comm, referenceRecord, List.findSome?_eq_none_iff] at same
    have found := KeyedTable.find_replace_self (KeyedTable.empty : Store)
      { domain := query.domain, type := query.typeString, key, values := [] }
    rw [same key tried] at found
    cases found
  · intro few store
    have keys : lookupKeys query.domain query.typeString =
        referenceKeys query.domain query.typeString := by
      rw [lookupKeys, referenceKeys, searchedSuffixes_eq short few]
      congr 2
      apply List.map_congr_left
      intro labels member
      have nonempty : labels ≠ [] := by simpa using (List.mem_filter.mp member).2
      rw [wildcardDomain_eq nonempty]
    rw [resolveRecord_eq, lookup, keys, referenceRecord]

theorem resolveRecord_reference_iff_address :
    (∀ store, resolveRecord store (cstr "a") (cstr "A") =
        .ok (referenceRecord store (cstr "a") (cstr "A"))) ↔ FewLabels (cstr "a") :=
  resolveRecord_reference_iff
    { bytes := queryBytes [cstr "a"] DNS_TYPE_A, large_enough := by decide, fits := by decide }
    (parsedQuestion [cstr "a"] DNS_TYPE_A) (by decide +kernel)

/-! ## One store -/

/-- The wildcard keys that are tried get shorter and shorter. -/
theorem sorted_wildcardKeys (labels : List CString) (type : CString) :
    ((labels.tails.filter (· ≠ [])).map fun suffix =>
      recordKey (cstr "wildcard") (wildcardDomain suffix) type).Pairwise
        fun longer shorter => shorter.length < longer.length := by
  induction labels with
  | nil => exact List.Pairwise.nil
  | cons label labels ih =>
      rw [List.tails_cons, List.filter_cons_of_pos (by simp), List.map_cons, List.pairwise_cons]
      refine ⟨fun key member => ?_, ih⟩
      obtain ⟨suffix, inside, rfl⟩ := List.mem_map.mp member
      obtain ⟨front, rfl⟩ := (List.mem_tails _ _).mp (List.mem_filter.mp inside).1
      simp only [recordKey, List.length_append, length_wildcardDomain, List.flatMap_cons,
        List.flatMap_append]
      have dot : (cstr ".").length = 1 := rfl
      omega

/-- Only keys with a record count. -/
theorem findSome?_filter_held {store : Store} (keys : List CString) :
    keys.findSome? store.find = (keys.filter fun key => (store.find key).isSome).findSome?
      store.find := by
  induction keys with
  | nil => rfl
  | cons key keys ih =>
      cases held : store.find key with
      | none =>
          rw [List.findSome?_cons, held, List.filter_cons_of_neg (by simp [held])]
          exact ih
      | some record =>
          rw [List.findSome?_cons, held, List.filter_cons_of_pos (by simp [held]),
            List.findSome?_cons, held]

/-- Two searches from the longest key on find the same when they try the same of the keys
with a record. -/
theorem findSome?_of_sorted {store : Store} {keys others : List CString}
    (sorted : keys.Pairwise fun longer shorter => shorter.length < longer.length)
    (othersSorted : others.Pairwise fun longer shorter => shorter.length < longer.length)
    (shared : ∀ key, (store.find key).isSome → (key ∈ keys ↔ key ∈ others)) :
    keys.findSome? store.find = others.findSome? store.find := by
  have nodup {list : List CString}
      (sorted : list.Pairwise fun longer shorter => shorter.length < longer.length) : list.Nodup :=
    sorted.imp fun less same => by rw [same] at less; exact lt_irrefl _ less
  rw [findSome?_filter_held keys, findSome?_filter_held others]
  congr 1
  refine List.Perm.eq_of_pairwise (fun first second _ _ less more => by omega) (sorted.filter _)
    (othersSorted.filter _) ?_
  refine (List.perm_ext_iff_of_nodup ((nodup sorted).filter _)
    ((nodup othersSorted).filter _)).mpr fun key => ?_
  simp only [List.mem_filter]
  exact and_congr_left fun held => shared key held

/-- **In one store** both searches find the same unless it holds a record under a key that
only one of them tries. -/
theorem resolveRecord_of_store {store : Store} {domain type : CString}
    (shared : ∀ record ∈ store,
      (record.key ∈ lookupKeys domain type ↔ record.key ∈ referenceKeys domain type)) :
    resolveRecord store domain type = .ok (referenceRecord store domain type) := by
  have reference : referenceKeys domain type = recordKey (cstr "base") domain type ::
      recordKey (cstr "subdomain") domain type :: (properSuffixes domain).map fun labels =>
        recordKey (cstr "wildcard") (wildcardDomain labels) type := by
    rw [referenceKeys]
    congr 2
    refine List.map_congr_left fun labels member => ?_
    rw [wildcardDomain_eq (by simpa using (List.mem_filter.mp member).2)]
  have same : ((searchedSuffixes domain).map fun labels =>
        recordKey (cstr "wildcard") (wildcardDomain labels) type).findSome? store.find =
      ((properSuffixes domain).map fun labels =>
        recordKey (cstr "wildcard") (wildcardDomain labels) type).findSome? store.find := by
    refine findSome?_of_sorted (sorted_wildcardKeys _ type) (sorted_wildcardKeys _ type)
      fun key held => ?_
    obtain ⟨record, found⟩ := Option.isSome_iff_exists.mp held
    obtain ⟨member, rfl⟩ := KeyedTable.find_eq_some_iff.mp found
    have both := shared record member
    rw [reference, lookupKeys] at both
    -- a wildcard key is none of the other two
    have behind {suffixes : List Name} {others : List CString}
        (inside : record.key ∈ suffixes.map fun labels =>
          recordKey (cstr "wildcard") (wildcardDomain labels) type)
        (tried : record.key ∈ recordKey (cstr "base") domain type ::
          recordKey (cstr "subdomain") domain type :: others) : record.key ∈ others := by
      obtain ⟨labels, _, same⟩ := List.mem_map.mp inside
      rw [← same] at tried ⊢
      rcases List.mem_cons.mp tried with base | tried
      · cases base
      rcases List.mem_cons.mp tried with subdomain | tried
      · cases subdomain
      · exact tried
    constructor
    · intro inside
      exact behind inside (both.mp (List.mem_cons_of_mem _ (List.mem_cons_of_mem _ inside)))
    · intro inside
      exact behind inside (both.mpr (List.mem_cons_of_mem _ (List.mem_cons_of_mem _ inside)))
  rw [resolveRecord_eq, lookup, referenceRecord, reference, lookupKeys, List.findSome?_cons,
    List.findSome?_cons, List.findSome?_cons, List.findSome?_cons, same]

/-- A name with twelve labels is not found under the wildcard of its last
label. -/
theorem not_reference_of_twelve_labels :
    ¬ ∀ (store : Store) (datagram : Datagram) (query : ParsedQuery),
      parseDNSQuery datagram.bytes 256 16 = .ok (some query) →
        resolveRecord store query.domain query.typeString =
          .ok (referenceRecord store query.domain query.typeString) := by
  intro all
  have same := all
    (KeyedTable.empty.replace
      { domain := cstr "*.b", type := cstr "A", key := cstr "wildcard_*.b_A",
        values := [cstr "192.0.2.1"] })
    { bytes := queryBytes (List.replicate 11 (cstr "a") ++ [cstr "b"]) DNS_TYPE_A,
      large_enough := by decide, fits := by decide }
    (parsedQuestion (List.replicate 11 (cstr "a") ++ [cstr "b"]) DNS_TYPE_A) (by decide +kernel)
  exact absurd same (by decide +kernel)

end DnsServer
