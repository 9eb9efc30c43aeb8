import DnsServer.Hashing.Buckets

/-!
# Doubling the buckets

`HASH_EXPAND_BUCKETS` moves the elements one by one into an array of twice as many
buckets. Between two of its steps the new buckets hold the elements that have been
moved, while the others still hang together by their old `hh_next`. Afterwards the
same elements are in the table, in the same order (`hashExpandBuckets_keeps`).

The number of buckets is a power of two. The macro shifts by its logarithm, which is
defined as long as no array of `2 ^ 32` buckets can be allocated.
-/

set_option autoImplicit false

namespace DnsServer

namespace Uthash

open LinkedList

variable {κ α : Type}

/-! ## Runs that may end the program -/

/-- The run ends the program where something it asks for is refused, and returns a value
of which something holds where nothing is. Either way it meets no fault. -/
def Ends {β : Type} (refused : Prop) (run : Run β) (post : β → Prop) : Prop :=
  refused ∧ run = .error .exit ∨ ¬ refused ∧ ∃ value, run = .ok value ∧ post value

namespace Ends

variable {β γ : Type} {refused : Prop} {run : Run β} {middle : β → Prop}

theorem exits (refused_ : refused) (exit : run = .error .exit) : Ends refused run middle :=
  .inl ⟨refused_, exit⟩

theorem of_ok {value : β} (granted : ¬ refused) (returns : run = .ok value)
    (holds : middle value) : Ends refused run middle :=
  .inr ⟨granted, value, returns, holds⟩

/-- A run followed by another one: either of them may be refused something. -/
theorem bind {next : β → Run γ} {post : γ → Prop} {later : β → Prop} (first : Ends refused run middle)
    (second : ∀ value, middle value → Ends (later value) (next value) post) :
    Ends (refused ∨ ∃ value, run = .ok value ∧ later value) (run >>= next) post := by
  rcases first with ⟨given, rfl⟩ | ⟨granted, value, rfl, holds⟩
  · exact .inl ⟨.inl given, rfl⟩
  · have which : (refused ∨ ∃ other, (Except.ok value : Run β) = .ok other ∧ later other) ↔
        later value := by
      simp [granted]
    rw [which]
    exact second value holds

/-- A run followed by one that is refused nothing. -/
theorem followed {next : β → Run γ} {post : γ → Prop} (first : Ends refused run middle)
    (second : ∀ value, middle value → ∃ result, next value = .ok result ∧ post result) :
    Ends refused (run >>= next) post := by
  rcases first with ⟨given, rfl⟩ | ⟨granted, value, rfl, holds⟩
  · exact .inl ⟨given, rfl⟩
  · exact .inr ⟨granted, second value holds⟩

theorem imp {post : β → Prop} (ends : Ends refused run middle)
    (weaker : ∀ value, middle value → post value) : Ends refused run post :=
  ends.imp_right fun ⟨granted, value, returns, holds⟩ =>
    ⟨granted, value, returns, weaker value holds⟩

theorem congr {other : Prop} (ends : Ends refused run middle) (same : refused ↔ other) :
    Ends other run middle :=
  propext same ▸ ends

/-- A run that is not refused anything returns. -/
theorem returns (ends : Ends refused run middle) (notExit : run ≠ .error .exit) :
    ∃ value, run = .ok value ∧ middle value :=
  ends.elim (fun refusal => absurd refusal.2 notExit) And.right

end Ends

/-! ## Moving the elements -/

@[simp] theorem counted_hh_head (bucket : UTHashBucket) (ideal : UInt32) :
    (bucket.counted ideal).hh_head = bucket.hh_head := by
  simp only [UTHashBucket.counted]
  split <;> rfl

@[simp] theorem counted_count (bucket : UTHashBucket) (ideal : UInt32) :
    (bucket.counted ideal).count = bucket.count + 1 := by
  simp only [UTHashBucket.counted]
  split <;> rfl

/-- The inner loop moves the rest of an old chain. -/
theorem expandChain_moves {num_buckets : UInt32} (ideal : UInt32) {rest : List Addr} :
    ∀ {bound : Nat} {expansion : Expansion κ α} {members : Set Addr}, rest.length < bound →
      Chained expansion.blocks.hhNext rest → rest.Nodup →
      (∀ a ∈ rest, a ∉ members ∧ ∃ element, expansion.blocks.elements a = some element) →
      Filled expansion.blocks num_buckets expansion.buckets members →
      ∃ moved, expandChain num_buckets ideal bound rest.head? expansion = .ok moved ∧
        KeepsOrder expansion.blocks moved.blocks ∧
        (∀ a ∉ rest, moved.blocks.hhNext a = expansion.blocks.hhNext a) ∧
        Filled moved.blocks num_buckets moved.buckets (members ∪ {a | a ∈ rest}) := by
  induction rest with
  | nil =>
      intro bound expansion members enough _ _ _ filled
      obtain ⟨bound, rfl⟩ := Nat.exists_eq_add_of_lt enough
      refine ⟨expansion, rfl, Keeps.refl _, fun _ _ => rfl, ?_⟩
      simpa using filled
  | cons thh rest ih =>
      intro bound expansion members enough chained distinct live filled
      obtain ⟨bound, rfl⟩ : ∃ left, bound = left + 1 := ⟨bound - 1, by omega⟩
      obtain ⟨absent, element, there⟩ := live thh List.mem_cons_self
      obtain ⟨fresh, others⟩ := List.nodup_cons.mp distinct
      obtain ⟨bucket, selected⟩ := filled.bucket_of_hash element.hh.hashv
      obtain ⟨written, run, keeps, frame, pushed⟩ :=
        filled.push there absent selected (bucket.counted ideal).expand_mult
      have on : element.hh.hh_next = rest.head? := by
        rw [← chained.1, Blocks.hhNext, Blocks.link_of_some there]
      have apart : ∀ a ∈ rest, a ≠ thh := fun a member same => fresh (same ▸ member)
      obtain ⟨moved, rerun, keepsRest, frameRest, done⟩ := @ih bound
        { blocks := written
          buckets := expansion.buckets.set (hashToBkt element.hh.hashv num_buckets)
            { bucket.counted ideal with hh_head := some thh }
          nonideal_items := expansion.nonideal_items +
            if (bucket.counted ideal).count > ideal then 1 else 0 }
        (insert thh members)
        (by rw [List.length_cons] at enough; omega)
        (chained.2.congr fun a member => frame a (apart a member)) others
        (fun a member => by
          obtain ⟨outside, other, present⟩ := live a (List.mem_cons_of_mem thh member)
          obtain ⟨changed, present, _⟩ := keeps.element present
          refine ⟨?_, changed, present⟩
          rintro (same | inside)
          · exact apart a member same
          · exact outside inside)
        (by simpa using pushed)
      refine ⟨moved, ?_, keeps.trans keepsRest, fun a outside => ?_, ?_⟩
      · simp only [List.head?_cons, expandChain, Blocks.handle_of_some there, run_bind_ok,
          bucketAt_of_getElem? selected, counted_hh_head, run, on]
        exact rerun
      · obtain ⟨different, elsewhere⟩ := not_or.mp (mt List.mem_cons.mpr outside)
        rw [frameRest a elsewhere, frame a different]
      · have sets : members ∪ {a | a ∈ thh :: rest} = insert thh members ∪ {a | a ∈ rest} := by
          ext a
          simp only [Set.mem_union, Set.mem_ofPred_eq, List.mem_cons, Set.mem_insert_iff]
          tauto
        rw [sets]
        exact done

/-- The outer loop over the first old buckets. -/
theorem expandBuckets_moves {num_buckets : UInt32} (ideal : UInt32) {bound : Nat} {blocks : Blocks κ α}
    {tbl : UTHashTable} {members : Set Addr}
    (filled : Filled blocks tbl.num_buckets tbl.buckets members)
    (enough : ∀ cells : List Addr, cells.Nodup → (∀ a ∈ cells, a ∈ members) →
      cells.length < bound)
    (start : Expansion κ α) (keepsStart : start.blocks = blocks)
    (fresh : Filled blocks num_buckets start.buckets ∅) :
    ∀ count ≤ tbl.num_buckets.toNat, ∃ moved,
      (List.range count).foldlM (fun expansion i => do
          let bucket ← bucketAt tbl.buckets i
          expandChain num_buckets ideal bound bucket.hh_head expansion) start = .ok moved ∧
        KeepsOrder blocks moved.blocks ∧
        (∀ a, ¬(a ∈ members ∧ hashToBkt (blocks.hashv a) tbl.num_buckets < count) →
          moved.blocks.hhNext a = blocks.hhNext a) ∧
        Filled moved.blocks num_buckets moved.buckets
          {a | a ∈ members ∧ hashToBkt (blocks.hashv a) tbl.num_buckets < count} := by
  intro count
  induction count with
  | zero =>
      intro _
      refine ⟨start, rfl, keepsStart ▸ Keeps.refl _, fun _ _ => by rw [keepsStart], ?_⟩
      rw [keepsStart]
      simpa using fresh
  | succ count ih =>
      intro inside
      obtain ⟨moved, run, keeps, frame, done⟩ := ih (by omega)
      have there : tbl.buckets[count]? = some (tbl.buckets.get ⟨count, by rw [filled.size]; omega⟩) :=
        List.getElem?_eq_getElem _
      obtain ⟨cells, distinct, mem, front, _, linked⟩ := filled.chain count _ there
      have contained : ∀ a ∈ cells, a ∈ members := fun a member => ((mem a).mp member).1
      have apart : ∀ a ∈ cells,
          ¬(a ∈ members ∧ hashToBkt (blocks.hashv a) tbl.num_buckets < count) := by
        rintro a member ⟨_, earlier⟩
        rw [((mem a).mp member).2] at earlier
        exact lt_irrefl count earlier
      obtain ⟨next, rerun, keepsNext, frameNext, doneNext⟩ := expandChain_moves
        ideal (enough cells distinct contained)
        (linked.chained.congr fun a member => frame a (apart a member)) distinct
        (fun a member => by
          obtain ⟨element, present⟩ := filled.live a (contained a member)
          obtain ⟨changed, present, _⟩ := keeps.element present
          exact ⟨apart a member, changed, present⟩) done
      have sets : {a | a ∈ members ∧ hashToBkt (blocks.hashv a) tbl.num_buckets < count + 1} =
          {a | a ∈ members ∧ hashToBkt (blocks.hashv a) tbl.num_buckets < count} ∪
            {a | a ∈ cells} := by
        ext a
        simp only [Set.mem_ofPred_eq, Set.mem_union, mem, ← and_or_left, Nat.lt_succ_iff_lt_or_eq]
      refine ⟨next, ?_, keeps.trans keepsNext, fun a outside => ?_, ?_⟩
      · rw [List.range_succ, List.foldlM_append, run, run_bind_ok]
        simp only [List.foldlM_cons, List.foldlM_nil, bucketAt_of_getElem? there, run_bind_ok,
          front, rerun, run_pure]
      · have unmoved : ¬(a ∈ members ∧ hashToBkt (blocks.hashv a) tbl.num_buckets < count) :=
          fun both => outside ⟨both.1, Nat.lt_succ_of_lt both.2⟩
        have elsewhere : a ∉ cells := fun member =>
          outside ⟨contained a member, by rw [((mem a).mp member).2]; exact Nat.lt_succ_self _⟩
        rw [frameNext a elsewhere, frame a unmoved]
      · rw [sets]
        exact doneNext

/-! ## The size of a table -/

/-- The number of buckets is a power of two whose logarithm the table knows. -/
structure Sized (tbl : UTHashTable) : Prop where
  power : tbl.num_buckets.toNat = 2 ^ tbl.log2_num_buckets.toNat
  initial : 5 ≤ tbl.log2_num_buckets.toNat
  limit : tbl.log2_num_buckets.toNat ≤ 31

/-- No array of `2 ^ 32` buckets is allocated. -/
def Offer.Limited (offer : Offer) : Prop := offer.grants (2 ^ 36) = false

namespace Sized

variable {tbl : UTHashTable}

/-- A table that is granted twice its buckets has less than the largest number. -/
theorem below (sized : Sized tbl) {offer : Offer} (limited : offer.Limited)
    (granted : offer.grants (sizeofBucket * (tbl.num_buckets.toNat * 2)) = true) :
    tbl.log2_num_buckets.toNat < 31 := by
  refine lt_of_le_of_ne sized.limit fun top => ?_
  rw [sized.power, top] at granted
  exact absurd granted (by rw [Bool.not_eq_true]; exact limited)

theorem double_toNat (sized : Sized tbl) (below : tbl.log2_num_buckets.toNat < 31) :
    (tbl.num_buckets * 2).toNat = tbl.num_buckets.toNat * 2 := by
  have small : 2 ^ tbl.log2_num_buckets.toNat ≤ 2 ^ 30 :=
    Nat.pow_le_pow_right (by decide) (by omega)
  rw [UInt32.toNat_mul, sized.power]
  have two : (2 : UInt32).toNat = 2 := rfl
  rw [two]
  exact Nat.mod_eq_of_lt (by omega)

theorem succ_toNat (below : tbl.log2_num_buckets.toNat < 31) :
    (tbl.log2_num_buckets + 1).toNat = tbl.log2_num_buckets.toNat + 1 := by
  rw [UInt32.toNat_add]
  exact Nat.mod_eq_of_lt (by have one : (1 : UInt32).toNat = 1 := rfl; omega)

end Sized

/-- The bucket that a hash value selects gets so long that the buckets are doubled, and
the array for twice as many is refused. -/
def Offer.RefusesBuckets (offer : Offer) (tbl : UTHashTable) (hashv : UInt32) : Prop :=
  ∃ bucket, tbl.buckets[hashToBkt hashv tbl.num_buckets]? = some bucket ∧
    bucket.count + 1 ≥ (bucket.expand_mult + 1) * 10 ∧ tbl.noexpand = 0 ∧
    offer.grants (sizeofBucket * (tbl.num_buckets.toNat * 2)) = false

/-- Doubling the buckets keeps the elements, their order and the counts of the table. -/
theorem hashExpandBuckets_keeps {bound : Nat} {blocks : Blocks κ α} {t : Addr} {tbl : UTHashTable}
    {members : Set Addr} {offer : Offer} (there : blocks.tables t = some tbl)
    (filled : Filled blocks tbl.num_buckets tbl.buckets members) (sized : Sized tbl)
    (enough : ∀ cells : List Addr, cells.Nodup → (∀ a ∈ cells, a ∈ members) →
      cells.length < bound)
    (limited : offer.Limited) :
    Ends (offer.grants (sizeofBucket * (tbl.num_buckets.toNat * 2)) = false)
      (hashExpandBuckets bound blocks t offer) fun written => ∃ changed,
      KeepsOrder (blocks.withTable t changed) written ∧
        Filled written changed.num_buckets changed.buckets members ∧ Sized changed ∧
        changed.tail = tbl.tail ∧ changed.num_items = tbl.num_items := by
  rw [hashExpandBuckets, Blocks.table_of_some there, run_bind_ok]
  by_cases granted : offer.grants (sizeofBucket * (tbl.num_buckets.toNat * 2)) = true
  · have below := sized.below limited granted
    have double := sized.double_toNat below
    have shift : tbl.log2_num_buckets + 1 < 32 := by
      rw [UInt32.lt_iff_toNat_lt, Sized.succ_toNat below]
      exact Nat.lt_of_lt_of_le (Nat.succ_lt_succ below) (by decide)
    obtain ⟨ideal, shifts⟩ : ∃ ideal, idealChainMaxlen tbl = .ok ideal := by
      rw [idealChainMaxlen, if_pos shift]
      exact ⟨_, rfl⟩
    have positive : 0 < (tbl.num_buckets * 2).toNat := by
      have := filled.positive
      omega
    have fresh := Filled.replicate blocks positive
    rw [double] at fresh
    obtain ⟨moved, run, keeps, _, done⟩ := expandBuckets_moves ideal filled enough
      { blocks, buckets := _, nonideal_items := 0 } rfl fresh
      tbl.num_buckets.toNat le_rfl
    have all : {a | a ∈ members ∧ hashToBkt (blocks.hashv a) tbl.num_buckets <
        tbl.num_buckets.toNat} = members := by
      ext a
      exact and_iff_left (hashToBkt_lt _ filled.positive)
    rw [all] at done
    rw [if_pos granted, shifts, run_bind_ok]
    simp only [run, run_bind_ok]
    rw [Blocks.setTable_of_some ((congrFun keeps.tables t).trans there)]
    refine Ends.of_ok (by simp [granted]) rfl ⟨_, keeps.withTable t _, ?_, ?_, ?_, ?_⟩
    · exact done.congr done.live (fun _ _ => rfl) (fun _ _ => rfl) fun _ _ => rfl
    · constructor
      · show (tbl.num_buckets * 2).toNat = 2 ^ (tbl.log2_num_buckets + 1).toNat
        rw [double, Sized.succ_toNat below, sized.power, Nat.pow_succ]
      · show 5 ≤ (tbl.log2_num_buckets + 1).toNat
        rw [Sized.succ_toNat below]
        exact Nat.le_succ_of_le sized.initial
      · show (tbl.log2_num_buckets + 1).toNat ≤ 31
        rw [Sized.succ_toNat below]
        exact below
    · rfl
    · rfl
  · rw [if_neg granted]
    exact Ends.exits (by simpa using granted) rfl

/-- Adding an element to its bucket, with the expansion that may follow. -/
theorem hashAddToBkt_keeps {bound : Nat} {blocks : Blocks κ α} {t : Addr} {tbl : UTHashTable}
    {members : Set Addr} {offer : Offer} (there : blocks.tables t = some tbl)
    (filled : Filled blocks tbl.num_buckets tbl.buckets members) (sized : Sized tbl)
    {addhh : Addr} {element : Element κ α} (present : blocks.elements addhh = some element)
    (own : element.hh.tbl = t) (absent : addhh ∉ members)
    (enough : ∀ cells : List Addr, cells.Nodup → (∀ a ∈ cells, a ∈ insert addhh members) →
      cells.length < bound)
    (limited : offer.Limited) :
    Ends (offer.RefusesBuckets tbl element.hh.hashv)
      (hashAddToBkt bound blocks t (hashToBkt element.hh.hashv tbl.num_buckets) addhh offer)
      fun written => ∃ changed,
        KeepsOrder (blocks.withTable t changed) written ∧
          Filled written changed.num_buckets changed.buckets (insert addhh members) ∧
          Sized changed ∧ changed.tail = tbl.tail ∧ changed.num_items = tbl.num_items := by
  obtain ⟨bucket, selected⟩ := filled.bucket_of_hash element.hh.hashv
  obtain ⟨written, run, keeps, _, pushed⟩ :=
    filled.push present absent selected bucket.expand_mult
  obtain ⟨now, presentNow, same⟩ := keeps.element present
  have ownNow : now.hh.tbl = t := (congrArg (fun bare => bare.2.1) same).trans own
  let added : UTHashTable :=
    { tbl with
      buckets := tbl.buckets.set (hashToBkt element.hh.hashv tbl.num_buckets)
        { bucket with hh_head := some addhh, count := bucket.count + 1 } }
  have filledNow : Filled (written.withTable t added) added.num_buckets added.buckets
      (insert addhh members) :=
    pushed.congr pushed.live (fun _ _ => rfl) (fun _ _ => rfl) fun _ _ => rfl
  have sizedNow : Sized added := ⟨sized.power, sized.initial, sized.limit⟩
  have presentThere : (written.withTable t added).elements addhh = some now := presentNow
  rw [hashAddToBkt, Blocks.table_of_some there, run_bind_ok, bucketAt_of_getElem? selected,
    run_bind_ok]
  simp only [run, run_bind_ok]
  rw [Blocks.setTable_of_some ((congrFun keeps.tables t).trans there), run_bind_ok,
    Blocks.handle_of_some presentThere, run_bind_ok, ownNow,
    Blocks.table_of_some (Blocks.withTable_tables_self _ _ _), run_bind_ok]
  have refuses : offer.RefusesBuckets tbl element.hh.hashv ↔
      (bucket.count + 1 ≥ (bucket.expand_mult + 1) * 10 ∧ tbl.noexpand = 0) ∧
        offer.grants (sizeofBucket * (tbl.num_buckets.toNat * 2)) = false := by
    simp only [Offer.RefusesBuckets, selected, Option.some.injEq, exists_eq_left', and_assoc]
  split
  · next long =>
    refine ((hashExpandBuckets_keeps (Blocks.withTable_tables_self _ _ _) filledNow sizedNow enough
      limited).congr (by rw [refuses]; exact (and_iff_right long).symm)).imp fun last => ?_
    rintro ⟨changed, kept, filledLast, sizedLast, tail, items⟩
    refine ⟨changed, ?_, filledLast, sizedLast, tail, items⟩
    rw [Blocks.withTable_withTable] at kept
    exact (keeps.withTable t changed).trans kept
  · next short =>
    exact Ends.of_ok (fun given => short (refuses.mp given).1) rfl
      ⟨added, keeps.withTable t added, filledNow, sizedNow, rfl, rfl⟩

end Uthash

end DnsServer
