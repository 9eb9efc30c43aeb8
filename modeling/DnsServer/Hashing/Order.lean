import Mathlib.Data.List.Perm.Subperm
import DnsServer.Hashing.Expanding

/-!
# The order of the elements

Besides its buckets a table threads all its elements in the order in which they were
added. `Wired` says that a table holds a sequence of elements in both ways. An
element is added behind all others (`Wired.append`, `hashAddKeyptr_first`) and taken out of
its place (`Wired.delete`); where it was the last one, the table goes with it.
-/

set_option autoImplicit false

namespace DnsServer

namespace Uthash

open LinkedList

variable {κ α : Type}

/-- The parts of an element that do not belong to the order. -/
def Element.placed (element : Element κ α) : α × Addr × Option Addr × Option Addr × κ × UInt32 :=
  (element.value, element.hh.tbl, element.hh.hh_prev, element.hh.hh_next, element.hh.key,
    element.hh.hashv)

/-- What an element stores. -/
def Element.contents (element : Element κ α) : α × κ := (element.value, element.hh.key)

/-- What does not belong to the order is all that the buckets see. -/
theorem Filled.of_placed {blocks written : Blocks κ α} {num_buckets : UInt32}
    {buckets : List UTHashBucket} {members : Set Addr}
    (filled : Filled blocks num_buckets buckets members)
    (same : ∀ a ∈ members,
      (written.elements a).map Element.placed = (blocks.elements a).map Element.placed) :
    Filled written num_buckets buckets members := by
  refine filled.congr (fun a member => ?_) (fun a member => ?_) (fun a member => ?_)
    fun a member => ?_
  · obtain ⟨old, there⟩ := filled.live a member
    have seen := same a member
    rw [there, Option.map_some, Option.map_eq_some_iff] at seen
    exact seen.imp fun _ now => now.1
  · exact hashv_of_view (same a member) (fun placed => placed.2.2.2.2.2) fun _ => rfl
  · exact link_of_view (same a member) (fun placed => placed.2.2.1) fun _ => rfl
  · exact link_of_view (same a member) (fun placed => placed.2.2.2.1) fun _ => rfl

/-- A table holds a sequence of elements, in their order and in its buckets. -/
structure Wired (hash : κ → UInt32) (blocks : Blocks κ α) (t : Addr) (tbl : UTHashTable)
    (order : List Addr) : Prop where
  there : blocks.tables t = some tbl
  distinct : order.Nodup
  linked : Linked blocks.prev blocks.next order
  live : ∀ a ∈ order, ∃ element, blocks.elements a = some element ∧ element.hh.tbl = t ∧
    element.hh.hashv = hash element.hh.key
  tail : tbl.tail = order.getLast?
  items : tbl.num_items = UInt32.ofNat order.length
  filled : Filled blocks tbl.num_buckets tbl.buckets {a | a ∈ order}
  sized : Sized tbl

/-- Different cells of a sequence are not more than its length. -/
theorem length_lt_of_subset {cells order : List Addr} {bound : Nat} (distinct : cells.Nodup)
    (inside : ∀ a ∈ cells, a ∈ order) (enough : order.length < bound) : cells.length < bound :=
  lt_of_le_of_lt (List.subperm_of_subset distinct inside).length_le enough

/-- An element stays in its table when its handle shows the same table, key and hash value. -/
theorem live_of_view {ω : Type} {view : Element κ α → ω} {hash : κ → UInt32} {t a : Addr}
    {blocks written : Blocks κ α}
    (same : (written.elements a).map view = (blocks.elements a).map view)
    (seen : ω → Addr × κ × UInt32)
    (sees : ∀ element, seen (view element) = (element.hh.tbl, element.hh.key, element.hh.hashv))
    (live : ∃ element, blocks.elements a = some element ∧ element.hh.tbl = t ∧
      element.hh.hashv = hash element.hh.key) :
    ∃ element, written.elements a = some element ∧ element.hh.tbl = t ∧
      element.hh.hashv = hash element.hh.key := by
  obtain ⟨old, there, own, hashed⟩ := live
  rw [there, Option.map_some, Option.map_eq_some_iff] at same
  obtain ⟨now, present, same⟩ := same
  have fields := (sees now).symm.trans ((congrArg seen same).trans (sees old))
  obtain ⟨table, key, value⟩ : now.hh.tbl = old.hh.tbl ∧ now.hh.key = old.hh.key ∧
      now.hh.hashv = old.hh.hashv := by simpa only [Prod.mk.injEq] using fields
  exact ⟨now, present, table.trans own, by rw [value, key, hashed]⟩

namespace Wired

variable {hash : κ → UInt32} {blocks : Blocks κ α} {t : Addr} {tbl : UTHashTable}
  {order : List Addr}

/-- Other elements and other tables do not matter. -/
theorem congr {other : Blocks κ α} (wired : Wired hash blocks t tbl order)
    (table : other.tables t = blocks.tables t)
    (elements : ∀ a ∈ order, other.elements a = blocks.elements a) :
    Wired hash other t tbl order where
  there := table.trans wired.there
  distinct := wired.distinct
  linked := wired.linked.congr
    (fun a member => by rw [Blocks.prev, Blocks.link, elements a member, Blocks.prev, Blocks.link])
    fun a member => by rw [Blocks.next, Blocks.link, elements a member, Blocks.next, Blocks.link]
  live := fun a member => by
    rw [elements a member]
    exact wired.live a member
  tail := wired.tail
  items := wired.items
  filled := wired.filled.congr
    (fun a member => by
      rw [elements a member]
      exact wired.filled.live a member)
    (fun a member => by rw [Blocks.hashv, elements a member, Blocks.hashv])
    (fun a member => by
      rw [Blocks.hhPrev, Blocks.link, elements a member, Blocks.hhPrev, Blocks.link])
    fun a member => by
      rw [Blocks.hhNext, Blocks.link, elements a member, Blocks.hhNext, Blocks.link]
  sized := wired.sized

/-- A table is wired when the order is right before the buckets are, and they follow. -/
theorem of_keeps {written : Blocks κ α} {changed : UTHashTable}
    (keeps : KeepsOrder (blocks.withTable t changed) written)
    (distinct : order.Nodup) (linked : Linked blocks.prev blocks.next order)
    (live : ∀ a ∈ order, ∃ element, blocks.elements a = some element ∧ element.hh.tbl = t ∧
      element.hh.hashv = hash element.hh.key)
    (tail : changed.tail = order.getLast?) (items : changed.num_items = UInt32.ofNat order.length)
    (filled : Filled written changed.num_buckets changed.buckets {a | a ∈ order})
    (sized : Sized changed) : Wired hash written t changed order where
  there := (congrFun keeps.tables t).trans (Blocks.withTable_tables_self _ _ _)
  distinct
  linked := by
    rw [keeps.prev, keeps.next]
    exact linked
  live := fun a member =>
    live_of_view (keeps.elements a) (fun bare => (bare.2.1, bare.2.2.2.2)) (fun _ => rfl)
      (live a member)
  tail
  items
  filled
  sized

end Wired

/-! ## Adding -/

section Adding

variable {hash : κ → UInt32} {blocks : Blocks κ α} {t : Addr} {tbl : UTHashTable}
  {order : List Addr} {bound : Nat} {add : Addr} {key : κ} {offer : Offer}

/-- What an addition leaves: the new element stores its value under the key, all other
elements store what they stored, and no other table is touched. -/
structure Added (blocks : Blocks κ α) (t add : Addr) (value : α) (key : κ)
    (written : Blocks κ α) : Prop where
  own : (written.elements add).map Element.contents = some (value, key)
  others : ∀ a ≠ add,
    (written.elements a).map Element.contents = (blocks.elements a).map Element.contents
  tables : ∀ other ≠ t, written.tables other = blocks.tables other

/-- `HASH_ADD_TO_TABLE` with an element that is in the order already. -/
theorem hashAddToTable_wires {order : List Addr} (there : blocks.tables t = some tbl)
    (linked : Linked blocks.prev blocks.next (order ++ [add]))
    (live : ∀ a ∈ order ++ [add], ∃ element, blocks.elements a = some element ∧
      element.hh.tbl = t ∧ element.hh.hashv = hash element.hh.key)
    (distinct : (order ++ [add]).Nodup) (tail : tbl.tail = some add)
    (items : tbl.num_items = UInt32.ofNat order.length)
    (filled : Filled blocks tbl.num_buckets tbl.buckets {a | a ∈ order}) (sized : Sized tbl)
    {element : Element κ α} (present : blocks.elements add = some element) {head : Addr}
    (first : head ∈ order ++ [add]) (enough : order.length + 1 < bound) (limited : offer.Limited) :
    Ends (offer.RefusesBuckets tbl element.hh.hashv)
      (hashAddToTable bound blocks head element.hh.hashv add offer) fun written => ∃ changed,
      Wired hash written t changed (order ++ [add]) ∧
        KeepsOrder (blocks.withTable t changed) written := by
  obtain ⟨_, headThere, headOwn, _⟩ := live head first
  obtain ⟨_, presentToo, own, _⟩ := live add (List.mem_append_right order List.mem_cons_self)
  cases present.symm.trans presentToo
  let counted : UTHashTable := { tbl with num_items := tbl.num_items + 1 }
  have members : insert add {a | a ∈ order} = {a | a ∈ order ++ [add]} := by
    ext a
    simp only [Set.mem_insert_iff, Set.mem_ofPred_eq, List.mem_append, List.mem_singleton]
    exact or_comm
  have absent : add ∉ order := by
    rw [← List.concat_eq_append, List.nodup_concat] at distinct
    exact distinct.1
  rw [hashAddToTable, Blocks.handle_of_some headThere, run_bind_ok, headOwn,
    Blocks.table_of_some there, run_bind_ok, Blocks.setTable_of_some there, run_bind_ok]
  have filledNow : Filled (blocks.withTable t counted) counted.num_buckets counted.buckets
      {a | a ∈ order} :=
    filled.congr filled.live (fun _ _ => rfl) (fun _ _ => rfl) fun _ _ => rfl
  refine (hashAddToBkt_keeps (Blocks.withTable_tables_self blocks t counted) filledNow
    ⟨sized.power, sized.initial, sized.limit⟩ present own absent ?_ limited).imp fun written => ?_
  · intro cells single inside
    rw [members] at inside
    exact length_lt_of_subset single inside (by simpa using enough)
  · rintro ⟨changed, keeps, filledNow, sizedNow, tailNow, itemsNow⟩
    rw [Blocks.withTable_withTable] at keeps
    rw [members] at filledNow
    refine ⟨changed, Wired.of_keeps keeps distinct linked live ?_ ?_ filledNow sizedNow, keeps⟩
    · rw [tailNow, List.getLast?_concat]
      exact tail
    · rw [itemsNow, List.length_append, List.length_singleton]
      show tbl.num_items + 1 = _
      rw [items, UInt32.ofNat_add]
      rfl

/-- Nothing but an element and a table has been written. -/
theorem Added.of_keeps {blocks middle written : Blocks κ α} {changed : UTHashTable}
    {element : Element κ α} (keeps : KeepsOrder (middle.withTable t changed) written)
    (present : middle.elements add = some element)
    (others : ∀ a ≠ add,
      (middle.elements a).map Element.contents = (blocks.elements a).map Element.contents)
    (tables : ∀ other ≠ t, middle.tables other = blocks.tables other) :
    Added blocks t add element.value element.hh.key written where
  own := by
    have same := keeps.read (fun bare => (bare.1, bare.2.2.2.2.1)) add
    rw [Blocks.withTable_elements, present] at same
    exact same
  others := fun a different =>
    (keeps.read (fun bare => (bare.1, bare.2.2.2.2.1)) a).trans (others a different)
  tables := fun other different => by
    rw [keeps.tables, Blocks.withTable_tables_of_ne middle changed different]
    exact tables other different

theorem sized_newTable (head : Addr) : Sized (newTable head) where
  power := rfl
  initial := Nat.le_refl 5
  limit := Nat.le_of_ble_eq_true rfl

/-- The table or its buckets are refused. -/
def Offer.RefusesTable (offer : Offer) : Prop :=
  offer.table = none ∨ offer.grants (32 * sizeofBucket) = false

/-- A new table has short buckets: nothing more is asked for. -/
theorem not_refusesBuckets_newTable (offer : Offer) (head : Addr) (hashv : UInt32) :
    ¬ offer.RefusesBuckets (newTable head) hashv := by
  rintro ⟨bucket, selected, long, _⟩
  simp only [newTable, List.getElem?_replicate, Option.ite_none_right_eq_some,
    Option.some.injEq] at selected
  obtain ⟨_, rfl⟩ := selected
  exact absurd long (by decide)

/-- The first element brings the table with it. -/
theorem hashAddKeyptr_first {element : Element κ α} (there : blocks.elements add = some element)
    (free : ∀ t, blocks.tables t = none) (enough : 1 < bound) (limited : offer.Limited) :
    Ends offer.RefusesTable (hashAddKeyptr hash bound blocks none key add offer) fun result =>
      result.2 = some add ∧ ∃ t changed,
        Wired hash result.1 t changed [add] ∧ Added blocks t add element.value key result.1 := by
  simp only [hashAddKeyptr, Blocks.modify_of_some there, run_bind_ok,
    Blocks.modify_of_some Blocks.put_elements_self, Blocks.put_put, hashMakeTable,
    Blocks.put_tables]
  cases offered : offer.table with
  | none => exact Ends.exits (.inl offered) rfl
  | some t =>
      have unused : ¬ (blocks.tables t).isSome := by simp [free t]
      by_cases granted : offer.grants (32 * sizeofBucket) = true
      · have given : ¬ offer.RefusesTable := by simp [Offer.RefusesTable, offered, granted]
        simp only [if_neg unused, if_pos granted, run_bind_ok, run_pure]
        let first : Element κ α :=
          { element with
            hh :=
              { element.hh with tbl := t, prev := none, next := none, key, hashv := hash key } }
        have present : (blocks.put add first).elements add = some first :=
          Blocks.put_elements_self
        let made : Blocks κ α := (blocks.put add first).withTable t (newTable add)
        have linked : Linked made.prev made.next ([] ++ [add]) :=
          ⟨Blocks.link_of_some present _, Blocks.link_of_some present _, trivial⟩
        have live : ∀ a ∈ [] ++ [add], ∃ element, made.elements a = some element ∧
            element.hh.tbl = t ∧ element.hh.hashv = hash element.hh.key := by
          intro a member
          rw [List.nil_append, List.mem_singleton] at member
          subst member
          exact ⟨first, present, rfl, rfl⟩
        have filled : Filled made (newTable add).num_buckets (newTable add).buckets
            {a | a ∈ ([] : List Addr)} := by
          have nothing : {a : Addr | a ∈ ([] : List Addr)} = ∅ := by simp
          rw [nothing]
          exact Filled.replicate made (by decide : 0 < (32 : UInt32).toNat)
        have presentNow : made.elements add = some first := present
        refine ((hashAddToTable_wires (Blocks.withTable_tables_self _ t (newTable add)) linked
          live (List.nodup_singleton add) rfl rfl filled (sized_newTable add) presentNow
          List.mem_cons_self enough limited).congr ?_).followed fun written => ?_
        · exact iff_of_false (not_refusesBuckets_newTable offer add _) given
        · rintro ⟨changed, wired, keeps⟩
          refine ⟨_, rfl, rfl, t, changed, wired, ?_⟩
          rw [Blocks.withTable_withTable] at keeps
          exact Added.of_keeps keeps present
            (fun a different => by rw [Blocks.put_elements_of_ne different]) fun _ _ => rfl
      · simp only [if_neg unused, if_neg granted]
        exact Ends.exits (.inr (by simpa using granted)) rfl

/-- The blocks with a new element behind the last one. -/
def threadBehind (blocks : Blocks κ α) (add last : Addr) (new lastElement : Element κ α) :
    Blocks κ α :=
  (blocks.put add new).put last { lastElement with hh := { lastElement.hh with next := some add } }

section Threading

variable {last : Addr} {new lastElement : Element κ α}

theorem threadBehind_new (different : last ≠ add) :
    (threadBehind blocks add last new lastElement).elements add = some new :=
  (Blocks.put_elements_of_ne different.symm).trans Blocks.put_elements_self

theorem threadBehind_placed (different : last ≠ add)
    (lastThere : blocks.elements last = some lastElement) {a : Addr} (other : a ≠ add) :
    ((threadBehind blocks add last new lastElement).elements a).map Element.placed =
      (blocks.elements a).map Element.placed := by
  have lastNow : (blocks.put add new).elements last = some lastElement :=
    (Blocks.put_elements_of_ne different).trans lastThere
  have keeps : Keeps Element.placed (blocks.put add new)
      (threadBehind blocks add last new lastElement) := Keeps.put lastNow rfl
  rw [keeps.elements a, Blocks.put_elements_of_ne other]

theorem threadBehind_linked (linked : Linked blocks.prev blocks.next order)
    (distinct : (order ++ [add]).Nodup) (isLast : order.getLast? = some last)
    (lastThere : blocks.elements last = some lastElement) (back : new.hh.prev = some last)
    (on : new.hh.next = none) :
    Linked (threadBehind blocks add last new lastElement).prev
      (threadBehind blocks add last new lastElement).next (order ++ [add]) := by
  have different : last ≠ add := by
    rw [← List.concat_eq_append, List.nodup_concat] at distinct
    exact fun same => distinct.1 (same ▸ List.mem_of_getLast? isLast)
  have joined := linked.concat distinct
  rw [isLast] at joined
  refine joined.congr (fun a _ => ?_) fun a _ => ?_
  · rw [threadBehind, Blocks.prev, put_link, put_link, back]
    refine congrFun (Function.update_eq_self_iff.mpr ?_) a
    rw [Function.update_of_ne different, Blocks.link_of_some lastThere]
  · rw [threadBehind, Blocks.next, put_link, put_link, on]
    rfl

end Threading

theorem hashAppendList_eq {head last : Addr} {element headElement lastElement : Element κ α}
    (there : blocks.elements add = some element) (headThere : blocks.elements head = some headElement)
    (headOwn : headElement.hh.tbl = t) (lastThere : blocks.elements last = some lastElement)
    (table : blocks.tables t = some tbl) (tail : tbl.tail = some last) (first : head ≠ add)
    (before : last ≠ add) :
    hashAppendList blocks head add =
      .ok ((threadBehind blocks add last
          { element with hh := { element.hh with prev := some last, next := none } }
          lastElement).withTable t { tbl with tail := some add }) := by
  have headKept (changed : Element κ α) : (blocks.put add changed).elements head = some headElement :=
    (Blocks.put_elements_of_ne first).trans headThere
  have lastKept (changed : Element κ α) : (blocks.put add changed).elements last = some lastElement :=
    (Blocks.put_elements_of_ne before).trans lastThere
  rw [hashAppendList, Blocks.modify_of_some there, run_bind_ok, Blocks.handle_of_some (headKept _),
    run_bind_ok, headOwn, Blocks.put_table, Blocks.table_of_some table, run_bind_ok,
    Blocks.modify_of_some Blocks.put_elements_self, run_bind_ok, Blocks.put_put, tail, deref,
    run_bind_ok, Blocks.modify_of_some (lastKept _), run_bind_ok]
  apply Blocks.setTable_of_some
  exact table

/-- Every other element goes behind the last one. -/
theorem Wired.append (wired : Wired hash blocks t tbl order) (filledOrder : order ≠ [])
    {element : Element κ α} (there : blocks.elements add = some element) (absent : add ∉ order)
    (enough : order.length + 1 < bound) (limited : offer.Limited) :
    Ends (offer.RefusesBuckets tbl (hash key))
      (hashAddKeyptr hash bound blocks order.head? key add offer) fun result =>
      result.2 = order.head? ∧ ∃ changed,
        Wired hash result.1 t changed (order ++ [add]) ∧
          Added blocks t add element.value key result.1 := by
  obtain ⟨head, rest, rfl⟩ := List.exists_cons_of_ne_nil filledOrder
  obtain ⟨last, isLast⟩ : ∃ last, (head :: rest).getLast? = some last :=
    Option.isSome_iff_exists.mp (by simp)
  have different : ∀ a ∈ head :: rest, a ≠ add := fun a member same => absent (same ▸ member)
  have lastMember : last ∈ head :: rest := List.mem_of_getLast? isLast
  obtain ⟨headElement, headThere, headOwn, _⟩ := wired.live head List.mem_cons_self
  obtain ⟨lastElement, lastThere, lastOwn, lastHashed⟩ := wired.live last lastMember
  have kept (changed : Element κ α) {a : Addr} (member : a ∈ head :: rest) :
      (blocks.put add changed).elements a = blocks.elements a :=
    Blocks.put_elements_of_ne (different a member)
  have distinct : (head :: rest ++ [add]).Nodup := by
    rw [← List.concat_eq_append, List.nodup_concat]
    exact ⟨absent, wired.distinct⟩
  -- the new element with all its fields, and the last one pointing to it
  let new : Element κ α :=
    { element with
      hh := { element.hh with tbl := t, prev := some last, next := none, key, hashv := hash key } }
  let threaded : Blocks κ α :=
    (threadBehind blocks add last new lastElement).withTable t { tbl with tail := some add }
  have newThere : threaded.elements add = some new := threadBehind_new (different last lastMember)
  have others : ∀ a ≠ add,
      (threaded.elements a).map Element.placed = (blocks.elements a).map Element.placed :=
    fun a other => threadBehind_placed (different last lastMember) lastThere other
  have live : ∀ a ∈ head :: rest ++ [add], ∃ element, threaded.elements a = some element ∧
      element.hh.tbl = t ∧ element.hh.hashv = hash element.hh.key := by
    intro a member
    rcases List.mem_append.mp member with before | own
    · exact live_of_view (others a (different a before)) (fun placed => (placed.2.1, placed.2.2.2.2))
        (fun _ => rfl) (wired.live a before)
    · rw [List.mem_singleton] at own
      subst own
      exact ⟨new, newThere, rfl, rfl⟩
  have chain : Linked threaded.prev threaded.next (head :: rest ++ [add]) :=
    threadBehind_linked wired.linked distinct isLast lastThere rfl rfl
  have filledNow : Filled threaded tbl.num_buckets tbl.buckets {a | a ∈ head :: rest} :=
    wired.filled.of_placed fun a member => others a (different a member)
  have headKept (changed : Element κ α) : (blocks.put add changed).elements head = some headElement :=
    (kept changed List.mem_cons_self).trans headThere
  rw [List.head?_cons]
  simp only [hashAddKeyptr, Blocks.modify_of_some there, run_bind_ok,
    Blocks.handle_of_some (headKept _), headOwn, Blocks.modify_of_some Blocks.put_elements_self,
    Blocks.put_put]
  rw [hashAppendList_eq Blocks.put_elements_self (headKept _) headOwn
    ((kept _ lastMember).trans lastThere) wired.there (wired.tail.trans isLast)
    (different head List.mem_cons_self) (different last lastMember), run_bind_ok, threadBehind,
    Blocks.put_put]
  refine (hashAddToTable_wires (Blocks.withTable_tables_self _ _ _) chain live distinct rfl
    wired.items filledNow
    ⟨wired.sized.power, wired.sized.initial, wired.sized.limit⟩ newThere
    (List.mem_append_left [add] List.mem_cons_self) enough limited).followed fun written => ?_
  rintro ⟨changed, rewired, keeps⟩
  refine ⟨_, rfl, rfl, changed, rewired, Added.of_keeps keeps newThere (fun a other => ?_)
    fun other apart => Blocks.withTable_tables_of_ne _ _ apart⟩
  have same := congrArg (Option.map fun placed => (placed.1, placed.2.2.2.2.1)) (others a other)
  rw [Option.map_map, Option.map_map] at same
  exact same

end Adding

/-! ## Deleting -/

section Deleting

variable {hash : κ → UInt32} {blocks : Blocks κ α} {t : Addr} {tbl : UTHashTable}
  {xs ys : List Addr} {a : Addr}

/-- What a deletion leaves: all elements store what they stored, no other table is
touched, and the table itself is given back with its last element. -/
structure Deleted (hash : κ → UInt32) (blocks : Blocks κ α) (t : Addr) (order : List Addr)
    (written : Blocks κ α) : Prop where
  contents : ∀ b, (written.elements b).map Element.contents =
    (blocks.elements b).map Element.contents
  tables : ∀ other ≠ t, written.tables other = blocks.tables other
  freed : order = [] → written.tables t = none
  wired : order ≠ [] → ∃ changed, Wired hash written t changed order

/-- What is left of the members without one of them. -/
theorem members_without (absent : a ∉ xs ++ ys) :
    {b | b ∈ xs ++ a :: ys} \ {a} = {b | b ∈ xs ++ ys} := by
  ext b
  simp only [Set.mem_sdiff, Set.mem_ofPred_eq, Set.mem_singleton_iff, List.perm_middle.mem_iff,
    List.mem_cons]
  constructor
  · rintro ⟨equal | member, different⟩
    · exact absurd equal different
    · exact member
  · exact fun member => ⟨.inr member, fun equal => absent (equal ▸ member)⟩

/-- The last one without one of them. -/
theorem last_without (absent : a ∉ xs ++ ys) :
    (if (xs ++ a :: ys).getLast? = some a then xs.getLast? else (xs ++ a :: ys).getLast?) =
      (xs ++ ys).getLast? := by
  rcases List.eq_nil_or_concat' ys with rfl | ⟨front, rear, rfl⟩
  · simp
  · have other : rear ≠ a := fun same => absent (by simp [← same])
    have behind : xs ++ a :: (front ++ [rear]) = (xs ++ a :: front) ++ [rear] := by simp
    rw [behind, List.getLast?_concat, ← List.append_assoc, List.getLast?_concat,
      if_neg (by simpa using other)]

/-- The last element takes the table with it. -/
theorem Wired.delete_last (wired : Wired hash blocks t tbl [a]) :
    ∃ written, hashDelete blocks (some a) a = .ok (written, none) ∧
      Deleted hash blocks t [] written := by
  obtain ⟨element, there, own, _⟩ := wired.live a List.mem_cons_self
  have segment : Linked blocks.prev blocks.next ([] ++ a :: []) := wired.linked
  obtain ⟨back, on⟩ := segment.neighbours
  rw [Blocks.prev, Blocks.link_of_some there] at back
  rw [Blocks.next, Blocks.link_of_some there] at on
  refine ⟨{ blocks with tables := Function.update blocks.tables t none }, ?_, fun _ => rfl,
    fun other different => Function.update_of_ne different _ _,
    fun _ => Function.update_self _ _ _, fun absurd => (absurd rfl).elim⟩
  have alone : element.hh.prev = none ∧ element.hh.next = none := ⟨back, on⟩
  rw [hashDelete, Blocks.handle_of_some there, run_bind_ok, deref, run_bind_ok,
    Blocks.handle_of_some there, run_bind_ok, if_pos alone, own, Blocks.freeTable]
  simp only [wired.there, run_bind_ok, run_pure]

/-- The links of the order. -/
def orderLinks : LinkPair κ where
  back := UTHashHandle.prev
  on := UTHashHandle.next
  setBack target hh := { hh with prev := target }
  setOn target hh := { hh with next := target }
  back_setBack _ _ := rfl
  on_setOn _ _ := rfl
  back_setOn _ _ := rfl
  on_setBack _ _ := rfl

/-- An element is taken out of the table. -/
theorem Wired.delete (wired : Wired hash blocks t tbl (xs ++ a :: ys)) :
    ∃ written, hashDelete blocks (xs ++ a :: ys).head? a = .ok (written, (xs ++ ys).head?) ∧
      Deleted hash blocks t (xs ++ ys) written := by
  by_cases last : xs ++ ys = []
  · obtain ⟨rfl, rfl⟩ := List.append_eq_nil_iff.mp last
    exact wired.delete_last
  obtain ⟨element, there, own, _⟩ := wired.live a (List.mem_append_right xs List.mem_cons_self)
  obtain ⟨back, on⟩ := wired.linked.neighbours
  rw [Blocks.prev, Blocks.link_of_some there] at back
  rw [Blocks.next, Blocks.link_of_some there] at on
  have absent : a ∉ xs ++ ys := (List.nodup_cons.mp (List.nodup_middle.mp wired.distinct)).1
  have kept : ∀ b ∈ xs ++ ys, b ∈ xs ++ a :: ys := fun b member =>
    List.mem_append.mpr ((List.mem_append.mp member).imp_right (List.mem_cons_of_mem a))
  obtain ⟨first, isFirst⟩ : ∃ first, (xs ++ ys).head? = some first :=
    Option.isSome_iff_exists.mp (List.isSome_head?.mpr last)
  obtain ⟨headElement, head, isHead, headThere, headOwn⟩ :
    ∃ element head, (xs ++ a :: ys).head? = some head ∧
      blocks.elements head = some element ∧ element.hh.tbl = t := by
    obtain ⟨head, isHead⟩ : ∃ head, (xs ++ a :: ys).head? = some head :=
      Option.isSome_iff_exists.mp (List.isSome_head?.mpr (by simp))
    obtain ⟨element, there, own, _⟩ := wired.live head (List.mem_of_mem_head? isHead)
    exact ⟨element, head, isHead, there, own⟩
  -- the tail of the table, the order, and the bucket
  let shortened : UTHashTable :=
    { tbl with tail := if tbl.tail = some a then xs.getLast? else tbl.tail }
  obtain ⟨second, third, now, unlinked⟩ :
    ∃ second third now, orderLinks.Unlinked Element.placed (blocks.withTable t shortened) xs ys a
      second third now :=
    orderLinks.unlinks Element.placed (fun _ _ => rfl) (fun _ _ => rfl)
      (fun b member => (wired.live b member).imp fun _ live => live.1) wired.distinct wired.linked
  have keeps := unlinked.keepsFirst.trans unlinked.keepsSecond
  have linked : Linked third.prev third.next (xs ++ ys) :=
    unlinked.linked wired.distinct wired.linked
  have sameHash : third.hashv a = now.hh.hashv := by
    rw [hashv_of_view (unlinked.keepsSecond.elements a) (fun placed => placed.2.2.2.2.2)
      fun _ => rfl, Blocks.hashv, unlinked.there]
    rfl
  have live : ∀ b ∈ xs ++ ys, ∃ element, third.elements b = some element ∧
      element.hh.tbl = t ∧ element.hh.hashv = hash element.hh.key := by
    intro b member
    exact live_of_view (keeps.elements b) (fun placed => (placed.2.1, placed.2.2.2.2))
      (fun _ => rfl) (wired.live b (kept b member))
  have filled : Filled third shortened.num_buckets shortened.buckets {b | b ∈ xs ++ a :: ys} :=
    wired.filled.of_placed fun b _ => keeps.elements b
  have table : third.tables t = some shortened :=
    (congrFun keeps.tables t).trans (Blocks.withTable_tables_self _ _ _)
  obtain ⟨fourth, buckets, unlinks, keepsLast, filledLast⟩ :=
    filled.unlink table (List.mem_append_right xs List.mem_cons_self : a ∈ xs ++ a :: ys)
  have tableLast : fourth.tables t = some { shortened with buckets } :=
    (congrFun keepsLast.tables t).trans (Blocks.withTable_tables_self _ _ _)
  let changed : UTHashTable := { shortened with buckets, num_items := tbl.num_items - 1 }
  have keepsAll : KeepsOrder (third.withTable t changed) (fourth.withTable t changed) := by
    have both := keepsLast.withTable t changed
    rwa [Blocks.withTable_withTable] at both
  refine ⟨fourth.withTable t changed, ?_, fun b => ?_, fun other different => ?_,
    fun absurd => (last absurd).elim,
    fun _ => ⟨changed, Wired.of_keeps keepsAll ?_ linked live ?_ ?_ ?_
      ⟨wired.sized.power, wired.sized.initial, wired.sized.limit⟩⟩⟩
  · have different : ¬(element.hh.prev = none ∧ element.hh.next = none) := by
      rw [back, on, List.getLast?_eq_none_iff, List.head?_eq_none_iff, ← List.append_eq_nil_iff]
      exact last
    have newHead : (if xs.getLast? = none then ys.head? else some head) = some first := by
      rw [← isFirst, ← isHead]
      cases xs with
      | nil => rfl
      | cons x xs => rfl
    have write : (blocks.withTable t shortened).modifyIf xs.getLast?
        (fun hh => { hh with next := ys.head? }) = .ok second := unlinked.write
    have rewrite : second.modifyIf ys.head? (fun hh => { hh with prev := xs.getLast? }) =
        .ok third := unlinked.rewrite
    have backNow : now.hh.prev = xs.getLast? := unlinked.back
    have onNow : now.hh.next = ys.head? := unlinked.on
    obtain ⟨_, firstThere, firstOwn, _⟩ := live first (List.mem_of_mem_head? isFirst)
    rw [hashDelete, Blocks.handle_of_some there, run_bind_ok, isHead, deref, run_bind_ok,
      Blocks.handle_of_some headThere, run_bind_ok, if_neg different, headOwn,
      Blocks.table_of_some wired.there, run_bind_ok, Blocks.setTable_of_some wired.there,
      run_bind_ok, back, on, write, run_bind_ok, Blocks.handle_of_some unlinked.there,
      run_bind_ok, backNow, onNow, rewrite, run_bind_ok, newHead, deref,
      run_bind_ok, Blocks.handle_of_some firstThere, run_bind_ok, firstOwn,
      Blocks.table_of_some table, run_bind_ok, ← sameHash, unlinks, run_bind_ok,
      Blocks.table_of_some tableLast, run_bind_ok, Blocks.setTable_of_some tableLast, run_bind_ok,
      isFirst]
    rfl
  · have first := keepsLast.read (fun bare => (bare.1, bare.2.2.2.2.1)) b
    have second := keeps.read (fun placed => (placed.1, placed.2.2.2.2.1)) b
    exact first.trans second
  · rw [Blocks.withTable_tables_of_ne _ _ different, keepsLast.tables,
      Blocks.withTable_tables_of_ne _ _ different, keeps.tables,
      Blocks.withTable_tables_of_ne _ _ different]
  · exact (List.nodup_cons.mp (List.nodup_middle.mp wired.distinct)).2
  · show (if tbl.tail = some a then xs.getLast? else tbl.tail) = _
    rw [wired.tail]
    exact last_without absent
  · show tbl.num_items - 1 = _
    rw [wired.items]
    simp [← Nat.add_assoc]
  · rw [members_without absent] at filledLast
    exact filledLast.congr filledLast.live (fun _ _ => rfl) (fun _ _ => rfl) fun _ _ => rfl

end Deleting

end Uthash

end DnsServer
