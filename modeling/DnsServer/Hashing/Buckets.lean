import Mathlib.Data.Set.Insert
import DnsServer.Foundation.LinkedList
import DnsServer.Model.Uthash

/-!
# Buckets

Each bucket of the hash table heads a doubly linked list of the elements whose hash
value selects it. `Filled` says that an array of buckets holds a set of elements in
this way, with the right counts. Its two edits are `Filled.push` for an element put
in front of a bucket and `Filled.unlink` for one taken out; a search in a bucket
finds the element with the key, and doubling the array moves every element
(`expand_moves`).
-/

set_option autoImplicit false

namespace DnsServer

namespace Uthash

open LinkedList

variable {κ α : Type}

/-! ## The fields of all handles -/

namespace Blocks

/-- The pointers that all elements hold in one field of their handle. -/
def link (blocks : Blocks κ α) (field : UTHashHandle κ → Option Addr) (a : Addr) : Option Addr :=
  (blocks.elements a).bind fun element => field element.hh

abbrev prev (blocks : Blocks κ α) : Addr → Option Addr := blocks.link UTHashHandle.prev

abbrev next (blocks : Blocks κ α) : Addr → Option Addr := blocks.link UTHashHandle.next

abbrev hhPrev (blocks : Blocks κ α) : Addr → Option Addr := blocks.link UTHashHandle.hh_prev

abbrev hhNext (blocks : Blocks κ α) : Addr → Option Addr := blocks.link UTHashHandle.hh_next

/-- The hash value of an element. -/
def hashv (blocks : Blocks κ α) (a : Addr) : UInt32 :=
  ((blocks.elements a).map fun element => element.hh.hashv).getD 0

/-- Write a whole handle. -/
def put (blocks : Blocks κ α) (a : Addr) (element : Element κ α) : Blocks κ α :=
  { blocks with elements := Function.update blocks.elements a (some element) }

variable {blocks : Blocks κ α} {a : Addr} {element : Element κ α}

@[simp] theorem put_elements_self : (blocks.put a element).elements a = some element :=
  Function.update_self _ _ _

theorem put_elements_of_ne {other : Addr} (different : other ≠ a) :
    (blocks.put a element).elements other = blocks.elements other :=
  Function.update_of_ne different _ _

@[simp] theorem put_put {changed : Element κ α} :
    (blocks.put a element).put a changed = blocks.put a changed := by
  simp [put]

@[simp] theorem put_tables : (blocks.put a element).tables = blocks.tables := rfl

@[simp] theorem put_table (t : Addr) : (blocks.put a element).table t = blocks.table t := rfl

theorem link_of_some (there : blocks.elements a = some element)
    (field : UTHashHandle κ → Option Addr) : blocks.link field a = field element.hh := by
  rw [link, there, Option.bind_some]

theorem handle_of_some (there : blocks.elements a = some element) :
    blocks.handle a = .ok element.hh := by
  simp [handle, there]

theorem modify_of_some (there : blocks.elements a = some element)
    (change : UTHashHandle κ → UTHashHandle κ) :
    blocks.modify a change = .ok (blocks.put a { element with hh := change element.hh }) := by
  simp [modify, there, put]

theorem table_of_some {tbl : UTHashTable} (there : blocks.tables a = some tbl) :
    blocks.table a = .ok tbl := by
  simp [table, there]

theorem setTable_of_some {tbl changed : UTHashTable} (there : blocks.tables a = some tbl) :
    blocks.setTable a changed = .ok (blocks.withTable a changed) := by
  simp [setTable, there]

@[simp] theorem withTable_elements (blocks : Blocks κ α) (t : Addr) (tbl : UTHashTable) :
    (blocks.withTable t tbl).elements = blocks.elements := rfl

@[simp] theorem withTable_tables_self (blocks : Blocks κ α) (t : Addr) (tbl : UTHashTable) :
    (blocks.withTable t tbl).tables t = some tbl := Function.update_self _ _ _

theorem withTable_tables_of_ne (blocks : Blocks κ α) {t other : Addr} (tbl : UTHashTable)
    (different : other ≠ t) : (blocks.withTable t tbl).tables other = blocks.tables other :=
  Function.update_of_ne different _ _

@[simp] theorem withTable_withTable (blocks : Blocks κ α) (t : Addr) (first second : UTHashTable) :
    (blocks.withTable t first).withTable t second = blocks.withTable t second := by
  simp [withTable]

end Blocks

theorem bucketAt_of_getElem? {buckets : List UTHashBucket} {i : Nat} {bucket : UTHashBucket}
    (there : buckets[i]? = some bucket) : bucketAt buckets i = .ok bucket := by
  simp [bucketAt, there]

@[simp] theorem run_bind_ok {β γ : Type} (value : β) (rest : β → Run γ) :
    (Except.ok value >>= rest : Run γ) = rest value := rfl

@[simp] theorem run_pure {β : Type} (value : β) : (pure value : Run β) = .ok value := rfl

/-- A bucket selected by a hash value is one of the table. -/
theorem hashToBkt_lt (hashv : UInt32) {num : UInt32} (positive : 0 < num.toNat) :
    hashToBkt hashv num < num.toNat := by
  have one : (1 : UInt32) ≤ num := UInt32.le_iff_toNat_le.mpr positive
  rw [hashToBkt, UInt32.toNat_and]
  refine lt_of_le_of_lt Nat.and_le_right ?_
  rw [UInt32.toNat_sub_of_le _ _ one]
  exact Nat.sub_lt positive Nat.one_pos

/-! ## What stays the same -/

/-- The tables, and what a view shows of each element, are the same as before. -/
structure Keeps {ω : Type} (view : Element κ α → ω) (before after : Blocks κ α) : Prop where
  tables : after.tables = before.tables
  elements : ∀ a, (after.elements a).map view = (before.elements a).map view

/-- The parts of an element that do not belong to its bucket. -/
def Element.bare (element : Element κ α) : α × Addr × Option Addr × Option Addr × κ × UInt32 :=
  (element.value, element.hh.tbl, element.hh.prev, element.hh.next, element.hh.key,
    element.hh.hashv)

/-- Nothing but the links of buckets has changed. -/
abbrev KeepsOrder (before after : Blocks κ α) : Prop := Keeps Element.bare before after

namespace Keeps

variable {ω : Type} {view : Element κ α → ω} {first second third : Blocks κ α}

theorem refl (blocks : Blocks κ α) : Keeps view blocks blocks := ⟨rfl, fun _ => rfl⟩

theorem trans (one : Keeps view first second) (two : Keeps view second third) :
    Keeps view first third :=
  ⟨two.tables.trans one.tables, fun a => (two.elements a).trans (one.elements a)⟩

/-- An element may be changed where the view does not look. -/
theorem put {a : Addr} {element changed : Element κ α} (there : first.elements a = some element)
    (same : view changed = view element) : Keeps view first (first.put a changed) := by
  refine ⟨rfl, fun other => ?_⟩
  by_cases here : other = a
  · subst here
    rw [Blocks.put_elements_self, there, Option.map_some, Option.map_some, same]
  · rw [Blocks.put_elements_of_ne here]

/-- The same table may be written on both sides. -/
theorem withTable (keeps : Keeps view first second) (t : Addr) (tbl : UTHashTable) :
    Keeps view (first.withTable t tbl) (second.withTable t tbl) := by
  refine ⟨?_, keeps.elements⟩
  rw [Blocks.withTable, Blocks.withTable, keeps.tables]

theorem element (keeps : Keeps view first second) {a : Addr} {element : Element κ α}
    (there : first.elements a = some element) :
    ∃ changed, second.elements a = some changed ∧ view changed = view element := by
  have same := keeps.elements a
  rw [there, Option.map_some, Option.map_eq_some_iff] at same
  exact same

/-- What can be read from the view is read as before. -/
theorem read {β : Type} (keeps : Keeps view first second) (field : ω → β) (a : Addr) :
    (second.elements a).map (fun element => field (view element)) =
      (first.elements a).map fun element => field (view element) := by
  have same := congrArg (Option.map field) (keeps.elements a)
  simpa only [Option.map_map, Function.comp_def] using same

end Keeps

section Views

variable {ω : Type} {view : Element κ α → ω} {first second : Blocks κ α} {a : Addr}

/-- A pointer that the view shows. -/
theorem link_of_view (same : (second.elements a).map view = (first.elements a).map view)
    {field : UTHashHandle κ → Option Addr} (seen : ω → Option Addr)
    (sees : ∀ element, seen (view element) = field element.hh) :
    second.link field a = first.link field a := by
  have pointers := congrArg (fun shown => shown.bind seen) same
  simpa only [Blocks.link, sees, Option.bind_map, Function.comp_def] using pointers

/-- A hash value that the view shows. -/
theorem hashv_of_view (same : (second.elements a).map view = (first.elements a).map view)
    (seen : ω → UInt32) (sees : ∀ element, seen (view element) = element.hh.hashv) :
    second.hashv a = first.hashv a := by
  have values := congrArg (fun shown => (shown.map seen).getD 0) same
  simpa only [Blocks.hashv, sees, Option.map_map, Function.comp_def] using values

end Views

namespace KeepsOrder

variable {first second : Blocks κ α}

theorem prev (keeps : KeepsOrder first second) : second.prev = first.prev :=
  funext fun a => link_of_view (keeps.elements a) (fun bare => bare.2.2.1) fun _ => rfl

theorem next (keeps : KeepsOrder first second) : second.next = first.next :=
  funext fun a => link_of_view (keeps.elements a) (fun bare => bare.2.2.2.1) fun _ => rfl

theorem hashv (keeps : KeepsOrder first second) : second.hashv = first.hashv :=
  funext fun a => hashv_of_view (keeps.elements a) (fun bare => bare.2.2.2.2.2) fun _ => rfl

end KeepsOrder

/-! ## Writing pointers -/

theorem put_link {blocks : Blocks κ α} {a : Addr} {element : Element κ α}
    (field : UTHashHandle κ → Option Addr) :
    (blocks.put a element).link field = Function.update (blocks.link field) a (field element.hh) := by
  funext other
  by_cases here : other = a
  · subst here
    rw [Function.update_self, Blocks.link_of_some Blocks.put_elements_self]
  · rw [Function.update_of_ne here, Blocks.link, Blocks.put_elements_of_ne here, Blocks.link]

/-- A write behind a pointer assigns the fields it changes, and keeps what it does not
change. -/
theorem modifyIf_writes {ω : Type} (view : Element κ α → ω) (blocks : Blocks κ α)
    (pointer : Option Addr) (live : ∀ a, pointer = some a → ∃ element, blocks.elements a = some element)
    (change : UTHashHandle κ → UTHashHandle κ)
    (same : ∀ element : Element κ α, view { element with hh := change element.hh } = view element) :
    ∃ written, blocks.modifyIf pointer change = .ok written ∧ Keeps view blocks written ∧
      (∀ field : UTHashHandle κ → Option Addr, (∀ hh, field (change hh) = field hh) →
        written.link field = blocks.link field) ∧
      ∀ (field : UTHashHandle κ → Option Addr) (target : Option Addr),
        (∀ hh, field (change hh) = target) →
          written.link field = assign (blocks.link field) pointer target := by
  cases pointer with
  | none => exact ⟨blocks, rfl, Keeps.refl blocks, fun _ _ => rfl, fun _ _ _ => rfl⟩
  | some a =>
      obtain ⟨element, there⟩ := live a rfl
      refine ⟨blocks.put a { element with hh := change element.hh }, ?_,
        Keeps.put there (same element), fun field unchanged => ?_, fun field target changed => ?_⟩
      · rw [Blocks.modifyIf, Blocks.modify_of_some there]
      · rw [put_link]
        exact Function.update_eq_self_iff.mpr
          ((unchanged _).trans (Blocks.link_of_some there field).symm)
      · rw [put_link]
        exact congrArg (Function.update (blocks.link field) a) (changed _)

/-- The two links of a doubly linked list among the fields of a handle. -/
structure LinkPair (κ : Type) where
  back : UTHashHandle κ → Option Addr
  on : UTHashHandle κ → Option Addr
  setBack : Option Addr → UTHashHandle κ → UTHashHandle κ
  setOn : Option Addr → UTHashHandle κ → UTHashHandle κ
  back_setBack : ∀ target hh, back (setBack target hh) = target
  on_setOn : ∀ target hh, on (setOn target hh) = target
  back_setOn : ∀ target hh, back (setOn target hh) = back hh
  on_setBack : ∀ target hh, on (setBack target hh) = on hh

/-- An element taken out of a list: the blocks behind the first of the two writes, those
behind both, and the element between them. -/
structure LinkPair.Unlinked {ω : Type} (links : LinkPair κ) (view : Element κ α → ω)
    (blocks : Blocks κ α) (xs ys : List Addr) (a : Addr) (first written : Blocks κ α)
    (now : Element κ α) : Prop where
  write : blocks.modifyIf xs.getLast? (links.setOn ys.head?) = .ok first
  rewrite : first.modifyIf ys.head? (links.setBack xs.getLast?) = .ok written
  there : first.elements a = some now
  back : links.back now.hh = xs.getLast?
  on : links.on now.hh = ys.head?
  keepsFirst : Keeps view blocks first
  keepsSecond : Keeps view first written
  backward : written.link links.back = assign (blocks.link links.back) ys.head? xs.getLast?
  forward : written.link links.on = assign (blocks.link links.on) xs.getLast? ys.head?

/-- The neighbours of an element are linked to each other. -/
theorem LinkPair.unlinks {ω : Type} (links : LinkPair κ) (view : Element κ α → ω)
    (hiddenBack : ∀ target (element : Element κ α),
      view { element with hh := links.setBack target element.hh } = view element)
    (hiddenOn : ∀ target (element : Element κ α),
      view { element with hh := links.setOn target element.hh } = view element)
    {blocks : Blocks κ α} {xs ys : List Addr} {a : Addr}
    (live : ∀ b ∈ xs ++ a :: ys, ∃ element, blocks.elements b = some element)
    (distinct : (xs ++ a :: ys).Nodup)
    (linked : Linked (blocks.link links.back) (blocks.link links.on) (xs ++ a :: ys)) :
    ∃ first written now, links.Unlinked view blocks xs ys a first written now := by
  obtain ⟨element, present⟩ := live a (List.mem_append_right xs List.mem_cons_self)
  obtain ⟨back, on⟩ := linked.neighbours
  have absent : a ∉ xs ++ ys := (List.nodup_cons.mp (List.nodup_middle.mp distinct)).1
  -- the neighbour in front
  obtain ⟨first, write, keepsFirst, others, writes⟩ := modifyIf_writes view blocks xs.getLast?
    (fun b same => live b (List.mem_append_left _ (List.mem_of_getLast? same)))
    (links.setOn ys.head?) (hiddenOn _)
  have backward : first.link links.back = blocks.link links.back :=
    others links.back (links.back_setOn _)
  have forward : first.link links.on = assign (blocks.link links.on) xs.getLast? ys.head? :=
    writes links.on ys.head? (links.on_setOn _)
  obtain ⟨now, there, _⟩ := keepsFirst.element present
  have backNow : links.back now.hh = xs.getLast? := by
    rw [← back, ← backward, Blocks.link_of_some there]
  have onNow : links.on now.hh = ys.head? := by
    have kept : first.link links.on a = blocks.link links.on a := by
      rw [forward, assign_of_ne]
      exact fun same => absent (List.mem_append_left ys (List.mem_of_getLast? same))
    rw [← on, ← kept, Blocks.link_of_some there]
  -- the neighbour behind
  obtain ⟨written, rewrite, keepsSecond, others, writes⟩ := modifyIf_writes view first ys.head?
    (fun b same => by
      obtain ⟨other, there⟩ :=
        live b (List.mem_append_right xs (List.mem_cons_of_mem a (List.mem_of_mem_head? same)))
      exact (keepsFirst.element there).imp fun _ now => now.1)
    (links.setBack xs.getLast?) (hiddenBack _)
  refine ⟨first, written, now, write, rewrite, there, backNow, onNow, keepsFirst, keepsSecond, ?_,
    ?_⟩
  · rw [writes links.back xs.getLast? (links.back_setBack _), backward]
  · rw [others links.on (links.on_setBack _), forward]

/-- What is left is a list again. -/
theorem LinkPair.Unlinked.linked {ω : Type} {links : LinkPair κ} {view : Element κ α → ω}
    {blocks first written : Blocks κ α} {xs ys : List Addr} {a : Addr} {now : Element κ α}
    (unlinked : links.Unlinked view blocks xs ys a first written now)
    (distinct : (xs ++ a :: ys).Nodup)
    (linked : Linked (blocks.link links.back) (blocks.link links.on) (xs ++ a :: ys)) :
    Linked (written.link links.back) (written.link links.on) (xs ++ ys) := by
  obtain ⟨back, on⟩ := linked.neighbours
  rw [unlinked.backward, unlinked.forward, ← back, ← on]
  exact linked.unlink distinct

/-! ## Filled buckets -/

/-- The links of the elements of a bucket. -/
def bucketLinks : LinkPair κ where
  back := UTHashHandle.hh_prev
  on := UTHashHandle.hh_next
  setBack target hh := { hh with hh_prev := target }
  setOn target hh := { hh with hh_next := target }
  back_setBack _ _ := rfl
  on_setOn _ _ := rfl
  back_setOn _ _ := rfl
  on_setBack _ _ := rfl

/-- An array of buckets holds exactly the elements of a set, each of them in the
list of the bucket that its hash value selects. -/
structure Filled (blocks : Blocks κ α) (num_buckets : UInt32) (buckets : List UTHashBucket)
    (members : Set Addr) : Prop where
  positive : 0 < num_buckets.toNat
  size : buckets.length = num_buckets.toNat
  live : ∀ a ∈ members, ∃ element, blocks.elements a = some element
  chain : ∀ i bucket, buckets[i]? = some bucket → ∃ cells : List Addr,
    cells.Nodup ∧ (∀ a, a ∈ cells ↔ a ∈ members ∧ hashToBkt (blocks.hashv a) num_buckets = i) ∧
      bucket.hh_head = cells.head? ∧ bucket.count = UInt32.ofNat cells.length ∧
      Linked blocks.hhPrev blocks.hhNext cells

namespace Filled

variable {blocks : Blocks κ α} {num_buckets : UInt32} {buckets : List UTHashBucket}
  {members : Set Addr}

/-- New buckets are empty. -/
theorem replicate (blocks : Blocks κ α) {num_buckets : UInt32} (positive : 0 < num_buckets.toNat) :
    Filled blocks num_buckets
      (List.replicate num_buckets.toNat { hh_head := none, count := 0, expand_mult := 0 }) ∅ where
  positive
  size := List.length_replicate
  live := fun _ member => absurd member (Set.notMem_empty _)
  chain := by
    intro i bucket there
    obtain ⟨_, rfl⟩ := List.getElem?_eq_some_iff.mp there
    rw [List.getElem_replicate]
    exact ⟨[], List.nodup_nil, by simp, rfl, rfl, trivial⟩

/-- The bucket of a hash value. -/
theorem bucket_of_hash (filled : Filled blocks num_buckets buckets members) (hashv : UInt32) :
    ∃ bucket, buckets[hashToBkt hashv num_buckets]? = some bucket := by
  have inside := hashToBkt_lt hashv filled.positive
  rw [← filled.size] at inside
  exact ⟨_, List.getElem?_eq_getElem inside⟩

/-- The buckets see nothing but their links and the hash values. -/
theorem congr {other : Blocks κ α} (filled : Filled blocks num_buckets buckets members)
    (live : ∀ a ∈ members, ∃ element, other.elements a = some element)
    (hashes : ∀ a ∈ members, other.hashv a = blocks.hashv a)
    (backward : ∀ a ∈ members, other.hhPrev a = blocks.hhPrev a)
    (forward : ∀ a ∈ members, other.hhNext a = blocks.hhNext a) :
    Filled other num_buckets buckets members where
  positive := filled.positive
  size := filled.size
  live
  chain := by
    intro i bucket there
    obtain ⟨cells, distinct, mem, front, count, linked⟩ := filled.chain i bucket there
    refine ⟨cells, distinct, fun a => ?_, front, count, linked.congr ?_ ?_⟩
    · rw [mem]
      exact and_congr_right fun member => by rw [hashes a member]
    · exact fun a member => backward a ((mem a).mp member).1
    · exact fun a member => forward a ((mem a).mp member).1

end Filled

/-! ## Putting in front -/

/-- `linkFront` makes the two writes of a push. -/
theorem linkFront_eq {blocks : Blocks κ α} {hh_head : Option Addr} {thh : Addr}
    {element : Element κ α} (there : blocks.elements thh = some element)
    (first : ∀ a, hh_head = some a → ∃ element, blocks.elements a = some element) :
    ∃ written, linkFront blocks hh_head thh = .ok written ∧ KeepsOrder blocks written ∧
      written.hhPrev = assign (Function.update blocks.hhPrev thh none) hh_head (some thh) ∧
      written.hhNext = Function.update blocks.hhNext thh hh_head := by
  have kept : KeepsOrder blocks (blocks.put thh
      { element with hh := { element.hh with hh_prev := none, hh_next := hh_head } }) :=
    Keeps.put there rfl
  obtain ⟨written, run, keeps, others, writes⟩ := modifyIf_writes Element.bare _ _
    (fun a same => by
      obtain ⟨old, present⟩ := first a same
      obtain ⟨now, present, _⟩ := kept.element present
      exact ⟨now, present⟩) (fun hh => { hh with hh_prev := some thh }) fun _ => rfl
  refine ⟨written, ?_, kept.trans keeps, ?_, ?_⟩
  · rw [linkFront, Blocks.modify_of_some there]
    exact run
  · exact (writes UTHashHandle.hh_prev (some thh) fun _ => rfl).trans
      (congrArg (fun link => assign link hh_head (some thh)) (put_link UTHashHandle.hh_prev))
  · exact (others UTHashHandle.hh_next fun _ => rfl).trans (put_link UTHashHandle.hh_next)

namespace Filled

variable {blocks written : Blocks κ α} {num_buckets : UInt32} {buckets : List UTHashBucket}
  {members : Set Addr}

/-- One bucket is edited. The lists of all others stay apart from what is written. -/
theorem edit (filled : Filled blocks num_buckets buckets members) {i : Nat}
    {bucket : UTHashBucket} (cells : List Addr) {others : Set Addr}
    (keeps : KeepsOrder blocks written)
    (live : ∀ a ∈ others, ∃ element, blocks.elements a = some element)
    (elsewhere : ∀ a, hashToBkt (blocks.hashv a) num_buckets ≠ i → (a ∈ others ↔ a ∈ members))
    (apart : ∀ a ∈ members, hashToBkt (blocks.hashv a) num_buckets ≠ i →
      written.hhPrev a = blocks.hhPrev a ∧ written.hhNext a = blocks.hhNext a)
    (distinct : cells.Nodup)
    (mem : ∀ a, a ∈ cells ↔ a ∈ others ∧ hashToBkt (blocks.hashv a) num_buckets = i)
    (front : bucket.hh_head = cells.head?) (count : bucket.count = UInt32.ofNat cells.length)
    (linked : Linked written.hhPrev written.hhNext cells) :
    Filled written num_buckets (buckets.set i bucket) others where
  positive := filled.positive
  size := by rw [List.length_set, filled.size]
  live := fun a member => by
    obtain ⟨element, there⟩ := live a member
    obtain ⟨changed, present, _⟩ := keeps.element there
    exact ⟨changed, present⟩
  chain := by
    intro j other there
    rw [keeps.hashv]
    by_cases here : i = j
    · subst here
      obtain ⟨inside, rfl⟩ := List.getElem?_eq_some_iff.mp there
      rw [List.getElem_set_self]
      exact ⟨cells, distinct, mem, front, count, linked⟩
    · rw [List.getElem?_set_ne here] at there
      obtain ⟨rest, single, contents, first, total, links⟩ := filled.chain j other there
      refine ⟨rest, single, fun a => ?_, first, total, links.congr ?_ ?_⟩
      · rw [contents]
        refine and_congr_left fun selected => ?_
        exact (elsewhere a fun same => here (same.symm.trans selected)).symm
      · exact fun a member => (apart a ((contents a).mp member).1 fun same =>
          here (same.symm.trans ((contents a).mp member).2)).1
      · exact fun a member => (apart a ((contents a).mp member).1 fun same =>
          here (same.symm.trans ((contents a).mp member).2)).2

/-- An element is put in front of its bucket. -/
theorem push (filled : Filled blocks num_buckets buckets members) {thh : Addr}
    {element : Element κ α} (there : blocks.elements thh = some element)
    (absent : thh ∉ members) {bucket : UTHashBucket}
    (selected : buckets[hashToBkt element.hh.hashv num_buckets]? = some bucket)
    (expand_mult : UInt32) :
    ∃ written, linkFront blocks bucket.hh_head thh = .ok written ∧ KeepsOrder blocks written ∧
      (∀ a, a ≠ thh → written.hhNext a = blocks.hhNext a) ∧
      Filled written num_buckets
        (buckets.set (hashToBkt element.hh.hashv num_buckets)
          { hh_head := some thh, count := bucket.count + 1, expand_mult })
        (insert thh members) := by
  obtain ⟨cells, distinct, mem, front, count, linked⟩ := filled.chain _ bucket selected
  have own : blocks.hashv thh = element.hh.hashv := by simp [Blocks.hashv, there]
  have fresh : thh ∉ cells := fun member => absent ((mem thh).mp member).1
  have first : ∀ a, bucket.hh_head = some a → a ∈ cells := fun a same =>
    List.mem_of_mem_head? (front.symm.trans same)
  obtain ⟨written, run, keeps, backward, forward⟩ :=
    linkFront_eq there fun a same => filled.live a ((mem a).mp (first a same)).1
  refine ⟨written, run, keeps, ?_, ?_⟩
  · intro a other
    rw [forward, Function.update_of_ne other]
  · have pushed := List.nodup_cons.mpr ⟨fresh, distinct⟩
    refine filled.edit (thh :: cells) keeps ?_ ?_ ?_ pushed ?_ rfl ?_ ?_
    · rintro a (rfl | member)
      · exact ⟨element, there⟩
      · exact filled.live a member
    · intro a other
      refine Set.mem_insert_iff.trans (or_iff_right ?_)
      rintro rfl
      exact other (by rw [own])
    · intro a member other
      have different : a ≠ thh := fun same => absent (same ▸ member)
      rw [backward, forward, Function.update_of_ne different, assign_of_ne]
      · exact ⟨Function.update_of_ne different _ _, rfl⟩
      · exact fun same => other ((mem a).mp (first a same)).2
    · intro a
      rw [List.mem_cons, mem, Set.mem_insert_iff, or_and_right]
      refine or_congr ?_ Iff.rfl
      exact ⟨fun same => ⟨same, by rw [same, own]⟩, And.left⟩
    · rw [count]
      simp
    · rw [backward, forward, front]
      exact linked.push pushed

/-- An element is taken out of its bucket. -/
theorem unlink {t : Addr} {tbl : UTHashTable} (there : blocks.tables t = some tbl)
    (filled : Filled blocks num_buckets tbl.buckets members) {delhh : Addr}
    (member : delhh ∈ members) :
    ∃ written buckets,
      hashDelInBkt blocks t (hashToBkt (blocks.hashv delhh) num_buckets) delhh = .ok written ∧
      KeepsOrder (blocks.withTable t { tbl with buckets }) written ∧
      Filled written num_buckets buckets (members \ {delhh}) := by
  obtain ⟨bucket, selected⟩ := filled.bucket_of_hash (blocks.hashv delhh)
  obtain ⟨cells, distinct, mem, front, count, linked⟩ := filled.chain _ bucket selected
  obtain ⟨element, present⟩ := filled.live delhh member
  obtain ⟨xs, ys, rfl⟩ := List.append_of_mem ((mem delhh).mpr ⟨member, rfl⟩)
  obtain ⟨back, on⟩ := linked.neighbours
  have absent : delhh ∉ xs ++ ys := (List.nodup_cons.mp (List.nodup_middle.mp distinct)).1
  have inCells : ∀ a ∈ xs ++ ys, a ∈ xs ++ delhh :: ys := fun a inside =>
    List.mem_append.mpr ((List.mem_append.mp inside).imp_right (List.mem_cons_of_mem delhh))
  have before : element.hh.hh_prev = xs.getLast? := by
    rw [← back, Blocks.hhPrev, Blocks.link_of_some present]
  have after : element.hh.hh_next = ys.head? := by
    rw [← on, Blocks.hhNext, Blocks.link_of_some present]
  -- the bucket, and the neighbours
  let hh_head := if bucket.hh_head = some delhh then ys.head? else bucket.hh_head
  let buckets := tbl.buckets.set (hashToBkt (blocks.hashv delhh) num_buckets)
    { bucket with count := bucket.count - 1, hh_head }
  obtain ⟨first, written, now, unlinked⟩ :
    ∃ first written now, bucketLinks.Unlinked Element.bare
      (blocks.withTable t { tbl with buckets }) xs ys delhh first written now :=
    bucketLinks.unlinks Element.bare (fun _ _ => rfl) (fun _ _ => rfl)
      (fun a inside => filled.live a ((mem a).mp inside).1) distinct linked
  have backward : written.hhPrev = assign blocks.hhPrev ys.head? xs.getLast? := unlinked.backward
  have forward : written.hhNext = assign blocks.hhNext xs.getLast? ys.head? := unlinked.forward
  have keeps := unlinked.keepsFirst.trans unlinked.keepsSecond
  refine ⟨written, buckets, ?_, keeps, ?_⟩
  · simp only [hashDelInBkt, Blocks.table_of_some there, bucketAt_of_getElem? selected,
      Blocks.handle_of_some present, Blocks.setTable_of_some there, run_bind_ok, before, after]
    have write : (blocks.withTable t { tbl with buckets }).modifyIf xs.getLast?
        (fun hh => { hh with hh_next := ys.head? }) = .ok first := unlinked.write
    have beforeNow : now.hh.hh_prev = xs.getLast? := unlinked.back
    have afterNow : now.hh.hh_next = ys.head? := unlinked.on
    rw [write, run_bind_ok, Blocks.handle_of_some unlinked.there, run_bind_ok, beforeNow,
      afterNow]
    exact unlinked.rewrite
  · have same : Filled (blocks.withTable t { tbl with buckets }) num_buckets tbl.buckets members :=
      filled.congr filled.live (fun _ _ => rfl) (fun _ _ => rfl) fun _ _ => rfl
    have rest : (xs ++ ys).Nodup := (List.nodup_cons.mp (List.nodup_middle.mp distinct)).2
    refine same.edit (xs ++ ys) keeps ?_ ?_ ?_ rest ?_ ?_ ?_ ?_
    · exact fun a inside => filled.live a inside.1
    · intro a other
      refine and_iff_left_iff_imp.mpr fun _ => ?_
      rintro rfl
      exact other rfl
    · intro a _ other
      have outside : a ∉ xs ++ ys := fun inside => other ((mem a).mp (inCells a inside)).2
      rw [backward, forward]
      refine ⟨assign_of_ne fun equal => outside ?_, assign_of_ne fun equal => outside ?_⟩
      · exact List.mem_append_right xs (List.mem_of_mem_head? equal)
      · exact List.mem_append_left ys (List.mem_of_getLast? equal)
    · intro a
      have split : a ∈ xs ++ delhh :: ys ↔ a = delhh ∨ a ∈ xs ++ ys := by
        simp only [List.mem_append, List.mem_cons]
        tauto
      constructor
      · intro inside
        obtain ⟨isMember, selects⟩ := (mem a).mp (split.mpr (.inr inside))
        exact ⟨⟨isMember, fun equal => absent (equal ▸ inside)⟩, selects⟩
      · rintro ⟨⟨isMember, different⟩, selects⟩
        exact (split.mp ((mem a).mpr ⟨isMember, selects⟩)).resolve_left different
    · show (if bucket.hh_head = some delhh then ys.head? else bucket.hh_head) = _
      rw [front]
      cases xs with
      | nil => simp
      | cons first xs =>
          have different : first ≠ delhh := fun equal => absent (equal ▸ List.mem_cons_self)
          simp [different]
    · rw [count]
      simp [← Nat.add_assoc]
    · exact unlinked.linked distinct linked

end Filled

/-! ## Searching a bucket -/

section Searching

variable [DecidableEq κ] {blocks : Blocks κ α}

/-- Whether an element has a key. -/
def Blocks.hasKey (blocks : Blocks κ α) (key : κ) (a : Addr) : Bool :=
  (blocks.elements a).any fun element => element.hh.key = key

/-- A search follows the chain up to the first element with the key. -/
theorem hashFindInBkt_eq {hash : κ → UInt32} {cells : List Addr}
    (chained : Chained blocks.hhNext cells)
    (live : ∀ a ∈ cells, ∃ element, blocks.elements a = some element ∧
      element.hh.hashv = hash element.hh.key)
    (key : κ) {bound : Nat} (enough : cells.length < bound) :
    hashFindInBkt blocks key (hash key) bound cells.head? = .ok (cells.find? (blocks.hasKey key)) := by
  induction cells generalizing bound with
  | nil =>
      obtain ⟨bound, rfl⟩ := Nat.exists_eq_add_of_lt enough
      rfl
  | cons a cells ih =>
      obtain ⟨element, there, hashed⟩ := live a List.mem_cons_self
      obtain ⟨bound, rfl⟩ := Nat.exists_eq_add_of_lt enough
      have on : element.hh.hh_next = cells.head? := by
        rw [← chained.1, Blocks.hhNext, Blocks.link_of_some there]
      simp only [List.head?_cons, hashFindInBkt, Blocks.handle_of_some there, run_bind_ok]
      by_cases same : element.hh.key = key
      · have found : blocks.hasKey key a = true := by simp [Blocks.hasKey, there, same]
        rw [if_pos ⟨by rw [hashed, same], same⟩, List.find?_cons_of_pos found]
        rfl
      · have missed : blocks.hasKey key a = false := by simp [Blocks.hasKey, there, same]
        rw [if_neg (fun both => same both.2), on, List.find?_cons_of_neg (by simp [missed])]
        exact ih chained.2 (fun b member => live b (List.mem_cons_of_mem a member))
          (by rw [List.length_cons]; omega)

/-- The element with a key is in the bucket that the hash value of the key selects, so
that the search there decides whether any element has the key. -/
theorem Filled.find {hash : κ → UInt32} {num_buckets : UInt32} {buckets : List UTHashBucket}
    {members : Set Addr} (filled : Filled blocks num_buckets buckets members)
    (hashed : ∀ a ∈ members, ∀ element, blocks.elements a = some element →
      element.hh.hashv = hash element.hh.key)
    (key : κ) {bucket : UTHashBucket}
    (selected : buckets[hashToBkt (hash key) num_buckets]? = some bucket) {bound : Nat}
    (enough : ∀ cells : List Addr, cells.Nodup → (∀ a ∈ cells, a ∈ members) →
      cells.length < bound) :
    ∃ out, hashFindInBkt blocks key (hash key) bound bucket.hh_head = .ok out ∧
      (∀ a, out = some a → a ∈ members ∧ blocks.hasKey key a) ∧
      (out = none → ∀ a ∈ members, ¬blocks.hasKey key a) := by
  obtain ⟨cells, distinct, mem, front, _, linked⟩ := filled.chain _ bucket selected
  have inside : ∀ a ∈ cells, a ∈ members := fun a member => ((mem a).mp member).1
  refine ⟨cells.find? (blocks.hasKey key), ?_, fun a found => ?_, fun missed a member has => ?_⟩
  · rw [front]
    refine hashFindInBkt_eq linked.chained (fun a member => ?_) key (enough cells distinct inside)
    obtain ⟨element, there⟩ := filled.live a (inside a member)
    exact ⟨element, there, hashed a (inside a member) element there⟩
  · exact ⟨inside a (List.mem_of_find?_eq_some found), List.find?_some found⟩
  · refine List.find?_eq_none.mp missed a ((mem a).mpr ⟨member, ?_⟩) has
    obtain ⟨element, there⟩ := filled.live a member
    have same : element.hh.key = key := by simpa [Blocks.hasKey, there] using has
    rw [← same, ← hashed a member element there, Blocks.hashv, there]
    rfl

end Searching

end Uthash

end DnsServer
