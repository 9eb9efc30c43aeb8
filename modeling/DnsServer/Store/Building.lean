import DnsServer.Model.InMemory
import DnsServer.Store.Commands

/-!
# Building a record is all or nothing

The code that builds records works on pointers, and it can fail at every allocation
and at every element of a list of values. Over any table in memory it follows the
building of the record in the model of the store: it meets no fault, it makes the
same allocations, and the table it leaves is the one before, with or without the
finished record. The blocks in use are then those of the records in the table, so
what was built half way is given back, and so is a record that is replaced
(`follows_addRecordToHash`).

Deleting and clearing do not look for `NULL`. They need none, because the records of
every table that is reached are finished (`Reachable.tidy`), and the stores of the
server are among these tables (`reachable_ofStore`).
-/

set_option autoImplicit false

namespace DnsServer

open Libc Heap

/-! ## Records in memory -/

namespace InMemory

/-- What a record shows: the texts behind its pointers, wherever they are. -/
structure Fields where
  domain : Option CString
  type : Option CString
  key : Option CString
  values : Option (List (Option CString))
  num_values : Nat

def DNSRecord.fields (record : DNSRecord) : Fields where
  domain := record.domain.map Pointer.contents
  type := record.type.map Pointer.contents
  key := record.storedKey
  values := record.values.map fun cells => cells.contents.map (Option.map Pointer.contents)
  num_values := record.num_values

/-- A finished record. -/
def ofRecord (record : DnsServer.DNSRecord) : Fields where
  domain := some record.domain
  type := some record.type
  key := some record.key
  values := some (record.values.map some)
  num_values := record.values.length

/-- A record without an array of values. -/
def ofCreated (record : DnsServer.DNSRecord) : Fields :=
  { ofRecord record with values := none, num_values := 0 }

/-- A record whose array of values is filled up to the last places. -/
def ofPartial (record : DnsServer.DNSRecord) (missing : Nat) : Fields :=
  { ofRecord record with
    values := some (record.values.map some ++ List.replicate missing none)
    num_values := record.values.length + missing }

/-- The array of values, if there is one. -/
def DNSRecord.cells (record : DNSRecord) : List (Option (Pointer CString)) :=
  (record.values.map Pointer.contents).getD []

/-- The blocks a record owns: its own, one for each text, and the array. -/
def DNSRecord.blocks (record : DNSRecord) : Multiset Block :=
  (record.cells.map behind).sum + behind record.values + behind record.key +
    behind record.type + behind record.domain + {record.block}

/-- The array of values has as many places as the record says. -/
def Fields.Sized (fields : Fields) : Prop :=
  ∀ cells, fields.values = some cells → cells.length = fields.num_values

theorem sized_ofPartial (record : DnsServer.DNSRecord) (missing : Nat) :
    (ofPartial record missing).Sized := by
  rintro cells ⟨⟩
  simp [ofPartial]

theorem ofPartial_zero (record : DnsServer.DNSRecord) : ofPartial record 0 = ofRecord record := by
  simp [ofPartial, ofRecord]

theorem sized_ofRecord (record : DnsServer.DNSRecord) : (ofRecord record).Sized := by
  rw [← ofPartial_zero]
  exact sized_ofPartial record 0

theorem Fields.Sized.length {record : DNSRecord} (sized : record.fields.Sized)
    {cells : Pointer (List (Option (Pointer CString)))} (stored : record.values = some cells) :
    cells.contents.length = record.num_values := by
  have count := sized (cells.contents.map (Option.map Pointer.contents))
    (by rw [DNSRecord.fields, stored]; rfl)
  rwa [List.length_map] at count

/-! ## Giving records back -/

variable {owned : Multiset Block}

/-- The values are given back by a loop that goes as far as the record says. -/
theorem follows_cells {record : DNSRecord} (sized : record.fields.Sized)
    {cells : Pointer (List (Option (Pointer CString)))} (stored : record.values = some cells)
    {round : Nat → Heap Unit}
    (each : ∀ (owned : Multiset Block) (i : Nat) (cell : Option (Pointer CString)),
      cells.contents[i]? = some cell → Follows (owned + behind cell) (round i) (pure () : Alloc Unit)
        fun _ _ left => left = owned) :
    Follows (owned + (record.cells.map behind).sum) ((List.range record.num_values).forM round)
      (pure () : Alloc Unit) fun _ _ left => left = owned := by
  have all : record.cells = cells.contents := by rw [DNSRecord.cells, stored]; rfl
  have given := @follows_range _ round cells.contents each record.num_values owned
    (sized.length stored).ge
  rwa [← sized.length stored, List.take_length, sized.length stored, ← all] at given

theorem follows_freeValues {record : DNSRecord} (sized : record.fields.Sized)
    {cells : Pointer (List (Option (Pointer CString)))} (stored : record.values = some cells) :
    Follows (owned + (record.cells.map behind).sum) (freeValues record cells.contents)
      (pure () : Alloc Unit) fun _ _ left => left = owned :=
  follows_cells sized stored fun _ _ cell here =>
    (follows_free cell).reads (by rw [readCell, here])

/-- **A record is given back whole**, however far it was built. -/
theorem follows_freeDnsRecord {record : DNSRecord} (sized : record.fields.Sized) :
    Follows (owned + record.blocks) (freeDnsRecord record) (pure () : Alloc Unit)
      fun _ _ left => left = owned := by
  have total : owned + record.blocks = owned + {record.block} + behind record.domain +
      behind record.type + behind record.key + behind record.values +
        (record.cells.map behind).sum := by
    rw [DNSRecord.blocks]
    abel
  have fields : Follows (owned + {record.block} + behind record.domain + behind record.type +
      behind record.key + behind record.values) (do
        free record.values
        free record.key
        free record.type
        free record.domain
        release record.block) (pure () : Alloc Unit) fun _ _ left => left = owned := by
    apply (follows_free record.values).gives
    apply (follows_free record.key).gives
    apply (follows_free record.type).gives
    apply (follows_free record.domain).gives
    exact follows_release record.block
  rw [total, freeDnsRecord]
  cases stored : record.values with
  | none =>
      rw [stored] at fields
      simp only [DNSRecord.cells, stored, Option.map_none, Option.getD_none, List.map_nil,
        List.sum_nil, add_zero]
      exact fields
  | some cells =>
      rw [stored] at fields
      exact (follows_freeValues sized stored).gives fields

/-! ## Building records -/

/-- A record is created without values, or what there is of it is given back. -/
structure Created (owned : Multiset Block) (model : Option DnsServer.DNSRecord)
    (record : Option DNSRecord) (left : Multiset Block) : Prop where
  same : record.map DNSRecord.fields = model.map ofCreated
  empty : ∀ created, model = some created → created.values = []
  blocks : left = owned + (record.map DNSRecord.blocks).getD 0

/-- A record that has no array of values yet can be given up. -/
theorem follows_giveUp (block : Block) (domain type key : Option (Pointer CString)) :
    Follows (owned + {block} + behind domain + behind type + behind key) (do
        freeDnsRecord { block, domain, type, key, values := none, num_values := 0 }
        return none : Heap (Option DNSRecord)) (pure none : Alloc (Option DnsServer.DNSRecord))
      (Created owned) := by
  have total : owned + {block} + behind domain + behind type + behind key =
      owned + DNSRecord.blocks { block, domain, type, key, values := none, num_values := 0 } := by
    simp only [DNSRecord.blocks, DNSRecord.cells, Option.map_none, Option.getD_none, List.map_nil,
      List.sum_nil, behind_none]
    abel
  rw [total]
  refine (follows_freeDnsRecord ?_).gives (follows_pure ⟨rfl, nofun, ?_⟩)
  · exact fun _ stored => (Option.some_ne_none _ stored.symm).elim
  · exact (add_zero owned).symm

theorem follows_createDnsRecord (domain type scope : CString) :
    Follows owned (createDnsRecord domain type scope)
      (DnsServer.createDnsRecord domain type scope) (Created owned) := by
  unfold createDnsRecord DnsServer.createDnsRecord
  -- the record, the copies of domain and type, and the key
  refine Follows.allocates (follows_pure ⟨rfl, nofun, (add_zero owned).symm⟩) fun block => ?_
  refine Follows.copies ?_ fun atDomain => ?_
  · simpa using @follows_giveUp owned block none none none
  refine Follows.copies ?_ fun atType => ?_
  · simpa using @follows_giveUp owned block (some ⟨atDomain, domain⟩) none none
  refine Follows.copies ?_ fun atKey => ?_
  · simpa using @follows_giveUp owned block (some ⟨atDomain, domain⟩) (some ⟨atType, type⟩) none
  refine follows_pure ⟨rfl, by rintro created ⟨⟩; rfl, ?_⟩
  simp only [Option.map_some, Option.getD_some, DNSRecord.blocks, DNSRecord.cells, Option.map_none,
    Option.getD_none, List.map_nil, List.sum_nil, behind_none, behind_some]
  abel

/-- The first missing value of a record is written. -/
theorem setValue_of_partial {record : DNSRecord} {model : DnsServer.DNSRecord} {missing : Nat}
    (shows : record.fields = ofPartial model (missing + 1)) (value : Option (Pointer CString)) :
    ∃ after, record.setValue model.values.length value = .ok after ∧
      after.fields =
        { ofPartial model (missing + 1) with
          values := some (model.values.map some ++
            value.map Pointer.contents :: List.replicate missing none) } ∧
      after.blocks = record.blocks + behind value := by
  obtain ⟨cells, stored, contents⟩ := Option.map_eq_some_iff.mp (congrArg Fields.values shows)
  obtain ⟨front, back, split, texts, places⟩ := List.map_eq_append_iff.mp contents
  rw [List.replicate_succ] at places
  obtain ⟨place, rest, rfl, nothing, others⟩ := List.map_eq_cons_iff.mp places
  obtain rfl : place = none := Option.map_eq_none_iff.mp nothing
  have count : model.values.length = front.length := by
    rw [← List.length_map (f := some), ← texts, List.length_map]
  have inside : front.length < cells.contents.length := by simp [split]
  have written : cells.contents.set front.length value = front ++ value :: rest := by
    rw [split, List.set_append_right _ _ le_rfl, Nat.sub_self, List.set_cons_zero]
  refine ⟨{ record with values := some { cells with contents := front ++ value :: rest } }, ?_, ?_, ?_⟩
  · simp only [DNSRecord.setValue, stored, deref, Checked.ok_bind, writeCell, count]
    rw [if_pos inside, written]
    rfl
  · have same := shows
    rw [DNSRecord.fields, ofPartial, ofRecord, Fields.mk.injEq] at same
    obtain ⟨domain, type, key, _, number⟩ := same
    rw [DNSRecord.fields, ofPartial, ofRecord, Fields.mk.injEq]
    refine ⟨domain, type, key, ?_, number⟩
    rw [Option.map_some, List.map_append, List.map_cons, texts, others]
  · simp only [DNSRecord.blocks, DNSRecord.cells, stored, split, Option.map_some, Option.getD_some,
      List.map_append, List.map_cons, List.sum_append, List.sum_cons, behind_none, behind_some]
    abel

/-- A value written in its place. -/
theorem ofPartial_succ (record : DnsServer.DNSRecord) (missing : Nat) (text : CString) :
    { ofPartial record (missing + 1) with
      values := some (record.values.map some ++ some text :: List.replicate missing none) } =
      ofPartial { record with values := record.values ++ [text] } missing := by
  have count : record.values.length + (missing + 1) = (record.values ++ [text]).length + missing := by
    rw [List.length_append, List.length_singleton]
    omega
  simp only [ofPartial, ofRecord, count, List.map_append, List.map_singleton, List.append_assoc,
    List.singleton_append]

/-- What is known of the record that the loop over the elements leaves. -/
structure Filled (record : DnsServer.DNSRecord) (owned : Multiset Block)
    (texts : Option (List CString)) (result : Bool × DNSRecord) (left : Multiset Block) : Prop where
  status : result.1 = texts.isSome
  finished : ∀ all, texts = some all →
    result.2.fields = ofRecord { record with values := record.values ++ all }
  sized : result.2.fields.Sized
  blocks : left = owned + result.2.blocks

/-- One more text in front. -/
theorem Filled.cons {record : DnsServer.DNSRecord} {text : CString} {texts : Option (List CString)}
    {result : Bool × DNSRecord} {left : Multiset Block}
    (filled : Filled { record with values := record.values ++ [text] } owned texts result left) :
    Filled record owned (texts.map (text :: ·)) result left where
  status := by rw [filled.status, Option.isSome_map]
  finished := by
    intro all made
    obtain ⟨rest, rfl, rfl⟩ := Option.map_eq_some_iff.mp made
    simpa using filled.finished rest rfl
  sized := filled.sized
  blocks := filled.blocks

/-- A record that stays unfinished. -/
theorem filled_none {model : DnsServer.DNSRecord} {record : DNSRecord}
    (sized : record.fields.Sized) : Filled model owned none (false, record) (owned + record.blocks) :=
  ⟨rfl, nofun, sized, rfl⟩

/-- **The loop over the elements** fills the places of the values in order. The
induction is on the elements that are left. -/
theorem follows_fillValues {values : CJSON} {items : List CJSON} :
    ∀ (model : DnsServer.DNSRecord) (record : DNSRecord),
      record.fields = ofPartial model items.length →
      (values.children.map Prod.snd).drop model.values.length = items →
      Follows (owned + record.blocks) (fillValues values items.length model.values.length record)
        (parseItems model.type items) (Filled model owned) := by
  induction items with
  | nil =>
      intro model record shows _
      refine follows_pure ⟨rfl, ?_, ?_, rfl⟩
      · rintro all ⟨⟩
        rw [List.append_nil, shows]
        exact ofPartial_zero model
      · rw [shows]
        exact sized_ofPartial model 0
  | cons item items ih =>
      intro model record shows here
      have there : values.getArrayItem model.values.length = some item := by
        rw [CJSON.getArrayItem, ← List.getElem?_map, ← List.head?_drop, here]
        rfl
      have behind_ : (values.children.map Prod.snd).drop (model.values.length + 1) = items := by
        rw [← List.drop_drop, here]
        rfl
      obtain ⟨type, typed, isType⟩ : ∃ type, record.type = some type ∧ type.contents = model.type :=
        Option.map_eq_some_iff.mp (congrArg Fields.type shows)
      rw [List.length_cons, fillValues, there, parseItems]
      refine Follows.reads ?_ (congrArg deref typed)
      rw [isType]
      cases texted : valueText model.type item with
      | none =>
          exact follows_pure (filled_none (shows ▸ sized_ofPartial model _))
      | some text =>
          refine (follows_duplicate text).bind fun outcome copy left related => ?_
          obtain ⟨after, run, now, blocks⟩ := setValue_of_partial shows copy
          refine Follows.reads ?_ run
          cases related with
          | refused =>
              have sized : after.fields.Sized := by
                rw [now]
                rintro cells ⟨⟩
                simp [ofPartial]
              rw [behind_none, add_zero] at blocks
              rw [← blocks]
              exact follows_pure (filled_none sized)
          | made block =>
              rw [Option.map_some, ofPartial_succ] at now
              have next := ih { model with values := model.values ++ [text] } after now
                (by simpa using behind_)
              rw [blocks, behind_some, ← add_assoc, List.length_append] at next
              exact Follows.map_model (next.imp fun _ _ _ filled => filled.cons)

/-- The record is the one given, with the texts of the elements. -/
theorem parseValuesToRecord_eq (record : DnsServer.DNSRecord) (values : CJSON) :
    DnsServer.parseValuesToRecord record values =
      if values.getArraySize ≤ 0 then return none
      else do
        if ← malloc then
          (fun texts => texts.map fun all => { record with values := all }) <$>
            parseItems record.type (values.children.map Prod.snd)
        else return none := by
  unfold DnsServer.parseValuesToRecord
  by_cases none_ : values.getArraySize ≤ 0
  · rw [if_pos none_, if_pos none_]
  rw [if_neg none_, if_neg none_]
  apply congrArg (malloc >>= ·)
  funext allocated
  cases allocated with
  | false => rfl
  | true =>
      simp only [if_true, map_eq_pure_bind]
      apply congrArg (parseItems record.type (values.children.map Prod.snd) >>= ·)
      funext texts
      cases texts <;> rfl

/-- **Parsing a list of values** finishes the record, or leaves one that can be
given back. -/
theorem follows_parseValuesToRecord {model : DnsServer.DNSRecord} {record : DNSRecord}
    (shows : record.fields = ofCreated model) (empty : model.values = []) (values : CJSON) :
    Follows (owned + record.blocks) (parseValuesToRecord record values)
      (DnsServer.parseValuesToRecord model values) fun one other left => ∃ texts,
        one = texts.map (fun all => { model with values := all }) ∧
          Filled model owned texts other left := by
  have absent : record.values = none :=
    Option.map_eq_none_iff.mp (congrArg Fields.values shows)
  have given (count : Nat) : Filled model owned none (false, { record with num_values := count })
      (owned + record.blocks) := by
    refine filled_none fun cells stored => ?_
    rw [DNSRecord.fields, absent] at stored
    cases stored
  rw [parseValuesToRecord_eq]
  unfold parseValuesToRecord
  by_cases none_ : values.getArraySize ≤ 0
  · simp only
    rw [if_pos none_, if_pos none_]
    exact follows_pure ⟨none, rfl, given _⟩
  simp only
  rw [if_neg none_, if_neg none_]
  refine follows_allocate.bind fun outcome other left related => ?_
  cases related with
  | refused => exact follows_pure ⟨none, rfl, given _⟩
  | given block =>
      have started : DNSRecord.fields { record with
          num_values := values.getArraySize
          values := some ⟨block, List.replicate values.getArraySize none⟩ } =
            ofPartial model values.getArraySize := by
        have same := shows
        rw [DNSRecord.fields, ofCreated, ofRecord, Fields.mk.injEq] at same
        obtain ⟨domain, type, key, _, _⟩ := same
        rw [DNSRecord.fields, ofPartial, ofRecord, Fields.mk.injEq, empty]
        refine ⟨domain, type, key, ?_, ?_⟩
        · simp
        · simp
      have blocks : DNSRecord.blocks { record with
          num_values := values.getArraySize
          values := some ⟨block, List.replicate values.getArraySize none⟩ } =
            record.blocks + {block} := by
        simp only [DNSRecord.blocks, DNSRecord.cells, absent, Option.map_some, Option.getD_some,
          Option.map_none, Option.getD_none, List.map_nil, List.sum_nil, behind_none, behind_some,
          List.map_replicate, List.sum_replicate, nsmul_zero]
        abel
      have all : (values.children.map Prod.snd).length = values.getArraySize := by
        rw [List.length_map, CJSON.getArraySize]
      have filled := @follows_fillValues owned values _ model _ (by rw [all]; exact started)
        (by rw [empty, List.length_nil, List.drop_zero])
      rw [empty, List.length_nil, all, blocks, ← add_assoc] at filled
      exact Follows.map_model (filled.imp fun texts _ _ done => ⟨texts, rfl, done⟩)

/-! ## The table -/

/-- The blocks of all records of a table. -/
def tableBlocks (table : Store) : Multiset Block := table.weight DNSRecord.blocks

/-- What an insertion makes of a table when it builds a record or none. -/
inductive Inserted (table : Store) :
    Option DnsServer.DNSRecord → Store → Multiset Block → Prop where
  | kept : Inserted table none table (tableBlocks table)
  | replaced {model : DnsServer.DNSRecord} (record : DNSRecord)
      (shows : record.fields = ofRecord model) :
      Inserted table (some model) (table.replace record) (tableBlocks (table.replace record))

/-- **An insertion in memory** follows the building of its record, for every table:
it meets no fault, and what it leaves in use are the blocks of the records in the
table. -/
theorem follows_addRecordToHash {table : Store} (sized : ∀ record ∈ table, record.fields.Sized)
    (entry : Entry) :
    Follows (tableBlocks table)
      (addRecordToHash table entry.domain entry.type entry.values entry.scope) entry.build
      (Inserted table) := by
  obtain ⟨domain, type, values, scope⟩ := entry
  unfold addRecordToHash Entry.build
  refine (follows_createDnsRecord domain type scope).bind fun created record left made => ?_
  obtain ⟨same, empty, rfl⟩ := made
  cases created with
  | none =>
      obtain rfl : record = none := Option.map_eq_none_iff.mp same
      rw [Option.map_none, Option.getD_none, add_zero]
      exact follows_pure .kept
  | some created =>
      obtain ⟨record, rfl, shows⟩ := Option.map_eq_some_iff.mp same
      refine (follows_parseValuesToRecord shows (empty created rfl) values).after
        fun built outcome left parsed => ?_
      obtain ⟨texts, rfl, status, finished, fits, rfl⟩ := parsed
      obtain ⟨parsed, record⟩ := outcome
      simp only at status finished fits
      subst status
      cases texts with
      | none => exact (follows_freeDnsRecord fits).gives (follows_pure .kept)
      | some texts =>
          have whole := finished texts rfl
          rw [empty created rfl, List.nil_append] at whole
          have stored : record.storedKey = some created.key := congrArg Fields.key whole
          obtain ⟨key, keyed, isKey⟩ := Option.map_eq_some_iff.mp stored
          -- the record under the key, if there is one, gives its blocks back
          have weights : tableBlocks (table.replace record) +
              ((table.find (some created.key)).map DNSRecord.blocks).getD 0 =
                tableBlocks table + record.blocks := by
            rw [← stored]
            exact KeyedTable.weight_replace DNSRecord.blocks table record
          rw [← weights]
          refine Follows.reads ?_ (congrArg deref keyed)
          rw [isKey]
          cases found : table.find (some created.key) with
          | none =>
              rw [Option.map_none, Option.getD_none, add_zero]
              exact follows_pure (.replaced record whole)
          | some existing =>
              have member := (KeyedTable.find_eq_some_iff.mp found).1
              exact (follows_freeDnsRecord (sized existing member)).gives
                (follows_pure (.replaced record whole))

/-- What the records of a table show. -/
def shown (table : Store) : KeyedTable Fields.key :=
  @KeyedTable.map _ _ _ _ _ Fields.key DNSRecord.fields id table Function.injective_id fun _ => rfl

theorem find_shown (table : Store) (key : Option CString) :
    (shown table).find key = (table.find key).map DNSRecord.fields :=
  KeyedTable.find_map table key

theorem replace_shown (table : Store) (record : DNSRecord) :
    (shown table).replace record.fields = shown (table.replace record) :=
  KeyedTable.map_replace table record

theorem del_shown (table : Store) (key : Option CString) :
    (shown table).del key = shown (table.del key) :=
  KeyedTable.map_del table key

theorem Inserted.shown_eq {table after : Store} {built : Option DnsServer.DNSRecord}
    {left : Multiset Block} (inserted : Inserted table built after left) :
    shown after = (shown table).replaceAll (built.map ofRecord).toList := by
  cases inserted with
  | kept => rfl
  | replaced record shows =>
      rw [← replace_shown, shows]
      rfl

theorem Inserted.blocks {table after : Store} {built : Option DnsServer.DNSRecord}
    {left : Multiset Block} (inserted : Inserted table built after left) :
    left = tableBlocks after := by
  cases inserted <;> rfl

/-! ## Deleting -/

/-- A finished record: it has the key of its scope, domain and type, and as many
values as it says, at least one, none of them `NULL`. -/
structure Fields.Complete (fields : Fields) (scope domain type : CString) : Prop where
  ofDomain : fields.domain = some domain
  ofType : fields.type = some type
  underKey : fields.key = some (recordKey scope domain type)
  filled : ∃ cells, fields.values = some cells ∧ cells.length = fields.num_values ∧ none ∉ cells
  positive : 1 ≤ fields.num_values

theorem Fields.Complete.sized {fields : Fields} {scope domain type : CString}
    (complete : fields.Complete scope domain type) : fields.Sized := by
  obtain ⟨cells, stored, count, _⟩ := complete.filled
  intro others same
  rw [stored] at same
  cases same
  exact count

/-- The deletion that does not look for `NULL` gives a finished record back whole. -/
theorem follows_freeFields {record : DNSRecord} {scope domain type : CString}
    (complete : record.fields.Complete scope domain type) :
    Follows (owned + record.blocks) (freeFields record) (pure () : Alloc Unit)
      fun _ _ left => left = owned := by
  obtain ⟨_, filled, _⟩ := complete.filled
  obtain ⟨cells, stored, _⟩ := Option.map_eq_some_iff.mp filled
  have total : owned + record.blocks = owned + {record.block} + behind record.values +
      (record.cells.map behind).sum + behind record.key + behind record.type +
        behind record.domain := by
    rw [DNSRecord.blocks]
    abel
  rw [total, freeFields]
  apply (follows_free record.domain).gives
  apply (follows_free record.type).gives
  apply (follows_free record.key).gives
  refine Follows.gives (follows_cells complete.sized stored fun _ _ cell here => ?_) ?_
  · refine Follows.reads ?_ (congrArg deref stored)
    exact (follows_free cell).reads (by rw [readCell, here])
  · exact (follows_free record.values).gives (follows_release record.block)

/-- What a deletion makes of a table, when its key is allocated or not. -/
structure Deleted (table : Store) (key : CString) (allocated : Bool) (result : Int × Store)
    (left : Multiset Block) : Prop where
  same : result = if allocated ∧ table.find (some key) ≠ none then (0, table.del (some key))
    else (-1, table)
  blocks : left = tableBlocks result.2

/-- **A deletion in memory** takes out the record under the key with all its
blocks. -/
theorem follows_deleteRecord {table : Store}
    (complete : ∀ record ∈ table, ∃ scope domain type, record.fields.Complete scope domain type)
    (domain type scope : CString) :
    Follows (tableBlocks table) (deleteRecord table domain type scope) malloc
      (Deleted table (recordKey scope domain type)) := by
  unfold deleteRecord
  refine (follows_duplicate (recordKey scope domain type)).after fun allocated key left made => ?_
  cases made with
  | refused => exact follows_pure ⟨rfl, rfl⟩
  | made block =>
      let key : Pointer CString := ⟨block, recordKey scope domain type⟩
      cases found : table.find (some (recordKey scope domain type)) with
      | none =>
          simp only [found]
          exact (follows_free (some key)).gives (follows_pure ⟨by simp [found], rfl⟩)
      | some record =>
          obtain ⟨_, _, _, whole⟩ := complete record (KeyedTable.find_eq_some_iff.mp found).1
          have weights : tableBlocks (table.del (some (recordKey scope domain type))) +
              ((table.find (some (recordKey scope domain type))).map DNSRecord.blocks).getD 0 =
                tableBlocks table := KeyedTable.weight_del DNSRecord.blocks table _
          rw [found, Option.map_some, Option.getD_some] at weights
          have total : tableBlocks table + {block} =
              tableBlocks (table.del (some (recordKey scope domain type))) + {block} +
                record.blocks := by
            rw [← weights]
            abel
          simp only [found, total]
          apply (follows_freeFields whole).gives
          exact (follows_free (some key)).gives (follows_pure ⟨by simp [found], rfl⟩)

/-- **Clearing the table** gives the blocks of all its records back. -/
theorem follows_clearRecords {table : Store}
    (complete : ∀ record ∈ table, ∃ scope domain type, record.fields.Complete scope domain type) :
    Follows (tableBlocks table) (clearRecords table) (pure () : Alloc Unit)
      fun _ after left => after = KeyedTable.empty ∧ left = 0 := by
  have cleared : Follows (0 + tableBlocks table) (table.entries.forM freeFields)
      (pure () : Alloc Unit) fun _ _ left => left = 0 := by
    refine follows_forM fun record member _ => ?_
    obtain ⟨_, _, _, whole⟩ := complete record member
    exact follows_freeFields whole
  rw [zero_add] at cleared
  exact cleared.gives (follows_pure ⟨rfl, rfl⟩)

/-! ## Runs -/

/-- The tables of a server with the memory they are in: from the empty table one
insertion, deletion or clearing after the other, whatever allocations fail. -/
inductive Reachable : Store → Memory → Prop where
  | started (memory : Memory) : Reachable KeyedTable.empty memory
  | inserted {table after : Store} {memory left : Memory} (before : Reachable table memory)
      (domain type : CString) (values : CJSON) (scope : CString) (allocations : Allocations)
      (run : (addRecordToHash table domain type values scope).run { memory with allocations } =
        .ok (after, left)) : Reachable after left
  | deleted {table after : Store} {memory left : Memory} (before : Reachable table memory)
      (domain type scope : CString) (allocations : Allocations) {status : Int}
      (run : (deleteRecord table domain type scope).run { memory with allocations } =
        .ok ((status, after), left)) : Reachable after left
  | cleared {table after : Store} {memory left : Memory} (before : Reachable table memory)
      (allocations : Allocations)
      (run : (clearRecords table).run { memory with allocations } = .ok (after, left)) :
      Reachable after left

/-- Every record of a table is finished, and the table owns the blocks in use but
for those of others. -/
structure Tidy (table : Store) (memory : Memory) : Prop where
  complete : ∀ record ∈ table, ∃ scope domain type, record.fields.Complete scope domain type
  owned : ∃ others, memory.blocks.val = others + tableBlocks table

theorem Tidy.sized {table : Store} {memory : Memory} (tidy : Tidy table memory) :
    ∀ record ∈ table, record.fields.Sized := by
  intro record member
  obtain ⟨_, _, _, whole⟩ := tidy.complete record member
  exact whole.sized

/-- The record of an insertion is finished. -/
theorem complete_ofRecord {entry : Entry} {record : DnsServer.DNSRecord}
    (recorded : entry.record = some record) :
    (ofRecord record).Complete entry.scope entry.domain entry.type := by
  obtain ⟨texts, texted, rfl⟩ := Option.map_eq_some_iff.mp recorded
  exact
    { ofDomain := rfl
      ofType := rfl
      underKey := rfl
      filled := ⟨texts.map some, rfl, List.length_map _, by simp⟩
      positive := List.length_pos_iff.mpr (valueTexts_eq_some texted).1 }

/-- **An insertion keeps the records of a table finished.** -/
theorem Tidy.inserted {table after : Store} {built : Option DnsServer.DNSRecord} {entry : Entry}
    {memory : Memory} {left : Multiset Block} (tidy : Tidy table memory)
    (outcome : built = none ∨ built = entry.record) (inserted : Inserted table built after left) :
    ∀ record ∈ after, ∃ scope domain type, record.fields.Complete scope domain type := by
  intro record member
  cases inserted with
  | kept => exact tidy.complete record member
  | replaced new shows =>
      rcases KeyedTable.mem_replace_iff.mp member with ⟨stayed, _⟩ | rfl
      · exact tidy.complete record stayed
      · rw [shows]
        exact ⟨_, _, _, complete_ofRecord (outcome.resolve_left (Option.some_ne_none _)).symm⟩

/-- **Every table that is reached is tidy.** -/
theorem Reachable.tidy {table : Store} {memory : Memory} (reachable : Reachable table memory) :
    Tidy table memory := by
  induction reachable with
  | started memory =>
      exact ⟨fun _ member => absurd member (KeyedTable.not_mem_empty _), memory.blocks.val,
        (add_zero _).symm⟩
  | inserted before domain type values scope allocations run tidy =>
      obtain ⟨others, uses⟩ := tidy.owned
      obtain ⟨left, usesAfter, insertion⟩ :=
        (follows_addRecordToHash tidy.sized ⟨domain, type, values, scope⟩).of_run run uses
      exact ⟨tidy.inserted (Entry.always_build _ allocations) insertion,
        others, insertion.blocks ▸ usesAfter⟩
  | deleted before domain type scope allocations run tidy =>
      obtain ⟨others, uses⟩ := tidy.owned
      obtain ⟨left, usesAfter, same, rfl⟩ :=
        (follows_deleteRecord tidy.complete domain type scope).of_run run uses
      refine ⟨fun record member => ?_, others, usesAfter⟩
      split at same
      · cases same
        exact tidy.complete record (KeyedTable.mem_del_iff.mp member).1
      · cases same
        exact tidy.complete record member
  | cleared before allocations run tidy =>
      obtain ⟨others, uses⟩ := tidy.owned
      obtain ⟨left, usesAfter, rfl, rfl⟩ := (follows_clearRecords tidy.complete).of_run run uses
      exact ⟨fun _ member => absurd member (KeyedTable.not_mem_empty _), others, usesAfter⟩

/-! ## The stores of the server -/

/-- What the records of a store show in memory. -/
def ofStore (store : DnsServer.Store) : KeyedTable Fields.key :=
  @KeyedTable.map _ _ _ _ _ Fields.key ofRecord some store (Option.some_injective _) fun _ => rfl

theorem find_ofStore (store : DnsServer.Store) (key : CString) :
    (ofStore store).find (some key) = (store.find key).map ofRecord :=
  KeyedTable.find_map store key

theorem replace_ofStore (store : DnsServer.Store) (record : DnsServer.DNSRecord) :
    (ofStore store).replace (ofRecord record) = ofStore (store.replace record) :=
  KeyedTable.map_replace store record

theorem del_ofStore (store : DnsServer.Store) (key : CString) :
    (ofStore store).del (some key) = ofStore (store.del key) :=
  KeyedTable.map_del store key

/-- A table that is reached shows the store. -/
def Reached (store : DnsServer.Store) : Prop :=
  ∃ table memory, Reachable table memory ∧ shown table = ofStore store

theorem reached_empty (memory : Memory) : Reached KeyedTable.empty :=
  ⟨KeyedTable.empty, memory, .started memory, rfl⟩

/-- A record that an insertion builds may be put into a table that is reached. -/
theorem Reached.replaced {store : DnsServer.Store} (reached : Reached store) {entry : Entry}
    {record : DnsServer.DNSRecord} (recorded : entry.record = some record) :
    Reached (store.replace record) := by
  obtain ⟨table, memory, reachable, shows⟩ := reached
  have tidy := reachable.tidy
  obtain ⟨others, uses⟩ := tidy.owned
  obtain ⟨after, left, rest, run, _, _, insertion⟩ :=
    follows_addRecordToHash tidy.sized entry others { memory with allocations := [] } uses
  have built : entry.build.under [] = some record := entry.yields_build.result_eq.trans recorded
  refine ⟨after, rest,
    reachable.inserted entry.domain entry.type entry.values entry.scope [] run, ?_⟩
  rw [insertion.shown_eq, built, shows, ← replace_ofStore]
  rfl

theorem Reached.replaceAll {records : List DnsServer.DNSRecord} :
    ∀ {store : DnsServer.Store}, Reached store →
      (∀ record ∈ records, ∃ entry : Entry, entry.record = some record) →
      Reached (store.replaceAll records) := by
  induction records with
  | nil => exact fun reached _ => reached
  | cons record records ih =>
      intro store reached built
      obtain ⟨entry, recorded⟩ := built record List.mem_cons_self
      exact ih (reached.replaced recorded) fun other inside =>
        built other (List.mem_cons_of_mem record inside)

/-- A record of a store may be taken out of a table that is reached. -/
theorem Reached.deleted {store : DnsServer.Store} (reached : Reached store)
    {domain type scope : CString} (present : store.find (recordKey scope domain type) ≠ none) :
    Reached (store.del (recordKey scope domain type)) := by
  obtain ⟨table, memory, reachable, shows⟩ := reached
  have tidy := reachable.tidy
  obtain ⟨others, uses⟩ := tidy.owned
  obtain ⟨⟨status, after⟩, left, rest, run, _, _, same, _⟩ :=
    follows_deleteRecord tidy.complete domain type scope others
      { memory with allocations := [] } uses
  have there : table.find (some (recordKey scope domain type)) ≠ none := by
    intro absent
    have found := find_shown table (some (recordKey scope domain type))
    rw [shows, find_ofStore, absent, Option.map_none, Option.map_eq_none_iff] at found
    exact present found
  rw [if_pos ⟨rfl, there⟩] at same
  cases same
  refine ⟨_, rest, reachable.deleted domain type scope [] run, ?_⟩
  rw [← del_shown, shows, del_ofStore]

/-- A table that is reached may be cleared. -/
theorem Reached.cleared {store : DnsServer.Store} (reached : Reached store) :
    Reached KeyedTable.empty := by
  obtain ⟨table, memory, reachable, _⟩ := reached
  have tidy := reachable.tidy
  obtain ⟨others, uses⟩ := tidy.owned
  obtain ⟨after, left, rest, run, _, _, rfl, _⟩ :=
    follows_clearRecords tidy.complete others { memory with allocations := [] } uses
  exact ⟨_, rest, reachable.cleared [] run, rfl⟩

/-- **The store of a server that has started is in one of these tables**, whatever
commands were run. -/
theorem reachable_ofStore {parse : CString → Option CJSON} {store : DnsServer.Store}
    (reachable : DnsServer.Reachable parse store) : Reached store := by
  induction reachable with
  | started file allocations loaded =>
      rw [loadDNSMappings_eq, Alloc.under_map, Prod.mk.injEq] at loaded
      rw [← loaded.2]
      exact (reached_empty Memory.start).replaceAll (always_mappingRecords parse file allocations)
  | @executed store before command allocations reached =>
      rw [Command.execute_store]
      cases command with
      | add domain type scope value =>
          exact reached.replaceAll fun record => Command.inserts_built
      | delete domain type scope =>
          rcases always_deleteRecord store domain type scope allocations with kept | deleted
          · simp only [kept]
            exact reached
          · simp only [deleted]
            by_cases absent : store.find (recordKey scope domain type) = none
            · rw [KeyedTable.del_of_find_eq_none absent]
              exact reached
            · exact reached.deleted absent
      | list => exact reached
      | reload file => exact reached.cleared.replaceAll fun record => Command.inserts_built

/-! ## All or nothing -/

/-- A finished record with one text for each element of a list, in order, stands
under its key, and nothing else has changed. -/
structure Installed (table : Store) (domain type : CString) (values : CJSON) (scope : CString)
    (after : Store) : Prop where
  stands : ∃ record texts, after.find (some (recordKey scope domain type)) = some record ∧
    record.fields.Complete scope domain type ∧ record.fields.values = some (texts.map some) ∧
    List.Forall₂ (fun item text => valueText type item = some text)
      (values.children.map Prod.snd) texts
  others : ∀ key, key ≠ some (recordKey scope domain type) → after.find key = table.find key

/-- Putting in the record of an insertion installs it. -/
theorem installed_replace (table : Store) {entry : Entry} {model : DnsServer.DNSRecord}
    (recorded : entry.record = some model) {record : DNSRecord}
    (shows : record.fields = ofRecord model) :
    Installed table entry.domain entry.type entry.values entry.scope (table.replace record) := by
  have complete : record.fields.Complete entry.scope entry.domain entry.type :=
    shows ▸ complete_ofRecord recorded
  have stored : record.storedKey = some (recordKey entry.scope entry.domain entry.type) :=
    complete.underKey
  have found := KeyedTable.find_replace_self table record
  rw [stored] at found
  obtain ⟨texts, texted, rfl⟩ := Option.map_eq_some_iff.mp recorded
  exact
    { stands := ⟨_, texts, found, complete, congrArg Fields.values shows,
        (valueTexts_eq_some texted).2⟩
      others := fun key different =>
        KeyedTable.find_replace_of_ne table _ (by rw [stored]; exact different) }

/-- **An insertion is all or nothing**, for every table, every tree of values and
every pattern of failing allocations: either the finished record stands under its
key and nothing else has changed, or the table is as it was, and the blocks in use
are those of its records. Every record of a table that is reached is therefore
finished and lies under its key. -/
theorem addRecordToHash_allOrNothing :
    (∀ table : Store, (∀ record ∈ table, record.fields.Sized) →
      ∀ (domain type : CString) (values : CJSON) (scope : CString) (others : Multiset Block)
        (memory : Memory), memory.blocks.val = others + tableBlocks table → ∃ after rest,
        (addRecordToHash table domain type values scope).run memory = .ok (after, rest) ∧
        rest.blocks.val = others + tableBlocks after ∧
        (Installed table domain type values scope after ∨ after = table)) ∧
    (∀ (table : Store) (memory : Memory), Reachable table memory → ∀ record ∈ table,
      ∃ scope domain type, record.fields.Complete scope domain type ∧
        table.find (some (recordKey scope domain type)) = some record) ∧
    ∀ (parse : CString → Option CJSON) (store : DnsServer.Store),
      DnsServer.Reachable parse store →
        ∃ table memory, Reachable table memory ∧ shown table = ofStore store := by
  refine ⟨?_, ?_, fun parse store => reachable_ofStore⟩
  · intro table sized domain type values scope others memory uses
    obtain ⟨after, left, rest, run, _, usesAfter, insertion⟩ :=
      follows_addRecordToHash sized { domain, type, values, scope } others memory uses
    refine ⟨after, rest, run, insertion.blocks ▸ usesAfter, ?_⟩
    have outcome := Entry.always_build { domain, type, values, scope } memory.allocations
    generalize Alloc.under _ memory.allocations = built at outcome insertion
    cases insertion with
    | kept => exact .inr rfl
    | replaced record shows =>
        exact .inl (installed_replace table
          (outcome.resolve_left (Option.some_ne_none _)).symm shows)
  · intro table memory reachable record member
    obtain ⟨scope, domain, type, complete⟩ := reachable.tidy.complete record member
    exact ⟨scope, domain, type, complete,
      KeyedTable.find_eq_some_iff.mpr ⟨member, complete.underKey⟩⟩

/-- An address that stands in the table, and a list with an element that has no text. -/
theorem addRecordToHash_allOrNothing_address :
    ∃ (record : DNSRecord) (table : Store) (memory : Memory), record ∈ table ∧
      (∃ scope domain type, record.fields.Complete scope domain type ∧
        table.find (some (recordKey scope domain type)) = some record) ∧
      ∀ allocations, ∃ after rest,
        (addRecordToHash table (cstr "a") (cstr "A")
            (.array [.string (cstr "10.0.0.1"), .null]) (cstr "base")).run
              { memory with allocations } = .ok (after, rest) ∧
        (∃ others, memory.blocks.val = others + tableBlocks table ∧
          rest.blocks.val = others + tableBlocks after) ∧
        (Installed table (cstr "a") (cstr "A")
          (.array [.string (cstr "10.0.0.1"), .null]) (cstr "base") after ∨ after = table) := by
  let entry : Entry :=
    { domain := cstr "a", type := cstr "A", scope := cstr "base"
      values := .array [.string (cstr "192.0.2.1")] }
  obtain ⟨model, recorded⟩ : ∃ model, entry.record = some model := ⟨_, rfl⟩
  obtain ⟨table, memory, reached, shows⟩ := (reached_empty Memory.start).replaced recorded
  have found := find_shown table (some model.key)
  rw [shows, find_ofStore, KeyedTable.find_replace_self, Option.map_some] at found
  obtain ⟨record, there, _⟩ := Option.map_eq_some_iff.mp found.symm
  have member := (KeyedTable.find_eq_some_iff.mp there).1
  obtain ⟨others, uses⟩ := reached.tidy.owned
  refine ⟨record, table, memory, member,
    addRecordToHash_allOrNothing.2.1 table memory reached record member, fun allocations => ?_⟩
  obtain ⟨after, rest, run, usesAfter, outcome⟩ :=
    addRecordToHash_allOrNothing.1 table reached.tidy.sized (cstr "a") (cstr "A")
      (.array [.string (cstr "10.0.0.1"), .null]) (cstr "base") others
      { memory with allocations } uses
  exact ⟨after, rest, run, ⟨others, uses, usesAfter⟩, outcome⟩

end InMemory

end DnsServer
