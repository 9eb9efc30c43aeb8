import DnsServer.Model.Management
import DnsServer.Store.Loading

/-!
# The commands of the management interface

What each of the commands can do to the store is said once, in
`Command.execute_store`: nothing at all, replace one record, delete one record,
or start again from the records of a file. A store is reachable when the initial
load succeeded and commands were run after it, with any allocations failing.
-/

set_option autoImplicit false

namespace DnsServer

open Libc

/-! ## Adding and deleting -/

/-- The text that `ADD` stores for a value. -/
def addedText (type value : CString) : Option CString :=
  if type = cstr "MX" then
    (scanPriority value).map fun (priority, mx_value) =>
      snprintf 256 (decimal priority ++ cstr " " ++ mx_value)
  else some value

/-- The record that `ADD` stores. -/
def addedRecord (domain type scope value : CString) : Option DNSRecord :=
  (addedText type value).map fun text =>
    { domain, type, key := recordKey scope domain type, values := [text] }

/-- The node `ADD` makes for a value. -/
def addedNode (type value : CString) : Option CJSON :=
  if type = cstr "MX" then
    (scanPriority value).map fun (priority, mx_value) => .object
      [(cstr "priority", .number priority), (cstr "value", .string mx_value)]
  else some (.string value)

theorem yields_createValue (type value : CString) :
    (createValue type value).Yields (addedNode type value) := by
  unfold createValue addedNode
  split
  · cases scanPriority value with
    | none => rfl
    | some scanned => exact (Alloc.yields_mallocs 6).bind rfl
  · exact (Alloc.yields_mallocs 2).bind rfl

theorem always_createValue (type value : CString) :
    (createValue type value).Always fun node => node = none ∨ node = addedNode type value := by
  unfold createValue addedNode
  split
  · cases scanPriority value with
    | none => exact Alloc.always_pure (.inl rfl)
    | some scanned =>
        refine (Alloc.always_any (mallocs 6)).bind fun allocated _ => ?_
        cases allocated with
        | false => exact Alloc.always_pure (.inl rfl)
        | true => exact Alloc.always_pure (.inr rfl)
  · refine (Alloc.always_any (mallocs 2)).bind fun allocated _ => ?_
    cases allocated with
    | false => exact Alloc.always_pure (.inl rfl)
    | true => exact Alloc.always_pure (.inr rfl)

/-- The node is read back as the text that is stored. -/
theorem valueTexts_addedNode {type value : CString} {node : CJSON}
    (made : addedNode type value = some node) :
    valueTexts type (.array [node]) = (addedText type value).map fun text => [text] := by
  unfold addedNode at made
  unfold addedText
  split at made
  · next isMX =>
    subst isMX
    obtain ⟨⟨priority, mx_value⟩, scanned, rfl⟩ := Option.map_eq_some_iff.mp made
    rw [scanned]
    rfl
  · next notMX =>
    cases made
    simp [valueTexts, CJSON.children, valueText, notMX]

theorem addedNode_eq_none {type value : CString} :
    addedNode type value = none ↔ addedText type value = none := by
  unfold addedNode addedText
  split <;> simp

/-- The insertion `ADD` makes, in terms of what it stores. -/
theorem record_addedNode {domain type scope value : CString} {node : CJSON}
    (made : addedNode type value = some node) :
    Entry.record { domain, type, values := .array [node], scope } =
      addedRecord domain type scope value := by
  simp only [Entry.record, valueTexts_addedNode made, addedRecord, Option.map_map]
  rfl

/-- What `ADD` asks for: its status, and the records it inserts. -/
def addRecords (domain type scope value : CString) : Alloc (Int × List DNSRecord) := do
  if ← malloc then
    match ← createValue type value with
    | none => return (-1, [])
    | some node =>
      let built ← Entry.build { domain, type, values := .array [node], scope }
      return (0, built.toList)
  else return (-1, [])

/-- **Adding is replacing the record asked for**, whatever the store holds and
whatever allocations fail. -/
theorem addSingleRecord_eq (store : Store) (domain type scope value : CString) :
    addSingleRecord store domain type scope value =
      (fun result => (result.1, store.replaceAll result.2)) <$>
        addRecords domain type scope value := by
  simp only [addSingleRecord, addRecords, map_bind]
  apply congrArg (malloc >>= ·)
  funext allocated
  cases allocated with
  | false => rfl
  | true =>
      simp only [if_true, map_bind]
      apply congrArg (createValue type value >>= ·)
      funext node
      cases node with
      | none => rfl
      | some node =>
          have inserted := addRecordToHash_eq store { domain, type, values := .array [node], scope }
          simp only at inserted ⊢
          rw [inserted]
          simp

/-- Without a failure `ADD` inserts its record, or reports an error when the
value of an `MX` cannot be scanned. -/
theorem yields_addRecords (domain type scope value : CString) :
    (addRecords domain type scope value).Yields
      (match addedRecord domain type scope value with
      | none => (-1, [])
      | some record => (0, [record])) := by
  refine Alloc.yields_malloc.bind ((yields_createValue type value).bind ?_)
  cases made : addedNode type value with
  | none =>
      rw [addedRecord, addedNode_eq_none.mp made]
      rfl
  | some node =>
      have built := Entry.yields_build { domain, type, values := .array [node], scope }
      rw [record_addedNode made] at built
      apply built.bind
      cases added : addedRecord domain type scope value with
      | none =>
          rw [addedRecord, Option.map_eq_none_iff, ← addedNode_eq_none, made] at added
          cases added
      | some record => rfl

/-- Whatever allocations fail, `ADD` inserts its record or nothing. -/
theorem always_addRecords (domain type scope value : CString) :
    (addRecords domain type scope value).Always fun result =>
      result.2 = [] ∨ ∃ record, addedRecord domain type scope value = some record ∧
        result = (0, [record]) := by
  refine (Alloc.always_any malloc).bind fun allocated _ => ?_
  cases allocated with
  | false => exact Alloc.always_pure (.inl rfl)
  | true =>
      refine (always_createValue type value).bind fun node outcome => ?_
      cases node with
      | none => exact Alloc.always_pure (.inl rfl)
      | some node =>
          have made : addedNode type value = some node :=
            (outcome.resolve_left (Option.some_ne_none node)).symm
          refine (Entry.always_build { domain, type, values := .array [node], scope }).bind
            fun built built_cases => Alloc.always_pure ?_
          rw [record_addedNode made] at built_cases
          rcases built_cases with rfl | rfl
          · exact .inl rfl
          · cases addedRecord domain type scope value with
            | none => exact .inl rfl
            | some record => exact .inr ⟨record, rfl, rfl⟩

/-- The allocations for the node of a value. -/
def valueAllocations (type : CString) : Nat := if type = cstr "MX" then 6 else 2

/-- The allocations of an `ADD`: one for the array, those for the node of its
value, and six for the record. -/
def addAllocations (type : CString) : Nat := 1 + (valueAllocations type + 6)

theorem costs_createValue {type value : CString} {node : CJSON}
    (made : addedNode type value = some node) :
    (createValue type value).Costs (valueAllocations type) (some node) := by
  unfold createValue valueAllocations
  unfold addedNode at made
  split at made
  · next isMX =>
    obtain ⟨⟨priority, mx_value⟩, scanned, rfl⟩ := Option.map_eq_some_iff.mp made
    rw [if_pos isMX, if_pos isMX, scanned]
    exact Alloc.costs_mallocs 6 _
  · next notMX =>
    cases made
    rw [if_neg notMX, if_neg notMX]
    exact Alloc.costs_mallocs 2 _

/-- A value that cannot be scanned is refused. -/
theorem addRecords_refused {domain type scope value : CString} {allocations : Allocations}
    (refused : addedRecord domain type scope value = none) :
    (addRecords domain type scope value).under allocations = (-1, []) := by
  have nothing : addedNode type value = none :=
    addedNode_eq_none.mpr (Option.map_eq_none_iff.mp refused)
  have always : (addRecords domain type scope value).Always (· = (-1, [])) := by
    refine (Alloc.always_any malloc).bind fun allocated _ => ?_
    cases allocated with
    | false => exact Alloc.always_pure rfl
    | true =>
        refine (always_createValue type value).bind fun node outcome => ?_
        rw [nothing, or_self] at outcome
        rw [outcome]
        exact Alloc.always_pure rfl
  exact always allocations

/-- **What `ADD` asks for**, whatever allocations fail: it reports an error when one
of the allocations for its value fails, and inserts nothing when one of those for the
record does. -/
theorem addRecords_under {domain type scope value : CString} {record : DNSRecord}
    (added : addedRecord domain type scope value = some record) (allocations : Allocations) :
    (addRecords domain type scope value).under allocations =
      if false ∈ allocations.take (1 + valueAllocations type) then (-1, [])
      else (0, if false ∈ allocations.take (addAllocations type) then [] else [record]) := by
  obtain ⟨node, made⟩ : ∃ node, addedNode type value = some node :=
    Option.ne_none_iff_exists'.mp fun none_ => by
      simp [addedRecord, addedNode_eq_none.mp none_] at added
  have recorded : Entry.record { domain, type, values := .array [node], scope } = some record :=
    (record_addedNode made).trans added
  cases allocations with
  | nil =>
      have yields := yields_addRecords domain type scope value
      rw [added] at yields
      rw [List.take_nil, List.take_nil, if_neg List.not_mem_nil, if_neg List.not_mem_nil]
      exact yields.result_eq
  | cons outcome rest =>
      rw [addAllocations, Nat.add_comm 1, Nat.add_comm 1, List.take_succ_cons, List.take_succ_cons,
        List.take_add]
      cases outcome with
      | false => rw [if_pos List.mem_cons_self]; rfl
      | true =>
          obtain ⟨all, fails⟩ := costs_createValue made rest
          obtain ⟨allBuilt, failsBuilt⟩ := Entry.costs_build recorded
            (rest.drop (valueAllocations type))
          have run : (addRecords domain type scope value).under (true :: rest) =
              Alloc.under (createValue type value >>= fun node =>
                match node with
                | none => return (-1, [])
                | some node => do
                  let built ← Entry.build { domain, type, values := .array [node], scope }
                  return (0, built.toList)) rest := rfl
          simp only [List.mem_cons, List.mem_append, Bool.false_eq_true, false_or]
          rw [run, Alloc.under_bind]
          by_cases early : false ∈ rest.take (valueAllocations type)
          · rw [fails early, if_pos early]
            rfl
          · have created : (createValue type value).under rest = some node :=
              congrArg Prod.fst (all early)
            rw [created, all early, if_neg early]
            simp only [Alloc.under_bind, Alloc.under_pure, early, false_or]
            by_cases late : false ∈ (rest.drop (valueAllocations type)).take 6
            · rw [if_pos late, failsBuilt late]
              rfl
            · have built : (Entry.build { domain, type, values := .array [node], scope }).under
                  (rest.drop (valueAllocations type)) = some _ := congrArg Prod.fst (allBuilt late)
              rw [if_neg late, built]
              rfl

/-- **An `ADD` that returns `0` has inserted its record exactly when none of its
allocations failed.** -/
theorem addRecords_of_status {domain type scope value : CString} {record : DNSRecord}
    {allocations : Allocations} (added : addedRecord domain type scope value = some record)
    (status : ((addRecords domain type scope value).under allocations).1 = 0) :
    ((addRecords domain type scope value).under allocations).2 =
      if false ∈ allocations.take (addAllocations type) then [] else [record] := by
  rw [addRecords_under added] at status ⊢
  split at status
  · cases status
  · next early => rw [if_neg early]

/-- **What `ADD` does without a failure.** -/
theorem addSingleRecord_result (store : Store) (domain type scope value : CString) :
    (addSingleRecord store domain type scope value).result =
      match addedRecord domain type scope value with
      | none => (-1, store)
      | some record => (0, store.replace record) := by
  have yields := yields_addRecords domain type scope value
  rw [addSingleRecord_eq, (yields.map _).result_eq]
  cases addedRecord domain type scope value <;> rfl

/-- **What `DELETE` does without a failure.** -/
theorem deleteRecord_result (store : Store) (domain type scope : CString) :
    (deleteRecord store domain type scope).result =
      if store.find (recordKey scope domain type) = none then (-1, store)
      else (0, store.del (recordKey scope domain type)) := by
  apply (Alloc.yields_malloc.result_bind _).trans
  simp only [if_true]
  cases found : store.find (recordKey scope domain type) with
  | none => rfl
  | some record =>
      have key : record.key = recordKey scope domain type :=
        (KeyedTable.find_eq_some_iff.mp found).2
      rw [if_neg (by simp), ← key]
      rfl

theorem always_deleteRecord (store : Store) (domain type scope : CString) :
    (deleteRecord store domain type scope).Always fun result =>
      result = (-1, store) ∨ result = (0, store.del (recordKey scope domain type)) := by
  refine (Alloc.always_any malloc).bind fun allocated _ => ?_
  cases allocated with
  | false => exact Alloc.always_pure (.inl rfl)
  | true =>
      simp only [if_true]
      cases found : store.find (recordKey scope domain type) with
      | none => exact Alloc.always_pure (.inl rfl)
      | some record =>
          rw [← (KeyedTable.find_eq_some_iff.mp found).2]
          exact Alloc.always_pure (.inr rfl)

/-! ## Commands -/

variable {parse : CString → Option CJSON}

/-- Run a command: the store that is left. `LIST` only reads the store. -/
def Command.execute (parse : CString → Option CJSON) (store : Store) : Command → Alloc Store
  | .add domain type scope value =>
    (fun result => result.2) <$> addSingleRecord store domain type scope value
  | .delete domain type scope => (fun result => result.2) <$> deleteRecord store domain type scope
  | .list => return store
  | .reload file => (fun result => result.2) <$> handleReloadCommand parse file store

/-- `RELOAD` starts from nothing and replaces the records of the file. -/
theorem handleReloadCommand_eq (parse : CString → Option CJSON) (file : MappingsFile)
    (store : Store) :
    handleReloadCommand parse file store =
      (fun result => (result.1 == 0, KeyedTable.empty.replaceAll result.2)) <$>
        mappingRecords parse file := by
  simp only [handleReloadCommand, loadDNSMappings_eq, clearRecords, map_eq_pure_bind, bind_assoc,
    pure_bind]

/-- The records a command inserts. -/
def Command.inserts (parse : CString → Option CJSON) (allocations : Allocations) :
    Command → List DNSRecord
  | .add domain type scope value => ((addRecords domain type scope value).under allocations).2
  | .reload file => ((mappingRecords parse file).under allocations).2
  | .delete _ _ _ | .list => []

/-- **What a command does to the store**: `ADD` replaces records, `RELOAD` does
so in an empty store, `DELETE` takes out one record unless an allocation fails,
and `LIST` does nothing. -/
theorem Command.execute_store (store : Store) (command : Command) (allocations : Allocations) :
    (command.execute parse store).under allocations =
      match command with
      | .add _ _ _ _ => store.replaceAll (command.inserts parse allocations)
      | .delete domain type scope => ((deleteRecord store domain type scope).under allocations).2
      | .list => store
      | .reload _ => KeyedTable.empty.replaceAll (command.inserts parse allocations) := by
  cases command with
  | add domain type scope value =>
      rw [Command.execute, addSingleRecord_eq, Alloc.under_map, Alloc.under_map]
      rfl
  | delete domain type scope => rfl
  | list => rfl
  | reload file =>
      rw [Command.execute, handleReloadCommand_eq, Alloc.under_map]
      rfl

/-- A command with the outcomes of its allocations. -/
abbrev Step := Command × Allocations

/-- The store after a step. -/
def Store.next (parse : CString → Option CJSON) (store : Store) (step : Step) : Store :=
  (step.1.execute parse store).under step.2

/-- The commands that may change the record under a key. -/
def Command.touches (key : CString) : Command → Prop
  | .add domain type scope _ | .delete domain type scope => recordKey scope domain type = key
  | .list => False
  | .reload _ => True

/-- A step that does not touch a record leaves it alone. -/
theorem Store.find_next {store : Store} {step : Step} {key : CString}
    (untouched : ¬ step.1.touches key) : (store.next parse step).find key = store.find key := by
  obtain ⟨command, allocations⟩ := step
  rw [Store.next, Command.execute_store]
  cases command with
  | add domain type scope value =>
      have different : recordKey scope domain type ≠ key := untouched
      have absent : KeyedTable.lastUnder DNSRecord.key
          ((addRecords domain type scope value).under allocations).2 key = none := by
        rcases always_addRecords domain type scope value allocations with
          nothing | ⟨record, recorded, result⟩
        · rw [nothing]
          rfl
        · obtain ⟨text, _, rfl⟩ := Option.map_eq_some_iff.mp recorded
          rw [result]
          simp [KeyedTable.lastUnder, different]
      simp only [Command.inserts, KeyedTable.find_replaceAll, absent, Option.none_or]
  | delete domain type scope =>
      have different : recordKey scope domain type ≠ key := untouched
      rcases always_deleteRecord store domain type scope allocations with kept | deleted
      · simp only [kept]
      · simp only [deleted]
        exact KeyedTable.find_del_of_ne store (Ne.symm different)
  | list => rfl
  | reload file => exact absurd trivial untouched

/-- **A record stays as it is until a step touches it.** -/
theorem Store.find_run {key : CString} {steps : List Step}
    (untouched : ∀ step ∈ steps, ¬ step.1.touches key) :
    ∀ store : Store, (steps.foldl (Store.next parse) store).find key = store.find key := by
  induction steps with
  | nil => exact fun _ => rfl
  | cons step steps ih =>
      intro store
      rw [List.foldl_cons, ih (fun later member => untouched later (List.mem_cons_of_mem step member)),
        Store.find_next (untouched step List.mem_cons_self)]

/-! ## Reachable stores -/

/-- The stores of a server that has started. -/
inductive Reachable (parse : CString → Option CJSON) : Store → Prop where
  | started (file : MappingsFile) (allocations : Allocations) {store : Store}
      (loaded : (loadDNSMappings parse file KeyedTable.empty).under allocations = (0, store)) :
      Reachable parse store
  | executed {store : Store} (before : Reachable parse store) (command : Command)
      (allocations : Allocations) :
      Reachable parse ((command.execute parse store).under allocations)

/-- A command inserts only records that insertions build. -/
theorem Command.inserts_built {command : Command} {allocations : Allocations} {record : DNSRecord}
    (inserted : record ∈ command.inserts parse allocations) :
    ∃ entry : Entry, entry.record = some record := by
  cases command with
  | add domain type scope value =>
      rcases always_addRecords domain type scope value allocations with
        nothing | ⟨added, recorded, result⟩
      · simp [Command.inserts, nothing] at inserted
      · have same : record = added := by simpa [Command.inserts, result] using inserted
        subst same
        obtain ⟨text, texted, _⟩ := Option.map_eq_some_iff.mp recorded
        cases made : addedNode type value with
        | none => simp [addedNode_eq_none.mp made] at texted
        | some node =>
            exact ⟨{ domain, type, values := .array [node], scope },
              (record_addedNode made).trans recorded⟩
  | reload file => exact always_mappingRecords parse file allocations record inserted
  | delete domain type scope => simp [Command.inserts] at inserted
  | list => simp [Command.inserts] at inserted

/-- **Every record of a reachable store is one that an insertion builds.** -/
theorem Reachable.built {store : Store} (reachable : Reachable parse store) :
    ∀ record ∈ store, ∃ entry : Entry, entry.record = some record := by
  induction reachable with
  | started file allocations loaded =>
      intro record member
      rw [loadDNSMappings_eq, Alloc.under_map, Prod.mk.injEq] at loaded
      rw [← loaded.2] at member
      exact always_mappingRecords parse file allocations record
        ((KeyedTable.mem_of_mem_replaceAll member).resolve_left (KeyedTable.not_mem_empty record))
  | @executed store before command allocations ih =>
      intro record member
      rw [Command.execute_store] at member
      cases command with
      | add domain type scope value =>
          rcases KeyedTable.mem_of_mem_replaceAll member with stayed | inserted
          · exact ih record stayed
          · exact Command.inserts_built inserted
      | delete domain type scope =>
          rcases always_deleteRecord store domain type scope allocations with kept | deleted
          · simp only [kept] at member
            exact ih record member
          · simp only [deleted] at member
            exact ih record (KeyedTable.mem_del_iff.mp member).1
      | list => exact ih record member
      | reload file =>
          rcases KeyedTable.mem_of_mem_replaceAll member with stayed | inserted
          · exact absurd stayed (KeyedTable.not_mem_empty record)
          · exact Command.inserts_built inserted

/-- A record of a reachable store has a value. -/
theorem Reachable.values_ne_nil {store : Store} (reachable : Reachable parse store)
    {record : DNSRecord} (member : record ∈ store) : record.values ≠ [] := by
  obtain ⟨entry, recorded⟩ := reachable.built record member
  obtain ⟨texts, texted, rfl⟩ := Option.map_eq_some_iff.mp recorded
  exact (valueTexts_eq_some texted).1

/-- After an `ADD` without a failed allocation the store is reachable. -/
theorem Reachable.added {store : Store} (before : Reachable parse store)
    (domain type scope value : CString) :
    Reachable parse (addSingleRecord store domain type scope value).result.2 :=
  before.executed (.add domain type scope value) []

/-- A tree with one list of base records. -/
def baseTree (domain type : CString) (values : CJSON) : CJSON := .object [(cstr "domains",
  .object [(domain, .object [(cstr "records", .object [(type, values)])])])]

/-- **Any list of values may stand in the store under a base key.** -/
theorem reachable_baseTree (domain type : CString) {values : CJSON} {texts : List CString}
    (texted : valueTexts type values = some texts) :
    ∃ store, Reachable (fun _ => some (baseTree domain type values)) store ∧
      store.find (recordKey (cstr "base") domain type) = some
        { domain, type, key := recordKey (cstr "base") domain type, values := texts } := by
  have positive : ¬ (cstr "\x7b\x7d").length ≤ 0 := by decide
  have domains : fileDomains (fun _ => some (baseTree domain type values))
      (.contents (cstr "\x7b\x7d")) =
        some [(domain, .object [(cstr "records", .object [(type, values)])])] := by
    simp only [fileDomains, baseTree, getObjectItem_single]
    rw [if_neg positive]
  have compatible : conflicting (.object [(cstr "records", .object [(type, values)])]) = false := by
    simp only [conflicting, getObjectItem_single, cnameFlags, CJSON.children, List.map_cons,
      List.map_nil, List.foldl_cons, List.foldl_nil]
    split <;> rfl
  have noWildcards : (CJSON.object [(cstr "records", .object [(type, values)])]).getObjectItem
      (cstr "wildcards") = none := getObjectItem_other _ (by decide)
  have noSubdomains : (CJSON.object [(cstr "records", .object [(type, values)])]).getObjectItem
      (cstr "subdomains") = none := getObjectItem_other _ (by decide)
  have entries : mappingEntries (fun _ => some (baseTree domain type values))
      (.contents (cstr "\x7b\x7d")) =
        [{ domain, type, values, scope := cstr "base" }] := by
    rw [mappingEntries, domains, Option.getD_some]
    simp only [domainsEntries, compatible, baseEntries, getObjectItem_single, typeEntries_single,
      wildcardEntries, noWildcards, subdomainEntries, noSubdomains]
    rfl
  have records := mappingRecords_result (fun _ => some (baseTree domain type values))
    (.contents (cstr "\x7b\x7d"))
  rw [entries] at records
  simp only [List.filterMap_cons, List.filterMap_nil, Entry.record, texted, Option.map_some]
    at records
  have status := (mappingRecords_status (fun _ => some (baseTree domain type values))
    (.contents (cstr "\x7b\x7d")) []).mpr
      ⟨⟨_, domains, by simpa using compatible⟩, by simp [dataAllocated]⟩
  refine ⟨KeyedTable.empty.replaceAll
    (mappingRecords (fun _ => some (baseTree domain type values))
      (.contents (cstr "\x7b\x7d"))).result.2,
    .started (.contents (cstr "\x7b\x7d")) [] ?_, ?_⟩
  · rw [loadDNSMappings_eq, Alloc.under_map, status]
    rfl
  · rw [records]
    exact KeyedTable.find_replace_self _ _

/-- A tree without any domain. -/
def noDomains : CJSON := .object [(cstr "domains", .object [])]

/-- A server may start with an empty store. -/
theorem reachable_empty : Reachable (fun _ => some noDomains) KeyedTable.empty :=
  .started (.contents (cstr "\x7b\"domains\": \x7b\x7d\x7d")) [] rfl

end DnsServer
