import DnsServer.Resolution.Lookup
import DnsServer.Store.Commands
import Mathlib.Data.List.Forall2

/-!
# Stores in which domains are spelled differently

Two insertions are `Alike` for some keys when they insert the same values and
those keys do not tell their keys apart. Stores are alike when a search under one
of the keys finds the same values in both. What the server does keeps stores
alike when it inserts alike, whatever allocations fail (`Store.Alike.next`), so
stores of two runs that differ in the letter case of stored domains are alike for
the keys that no such domain has in either spelling (`Store.Alike.run`).
-/

set_option autoImplicit false

namespace DnsServer

open Libc

/-! ## Records and insertions -/

/-- The key of the record that an insertion builds. -/
def Entry.key (entry : Entry) : CString := recordKey entry.scope entry.domain entry.type

/-- The same type and values, under keys that some keys do not tell apart. -/
structure Entry.Alike (tried : CString → Prop) (first second : Entry) : Prop where
  type : first.type = second.type
  values : first.values = second.values
  key : ∀ key, tried key → (first.key = key ↔ second.key = key)

structure DNSRecord.Alike (tried : CString → Prop) (first second : DNSRecord) : Prop where
  values : first.values = second.values
  key : ∀ key, tried key → (first.key = key ↔ second.key = key)

variable {tried : CString → Prop}

/-- **Alike insertions build alike records**, and make the same allocations. -/
theorem Entry.Alike.together_build {first second : Entry} (alike : first.Alike tried second) :
    Alloc.Together (Option.Rel (DNSRecord.Alike tried)) first.build second.build := by
  obtain ⟨type, values, key⟩ := alike
  simp only [Entry.key, type] at key
  unfold Entry.build createDnsRecord
  simp only [bind_assoc]
  refine (Alloc.together_self (mallocs 4)).bind fun allocated _ same => ?_
  subst same
  cases allocated with
  | false => exact Alloc.together_pure .none
  | true =>
      simp only [if_true, pure_bind, parseValuesToRecord, values, type]
      split
      · exact Alloc.together_pure .none
      · refine (Alloc.together_self malloc).bind fun allocated _ same => ?_
        subst same
        cases allocated with
        | false => exact Alloc.together_pure .none
        | true =>
            refine (Alloc.together_self (parseItems _ _)).bind fun texts _ same => ?_
            subst same
            cases texts with
            | none => exact Alloc.together_pure .none
            | some texts => exact Alloc.together_pure (.some ⟨rfl, key⟩)

theorem together_buildAll {first second : List Entry}
    (alike : List.Forall₂ (Entry.Alike tried) first second) :
    Alloc.Together (List.Forall₂ (DNSRecord.Alike tried)) (buildAll first) (buildAll second) := by
  induction alike with
  | nil => exact Alloc.together_pure .nil
  | cons here _ ih =>
      refine here.together_build.bind fun one other built => ih.bind fun ones others rest =>
        Alloc.together_pure ?_
      cases built with
      | none => exact rest
      | some built => exact .cons built rest

/-! ## Stores -/

/-- A search under one of the keys finds the same values. -/
def Store.Alike (tried : CString → Prop) (first second : Store) : Prop :=
  ∀ key, tried key → (first.find key).map DNSRecord.values = (second.find key).map DNSRecord.values

theorem Store.Alike.refl (store : Store) : Store.Alike tried store store := fun _ _ => rfl

theorem Store.Alike.replaceAll {first second : Store} (alike : Store.Alike tried first second)
    {ones others : List DNSRecord} (records : List.Forall₂ (DNSRecord.Alike tried) ones others) :
    Store.Alike tried (first.replaceAll ones) (second.replaceAll others) := by
  induction records generalizing first second with
  | nil => exact alike
  | @cons one other ones others here _ ih =>
      refine ih fun key tries => ?_
      by_cases same : one.key = key
      · rw [← same, KeyedTable.find_replace_self, same, ← (here.key key tries).mp same,
          KeyedTable.find_replace_self]
        exact congrArg some here.values
      · have different := mt (here.key key tries).mpr same
        rw [KeyedTable.find_replace_of_ne first one (Ne.symm same),
          KeyedTable.find_replace_of_ne second other (Ne.symm different)]
        exact alike key tries

/-- Alike stores hold the same values for a name whose keys are among those. -/
theorem Store.Alike.lookup {first second : Store} {domain type : CString}
    (alike : Store.Alike (· ∈ lookupKeys domain type) first second) :
    (lookup first domain type).map DNSRecord.values =
      (lookup second domain type).map DNSRecord.values := by
  unfold DnsServer.lookup
  unfold Store.Alike at alike
  generalize lookupKeys domain type = keys at alike ⊢
  induction keys with
  | nil => rfl
  | cons key keys ih =>
      have here := alike key List.mem_cons_self
      have later := ih fun other member => alike other (List.mem_cons_of_mem key member)
      rw [List.findSome?_cons, List.findSome?_cons]
      cases one : first.find key with
      | none =>
          rw [one, Option.map_none, eq_comm, Option.map_eq_none_iff] at here
          rw [here]
          exact later
      | some record =>
          rw [one, Option.map_some, eq_comm, Option.map_eq_some_iff] at here
          obtain ⟨other, two, values⟩ := here
          rw [two]
          exact congrArg some values.symm

/-- Deleting the record under a key keeps stores alike. -/
theorem Store.Alike.del {first second : Store} (alike : Store.Alike tried first second)
    (key : CString) : Store.Alike tried (first.del key) (second.del key) := by
  intro other tries
  by_cases same : other = key
  · rw [same, KeyedTable.find_del_self, KeyedTable.find_del_self]
  · rw [KeyedTable.find_del_of_ne first same, KeyedTable.find_del_of_ne second same]
    exact alike other tries

/-- `DELETE` takes out the record under a key when its allocation succeeds. -/
theorem find_deleteRecord (store : Store) (domain type scope : CString)
    (allocations : Allocations) (key : CString) :
    ((deleteRecord store domain type scope).under allocations).2.find key =
      if malloc.under allocations then (store.del (recordKey scope domain type)).find key
      else store.find key := by
  rw [deleteRecord, Alloc.under_bind]
  cases malloc.under allocations with
  | false => rfl
  | true =>
      simp only [if_true]
      cases found : store.find (recordKey scope domain type) with
      | some record =>
          rw [← (KeyedTable.find_eq_some_iff.mp found).2]
          rfl
      | none =>
          change store.find key = _
          by_cases same : key = recordKey scope domain type
          · rw [same, KeyedTable.find_del_self, found]
          · rw [KeyedTable.find_del_of_ne store same]

/-! ## Spellings -/

/-- Insertions of the same values under two spellings of one name. -/
structure Entry.Respelled (first second : Entry) : Prop where
  domain : sameIgnoringCase first.domain second.domain
  type : first.type = second.type
  values : first.values = second.values
  scope : first.scope = second.scope

/-- Subdomains whose names differ in letter case at most. -/
def RespelledSubdomains (first second : CJSON) : Prop :=
  List.Forall₂ (fun one other =>
    Option.Rel (fun name other => sameIgnoringCase name other) one.1 other.1 ∧ one.2 = other.2)
    first.children second.children

/-- Members of `domains` that differ in the letter case of the names of the domain
and of its subdomains at most. -/
structure RespelledDomain (first second : CString × CJSON) : Prop where
  name : sameIgnoringCase first.1 second.1
  records : first.2.getObjectItem (cstr "records") = second.2.getObjectItem (cstr "records")
  wildcards : first.2.getObjectItem (cstr "wildcards") = second.2.getObjectItem (cstr "wildcards")
  subdomains : Option.Rel RespelledSubdomains (first.2.getObjectItem (cstr "subdomains"))
    (second.2.getObjectItem (cstr "subdomains"))

/-- Files whose domains are spelled differently. -/
def RespelledFile (parse : CString → Option CJSON) (first second : MappingsFile) : Prop :=
  ∃ domains others, fileDomains parse first = some domains ∧
    fileDomains parse second = some others ∧ List.Forall₂ RespelledDomain domains others

theorem respelled_typeEntries (records : CJSON) {name other : CString} (scope : CString)
    (same : sameIgnoringCase name other) :
    List.Forall₂ Entry.Respelled (typeEntries records name scope)
      (typeEntries records other scope) := by
  unfold typeEntries
  induction records.children with
  | nil => exact .nil
  | cons child children ih =>
      rw [List.filterMap_cons, List.filterMap_cons]
      cases child.1 with
      | none => exact ih
      | some type =>
          simp only [typeEntry, Option.bind_eq_bind, Option.bind_some]
          cases records.getObjectItem type with
          | none => exact ih
          | some values => exact .cons ⟨same, rfl, rfl, rfl⟩ ih

theorem respelled_baseEntries {first second : CString × CJSON}
    (same : RespelledDomain first second) :
    List.Forall₂ Entry.Respelled (baseEntries first.1 first.2)
      (baseEntries second.1 second.2) := by
  unfold baseEntries
  rw [same.records]
  cases second.2.getObjectItem (cstr "records") with
  | none => exact .nil
  | some records => exact respelled_typeEntries records _ same.name

theorem respelled_wildcardEntries {first second : CString × CJSON}
    (same : RespelledDomain first second) :
    List.Forall₂ Entry.Respelled (wildcardEntries first.1 first.2)
      (wildcardEntries second.1 second.2) := by
  unfold wildcardEntries
  rw [same.wildcards]
  cases second.2.getObjectItem (cstr "wildcards") with
  | none => exact .nil
  | some wildcards =>
      simp only
      cases wildcards.getObjectItem (cstr "records") with
      | none => exact .nil
      | some wildcard_records =>
          exact respelled_typeEntries wildcard_records _
            (sameIgnoringCase_take (sameIgnoringCase_append (sameIgnoringCase_self _) same.name) _)

theorem respelled_subdomainEntries {first second : CString × CJSON}
    (same : RespelledDomain first second) :
    List.Forall₂ Entry.Respelled (subdomainEntries first.1 first.2)
      (subdomainEntries second.1 second.2) := by
  have subdomains := same.subdomains
  unfold subdomainEntries
  generalize first.2.getObjectItem (cstr "subdomains") = one at subdomains ⊢
  generalize second.2.getObjectItem (cstr "subdomains") = other at subdomains ⊢
  cases subdomains with
  | none => exact .nil
  | some children =>
      refine List.rel_flatMap children fun child other spelled => ?_
      obtain ⟨subdomainName, subdomain⟩ := child
      obtain ⟨otherName, otherDomain⟩ := other
      obtain ⟨named, equal⟩ := spelled
      simp only at named equal ⊢
      subst equal
      cases subdomain.getObjectItem (cstr "records") with
      | none => exact .nil
      | some subdomain_records =>
          refine respelled_typeEntries subdomain_records _ (sameIgnoringCase_take ?_ _)
          refine sameIgnoringCase_append (sameIgnoringCase_append ?_ (sameIgnoringCase_self _))
            same.name
          cases named with
          | none => exact sameIgnoringCase_self _
          | some spelled => exact spelled

/-- **Respelled domains ask for respelled insertions.** -/
theorem respelled_domainsEntries {domains others : List (CString × CJSON)}
    (spelled : List.Forall₂ RespelledDomain domains others) :
    List.Forall₂ Entry.Respelled (domainsEntries domains) (domainsEntries others) := by
  induction spelled with
  | nil => exact .nil
  | @cons domain other domains others here _ ih =>
      have conflict : conflicting domain.2 = conflicting other.2 := by
        rw [conflicting, conflicting, here.records]
      simp only [domainsEntries, conflict]
      refine List.rel_append (respelled_baseEntries here) ?_
      split
      · exact .nil
      · exact List.rel_append (List.rel_append (respelled_wildcardEntries here)
          (respelled_subdomainEntries here)) ih

theorem respelled_mappingEntries {parse : CString → Option CJSON} {first second : MappingsFile}
    (spelled : RespelledFile parse first second) :
    List.Forall₂ Entry.Respelled (mappingEntries parse first) (mappingEntries parse second) := by
  obtain ⟨domains, others, read, readOther, domains_⟩ := spelled
  rw [mappingEntries, mappingEntries, read, readOther]
  exact respelled_domainsEntries domains_

/-- None of some keys is the key of an insertion whose domain has changed, in either
spelling. -/
def Untried (tried : CString → Prop) (first second : List Entry) : Prop :=
  ∀ pair ∈ first.zip second,
    pair.1.domain = pair.2.domain ∨ (¬ tried pair.1.key ∧ ¬ tried pair.2.key)

/-- Keys that no changed domain has do not tell respelled insertions apart. -/
theorem alike_of_untried {first second : List Entry}
    (spelled : List.Forall₂ Entry.Respelled first second) (untried : Untried tried first second) :
    List.Forall₂ (Entry.Alike tried) first second := by
  induction spelled with
  | nil => exact .nil
  | @cons one other ones others here _ ih =>
      rw [Untried, List.zip_cons_cons, List.forall_mem_cons] at untried
      refine .cons ⟨here.type, here.values, fun key tries => ?_⟩ (ih untried.2)
      rcases untried.1 with same | ⟨first, second⟩
      · have equal : one.domain = other.domain := same
        rw [Entry.key, Entry.key, equal, here.scope, here.type]
      · constructor
        · rintro rfl
          exact absurd tries first
        · rintro rfl
          exact absurd tries second

/-! ## Runs -/

variable {parse : CString → Option CJSON}

/-- Two commands that differ in the spelling of stored domains at most, none of
which has one of some keys in either spelling. -/
inductive Command.Respelled (parse : CString → Option CJSON) (tried : CString → Prop) :
    Command → Command → Prop
  | same (command : Command) : Respelled parse tried command command
  | add {domain other : CString} (type scope value : CString)
      (spelled : sameIgnoringCase domain other) (untried : ¬ tried (recordKey scope domain type))
      (untriedOther : ¬ tried (recordKey scope other type)) :
      Respelled parse tried (.add domain type scope value) (.add other type scope value)
  | reload {file other : MappingsFile} (spelled : RespelledFile parse file other)
      (untried : Untried tried (mappingEntries parse file) (mappingEntries parse other)) :
      Respelled parse tried (.reload file) (.reload other)

/-- The same outcomes of the allocations, and respelled commands. -/
def RespelledStep (parse : CString → Option CJSON) (tried : CString → Prop)
    (first second : Step) : Prop :=
  Command.Respelled parse tried first.1 second.1 ∧ first.2 = second.2

/-- A file with domains is read with one allocation. -/
theorem readDomains_of_some {file : MappingsFile} {domains : List (CString × CJSON)}
    (read : fileDomains parse file = some domains) :
    readDomains parse file = do if ← malloc then return some domains else return none := by
  cases file with
  | missing => cases read
  | unreadable length => cases read
  | contents bytes =>
      simp only [fileDomains] at read
      split at read
      · cases read
      · next large =>
        simp only [readDomains]
        rw [if_neg large]
        cases parsed : parse (cutAtNul bytes) with
        | none => simp [parsed] at read
        | some json =>
            simp only [parsed] at read ⊢
            generalize json.getObjectItem (cstr "domains") = member at read ⊢
            rcases member with _ | (_ | _ | _ | _ | _ | members) <;> cases read
            rfl

theorem together_mappingRecords {file other : MappingsFile}
    (spelled : RespelledFile parse file other)
    (untried : Untried tried (mappingEntries parse file) (mappingEntries parse other)) :
    Alloc.Together (fun first second => List.Forall₂ (DNSRecord.Alike tried) first.2 second.2)
      (mappingRecords parse file) (mappingRecords parse other) := by
  have entries := alike_of_untried (respelled_mappingEntries spelled) untried
  obtain ⟨domains, others, read, readOther, _⟩ := spelled
  rw [mappingEntries, mappingEntries, read, readOther, Option.getD_some, Option.getD_some] at entries
  rw [mappingRecords, mappingRecords, readDomains_of_some read, readDomains_of_some readOther]
  simp only [bind_assoc]
  refine (Alloc.together_self malloc).bind fun allocated _ same => ?_
  subst same
  cases allocated with
  | false => exact Alloc.together_pure .nil
  | true =>
      simp only [if_true, pure_bind]
      exact (together_buildAll entries).bind fun _ _ built => Alloc.together_pure built

theorem together_addRecords {domain other : CString} (type scope value : CString)
    (untried : ¬ tried (recordKey scope domain type))
    (untriedOther : ¬ tried (recordKey scope other type)) :
    Alloc.Together (fun first second => List.Forall₂ (DNSRecord.Alike tried) first.2 second.2)
      (addRecords domain type scope value) (addRecords other type scope value) := by
  rw [addRecords, addRecords]
  refine (Alloc.together_self malloc).bind fun allocated _ same => ?_
  subst same
  cases allocated with
  | false => exact Alloc.together_pure .nil
  | true =>
      simp only [if_true]
      refine (Alloc.together_self (createValue type value)).bind fun node _ same => ?_
      subst same
      cases node with
      | none => exact Alloc.together_pure .nil
      | some node =>
          have alike : Entry.Alike tried
              { domain := domain, type, values := .array [node], scope }
              { domain := other, type, values := .array [node], scope } := by
            refine ⟨rfl, rfl, fun key tries => ?_⟩
            constructor
            · rintro rfl
              exact absurd tries untried
            · rintro rfl
              exact absurd tries untriedOther
          refine alike.together_build.bind fun _ _ built => Alloc.together_pure ?_
          cases built with
          | none => exact .nil
          | some built => exact .cons built .nil

/-- **One step.** Respelled commands keep stores alike. -/
theorem Store.Alike.next {first second : Store} (alike : Store.Alike tried first second)
    {step other : Step} (spelled : RespelledStep parse tried step other) :
    Store.Alike tried (first.next parse step) (second.next parse other) := by
  obtain ⟨command, allocations⟩ := step
  obtain ⟨otherCommand, _⟩ := other
  obtain ⟨commands, same⟩ := spelled
  simp only at commands same
  subst same
  simp only [Store.next, Command.execute_store]
  cases commands with
  | same =>
      cases command with
      | add domain type scope value =>
          exact alike.replaceAll (List.forall₂_same.mpr fun _ _ => ⟨rfl, fun _ _ => Iff.rfl⟩)
      | delete domain type scope =>
          intro key tries
          simp only [find_deleteRecord]
          split
          · exact alike.del _ key tries
          · exact alike key tries
      | list => exact alike
      | reload file => exact .refl _
  | add type scope value _ untried untriedOther =>
      exact alike.replaceAll (together_addRecords type scope value untried untriedOther
        allocations).1
  | reload spelled untried =>
      exact (Store.Alike.refl _).replaceAll (together_mappingRecords spelled untried allocations).1

/-- **Whole runs.** Runs that differ in the spelling of stored domains keep stores
alike for the keys that no such domain has. -/
theorem Store.Alike.run {steps others : List Step}
    (spelled : List.Forall₂ (RespelledStep parse tried) steps others) :
    ∀ {first second : Store}, Store.Alike tried first second →
      Store.Alike tried (steps.foldl (Store.next parse) first)
        (others.foldl (Store.next parse) second) := by
  induction spelled with
  | nil => exact id
  | cons here _ ih => exact fun alike => ih (alike.next here)

end DnsServer
