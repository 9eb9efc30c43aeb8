import DnsServer.Foundation.Runs
import DnsServer.Store.Commands
import Mathlib.Data.List.TakeDrop

/-!
# The store as a map from triples

What the store is for is a finite map from a scope, a domain and a type to the
values of a record. `TripleMap` is that map, with the two calls that change it,
and `entry` reads it off a store: a triple has the record under its key when that
record also has the domain and the type of the triple.

The key of a record joins the three with underscores, so different triples may
share a key. A call refines its counterpart exactly when the record under its
key, if there is one, belongs to its own triple, and when the text of an `MX`
fits the buffer it is printed into (`refines_iff`, `refines_along_iff`). No two
triples share a key as long as scopes and types contain no underscore
(`Triple.key_injective`).
-/

set_option autoImplicit false

namespace DnsServer

open Libc

/-! ## Triples and their maps -/

structure Triple where
  scope : CString
  domain : CString
  type : CString
  deriving DecidableEq, Repr

def Triple.key (triple : Triple) : CString := recordKey triple.scope triple.domain triple.type

/-- Triples with the same key, domain and type have the same scope. -/
theorem Triple.eq_of_key_eq {first second : Triple} (key : first.key = second.key)
    (domain : first.domain = second.domain) (type : first.type = second.type) :
    first = second := by
  obtain ⟨scope, _, _⟩ := first
  obtain ⟨scope', _, _⟩ := second
  cases domain
  cases type
  simp only [Triple.key, recordKey, List.append_assoc] at key
  rw [List.append_cancel_right key]

/-- The part of a text in front of the first underscore. -/
theorem takeWhile_append_underscore {part rest : CString} (clean : 95 ∉ part) :
    (part ++ (cstr "_" ++ rest)).takeWhile (· ≠ 95) = part := by
  have stop : (cstr "_" ++ rest).takeWhile (· ≠ 95) = [] := by simp [cstr]
  rw [List.takeWhile_append_of_pos (fun c member => by
    simp only [ne_eq, decide_not, Bool.not_eq_eq_eq_not, Bool.not_true, decide_eq_false_iff_not]
    rintro rfl
    exact clean member), stop, List.append_nil]

/-- The key determines the scope when scopes contain no underscore. -/
theorem recordKey_scope {scope scope' name name' type type' : CString} (clean : 95 ∉ scope)
    (clean' : 95 ∉ scope') (same : recordKey scope name type = recordKey scope' name' type') :
    scope = scope' := by
  have front := congrArg (List.takeWhile (· ≠ 95)) same
  simp only [recordKey, List.append_assoc] at front
  rwa [takeWhile_append_underscore clean, takeWhile_append_underscore clean'] at front

/-- **The key determines the triple** when scopes and types contain no
underscore. -/
theorem Triple.key_injective {first second : Triple} (firstScope : 95 ∉ first.scope)
    (secondScope : 95 ∉ second.scope) (firstType : 95 ∉ first.type)
    (secondType : 95 ∉ second.type) (same : first.key = second.key) : first = second := by
  have scope : first.scope = second.scope := recordKey_scope firstScope secondScope same
  have type : first.type = second.type := by
    have underscore : (cstr "_").reverse = cstr "_" := rfl
    have back := congrArg (fun key => (List.reverse key).takeWhile (· ≠ 95)) same
    simp only [Triple.key, recordKey, List.reverse_append, underscore, List.append_assoc] at back
    rw [takeWhile_append_underscore (by simpa using firstType),
      takeWhile_append_underscore (by simpa using secondType)] at back
    exact List.reverse_injective back
  refine Triple.eq_of_key_eq same ?_ type
  simp only [Triple.key, recordKey, scope, type, List.append_assoc] at same
  exact List.append_cancel_right (List.append_cancel_left (List.append_cancel_left same))

/-- The finite map the store stands for. -/
abbrev TripleMap := Triple → Option (List CString)

/-- The two calls that change single entries. -/
inductive Call where
  | add (triple : Triple) (value : CString)
  | delete (triple : Triple)

def Call.triple : Call → Triple
  | .add triple _ => triple
  | .delete triple => triple

/-- The value an `ADD` stands for: the value itself, or the priority and the
exchange of an `MX`. -/
def addedForm (type value : CString) : Option CString :=
  if type = cstr "MX" then
    (scanPriority value).map fun (priority, mx_value) => decimal priority ++ cstr " " ++ mx_value
  else some value

/-- What a call does to the map, with its return value. -/
def Call.onMap (map : TripleMap) : Call → Int × TripleMap
  | .add triple value =>
    match addedForm triple.type value with
    | none => (-1, map)
    | some form => (0, Function.update map triple (some [form]))
  | .delete triple =>
    if map triple = none then (-1, map) else (0, Function.update map triple none)

/-- What a call does to the store, with its return value, when no allocation
fails. -/
def Call.onStore (store : Store) : Call → Int × Store
  | .add triple value =>
    (addSingleRecord store triple.domain triple.type triple.scope value).result
  | .delete triple => (deleteRecord store triple.domain triple.type triple.scope).result

/-- The entry of a triple: the values of the record under its key that has its
domain and its type. -/
def entry (store : Store) : TripleMap := fun triple =>
  (store.find triple.key).bind fun record =>
    if record.domain = triple.domain ∧ record.type = triple.type then some record.values else none

/-- The call does to the entries of the store what it does to the map. -/
def Refines (store : Store) (call : Call) : Prop :=
  ((call.onStore store).1, entry (call.onStore store).2) = call.onMap (entry store)

/-! ## Keys -/

/-- Every record sits under the key of a triple with its domain and type. -/
def Keyed (store : Store) : Prop :=
  ∀ record ∈ store, ∃ scope, record.key = recordKey scope record.domain record.type

theorem addedRecord_key {domain type scope value : CString} {record : DNSRecord}
    (added : addedRecord domain type scope value = some record) :
    record.domain = domain ∧ record.type = type ∧ record.key = recordKey scope domain type := by
  obtain ⟨text, _, rfl⟩ := Option.map_eq_some_iff.mp added
  exact ⟨rfl, rfl, rfl⟩

theorem keyed_onStore {store : Store} (keyed : Keyed store) (call : Call) :
    Keyed (call.onStore store).2 := by
  cases call with
  | add triple value =>
      simp only [Call.onStore, addSingleRecord_result]
      cases added : addedRecord triple.domain triple.type triple.scope value with
      | none => exact keyed
      | some record =>
          obtain ⟨domain, type, key⟩ := addedRecord_key added
          intro other member
          rcases KeyedTable.mem_replace_iff.mp member with ⟨old, _⟩ | rfl
          · exact keyed other old
          · exact ⟨triple.scope, by rw [key, domain, type]⟩
  | delete triple =>
      simp only [Call.onStore, deleteRecord_result]
      split
      · exact keyed
      · exact fun other member => keyed other (KeyedTable.mem_del_iff.mp member).1

/-! ## Refinement -/

/-- The record under the key of a triple, if there is one, has its domain and
its type. -/
def OwnRecord (store : Store) (triple : Triple) : Prop :=
  ∀ record, store.find triple.key = some record →
    record.domain = triple.domain ∧ record.type = triple.type

/-- The condition for a call: it finds no record of another triple under its
key, and the text of an added `MX` fits the buffer of 256 bytes. -/
def MeetsRefinement (store : Store) : Call → Prop
  | .add triple value => ∀ form, addedForm triple.type value = some form →
      OwnRecord store triple ∧ (triple.type = cstr "MX" → form.length ≤ 255)
  | .delete triple => OwnRecord store triple

/-- Where the record under a key belongs to one triple, every other triple with
that key has no entry. -/
theorem OwnRecord.entry_other {store : Store} {triple other : Triple}
    (own : OwnRecord store triple) (sameKey : other.key = triple.key) (different : other ≠ triple) :
    entry store other = none := by
  cases found : store.find triple.key with
  | none => simp [entry, sameKey, found]
  | some record =>
      obtain ⟨domain, type⟩ := own record found
      have notOwner : ¬ (record.domain = other.domain ∧ record.type = other.type) := by
        rintro ⟨domain', type'⟩
        exact different (Triple.eq_of_key_eq sameKey (domain'.symm.trans domain)
          (type'.symm.trans type))
      simp [entry, sameKey, found, notOwner]

/-- A change of the store under one key only shows at the triples with that
key. -/
theorem entry_congr {first second : Store} {triple : Triple}
    (same : first.find triple.key = second.find triple.key) :
    entry first triple = entry second triple := by
  simp [entry, same]

/-- **Updating one key updates one entry** exactly when the record that was
there belongs to the same triple. -/
theorem entry_update_iff {before after : Store} {triple : Triple} {values : Option (List CString)}
    (keyed : Keyed before) (here : entry after triple = values) (taken : OwnRecord after triple)
    (elsewhere : ∀ key, key ≠ triple.key → after.find key = before.find key) :
    entry after = Function.update (entry before) triple values ↔ OwnRecord before triple := by
  constructor
  · intro updated record found
    by_contra other
    -- the entry of the triple the old record belongs to is lost
    obtain ⟨scope, key⟩ := keyed record (KeyedTable.find_eq_some_iff.mp found).1
    let lost : Triple := { scope, domain := record.domain, type := record.type }
    have sameKey : lost.key = triple.key := by
      rw [← (KeyedTable.find_eq_some_iff.mp found).2, key]
      rfl
    have different : lost ≠ triple := by
      rintro same
      exact other ⟨congrArg Triple.domain same, congrArg Triple.type same⟩
    have had : entry before lost = some record.values := by simp [entry, sameKey, found, lost]
    have atLost := congrFun updated lost
    rw [Function.update_of_ne different, taken.entry_other sameKey different, had] at atLost
    cases atLost
  · intro own
    funext other
    by_cases same : other = triple
    · subst same
      rw [here, Function.update_self]
    · rw [Function.update_of_ne same]
      by_cases sameKey : other.key = triple.key
      · rw [taken.entry_other sameKey same, own.entry_other sameKey same]
      · exact entry_congr (elsewhere _ sameKey)

theorem addedForm_eq_none {type value : CString} :
    addedForm type value = none ↔ addedText type value = none := by
  unfold addedForm addedText
  split <;> simp

/-- What `ADD` stores is the whole form of its value, unless that is too long
for the buffer. -/
theorem addedText_eq_form_iff {type value form text : CString}
    (formed : addedForm type value = some form) (texted : addedText type value = some text) :
    text = form ↔ (type = cstr "MX" → form.length ≤ 255) := by
  unfold addedForm at formed
  unfold addedText at texted
  split at formed
  · next isMX =>
    rw [if_pos isMX] at texted
    obtain ⟨scanned, found, rfl⟩ := Option.map_eq_some_iff.mp formed
    rw [found] at texted
    cases texted
    simp only [snprintf, List.take_eq_self_iff, isMX, true_imp_iff, Nat.reduceSub]
  · next notMX =>
    rw [if_neg notMX] at texted
    cases formed
    cases texted
    simp [notMX]

/-- Adding a record updates its entry exactly when it replaces no record of
another triple. -/
theorem entry_replace_iff {store : Store} (keyed : Keyed store) (triple : Triple)
    (values : List CString) :
    entry (store.replace { domain := triple.domain, type := triple.type, key := triple.key, values })
        = Function.update (entry store) triple (some values) ↔ OwnRecord store triple := by
  have found := KeyedTable.find_replace_self store
    { domain := triple.domain, type := triple.type, key := triple.key, values }
  refine entry_update_iff keyed ?_ ?_ ?_
  · simp only at found
    simp [entry, found]
  · intro record there
    rw [found] at there
    cases there
    exact ⟨rfl, rfl⟩
  · exact fun key different => KeyedTable.find_replace_of_ne store _ different

/-- Deleting a record forgets its entry exactly when it belongs to the triple. -/
theorem entry_del_iff {store : Store} (keyed : Keyed store) (triple : Triple) :
    entry (store.del triple.key) = Function.update (entry store) triple none ↔
      OwnRecord store triple := by
  have found := KeyedTable.find_del_self store triple.key
  refine entry_update_iff keyed ?_ ?_ ?_
  · simp [entry, found]
  · intro record there
    rw [found] at there
    cases there
  · exact fun key different => KeyedTable.find_del_of_ne store different

theorem refines_add_iff {store : Store} (keyed : Keyed store) (triple : Triple)
    (value : CString) :
    Refines store (.add triple value) ↔ MeetsRefinement store (.add triple value) := by
  simp only [Refines, Call.onStore, Call.onMap, addSingleRecord_result, MeetsRefinement]
  cases formed : addedForm triple.type value with
  | none =>
      have unadded : addedRecord triple.domain triple.type triple.scope value = none := by
        rw [addedRecord, addedForm_eq_none.mp formed]
        rfl
      simp [unadded]
  | some form =>
      obtain ⟨text, texted⟩ : ∃ text, addedText triple.type value = some text := by
        rw [← Option.isSome_iff_exists, Option.isSome_iff_ne_none, ne_eq, ← addedForm_eq_none,
          formed]
        exact Option.some_ne_none form
      have added : addedRecord triple.domain triple.type triple.scope value = some
          { domain := triple.domain, type := triple.type, key := triple.key,
            values := [text] } := by
        rw [addedRecord, texted]
        rfl
      simp only [added, Prod.mk.injEq, true_and, Option.some.injEq, forall_eq']
      rw [← entry_replace_iff keyed triple [text], ← addedText_eq_form_iff formed texted]
      constructor
      · intro updated
        have same := congrFun updated triple
        have found := KeyedTable.find_replace_self store
          { domain := triple.domain, type := triple.type, key := triple.key, values := [text] }
        simp only at found
        simp only [entry, found, Option.bind_some, and_self, if_true, Function.update_self,
          Option.some.injEq, List.cons.injEq, and_true] at same
        subst same
        exact ⟨updated, rfl⟩
      · rintro ⟨updated, rfl⟩
        exact updated

theorem refines_delete_iff {store : Store} (keyed : Keyed store) (triple : Triple) :
    Refines store (.delete triple) ↔ MeetsRefinement store (.delete triple) := by
  simp only [Refines, Call.onStore, Call.onMap, deleteRecord_result, MeetsRefinement,
    ← Triple.key.eq_1]
  cases found : store.find triple.key with
  | none =>
      have absent : entry store triple = none := by simp [entry, found]
      simp [absent, OwnRecord, found]
  | some record =>
      rw [if_neg (Option.some_ne_none record)]
      by_cases absent : entry store triple = none
      · rw [if_pos absent]
        constructor
        · intro refines
          have codes : (0 : Int) = -1 := congrArg Prod.fst refines
          exact absurd codes (by decide)
        · intro own
          simp [entry, found, own record found] at absent
      · rw [if_neg absent, Prod.mk.injEq, entry_del_iff keyed triple]
        simp

/-- **A call refines its counterpart on the map** exactly under its
condition. -/
theorem refines_iff {store : Store} (keyed : Keyed store) (call : Call) :
    Refines store call ↔ MeetsRefinement store call := by
  cases call with
  | add triple value => exact refines_add_iff keyed triple value
  | delete triple => exact refines_delete_iff keyed triple

/-! ## Histories of calls -/

/-- The store after a call. -/
def Store.afterCall (store : Store) (call : Call) : Store := (call.onStore store).2

theorem keyed_empty : Keyed KeyedTable.empty := fun record member =>
  absurd member (KeyedTable.not_mem_empty record)

/-- **Along every history of calls the store refines the map** exactly when each
call meets its condition in the store it finds. -/
theorem refines_along_iff (calls : List Call) :
    Along Store.afterCall Refines KeyedTable.empty calls ↔
      Along Store.afterCall MeetsRefinement KeyedTable.empty calls := by
  have kept : ∀ store call, Keyed store → Keyed (Store.afterCall store call) :=
    fun _ call keyed => keyed_onStore keyed call
  exact along_congr kept (fun _ call keyed => refines_iff keyed call) calls keyed_empty

/-- A type with an underscore makes two triples share a key, and the second
`ADD` takes the record of the first away. -/
theorem not_refines_of_shared_key :
    ¬ ∀ calls : List Call, Along Store.afterCall Refines KeyedTable.empty calls := by
  intro all
  obtain ⟨_, second, _⟩ := all
    [.add { scope := cstr "base", domain := cstr "a_b", type := cstr "A" } (cstr "192.0.2.1"),
      .add { scope := cstr "base", domain := cstr "a", type := cstr "b_A" } (cstr "x")]
  have lost := congrFun (congrArg Prod.snd second)
    { scope := cstr "base", domain := cstr "a_b", type := cstr "A" }
  exact absurd lost (by decide +kernel)

end DnsServer
