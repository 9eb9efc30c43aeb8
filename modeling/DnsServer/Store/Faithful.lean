import DnsServer.Store.Triples
import Mathlib.Data.List.Pairwise

/-!
# When a mappings file is loaded as it is written

The loader goes through the keys of an object and looks the value of each key up
again, without regard to letter case, and it composes the names of wildcards and
subdomains in a buffer of 512 bytes. A `Slot` is one key of a type with both
readings: the name and the value as they are written, and the name and the value
as the loader takes them.

Names that differ may coincide once they are cut, and the last list that is found
under such a name stays in the store. So the store holds exactly what is written if
and only if this list is the one that is written (`loadedFaithfully_iff`). Where no
names coincide, both readings have to agree at every slot (`agrees_iff_sound`).
-/

set_option autoImplicit false

namespace DnsServer

open Libc

/-! ## What is written -/

/-- The text of a value as it is written. -/
def writtenText (type : CString) (item : CJSON) : Option CString :=
  match item with
  | .string text => some text
  | .object _ =>
    if sameIgnoringCase type (cstr "MX") then
      match item.getObjectItem (cstr "priority"), item.getObjectItem (cstr "value") with
      | some (.number priority), some (.string value) => some (decimal priority ++ cstr " " ++ value)
      | _, _ => none
    else none
  | _ => none

/-- The texts of a valid list: an array of at least one value. -/
def writtenTexts (type : CString) : CJSON → Option (List CString)
  | .array items => if items = [] then none else items.mapM (writtenText type)
  | _ => none

/-- A key of a type in a `records` object, as it is written and as the loader
takes it: the name and its composition in the buffer, the value of the key and
the value found under it. There is no name for a subdomain that has no key. -/
structure Slot where
  scope : CString
  name : Option CString
  built : CString
  type : CString
  written : CJSON
  found : CJSON

namespace Slot

/-- The insertion the loader makes. -/
def entry (slot : Slot) : Entry :=
  { domain := slot.built, type := slot.type, values := slot.found, scope := slot.scope }

/-- The texts that are written, when they are a valid list of some name. -/
def texts (slot : Slot) : Option (List CString) :=
  slot.name.bind fun _ => writtenTexts slot.type slot.written

/-- The record that is written. -/
def record (slot : Slot) : Option DNSRecord := do
  let name ← slot.name
  let values ← writtenTexts slot.type slot.written
  return { domain := name, type := slot.type, key := recordKey slot.scope name slot.type, values }

/-- The texts the loader takes, when it finds a valid list. -/
def foundTexts (slot : Slot) : Option (List CString) :=
  valueTexts slot.type slot.found

/-- Both readings agree: the value found has the texts that are written, and a
name with a valid list is composed in full. -/
def Sound (slot : Slot) : Prop :=
  slot.foundTexts = slot.texts ∧ (slot.texts ≠ none → slot.name = some slot.built)

/-- The two slots do not belong to one scope, name and type. -/
def Apart (first second : Slot) : Prop :=
  ∀ name, first.name = some name → second.name = some name → first.scope = second.scope →
    first.type ≠ second.type

/-- The two slots are composed to one scope, name and type. -/
def SameBuilt (first second : Slot) : Prop :=
  first.scope = second.scope ∧ first.built = second.built ∧ first.type = second.type

instance (first second : Slot) : Decidable (first.SameBuilt second) :=
  inferInstanceAs (Decidable (_ ∧ _))

/-- The last valid list under the scope, name and type that a slot is composed to,
in one of the two readings. Several slots share them only when their names
coincide once they are cut. -/
def lastTexts (read : Slot → Option (List CString)) (slots : List Slot) (slot : Slot) :
    Option (List CString) :=
  slots.reverse.findSome? fun other => if other.SameBuilt slot then read other else none

/-- Both readings have the same last list under the composed name, and a name with
a valid list is composed in full. -/
def Agrees (slots : List Slot) (slot : Slot) : Prop :=
  lastTexts foundTexts slots slot = lastTexts texts slots slot ∧
    (slot.texts ≠ none → slot.name = some slot.built)

end Slot

/-- The slots of one `records` object. -/
def typeSlots (records : CJSON) (scope : CString) (name : Option CString) (built : CString) :
    List Slot :=
  records.children.filterMap fun (key, written) => do
    let type ← key
    let found ← records.getObjectItem type
    return { scope, name, built, type, written, found }

def baseSlots (domainName : CString) (domain : CJSON) : List Slot :=
  match domain.getObjectItem (cstr "records") with
  | none => []
  | some records => typeSlots records (cstr "base") (some domainName) domainName

def wildcardSlots (domainName : CString) (domain : CJSON) : List Slot :=
  match domain.getObjectItem (cstr "wildcards") with
  | none => []
  | some wildcards =>
    match wildcards.getObjectItem (cstr "records") with
    | none => []
    | some wildcard_records =>
      typeSlots wildcard_records (cstr "wildcard") (some (cstr "*." ++ domainName))
        (snprintf 512 (cstr "*." ++ domainName))

def subdomainSlots (domainName : CString) (domain : CJSON) : List Slot :=
  match domain.getObjectItem (cstr "subdomains") with
  | none => []
  | some subdomains =>
    subdomains.children.flatMap fun (subdomainName, subdomain) =>
      match subdomain.getObjectItem (cstr "records") with
      | none => []
      | some subdomain_records =>
        typeSlots subdomain_records (cstr "subdomain")
          (subdomainName.map fun name => name ++ cstr "." ++ domainName)
          (snprintf 512 (subdomainName.getD (cstr "(null)") ++ cstr "." ++ domainName))

/-- All slots of a file. -/
def fileSlots (parse : CString → Option CJSON) (file : MappingsFile) : List Slot :=
  ((fileDomains parse file).getD []).flatMap fun (domainName, domain) =>
    baseSlots domainName domain ++ wildcardSlots domainName domain ++
      subdomainSlots domainName domain

/-- The store holds exactly the records that are written. -/
def LoadedFaithfully (store : Store) (slots : List Slot) : Prop :=
  ∀ record, record ∈ store ↔ ∃ slot ∈ slots, slot.record = some record

/-! ## The insertions of the slots -/

theorem typeEntries_slots (records : CJSON) (scope : CString) (name : Option CString)
    (built : CString) :
    typeEntries records built scope = (typeSlots records scope name built).map Slot.entry := by
  rw [typeEntries, typeSlots, List.map_filterMap]
  congr 1
  funext child
  obtain ⟨key, written⟩ := child
  cases key with
  | none => rfl
  | some type =>
      simp only [typeEntry, Option.bind_eq_bind, Option.bind_some]
      cases records.getObjectItem type <;> rfl

theorem baseEntries_slots (domainName : CString) (domain : CJSON) :
    baseEntries domainName domain = (baseSlots domainName domain).map Slot.entry := by
  unfold baseEntries baseSlots
  cases domain.getObjectItem (cstr "records") with
  | none => rfl
  | some records => exact typeEntries_slots records _ _ _

theorem wildcardEntries_slots (domainName : CString) (domain : CJSON) :
    wildcardEntries domainName domain = (wildcardSlots domainName domain).map Slot.entry := by
  unfold wildcardEntries wildcardSlots
  cases domain.getObjectItem (cstr "wildcards") with
  | none => rfl
  | some wildcards =>
      simp only
      cases wildcards.getObjectItem (cstr "records") with
      | none => rfl
      | some wildcard_records => exact typeEntries_slots wildcard_records _ _ _

theorem subdomainEntries_slots (domainName : CString) (domain : CJSON) :
    subdomainEntries domainName domain = (subdomainSlots domainName domain).map Slot.entry := by
  unfold subdomainEntries subdomainSlots
  cases domain.getObjectItem (cstr "subdomains") with
  | none => rfl
  | some subdomains =>
      simp only [List.map_flatMap]
      congr 1
      funext child
      obtain ⟨subdomainName, subdomain⟩ := child
      simp only
      cases subdomain.getObjectItem (cstr "records") with
      | none => rfl
      | some subdomain_records => exact typeEntries_slots subdomain_records _ _ _

/-- **A file without conflicts asks for the insertions of its slots.** -/
theorem mappingEntries_slots {parse : CString → Option CJSON} {file : MappingsFile}
    (loadable : Loadable parse file) :
    mappingEntries parse file = (fileSlots parse file).map Slot.entry := by
  obtain ⟨domains, read, compatible⟩ := loadable
  rw [mappingEntries, fileSlots, read, Option.getD_some]
  clear read
  induction domains with
  | nil => rfl
  | cons member domains ih =>
      obtain ⟨domainName, domain⟩ := member
      obtain ⟨here, later⟩ := List.forall_mem_cons.mp compatible
      simp only at here
      simp only [domainsEntries, here, List.flatMap_cons, List.map_append, baseEntries_slots,
        wildcardEntries_slots, subdomainEntries_slots, ih later, List.append_assoc]
      rfl

/-! ## The names of the slots -/

/-- How the name of a slot is composed: a base name is taken as it is, all others
go through the buffer. -/
structure Slot.Composed (slot : Slot) : Prop where
  scope : 95 ∉ slot.scope
  built : (slot.scope = cstr "base" ∧ slot.name = some slot.built) ∨
    (slot.scope ≠ cstr "base" ∧ slot.built.length ≤ 511 ∧
      ∀ name, slot.name = some name → slot.built = snprintf 512 name)

theorem mem_typeSlots {records : CJSON} {scope built : CString} {name : Option CString}
    {slot : Slot} (member : slot ∈ typeSlots records scope name built) :
    slot.scope = scope ∧ slot.name = name ∧ slot.built = built := by
  obtain ⟨⟨key, written⟩, _, made⟩ := List.mem_filterMap.mp member
  cases key with
  | none => cases made
  | some type =>
      simp only [Option.bind_eq_bind, Option.bind_some, Option.bind_eq_some_iff] at made
      obtain ⟨found, _, same⟩ := made
      cases same
      exact ⟨rfl, rfl, rfl⟩

theorem length_snprintf_le (size : Nat) (text : CString) : (snprintf size text).length ≤ size - 1 :=
  List.length_take_le _ _

/-- Every slot of a file is composed in this way. -/
theorem composed_of_mem {parse : CString → Option CJSON} {file : MappingsFile} {slot : Slot}
    (member : slot ∈ fileSlots parse file) : slot.Composed := by
  obtain ⟨⟨domainName, domain⟩, _, inDomain⟩ := List.mem_flatMap.mp member
  simp only [List.mem_append] at inDomain
  rcases inDomain with (base | wildcard) | subdomain
  · unfold baseSlots at base
    split at base
    · cases base
    · obtain ⟨scope, name, built⟩ := mem_typeSlots base
      exact ⟨by rw [scope]; decide, .inl ⟨scope, by rw [name, built]⟩⟩
  · unfold wildcardSlots at wildcard
    split at wildcard
    · cases wildcard
    · split at wildcard
      · cases wildcard
      · obtain ⟨scope, name, built⟩ := mem_typeSlots wildcard
        refine ⟨by rw [scope]; decide, .inr ⟨by rw [scope]; decide, ?_, fun other named => ?_⟩⟩
        · rw [built]
          exact length_snprintf_le 512 _
        · cases name.symm.trans named
          exact built
  · unfold subdomainSlots at subdomain
    split at subdomain
    · cases subdomain
    · obtain ⟨⟨subdomainName, subdomain_⟩, _, inSubdomain⟩ := List.mem_flatMap.mp subdomain
      simp only at inSubdomain
      split at inSubdomain
      · cases inSubdomain
      · obtain ⟨scope, name, built⟩ := mem_typeSlots inSubdomain
        refine ⟨by rw [scope]; decide, .inr ⟨by rw [scope]; decide, ?_, fun other named => ?_⟩⟩
        · rw [built]
          exact length_snprintf_le 512 _
        · rw [name, Option.map_eq_some_iff] at named
          obtain ⟨key, keyed, rfl⟩ := named
          rw [built, keyed]
          rfl

/-- A name that some slot has as its composition is composed in full. -/
theorem Slot.Composed.built_eq {slot other : Slot} (composed : slot.Composed)
    (otherComposed : other.Composed) (scope : slot.scope = other.scope)
    (name : slot.name = some other.built) : slot.built = other.built := by
  rcases composed.built with ⟨_, named⟩ | ⟨notBase, _, cut⟩
  · exact Option.some.inj (named.symm.trans name)
  · rcases otherComposed.built with ⟨isBase, _⟩ | ⟨_, short, _⟩
    · exact absurd (scope.trans isBase) notBase
    · rw [cut _ name, snprintf_of_length_lt (by omega)]

/-! ## Records that are written, and records that are loaded -/

namespace Slot

variable {slot other : Slot} {record : DNSRecord}

theorem record_eq_some_iff : slot.record = some record ↔
    ∃ name values, slot.name = some name ∧ slot.texts = some values ∧ record =
      { domain := name, type := slot.type, key := recordKey slot.scope name slot.type, values } := by
  unfold Slot.record Slot.texts
  cases slot.name with
  | none => simp
  | some name =>
      simp only [Option.bind_eq_bind, Option.bind_some, Option.some.injEq, exists_and_left,
        exists_eq_left']
      cases writtenTexts slot.type slot.written with
      | none => simp
      | some values => simp [eq_comm]

/-- The record the loader makes of some texts. -/
def loads (slot : Slot) (values : List CString) : DNSRecord :=
  { domain := slot.built, type := slot.type,
    key := recordKey slot.scope slot.built slot.type, values }

theorem entry_record (slot : Slot) : slot.entry.record = slot.foundTexts.map slot.loads := rfl

theorem SameBuilt.loads_eq (same : other.SameBuilt slot) (values : List CString) :
    other.loads values = slot.loads values := by
  obtain ⟨scope, built, type⟩ := same
  simp only [loads, scope, built, type]

/-- A record under the composed name of a slot is what the loader makes of it. -/
theorem record_of_name (name : slot.name = some slot.built) :
    slot.record = slot.texts.map slot.loads := by
  simp only [Slot.record, texts, name, Option.bind_eq_bind, Option.bind_some]
  cases writtenTexts slot.type slot.written <;> rfl

end Slot

/-! ## Where both readings agree -/

/-- A value is read as it is written, unless it is an object under another spelling
of `MX` or its text does not fit the buffer. -/
theorem valueText_eq_writtenText_iff {type : CString} {item : CJSON} :
    valueText type item = writtenText type item ↔
      (item.isObject → ∀ text, writtenText type item = some text →
        type = cstr "MX" ∧ text.length ≤ 255) := by
  cases item with
  | null => simp [valueText, writtenText, CJSON.isObject]
  | bool value => simp [valueText, writtenText, CJSON.isObject]
  | number value => simp [valueText, writtenText, CJSON.isObject]
  | string text => simp [valueText, writtenText, CJSON.isObject]
  | array items => simp [valueText, writtenText, CJSON.isObject]
  | object members =>
      simp only [CJSON.isObject, forall_const]
      by_cases isMX : type = cstr "MX"
      · subst isMX
        have cut : valueText (cstr "MX") (.object members) =
            (writtenText (cstr "MX") (.object members)).map (snprintf 256) := by
          have spelled : sameIgnoringCase (cstr "MX") (cstr "MX") = true := by decide
          simp only [valueText, writtenText, CJSON.isObject, and_self, if_true, spelled]
          generalize (CJSON.object members).getObjectItem (cstr "priority") = priority
          generalize (CJSON.object members).getObjectItem (cstr "value") = value
          rcases priority with _ | (_ | _ | number | _ | _ | _) <;>
            rcases value with _ | (_ | _ | _ | text | _ | _) <;> rfl
        rw [cut]
        cases writtenText (cstr "MX") (.object members) with
        | none => simp
        | some text => simp [snprintf, List.take_eq_self_iff]
      · have unread : valueText type (.object members) = none := by simp [valueText, isMX]
        rw [unread, eq_comm, Option.eq_none_iff_forall_not_mem]
        simp [isMX]

theorem mapM_congr {α β : Type} {first second : α → Option β} {items : List α}
    (each : ∀ item ∈ items, first item = second item) : items.mapM first = items.mapM second := by
  induction items with
  | nil => rfl
  | cons item items ih =>
      obtain ⟨here, later⟩ := List.forall_mem_cons.mp each
      rw [List.mapM_cons, List.mapM_cons, here, ih later]

theorem valueTexts_eq_writtenTexts {type : CString} {items : List CJSON}
    (each : ∀ item ∈ items, valueText type item = writtenText type item) :
    valueTexts type (.array items) = writtenTexts type (.array items) := by
  have kept : ((items.map fun item => ((none : Option CString), item)).map Prod.snd) = items := by
    simp [Function.comp_def]
  simp only [valueTexts, writtenTexts, CJSON.children, kept, List.map_eq_nil_iff]
  rw [mapM_congr each]

/-- **An array that is found under its own key** is read as it is written where its name
is composed in full and its objects are under `MX` and fit the buffer. -/
theorem Slot.sound_of_own {slot : Slot} {items : List CJSON} (array : slot.written = .array items)
    (own : slot.found = slot.written)
    (plain : ∀ item ∈ items, item.isObject → ∀ text, writtenText slot.type item = some text →
      slot.type = cstr "MX" ∧ text.length ≤ 255)
    (named : slot.name = some slot.built) : slot.Sound := by
  refine ⟨?_, fun _ => named⟩
  rw [Slot.foundTexts, Slot.texts, named, Option.bind_some, own, array]
  exact valueTexts_eq_writtenTexts fun item member =>
    valueText_eq_writtenText_iff.mpr (plain item member)

/-! ## The last list under a composed name -/

section Last

variable {read : Slot → Option (List CString)} {slots : List Slot} {slot other : Slot}
  {values : List CString}

theorem exists_of_lastTexts (last : Slot.lastTexts read slots slot = some values) :
    ∃ other ∈ slots, other.SameBuilt slot ∧ read other = some values := by
  obtain ⟨other, member, taken⟩ := List.exists_of_findSome?_eq_some last
  rw [Option.ite_none_right_eq_some] at taken
  exact ⟨other, List.mem_reverse.mp member, taken⟩

theorem lastTexts_eq_none_iff : Slot.lastTexts read slots slot = none ↔
    ∀ other ∈ slots, other.SameBuilt slot → read other = none := by
  simp [Slot.lastTexts]

/-- A slot whose list is the only one under its composed name has the last one. -/
theorem lastTexts_of_only (member : other ∈ slots) (same : other.SameBuilt slot)
    (here : read other = some values)
    (only : ∀ more ∈ slots, more.SameBuilt slot → ∀ texts, read more = some texts → more = other) :
    Slot.lastTexts read slots slot = some values := by
  cases last : Slot.lastTexts read slots slot with
  | none => exact absurd (lastTexts_eq_none_iff.mp last other member same) (by simp [here])
  | some texts =>
      obtain ⟨more, moreMem, moreSame, moreHere⟩ := exists_of_lastTexts last
      cases only more moreMem moreSame texts moreHere
      exact moreHere.symm.trans here

theorem Slot.SameBuilt.lastTexts_eq (same : slot.SameBuilt other) :
    Slot.lastTexts read slots slot = Slot.lastTexts read slots other := by
  obtain ⟨scope, built, type⟩ := same
  have alike : ∀ more : Slot, more.SameBuilt slot ↔ more.SameBuilt other := by
    simp [Slot.SameBuilt, scope, built, type]
  simp only [Slot.lastTexts, alike]

/-- Where no composed names coincide, the list of a slot is the last one. -/
theorem lastTexts_of_apart (apart : slots.Pairwise fun first second => ¬ first.SameBuilt second)
    (member : slot ∈ slots) : Slot.lastTexts read slots slot = read slot := by
  have symmetric : Std.Symm fun first second : Slot => ¬ first.SameBuilt second :=
    ⟨fun _ _ apart ⟨scope, built, type⟩ => apart ⟨scope.symm, built.symm, type.symm⟩⟩
  have only : ∀ more ∈ slots, more.SameBuilt slot → more = slot := by
    intro more moreMem same
    by_contra different
    exact apart.forall moreMem member different same
  cases here : read slot with
  | some values =>
      exact lastTexts_of_only member ⟨rfl, rfl, rfl⟩ here
        fun more moreMem same _ _ => only more moreMem same
  | none =>
      rw [lastTexts_eq_none_iff]
      intro more moreMem same
      rw [only more moreMem same, here]

/-- Slots that agree one by one agree under their composed names. -/
theorem agrees_of_sound (sound : ∀ slot ∈ slots, slot.Sound) (member : slot ∈ slots) :
    slot.Agrees slots := by
  have same : ∀ other ∈ slots.reverse, other.foundTexts = other.texts :=
    fun other otherMem => (sound other (List.mem_reverse.mp otherMem)).1
  refine ⟨?_, (sound slot member).2⟩
  rw [Slot.lastTexts, Slot.lastTexts]
  generalize slots.reverse = latest at same
  induction latest with
  | nil => rfl
  | cons other latest ih =>
      obtain ⟨here, later⟩ := List.forall_mem_cons.mp same
      rw [List.findSome?_cons, List.findSome?_cons, here, ih later]

/-- Where no composed names coincide, slots agree one by one. -/
theorem agrees_iff_sound (apart : slots.Pairwise fun first second => ¬ first.SameBuilt second) :
    (∀ slot ∈ slots, slot.Agrees slots) ↔ ∀ slot ∈ slots, slot.Sound := by
  refine ⟨fun agrees slot member => ?_, fun sound _ => agrees_of_sound sound⟩
  obtain ⟨last, full⟩ := agrees slot member
  rw [lastTexts_of_apart apart member, lastTexts_of_apart apart member] at last
  exact ⟨last, full⟩

end Last

/-! ## The store of a file -/

section Loaded

variable {slots : List Slot}

/-- The store a list of slots is loaded into. -/
def slotStore (slots : List Slot) : Store :=
  KeyedTable.empty.replaceAll ((slots.map Slot.entry).filterMap Entry.record)

/-- Slots have one key only when they are composed alike. -/
theorem recordKey_eq_iff (composed : ∀ slot ∈ slots, slot.Composed)
    (typed : ∀ slot ∈ slots, 95 ∉ slot.type) {first second : Slot} (firstMem : first ∈ slots)
    (secondMem : second ∈ slots) :
    recordKey first.scope first.built first.type = recordKey second.scope second.built second.type ↔
      first.SameBuilt second := by
  constructor
  · intro keys
    have triples := @Triple.key_injective ⟨first.scope, first.built, first.type⟩
      ⟨second.scope, second.built, second.type⟩ (composed first firstMem).scope
      (composed second secondMem).scope (typed first firstMem) (typed second secondMem) keys
    simp only [Triple.mk.injEq] at triples
    exact triples
  · rintro ⟨scope, built, type⟩
    rw [scope, built, type]

/-- **What is found under the key of a slot** is the last list that is found under
its composed name. -/
theorem find_slotStore (composed : ∀ slot ∈ slots, slot.Composed)
    (typed : ∀ slot ∈ slots, 95 ∉ slot.type) {slot : Slot} (member : slot ∈ slots) :
    (slotStore slots).find (recordKey slot.scope slot.built slot.type) =
      (Slot.lastTexts Slot.foundTexts slots slot).map slot.loads := by
  have keys : ∀ other ∈ slots.reverse,
      recordKey other.scope other.built other.type =
        recordKey slot.scope slot.built slot.type ↔ other.SameBuilt slot :=
    fun other otherMem => recordKey_eq_iff composed typed (List.mem_reverse.mp otherMem) member
  rw [slotStore, KeyedTable.find_replaceAll, KeyedTable.find_empty, Option.or_none,
    KeyedTable.lastUnder, ← List.filterMap_reverse, ← List.map_reverse, Slot.lastTexts]
  generalize slots.reverse = latest at keys
  induction latest with
  | nil => rfl
  | cons other latest ih =>
      obtain ⟨here, later⟩ := List.forall_mem_cons.mp keys
      rw [List.map_cons, List.filterMap_cons, Slot.entry_record, List.findSome?_cons]
      cases found : other.foundTexts with
      | none => simpa using ih later
      | some values =>
          by_cases same : other.SameBuilt slot
          · have key : (slot.loads values).key = recordKey slot.scope slot.built slot.type := rfl
            simp [key, same, same.loads_eq]
          · have key : (other.loads values).key ≠ recordKey slot.scope slot.built slot.type :=
              mt here.mp same
            simpa [key, same] using ih later

/-- **What is loaded** are the last lists that are found under the composed names. -/
theorem mem_slotStore_iff (composed : ∀ slot ∈ slots, slot.Composed)
    (typed : ∀ slot ∈ slots, 95 ∉ slot.type) {record : DNSRecord} :
    record ∈ slotStore slots ↔ ∃ slot ∈ slots, ∃ values,
      Slot.lastTexts Slot.foundTexts slots slot = some values ∧ record = slot.loads values := by
  constructor
  · intro loaded
    have inserted := (KeyedTable.mem_of_mem_replaceAll loaded).resolve_left
      (KeyedTable.not_mem_empty record)
    rw [List.filterMap_map, List.mem_filterMap] at inserted
    obtain ⟨slot, member, made⟩ := inserted
    obtain ⟨texts, _, rfl⟩ := Option.map_eq_some_iff.mp made
    have found : (slotStore slots).find (recordKey slot.scope slot.built slot.type) =
        some (slot.loads texts) := KeyedTable.find_eq_some_iff.mpr ⟨loaded, rfl⟩
    rw [find_slotStore composed typed member, Option.map_eq_some_iff] at found
    obtain ⟨values, last, same⟩ := found
    exact ⟨slot, member, values, last, same.symm⟩
  · rintro ⟨slot, member, values, last, rfl⟩
    have found := find_slotStore composed typed member
    rw [last, Option.map_some] at found
    exact (KeyedTable.find_eq_some_iff.mp found).1

/-- Slots that are written under one composed name in full are one slot. -/
theorem eq_of_written (apart : slots.Pairwise Slot.Apart) {first second : Slot}
    (firstMem : first ∈ slots) (secondMem : second ∈ slots) (same : first.SameBuilt second)
    (firstName : first.name = some first.built) (secondName : second.name = some second.built) :
    first = second := by
  obtain ⟨scope, built, type⟩ := same
  have symmetric : Std.Symm Slot.Apart :=
    ⟨fun _ _ apart name first second scope type => apart name second first scope.symm type.symm⟩
  by_contra different
  exact apart.forall firstMem secondMem different first.built firstName (built ▸ secondName) scope
    type

/-- The last list that is written under a composed name is the only one. -/
theorem lastTexts_written (apart : slots.Pairwise Slot.Apart)
    (full : ∀ slot ∈ slots, slot.texts ≠ none → slot.name = some slot.built) {slot other : Slot}
    (member : other ∈ slots) (same : other.SameBuilt slot) {values : List CString}
    (read : other.texts = some values) : Slot.lastTexts Slot.texts slots slot = some values := by
  refine lastTexts_of_only member same read fun more moreMem moreSame texts moreRead => ?_
  exact eq_of_written apart moreMem member
    ⟨moreSame.1.trans same.1.symm, moreSame.2.1.trans same.2.1.symm,
      moreSame.2.2.trans same.2.2.symm⟩
    (full more moreMem (by simp [moreRead])) (full other member (by simp [read]))

/-- **Slots that agree load what is written.** -/
theorem loadedFaithfully_of_agrees (composed : ∀ slot ∈ slots, slot.Composed)
    (typed : ∀ slot ∈ slots, 95 ∉ slot.type) (apart : slots.Pairwise Slot.Apart)
    (agrees : ∀ slot ∈ slots, slot.Agrees slots) : LoadedFaithfully (slotStore slots) slots := by
  have full := fun slot member => (agrees slot member).2
  intro record
  rw [mem_slotStore_iff composed typed]
  constructor
  · rintro ⟨slot, member, values, last, rfl⟩
    rw [(agrees slot member).1] at last
    obtain ⟨other, otherMem, same, read⟩ := exists_of_lastTexts last
    refine ⟨other, otherMem, ?_⟩
    rw [Slot.record_of_name (full other otherMem (by simp [read])), read, Option.map_some,
      same.loads_eq]
  · rintro ⟨slot, member, written⟩
    obtain ⟨_, values, _, read, _⟩ := Slot.record_eq_some_iff.mp written
    have name := full slot member (by simp [read])
    rw [Slot.record_of_name name, read, Option.map_some, Option.some.injEq] at written
    refine ⟨slot, member, values, ?_, written.symm⟩
    rw [(agrees slot member).1]
    exact lastTexts_written apart full member ⟨rfl, rfl, rfl⟩ read

/-- A slot whose written record is one the loader makes of another slot is composed
like that slot, in full. -/
theorem sameBuilt_of_record (composed : ∀ slot ∈ slots, slot.Composed)
    (typed : ∀ slot ∈ slots, 95 ∉ slot.type) {slot other : Slot} (member : slot ∈ slots)
    (otherMem : other ∈ slots) {values : List CString}
    (written : slot.record = some (other.loads values)) :
    slot.SameBuilt other ∧ slot.name = some slot.built ∧ slot.texts = some values := by
  obtain ⟨name, texts, named, read, equal⟩ := Slot.record_eq_some_iff.mp written
  simp only [Slot.loads, DNSRecord.mk.injEq] at equal
  obtain ⟨rfl, type, keys, rfl⟩ := equal
  have scope : other.scope = slot.scope :=
    congrArg Triple.scope <| @Triple.key_injective ⟨other.scope, other.built, other.type⟩
      ⟨slot.scope, other.built, slot.type⟩ (composed other otherMem).scope
      (composed slot member).scope (typed other otherMem) (typed slot member) keys
  have built := (composed slot member).built_eq (composed other otherMem) scope.symm named
  exact ⟨⟨scope.symm, built, type.symm⟩, by rw [named, built], read⟩

/-- A list that is written is the last one that is found under its name, which is
composed in full. -/
theorem found_of_written (composed : ∀ slot ∈ slots, slot.Composed)
    (typed : ∀ slot ∈ slots, 95 ∉ slot.type)
    (faithful : LoadedFaithfully (slotStore slots) slots) {slot : Slot} (member : slot ∈ slots)
    {values : List CString} (read : slot.texts = some values) :
    slot.name = some slot.built ∧
      Slot.lastTexts Slot.foundTexts slots slot = some values := by
  obtain ⟨name, named⟩ : ∃ name, slot.name = some name := by
    rw [Slot.texts, Option.bind_eq_some_iff] at read
    exact read.imp fun _ => And.left
  have written := Slot.record_eq_some_iff.mpr ⟨name, values, named, read, rfl⟩
  obtain ⟨other, otherMem, texts, last, equal⟩ :=
    (mem_slotStore_iff composed typed).mp ((faithful _).mpr ⟨slot, member, written⟩)
  rw [equal] at written
  obtain ⟨same, full, read_⟩ := sameBuilt_of_record composed typed member otherMem written
  rw [same.lastTexts_eq, last]
  exact ⟨full, read_.symm.trans read⟩

/-- **A store that holds what is written comes from slots that agree.** -/
theorem agrees_of_loadedFaithfully (composed : ∀ slot ∈ slots, slot.Composed)
    (typed : ∀ slot ∈ slots, 95 ∉ slot.type) (apart : slots.Pairwise Slot.Apart)
    (faithful : LoadedFaithfully (slotStore slots) slots) {slot : Slot} (member : slot ∈ slots) :
    slot.Agrees slots := by
  have full : ∀ slot ∈ slots, slot.texts ≠ none → slot.name = some slot.built := by
    intro slot member read
    obtain ⟨values, read⟩ := Option.ne_none_iff_exists'.mp read
    exact (found_of_written composed typed faithful member read).1
  refine ⟨?_, full slot member⟩
  cases last : Slot.lastTexts Slot.foundTexts slots slot with
  | some values =>
      have loaded := (mem_slotStore_iff composed typed).mpr ⟨slot, member, values, last, rfl⟩
      obtain ⟨other, otherMem, written⟩ := (faithful _).mp loaded
      obtain ⟨same, _, read⟩ := sameBuilt_of_record composed typed otherMem member written
      exact (lastTexts_written apart full otherMem same read).symm
  | none =>
      rw [eq_comm, lastTexts_eq_none_iff]
      intro other otherMem same
      by_contra read
      obtain ⟨values, read⟩ := Option.ne_none_iff_exists'.mp read
      have found := (found_of_written composed typed faithful otherMem read).2
      rw [same.lastTexts_eq, last] at found
      cases found

end Loaded

/-- What a load leaves in an empty store. -/
theorem loadDNSMappings_empty {parse : CString → Option CJSON} {file : MappingsFile}
    {store : Store}
    (loaded : (loadDNSMappings parse file KeyedTable.empty).result = (0, store)) :
    store = slotStore (fileSlots parse file) := by
  rw [loadDNSMappings_eq, Alloc.result, Alloc.under_map] at loaded
  obtain ⟨status, built⟩ := Prod.mk.inj loaded
  have loadable : Loadable parse file :=
    ((mappingRecords_status parse file []).mp status).1
  rw [← built, slotStore, ← mappingEntries_slots loadable, ← mappingRecords_result]
  rfl

/-- The store of the slots holds what is written exactly when both readings agree under
every composed name. -/
theorem faithful_iff_agrees {slots : List Slot} (composed : ∀ slot ∈ slots, slot.Composed)
    (typed : ∀ slot ∈ slots, 95 ∉ slot.type) (apart : slots.Pairwise Slot.Apart) :
    LoadedFaithfully (slotStore slots) slots ↔ ∀ slot ∈ slots, slot.Agrees slots :=
  ⟨fun faithful _ member => agrees_of_loadedFaithfully composed typed apart faithful member,
    loadedFaithfully_of_agrees composed typed apart⟩

/-- **Loading a mappings file into an empty store.** The store holds exactly the
records of the file if and only if, under every composed name, the last list that is
found is the list that is written, for a name that is composed in full. -/
theorem loadedFaithfully_iff {parse : CString → Option CJSON} {file : MappingsFile}
    {store : Store} (loaded : (loadDNSMappings parse file KeyedTable.empty).result = (0, store))
    (typed : ∀ slot ∈ fileSlots parse file, 95 ∉ slot.type)
    (apart : (fileSlots parse file).Pairwise Slot.Apart) :
    LoadedFaithfully store (fileSlots parse file) ↔
      ∀ slot ∈ fileSlots parse file, slot.Agrees (fileSlots parse file) := by
  rw [loadDNSMappings_empty loaded]
  exact faithful_iff_agrees (fun _ => composed_of_mem) typed apart

section Sound

variable {parse : CString → Option CJSON} {file : MappingsFile} {store : Store}

/-- Where no composed names coincide, the file is loaded as it is written exactly when
every key on its own is read as it is written. -/
theorem loadedFaithfully_iff_sound
    (loaded : (loadDNSMappings parse file KeyedTable.empty).result = (0, store))
    (typed : ∀ slot ∈ fileSlots parse file, 95 ∉ slot.type)
    (apart : (fileSlots parse file).Pairwise Slot.Apart)
    (distinct : (fileSlots parse file).Pairwise fun first second => ¬ first.SameBuilt second) :
    LoadedFaithfully store (fileSlots parse file) ↔
      ∀ slot ∈ fileSlots parse file, slot.Sound := by
  rw [loadDNSMappings_empty loaded,
    faithful_iff_agrees (fun _ => composed_of_mem) typed apart, agrees_iff_sound distinct]

/-- A file of arrays, each found under its own key, with plain values under names that are
composed in full, is loaded as it is written. -/
theorem loadedFaithfully_of_own
    (loaded : (loadDNSMappings parse file KeyedTable.empty).result = (0, store))
    (typed : ∀ slot ∈ fileSlots parse file, 95 ∉ slot.type)
    (apart : (fileSlots parse file).Pairwise Slot.Apart)
    (own : ∀ slot ∈ fileSlots parse file, slot.found = slot.written ∧
      slot.name = some slot.built ∧ ∃ items, slot.written = .array items ∧
        ∀ item ∈ items, item.isObject → ∀ text, writtenText slot.type item = some text →
          slot.type = cstr "MX" ∧ text.length ≤ 255) :
    LoadedFaithfully store (fileSlots parse file) := by
  rw [loadDNSMappings_empty loaded, faithful_iff_agrees (fun _ => composed_of_mem) typed apart]
  refine fun slot => agrees_of_sound fun other member => ?_
  obtain ⟨found, named, items, array, plain⟩ := own other member
  exact Slot.sound_of_own array found plain named

end Sound

/-- One address under the name of a domain. -/
def addressFile : MappingsFile := .contents (cstr
  "\x7b\"domains\": \x7b\"a\": \x7b\"records\": \x7b\"A\": [\"192.0.2.1\"]\x7d\x7d\x7d\x7d")

theorem fileSlots_address :
    fileSlots (fun _ => some (baseTree (cstr "a") (cstr "A") (.array [.string (cstr "192.0.2.1")])))
      addressFile =
        [{ scope := cstr "base", name := some (cstr "a"), built := cstr "a", type := cstr "A",
           written := .array [.string (cstr "192.0.2.1")],
           found := .array [.string (cstr "192.0.2.1")] }] := by
  rfl

theorem loadedFaithfully_iff_address :
    LoadedFaithfully
      (loadDNSMappings
        (fun _ => some (baseTree (cstr "a") (cstr "A") (.array [.string (cstr "192.0.2.1")])))
        addressFile KeyedTable.empty).result.2
      (fileSlots
        (fun _ => some (baseTree (cstr "a") (cstr "A") (.array [.string (cstr "192.0.2.1")])))
        addressFile) := by
  refine (loadedFaithfully_iff (by rfl) ?_ ?_).mpr ?_
  · rw [fileSlots_address]
    decide
  · rw [fileSlots_address]
    exact List.pairwise_singleton Slot.Apart _
  · rw [fileSlots_address]
    exact List.forall_mem_singleton.mpr ⟨by decide, fun _ => rfl⟩

/-- A domain whose types are spelled alike except for the letter case. -/
def twoSpellings : CJSON := .object [(cstr "domains", .object [(cstr "a", .object
  [(cstr "records", .object [(cstr "a", .array [.string (cstr "192.0.2.1")]),
    (cstr "A", .array [.string (cstr "192.0.2.2")])])])])]

def twoSpellingsFile : MappingsFile := .contents
  (cstr "\x7b\"domains\": \x7b\"a\": \x7b\"records\": \x7b\"a\": [\"192.0.2.1\"], " ++
    cstr "\"A\": [\"192.0.2.2\"]\x7d\x7d\x7d\x7d")

theorem fileSlots_twoSpellings : fileSlots (fun _ => some twoSpellings) twoSpellingsFile =
    [{ scope := cstr "base", name := some (cstr "a"), built := cstr "a", type := cstr "a",
       written := .array [.string (cstr "192.0.2.1")],
       found := .array [.string (cstr "192.0.2.1")] },
     { scope := cstr "base", name := some (cstr "a"), built := cstr "a", type := cstr "A",
       written := .array [.string (cstr "192.0.2.2")],
       found := .array [.string (cstr "192.0.2.1")] }] := by
  rfl

/-- The second spelling gets the values of the first one. -/
theorem not_loadedFaithfully_of_two_spellings :
    (loadDNSMappings (fun _ => some twoSpellings) twoSpellingsFile KeyedTable.empty).result.1 = 0 ∧
      (∀ slot ∈ fileSlots (fun _ => some twoSpellings) twoSpellingsFile, 95 ∉ slot.type) ∧
      (fileSlots (fun _ => some twoSpellings) twoSpellingsFile).Pairwise Slot.Apart ∧
      ¬ LoadedFaithfully
        (loadDNSMappings (fun _ => some twoSpellings) twoSpellingsFile KeyedTable.empty).result.2
        (fileSlots (fun _ => some twoSpellings) twoSpellingsFile) := by
  rw [fileSlots_twoSpellings]
  refine ⟨by rfl, by simp; decide, by simp [Slot.Apart]; decide, fun faithful => ?_⟩
  obtain ⟨slot, member, written⟩ := (faithful
    { domain := cstr "a", type := cstr "A", key := cstr "base_a_A",
      values := [cstr "192.0.2.1"] }).mp (KeyedTable.mem_iff.mpr (by decide +kernel))
  simp only [List.mem_cons, List.not_mem_nil, or_false] at member
  rcases member with rfl | rfl <;> revert written <;> decide +kernel

end DnsServer
