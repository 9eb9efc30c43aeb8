import DnsServer.Answering.Delivery
import DnsServer.Parsing.JsonPrinting
import DnsServer.Store.Faithful

/-!
# From the text of the mappings file to the bytes of an answer

The parts of the server in a row. The mappings file has a JSON text; the parser reads the
tree the text stands for, the loader fills the store from it, a datagram is parsed to a
question, the record is looked up and the response is written. `answers_of_file` says what a
reader of the response gets: the values that the text of the file has under the name and
the type in question, in order.
-/

set_option autoImplicit false

namespace DnsServer

open Libc Wire

/-- **Every key finds its own list** in an object whose keys differ in more than letter
case. -/
theorem found_of_distinct {records : CJSON} {scope built : CString} {name : Option CString}
    (distinct : records.children.Pairwise fun first second =>
      ∀ key ∈ first.1, ∀ other ∈ second.1, ¬ sameIgnoringCase other key)
    {slot : Slot} (member : slot ∈ typeSlots records scope name built) :
    slot.found = slot.written := by
  obtain ⟨⟨key, written⟩, child, made⟩ := List.mem_filterMap.mp member
  cases key with
  | none => cases made
  | some type =>
      simp only [Option.bind_eq_bind, Option.bind_some, Option.bind_eq_some_iff] at made
      obtain ⟨found, first, same⟩ := made
      cases same
      obtain ⟨before, behind, split⟩ := List.append_of_mem child
      rw [split, List.pairwise_append] at distinct
      have others : before.find? (fun child => child.1.any (sameIgnoringCase type)) = none := by
        refine List.find?_eq_none.mpr fun other earlier same => ?_
        obtain ⟨key, isKey, equal⟩ := (Option.any_eq_true _ _).mp same
        exact distinct.2.2 other earlier _ List.mem_cons_self key isKey type rfl equal
      rw [CJSON.getObjectItem, split, List.find?_append, others, Option.none_or,
        List.find?_cons_of_pos (by simp)] at first
      exact (Option.some.inj first).symm

end DnsServer
