import DnsServer.Model.Loader
import DnsServer.Store.Loading

/-!
# The loops of the loader make its insertions

Whatever `add_record_to_hash` does, the loops call it for the insertions of the domains in
their order, up to the first conflict (`Loader.loadDomains_eq`).
-/

set_option autoImplicit false

namespace DnsServer

open Libc

namespace Loader

variable {m : Type → Type} [Monad m] (addRecordToHash : CString → CString → CJSON → CString → m Unit)

/-- The insertions of a list, one after another. -/
def addEntries : List Entry → m Unit
  | [] => return ()
  | entry :: entries => do
    addRecordToHash entry.domain entry.type entry.values entry.scope
    addEntries entries

variable {addRecordToHash}

theorem addEntries_append [LawfulMonad m] (first second : List Entry) :
    addEntries addRecordToHash (first ++ second) =
      addEntries addRecordToHash first >>= fun _ => addEntries addRecordToHash second := by
  induction first with
  | nil => simp only [List.nil_append, addEntries, pure_bind]
  | cons entry first ih => simp only [List.cons_append, addEntries, ih, bind_assoc]

theorem loadTypes_eq (records : CJSON) (name scope : CString) :
    loadTypes addRecordToHash records name scope records.children =
      addEntries addRecordToHash (typeEntries records name scope) := by
  unfold typeEntries
  induction records.children with
  | nil => rfl
  | cons child children ih =>
      obtain ⟨_ | typeName, value⟩ := child
      · exact ih
      · simp only [loadTypes, List.filterMap_cons, typeEntry, Option.bind_eq_bind, Option.bind_some]
        cases records.getObjectItem typeName with
        | none => exact ih
        | some values => exact congrArg _ (funext fun _ => ih)

theorem loadBase_eq [LawfulMonad m] (domainName : CString) (domain : CJSON) :
    loadBase addRecordToHash domainName domain =
      addEntries addRecordToHash (baseEntries domainName domain) >>= fun _ =>
        pure !conflicting domain := by
  unfold loadBase baseEntries conflicting
  cases domain.getObjectItem (cstr "records") with
  | none => simp only [addEntries, pure_bind, Bool.not_false]
  | some records => simp only [loadTypes_eq]

theorem loadWildcards_eq (domainName : CString) (domain : CJSON) :
    loadWildcards addRecordToHash domainName domain =
      addEntries addRecordToHash (wildcardEntries domainName domain) := by
  unfold loadWildcards wildcardEntries
  cases domain.getObjectItem (cstr "wildcards") with
  | none => rfl
  | some wildcards =>
      simp only
      cases wildcards.getObjectItem (cstr "records") with
      | none => rfl
      | some records => exact loadTypes_eq records _ _

theorem loadSubdomains_eq [LawfulMonad m] (domainName : CString) (domain subdomains : CJSON)
    (found : domain.getObjectItem (cstr "subdomains") = some subdomains) :
    loadSubdomains addRecordToHash domainName subdomains.children =
      addEntries addRecordToHash (subdomainEntries domainName domain) := by
  rw [subdomainEntries, found]
  simp only
  induction subdomains.children with
  | nil => rfl
  | cons subdomain subdomains ih =>
      obtain ⟨subdomainName, subdomain⟩ := subdomain
      rw [List.flatMap_cons, addEntries_append, ← ih]
      simp only [loadSubdomains]
      cases subdomain.getObjectItem (cstr "records") with
      | none => simp only [addEntries, pure_bind]
      | some records => simp only [loadTypes_eq]

/-- **The loop over the domains** makes the insertions in front of the first conflict. -/
theorem loadDomains_eq [LawfulMonad m] (domains : List (CString × CJSON)) :
    loadDomains addRecordToHash domains =
      addEntries addRecordToHash (domainsEntries domains) >>= fun _ =>
        pure (domains.all fun domain => !conflicting domain.2) := by
  induction domains with
  | nil => simp only [loadDomains, domainsEntries, addEntries, pure_bind, List.all_nil]
  | cons domain domains ih =>
      obtain ⟨domainName, domain⟩ := domain
      rw [loadDomains, loadBase_eq, domainsEntries, addEntries_append]
      simp only [bind_assoc, pure_bind, List.all_cons]
      cases conflicting domain with
      | true => simp [addEntries]
      | false =>
          simp only [Bool.not_false, if_true, Bool.true_and, loadWildcards_eq, addEntries_append,
            bind_assoc, Bool.false_eq_true, if_false]
          refine bind_congr fun _ => bind_congr fun _ => ?_
          cases found : domain.getObjectItem (cstr "subdomains") with
          | none => simp only [subdomainEntries, found, addEntries, pure_bind, ih]
          | some subdomains => simp only [loadSubdomains_eq domainName domain subdomains found, ih]

end Loader

end DnsServer
