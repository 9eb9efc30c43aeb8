import DnsServer.Model.Records

/-!
# The loops of `loadDNSMappings`, whatever a record is added to

The loops go over the domains of a file and hand each list of values to
`add_record_to_hash`. They are written here for any effect of that function, for the models
in which the table is not handed on as an argument.
-/

set_option autoImplicit false

namespace DnsServer

open Libc

namespace Loader

variable {m : Type → Type} [Monad m] (addRecordToHash : CString → CString → CJSON → CString → m Unit)

/-- One of the loops over the types of a `records` object. -/
def loadTypes (records : CJSON) (name scope : CString) : List (Option CString × CJSON) → m Unit
  | [] => return ()
  | (none, _) :: types => loadTypes records name scope types
  | (some typeName, _) :: types =>
    match records.getObjectItem typeName with
    | none => loadTypes records name scope types
    | some values => do
      addRecordToHash name typeName values scope
      loadTypes records name scope types

/-- The base records of a domain; whether there is no conflict. -/
def loadBase (domainName : CString) (domain : CJSON) : m Bool :=
  match domain.getObjectItem (cstr "records") with
  | none => return true
  | some records => do
    loadTypes addRecordToHash records domainName (cstr "base") records.children
    let (has_cname, has_other_records) := cnameFlags records
    return !(has_cname && has_other_records)

/-- The wildcard records of a domain. -/
def loadWildcards (domainName : CString) (domain : CJSON) : m Unit :=
  match domain.getObjectItem (cstr "wildcards") with
  | none => return ()
  | some wildcards =>
    match wildcards.getObjectItem (cstr "records") with
    | none => return ()
    | some wildcard_records =>
      loadTypes addRecordToHash wildcard_records (snprintf 512 (cstr "*." ++ domainName))
        (cstr "wildcard") wildcard_records.children

/-- The loop over the subdomains of a domain. -/
def loadSubdomains (domainName : CString) : List (Option CString × CJSON) → m Unit
  | [] => return ()
  | (subdomainName, subdomain) :: subdomains =>
    match subdomain.getObjectItem (cstr "records") with
    | none => loadSubdomains domainName subdomains
    | some subdomain_records => do
      loadTypes addRecordToHash subdomain_records
        (snprintf 512 (subdomainName.getD (cstr "(null)") ++ cstr "." ++ domainName))
        (cstr "subdomain") subdomain_records.children
      loadSubdomains domainName subdomains

/-- The loop over the domains, up to the first conflict. -/
def loadDomains : List (CString × CJSON) → m Bool
  | [] => return true
  | (domainName, domain) :: domains => do
    if ← loadBase addRecordToHash domainName domain then
      loadWildcards addRecordToHash domainName domain
      match domain.getObjectItem (cstr "subdomains") with
      | none => loadDomains domains
      | some subdomains =>
        loadSubdomains addRecordToHash domainName subdomains.children
        loadDomains domains
    else return false

end Loader

end DnsServer
