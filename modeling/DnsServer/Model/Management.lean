import DnsServer.Foundation.SharedTokens
import DnsServer.Model.Records

/-!
# The management interface

A request is one buffer of text: the token that authenticates it, the name of a
command, and the arguments of the command. `managementThread` takes the buffer
apart with `strtok` and hands the arguments to a command, or replies with an
error. It is written as the program of its calls, so that it can be run alone on
a request or next to another thread.
-/

set_option autoImplicit false

namespace DnsServer

open Libc Tokenizing

/-- A command with its arguments. The file is the one in the configuration. -/
inductive Command where
  | add (domain type scope value : CString)
  | delete (domain type scope : CString)
  | list
  | reload (file : MappingsFile)

/-- What comes of a request: an error is written back, or a command is run. -/
inductive Handling where
  | refuse (response : CString)
  | execute (command : Command)

/-- The delimiters of all tokens but the value of an `ADD`. -/
def blanks : CString := cstr " \t\n"

def handleAddCommand : Tokenizing Handling := do
  let domain ← nextToken blanks
  let type ← nextToken blanks
  let scope ← nextToken blanks
  let value ← nextToken (cstr "\n")
  match domain, type, scope, value with
  | some domain, some type, some scope, some value =>
    return .execute (.add domain type scope value)
  | _, _, _, _ =>
    return .refuse (cstr "ERROR: Missing parameters. Usage: ADD domain type scope value\n")

def handleDeleteCommand : Tokenizing Handling := do
  let domain ← nextToken blanks
  let type ← nextToken blanks
  let scope ← nextToken blanks
  match domain, type, scope with
  | some domain, some type, some scope => return .execute (.delete domain type scope)
  | _, _, _ => return .refuse (cstr "ERROR: Missing parameters. Usage: DELETE domain type scope\n")

/-- The part of the thread that handles a request. -/
def managementThread (auth_token : CString) (file : MappingsFile) : Tokenizing Handling := do
  let token ← nextToken blanks
  if token ≠ some auth_token then return .refuse (cstr "ERROR: Authentication failed\n")
  else
    match ← nextToken blanks with
    | none => return .refuse (cstr "ERROR: No command specified\n")
    | some cmd =>
      if sameIgnoringCase cmd (cstr "ADD") then handleAddCommand
      else if sameIgnoringCase cmd (cstr "DELETE") then handleDeleteCommand
      else if sameIgnoringCase cmd (cstr "LIST") then return .execute .list
      else if sameIgnoringCase cmd (cstr "RELOAD") then return .execute (.reload file)
      else return .refuse (cstr "ERROR: Unknown command\n")

end DnsServer
