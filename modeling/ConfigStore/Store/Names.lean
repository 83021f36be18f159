import ConfigStore.Document.Basic
import ConfigStore.Failure
import ConfigStore.Store.Layout

/-!
# Names that can be stored

Domains, projects and ids become names of directories, and so do the names in polling records. A
name must not be empty and must not lead out of its directory; a domain must not be one of the
directories that the store keeps for itself.

* `Names.isPlain` is the rule for a single name.
* `Names.checkScope`, `Names.checkDocument` check the names of a scope and of a document.
-/

namespace ConfigStore.Names

/-- A name that can stand for a file or a directory within its directory. -/
def isPlain (name : String) : Bool :=
  name ≠ "" && name ≠ "." && name ≠ ".." && '/' ∉ name.toList && '\\' ∉ name.toList

/-- Checks a name; `what` says whose name it is. -/
def check (what name : String) : Except Failure Unit :=
  if name = "" then .error (.emptyName what)
  else if isPlain name then .ok ()
  else .error (.invalidName what name)

/-- Whether a domain is one of the directories of the store itself. -/
def isReserved (domain : String) : Bool := domain == Layout.tmpName || domain == Layout.trackName

/-- Checks the names of a scope. -/
def checkScope (domain project : String) : Except Failure Unit := do
  check "domain" domain
  if isReserved domain then .error (.reservedDomain domain)
  check "project" project

/-- Checks the id of a document. -/
def checkId (id : String) : Except Failure Unit := check "kv id" id

/-- Checks the scope and the id of a document. -/
def checkDocument (d : Document) : Except Failure Unit := do
  checkScope d.domain d.project
  checkId d.id

end ConfigStore.Names
