import ConfigStore.Disk.Operation
import ConfigStore.Json.Reading
import ConfigStore.Text.Numeral
import ConfigStore.Text.Quoted

/-!
# Failures

Every way in which an operation of the store can fail, as its cause. The wording is in one place,
`Failure.message`. Callers who only need to tell the causes apart use `Failure.kind`.

* `Failure` lists the causes; `Activity` says what was being done when the disk refused.
* `Failure.message` is what a caller is told, `Failure.isNotFound` whether something was missing.
-/

namespace ConfigStore

/-- What was being done on the disk. -/
inductive Activity
  | makeDir (path : Path)
  | readDir (path : Path)
  | removeDir (path : Path)
  | read (path : Path)
  | write (path : Path)
  | delete (path : Path)
  | move (source target : Path)
  deriving DecidableEq, Repr

/-- What was being done, in words. -/
def Activity.message : Activity → String
  | .makeDir path => "failed to make dir " ++ path.toText
  | .readDir path => "failed to read dir " ++ path.toText
  | .removeDir path => "failed to remove dir " ++ path.toText
  | .read path => "failed to read " ++ path.toText
  | .write path => "failed to write " ++ path.toText
  | .delete path => "failed to delete " ++ path.toText
  | .move source target => "failed to move " ++ source.toText ++ " to " ++ target.toText

/-- Why an operation failed. -/
inductive Failure
  /-- There is no document of this name. -/
  | keyNotFound (name : String)
  /-- One document was expected and this many were found. -/
  | tooMany (count : Nat)
  /-- No polling record was found. -/
  | recordNotFound
  /-- There already is a document of this name. -/
  | keyAlreadyExists (name : String)
  /-- There is no such revision. -/
  | revisionNotFound (revision : Int64)
  /-- The caller may not do this. -/
  | forbidden (what : String)
  /-- A name that must not be empty is empty; `what` says whose name. -/
  | emptyName (what : String)
  /-- A name would lead out of its directory. -/
  | invalidName (what name : String)
  /-- A domain has the name of a directory of the store itself. -/
  | reservedDomain (domain : String)
  /-- A name of a polling record cannot be a file name. -/
  | invalidPollingName (what name : String)
  /-- An update is not newer than what is stored. -/
  | staleRevision (given : Int64) (document : String) (stored : Int64)
  /-- The disk refused. -/
  | disk (activity : Activity) (refusal : Refusal)
  /-- The stored text of a document cannot be read. -/
  | undecodable (document : String)
  /-- A revision counter does not hold a number. -/
  | malformedCounter (path : Path)
  /-- A setting that must be a number is none. -/
  | settingNotANumber (name : String) (flaw : Numeral.Flaw)
  /-- A setting that must be a truth value is none. -/
  | settingNotATruthValue (name : String)
  /-- There is no backend of this name. -/
  | unknownBackend (name : String) (known : List String)
  /-- A cause from outside the store. -/
  | other (message : String)
  /-- A failure with a message that says what it happened in. -/
  | within (message : String) (cause : Failure)
  deriving DecidableEq, Repr

namespace Failure

/-- What a caller is told. -/
def message : Failure → String
  | keyNotFound name => "can not find any key value: " ++ name
  | tooMany count => "key with labels should be only one, found " ++ toString count
  | recordNotFound => "can not find any polling data"
  | keyAlreadyExists name => "kv already exists: " ++ name
  | revisionNotFound revision => "revision does not exist: " ++ toString revision.toInt
  | forbidden what => "forbidden: " ++ what
  | emptyName what => what ++ " must not be empty"
  | invalidName what name => "invalid " ++ what ++ ": " ++ Quoted.quote name
  | reservedDomain domain => "domain " ++ Quoted.quote domain ++ " is reserved"
  | invalidPollingName what name => "invalid polling " ++ what ++ ": " ++ Quoted.quote name
  | staleRevision given document stored =>
    "update revision " ++ toString given.toInt ++ " of " ++ document
      ++ " is not newer than stored revision " ++ toString stored.toInt
  | disk activity _ => activity.message
  | undecodable document => "failed to decode kv " ++ document
  | malformedCounter path => "malformed revision counter " ++ path.toText
  | settingNotANumber name flaw => name ++ " must be a number: " ++ flaw.message
  | settingNotATruthValue name =>
    name ++ " must be true or false: provided string was not \x60true\x60 or \x60false\x60"
  | unknownBackend name known =>
    "unknown datasource " ++ Quoted.quote name ++ ", expected one of " ++ Quoted.quoteList known
  | other message => message
  | within message _ => message

/-- The kinds of failures that callers tell apart. -/
inductive Kind
  | keyNotFound
  | tooMany
  | recordNotFound
  | keyAlreadyExists
  | revisionNotFound
  | forbidden
  /-- Something is missing on the disk. -/
  | diskNotFound
  /-- The disk refused for another reason. -/
  | disk
  /-- A text is not what it should be. -/
  | undecodable
  /-- A text is not a number. -/
  | notANumber
  | other
  deriving DecidableEq, Repr

/-- The kind of a failure; a message around a failure does not change its kind. -/
def kind : Failure → Kind
  | keyNotFound _ => .keyNotFound
  | tooMany _ => .tooMany
  | recordNotFound => .recordNotFound
  | keyAlreadyExists _ => .keyAlreadyExists
  | revisionNotFound _ => .revisionNotFound
  | forbidden _ => .forbidden
  | disk _ .notFound => .diskNotFound
  | disk _ _ => .disk
  | undecodable _ => .undecodable
  | malformedCounter _ => .notANumber
  | within _ cause => cause.kind
  | emptyName _ | invalidName .. | reservedDomain _ | invalidPollingName .. | staleRevision ..
  | settingNotANumber .. | settingNotATruthValue _ | unknownBackend .. | other _ => .other

/-- Whether a document or a polling record was looked for in vain. -/
def isNotFound (f : Failure) : Bool := f.kind = .keyNotFound || f.kind = .recordNotFound

/-- Whether something was missing on the disk. -/
def isMissingOnDisk (f : Failure) : Bool := f.kind = .diskNotFound

end Failure

end ConfigStore
