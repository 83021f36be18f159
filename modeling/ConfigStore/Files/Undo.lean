import ConfigStore.Files.Basic

/-!
# Undoing file changes

Before a file is written or deleted, an undo log records what it held. Replaying the log restores
what was recorded, record by record and in the order of recording; what cannot be restored is passed
over.

* `UndoLog` is the log and `UndoLog.replay` restores from it.
* `LoggedAction` is an action that writes into a log; the log survives a failure.
* `Files.write` and `Files.delete` are the two logged changes.
* `LoggedAction.allOrNothing` replays the log if the action fails.
-/

namespace ConfigStore

/-- What a path held before a change: the content of a file, or nothing. -/
structure UndoRecord where
  /-- The path that is about to change. -/
  path : Path
  /-- The content of the file; none if there was no file. -/
  prior : Option Bytes
  deriving DecidableEq, Repr

/-- Records in the order in which they were made. -/
abbrev UndoLog := List UndoRecord

/-- Restores one path: removes the file that was not there, or writes the content that was, after
creating the directories that lead to it. A refusal leaves things as they are. -/
def UndoRecord.restore (record : UndoRecord) (disk : Node) : Node :=
  match record.prior with
  | none =>
    match Disk.removeFile record.path disk with
    | .ok disk => disk
    | .error _ => disk
  | some content =>
    match Disk.makeDirs record.path.parent disk with
    | (.error _, disk) => disk
    | (.ok (), disk) =>
      match Disk.writeFile record.path content disk with
      | .ok disk => disk
      | .error _ => disk

/-- Restores every path of a log, in the order of recording. -/
def UndoLog.replay (log : UndoLog) (disk : Node) : Node :=
  log.foldl (fun disk record => record.restore disk) disk

/-- A disk with the log of its changes. -/
structure Ledger where
  /-- The disk. -/
  disk : Node
  /-- What was recorded so far. -/
  undo : UndoLog := []

/-- An action on the disk that keeps an undo log. -/
abbrev LoggedAction (α : Type) := EStateM Failure Ledger α

namespace LoggedAction

variable {α : Type}

/-- An action that leaves the log alone. -/
def lift (action : DiskAction α) : LoggedAction α := fun ledger =>
  match action ledger.disk with
  | .ok a disk => .ok a { ledger with disk }
  | .error failure disk => .error failure { ledger with disk }

/-- Adds a record to the log. -/
def record (path : Path) (prior : Option Bytes) : LoggedAction Unit := fun ledger =>
  .ok () { ledger with undo := ledger.undo ++ [⟨path, prior⟩] }

/-- Runs an action with a log that nobody needs. -/
def forgetful (action : LoggedAction α) : DiskAction α := fun disk =>
  match action { disk } with
  | .ok a ledger => .ok a ledger.disk
  | .error failure ledger => .error failure ledger.disk

/-- Runs an action with a log of its own, and replays the log if the action fails. -/
def allOrNothing (action : LoggedAction α) : DiskAction α := fun disk =>
  match action { disk } with
  | .ok a ledger => .ok a ledger.disk
  | .error failure ledger => .error failure (ledger.undo.replay ledger.disk)

end LoggedAction

namespace Files

/-- Writes a file, creating the directories that lead to it; records what the file held. -/
def write (path : Path) (content : Bytes) : LoggedAction Unit := do
  .lift (ensureDir path.parent)
  let prior ← .lift (read? path)
  .record path prior
  .lift (overwrite path content)

/-- Removes a file and records what it held; a file that does not exist needs no removal. -/
def delete (path : Path) : LoggedAction Unit := do
  match ← .lift (read? path) with
  | none => return
  | some content =>
    .record path (some content)
    .lift (remove path)

end Files

end ConfigStore
