import ConfigStore.Failure

/-!
# Actions on a disk

An action looks at the disk and changes it, and ends with a result or with a failure. A failure does
not take back what the action has changed before it.

* `DiskAction` is the type of actions.
* `Files.read`, `Files.read?`, `Files.entries` look at the disk.
* `Files.ensureDir`, `Files.overwrite`, `Files.remove`, `Files.removeDir` change it.
-/

namespace ConfigStore

/-- An action on the disk. -/
abbrev DiskAction (α : Type) := EStateM Failure Node α

namespace Files

/-- Looks at the disk in the course of an activity. -/
def look {α : Type} (activity : Activity) (f : Node → Except Refusal α) : DiskAction α :=
  fun disk =>
    match f disk with
    | .ok a => .ok a disk
    | .error refusal => .error (.disk activity refusal) disk

/-- Changes the disk in the course of an activity. -/
def change (activity : Activity) (f : Node → Except Refusal Node) : DiskAction Unit := fun disk =>
  match f disk with
  | .ok disk => .ok () disk
  | .error refusal => .error (.disk activity refusal) disk

/-! ## Looking -/

/-- The content of a file. -/
def read (path : Path) : DiskAction Bytes := look (.read path) (Disk.readFile · path)

/-- The content of a file; none if there is no such file. -/
def read? (path : Path) : DiskAction (Option Bytes) :=
  look (.read path) fun disk =>
    match Disk.readFile disk path with
    | .ok content => .ok (some content)
    | .error .notFound => .ok none
    | .error refusal => .error refusal

/-- The entries of a directory, in listing order. -/
def entries (path : Path) : DiskAction (List (String × Node)) :=
  look (.readDir path) (Disk.entries · path)

/-! ## Changing -/

/-- Creates a directory and the directories that lead to it. Those that were created before a
failure stay. -/
def ensureDir (path : Path) : DiskAction Unit := fun disk =>
  match Disk.makeDirs path disk with
  | (.ok (), disk) => .ok () disk
  | (.error refusal, disk) => .error (.disk (.makeDir path) refusal) disk

/-- Writes a file whose directory exists. -/
def overwrite (path : Path) (content : Bytes) : DiskAction Unit :=
  change (.write path) (Disk.writeFile path content)

/-- Removes a file. -/
def remove (path : Path) : DiskAction Unit := change (.delete path) (Disk.removeFile path)

/-- Removes an empty directory. -/
def removeDir (path : Path) : DiskAction Unit := change (.removeDir path) (Disk.removeDir path)

end Files

end ConfigStore
