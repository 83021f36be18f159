import ConfigStore.Files.Undo
import ConfigStore.Sorting

/-!
# Whole directories

* `Files.moveDir` moves the children of a directory one by one into another; if one of them cannot
  be moved, those already moved are moved back.
* `Files.clean` removes a directory that holds nothing but files, or changes nothing.
* `Files.subdirs` lists the directories within a directory.
* `Files.filesBelow` reads every file below a directory; it fails if one of the paths is too long.
-/

namespace ConfigStore.Files

/-! ## Moving -/

/-- Moves children back from `target` to `source`; a child that cannot be moved stays. -/
def moveBack (source target : Path) (names : List String) (disk : Node) : Node :=
  names.foldl (fun disk name =>
    match Disk.rename (target.join name) (source.join name) disk with
    | .ok disk => disk
    | .error _ => disk) disk

/-- Moves children from `source` to `target`, one after the other. `moved` are the children that
have been moved already; they are moved back when one cannot be moved. -/
def moveEach (source target : Path) (moved : List String) : List String → DiskAction Unit
  | [] => pure ()
  | name :: names => fun disk =>
    match Disk.rename (source.join name) (target.join name) disk with
    | .ok disk => moveEach source target (moved ++ [name]) names disk
    | .error refusal =>
      .error (.disk (.move (source.join name) (target.join name)) refusal)
        (moveBack source target moved disk)

/-- Moves every child of `source` into `target`, which is created if need be. -/
def moveDir (source target : Path) : DiskAction Unit := do
  let children ← entries source
  ensureDir target
  moveEach source target [] (children.map (·.1))

/-! ## Cleaning -/

/-- Removes the files of a directory and then the directory. Directories within it are left alone,
so that it cannot be removed if it has any. If anything fails, the files are restored. A directory
that does not exist is clean. -/
def clean (path : Path) : DiskAction Unit := fun disk =>
  match Disk.entries disk path with
  | .error .notFound => .ok () disk
  | .error refusal => .error (.disk (.readDir path) refusal) disk
  | .ok children =>
    let files := children.filter (!·.2.isDir)
    LoggedAction.allOrNothing (do
      files.forM fun child => delete (path.join child.1)
      .lift (removeDir path)) disk

/-! ## Listing -/

/-- The directories within a directory, in the order of their names. -/
def subdirs (path : Path) : DiskAction (List String) := do
  let children ← entries path
  return sortBy (· ≤ ·) ((children.filter (·.2.isDir)).map (·.1))

/-- How many directories a directory holds. -/
def countSubdirs (path : Path) : DiskAction Nat := do
  return (← subdirs path).length

/-- The first directory below `path` that cannot be listed, for its path is too long. Of two
directories in one directory the one listed later is visited first, and every directory is visited
before those within it. -/
def firstUnlistable (path : Path) : List (String × Node) → Option Path
  | [] => none
  | (_, .file _) :: rest => firstUnlistable path rest
  | (name, .dir entries) :: rest =>
    (firstUnlistable path rest).or
      (if Disk.isPathTooLong (path.join name) then some (path.join name)
      else firstUnlistable (path.join name) entries)

/-- Reads every file below a directory whose own name is not `except?`, in the order of their
paths. All directories are listed before the first file is read, and a path that is too long can be
neither listed nor read. -/
def filesBelow (path : Path) (except? : Option String) : DiskAction (List (Path × Bytes)) := do
  let children ← entries path
  if let some dir := firstUnlistable path children then
    throw (.disk (.readDir dir) .pathTooLong)
  let wanted := (Node.entryFiles children).filter fun file => file.1.getLast? ≠ except?
  let sorted := sortBy (fun a b => Place.le a.1 b.1) wanted
  sorted.mapM fun (place, content) => do
    let file := place.foldl Path.join path
    if Disk.isPathTooLong file then throw (.disk (.read file) .pathTooLong)
    return (file, content)

end ConfigStore.Files
