import ConfigStore.Disk.Node
import ConfigStore.Disk.Path

/-!
# What a disk can do

The operations of a disk, each of them as a function from the tree to the new tree or to the reason
of a refusal. A path is followed piece by piece from the top of the tree: an empty piece and `.`
stay where they are, `..` goes up, and every piece needs a directory to be looked up in. A path
whose text no disk takes is refused before anything is looked up.

* `Disk.checkText` refuses such a path.
* `Disk.reach` follows a path, `Disk.resolve` finds the place that it names; a path without text
  names none.
* `Disk.readFile`, `Disk.entries` look; `Disk.writeFile`, `Disk.removeFile`, `Disk.removeDir`,
  `Disk.rename` change one place and refuse without a change.
* `Disk.makeDirs` creates a chain of directories and keeps those it has made when it is refused.
-/

namespace ConfigStore

/-- Why a disk refuses an operation. -/
inductive Refusal
  /-- There is nothing at the path, or at a place on the way. -/
  | notFound
  /-- A directory is needed where a file stands. -/
  | notADirectory
  /-- A file is needed where a directory stands. -/
  | isADirectory
  /-- The directory still has entries. -/
  | notEmpty
  /-- A name is longer than 255 bytes. -/
  | nameTooLong
  /-- A path is longer than 4095 bytes. -/
  | pathTooLong
  /-- A name holds the character NUL. -/
  | invalidName
  /-- A directory cannot be moved into itself. -/
  | intoItself
  /-- A directory cannot be removed by a path that ends in `.`. -/
  | invalidPath
  /-- The top of the tree is always in use. -/
  | busy
  deriving DecidableEq, Repr

namespace Disk

/-! ## Following paths -/

/-- Whether a name is too long for an entry. -/
def isTooLong (name : String) : Bool := 255 < name.utf8ByteSize

/-- Follows the pieces of a path from a place on. What the last piece names need not exist. -/
def follow (disk : Node) (here : Place) : List String → Except Refusal Place
  | [] => .ok here
  | piece :: rest =>
    match disk.at? here with
    | none => .error .notFound
    | some (.file _) => .error .notADirectory
    | some (.dir _) =>
      if Path.isIdle piece then follow disk here rest
      else if piece = ".." then follow disk here.dropLast rest
      else if isTooLong piece then .error .nameTooLong
      else follow disk (here ++ [piece]) rest

/-- Whether a piece of a path holds the character NUL. -/
def hasNul (path : Path) : Bool := path.pieces.any fun piece => '\x00' ∈ piece.toList

/-- The most bytes that a path may have. -/
def maxPathBytes : Nat := 4095

/-- Whether a path is too long to be looked up. -/
def isPathTooLong (path : Path) : Bool := maxPathBytes < path.byteLength

/-- Refuses a path for its text alone, whatever stands on the disk. -/
def checkText (path : Path) : Except Refusal Unit :=
  if hasNul path then .error .invalidName
  else if isPathTooLong path then .error .pathTooLong
  else .ok ()

/-- The place from which a longer path goes on: the one to which the pieces of a path lead. -/
def reach (disk : Node) (path : Path) : Except Refusal Place := do
  checkText path
  follow disk [] path.pieces

/-- The place that a path leads to. A path without text leads nowhere, although a longer one goes on
from it. -/
def resolve (disk : Node) (path : Path) : Except Refusal Place :=
  if path.isEmpty then .error .notFound else reach disk path

/-- The place that a path leads to, and the node that stands there. -/
def find (disk : Node) (path : Path) : Except Refusal (Place × Node) := do
  let place ← resolve disk path
  match disk.at? place with
  | none => .error .notFound
  | some node => .ok (place, node)

/-! ## Looking -/

/-- The content of a file. -/
def readFile (disk : Node) (path : Path) : Except Refusal Bytes := do
  match ← find disk path with
  | (_, .file content) => .ok content
  | (_, .dir _) => .error .isADirectory

/-- The entries of a directory. -/
def entries (disk : Node) (path : Path) : Except Refusal (List (String × Node)) := do
  match ← find disk path with
  | (_, .file _) => .error .notADirectory
  | (_, .dir entries) => .ok entries

/-! ## Changing one place -/

/-- Writes a file; its directory must exist. A slash at the end of a path asks for a directory. -/
def writeFile (path : Path) (content : Bytes) (disk : Node) : Except Refusal Node :=
  if path.isEmpty then .error .notFound
  else do
    checkText path
    let place ← reach disk path.trimSlash
    if path.endsInSlash then .error .isADirectory
    else
      match disk.at? place with
      | some (.dir _) => .error .isADirectory
      | _ => .ok (disk.put place (.file content))

/-- Removes a file. -/
def removeFile (path : Path) (disk : Node) : Except Refusal Node := do
  match ← find disk path with
  | (_, .dir _) => .error .isADirectory
  | (place, .file _) => .ok (disk.erase place)

/-- Removes an empty directory other than the top of the tree, by a path that does not end in
`.`. -/
def removeDir (path : Path) (disk : Node) : Except Refusal Node := do
  match ← find disk path with
  | (_, .file _) => .error .notADirectory
  | ([], .dir _) => .error .busy
  | (_, .dir (_ :: _)) => .error .notEmpty
  | (place, .dir []) => if path.endsInDot then .error .invalidPath else .ok (disk.erase place)

/-- Whether a node may be moved onto what stands at its new place: a file onto nothing or onto a
file, a directory onto nothing or onto an empty directory. -/
def mayReplace (node : Node) : Option Node → Except Refusal Unit
  | none => .ok ()
  | some (.file _) => if node.isDir then .error .notADirectory else .ok ()
  | some (.dir entries) =>
    if !node.isDir then .error .isADirectory
    else if entries.isEmpty then .ok ()
    else .error .notEmpty

/-- Gives a file or a directory another path. Both paths are followed before anything is moved. -/
def rename (source target : Path) (disk : Node) : Except Refusal Node := do
  let old ← resolve disk source
  let new ← resolve disk target
  match disk.at? old with
  | none => .error .notFound
  | some node =>
    if old = new then .ok disk
    else if old.isPrefixOf new then .error .intoItself
    else
      mayReplace node (disk.at? new)
      .ok ((disk.erase old).put new node)

/-! ## Directories -/

/-- Follows the pieces of a path from a place on and creates every directory that is missing. -/
def makeDirsFrom (disk : Node) (here : Place) : List String → Except Refusal Unit × Node
  | [] => (.ok (), disk)
  | piece :: rest =>
    if Path.isIdle piece then makeDirsFrom disk here rest
    else if piece = ".." then makeDirsFrom disk here.dropLast rest
    else if isTooLong piece then (.error .nameTooLong, disk)
    else
      match disk.at? (here ++ [piece]) with
      | some (.file _) => (.error .notADirectory, disk)
      | some (.dir _) => makeDirsFrom disk (here ++ [piece]) rest
      | none => makeDirsFrom (disk.put (here ++ [piece]) (.dir [])) (here ++ [piece]) rest

/-- Creates a directory and the directories that lead to it; for a path without text there are none.
Directories that were created before a refusal stay. A path that ends in `.` names a directory that
must exist already, for nothing can be created under the name `.`. -/
def makeDirs (path : Path) (disk : Node) : Except Refusal Unit × Node :=
  match checkText path with
  | .error refusal => (.error refusal, disk)
  | .ok () =>
    if path.endsInDot then
      match makeDirsFrom disk [] path.parent.pieces with
      | (.error refusal, disk) => (.error refusal, disk)
      | (.ok (), disk) => ((entries disk path).map fun _ => (), disk)
    else makeDirsFrom disk [] path.pieces

end Disk

end ConfigStore
