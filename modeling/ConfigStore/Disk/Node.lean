import ConfigStore.Text.Utf8

/-!
# Directory trees

A disk is a tree of directories and files. A directory is the list of its entries in the order in
which they are listed; a place in the tree is the list of the names that lead to it from the top.

* `Node.at?` finds the node at a place; it is the view through which all changes are described.
* `Node.alter` changes what stands at one place; `Node.put` and `Node.erase` are its two uses.
* `Node.files` lists every file below a node with its place.
* `Node.Distinct` says that no directory has two entries of one name.
-/

namespace ConfigStore

/-- A file with its content, or a directory with its entries in listing order. -/
inductive Node
  | file (content : Bytes)
  | dir (entries : List (String × Node))
  deriving Inhabited

/-- The names that lead from the top of a tree to a node. -/
abbrev Place := List String

namespace Node

/-! ## Finding -/

/-- The entry of a name. -/
def child? (name : String) : Node → Option Node
  | .file _ => none
  | .dir entries => entries.lookup name

/-- The node at a place. -/
def at? : Place → Node → Option Node
  | [], node => some node
  | name :: place, node => (node.child? name).bind (at? place)

/-- The content of the file at a place. -/
def content? (place : Place) (node : Node) : Option Bytes :=
  match node.at? place with
  | some (.file content) => some content
  | _ => none

/-- Whether a node is a directory. -/
def isDir : Node → Bool
  | .file _ => false
  | .dir _ => true

/-- No directory has two entries of one name. -/
def Distinct (node : Node) : Prop :=
  ∀ place entries, node.at? place = some (.dir entries) → (entries.map (·.1)).Nodup

/-! ## Changing -/

/-- Changes the entry of a name; `none` stands for no entry. A new entry comes last. -/
def alterEntry (name : String) (f : Option Node → Option Node) :
    List (String × Node) → List (String × Node)
  | [] =>
    match f none with
    | none => []
    | some node => [(name, node)]
  | (n, node) :: rest =>
    if n = name then
      match f (some node) with
      | none => rest
      | some node => (n, node) :: rest
    else (n, node) :: alterEntry name f rest

/-- Changes what stands at a place; `none` stands for nothing. If the directory of that place does
not exist, nothing changes, and the top of a tree cannot be taken away. -/
def alter (f : Option Node → Option Node) : Place → Node → Node
  | [], node => (f (some node)).getD node
  | _ :: _, .file content => .file content
  | [name], .dir entries => .dir (alterEntry name f entries)
  | name :: next :: place, .dir entries =>
    .dir (alterEntry name (Option.map (alter f (next :: place))) entries)

/-- Puts a node at a place. -/
def put (tree : Node) (place : Place) (node : Node) : Node := alter (fun _ => some node) place tree

/-- Takes away what stands at a place. -/
def erase (tree : Node) (place : Place) : Node := alter (fun _ => none) place tree

/-! ## Listing -/

mutual

/-- Every file of a node with its place below the node. -/
def files : Node → List (Place × Bytes)
  | .file content => [([], content)]
  | .dir entries => entryFiles entries

/-- Every file of a list of entries with its place. -/
def entryFiles : List (String × Node) → List (Place × Bytes)
  | [] => []
  | (name, node) :: rest =>
    (files node).map (fun (place, content) => (name :: place, content)) ++ entryFiles rest

end

end Node

/-- The order of places: name by name, and a place before all that lie below it. -/
def Place.le : Place → Place → Bool
  | [], _ => true
  | _ :: _, [] => false
  | a :: as, b :: bs => if a = b then Place.le as bs else a < b

end ConfigStore
