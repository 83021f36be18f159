import ConfigStore.Store.Writing

/-!
# Deleting documents

A document is deleted in two steps. Staging moves its directory aside and reads it there; if
anything is wrong with it, or the caller may not delete it, it is moved back. Once every document is
staged, the directories are removed.

* `Deletion.stage`, `Deletion.unstage` and `Deletion.commit` are the steps for one document.
* `Store.deleteOne` deletes one document, `Store.deleteMany` several, all of them or none.
-/

namespace ConfigStore

namespace Deletion

/-- Moves a staged document back. -/
def unstage (root : Path) (domain project id : String) (disk : Node) : Node :=
  let source := Layout.tmpDocumentDir root domain project id
  match Files.moveDir source (Layout.documentDir root domain project id) disk with
  | .ok _ disk => (Files.clean source).attempt disk
  | .error _ disk => disk

/-- Reads a staged document and checks that the caller may delete it. -/
def readStaged (s : Store) (caller : Caller) (domain project id : String) :
    DiskAction Document := do
  let content ←
    Files.read ((Layout.tmpDocumentDir s.root domain project id).join Layout.newestName)
  match Document.decode content with
  | .error _ => throw (.undecodable (domain ++ "/" ++ project ++ "/" ++ id))
  | .ok d =>
    require (authorize s.policy caller .delete d.labels)
    return d

/-- Moves a document aside and reads it; a document that cannot be read or may not be deleted is
moved back. -/
def stage (s : Store) (caller : Caller) (domain project id : String) : DiskAction Document := do
  match ← Files.read? (Layout.newest s.root domain project id) with
  | none => throw (.keyNotFound (domain ++ "/" ++ project ++ "/" ++ id))
  | some _ =>
    Files.moveDir (Layout.documentDir s.root domain project id)
      (Layout.tmpDocumentDir s.root domain project id)
    fun disk =>
      match readStaged s caller domain project id disk with
      | .ok d disk => .ok d disk
      | .error failure disk => .error failure (unstage s.root domain project id disk)

/-- Removes the directories of a staged document. What cannot be removed stays. -/
def commit (root : Path) (domain project id : String) (disk : Node) : Node :=
  (Files.clean (Layout.documentDir root domain project id)).attempt
    ((Files.clean (Layout.tmpDocumentDir root domain project id)).attempt disk)

/-- Stages documents one after the other. `staged` are the ids staged already; they are moved back
if one cannot be staged. -/
def stageEach (s : Store) (caller : Caller) (domain project : String) (staged : List String) :
    List String → DiskAction (List Document)
  | [] => pure []
  | id :: ids => fun disk =>
    match stage s caller domain project id disk with
    | .error failure disk =>
      .error failure (staged.foldl (fun disk id => unstage s.root domain project id disk) disk)
    | .ok d disk =>
      match stageEach s caller domain project (staged ++ [id]) ids disk with
      | .error failure disk => .error failure disk
      | .ok docs disk => .ok (d :: docs) disk

/-- Removes the directories of staged documents. -/
def commitEach (root : Path) (domain project : String) (ids : List String) (disk : Node) : Node :=
  ids.foldl (fun disk id => commit root domain project id disk) disk

end Deletion

namespace Store

/-- Deletes a document and gives it as it was. -/
def deleteOne (s : Store) (caller : Caller) (domain project id : String) :
    StoreAction Document := do
  require (Names.checkScope domain project)
  require (Names.checkId id)
  let d ← .onDisk (Deletion.stage s caller domain project id)
  modify fun state => { state with disk := Deletion.commit s.root domain project id state.disk }
  .onCache (·.evict [d])
  return d

/-- Deletes several documents, all of them or none, and gives them as they were, in the order in
which their ids are first named. -/
def deleteMany (s : Store) (caller : Caller) (domain project : String) (ids : List String) :
    StoreAction (List Document) := do
  require (Names.checkScope domain project)
  let ids := ids.eraseDups
  ids.forM fun id => require (Names.checkId id)
  if ids.isEmpty then throw (.keyNotFound "no kv id given")
  let docs ← .onDisk (Deletion.stageEach s caller domain project [] ids)
  modify fun state =>
    { state with disk := Deletion.commitEach s.root domain project ids state.disk }
  .onCache (·.evict docs)
  return docs

end Store

end ConfigStore
