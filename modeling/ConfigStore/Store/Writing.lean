import ConfigStore.Store.Retention

/-!
# Creating and updating documents

A write puts a snapshot of its revision and the newest copy on the disk, both or neither, then the
document into the cache, and then deletes old snapshots.

* `Store.create` writes a document as it is given.
* `Document.merge` says what an update makes of a stored document, and `Store.update` writes it.
-/

namespace ConfigStore

/-- The stored document with the changes of an update: the value, the status, the checker, the time
and the revision are those of the update; the value type and the label format only if the update
has them. Everything else stays. -/
def Document.merge (stored update : Document) : Document :=
  { stored with
    value := update.value
    valueType := if update.valueType = "" then stored.valueType else update.valueType
    labelFormat := if update.labelFormat = "" then stored.labelFormat else update.labelFormat
    status := update.status
    checker := update.checker
    updateTime := update.updateTime
    updateRevision := update.updateRevision }

namespace Store

/-- Writes the snapshot of a document and its newest copy, both or neither. -/
def persist (root : Path) (d : Document) : DiskAction Unit :=
  LoggedAction.allOrNothing do
    Files.write (Layout.snapshot root d.domain d.project d.id d.updateRevision) d.encode
    Files.write (Layout.newest root d.domain d.project d.id) d.encode

/-- What follows a write: the cache learns of it, and old snapshots are deleted. -/
def afterWrite (s : Store) (d : Document) : StoreAction Unit := do
  .onCache (·.put [d])
  let _ ← .onDisk (Retention.rotate s.root d.domain d.project d.id s.maxHistory)

/-- Writes a document. -/
def write (s : Store) (d : Document) : StoreAction Unit := do
  .onDisk (persist s.root d)
  s.afterWrite d

/-- The stored document of a place. -/
def readDocument (root : Path) (domain project id : String) : DiskAction Document := do
  let path := Layout.newest root domain project id
  match ← Files.read? path with
  | none => throw (.keyNotFound (domain ++ "/" ++ project ++ "/" ++ id))
  | some content =>
    match Document.decode content with
    | .ok d => return d
    | .error _ => throw (.undecodable path.toText)

/-- Creates a document. -/
def create (s : Store) (caller : Caller) (d : Document) : StoreAction Document := do
  require (Names.checkDocument d)
  require (authorize s.policy caller .create d.labels)
  s.write d
  return d

/-- An update must be newer than what is stored. -/
def checkNewer (stored update : Document) : Except Failure Unit :=
  if stored.updateRevision < update.updateRevision then .ok ()
  else .error (.staleRevision update.updateRevision update.path stored.updateRevision)

/-- Updates a document. The permission depends on the labels that are stored. -/
def update (s : Store) (caller : Caller) (d : Document) : StoreAction Document := do
  require (Names.checkDocument d)
  let stored ← .onDisk (readDocument s.root d.domain d.project d.id)
  require (authorize s.policy caller .update stored.labels)
  require (checkNewer stored d)
  s.write (stored.merge d)
  return stored.merge d

end Store

end ConfigStore
