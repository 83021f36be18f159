import ConfigStore.Store.Writing

/-!
# Finding documents

A listing asks the cache first and then scans the disk for the documents that the cache has no copy
of; what the scan finds is put into the cache.

* `Store.get` reads one document, `Store.history` its snapshots.
* `Store.find` finds the documents that a query accepts, `Store.list` gives a page of them.
* `Store.holdsKey` and `Store.getByKey` look for the one document with a key and labels.
* `Store.total` counts the documents of a project.
-/

namespace ConfigStore.Store

/-! ## Single documents -/

/-- The stored document. -/
def get (s : Store) (caller : Caller) (domain project id : String) : StoreAction Document := do
  require (Names.checkScope domain project)
  require (Names.checkId id)
  let d ← .onDisk (readDocument s.root domain project id)
  require (authorize s.policy caller .get d.labels)
  return d

/-- A page of the snapshots of a document. Who may read the document may read its snapshots. -/
def history (s : Store) (caller : Caller) (domain project id : String) (offset limit : Nat) :
    StoreAction Listing := do
  let _ ← s.get caller domain project id
  let found ← .onDisk (Retention.snapshots s.root domain project id)
  return .ofFound found offset limit

/-- Deletes the snapshots of a document beyond the bound. -/
def addHistory (s : Store) (d : Document) : StoreAction Unit := do
  let _ ← .onDisk (Retention.rotate s.root d.domain d.project d.id s.maxHistory)

/-! ## Scanning -/

/-- The document in the newest copy at an id, if there is one that can be read. -/
def scanOne (root : Path) (domain project id : String) : DiskAction (Option Document) := do
  match ← Files.read? (Layout.newest root domain project id) with
  | none => return none
  | some content => return (Document.decode content).toOption

/-- The documents with one of the ids that a query accepts; a query for a unique document is
answered by the first. Ids in `skip` are passed over. -/
def scanIds (root : Path) (domain project : String) (query : Query) (skip : List String) :
    List String → DiskAction (List Document)
  | [] => return []
  | id :: ids => do
    if id ∈ skip then scanIds root domain project query skip ids
    else
      match ← scanOne root domain project id with
      | none => scanIds root domain project query skip ids
      | some d =>
        if !query.accepts d then scanIds root domain project query skip ids
        else if query.isUnique then return [d]
        else return d :: (← scanIds root domain project query skip ids)

/-- The documents of a project that a query accepts, in the order of their ids. A project that does
not exist has none. -/
def scan (root : Path) (domain project : String) (query : Query) (skip : List String) :
    DiskAction (List Document) := do
  let ids ← (Files.subdirs (Layout.projectDir root domain project)).orIfMissing []
  scanIds root domain project query skip ids

/-! ## Queries -/

/-- Asks the cache, if there is one. -/
def searchCache (domain project : String) (query : Query) : StoreAction CacheSearch :=
  modifyGet fun state =>
    match state.cache with
    | none => ({}, state)
    | some cache =>
      let (found, cache) := cache.search domain project query
      (found, { state with cache := some cache })

/-- The documents that a query accepts, in no particular order and whoever may see them. A query for
a unique document is content with what the cache has. -/
def find (s : Store) (domain project : String) (query : Query) : StoreAction (List Document) := do
  require (Names.checkScope domain project)
  let cached ← searchCache domain project query
  if query.isUnique && !cached.docs.isEmpty then return cached.docs
  let scanned ← .onDisk (scan s.root domain project query cached.cachedIds)
  .onCache fun cache => (cache.backfill scanned).2
  return cached.docs ++ scanned

/-- A page of the documents that a query accepts and that the caller may see. -/
def list (s : Store) (caller : Caller) (domain project : String) (query : Query) :
    StoreAction Listing := do
  let docs ← s.find domain project query
  return .ofFound (visible s.policy caller docs) query.offset query.limit

/-- The query for a key with exactly the labels of another query. -/
def keyQuery (key : String) (query : Query) : Query :=
  { key, labels := query.labels, labelFormat := query.labelFormat, exactLabels := true,
    caseSensitive := true }

/-- Whether there is a document with a key and labels. It is a failure if there are several, and,
for a query that is not for a unique document, if there is none. -/
def holdsKey (s : Store) (domain project key : String) (query : Query) : StoreAction Bool := do
  let docs ← s.find domain project (keyQuery key query)
  if (keyQuery key query).isUnique && docs.isEmpty then return false
  if docs.length ≠ 1 then throw (.tooMany docs.length)
  return true

/-- The document with a key and labels, as a list of one. -/
def getByKey (s : Store) (domain project key : String) (query : Query) :
    StoreAction (List Document) := do
  let docs ← s.find domain project (keyQuery key query)
  if (keyQuery key query).isUnique && docs.isEmpty then throw (.keyNotFound key)
  if docs.length ≠ 1 then throw (.tooMany docs.length)
  return docs

/-- The number of documents in a project. -/
def total (s : Store) (domain project : String) : StoreAction Nat := do
  require (Names.checkScope domain project)
  .onDisk ((Files.countSubdirs (Layout.projectDir s.root domain project)).orIfMissing 0)

end ConfigStore.Store
