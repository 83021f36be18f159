import ConfigStore.Document.Basic
import ConfigStore.Query.Filter

/-!
# The read cache

The cache holds copies of documents, the ids it has seen in every scope, and a marker for every
document that was deleted. A copy that a scan brings in late must neither replace a newer copy nor
bring a deleted document back; the markers and the revisions prevent that.

A copy lives for a given number of seconds. Time does not pass in this model, so a copy either is
expired at once (a lifetime of zero) or never.

* `Cache.put`, `Cache.backfill`, `Cache.evict` change the cache.
* `Cache.get` and `Cache.search` look documents up and drop expired copies that they meet.
* `Cache.sweep` drops everything that is expired.
-/

namespace ConfigStore

/-- Copies of documents, by domain, project and id. -/
structure Cache where
  /-- The lifetime of a copy in seconds. -/
  ttl : Nat
  /-- The ids seen in every scope, under `scopeKey`. -/
  ids : Dict (Dict Unit) := .empty
  /-- The copies, under `documentKey`. -/
  bodies : Dict Document := .empty
  /-- The revisions that deleted documents had, under `documentKey`. -/
  evicted : Dict Int64 := .empty

/-- What a search in the cache finds. -/
structure CacheSearch where
  /-- The copies that the query asks for. -/
  docs : List Document := []
  /-- Whether a cache was asked at all. -/
  usedCache : Bool := false
  /-- The ids of which there is a copy, asked for or not. -/
  cachedIds : List String := []
  /-- The ids that were seen but of which there is no copy. -/
  missingIds : List String := []
  deriving DecidableEq

namespace Cache

/-! ## Names -/

/-- The name of a scope. -/
def scopeKey (domain project : String) : String := "/" ++ domain ++ "/" ++ project

/-- The name of a document. -/
def documentKey (domain project id : String) : String :=
  "/" ++ domain ++ "/" ++ project ++ "/" ++ id

/-- The name of the scope that a document belongs to. -/
def scopeOf (d : Document) : String := scopeKey d.domain d.project

/-- The name of a document. -/
def keyOf (d : Document) : String := documentKey d.domain d.project d.id

/-! ## Parts of the cache -/

/-- Whether copies are expired as soon as they are stored. -/
def expiresAtOnce (c : Cache) : Bool := c.ttl == 0

/-- The ids seen in a scope. -/
def idsIn (c : Cache) (scope : String) : Dict Unit := (c.ids.get? scope).getD .empty

/-- Remembers the id of a document. -/
def index (c : Cache) (d : Document) : Cache :=
  { c with ids := c.ids.insert (scopeOf d) ((c.idsIn (scopeOf d)).insert d.id ()) }

/-- Forgets the id of a document. -/
def unindex (c : Cache) (d : Document) : Cache :=
  { c with ids := c.ids.insert (scopeOf d) ((c.idsIn (scopeOf d)).erase d.id) }

/-- Stores a copy in place of any other. -/
def store (c : Cache) (d : Document) : Cache := { c with bodies := c.bodies.insert (keyOf d) d }

/-- Drops a copy. -/
def drop (c : Cache) (key : String) : Cache := { c with bodies := c.bodies.erase key }

/-! ## Changing -/

/-- Stores a document that was just written. It replaces any copy and lifts any marker. -/
def putOne (c : Cache) (d : Document) : Cache :=
  ({ c with evicted := c.evicted.erase (keyOf d) }.store d).index d

/-- Stores documents that were just written. -/
def put (c : Cache) (docs : List Document) : Cache := docs.foldl putOne c

/-- Whether the copy of a document is newer than the document. -/
def hasNewer (c : Cache) (d : Document) : Bool :=
  match c.bodies.get? (keyOf d) with
  | some copy => d.updateRevision < copy.updateRevision
  | none => false

/-- Whether a marker says that the document, at this revision or a later one, was deleted. -/
def isMarked (c : Cache) (d : Document) : Bool :=
  match c.evicted.get? (keyOf d) with
  | some revision => d.updateRevision ≤ revision
  | none => false

/-- Stores a document that was read by a scan, and says whether it was kept. It gives way to a newer
copy, and to a marker of the same or a later revision; such a marker also removes the copy that the
document would have replaced. -/
def backfillOne (c : Cache) (d : Document) : Bool × Cache :=
  if c.hasNewer d then (false, c)
  else if c.isMarked d then (false, c.drop (keyOf d))
  else (true, (c.store d).index d)

/-- Stores documents that were read by a scan, and counts those that were kept. -/
def backfill (c : Cache) : List Document → Nat × Cache
  | [] => (0, c)
  | d :: docs =>
    let (kept, c) := c.backfillOne d
    let (count, c) := c.backfill docs
    (count + kept.toNat, c)

/-- Drops a deleted document and leaves a marker of its revision. -/
def evictOne (c : Cache) (d : Document) : Cache :=
  ({ c with evicted := c.evicted.insert (keyOf d) d.updateRevision }.drop (keyOf d)).unindex d

/-- Drops deleted documents. -/
def evict (c : Cache) (docs : List Document) : Cache := docs.foldl evictOne c

/-- Drops every expired copy and marker; gives the number of copies dropped. -/
def sweep (c : Cache) : Nat × Cache :=
  if c.expiresAtOnce then (c.bodies.size, { c with bodies := .empty, evicted := .empty })
  else (0, c)

/-! ## Looking up -/

/-- The copy of a document, if there is one that is not expired. An expired copy is dropped. -/
def get (c : Cache) (domain project id : String) : Option Document × Cache :=
  let key := documentKey domain project id
  if c.expiresAtOnce then (none, c.drop key) else (c.bodies.get? key, c)

/-- Looks up ids one by one. -/
def searchIds (c : Cache) (domain project : String) (query : Query) :
    List String → CacheSearch × Cache
  | [] => ({ usedCache := true }, c)
  | id :: ids =>
    let (copy, c) := c.get domain project id
    let (found, c) := c.searchIds domain project query ids
    match copy with
    | none => ({ found with missingIds := id :: found.missingIds }, c)
    | some d =>
      ({ found with
          docs := if query.accepts d then d :: found.docs else found.docs
          cachedIds := id :: found.cachedIds }, c)

/-- The copies in a scope that a query asks for, in the order of the ids. -/
def search (c : Cache) (domain project : String) (query : Query) : CacheSearch × Cache :=
  c.searchIds domain project query (c.idsIn (scopeKey domain project)).keys

/-- The number of copies, expired ones included. -/
def size (c : Cache) : Nat := c.bodies.size

/-- Whether there is no copy. -/
def isEmpty (c : Cache) : Bool := c.bodies.isEmpty

end Cache

end ConfigStore
