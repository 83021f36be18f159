import ConfigStore.Backend
import ConfigStore.Polling.Log
import ConfigStore.Store.Counter
import ConfigStore.Store.Deletion
import ConfigStore.Store.Finding

/-!
# Sessions

A session is an opened store with the disk it works on and its cache. It answers requests one after
the other, and its store can be opened anew on the same disk.

* `Request` lists what a store can be asked for, `Answer` what it answers.
* `Store.answer` answers a request.
* `Session.call` and `Session.reopen` are the steps of a session.
-/

namespace ConfigStore

/-- What a store can be asked for. -/
inductive Request
  | create (caller : Caller) (doc : Document)
  | update (caller : Caller) (doc : Document)
  | get (caller : Caller) (domain project id : String)
  | list (caller : Caller) (domain project : String) (query : Query)
  | holdsKey (domain project key : String) (query : Query)
  | getByKey (domain project key : String) (query : Query)
  | deleteOne (caller : Caller) (domain project id : String)
  | deleteMany (caller : Caller) (domain project : String) (ids : List String)
  | total (domain project : String)
  | history (caller : Caller) (domain project id : String) (offset limit : Nat)
  | addHistory (doc : Document)
  /-- Ask for the history of documents to be kept longer. History is kept by count and not by time,
  so nothing happens. -/
  | delayDeletion (domain project : String) (ids : List String)
  | current (domain : String)
  | advance (domain : String)
  | putPolling (record : PollingRecord)
  | findPolling (wanted : PollingRecord)

/-- What a store answers. -/
inductive Answer
  | done
  | document (doc : Document)
  | documents (docs : List Document)
  | deleted (docs : List Document)
  | listing (listing : Listing)
  | truth (b : Bool)
  | count (n : Nat)
  | revision (n : Int64)
  | record (record : PollingRecord)
  | records (records : List PollingRecord)

/-- Answers a request. -/
def Store.answer (s : Store) : Request → StoreAction Answer
  | .create caller doc => .document <$> s.create caller doc
  | .update caller doc => .document <$> s.update caller doc
  | .get caller domain project id => .document <$> s.get caller domain project id
  | .list caller domain project query => .listing <$> s.list caller domain project query
  | .holdsKey domain project key query => .truth <$> s.holdsKey domain project key query
  | .getByKey domain project key query => .documents <$> s.getByKey domain project key query
  | .deleteOne caller domain project id => .document <$> s.deleteOne caller domain project id
  | .deleteMany caller domain project ids => .deleted <$> s.deleteMany caller domain project ids
  | .total domain project => .count <$> s.total domain project
  | .history caller domain project id offset limit =>
    .listing <$> s.history caller domain project id offset limit
  | .addHistory doc => (fun _ => .done) <$> s.addHistory doc
  | .delayDeletion .. => pure .done
  | .current domain => .revision <$> .onDisk (Counter.current s.root domain)
  | .advance domain => .revision <$> .onDisk (Counter.advance s.root domain)
  | .putPolling record => .record <$> .onDisk (PollingLog.put s.root record)
  | .findPolling wanted => .records <$> .onDisk (PollingLog.find s.root wanted)

/-- An opened store with what it works on. -/
structure Session where
  /-- The store. -/
  store : Store
  /-- The disk and the cache. -/
  state : StoreState

namespace Session

/-- Opens a store on a disk. The second part is the disk after a failure. -/
def start (opener : DiskAction Opened) (disk : Node) : Except (Failure × Node) Session :=
  match opener disk with
  | .ok opened disk => .ok ⟨opened.store, ⟨disk, opened.cache⟩⟩
  | .error failure disk => .error (failure, disk)

/-- Answers a request. -/
def call (session : Session) (request : Request) : Except Failure Answer × Session :=
  match session.store.answer request session.state with
  | .ok answer state => (.ok answer, { session with state })
  | .error failure state => (.error failure, { session with state })

/-- Opens a store anew on the same disk, with an empty cache; if that fails, the old store goes
on. -/
def reopen (session : Session) (opener : DiskAction Opened) : Except Failure Unit × Session :=
  match start opener session.state.disk with
  | .ok session => (.ok (), session)
  | .error (failure, disk) =>
    (.error failure, { session with state := { session.state with disk } })

/-- Changes the cache; nothing happens if there is none. -/
def changeCache (session : Session) (f : Cache → Cache) : Session :=
  { session with state := { session.state with cache := session.state.cache.map f } }

/-- Runs the refresher of the cache for its first round, in which it sweeps the cache. -/
def refresh (session : Session) : Session := session.changeCache fun cache => cache.sweep.2

end Session

end ConfigStore
