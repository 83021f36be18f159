import ConfigStore.Polling.Record
import ConfigStore.Store.Action

/-!
# The polling log

The log keeps one record for every revision and session of a project. A record without a revision
counts as one of the revision `default`.

* `PollingLog.put` writes a record, `PollingLog.find` looks for records.
-/

namespace ConfigStore.PollingLog

/-- The revision under which a record is kept. -/
def revisionName (r : PollingRecord) : String := if r.revision = "" then "default" else r.revision

/-- Checks a name in a record. -/
def check (what name : String) : Except Failure Unit :=
  if Names.isPlain name then .ok () else .error (.invalidPollingName what name)

/-- Writes a record in place of any of the same revision and session. -/
def put (root : Path) (r : PollingRecord) : DiskAction PollingRecord := do
  require (check "domain" r.domain)
  require (check "project" r.project)
  require (check "revision" (revisionName r))
  require (check "session id" r.sessionId)
  let path := Layout.track root r.domain r.project (revisionName r) r.sessionId
  (Files.write path r.encode).forgetful
  return r

/-- The records of the domain and project of `wanted` that have every text that `wanted` has, in the
order of their paths. Files that cannot be read as records are left out. It is a failure if there is
no record. -/
def find (root : Path) (wanted : PollingRecord) : DiskAction (List PollingRecord) := do
  require (check "domain" wanted.domain)
  require (check "project" wanted.project)
  let files ←
    (Files.filesBelow (Layout.trackDir root wanted.domain wanted.project) none).orIfMissing []
  let records := files.filterMap fun file => (PollingRecord.decode file.2).toOption
  let found := records.filter (·.answers wanted)
  if found.isEmpty then throw .recordNotFound
  return found

end ConfigStore.PollingLog
