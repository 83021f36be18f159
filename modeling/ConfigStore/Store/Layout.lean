import ConfigStore.Disk.Path

/-!
# Where a store keeps its files

```text
root/domain/project/id/newest_version.json    the newest copy of a document
root/domain/project/id/17.json                the document as of revision 17
root/domain/revision                          the revision counter of a domain
root/tmp/domain/project/id/                   a document that is being deleted
root/track/domain/project/revision/session.json    a polling record
```
-/

namespace ConfigStore.Layout

/-- The name of the newest copy of a document. -/
def newestName : String := "newest_version.json"

/-- The name of the directory for documents that are being deleted. -/
def tmpName : String := "tmp"

/-- The name of the directory for polling records. -/
def trackName : String := "track"

/-- The name of a snapshot. -/
def snapshotName (revision : Int64) : String := toString revision.toInt ++ ".json"

/-- The directory of a project. -/
def projectDir (root : Path) (domain project : String) : Path := (root.join domain).join project

/-- The directory of a document. -/
def documentDir (root : Path) (domain project id : String) : Path :=
  (projectDir root domain project).join id

/-- The newest copy of a document. -/
def newest (root : Path) (domain project id : String) : Path :=
  (documentDir root domain project id).join newestName

/-- A document as of a revision. -/
def snapshot (root : Path) (domain project id : String) (revision : Int64) : Path :=
  (documentDir root domain project id).join (snapshotName revision)

/-- The revision counter of a domain. -/
def counter (root : Path) (domain : String) : Path := (root.join domain).join "revision"

/-- The directory for the documents of a project that are being deleted. -/
def tmpProjectDir (root : Path) (domain project : String) : Path :=
  ((root.join tmpName).join domain).join project

/-- The directory of a document that is being deleted. -/
def tmpDocumentDir (root : Path) (domain project id : String) : Path :=
  (tmpProjectDir root domain project).join id

/-- The directory for the polling records of a project. -/
def trackDir (root : Path) (domain project : String) : Path :=
  ((root.join trackName).join domain).join project

/-- The file of a polling record. -/
def track (root : Path) (domain project revision session : String) : Path :=
  ((trackDir root domain project).join revision).join (session ++ ".json")

end ConfigStore.Layout
