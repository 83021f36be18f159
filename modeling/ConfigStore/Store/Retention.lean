import ConfigStore.Document.Format
import ConfigStore.Document.Order
import ConfigStore.Store.Action

/-!
# How many old revisions are kept

Every write leaves a snapshot beside the newest copy of a document. Snapshots beyond a bound are
deleted, the ones that come last in the order of listings.

* `Retention.snapshots` reads the snapshots of a document.
* `Retention.rotate` deletes those beyond the bound.
-/

namespace ConfigStore.Retention

/-- The snapshots of a document, in the order of their paths. Files that cannot be read as documents
are left out. -/
def snapshots (root : Path) (domain project id : String) : DiskAction (List Document) := do
  let files ← Files.filesBelow (Layout.documentDir root domain project id) (some Layout.newestName)
  return files.filterMap fun file => (Document.decode file.2).toOption

/-- Deletes snapshots until at most `max` are left, and gives the number of those deleted. Zero
keeps all. -/
def rotate (root : Path) (domain project id : String) (max : Nat) : DiskAction Nat := do
  if max = 0 then return 0
  let found ← (snapshots root domain project id).orIfMissing []
  let surplus := (byPriority found).drop max
  surplus.forM fun d =>
    (Files.delete (Layout.snapshot root domain project id d.updateRevision)).forgetful
  return surplus.length

end ConfigStore.Retention
