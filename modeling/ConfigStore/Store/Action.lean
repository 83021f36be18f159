import ConfigStore.Access
import ConfigStore.Cache
import ConfigStore.Files.Directory
import ConfigStore.Store.Names

/-!
# Actions of a store

A store is opened on a directory with a policy and a bound on old revisions. What its actions change
is the disk and, if there is one, the cache.

* `Store` is an opened store; `StoreState` is what its actions change.
* `StoreAction` is the type of actions; `StoreAction.onDisk` and `StoreAction.onCache` are actions
  on one of the two parts.
-/

namespace ConfigStore

/-- A store opened on a directory. -/
structure Store where
  /-- The directory of the store. -/
  root : Path
  /-- Who may do what. -/
  policy : Authorizer := .allowAll
  /-- How many revisions of a document are kept; zero stands for all. -/
  maxHistory : Nat := 100

/-- What the actions of a store change. -/
structure StoreState where
  /-- The disk. -/
  disk : Node
  /-- The cache; none if the store was opened without one. -/
  cache : Option Cache := none

/-- An action of a store. -/
abbrev StoreAction (α : Type) := EStateM Failure StoreState α

/-- Goes on if a check succeeds. -/
def require {α σ : Type} : Except Failure α → EStateM Failure σ α
  | .ok a => pure a
  | .error failure => throw failure

namespace DiskAction

variable {α : Type}

/-- Gives a default if something is missing on the disk. -/
def orIfMissing (default : α) (action : DiskAction α) : DiskAction α := fun disk =>
  match action disk with
  | .ok a disk => .ok a disk
  | .error failure disk =>
    if failure.isMissingOnDisk then .ok default disk else .error failure disk

/-- The disk after an action of which nobody asks whether it succeeded. -/
def attempt (action : DiskAction α) (disk : Node) : Node :=
  match action disk with
  | .ok _ disk => disk
  | .error _ disk => disk

end DiskAction

namespace StoreAction

variable {α : Type}

/-- An action on the disk alone. -/
def onDisk (action : DiskAction α) : StoreAction α := fun state =>
  match action state.disk with
  | .ok a disk => .ok a { state with disk }
  | .error failure disk => .error failure { state with disk }

/-- Changes the cache, if there is one. -/
def onCache (f : Cache → Cache) : StoreAction Unit :=
  modify fun state => { state with cache := state.cache.map f }

end StoreAction

end ConfigStore
