import ConfigStore.Dict

/-!
# Locks by name

A lock table has an entry for every name that was locked and not forgotten since. Each entry counts
how many hold it. An entry that is held cannot be forgotten.

The uses here are those of one caller. Nobody else gives back a lock that it waits for, so a caller
that takes a lock which it holds already never goes on, and there is no result.

* `LockTable.withLock` and `LockTable.withLocks` run a step while holding locks.
* `LockTable.forget` takes out an entry that nobody holds.
* `LockStep` and `LockTable.run` describe and run nested uses of a table.
-/

namespace ConfigStore

/-- The locks in use, with the number of their holders. -/
structure LockTable where
  /-- How many hold the lock of a name. -/
  holders : Dict Nat := .empty
  deriving DecidableEq

namespace LockTable

variable {α : Type}

/-- How many hold a lock. -/
def held (t : LockTable) (key : String) : Nat := (t.holders.get? key).getD 0

/-- Takes a lock; a lock that has no entry gets one. -/
def acquire (t : LockTable) (key : String) : LockTable := ⟨t.holders.insert key (t.held key + 1)⟩

/-- Gives a lock back; its entry stays. -/
def release (t : LockTable) (key : String) : LockTable :=
  match t.holders.get? key with
  | some count => ⟨t.holders.insert key (count - 1)⟩
  | none => t

/-- Takes out the entry of a lock that nobody holds. -/
def forget (t : LockTable) (key : String) : LockTable :=
  if t.held key = 0 then ⟨t.holders.erase key⟩ else t

/-- The number of entries. -/
def size (t : LockTable) : Nat := t.holders.size

/-- Whether there is no entry. -/
def isEmpty (t : LockTable) : Bool := t.holders.isEmpty

/-- Runs a step while holding a lock; there is no result if the lock is held. -/
def withLock (key : String) (step : LockTable → Option (α × LockTable)) (t : LockTable) :
    Option (α × LockTable) :=
  if t.held key = 0 then do
    let (result, t) ← step (t.acquire key)
    return (result, t.release key)
  else none

/-- Runs a step while holding locks, taken in the order of the list. -/
def withEach : List String → (LockTable → Option (α × LockTable)) → LockTable →
    Option (α × LockTable)
  | [], step => step
  | key :: keys, step => withLock key (withEach keys step)

/-- The distinct names of a list in ascending order. -/
def distinct (keys : List String) : List String := (Dict.ofList (keys.map (·, ()))).keys

/-- Runs a step while holding the lock of every name. The locks are taken in ascending order, each
of them once. -/
def withLocks (keys : List String) (step : LockTable → Option (α × LockTable)) :
    LockTable → Option (α × LockTable) :=
  withEach (distinct keys) step

end LockTable

/-! ## Nested uses -/

/-- A step in the use of a lock table. -/
inductive LockStep
  /-- Hold a lock during some steps. -/
  | withLock (key : String) (steps : List LockStep)
  /-- Hold several locks during some steps. -/
  | withLocks (keys : List String) (steps : List LockStep)
  /-- Forget a lock. -/
  | forget (key : String)
  /-- Look at the table. -/
  | look

/-- What is seen of a step: the size of the table after it, and what was seen inside. -/
inductive LockReport
  | inside (reports : List LockReport) (size : Nat)
  | size (size : Nat)

namespace LockTable

mutual

/-- Runs a step. -/
def runStep : LockStep → LockTable → Option (LockReport × LockTable)
  | .withLock key steps, t => do
    let (reports, t) ← withLock key (run steps) t
    return (.inside reports t.size, t)
  | .withLocks keys steps, t => do
    let (reports, t) ← withLocks keys (run steps) t
    return (.inside reports t.size, t)
  | .forget key, t => some (.size (t.forget key).size, t.forget key)
  | .look, t => some (.size t.size, t)

/-- Runs steps one after the other. -/
def run : List LockStep → LockTable → Option (List LockReport × LockTable)
  | [], t => some ([], t)
  | step :: steps, t => do
    let (report, t) ← runStep step t
    let (reports, t) ← run steps t
    return (report :: reports, t)

end

end LockTable

end ConfigStore
