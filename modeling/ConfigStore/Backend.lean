import ConfigStore.Settings
import ConfigStore.Store.Action

/-!
# Backends

A store is opened by a backend that the settings name. The file store is registered under three
names.

* `openLocal` opens the file store.
* `Registry` maps names to backends; `Registry.openNamed` opens the one that the settings name.
-/

namespace ConfigStore

/-- A store as it is opened: the store, and its empty cache if it has one. -/
structure Opened where
  /-- The store. -/
  store : Store
  /-- The cache. -/
  cache : Option Cache

/-- Opens a store with the given settings and policy. -/
abbrev Backend := Settings → Authorizer → DiskAction Opened

/-- The file store. Its directory is created if need be. -/
def openLocal : Backend := fun settings policy => do
  Files.ensureDir settings.root
  return {
    store := { root := settings.root, policy, maxHistory := settings.maxHistory }
    cache := if settings.cache.enabled then some { ttl := settings.cache.ttlSecs } else none }

/-- Backends by name. -/
structure Registry where
  /-- The backends. -/
  backends : Dict Backend := .empty

namespace Registry

/-- The names of the file store. -/
def localNames : List String :=
  ["local", "etcd_with_localstorage", "embedded_etcd_with_localstorage"]

/-- Registers a backend, in place of any of the same name. -/
def register (r : Registry) (name : String) (backend : Backend) : Registry :=
  ⟨r.backends.insert name backend⟩

/-- The registry that knows the file store. -/
def builtin : Registry := localNames.foldl (fun r name => r.register name openLocal) {}

/-- The registered names in ascending order. -/
def names (r : Registry) : List String := r.backends.keys

/-- Opens the backend that the settings name. -/
def openNamed (r : Registry) (settings : Settings) (policy : Authorizer) : DiskAction Opened :=
  match r.backends.get? settings.kind with
  | some backend => backend settings policy
  | none => throw (.unknownBackend settings.kind r.names)

end Registry

end ConfigStore
