import ConfigStore.Disk.Path
import ConfigStore.Document.Format
import ConfigStore.Failure

/-!
# Settings

Where a store keeps its files, which backend opens it, how many old revisions it keeps, and how its
cache behaves.

* `Settings` and `CacheSettings` are the types; their defaults are the defaults of the store.
* `Settings.ofEnvironment` takes settings from named texts.
* `Settings.toJson` and `Settings.decode` write and read settings.
-/

namespace ConfigStore

open Json

/-- How the cache behaves. -/
structure CacheSettings where
  /-- Whether there is a cache. -/
  enabled : Bool := true
  /-- The lifetime of a copy in seconds. -/
  ttlSecs : Nat := 600
  /-- The seconds between two sweeps. -/
  sweepIntervalSecs : Nat := 660
  /-- The seconds between two refreshes. -/
  refreshBackoffSecs : Nat := 5
  deriving DecidableEq, Inhabited

/-- The settings of a store. -/
structure Settings where
  /-- The name of the backend. -/
  kind : String := "local"
  /-- The directory of the store. -/
  root : Path := .ofText "/data/kvs"
  /-- How many revisions of a document are kept; zero stands for all. -/
  maxHistory : Nat := 100
  /-- How the cache behaves. -/
  cache : CacheSettings := {}
  deriving DecidableEq, Inhabited

namespace CacheSettings

/-- No cache. -/
def disabled : CacheSettings := { enabled := false }

/-- The seconds between two sweeps, at least one. -/
def sweepInterval (s : CacheSettings) : Nat := max s.sweepIntervalSecs 1

/-- The seconds between two refreshes, at least one. -/
def refreshBackoff (s : CacheSettings) : Nat := max s.refreshBackoffSecs 1

/-- The settings as a JSON object. -/
def toJson (s : CacheSettings) : Value :=
  .object [
    ("enabled", .bool s.enabled),
    ("ttl_secs", .int s.ttlSecs),
    ("sweep_interval_secs", .int s.sweepIntervalSecs),
    ("refresh_backoff_secs", .int s.refreshBackoffSecs)]

/-- The fields of the settings. -/
def fields : List (RecordField CacheSettings) := [
  .mandatory "enabled" Reader.truth fun x s => { s with enabled := x },
  .mandatory "ttl_secs" (Reader.natural (UInt64.size - 1)) fun x s => { s with ttlSecs := x },
  .mandatory "sweep_interval_secs" (Reader.natural (UInt64.size - 1))
    fun x s => { s with sweepIntervalSecs := x },
  .mandatory "refresh_backoff_secs" (Reader.natural (UInt64.size - 1))
    fun x s => { s with refreshBackoffSecs := x }]

/-- Reads settings. -/
def reader : Reader CacheSettings := Reader.record fields {}

/-- Reads settings from bytes. -/
def decode (bytes : Bytes) : Except Fault CacheSettings := reader.run bytes

end CacheSettings

namespace Settings

/-- The default settings with a directory of their own. -/
def atRoot (root : Path) : Settings := { root }

/-- The settings as a JSON object. -/
def toJson (s : Settings) : Value :=
  .object [
    ("kind", .string s.kind),
    ("root", .string s.root.toText),
    ("max_history", .int s.maxHistory),
    ("cache", s.cache.toJson)]

/-- The fields of the settings. -/
def fields : List (RecordField Settings) := [
  .mandatory "kind" Reader.text fun x s => { s with kind := x },
  .mandatory "root" Reader.text fun x s => { s with root := .ofText x },
  .mandatory "max_history" (Reader.natural (UInt64.size - 1)) fun x s => { s with maxHistory := x },
  .optional "cache" CacheSettings.reader fun x s => { s with cache := x }]

/-- Reads settings from bytes. -/
def decode (bytes : Bytes) : Except Fault Settings := (Reader.record fields {}).run bytes

/-- Takes settings from the variables of an environment; a variable that is not set leaves the
default. -/
def ofEnvironment (env : String → Option String) : Except Failure Settings := do
  let defaults : Settings := {}
  let maxHistory ← match env "KIE_MAX_HISTORY" with
    | none => .ok defaults.maxHistory
    | some text =>
      match Numeral.natural? (UInt64.size - 1) text with
      | .ok n => .ok n
      | .error flaw => .error (.settingNotANumber "KIE_MAX_HISTORY" flaw)
  let enabled ← match env "KIE_CACHE_ENABLED" with
    | none => .ok defaults.cache.enabled
    | some text =>
      match Numeral.truth? text with
      | some b => .ok b
      | none => .error (.settingNotATruthValue "KIE_CACHE_ENABLED")
  return {
    kind := (env "KIE_DATASOURCE").getD defaults.kind
    root := ((env "KIE_STORAGE_PATH").map .ofText).getD defaults.root
    maxHistory
    cache := { defaults.cache with enabled } }

end Settings

end ConfigStore
