import ConfigStore.Document.Identifier
import ConfigStore.Query.Expression
import ConfigStore.Session
import ConfigStore.Proofs.Disk.Revising
import ConfigStore.Proofs.Disk.Extending
import ConfigStore.Proofs.Disk.Following
import ConfigStore.Proofs.Disk.Operation
import ConfigStore.Proofs.Disk.Overlooking
import ConfigStore.Proofs.Files.Moving
import ConfigStore.Proofs.Files.Cleaning
import ConfigStore.Proofs.Files.Restoring
import ConfigStore.Proofs.Files.Site
import ConfigStore.Proofs.Files.Concurring
import ConfigStore.Proofs.Store.Naming
import ConfigStore.Proofs.Store.Staging
import ConfigStore.Proofs.Store.Deletion
import ConfigStore.Proofs.Store.Atomicity
import ConfigStore.Proofs.Json.Numbers
import ConfigStore.Proofs.Json.Values
import ConfigStore.Proofs.Document.RoundTrip
import ConfigStore.Proofs.Document.Ordering
import ConfigStore.Proofs.Files.Writing
import ConfigStore.Proofs.Library.Shelf
import ConfigStore.Proofs.Library.Holding
import ConfigStore.Proofs.Library.Rotating
import ConfigStore.Proofs.Library.Deleting
import ConfigStore.Proofs.Cache.Copies
import ConfigStore.Proofs.Library.Caching
import ConfigStore.Proofs.Library.Serving
import ConfigStore.Proofs.Session.Runs
import ConfigStore.Proofs.Session.Catalogue
import ConfigStore.Proofs.Session.Listing
import ConfigStore.Proofs.Session.History
import ConfigStore.Proofs.Session.Newest
import ConfigStore.Proofs.Session.Retention
import ConfigStore.Proofs.Library.Refusing
import ConfigStore.Proofs.Library.Counting
import ConfigStore.Proofs.Library.Copying
import ConfigStore.Proofs.Library.Settling
import ConfigStore.Proofs.Session.LateScans
import ConfigStore.Proofs.Session.Lookup
import ConfigStore.Proofs.Session.Scopes
import ConfigStore.Proofs.Session.Permission
import ConfigStore.Proofs.Store.Displacing
import ConfigStore.Proofs.Store.Persisting
import ConfigStore.Proofs.Store.Comparing
import ConfigStore.Proofs.Session.Confinement
import ConfigStore.Proofs.Session.FailedWrites
import ConfigStore.Proofs.Text.Numbers
import ConfigStore.Proofs.Session.Patterns
import ConfigStore.Proofs.Session.Hiding
import ConfigStore.Proofs.Store.Scanning
import ConfigStore.Proofs.Session.Relisting
import ConfigStore.Proofs.Store.Fencing
import ConfigStore.Proofs.Session.Fences
import ConfigStore.Proofs.Session.Counters
import ConfigStore.Proofs.Json.Nesting
import ConfigStore.Proofs.Json.Filling
import ConfigStore.Proofs.Polling.RoundTrip
import ConfigStore.Proofs.Session.Coexisting
import ConfigStore.Proofs.Store.Coinciding
import ConfigStore.Proofs.Session.Advancing
import ConfigStore.Proofs.Files.Walking
import ConfigStore.Proofs.Polling.Filing
import ConfigStore.Proofs.Session.Polling
import ConfigStore.Proofs.Cache.Calls
import ConfigStore.Proofs.Files.Replaying
import ConfigStore.Proofs.Files.Carrying
import ConfigStore.Proofs.Query.Matching
import ConfigStore.Proofs.Session.KeyQueries
import ConfigStore.Proofs.Store.Trimming
import ConfigStore.Proofs.Cache.Markers
import ConfigStore.Proofs.Cache.Sweeping
import ConfigStore.Proofs.Session.Lineage
import ConfigStore.Proofs.Query.Labelling
import ConfigStore.Proofs.Document.Paging
import ConfigStore.Proofs.Files.Gathering
import ConfigStore.Proofs.Json.Tokens
import ConfigStore.Proofs.Json.Spelling
import ConfigStore.Proofs.Json.Arranging
import ConfigStore.Proofs.Json.Restating
import ConfigStore.Proofs.Document.Restating
import ConfigStore.Proofs.Locks.Nested
