import ConfigStore.Proofs.Session.Permission
import ConfigStore.Proofs.Store.Fencing

/-!
# Runs within a fence

A run that changes only what a fence leaves free keeps the fence, however long it is.

* `Request.Within` says which requests change only what a fence leaves free, and
  `Store.answer_fenced` that these keep it.
* `Session.Enclosed` is the invariant: what a session keeps is a library, in a tree within a fence.
  `Session.Fresh.enclosed` and `Session.step_enclosed` establish and preserve it.
-/

namespace ConfigStore

open Node Disk Deletion Library

/-! ## Requests -/

/-- The request changes only what a fence leaves free. -/
def Request.Within (fence : Fence) : Request → Prop
  | .create _ d => Names.checkScope d.domain d.project = .ok () →
      Free fence (home d.domain d.project d.id)
  | .update _ d => Names.checkScope d.domain d.project = .ok () →
      Free fence (home d.domain d.project d.id) ∨ Shut fence (home d.domain d.project d.id)
  | .deleteOne _ domain project id => Names.checkScope domain project = .ok () →
      (Free fence (home domain project id) ∨ Shut fence (home domain project id)) ∧
        Free fence (aside domain project id)
  | .deleteMany _ domain project _ => Names.checkScope domain project = .ok () → ∀ id,
      (Free fence (home domain project id) ∨ Shut fence (home domain project id)) ∧
        Free fence (aside domain project id)
  | .addHistory _ => Lax fence
  | .advance domain => Names.isPlain domain = true ∧ (∀ q, q <+: [domain] → fence q (some .dir)) ∧
      ∀ content, fence [domain, Layout.counterName] (some (.file content))
  | .putPolling record =>
      (∀ q, q <+: [Layout.trackName, record.domain, record.project,
        PollingLog.revisionName record] → fence q (some .dir)) ∧
      fence [Layout.trackName, record.domain, record.project, PollingLog.revisionName record,
        record.sessionId ++ ".json"] (some (.file record.encode))
  | _ => True

/-- A request that changes only what a fence leaves free keeps the fence. -/
theorem Store.answer_fenced {s : Store} {base : Place} {lib : Library} {state : StoreState}
    {fence : Fence} (h : s.Ready base lib state) (hfenced : Fenced fence s.root base state.disk)
    {request : Request} (hwithin : request.Within fence) :
    EndsIn (fun state => Fenced fence s.root base state.disk) (s.answer request) state := by
  cases request with
  | create caller d =>
    have hkeeps : Keeps (fun state : StoreState => Fenced fence s.root base state.disk)
        (s.create caller d) := Fenced.keeps_create caller fun hscope _ => hwithin hscope
    exact (hkeeps.outcome state hfenced).map _
  | update caller d =>
    exact (Fenced.endsIn_update hfenced caller (fun hscope _ => hwithin hscope)
      fun stored hscope hid hread =>
        h.kept.valid.place (h.kept.head?_of_read hscope hid hread)).map _
  | deleteOne caller domain project id =>
    exact ((Deletion.keeps_deleteOne fun hscope hid =>
      Fenced.stages s base caller (hwithin hscope).1 (hwithin hscope).2 hscope hid).outcome state
        hfenced).map _
  | deleteMany caller domain project ids =>
    exact ((Deletion.keeps_deleteMany fun id hscope hid =>
      Fenced.stages s base caller (hwithin hscope id).1 (hwithin hscope id).2 hscope hid).outcome
        state hfenced).map _
  | addHistory d =>
    have hrotate : Keeps (Fenced fence s.root base)
        (Retention.rotate s.root d.domain d.project d.id s.maxHistory) :=
      Fenced.keeps_rotate hwithin _
    exact ((hrotate.onDisk.bind fun _ => .of_looks (.pure _)).outcome state hfenced).map _
  | advance domain =>
    have hadvance : Keeps (Fenced fence s.root base) (Counter.advance s.root domain) :=
      Fenced.keeps_advance hwithin.1 hwithin.2.1 hwithin.2.2
    exact (hadvance.onDisk.outcome state hfenced).map _
  | putPolling record =>
    have hput : Keeps (Fenced fence s.root base) (PollingLog.put s.root record) :=
      Fenced.keeps_putPolling record hwithin.1 hwithin.2
    exact (hput.onDisk.outcome state hfenced).map _
  | _ => exact (keeps_read s (by trivial)).outcome state hfenced

/-- The step changes only what a fence leaves free. -/
def Step.Within (fence : Fence) : Step → Prop
  | .call request => request.Within fence
  | .reopen .. => True

namespace Session

/-- What a session keeps is a library, and everything in its tree stands where a fence allows it. -/
structure Enclosed (fence : Fence) (root : Path) (base : Place) (lib : Library)
    (session : Session) : Prop extends session.Stocked root base lib where
  fenced : Fenced fence root base session.state.disk

variable {fence : Fence} {session : Session} {settings : Settings} {root : Path} {base : Place}
  {lib : Library} {step : Step} {steps : List Step}

/-- At the start of a run there is nothing, so a fence holds that allows nothing everywhere, and a
directory at the root. -/
theorem Fresh.enclosed (h : session.Fresh settings) (hroot : fence [] (some .dir))
    (hnone : ∀ name q, fence (name :: q) none) :
    ∃ base, session.Enclosed fence settings.root base .empty := by
  obtain ⟨heq, -, base, hgrounded, hbelow⟩ := h.grounded
  obtain ⟨base', hsound⟩ := h.sound
  have hleads := hsound.ready.kept.grounded.leads
  rw [heq] at hleads
  obtain rfl : base' = base := Except.ok.inj (hleads.symm.trans hgrounded.leads)
  refine ⟨base', hsound.toStocked, ⟨hgrounded, fun q n hn => ?_⟩, fun q => ?_⟩
  · rw [List.append_assoc] at hn
    cases q <;> exact absurd (hbelow ..) hn
  · cases q with
    | nil => rwa [List.append_nil, hgrounded.isDir]
    | cons n q =>
      rw [hbelow]
      exact hnone n q

/-- A step that changes only what a fence leaves free keeps the invariant. -/
theorem step_enclosed (h : session.Enclosed fence root base lib) (hs : step.Accepted root)
    (hwithin : step.Within fence) :
    ∃ result next lib', session.step step = (result, next) ∧ next.Enclosed fence root base lib' ∧
      Step.Done session.store.maxHistory lib (step, result) lib' := by
  obtain ⟨result, next, lib', hnext, hstocked, hdone, -⟩ := step_stocked h.toStocked hs
  refine ⟨result, next, lib', hnext, ⟨hstocked, ?_⟩, hdone⟩
  obtain rfl : (session.step step).2 = next := congrArg Prod.snd hnext
  have hfenced := h.fenced
  rw [← h.root_eq] at hfenced ⊢
  cases step with
  | call request => exact disk_call_of_endsIn (Store.answer_fenced h.ready hfenced hwithin)
  | reopen settings policy =>
    have hready := h.ready
    have hdirs : makeDirs settings.root session.state.disk = (.ok (), session.state.disk) := by
      rw [show settings.root = session.store.root from hs.trans h.root_eq.symm]
      exact makeDirs_of_leads hready.kept.grounded.leads hready.room.text
        hready.kept.grounded.isDir
    rw [Session.step, reopen, start_eq, hdirs]
    exact hfenced

end Session

end ConfigStore
