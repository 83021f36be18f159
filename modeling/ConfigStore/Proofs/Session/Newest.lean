import ConfigStore.Proofs.Session.Catalogue
import Mathlib.Data.List.Chain

/-!
# The newest copy and the revisions that were written

The newest copy of a document is the last that was written. An update has to be newer than the copy
that it changes; a document can be created anew with any revision.

* `Event.write?` and `Event.deleted` are the document that a step has written and the documents it
  has deleted, and `Step.Done.head?_eq` says what this does to newest copies.
* `writesSince` are the writes of a document since it was deleted last, and `Latest` says that a
  newest copy is the last of them.
* `Session.run_newest` says so of every run. As long as documents are not created over later ones,
  the newest copy has the greatest revision; `Session.create_earlier` creates one over a later one.
-/

namespace ConfigStore

open Node Disk Library

variable {domain project id : String} {max : Nat} {lib lib' : Library} {event : Event}

/-! ## Writes and deletions -/

/-- A write of a document. -/
structure Write where
  /-- The document was created, and not updated. -/
  creates : Bool
  /-- The document as it was written. -/
  document : Document

/-- The write that a step has answered. -/
def Event.write? : Event → Option Write
  | (.call (.create ..), .ok (.document d)) => some ⟨true, d⟩
  | (.call (.update ..), .ok (.document d)) => some ⟨false, d⟩
  | _ => none

/-- The documents that a step has answered as deleted. -/
def Event.deleted : Event → List Document
  | (.call (.deleteOne ..), .ok (.document d)) => [d]
  | (.call (.deleteMany ..), .ok (.deleted docs)) => docs
  | _ => []

theorem Library.head?_write_eq (lib : Library) (max : Nat) (d : Document)
    (domain project id : String) :
    (lib.write max d).head? domain project id =
      if d.isAt domain project id then some d else lib.head? domain project id := by
  rw [Library.head?, shelf?_write_eq]
  split <;> rfl

theorem Library.Valid.head?_clear_eq (h : lib.Valid) {domain' project' : String}
    {ids : List String} {gone : List Document}
    (hgone : ∀ d, d ∈ gone ↔ ∃ id ∈ ids, lib.head? domain' project' id = some d) :
    (lib.clear domain' project' ids).head? domain project id =
      if gone.any (·.isAt domain project id) then none else lib.head? domain project id := by
  rw [Library.head?, h.shelf?_clear_eq hgone]
  split <;> rfl

/-- After a step the newest copy of a place is the document that was written there; it is gone if it
was deleted, and otherwise it is what it was. -/
theorem Step.Done.head?_eq (hdone : Step.Done max lib event lib') (hvalid : lib.Valid)
    (domain project id : String) :
    lib'.head? domain project id =
      if event.deleted.any (·.isAt domain project id) then none
      else match event.write? with
        | some w =>
          if w.document.isAt domain project id then some w.document
          else lib.head? domain project id
        | none => lib.head? domain project id := by
  obtain ⟨step, result⟩ := event
  cases step with
  | reopen settings policy => exact congrArg (·.head? domain project id) hdone
  | call request =>
    cases request with
    | create caller d =>
      cases result with
      | ok answer =>
        obtain ⟨rfl, rfl⟩ := hdone
        exact head?_write_eq ..
      | error failure => exact congrArg (·.head? domain project id) hdone
    | update caller d =>
      cases result with
      | ok answer =>
        obtain ⟨old, -, -, rfl, rfl⟩ := hdone
        exact head?_write_eq ..
      | error failure => exact congrArg (·.head? domain project id) hdone
    | deleteOne caller domain' project' id' =>
      cases result with
      | ok answer =>
        obtain ⟨d, rfl, hhead, rfl⟩ := hdone
        exact hvalid.head?_clear_eq fun e => Catalogue.Mirrors.mem_head_iff hhead
      | error failure => exact congrArg (·.head? domain project id) hdone
    | deleteMany caller domain' project' ids =>
      cases result with
      | ok answer =>
        obtain ⟨gone, rfl, hheads, rfl⟩ := hdone
        exact hvalid.head?_clear_eq fun d => Catalogue.Mirrors.mem_heads_iff hheads
      | error failure => exact congrArg (·.head? domain project id) hdone
    | addHistory d =>
      have htrimmed : Trimmed max lib lib' := hdone
      exact htrimmed.head?_eq domain project id
    | advance counter =>
      obtain ⟨n, -, rfl⟩ | rfl := hdone <;> rfl
    | _ => exact congrArg (·.head? domain project id) hdone

/-- A write that is answered is on its shelf. -/
theorem Step.Done.written (hdone : Step.Done max lib event lib') {w : Write}
    (hw : event.write? = some w) : lib' = lib.write max w.document := by
  obtain ⟨step, result⟩ := event
  unfold Event.write? at hw
  split at hw
  next heq =>
    cases hw
    cases heq
    obtain ⟨hanswer, hlib⟩ := hdone
    cases hanswer
    exact hlib
  next heq =>
    cases hw
    cases heq
    obtain ⟨old, -, -, hanswer, hlib⟩ := hdone
    cases hanswer
    exact hlib
  · cases hw

/-- An update that is answered is newer than the copy that it has changed. -/
theorem Step.Done.newer (hdone : Step.Done max lib event lib') (hvalid : lib.Valid) {w : Write}
    (hw : event.write? = some w) (hupdate : w.creates = false) :
    ∃ old, lib.head? w.document.domain w.document.project w.document.id = some old ∧
      old.updateRevision < w.document.updateRevision := by
  obtain ⟨step, result⟩ := event
  unfold Event.write? at hw
  split at hw
  · cases hw
    cases hupdate
  next heq =>
    cases hw
    cases heq
    obtain ⟨old, hhead, hnewer, hanswer, -⟩ := hdone
    cases hanswer
    obtain ⟨hdomain, hproject, hid⟩ := hvalid.place hhead
    rw [← hdomain, ← hproject, ← hid] at hhead
    have hlt := Store.lt_of_checkNewer hnewer
    exact ⟨old, hhead, hlt⟩
  · cases hw

/-! ## The writes of one document -/

/-- The writes of a document since it was deleted last, the newest first, after one more step. -/
def writesAfter (domain project id : String) (writes : List Write) (event : Event) : List Write :=
  if event.deleted.any (·.isAt domain project id) then []
  else match event.write? with
    | some w => if w.document.isAt domain project id then w :: writes else writes
    | none => writes

/-- The writes of a document since it was deleted last, the newest first. -/
def writesSince (trace : List Event) (domain project id : String) : List Write :=
  trace.foldl (writesAfter domain project id) []

/-- An update that follows a write is newer. -/
def Write.Follows (w before : Write) : Prop :=
  w.creates = false → before.document.updateRevision < w.document.updateRevision

/-- The revision of a write is not earlier than that of another one. -/
def Write.NoEarlier (w before : Write) : Prop :=
  before.document.updateRevision ≤ w.document.updateRevision

instance : Trans Write.NoEarlier Write.NoEarlier Write.NoEarlier :=
  ⟨fun h h' => Int64.le_trans h' h⟩

/-- A document that is created after a write is not of an earlier revision. -/
def Write.CreatesNoEarlier (w before : Write) : Prop := w.creates = true → w.NoEarlier before

/-- If documents are not created with earlier revisions either, revisions never go down. -/
theorem pairwise_of_createsNoEarlier {writes : List Write} (h : writes.IsChain Write.Follows)
    (hcreates : writes.IsChain Write.CreatesNoEarlier) : writes.Pairwise Write.NoEarlier := by
  refine List.IsChain.pairwise ?_
  induction writes with
  | nil => exact .nil
  | cons w writes ih =>
    rw [List.isChain_cons] at h hcreates ⊢
    refine ⟨fun before hbefore => ?_, ih h.2 hcreates.2⟩
    cases hw : w.creates with
    | true => exact hcreates.1 before hbefore hw
    | false => exact Int64.le_of_lt (h.1 before hbefore hw)

/-- A newest copy is the last of some writes, and updates among them are newer than the write
before. -/
structure Latest (head? : Option Document) (writes : List Write) : Prop where
  head : writes.head?.map (·.document) = head?
  chain : writes.IsChain Write.Follows

/-- Every step records what it does to the newest copy of a place. -/
theorem Latest.after {writes : List Write} (h : Latest (lib.head? domain project id) writes)
    (hvalid : lib.Valid) (hdone : Step.Done max lib event lib') :
    Latest (lib'.head? domain project id) (writesAfter domain project id writes event) := by
  rw [hdone.head?_eq hvalid, writesAfter]
  split
  · exact ⟨rfl, .nil⟩
  · split
    next w hw =>
      split
      next hat =>
        obtain ⟨rfl, rfl, rfl⟩ := Catalogue.isAt_eq_true_iff.mp hat
        refine ⟨rfl, List.isChain_cons.mpr ⟨fun before hbefore hupdate => ?_, h.chain⟩⟩
        obtain ⟨old, hhead, hnewer⟩ := hdone.newer hvalid hw hupdate
        rw [← h.head, Option.mem_def.mp hbefore, Option.map_some, Option.some.injEq] at hhead
        rw [hhead]
        exact hnewer
      · exact h
    · exact h

/-! ## Runs -/

namespace Session

variable {session : Session} {root : Path} {base : Place}

/-- At the end of a run every newest copy is the last write. -/
theorem run_latest (h : session.Stocked root base lib) {writes : List Write}
    (hwrites : Latest (lib.head? domain project id) writes) {steps : List Step}
    (hsteps : ∀ step ∈ steps, step.Accepted root) :
    ∃ lib', (session.run steps).2.Stocked root base lib' ∧
      Latest (lib'.head? domain project id)
        ((session.run steps).1.foldl (writesAfter domain project id) writes) := by
  induction steps generalizing session lib writes with
  | nil => exact ⟨lib, h, hwrites⟩
  | cons step steps ih =>
    obtain ⟨hstep, hsteps⟩ := List.forall_mem_cons.mp hsteps
    obtain ⟨result, next, lib₁, hnext, hstocked, hdone, -⟩ := step_stocked h hstep
    rw [run_cons hnext]
    exact ih hstocked (hwrites.after h.ready.kept.valid hdone) hsteps

/-- **The newest copy of a document is the last that was written**, and an update is newer than the
write before it. As long as the document is not created with a revision that is earlier than that of
the write before, its newest copy has the greatest revision that was written since the document was
deleted last, and the revisions of newest copies never go down. -/
theorem run_newest {settings : Settings} (hfresh : session.Fresh settings) {steps : List Step}
    (hsteps : ∀ step ∈ steps, step.Accepted settings.root) {caller : Caller}
    (hauth : caller.authEnabled = false) (domain project id : String) :
    let writes := writesSince (session.run steps).1 domain project id
    (∀ d, ((session.run steps).2.call (.get caller domain project id)).1 = .ok (.document d) ↔
        writes.head?.map (·.document) = some d) ∧
      writes.IsChain Write.Follows ∧
      (writes.IsChain Write.CreatesNoEarlier → writes.Pairwise Write.NoEarlier) := by
  intro writes
  obtain ⟨base, hsound⟩ := hfresh.sound
  have hstart : Latest (Library.empty.head? domain project id) [] := ⟨rfl, .nil⟩
  obtain ⟨lib, hlast, hlatest⟩ := run_latest hsound.toStocked hstart hsteps
  refine ⟨fun d => ?_, hlatest.chain, pairwise_of_createsNoEarlier hlatest.chain⟩
  rw [hlast.get_eq_ok_iff hauth, ← hlatest.head]
  rfl

theorem run_newest_sample :
    let writes := writesSince (sample.run sampleSteps).1 "shop" "web" "timeout"
    Caller.anonymous.authEnabled = false ∧
      (∀ d, ((sample.run sampleSteps).2.call (.get .anonymous "shop" "web" "timeout")).1
          = .ok (.document d) ↔ writes.head?.map (·.document) = some d) ∧
      writes.IsChain Write.Follows := by
  have hsteps : ∀ step ∈ sampleSteps, step.Accepted sampleSettings.root := by
    simp only [sampleSteps, List.forall_mem_cons, List.not_mem_nil, false_implies, implies_true,
      and_true, Step.Accepted, Request.CountsDomain]
  have hauth : Caller.anonymous.authEnabled = false := rfl
  obtain ⟨hget, hchain, -⟩ := run_newest sample_fresh hsteps hauth "shop" "web" "timeout"
  exact ⟨hauth, hget, hchain⟩

/-- A document is created again with an earlier revision, and its newest copy is that of the earlier
revision. -/
theorem create_earlier :
    let later : Document := { sampleDocument with updateRevision := 5 }
    let earlier : Document := { sampleDocument with updateRevision := 3 }
    let run := sample.run [.call (.create .anonymous later), .call (.create .anonymous earlier)]
    run.1.map Prod.snd = [.ok (.document later), .ok (.document earlier)] ∧
      (run.2.call (.get .anonymous "shop" "web" "timeout")).1 = .ok (.document earlier) ∧
      earlier.updateRevision < later.updateRevision := by
  intro later earlier run
  obtain ⟨base, hsound⟩ := sample_fresh.sound
  have hstore : Storable "shop" "web" "timeout" := .of_fits rfl rfl (by decide)
  obtain ⟨state, hlater, hsound, -⟩ := call_create hsound .anonymous (d := later) hstore rfl
  obtain ⟨state', hearlier, hsound, -⟩ := call_create hsound .anonymous (d := earlier) hstore rfl
  have hrun : run = _ := (run_call_cons hlater _).trans (by rw [run_call_cons hearlier])
  rw [hrun]
  refine ⟨rfl, ?_, by decide⟩
  exact congrArg Prod.fst (call_get hsound .anonymous hstore (Library.head?_write ..) rfl)

end Session

end ConfigStore
