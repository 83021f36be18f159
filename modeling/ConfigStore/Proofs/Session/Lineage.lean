import ConfigStore.Proofs.Session.Confinement
import ConfigStore.Proofs.Session.Retention

/-!
# What a document takes from its creation and from its updates

An update is merged with what is stored, and the next update with the result of that. So each field
of a document goes back to the creation or to one of the updates since: names, key and labels to the
creation, most of the rest to the last update. The value type and the label format are the last ones
that were given at all. The value is that of the last update, given or not.

* `Lineage` is a creation with the updates that were accepted since, and `Lineage.Yields` says what
  a document has from them.
* `Lineage.Yields.update` is one more update, and `Lineage.Yields.value_eq_given_iff` says when the
  value too is the last one that was given.
* `lineage` reads a lineage off the answers of a run, and `Shelf.Descends` says that the newest copy
  comes from it, and every snapshot from the part of it that there was at its revision.
* `Session.run_lineage` says so of every run; in `Session.update_empties` an update without a value
  takes away the value that was given.
-/

namespace ConfigStore

open Node Disk Library

/-- A document that was created, and the updates that were accepted since. -/
structure Lineage where
  /-- Nothing was stored where the document was created. -/
  fresh : Bool
  /-- The document as it was created. -/
  created : Document
  /-- The updates as they were requested, the last first. -/
  updates : List Document

variable {domain project id : String} {max : Nat} {d u : Document} {lib lib' : Library}
  {shelf : Shelf}

namespace Lineage

variable {l : Lineage} {field : Document → String}

/-! ## Definitions -/

/-- Everything that was given, the last first. -/
def supplied (l : Lineage) : List Document := l.updates ++ [l.created]

/-- What was given last. -/
def last (l : Lineage) : Document := l.updates.headD l.created

/-- The last text that was given for a field and is not empty. -/
def given (l : Lineage) (field : Document → String) : String :=
  ((l.supplied.map field).find? (· ≠ "")).getD ""

/-- The lineage with one more update. -/
def update (l : Lineage) (u : Document) : Lineage := { l with updates := u :: l.updates }

/-- The lineage as it was at a revision. -/
def upTo (l : Lineage) (revision : Int64) : Lineage :=
  { l with updates := l.updates.filter (·.updateRevision ≤ revision) }

/-- No value has been taken away: the last value is empty only if none was given. -/
def KeepsValue (l : Lineage) : Prop := l.last.value = "" → ∀ u ∈ l.supplied, u.value = ""

/-- Where the fields of a document come from. -/
structure Yields (l : Lineage) (d : Document) : Prop where
  key : d.key = l.created.key
  labels : d.labels = l.created.labels
  id : d.id = l.created.id
  domain : d.domain = l.created.domain
  project : d.project = l.created.project
  createRevision : d.createRevision = l.created.createRevision
  createTime : d.createTime = l.created.createTime
  valueType : d.valueType = l.given (·.valueType)
  labelFormat : d.labelFormat = l.given (·.labelFormat)
  value : d.value = l.last.value
  status : d.status = l.last.status
  checker : d.checker = l.last.checker
  updateTime : d.updateTime = l.last.updateTime
  updateRevision : d.updateRevision = l.last.updateRevision

/-! ## What was given last -/

theorem supplied_eq_cons (l : Lineage) : ∃ before, l.supplied = l.last :: before := by
  obtain ⟨fresh, created, updates⟩ := l
  cases updates with
  | nil => exact ⟨[], rfl⟩
  | cons u updates => exact ⟨updates ++ [created], rfl⟩

/-- What is given last counts unless it is empty. -/
theorem given_of_supplied {before : List Document} (h : l.supplied = u :: before) :
    l.given field =
      if field u = "" then ((before.map field).find? (· ≠ "")).getD "" else field u := by
  rw [given, h, List.map_cons, List.find?_cons]
  split
  next hne => rw [if_neg (of_decide_eq_true hne), Option.getD_some]
  next heq => rw [if_pos (of_not_not (of_decide_eq_false heq))]

theorem given_created (fresh : Bool) (d : Document) (field : Document → String) :
    (⟨fresh, d, []⟩ : Lineage).given field = field d := by
  have hsupplied : supplied ⟨fresh, d, []⟩ = [d] := rfl
  rw [given_of_supplied hsupplied]
  split
  next hempty => exact hempty.symm
  · rfl

theorem given_update (l : Lineage) (u : Document) (field : Document → String) :
    (l.update u).given field = if field u = "" then l.given field else field u :=
  given_of_supplied rfl

/-- Nothing is given if everything that is given is empty. -/
theorem given_eq_empty_iff : l.given field = "" ↔ ∀ u ∈ l.supplied, field u = "" := by
  rw [given]
  constructor
  · intro hempty u hu
    by_contra hne
    cases hfind : (l.supplied.map field).find? (· ≠ "") with
    | none =>
      exact List.find?_eq_none.mp hfind _ (List.mem_map_of_mem hu) (decide_eq_true hne)
    | some text =>
      rw [hfind, Option.getD_some] at hempty
      have hne : decide (text ≠ "") = true := List.find?_some (p := (· ≠ "")) hfind
      exact of_decide_eq_true hne hempty
  · intro hall
    have hnone : (l.supplied.map field).find? (· ≠ "") = none := by
      refine List.find?_eq_none.mpr (List.forall_mem_map.mpr fun u hu => ?_)
      rw [hall u hu]
      decide
    rw [hnone, Option.getD_none]

/-- What was given last is the last text that is not empty, unless it is empty and another was
not. -/
theorem last_eq_given_iff :
    field l.last = l.given field ↔ (field l.last = "" → ∀ u ∈ l.supplied, field u = "") := by
  obtain ⟨before, hsupplied⟩ := l.supplied_eq_cons
  by_cases hempty : field l.last = ""
  · -- then what was given last is that text only if nothing was given at all
    rw [hempty, eq_comm, given_eq_empty_iff]
    exact ⟨fun hall _ => hall, fun h => h rfl⟩
  · rw [given_of_supplied hsupplied, if_neg hempty]
    exact iff_of_true rfl fun h => absurd h hempty

/-! ## Documents -/

/-- A document that has just been created is all that was given. -/
theorem yields_created (fresh : Bool) (d : Document) : (⟨fresh, d, []⟩ : Lineage).Yields d where
  key := rfl
  labels := rfl
  id := rfl
  domain := rfl
  project := rfl
  createRevision := rfl
  createTime := rfl
  valueType := (given_created fresh d _).symm
  labelFormat := (given_created fresh d _).symm
  value := rfl
  status := rfl
  checker := rfl
  updateTime := rfl
  updateRevision := rfl

/-- A document that is merged with an update has it in its lineage. -/
theorem Yields.update (h : l.Yields d) (u : Document) : (l.update u).Yields (d.merge u) where
  key := h.key
  labels := h.labels
  id := h.id
  domain := h.domain
  project := h.project
  createRevision := h.createRevision
  createTime := h.createTime
  valueType := by rw [given_update, ← h.valueType, Document.merge]
  labelFormat := by rw [given_update, ← h.labelFormat, Document.merge]
  value := rfl
  status := rfl
  checker := rfl
  updateTime := rfl
  updateRevision := rfl

/-- The value is the last one that was given unless that was taken away. -/
theorem Yields.value_eq_given_iff (h : l.Yields d) :
    d.value = l.given (·.value) ↔ l.KeepsValue := by
  rw [h.value]
  exact last_eq_given_iff

/-! ## Revisions -/

/-- A later update is not part of what there was. -/
theorem upTo_update_of_lt {revision : Int64} (h : revision < u.updateRevision) :
    (l.update u).upTo revision = l.upTo revision := by
  have hlate : ¬u.updateRevision ≤ revision := fun hle =>
    Int64.lt_irrefl (Int64.lt_of_lt_of_le h hle)
  simp [upTo, update, hlate]

theorem upTo_of_le {revision : Int64} (h : ∀ u ∈ l.updates, u.updateRevision ≤ revision) :
    l.upTo revision = l := by
  have hall : l.updates.filter (·.updateRevision ≤ revision) = l.updates :=
    List.filter_eq_self.mpr fun u hu => decide_eq_true (h u hu)
  rw [upTo, hall]

end Lineage

/-! ## Shelves -/

/-- What is on a shelf comes from a lineage. If nothing was stored where the document was created,
the snapshots do too, each from the updates up to its revision. -/
structure Shelf.Descends (shelf : Shelf) (l : Lineage) : Prop where
  head : l.Yields shelf.head
  updates : ∀ u ∈ l.updates, u.updateRevision ≤ shelf.head.updateRevision
  past : l.fresh = true → ∀ e ∈ shelf.past,
    e.updateRevision ≤ shelf.head.updateRevision ∧ (l.upTo e.updateRevision).Yields e

namespace Shelf.Descends

variable {l : Lineage}

/-- A shelf with fewer snapshots. -/
theorem anti (h : shelf.Descends l) {past : List Document} (hpast : past ⊆ shelf.past) :
    (⟨shelf.head, past⟩ : Shelf).Descends l :=
  ⟨h.head, h.updates, fun hfresh e he => h.past hfresh e (hpast he)⟩

theorem keep (h : shelf.Descends l) (max : Nat) : (shelf.keep max).Descends l := by
  refine h.anti ?_
  split
  · exact List.Subset.refl _
  · exact List.take_subset ..

/-- A document is created, where there was none or over another. -/
theorem create {shelf? : Option Shelf} {fresh : Bool} (hfresh : fresh = true → shelf? = none)
    (d : Document) : (Shelf.write shelf? d).Descends ⟨fresh, d, []⟩ where
  head := Lineage.yields_created fresh d
  updates := fun _ hu => absurd hu List.not_mem_nil
  past := by
    intro hnew e he
    rw [hfresh hnew] at he
    rcases Shelf.mem_past_write.mp he with rfl | ⟨hnone, -⟩
    · exact ⟨Int64.le_refl _, Lineage.yields_created fresh e⟩
    · cases hnone

/-- An update is newer than all that came before, so it is part of no earlier snapshot. -/
theorem update (h : shelf.Descends l) (hnewer : shelf.head.updateRevision < u.updateRevision) :
    (Shelf.write (some shelf) (shelf.head.merge u)).Descends (l.update u) := by
  have hbefore : ∀ v ∈ (l.update u).updates, v.updateRevision ≤ u.updateRevision := by
    intro v hv
    rcases List.mem_cons.mp hv with rfl | hv
    · exact Int64.le_refl _
    · exact Int64.le_trans (h.updates v hv) (Int64.le_of_lt hnewer)
  refine ⟨h.head.update u, hbefore, fun hfresh e he => ?_⟩
  rcases Shelf.mem_past_write.mp he with rfl | ⟨hold, -⟩
  · -- the snapshot of the update itself: every update is part of what there was at its revision
    refine ⟨Int64.le_refl _, ?_⟩
    rw [show (shelf.head.merge u).updateRevision = u.updateRevision from rfl,
      Lineage.upTo_of_le hbefore]
    exact h.head.update u
  · obtain ⟨hle, hyields⟩ := h.past hfresh e hold
    have hlt : e.updateRevision < u.updateRevision := Int64.lt_of_le_of_lt hle hnewer
    rw [Lineage.upTo_update_of_lt hlt]
    exact ⟨Int64.le_of_lt hlt, hyields⟩

end Shelf.Descends

/-! ## Lineages of runs -/

/-- The lineage of a document after one more step, if the document is stored. -/
def lineageAfter (domain project id : String) (l? : Option Lineage) : Event → Option Lineage
  | (.call (.create _ d), .ok _) =>
    if d.isAt domain project id then some ⟨l?.isNone, d, []⟩ else l?
  | (.call (.update _ d), .ok _) =>
    if d.isAt domain project id then l?.map (·.update d) else l?
  | event => if event.deleted.any (·.isAt domain project id) then none else l?

/-- The lineage of a document at the end of a run, if the document is stored. -/
def lineage (trace : List Event) (domain project id : String) : Option Lineage :=
  trace.foldl (lineageAfter domain project id) none

/-- There is a shelf that comes from a lineage, or there is neither. -/
abbrev Descend : Option Shelf → Option Lineage → Prop := Option.Rel Shelf.Descends

variable {l? : Option Lineage}

theorem Descend.isNone {shelf? : Option Shelf} (h : Descend shelf? l?)
    (hnone : l?.isNone = true) : shelf? = none := by
  cases h with
  | some hshelf => cases hnone
  | none => rfl

theorem descend_create (h : Descend (lib.shelf? domain project id) l?) :
    Descend ((lib.write max d).shelf? domain project id)
      (if d.isAt domain project id then some ⟨l?.isNone, d, []⟩ else l?) := by
  rw [shelf?_write_eq]
  split
  · exact .some ((Shelf.Descends.create h.isNone d).keep max)
  · exact h

/-- An update that is accepted is merged with the head of the shelf. -/
theorem descend_update (h : Descend (lib.shelf? domain project id) l?) (hvalid : lib.Valid)
    {old : Document} (hhead : lib.head? u.domain u.project u.id = some old)
    (hnewer : Store.checkNewer old u = .ok ()) :
    Descend ((lib.write max (old.merge u)).shelf? domain project id)
      (if u.isAt domain project id then l?.map (·.update u) else l?) := by
  obtain ⟨hdomain, hproject, hid⟩ := hvalid.place hhead
  have hsame : (old.merge u).isAt domain project id = u.isAt domain project id := by
    simp only [Document.isAt, Document.merge, hdomain, hproject, hid]
  rw [shelf?_write_eq, hsame]
  split
  next hat =>
    obtain ⟨rfl, rfl, rfl⟩ := Catalogue.isAt_eq_true_iff.mp hat
    obtain ⟨shelf, hshelf, rfl⟩ := head?_eq_some_iff.mp hhead
    rw [hshelf] at h ⊢
    cases h with
    | some hdescends =>
      exact .some ((hdescends.update (Store.lt_of_checkNewer hnewer)).keep max)
  · exact h

theorem descend_clear (h : Descend (lib.shelf? domain project id) l?) (hvalid : lib.Valid)
    {domain' project' : String} {ids : List String} {gone : List Document}
    (hgone : ∀ d, d ∈ gone ↔ ∃ id ∈ ids, lib.head? domain' project' id = some d) :
    Descend ((lib.clear domain' project' ids).shelf? domain project id)
      (if gone.any (·.isAt domain project id) then none else l?) := by
  rw [hvalid.shelf?_clear_eq hgone]
  split
  · exact .none
  · exact h

theorem descend_trimmed (h : Descend (lib.shelf? domain project id) l?)
    (htrimmed : Trimmed max lib lib') : Descend (lib'.shelf? domain project id) l? := by
  cases hshelf : lib.shelf? domain project id with
  | none =>
    rw [htrimmed.none hshelf]
    rwa [hshelf] at h
  | some shelf =>
    obtain ⟨past, hpast, hsub, -⟩ := htrimmed.some hshelf
    rw [hshelf] at h
    rw [hpast]
    cases h with
    | some hdescends => exact .some (hdescends.anti hsub.subset)

/-- Every step leaves on a shelf what the lineage after it says. -/
theorem Descend.after (h : Descend (lib.shelf? domain project id) l?) (hvalid : lib.Valid)
    {event : Event} (hdone : Step.Done max lib event lib') :
    Descend (lib'.shelf? domain project id) (lineageAfter domain project id l? event) := by
  obtain ⟨step, result⟩ := event
  cases step with
  | reopen settings policy => exact hdone ▸ h
  | call request =>
    cases request with
    | create caller d =>
      cases result with
      | ok answer =>
        obtain ⟨-, rfl⟩ := hdone
        exact descend_create h
      | error failure => exact hdone ▸ h
    | update caller u =>
      cases result with
      | ok answer =>
        obtain ⟨old, hhead, hnewer, -, rfl⟩ := hdone
        exact descend_update h hvalid hhead hnewer
      | error failure => exact hdone ▸ h
    | deleteOne caller domain' project' id' =>
      cases result with
      | ok answer =>
        obtain ⟨d, rfl, hhead, rfl⟩ := hdone
        exact descend_clear h hvalid fun e => Catalogue.Mirrors.mem_head_iff hhead
      | error failure => exact hdone ▸ h
    | deleteMany caller domain' project' ids =>
      cases result with
      | ok answer =>
        obtain ⟨gone, rfl, hheads, rfl⟩ := hdone
        exact descend_clear h hvalid fun d => Catalogue.Mirrors.mem_heads_iff hheads
      | error failure => exact hdone ▸ h
    | addHistory d => exact descend_trimmed h hdone
    | advance counter =>
      obtain ⟨n, -, rfl⟩ | rfl := hdone <;> exact h
    | _ => exact hdone ▸ h

/-! ## Runs -/

namespace Session

variable {session : Session} {root : Path} {base : Place}

/-- At the end of a run every shelf comes from the lineage of its document. -/
theorem run_descend (h : session.Stocked root base lib)
    (hl : Descend (lib.shelf? domain project id) l?) {steps : List Step}
    (hsteps : ∀ step ∈ steps, step.Accepted root) :
    ∃ lib', (session.run steps).2.Stocked root base lib' ∧
      Descend (lib'.shelf? domain project id)
        ((session.run steps).1.foldl (lineageAfter domain project id) l?) := by
  induction steps generalizing session lib l? with
  | nil => exact ⟨lib, h, hl⟩
  | cons step steps ih =>
    obtain ⟨hstep, hsteps⟩ := List.forall_mem_cons.mp hsteps
    obtain ⟨result, next, lib₁, hnext, hstocked, hdone, -⟩ := step_stocked h hstep
    rw [run_cons hnext]
    exact ih hstocked (hl.after h.ready.kept.valid hdone) hsteps

/-- Without authorization the history of a document are the snapshots on its shelf, whatever stands
beside the documents. -/
theorem Stocked.history_eq (h : session.Stocked root base lib) {caller : Caller}
    (hauth : caller.authEnabled = false) (hshelf : lib.shelf? domain project id = some shelf)
    (offset limit : Nat) :
    (session.call (.history caller domain project id offset limit)).1
      = .ok (.listing ⟨shelf.past.length, page shelf.past offset limit⟩) := by
  have hstore := h.ready.kept.valid.storable hshelf
  have hloose : lib.loose? domain project = none :=
    h.ready.kept.holds.loose?_eq_none hstore.notReserved (by rw [hshelf]; rfl)
  have hhistory :=
    Store.history_kept h.ready.kept h.ready.room hstore hloose caller offset limit
  have hok : authorize session.store.policy caller .get shelf.head.labels = .ok () := by
    rw [authorize, hauth]
    rfl
  simp only [hshelf, hok] at hhistory
  rw [call_of_ok rfl hhistory]

/-- **A stored document has from its creation and its updates what it should have**, whatever else
there is in the run and however many updates fail: names, key, labels, and the revision and time of
the creation are those of the creation; the value type and the label format are the last ones that
were given; status, checker, and the time and revision of the last change are those of the last
update. If nothing was stored where it was created, every snapshot has the same from the updates up
to its revision. The value is that of the last update, which is the last one that was given unless
this update has taken it away. -/
theorem run_lineage {settings : Settings} (hfresh : session.Fresh settings) {steps : List Step}
    (hsteps : ∀ step ∈ steps, step.Accepted settings.root) {caller : Caller}
    (hauth : caller.authEnabled = false) {l : Lineage}
    (hl : lineage (session.run steps).1 domain project id = some l) :
    let last := (session.run steps).2
    ∃ d, (last.call (.get caller domain project id)).1 = .ok (.document d) ∧
      l.Yields d ∧ (d.value = l.given (·.value) ↔ l.KeepsValue) ∧
      ∃ docs, last.HasSnapshots domain project id docs ∧
        (∀ offset limit, (last.call (.history caller domain project id offset limit)).1
          = .ok (.listing ⟨docs.length, page docs offset limit⟩)) ∧
        (l.fresh = true → ∀ e ∈ docs, (l.upTo e.updateRevision).Yields e ∧
          (e.value = (l.upTo e.updateRevision).given (·.value) ↔
            (l.upTo e.updateRevision).KeepsValue)) := by
  intro last
  obtain ⟨base, hsound⟩ := hfresh.sound
  have hstart : Descend (Library.empty.shelf? domain project id) none := .none
  obtain ⟨lib, hlast, hdescend⟩ := run_descend hsound.toStocked hstart hsteps
  rw [show (session.run steps).1.foldl (lineageAfter domain project id) none = some l from hl]
    at hdescend
  cases hshelf : lib.shelf? domain project id with
  | none =>
    rw [hshelf] at hdescend
    cases hdescend
  | some shelf =>
    rw [hshelf] at hdescend
    cases hdescend with
    | some hdescends =>
      have hhead : lib.head? domain project id = some shelf.head := by
        rw [Library.head?, hshelf, Option.map_some]
      have hsnapshots := hlast.hasSnapshots (hlast.ready.kept.valid.storable hshelf)
      rw [hshelf, Option.elim_some] at hsnapshots
      refine ⟨shelf.head, (hlast.get_eq_ok_iff hauth).mpr hhead, hdescends.head,
        hdescends.head.value_eq_given_iff, shelf.past, hsnapshots,
        hlast.history_eq hauth hshelf, fun hnew e he => ?_⟩
      obtain ⟨-, hyields⟩ := hdescends.past hnew e he
      exact ⟨hyields, hyields.value_eq_given_iff⟩

/-! ## A value that is taken away -/

/-- A stored document is updated if the caller may update it and the update is newer. -/
theorem call_update (h : session.Sound root base lib) (caller : Caller) {old : Document}
    (hhead : lib.head? u.domain u.project u.id = some old)
    (hauth : authorize session.store.policy caller .update old.labels = .ok ())
    (hnewer : old.updateRevision < u.updateRevision) :
    ∃ state, session.call (.update caller u)
        = (.ok (.document (old.merge u)), { session with state }) ∧
      Sound root base (lib.write session.store.maxHistory (old.merge u))
        { session with state } := by
  have hstore := h.ready.kept.valid.storable_head hhead
  obtain ⟨hdomain, hproject, hid⟩ := h.ready.kept.valid.place hhead
  have hmerged : Storable (old.merge u).domain (old.merge u).project (old.merge u).id := by
    rw [← hdomain, ← hproject, ← hid] at hstore
    exact hstore
  obtain ⟨state, hwrite, hready⟩ := Store.write_ready h.ready hmerged (h.noLoose _ _)
  have hread := h.ready.kept.holds.readDocument h.ready.kept.grounded h.ready.room hstore
    (h.noLoose _ _)
  rw [hhead] at hread
  have hok := Store.update_of_write (Names.checkDocument_eq_ok_iff.mpr
    ⟨hstore.scope, hstore.document⟩) hread hauth (if_pos hnewer) hwrite
  exact ⟨state, call_of_ok rfl hok, ⟨hready, h.root_eq⟩, h.noLoose⟩

/-- The sample document is created and updated once. -/
def updatedOnce (u : Document) : List Step :=
  [.call (.create .anonymous sampleDocument), .call (.update .anonymous u)]

/-- The update is accepted if it is for the document and newer. -/
theorem run_updatedOnce (hplace : u.isAt "shop" "web" "timeout" = true)
    (hnewer : sampleDocument.updateRevision < u.updateRevision) :
    let run := sample.run (updatedOnce u)
    let merged := sampleDocument.merge u
    run.1.map Prod.snd = [.ok (.document sampleDocument), .ok (.document merged)] ∧
      lineage run.1 "shop" "web" "timeout" = some ⟨true, sampleDocument, [u]⟩ ∧
      (run.2.call (.get .anonymous "shop" "web" "timeout")).1 = .ok (.document merged) := by
  intro run merged
  obtain ⟨hdomain, hproject, hid⟩ := Catalogue.isAt_eq_true_iff.mp hplace
  obtain ⟨base, hsound⟩ := sample_fresh.sound
  obtain ⟨state, hcreate, hsound, -⟩ := call_create hsound .anonymous (d := sampleDocument)
    storable_sample rfl
  have hhead : (Library.empty.write sample.store.maxHistory sampleDocument).head?
      u.domain u.project u.id = some sampleDocument := by
    rw [hdomain, hproject, hid]
    exact head?_write ..
  obtain ⟨state', hupdate, hsound⟩ := call_update hsound .anonymous hhead rfl hnewer
  have hrun : run = ([(.call (.create .anonymous sampleDocument), .ok (.document sampleDocument)),
      (.call (.update .anonymous u), .ok (.document merged))], ⟨sample.store, state'⟩) :=
    (run_call_cons hcreate _).trans (by rw [run_call_cons hupdate]; rfl)
  rw [hrun]
  refine ⟨rfl, ?_, ?_⟩
  · have hcreated : sampleDocument.isAt "shop" "web" "timeout" = true := rfl
    simp [lineage, lineageAfter, hcreated, hplace, Lineage.update]
  · exact congrArg Prod.fst
      (call_get hsound .anonymous storable_sample (head?_write _ _ merged) rfl)

theorem run_lineage_sample :
    let u : Document := { sampleDocument with value := "60", updateRevision := 2 }
    let l : Lineage := ⟨true, sampleDocument, [u]⟩
    Caller.anonymous.authEnabled = false ∧
      lineage (sample.run (updatedOnce u)).1 "shop" "web" "timeout" = some l ∧
      ∃ d, ((sample.run (updatedOnce u)).2.call (.get .anonymous "shop" "web" "timeout")).1
          = .ok (.document d) ∧ l.Yields d ∧ d.value = l.given (·.value) := by
  intro u l
  have hsteps : ∀ step ∈ updatedOnce u, step.Accepted sampleSettings.root := by
    simp only [updatedOnce, List.forall_mem_cons, List.not_mem_nil, false_implies, implies_true,
      and_true, Step.Accepted, Request.CountsDomain]
  have hauth : Caller.anonymous.authEnabled = false := rfl
  obtain ⟨-, hl, -⟩ := run_updatedOnce (u := u) rfl (by decide)
  obtain ⟨d, hget, hyields, hvalue, -⟩ := run_lineage sample_fresh hsteps hauth hl
  have hkeeps : l.KeepsValue := fun hempty => absurd hempty (by decide)
  exact ⟨hauth, hl, d, hget, hyields, hvalue.mpr hkeeps⟩

/-- An update without a value takes away the value that was given. -/
theorem update_empties :
    let u : Document := { sampleDocument with value := "", updateRevision := 2 }
    let run := sample.run (updatedOnce u)
    let l : Lineage := ⟨true, sampleDocument, [u]⟩
    sample.Fresh sampleSettings ∧
      run.1.map Prod.snd = [.ok (.document sampleDocument), .ok (.document u)] ∧
      lineage run.1 "shop" "web" "timeout" = some l ∧
      (run.2.call (.get .anonymous "shop" "web" "timeout")).1 = .ok (.document u) ∧
      u.value = "" ∧ l.given (·.value) = "30" := by
  intro u run l
  obtain ⟨hresults, hl, hget⟩ := run_updatedOnce (u := u) rfl (by decide)
  have hmerged : sampleDocument.merge u = u := by decide
  rw [hmerged] at hresults hget
  exact ⟨sample_fresh, hresults, hl, hget, rfl, by decide⟩

end Session

end ConfigStore
