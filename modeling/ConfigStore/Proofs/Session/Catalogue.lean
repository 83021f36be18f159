import ConfigStore.Proofs.Session.Runs

/-!
# The documents of a session as a map

What a store holds is told by the answers it has given: a catalogue is a map from places to
documents that only successful writes and deletions change. At every point of a run the store
answers as if it were its catalogue.

* `Catalogue` is the type, `Catalogue.after` what an answer does to a catalogue, and
  `Catalogue.ofTrace` the catalogue at the end of a run.
* `Catalogue.Mirrors` says that a catalogue has the documents that a library has, and
  `Session.run_mirrors` that this is so at the end of every run.
* `Catalogue.Describes` says what a store answers that holds the documents of a catalogue.
* `Session.run_refines_catalogue` is the result.
-/

namespace ConfigStore

open Node Disk Library

/-- A document belongs to a place. -/
def Document.isAt (d : Document) (domain project id : String) : Bool :=
  d.domain = domain && d.project = project && d.id = id

/-- The documents of a map from places to documents. -/
abbrev Catalogue := List Document

namespace Catalogue

variable {c : Catalogue} {lib lib' : Library} {d e : Document} {domain project id : String}

/-! ## Definitions -/

/-- The document of a place. -/
def at? (c : Catalogue) (domain project id : String) : Option Document :=
  c.find? (·.isAt domain project id)

/-- The catalogue without the document of the same place. -/
def remove (c : Catalogue) (d : Document) : Catalogue := c.filter (!·.isAt d.domain d.project d.id)

/-- The catalogue with a document in place of any of the same place. -/
def put (c : Catalogue) (d : Document) : Catalogue := d :: c.remove d

/-- The documents of a project. -/
def inScope (c : Catalogue) (domain project : String) : List Document :=
  c.filter fun d => d.domain = domain && d.project = project

/-- A successful write puts the document that is answered into the catalogue, a successful deletion
takes the documents that are answered out of it, and nothing else changes it. -/
def after (c : Catalogue) : Event → Catalogue
  | (.call (.create ..), .ok (.document d)) => c.put d
  | (.call (.update ..), .ok (.document d)) => c.put d
  | (.call (.deleteOne ..), .ok (.document d)) => c.remove d
  | (.call (.deleteMany ..), .ok (.deleted docs)) => docs.foldl remove c
  | _ => c

/-- The catalogue at the end of a run. -/
def ofTrace (trace : List Event) : Catalogue := trace.foldl after []

/-- A session answers as one that holds the documents of a catalogue and no others: for every place
that can be stored it gives the document of the catalogue, it counts the documents of a project, and
what it deletes it gives back. -/
structure Describes (c : Catalogue) (session : Session) : Prop where
  get : ∀ caller domain project id, caller.authEnabled = false →
    Names.checkScope domain project = .ok () → Names.checkId id = .ok () →
    (∀ name ∈ [domain, project, id], Fits name) →
    (session.call (.get caller domain project id)).1 =
      match c.at? domain project id with
      | some d => .ok (.document d)
      | none => .error (.keyNotFound (domain ++ "/" ++ project ++ "/" ++ id))
  total : ∀ domain project, Names.checkScope domain project = .ok () →
    (∀ name ∈ [domain, project], Fits name) →
    (session.call (.total domain project)).1 = .ok (.count (c.inScope domain project).length)
  deleteOne : ∀ caller domain project id answer,
    (session.call (.deleteOne caller domain project id)).1 = .ok answer →
    ∃ d, c.at? domain project id = some d ∧ answer = .document d
  deleteMany : ∀ caller domain project ids answer,
    (session.call (.deleteMany caller domain project ids)).1 = .ok answer →
    ∃ docs, ids.eraseDups.map (c.at? domain project) = docs.map some ∧ answer = .deleted docs

/-- A step that fails leaves the catalogue as it is. -/
theorem after_error (c : Catalogue) (step : Step) (failure : Failure) :
    c.after (step, .error failure) = c := by
  rcases step with request | _
  · cases request <;> rfl
  · rfl

/-! ## Catalogues and libraries -/

theorem isAt_eq_true_iff : d.isAt domain project id = true ↔
    d.domain = domain ∧ d.project = project ∧ d.id = id := by
  simp [Document.isAt, and_assoc]

theorem isAt_self (d : Document) : d.isAt d.domain d.project d.id = true :=
  isAt_eq_true_iff.mpr ⟨rfl, rfl, rfl⟩

theorem mem_remove : e ∈ c.remove d ↔ e ∈ c ∧ e.isAt d.domain d.project d.id = false := by
  rw [remove, List.mem_filter, Bool.not_eq_true']

theorem mem_inScope : d ∈ c.inScope domain project ↔
    d ∈ c ∧ d.domain = domain ∧ d.project = project := by
  simp [inScope]

theorem mem_foldl_remove {docs : List Document} : e ∈ docs.foldl remove c ↔
    e ∈ c ∧ ∀ d ∈ docs, e.isAt d.domain d.project d.id = false := by
  induction docs generalizing c with
  | nil => simp
  | cons d docs ih => rw [List.foldl_cons, ih, mem_remove, List.forall_mem_cons, and_assoc]

theorem foldl_remove_sublist (c : Catalogue) (docs : List Document) :
    (docs.foldl remove c).Sublist c := by
  induction docs generalizing c with
  | nil => exact List.Sublist.refl _
  | cons d docs ih => exact (ih _).trans List.filter_sublist

/-- A catalogue has the newest copies of a library. -/
structure Mirrors (c : Catalogue) (lib : Library) : Prop where
  nodup : c.Nodup
  mem_iff : ∀ d, d ∈ c ↔ lib.head? d.domain d.project d.id = some d

theorem mirrors_empty : Mirrors [] .empty :=
  ⟨List.nodup_nil, fun _ => iff_of_false List.not_mem_nil fun h => by cases h⟩

namespace Mirrors

theorem at?_eq (h : c.Mirrors lib) (hvalid : lib.Valid) :
    c.at? domain project id = lib.head? domain project id := by
  cases hhead : lib.head? domain project id with
  | none =>
    rw [at?, List.find?_eq_none]
    intro d hd hat
    obtain ⟨rfl, rfl, rfl⟩ := isAt_eq_true_iff.mp hat
    rw [(h.mem_iff d).mp hd] at hhead
    cases hhead
  | some d =>
    obtain ⟨hdomain, hproject, hid⟩ := hvalid.place hhead
    cases hfind : c.at? domain project id with
    | none =>
      have hmem : d ∈ c := (h.mem_iff d).mpr (by rw [hdomain, hproject, hid, hhead])
      have hnot := List.find?_eq_none.mp hfind d hmem
      exact absurd (isAt_eq_true_iff.mpr ⟨hdomain, hproject, hid⟩) hnot
    | some e =>
      rw [at?] at hfind
      have hmem := (h.mem_iff e).mp (List.mem_of_find?_eq_some hfind)
      have hat : e.isAt domain project id = true := by simpa using List.find?_some hfind
      obtain ⟨hdomain', hproject', hid'⟩ := isAt_eq_true_iff.mp hat
      rw [hdomain', hproject', hid', hhead] at hmem
      exact hmem.symm

theorem mem_inScope_iff (h : c.Mirrors lib) (hvalid : lib.Valid) :
    d ∈ c.inScope domain project ↔ lib.head? domain project d.id = some d := by
  rw [mem_inScope, h.mem_iff]
  constructor
  · rintro ⟨hhead, rfl, rfl⟩
    exact hhead
  · intro hhead
    obtain ⟨rfl, rfl, -⟩ := hvalid.place hhead
    exact ⟨hhead, rfl, rfl⟩

/-- The documents of a project are those on its shelves. -/
theorem inScope_perm (h : c.Mirrors lib) (hvalid : lib.Valid) {ids : List String}
    (hids : lib.Lists domain project ids) :
    (c.inScope domain project).Perm (ids.filterMap (lib.head? domain project)) := by
  have hnodup : (c.inScope domain project).Nodup := h.nodup.sublist List.filter_sublist
  refine (List.perm_ext_iff_of_nodup hnodup ?_).mpr fun d => ?_
  · refine hids.nodup.filterMap ?_
    intro id id' d hd hd'
    rw [← (hvalid.place hd).2.2, ← (hvalid.place hd').2.2]
  · rw [mem_inScope, h.mem_iff, List.mem_filterMap]
    constructor
    · rintro ⟨hhead, rfl, rfl⟩
      refine ⟨d.id, (hids.mem_iff d.id).mpr ?_, hhead⟩
      rw [← head?_isSome, hhead]
      rfl
    · rintro ⟨id, -, hhead⟩
      obtain ⟨rfl, rfl, rfl⟩ := hvalid.place hhead
      exact ⟨hhead, rfl, rfl⟩

theorem length_inScope (h : c.Mirrors lib) (hvalid : lib.Valid) {ids : List String}
    (hids : lib.Lists domain project ids) : (c.inScope domain project).length = ids.length := by
  rw [(h.inScope_perm hvalid hids).length_eq, List.length_filterMap_eq_countP,
    List.countP_eq_length]
  intro id hid
  rw [head?_isSome]
  exact (hids.mem_iff id).mp hid

/-- A written document is in the catalogue. -/
theorem write (h : c.Mirrors lib) (max : Nat) (d : Document) :
    (c.put d).Mirrors (lib.write max d) := by
  refine ⟨List.nodup_cons.mpr ⟨fun hmem => ?_, h.nodup.sublist List.filter_sublist⟩, fun e => ?_⟩
  · have hat := (mem_remove.mp hmem).2
    rw [isAt_self] at hat
    cases hat
  · rw [put, List.mem_cons, mem_remove, h.mem_iff]
    by_cases hplace : (e.domain, e.project, e.id) = (d.domain, d.project, d.id)
    · simp only [Prod.mk.injEq] at hplace
      obtain ⟨hdomain, hproject, hid⟩ := hplace
      rw [hdomain, hproject, hid, head?_write, isAt_eq_true_iff.mpr ⟨hdomain, hproject, hid⟩]
      simp [eq_comm]
    · rw [head?_write_of_ne lib max hplace]
      have hne : e ≠ d := by
        rintro rfl
        exact hplace rfl
      have hat : e.isAt d.domain d.project d.id = false := by
        rw [← Bool.not_eq_true, isAt_eq_true_iff]
        rintro ⟨hdomain, hproject, hid⟩
        exact hplace (by rw [hdomain, hproject, hid])
      simp [hne, hat]

/-- Deleted documents are not in the catalogue. -/
theorem clear (h : c.Mirrors lib) (hvalid : lib.Valid) {ids : List String} {docs : List Document}
    (hdocs : ∀ d, d ∈ docs ↔ ∃ id ∈ ids, lib.head? domain project id = some d) :
    (docs.foldl remove c).Mirrors (lib.clear domain project ids) := by
  refine ⟨h.nodup.sublist (foldl_remove_sublist c docs), fun e => ?_⟩
  rw [mem_foldl_remove, h.mem_iff]
  by_cases hgone : e.domain = domain ∧ e.project = project ∧ e.id ∈ ids
  · obtain ⟨rfl, rfl, hid⟩ := hgone
    rw [head?_clear_of_mem lib hid]
    refine iff_of_false ?_ (by simp)
    rintro ⟨hhead, hnot⟩
    have hat := hnot e ((hdocs e).mpr ⟨e.id, hid, hhead⟩)
    rw [isAt_self] at hat
    cases hat
  · rw [head?_clear_of_not hgone]
    refine and_iff_left_of_imp ?_
    intro hhead d hd
    obtain ⟨id, hid, hhead'⟩ := (hdocs d).mp hd
    obtain ⟨rfl, rfl, rfl⟩ := hvalid.place hhead'
    rw [← Bool.not_eq_true, isAt_eq_true_iff]
    rintro ⟨hdomain, hproject, hid'⟩
    exact hgone ⟨hdomain, hproject, hid' ▸ hid⟩

theorem mem_head_iff (h : lib.head? domain project id = some d) :
    e ∈ [d] ↔ ∃ other ∈ [id], lib.head? domain project other = some e := by
  simp [h, eq_comm]

theorem mem_heads_iff {ids : List String} {docs : List Document}
    (h : List.Forall₂ (fun id d => lib.head? domain project id = some d) ids.eraseDups docs) :
    d ∈ docs ↔ ∃ id ∈ ids, lib.head? domain project id = some d := by
  constructor
  · intro hd
    obtain ⟨id, hid, hhead⟩ := exists_of_forall₂ h.flip hd
    exact ⟨id, List.mem_eraseDups.mp hid, hhead⟩
  · rintro ⟨id, hid, hhead⟩
    obtain ⟨e, he, hhead'⟩ := exists_of_forall₂ h (List.mem_eraseDups.mpr hid)
    rw [hhead] at hhead'
    exact Option.some.inj hhead' ▸ he

/-- An answer does to the catalogue what the request has done to the library. -/
theorem after (h : c.Mirrors lib) (hvalid : lib.Valid) {max : Nat} {event : Event}
    (heffect : Step.Effect max lib event lib') : (c.after event).Mirrors lib' := by
  obtain ⟨step, result⟩ := event
  cases step with
  | reopen settings policy => exact heffect ▸ h
  | call request =>
    cases request with
    | create caller d =>
      cases result with
      | ok answer =>
        obtain ⟨hanswer, hlib⟩ := heffect
        rw [hanswer, hlib]
        exact h.write max d
      | error failure => exact heffect ▸ h
    | update caller d =>
      cases result with
      | ok answer =>
        obtain ⟨old, -, -, hanswer, hlib⟩ := heffect
        rw [hanswer, hlib]
        exact h.write max (old.merge d)
      | error failure => exact heffect ▸ h
    | deleteOne caller domain project id =>
      cases result with
      | ok answer =>
        obtain ⟨d, hanswer, hhead, hlib⟩ := heffect
        rw [hanswer, hlib]
        show ([d].foldl remove c).Mirrors (lib.clear domain project [id])
        exact h.clear hvalid fun e => mem_head_iff hhead
      | error failure => exact heffect ▸ h
    | deleteMany caller domain project ids =>
      cases result with
      | ok answer =>
        obtain ⟨docs, hanswer, hheads, hlib⟩ := heffect
        rw [hanswer, hlib]
        exact h.clear hvalid fun e => mem_heads_iff hheads
      | error failure => exact heffect ▸ h
    | addHistory d =>
      have htrimmed : Trimmed max lib lib' := heffect
      refine ⟨h.nodup, fun e => ?_⟩
      rw [htrimmed.head?_eq]
      exact h.mem_iff e
    | _ => exact heffect ▸ h

/-- A counter that is moved on leaves every newest copy where it is. -/
theorem done (h : c.Mirrors lib) (hvalid : lib.Valid) {max : Nat} {event : Event}
    (hdone : Step.Done max lib event lib') : (c.after event).Mirrors lib' := by
  rcases hdone.effect_or_counted with heffect | ⟨domain, n, rfl, rfl⟩
  · exact h.after hvalid heffect
  · exact ⟨h.nodup, h.mem_iff⟩

end Mirrors

end Catalogue

/-! ## The shelf of a place -/

/-- The shelf of a place after a document was written. -/
theorem Library.shelf?_write_eq (lib : Library) (max : Nat) (d : Document)
    (domain project id : String) :
    (lib.write max d).shelf? domain project id =
      if d.isAt domain project id then
        some ((Shelf.write (lib.shelf? domain project id) d).keep max)
      else lib.shelf? domain project id := by
  split
  next hat =>
    obtain ⟨rfl, rfl, rfl⟩ := Catalogue.isAt_eq_true_iff.mp hat
    rw [Library.write, shelf?_put_self]
  next hat =>
    refine shelf?_put_of_ne _ fun heq => hat ?_
    cases heq
    exact Catalogue.isAt_self d

/-- The shelf of a place after documents were deleted. -/
theorem Library.Valid.shelf?_clear_eq {lib : Library} (h : lib.Valid)
    {domain project id domain' project' : String} {ids : List String} {gone : List Document}
    (hgone : ∀ d, d ∈ gone ↔ ∃ id ∈ ids, lib.head? domain' project' id = some d) :
    (lib.clear domain' project' ids).shelf? domain project id =
      if gone.any (·.isAt domain project id) then none else lib.shelf? domain project id := by
  split
  next hany =>
    obtain ⟨d, hd, hat⟩ := List.any_eq_true.mp hany
    obtain ⟨other, hother, hhead⟩ := (hgone d).mp hd
    obtain ⟨rfl, rfl, rfl⟩ := h.place hhead
    obtain ⟨rfl, rfl, rfl⟩ := Catalogue.isAt_eq_true_iff.mp hat
    exact shelf?_clear_of_mem lib hother
  next hany =>
    by_cases hcleared : domain = domain' ∧ project = project' ∧ id ∈ ids
    · obtain ⟨rfl, rfl, hid⟩ := hcleared
      rw [shelf?_clear_of_mem lib hid]
      refine (Option.eq_none_iff_forall_ne_some.mpr fun shelf hshelf => hany ?_).symm
      have hhead : lib.head? domain project id = some shelf.head := by
        rw [Library.head?, hshelf, Option.map_some]
      exact List.any_eq_true.mpr ⟨shelf.head, (hgone _).mpr ⟨id, hid, hhead⟩,
        Catalogue.isAt_eq_true_iff.mpr (h.place hhead)⟩
    · exact shelf?_clear_of_not hcleared

/-! ## Runs -/

namespace Session

open Catalogue

variable {session : Session} {root : Path} {base : Place} {lib : Library} {c : Catalogue}

/-- At the end of a run the catalogue has the newest copies of what the store keeps, whatever names
there are in the run. -/
theorem run_kept (h : session.Sound root base lib) (hc : c.Mirrors lib) {steps : List Step}
    (hsteps : ∀ step ∈ steps, step.OnDocuments root) :
    ∃ lib', (session.run steps).2.Sound root base lib' ∧
      Mirrors ((session.run steps).1.foldl Catalogue.after c) lib' := by
  induction steps generalizing session lib c with
  | nil => exact ⟨lib, h, hc⟩
  | cons step steps ih =>
    obtain ⟨hstep, hrest⟩ := List.forall_mem_cons.mp hsteps
    obtain ⟨result, next, lib₁, hnext, hsound, heffect, -⟩ := step_kept h hstep
    rw [run_cons hnext]
    exact ih hsound (hc.after h.ready.kept.valid heffect) hrest

theorem run_mirrors (h : session.Sound root base lib) (hc : c.Mirrors lib) {steps : List Step}
    (hsteps : ∀ step ∈ steps, step.Ordinary root) :
    ∃ lib', (session.run steps).2.Sound root base lib' ∧
      Mirrors ((session.run steps).1.foldl Catalogue.after c) lib' :=
  run_kept h hc fun step hstep => (hsteps step hstep).onDocuments

/-- The same for runs in which counters are moved on. No file is in the place of a project unless
the project has the name of a counter that was moved on. -/
theorem run_catalogued (h : session.Stocked root base lib) (hc : c.Mirrors lib) {steps : List Step}
    (hsteps : ∀ step ∈ steps, step.Accepted root) {domain project : String}
    (hproject : project = Layout.counterName → .call (.advance domain) ∉ steps)
    (hloose : lib.loose? domain project = none) :
    ∃ lib', (session.run steps).2.Stocked root base lib' ∧
      Mirrors ((session.run steps).1.foldl Catalogue.after c) lib' ∧
      lib'.loose? domain project = none := by
  induction steps generalizing session lib c with
  | nil => exact ⟨lib, h, hc, hloose⟩
  | cons step steps ih =>
    obtain ⟨hstep, hrest⟩ := List.forall_mem_cons.mp hsteps
    obtain ⟨result, next, lib₁, hnext, hstocked, hdone, -⟩ := step_stocked h hstep
    have hsame : lib₁.loose? domain project = lib.loose? domain project := by
      refine hdone.loose?_eq fun hname heq => hproject hname ?_
      exact List.mem_cons.mpr (.inl heq.symm)
    rw [run_cons hnext]
    refine ih hstocked (hc.done h.ready.kept.valid hdone) hrest (fun hname hmem => ?_)
      (hsame.trans hloose)
    exact hproject hname (List.mem_cons_of_mem _ hmem)

/-- Documents are created one after the other if the names of each are accepted and fit and the
caller may create it. -/
theorem run_creates (h : session.Sound root base lib) (hc : c.Mirrors lib) (caller : Caller)
    {docs : List Document} (hstore : ∀ d ∈ docs, Storable d.domain d.project d.id)
    (hauth : ∀ d ∈ docs, authorize session.store.policy caller .create d.labels = .ok ()) :
    ∃ state lib', session.run (docs.map fun d => .call (.create caller d)) =
        (docs.map fun d => (.call (.create caller d), .ok (.document d)),
          { session with state }) ∧
      Sound root base lib' { session with state } ∧ Mirrors (docs.foldl put c) lib' ∧
      (session.state.cache = none → state.cache = none) := by
  induction docs generalizing session lib c with
  | nil => exact ⟨session.state, lib, rfl, h, hc, id⟩
  | cons d docs ih =>
    obtain ⟨hd, hrest⟩ := List.forall_mem_cons.mp hstore
    obtain ⟨hallowed, hrestAllowed⟩ := List.forall_mem_cons.mp hauth
    obtain ⟨mid, hcreate, hsound, hcache⟩ := call_create h caller hd hallowed
    obtain ⟨state, lib', hrun, hlast, hmirrors, hbare⟩ :=
      ih hsound (hc.write session.store.maxHistory d) hrest hrestAllowed
    refine ⟨state, lib', ?_, hlast, hmirrors, fun hnone => hbare ?_⟩
    · rw [List.map_cons, run_call_cons hcreate, hrun, List.map_cons]
    · rw [hcache, hnone, Option.map_none]

/-- A store that keeps a library answers by the catalogue of its newest copies. -/
theorem describes_of_mirrors (h : session.Sound root base lib) (hc : c.Mirrors lib) :
    c.Describes session where
  get := by
    intro caller domain project id hauth hscope hid hfits
    rw [hc.at?_eq h.ready.kept.valid]
    cases hhead : lib.head? domain project id with
    | none =>
      have hget := Store.get_kept h.ready.kept h.ready.room (.of_fits hscope hid hfits)
        (h.noLoose _ _) caller
      rw [hhead] at hget
      rw [call_of_error rfl hget]
    | some d =>
      have hok : authorize session.store.policy caller .get d.labels = .ok () := by
        rw [authorize, hauth]
        rfl
      rw [call_get h caller (.of_fits hscope hid hfits) hhead hok]
  total := by
    intro domain project hscope hfits
    obtain ⟨ids, hids, htotal⟩ := Store.total_kept h.ready.kept h.ready.room hscope
      (isNames_of_fits hscope hfits) (h.noLoose _ _)
    rw [call_of_ok rfl htotal, hc.length_inScope h.ready.kept.valid hids]
  deleteOne := by
    intro caller domain project id answer hok
    rcases Store.deleteOne_ready h.ready caller domain project id with
      ⟨d, state', hdelete, hhead, -, -⟩ | ⟨failure, state', herror, -, -⟩
    · rw [call_of_ok rfl hdelete] at hok
      exact ⟨d, by rw [hc.at?_eq h.ready.kept.valid, hhead], (Except.ok.inj hok).symm⟩
    · rw [call_of_error rfl herror] at hok
      cases hok
  deleteMany := by
    intro caller domain project ids answer hok
    rcases Store.deleteMany_ready h.ready caller domain project ids with
      ⟨docs, state', hdelete, hheads, -⟩ | ⟨failure, state', herror, -, -⟩
    · rw [call_of_ok rfl hdelete] at hok
      refine ⟨docs, ?_, (Except.ok.inj hok).symm⟩
      rw [← List.forall₂_eq_eq_eq, List.forall₂_map_left_iff, List.forall₂_map_right_iff]
      exact hheads.imp fun id d hd => (hc.at?_eq h.ready.kept.valid).trans hd.1
    · rw [call_of_error rfl herror] at hok
      cases hok

/-- **At every point of a run the store answers as the map that its answers make**, and after a step
that fails it still does. The path of the directory that the run starts on leaves room for any names
below it (`Session.Fresh.short`): a file system would otherwise refuse to store documents whose
names it takes. -/
theorem run_refines_catalogue {settings : Settings} (hfresh : session.Fresh settings)
    {steps : List Step} (hsteps : ∀ step ∈ steps, step.Ordinary settings.root) :
    (ofTrace (session.run steps).1).Describes (session.run steps).2 ∧
      ∀ step failure, step.Ordinary settings.root →
        ((session.run steps).2.step step).1 = .error failure →
          (ofTrace (session.run steps).1).Describes ((session.run steps).2.step step).2 := by
  obtain ⟨base, hsound⟩ := hfresh.sound
  obtain ⟨lib, hlast, hmirrors⟩ := run_mirrors hsound mirrors_empty hsteps
  refine ⟨describes_of_mirrors hlast hmirrors, fun step failure hstep herror => ?_⟩
  obtain ⟨result, next, lib', hnext, hsound', heffect, -⟩ := step_sound hlast hstep
  have hafter := hmirrors.after hlast.ready.kept.valid heffect
  rw [hnext] at herror ⊢
  obtain rfl : result = .error failure := herror
  rw [after_error] at hafter
  exact describes_of_mirrors hsound' hafter

theorem run_refines_catalogue_sample :
    (ofTrace (sample.run sampleSteps).1).Describes (sample.run sampleSteps).2 ∧
      (ofTrace (sample.run sampleSteps).1).Describes
        ((sample.run sampleSteps).2.step (.call (.deleteOne .anonymous "" "web" "timeout"))).2 ∧
      (sample.run createSteps).1
        = [(.call (.create .anonymous sampleDocument), .ok (.document sampleDocument))] ∧
      ((sample.run createSteps).2.call (.get .anonymous "shop" "web" "timeout")).1
        = .ok (.document sampleDocument) := by
  obtain ⟨hdescribes, hfailed⟩ := run_refines_catalogue sample_fresh sampleSteps_ordinary
  have hinvalid : ¬(Names.checkScope "" "web" = .ok () ∧ Names.checkId "timeout" = .ok ()) := by
    rintro ⟨hscope, -⟩
    cases hscope
  obtain ⟨failure, herror⟩ := Store.deleteOne_invalid .anonymous hinvalid
  refine ⟨hdescribes, hfailed _ failure ⟨trivial, trivial⟩ (by rw [step, call_of_error rfl herror]),
    ?_⟩
  have hcreated := (run_refines_catalogue sample_fresh createSteps_ordinary).1
  obtain ⟨state, hrun⟩ := run_createSteps
  rw [hrun] at hcreated ⊢
  exact ⟨rfl, hcreated.get .anonymous "shop" "web" "timeout" rfl rfl rfl (by decide)⟩

end Session

end ConfigStore
