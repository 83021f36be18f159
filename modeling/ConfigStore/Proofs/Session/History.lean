import ConfigStore.Proofs.Session.Catalogue

/-!
# The history of a document

As long as documents are created only where there is none, the history of a document are its most
recent writes, the newest first, as many of them as are kept.

* `written` are the writes of a document since it was created last, as they were answered.
* `Shelf.Recent` says that a shelf has the most recent writes, and `Session.run_recent` that this is
  so at the end of every run.
* `Session.run_history` is the result.
-/

namespace ConfigStore

open Node Disk Library

variable {domain project id : String} {d : Document} {max : Nat}

/-! ## Writes -/

/-- The writes of a document since it was created last, the newest first, after one more step. -/
def writtenAfter (domain project id : String) (docs : List Document) : Event → List Document
  | (.call (.create ..), .ok (.document d)) => if d.isAt domain project id then [d] else docs
  | (.call (.update ..), .ok (.document d)) => if d.isAt domain project id then d :: docs else docs
  | (.call (.deleteOne ..), .ok (.document d)) => if d.isAt domain project id then [] else docs
  | (.call (.deleteMany ..), .ok (.deleted gone)) =>
    if gone.any (·.isAt domain project id) then [] else docs
  | _ => docs

/-- The writes of a document since it was created last, the newest first. -/
def written (trace : List Event) (domain project id : String) : List Document :=
  trace.foldl (writtenAfter domain project id) []

/-- The writes of which snapshots are kept; zero keeps all. -/
def mostRecent (max : Nat) (docs : List Document) : List Document :=
  if max = 0 then docs else docs.take max

theorem mostRecent_sublist (max : Nat) (docs : List Document) :
    (mostRecent max docs).Sublist docs := by
  unfold mostRecent
  split
  · exact List.Sublist.refl _
  · exact List.take_sublist ..

theorem length_mostRecent (max : Nat) (docs : List Document) :
    (mostRecent max docs).length = if max = 0 then docs.length else min docs.length max := by
  unfold mostRecent
  split
  · rfl
  · rw [List.length_take, Nat.min_comm]

/-- One more write pushes out the last one that is kept. -/
theorem mostRecent_cons (max : Nat) (d : Document) (docs : List Document) :
    mostRecent max (d :: mostRecent max docs) = mostRecent max (d :: docs) := by
  unfold mostRecent
  split
  · rfl
  next hmax =>
    obtain ⟨n, rfl⟩ := Nat.exists_eq_succ_of_ne_zero hmax
    rw [List.take_succ_cons, List.take_succ_cons, List.take_take, Nat.min_eq_left (Nat.le_succ n)]

theorem mostRecent_idem (max : Nat) (docs : List Document) :
    mostRecent max (mostRecent max docs) = mostRecent max docs := by
  unfold mostRecent
  split
  · rfl
  · rw [List.take_take, Nat.min_self]

/-! ## Shelves -/

/-- The shelf of a document after some writes: the newest is its head, and the most recent ones are
its snapshots. All of them have the labels of the first, and later ones have later revisions. -/
structure Shelf.Recent (max : Nat) (shelf : Shelf) (docs : List Document) : Prop where
  head : docs.head? = some shelf.head
  past : shelf.past = mostRecent max docs
  newer : docs.Pairwise fun a b => b.updateRevision < a.updateRevision
  labels : ∀ e ∈ docs, e.labels = shelf.head.labels

/-- There is a shelf with the most recent writes, or there were none. -/
def Recent (max : Nat) (shelf? : Option Shelf) (docs : List Document) : Prop :=
  match shelf? with
  | none => docs = []
  | some shelf => shelf.Recent max docs

theorem recent_create (max : Nat) (d : Document) :
    ((Shelf.write none d).keep max).Recent max [d] where
  head := rfl
  past := rfl
  newer := List.pairwise_singleton _ _
  labels := by
    intro e he
    rw [List.mem_singleton.mp he]
    rfl

/-- A document that is newer than all and has as many labels comes first. -/
theorem insertBy_newest {docs : List Document}
    (h : ∀ e ∈ docs, e.updateRevision < d.updateRevision ∧ e.labels = d.labels) :
    insertBy Document.precedes d docs = d :: docs := by
  cases docs with
  | nil => rfl
  | cons e docs =>
    obtain ⟨hnewer, hlabels⟩ := h e (List.mem_cons_self ..)
    have hprecedes : d.precedes e = true :=
      Document.precedes_iff.mpr (.inr ⟨by rw [hlabels], .inl hnewer⟩)
    rw [insertBy, List.takeWhile_cons_of_neg (by simp [hprecedes]),
      List.dropWhile_cons_of_neg (by simp [hprecedes])]
    rfl

theorem Shelf.Recent.update {shelf : Shelf} {docs : List Document} (h : shelf.Recent max docs)
    (hnewer : shelf.head.updateRevision < d.updateRevision)
    (hlabels : d.labels = shelf.head.labels) :
    ((Shelf.write (some shelf) d).keep max).Recent max (d :: docs) := by
  have hall : ∀ e ∈ docs, e.updateRevision < d.updateRevision := by
    intro e he
    obtain ⟨first, rest, rfl⟩ := List.exists_cons_of_ne_nil (List.ne_nil_of_mem he)
    obtain rfl : first = shelf.head := Option.some.inj h.head
    rcases List.mem_cons.mp he with rfl | he
    · exact hnewer
    · exact Int64.lt_trans ((List.pairwise_cons.mp h.newer).1 e he) hnewer
  have hpast : ∀ e ∈ shelf.past, e ∈ docs := fun e he =>
    (mostRecent_sublist max docs).subset (h.past ▸ he)
  have hfilter : shelf.past.filter (·.updateRevision ≠ d.updateRevision) = shelf.past := by
    refine List.filter_eq_self.mpr fun e he => decide_eq_true fun heq => ?_
    have hlt := hall e (hpast e he)
    rw [heq] at hlt
    exact Int64.lt_irrefl hlt
  refine ⟨rfl, ?_, List.pairwise_cons.mpr ⟨hall, h.newer⟩, ?_⟩
  · have hinsert := insertBy_newest fun e he =>
      ⟨hall e (hpast e he), (h.labels e (hpast e he)).trans hlabels.symm⟩
    show mostRecent max (insertBy Document.precedes d (shelf.past.filter _)) = _
    rw [hfilter, hinsert, h.past, mostRecent_cons]
  · intro e he
    rcases List.mem_cons.mp he with rfl | he
    · rfl
    · exact (h.labels e he).trans hlabels.symm

/-- Nothing is left to be taken away. -/
theorem Recent.trimmed {lib lib' : Library} {docs : List Document}
    (h : Recent max (lib.shelf? domain project id) docs) (htrimmed : Trimmed max lib lib') :
    Recent max (lib'.shelf? domain project id) docs := by
  cases hshelf : lib.shelf? domain project id with
  | none =>
    rw [hshelf] at h
    rw [htrimmed.none hshelf]
    exact h
  | some shelf =>
    rw [hshelf] at h
    obtain ⟨past, hpast, hsub, hsup⟩ := htrimmed.some hshelf
    have hkeep : (shelf.keep max).past = shelf.past := by
      show mostRecent max shelf.past = shelf.past
      rw [h.past, mostRecent_idem]
    rw [hkeep] at hsup
    rw [hpast, hsub.antisymm hsup]
    exact h

/-! ## Steps -/

/-- A write that is recorded is on its shelf. -/
theorem recent_write {lib : Library} {docs docs' : List Document}
    (h : Recent max (lib.shelf? domain project id) docs)
    (hwrite : d.isAt domain project id = true →
      Recent max (some ((Shelf.write (lib.shelf? domain project id) d).keep max)) docs') :
    Recent max ((lib.write max d).shelf? domain project id)
      (if d.isAt domain project id then docs' else docs) := by
  rw [shelf?_write_eq]
  split
  next hat => exact hwrite hat
  · exact h

/-- An update that is recorded is newer than what is on its shelf, and has the same labels. -/
theorem recent_update {lib : Library} {docs : List Document} {old : Document}
    (h : Recent max (lib.shelf? domain project id) docs) (hvalid : lib.Valid)
    (hhead : lib.head? d.domain d.project d.id = some old)
    (hnewer : Store.checkNewer old d = .ok ()) :
    Recent max ((lib.write max (old.merge d)).shelf? domain project id)
      (if (old.merge d).isAt domain project id then old.merge d :: docs else docs) := by
  refine recent_write h ?_
  intro hat
  have hplace := hvalid.place hhead
  obtain ⟨rfl, rfl, rfl⟩ := Catalogue.isAt_eq_true_iff.mp hat
  obtain ⟨shelf, hshelf, hold⟩ := head?_eq_some_iff.mp hhead
  rw [← hplace.1, ← hplace.2.1, ← hplace.2.2] at hshelf
  have hshelf' : lib.shelf? (old.merge d).domain (old.merge d).project (old.merge d).id
    = some shelf := hshelf
  rw [hshelf'] at h ⊢
  refine Shelf.Recent.update h ?_ ?_
  · have hlt := Store.lt_of_checkNewer hnewer
    rwa [hold]
  · rw [hold]
    rfl

/-- A deletion that is recorded has taken the shelf away. -/
theorem recent_clear {lib : Library} {docs gone : List Document} {domain' project' : String}
    {ids : List String} (h : Recent max (lib.shelf? domain project id) docs) (hvalid : lib.Valid)
    (hgone : ∀ d, d ∈ gone ↔ ∃ id ∈ ids, lib.head? domain' project' id = some d) :
    Recent max ((lib.clear domain' project' ids).shelf? domain project id)
      (if gone.any (·.isAt domain project id) then [] else docs) := by
  rw [hvalid.shelf?_clear_eq hgone]
  split
  · rfl
  · exact h

/-- Every step records on the shelves what it answers, if it creates documents only where there are
none. -/
theorem Recent.after {lib lib' : Library} {docs : List Document}
    (h : Recent max (lib.shelf? domain project id) docs) (hvalid : lib.Valid) {event : Event}
    (hnew : ∀ caller d, event.1 = .call (.create caller d) →
      lib.shelf? d.domain d.project d.id = none)
    (heffect : Step.Effect max lib event lib') :
    Recent max (lib'.shelf? domain project id) (writtenAfter domain project id docs event) := by
  obtain ⟨step, result⟩ := event
  cases step with
  | reopen settings policy => exact heffect ▸ h
  | call request =>
    cases request with
    | create caller d =>
      cases result with
      | ok answer =>
        obtain ⟨hanswer, hlib⟩ := heffect
        rw [hanswer, hlib]
        refine recent_write h ?_
        intro hat
        obtain ⟨rfl, rfl, rfl⟩ := Catalogue.isAt_eq_true_iff.mp hat
        rw [hnew caller d rfl]
        exact recent_create max d
      | error failure => exact heffect ▸ h
    | update caller d =>
      cases result with
      | ok answer =>
        obtain ⟨old, hhead, hnewer, hanswer, hlib⟩ := heffect
        rw [hanswer, hlib]
        exact recent_update h hvalid hhead hnewer
      | error failure => exact heffect ▸ h
    | deleteOne caller domain' project' id' =>
      cases result with
      | ok answer =>
        obtain ⟨d, hanswer, hhead, hlib⟩ := heffect
        rw [hanswer, hlib]
        have hclear := recent_clear h hvalid fun e => Catalogue.Mirrors.mem_head_iff hhead
        simp only [List.any_cons, List.any_nil, Bool.or_false] at hclear
        exact hclear
      | error failure => exact heffect ▸ h
    | deleteMany caller domain' project' ids =>
      cases result with
      | ok answer =>
        obtain ⟨gone, hanswer, hheads, hlib⟩ := heffect
        rw [hanswer, hlib]
        exact recent_clear h hvalid fun e => Catalogue.Mirrors.mem_heads_iff hheads
      | error failure => exact heffect ▸ h
    | addHistory d => exact h.trimmed heffect
    | _ => exact heffect ▸ h

/-! ## Runs -/

namespace Session

variable {session : Session} {root : Path} {base : Place} {lib : Library}

/-- Documents are created only where none can be read at that moment. -/
def CreatesNew (session : Session) (steps : List Step) : Prop :=
  ∀ before caller d after, steps = before ++ .call (.create caller d) :: after → ∀ answer,
    ((session.run before).2.call (.get .anonymous d.domain d.project d.id)).1 ≠ .ok answer

theorem CreatesNew.tail {step : Step} {steps : List Step} {result : Except Failure Answer}
    {next : Session} (h : session.CreatesNew (step :: steps))
    (hstep : session.step step = (result, next)) : next.CreatesNew steps := by
  intro before caller d after hsteps
  have hrun := h (step :: before) caller d after (by rw [hsteps, List.cons_append])
  rwa [run_cons hstep] at hrun

/-- Where no document can be read there is no shelf. -/
theorem shelf?_eq_none (h : session.Sound root base lib)
    (hget : ∀ answer, (session.call (.get .anonymous domain project id)).1 ≠ .ok answer) :
    lib.shelf? domain project id = none := by
  cases hshelf : lib.shelf? domain project id with
  | none => rfl
  | some shelf =>
    have hhead : lib.head? domain project id = some shelf.head := by
      rw [Library.head?, hshelf, Option.map_some]
    refine absurd ?_ (hget (.document shelf.head))
    rw [call_get h .anonymous (h.ready.kept.valid.storable hshelf) hhead rfl]

/-- At the end of a run every shelf has the most recent writes. -/
theorem run_recent (h : session.Sound root base lib) (hmax : session.store.maxHistory = max)
    {docs : List Document} (hdocs : Recent max (lib.shelf? domain project id) docs)
    {steps : List Step} (hsteps : ∀ step ∈ steps, step.Ordinary root)
    (hkeep : ∀ step ∈ steps, step.maxHistory max = max) (hnew : session.CreatesNew steps) :
    ∃ lib', (session.run steps).2.Sound root base lib' ∧
      Recent max (lib'.shelf? domain project id)
        ((session.run steps).1.foldl (writtenAfter domain project id) docs) := by
  induction steps generalizing session lib docs with
  | nil => exact ⟨lib, h, hdocs⟩
  | cons step steps ih =>
    obtain ⟨hstep, hrest⟩ := List.forall_mem_cons.mp hsteps
    obtain ⟨hstepMax, hkeep⟩ := List.forall_mem_cons.mp hkeep
    obtain ⟨result, next, lib₁, hnext, hsound, heffect, hnextMax⟩ := step_sound h hstep
    rw [run_cons hnext]
    rw [hmax] at heffect hnextMax
    refine ih hsound (hnextMax.trans hstepMax) (hdocs.after h.ready.kept.valid ?_ heffect) hrest
      hkeep (hnew.tail hnext)
    intro caller d hcreate
    have hcreate : step = .call (.create caller d) := hcreate
    exact shelf?_eq_none h (hnew [] caller d steps (by rw [hcreate, List.nil_append]))

/-- What is answered about a document whose shelf has the most recent writes. -/
theorem answers_of_recent (h : session.Sound root base lib) {docs : List Document}
    (hdocs : Recent max (lib.shelf? domain project id) docs)
    (hstore : Storable domain project id) {caller : Caller} (hauth : caller.authEnabled = false) :
    docs.Pairwise (fun a b => b.updateRevision < a.updateRevision) ∧
      (session.call (.get caller domain project id)).1
        = (match docs.head? with
          | some d => .ok (.document d)
          | none => .error (.keyNotFound (domain ++ "/" ++ project ++ "/" ++ id))) ∧
      ∀ offset limit, (session.call (.history caller domain project id offset limit)).1
        = if docs.isEmpty then .error (.keyNotFound (domain ++ "/" ++ project ++ "/" ++ id))
          else .ok (.listing ⟨if max = 0 then docs.length else min docs.length max,
            page (mostRecent max docs) offset limit⟩) := by
  have hget := Store.get_kept h.ready.kept h.ready.room hstore (h.noLoose _ _) caller
  have hhistory := Store.history_kept h.ready.kept h.ready.room hstore (h.noLoose _ _) caller
  have hok : ∀ labels, authorize session.store.policy caller .get labels = .ok () := by
    intro labels
    rw [authorize, hauth]
    rfl
  cases hshelf : lib.shelf? domain project id with
  | none =>
    rw [hshelf] at hdocs hhistory
    rw [Library.head?, hshelf, Option.map_none] at hget
    obtain rfl : docs = [] := hdocs
    rw [call_of_error rfl hget]
    refine ⟨List.Pairwise.nil, rfl, ?_⟩
    intro offset limit
    rw [call_of_error rfl (hhistory offset limit)]
    rfl
  | some shelf =>
    rw [hshelf] at hdocs hhistory
    have hrecent : shelf.Recent max docs := hdocs
    rw [Library.head?, hshelf, Option.map_some] at hget
    simp only [hok] at hget hhistory
    have hsome : docs.isEmpty = false := by
      rw [List.isEmpty_eq_false_iff]
      intro hnil
      have hhead := hrecent.head
      rw [hnil] at hhead
      cases hhead
    refine ⟨hrecent.newer, ?_, ?_⟩
    · rw [call_of_ok rfl hget, hrecent.head]
    · intro offset limit
      rw [call_of_ok rfl (hhistory offset limit), hrecent.past, length_mostRecent, hsome,
        if_neg Bool.false_ne_true]

/-- **The history of a document are its most recent writes**, the newest first, and its newest copy
is the last of them. A document that was not written since it was deleted has no history. The path
of the directory that the run starts on leaves room for any names below it (`Session.Fresh.short`),
so that no write fails because of the length of a path. -/
theorem run_history {settings : Settings} (hfresh : session.Fresh settings) {steps : List Step}
    (hsteps : ∀ step ∈ steps, step.Ordinary settings.root)
    (hkeep : ∀ settings' policy, Step.reopen settings' policy ∈ steps →
      settings'.maxHistory = settings.maxHistory)
    (hnew : session.CreatesNew steps) {caller : Caller} (hauth : caller.authEnabled = false)
    (hscope : Names.checkScope domain project = .ok ()) (hid : Names.checkId id = .ok ())
    (hfits : ∀ name ∈ [domain, project, id], Fits name) :
    let docs := written (session.run steps).1 domain project id
    docs.Pairwise (fun a b => b.updateRevision < a.updateRevision) ∧
      ((session.run steps).2.call (.get caller domain project id)).1
        = (match docs.head? with
          | some d => .ok (.document d)
          | none => .error (.keyNotFound (domain ++ "/" ++ project ++ "/" ++ id))) ∧
      ∀ offset limit,
        ((session.run steps).2.call (.history caller domain project id offset limit)).1
          = if docs.isEmpty then .error (.keyNotFound (domain ++ "/" ++ project ++ "/" ++ id))
            else .ok (.listing
              ⟨if settings.maxHistory = 0 then docs.length else min docs.length settings.maxHistory,
                page (mostRecent settings.maxHistory docs) offset limit⟩) := by
  intro docs
  obtain ⟨base, hsound⟩ := hfresh.sound
  have hkeep' : ∀ step ∈ steps, step.maxHistory settings.maxHistory = settings.maxHistory := by
    intro step hstep
    cases step with
    | call request => rfl
    | reopen settings' policy => exact hkeep settings' policy hstep
  have hstart : Recent settings.maxHistory (Library.empty.shelf? domain project id) [] := rfl
  obtain ⟨lib, hlast, hrecent⟩ :=
    run_recent hsound hfresh.maxHistory_eq hstart hsteps hkeep' hnew
  exact answers_of_recent hlast hrecent (Storable.of_fits hscope hid hfits) hauth

/-- Where nothing was, the first document is new. -/
theorem createsNew_of_tail {steps : List Step} (hfirst : steps.head? = createSteps.head?)
    (hrest : ∀ caller d, Step.call (.create caller d) ∉ steps.tail) : sample.CreatesNew steps := by
  intro before caller d after hsteps answer
  cases before with
  | nil =>
    rw [hsteps] at hfirst
    cases hfirst
    have hget : ((sample.run []).2.call (.get .anonymous "shop" "web" "timeout")).1
        = .error (.keyNotFound "shop/web/timeout") := rfl
    intro hok
    cases hget.symm.trans hok
  | cons step before => exact absurd (by simp [hsteps]) (hrest caller d)

theorem sampleSteps_createsNew : sample.CreatesNew sampleSteps :=
  createsNew_of_tail rfl (by simp [sampleSteps])

theorem createSteps_createsNew : sample.CreatesNew createSteps :=
  createsNew_of_tail rfl (by simp [createSteps])

theorem run_history_sample :
    (let docs := written (sample.run sampleSteps).1 "shop" "web" "timeout"
    docs.Pairwise (fun a b => b.updateRevision < a.updateRevision) ∧
      ∀ offset limit,
        ((sample.run sampleSteps).2.call
            (.history .anonymous "shop" "web" "timeout" offset limit)).1
          = if docs.isEmpty then .error (.keyNotFound "shop/web/timeout")
            else .ok (.listing ⟨min docs.length 100, page (mostRecent 100 docs) offset limit⟩)) ∧
    (sample.run createSteps).1
      = [(.call (.create .anonymous sampleDocument), .ok (.document sampleDocument))] ∧
    ((sample.run createSteps).2.call (.history .anonymous "shop" "web" "timeout" 0 0)).1
      = .ok (.listing ⟨1, [sampleDocument]⟩) := by
  have hkeep : ∀ settings policy, Step.reopen settings policy ∈ sampleSteps →
      settings.maxHistory = sampleSettings.maxHistory := by
    intro settings policy hmem
    simp only [sampleSteps, List.mem_cons, reduceCtorEq, Step.reopen.injEq, List.not_mem_nil,
      false_or, or_false] at hmem
    rw [hmem.1]
  have hauth : Caller.anonymous.authEnabled = false := rfl
  have hscope : Names.checkScope "shop" "web" = .ok () := rfl
  have hid : Names.checkId "timeout" = .ok () := rfl
  obtain ⟨hnewer, -, hhistory⟩ := run_history sample_fresh sampleSteps_ordinary hkeep
    sampleSteps_createsNew hauth hscope hid (by decide)
  refine ⟨⟨hnewer, hhistory⟩, ?_⟩
  obtain ⟨-, -, hcreated⟩ := run_history sample_fresh createSteps_ordinary (by simp [createSteps])
    createSteps_createsNew hauth hscope hid (by decide)
  obtain ⟨state, hrun⟩ := run_createSteps
  rw [hrun] at hcreated ⊢
  exact ⟨rfl, hcreated 0 0⟩

end Session

end ConfigStore
