import ConfigStore.Proofs.Library.Settling
import ConfigStore.Proofs.Session.Listing

/-!
# Scans that come in late

While a scan of the disk goes on, the documents that it has read may be changed or deleted; what it
has read comes into the cache all the same, at any time and any number of times. If the cache keeps
its copies and no document is written with a revision that it had before, this makes no difference:
a listing still gives what the store holds.

* `LateStep` is a step of such a run and `Session.runLate` runs a list of them.
* `Rising` and `Session.Overtaken` say what is assumed of the writes and of the late scans.
* `Session.Settled` is the invariant; `Settled.call`, `Settled.backfill` and `Settled.refresh` are
  its steps, and `Session.runLate_settled` the run.
* `Session.runLate_list` is the result.
-/

namespace ConfigStore

open Node Disk Library Catalogue

/-! ## Runs with late scans -/

/-- A step of a run with late scans: a request is answered, documents that a scan has read come into
the cache, or the cache is swept. -/
inductive LateStep
  | call (request : Request)
  | backfill (docs : List Document)
  | sweep

/-- Requests are about documents. -/
def LateStep.OnDocuments : LateStep → Prop
  | .call request => request.OnDocuments
  | .backfill _ | .sweep => True

/-- The document that a step has written. -/
def writeOf : Event → Option Document
  | (.call (.create ..), .ok (.document d)) => some d
  | (.call (.update ..), .ok (.document d)) => some d
  | _ => none

/-- All documents as they were written, the first first. -/
def writes (trace : List Event) : List Document := trace.filterMap writeOf

/-- Every write of a document has a later revision than all writes of it before, also than those
before it was deleted. -/
def Rising (trace : List Event) : Prop :=
  (writes trace).Pairwise fun a b => a.Beside b → a.updateRevision < b.updateRevision

theorem writes_nil : writes [] = [] := rfl

theorem writes_cons (event : Event) (trace : List Event) :
    writes (event :: trace) = (writeOf event).toList ++ writes trace := by
  rw [writes, List.filterMap_cons, writes]
  cases writeOf event <;> rfl

theorem writes_concat (trace : List Event) (event : Event) :
    writes (trace ++ [event]) = writes trace ++ (writeOf event).toList := by
  rw [writes, List.filterMap_append, writes]
  cases h : writeOf event <;> simp [h]

theorem ofTrace_concat (trace : List Event) (event : Event) :
    ofTrace (trace ++ [event]) = (ofTrace trace).after event := by
  simp [ofTrace]

/-- A write with a later revision than all before. -/
theorem Rising.last {trace : List Event} {event : Event} {d : Document}
    (h : Rising (trace ++ [event])) (hwrite : writeOf event = some d) :
    ∀ e ∈ writes trace, e.Beside d → e.updateRevision < d.updateRevision := by
  rw [Rising, writes_concat, hwrite] at h
  exact fun e he => (List.pairwise_append.mp h).2.2 e he d (by simp)

namespace Session

/-- Takes a step, and keeps what a request was answered. -/
def lateStep (session : Session) : LateStep → List Event × Session
  | .call request =>
    let (result, next) := session.call request
    ([(.call request, result)], next)
  | .backfill docs => ([], session.changeCache fun cache => (cache.backfill docs).2)
  | .sweep => ([], session.refresh)

/-- Takes one step after the other. -/
def runLate (session : Session) : List LateStep → List Event × Session
  | [] => ([], session)
  | step :: steps =>
    let (events, next) := session.lateStep step
    let (trace, last) := next.runLate steps
    (events ++ trace, last)

/-- A late scan brings in only what was stored at some earlier moment of the run. -/
def Overtaken (session : Session) (steps : List LateStep) : Prop :=
  ∀ before docs after, steps = before ++ .backfill docs :: after → ∀ d ∈ docs,
    ∃ first, first <+: before ∧
      ((session.runLate first).2.call (.get .anonymous d.domain d.project d.id)).1
        = .ok (.document d)

variable {session : Session} {root : Path} {base : Place} {lib lib' : Library} {c c' : Cache}
  {trace : List Event} {steps : List LateStep} {request : Request} {docs : List Document}
  {d : Document} {domain project id : String}

theorem runLate_append (session : Session) (steps rest : List LateStep) :
    session.runLate (steps ++ rest) =
      ((session.runLate steps).1 ++ ((session.runLate steps).2.runLate rest).1,
        ((session.runLate steps).2.runLate rest).2) := by
  induction steps generalizing session with
  | nil => rfl
  | cons step steps ih =>
    rw [List.cons_append, runLate, runLate]
    simp only [ih, List.append_assoc]

theorem runLate_concat (session : Session) (steps : List LateStep) (step : LateStep) :
    session.runLate (steps ++ [step]) =
      ((session.runLate steps).1 ++ ((session.runLate steps).2.lateStep step).1,
        ((session.runLate steps).2.lateStep step).2) := by
  rw [runLate_append]
  simp [runLate]

/-! ## The invariant -/

/-- What is kept and what the cache has are told by the answers of the run. -/
structure Settled (root : Path) (base : Place) (lib : Library) (trace : List Event)
    (session : Session) : Prop where
  sound : session.Sound root base lib
  mirrors : (ofTrace trace).Mirrors lib
  chronicled : lib.Chronicled (writes trace)
  cached : ∃ c, session.state.cache = some c ∧ c.Settled lib (writes trace)

/-- A request that writes or deletes nothing brings only newest copies into the cache. -/
theorem settled_of_lookup (hvalid : lib.Valid) (hdocs : lib.Chronicled docs)
    (h : c.Settled lib docs)
    (hlookup : ∃ found, (∀ d ∈ found, lib.head? d.domain d.project d.id = some d) ∧
      c' = (c.backfill found).2) : c'.Settled lib docs := by
  obtain ⟨found, hfound, rfl⟩ := hlookup
  exact h.backfill hvalid hdocs fun d hd => hdocs.heads d (hfound d hd)

/-- A document that was written is the newest copy, in the library and in the cache. -/
theorem settled_of_write (hvalid : lib.Valid) (hdocs : lib.Chronicled docs)
    (h : c.Settled lib docs) {max : Nat} (hvalid' : (lib.write max d).Valid)
    (hrising : ∀ e ∈ docs, e.Beside d → e.updateRevision < d.updateRevision) :
    (lib.write max d).Chronicled (docs ++ [d]) ∧
      (c.put [d]).Settled (lib.write max d) (docs ++ [d]) :=
  have hstore := hvalid'.storable_head (head?_write lib max d)
  ⟨hdocs.write hstore hrising max, h.put hvalid hdocs hstore max⟩

/-- What a request does to the library and to the cache keeps them in step with what was written. -/
theorem settled_after (hvalid : lib.Valid) (hvalid' : lib'.Valid)
    (hdocs : lib.Chronicled (writes trace)) (h : c.Settled lib (writes trace)) {max : Nat}
    {result : Except Failure Answer} (hafter : lib.After max request result lib')
    (hcopies : c.After lib request result c')
    (hrising : Rising (trace ++ [(.call request, result)])) :
    lib'.Chronicled (writes (trace ++ [(.call request, result)])) ∧
      c'.Settled lib' (writes (trace ++ [(.call request, result)])) := by
  have hnothing : ∀ {request : Request} {result : Except Failure Answer},
      writeOf (.call request, result) = none →
      writes (trace ++ [(.call request, result)]) = writes trace := by
    intro request result hnone
    simp [writes_concat, hnone]
  cases request with
  | create caller d =>
    cases result with
    | ok answer =>
      obtain ⟨rfl, rfl⟩ := hafter
      obtain rfl : c' = c.put [d] := hcopies
      rw [writes_concat]
      exact settled_of_write hvalid hdocs h hvalid' (hrising.last rfl)
    | error failure =>
      obtain rfl : lib' = lib := hafter
      rw [hnothing rfl]
      exact ⟨hdocs, settled_of_lookup hvalid hdocs h hcopies⟩
  | update caller d =>
    cases result with
    | ok answer =>
      obtain ⟨old, -, -, rfl, rfl⟩ := hafter
      obtain rfl : c' = c.put [old.merge d] := hcopies
      rw [writes_concat]
      exact settled_of_write hvalid hdocs h hvalid' (hrising.last rfl)
    | error failure =>
      obtain rfl : lib' = lib := hafter
      rw [hnothing rfl]
      exact ⟨hdocs, settled_of_lookup hvalid hdocs h hcopies⟩
  | deleteOne caller domain project id =>
    cases result with
    | ok answer =>
      obtain ⟨d, rfl, hhead, rfl⟩ := hafter
      obtain rfl : c' = c.evict [d] := hcopies
      rw [hnothing rfl]
      exact ⟨hdocs.of_head? fun e he => (head?_of_clear he).2,
        h.evict hvalid hdocs fun e => Catalogue.Mirrors.mem_head_iff hhead⟩
    | error failure =>
      obtain rfl : lib' = lib := hafter
      rw [hnothing rfl]
      exact ⟨hdocs, settled_of_lookup hvalid hdocs h hcopies⟩
  | deleteMany caller domain project ids =>
    cases result with
    | ok answer =>
      obtain ⟨gone, rfl, hheads, rfl⟩ := hafter
      obtain rfl : c' = c.evict gone := hcopies
      rw [hnothing rfl]
      exact ⟨hdocs.of_head? fun e he => (head?_of_clear he).2,
        h.evict hvalid hdocs fun e => Mirrors.mem_heads_iff hheads⟩
    | error failure =>
      obtain rfl : lib' = lib := hafter
      rw [hnothing rfl]
      exact ⟨hdocs, settled_of_lookup hvalid hdocs h hcopies⟩
  | addHistory d =>
    have htrimmed : Trimmed max lib lib' := hafter
    rw [hnothing rfl]
    refine ⟨hdocs.of_head? fun e he => by rwa [← htrimmed.head?_eq], ?_⟩
    exact (settled_of_lookup hvalid hdocs h hcopies).of_head?_eq htrimmed.head?_eq
  | _ =>
    obtain rfl : lib' = lib := hafter
    rw [hnothing rfl]
    exact ⟨hdocs, settled_of_lookup hvalid hdocs h hcopies⟩

namespace Settled

/-- An answer to a request keeps the invariant if it is no write of an old revision. -/
theorem call (h : session.Settled root base lib trace) (hdocs : request.OnDocuments)
    (hrising : Rising (trace ++ [(.call request, (session.call request).1)])) :
    ∃ lib', (session.call request).2.Settled root base lib'
      (trace ++ [(.call request, (session.call request).1)]) := by
  have hvalid := h.sound.ready.kept.valid
  obtain ⟨c, hcache, hsettled⟩ := h.cached
  obtain ⟨c', hcache', hcopies⟩ :=
    call_copies h.sound.ready hcache hsettled.lasting hdocs
  obtain ⟨result, next, lib', hstep, hsound, heffect, -⟩ :=
    step_kept h.sound (s := .call request) hdocs
  have hcall : session.call request = (result, next) := hstep
  rw [hcall] at hcache' hcopies hrising ⊢
  obtain ⟨hchronicled, hsettled'⟩ := settled_after hvalid hsound.ready.kept.valid h.chronicled
    hsettled heffect hcopies hrising
  refine ⟨lib', hsound, ?_, hchronicled, c', hcache', hsettled'⟩
  rw [ofTrace_concat]
  exact h.mirrors.after hvalid heffect

/-- A scan that comes in late keeps the invariant. -/
theorem backfill (h : session.Settled root base lib trace) (hlate : ∀ d ∈ docs, d ∈ writes trace) :
    (session.changeCache fun cache => (cache.backfill docs).2).Settled root base lib trace := by
  obtain ⟨c, hcache, hsettled⟩ := h.cached
  have hready := h.sound.ready
  have hsettled' := hsettled.backfill hready.kept.valid h.chronicled hlate
  have hcache' : (session.changeCache fun cache => (cache.backfill docs).2).state.cache
      = some (c.backfill docs).2 := by
    rw [changeCache, hcache]
    rfl
  refine ⟨⟨⟨⟨hready.room, hready.kept, fun cache hsome => ?_⟩, h.sound.root_eq⟩, h.sound.noLoose⟩,
    h.mirrors, h.chronicled, _, hcache', hsettled'⟩
  rw [hcache'] at hsome
  exact Option.some.inj hsome ▸ hsettled'.agrees

/-- Sweeping changes nothing. -/
theorem refresh (h : session.Settled root base lib trace) :
    session.refresh.Settled root base lib trace := by
  obtain ⟨c, hcache, hsettled⟩ := h.cached
  have hsame : session.refresh = session := by
    obtain ⟨store, ⟨disk, cache⟩⟩ := session
    obtain rfl : cache = some c := hcache
    simp [Session.refresh, changeCache, hsettled.sweep]
  rwa [hsame]

end Settled

/-! ## The run -/

theorem writes_runLate_sublist (session : Session) {first steps : List LateStep}
    (h : first <+: steps) :
    (writes (session.runLate first).1).Sublist (writes (session.runLate steps).1) := by
  obtain ⟨rest, rfl⟩ := h
  rw [runLate_append, writes, writes, List.filterMap_append]
  exact List.sublist_append_left _ _

theorem Overtaken.of_prefix {first : List LateStep} (h : session.Overtaken steps)
    (hfirst : first <+: steps) : session.Overtaken first := by
  obtain ⟨rest, rfl⟩ := hfirst
  rintro before docs after rfl d hd
  exact h before docs (after ++ rest) (by simp) d hd

/-- At the end of a run with late scans the cache has the newest copies of what the store keeps. -/
theorem runLate_settled (h : session.Settled root base lib [])
    (hdocs : ∀ step ∈ steps, step.OnDocuments) (hrising : Rising (session.runLate steps).1)
    (hlate : session.Overtaken steps) :
    ∃ lib', (session.runLate steps).2.Settled root base lib' (session.runLate steps).1 := by
  -- a late scan is justified at any earlier moment, not just by the step before it
  induction hlength : steps.length using Nat.strong_induction_on generalizing steps with
  | _ n ih =>
    have hearlier : ∀ first, first <+: steps → first.length < n →
        ∃ lib', (session.runLate first).2.Settled root base lib' (session.runLate first).1 := by
      intro first hfirst hshort
      refine ih first.length hshort (fun step hstep => hdocs step (hfirst.subset hstep)) ?_
        (hlate.of_prefix hfirst) rfl
      exact List.Pairwise.sublist (writes_runLate_sublist session hfirst) hrising
    rcases List.eq_nil_or_concat steps with rfl | ⟨before, step, rfl⟩
    · exact ⟨lib, h⟩
    · rw [List.concat_eq_append] at *
      obtain ⟨lib₁, hbefore⟩ := hearlier before (List.prefix_append _ _) (by simp [← hlength])
      have hstep := hdocs step (by simp)
      rw [runLate_concat] at hrising ⊢
      cases step with
      | call request => exact hbefore.call hstep hrising
      | backfill docs =>
        rw [lateStep, List.append_nil]
        refine ⟨lib₁, hbefore.backfill fun d hd => ?_⟩
        obtain ⟨first, hfirst, hget⟩ := hlate before docs [] rfl d hd
        obtain ⟨lib₀, hsettled⟩ := hearlier first (hfirst.trans (List.prefix_append _ _)) (by
          have := hfirst.length_le
          simp only [← hlength, List.length_append, List.length_singleton]
          omega)
        have hwritten := hsettled.chronicled.heads d (hsettled.sound.head?_of_get hget)
        exact (writes_runLate_sublist session hfirst).subset hwritten
      | sweep =>
        rw [lateStep, List.append_nil]
        exact ⟨lib₁, hbefore.refresh⟩

/-- Before the first request there is nothing in the store and nothing in the cache. -/
theorem Fresh.settled {settings : Settings} (h : session.Fresh settings)
    (henabled : settings.cache.enabled = true) (hlasting : settings.cache.ttlSecs ≠ 0) :
    ∃ base, session.Settled settings.root base .empty [] := by
  obtain ⟨base, hsound⟩ := h.sound
  obtain ⟨policy, disk, -, hopen⟩ := h.opened
  refine ⟨base, hsound, mirrors_empty, .empty, { ttl := settings.cache.ttlSecs }, ?_, .empty ?_⟩
  · rw [start_eq] at hopen
    split at hopen
    · cases hopen
      simp [henabled]
    · cases hopen
  · simpa [Cache.expiresAtOnce] using hlasting

/-! ## Listings -/

/-- Whatever the names of the project, a listing that is given is a page of what the catalogue
holds. -/
theorem list_answer_of_mirrors {c : Catalogue} (h : session.Sound root base lib)
    (hc : c.Mirrors lib) (caller : Caller) {query : Query} (hquery : query.isUnique = false)
    {answer : Answer}
    (hanswer : (session.call (.list caller domain project query)).1 = .ok answer) :
    ∃ docs, docs.Perm (visible session.store.policy caller
        ((c.inScope domain project).filter query.accepts)) ∧
      docs.Pairwise Document.Before ∧
      answer = .listing ⟨docs.length, page docs query.offset query.limit⟩ := by
  cases hlist : session.store.list caller domain project query session.state with
  | error failure state' =>
    rw [call_of_error rfl hlist] at hanswer
    cases hanswer
  | ok listing state' =>
    by_cases hfits : ∀ name ∈ [domain, project], Fits name
    · have hscope : Names.checkScope domain project = .ok () := by
        obtain ⟨docs, mid, hfind, -⟩ := bind_eq_ok_iff.mp hlist
        obtain ⟨u, mid', hcheck, -⟩ := bind_eq_ok_iff.mp hfind
        exact (require_eq_ok_iff.mp hcheck).1
      obtain ⟨docs, hperm, hsorted, hgiven⟩ := list_of_mirrors h hc caller hscope hfits hquery
      rw [hgiven] at hanswer
      exact ⟨docs, hperm, hsorted, (Except.ok.inj hanswer).symm⟩
    · obtain ⟨docs, mid, hfind, hend⟩ := bind_eq_ok_iff.mp hlist
      obtain ⟨rfl, -⟩ := pure_eq_ok_iff.mp hend
      obtain rfl := Store.find_unfit h.ready hfits hfind
      have hempty : c.inScope domain project = [] := by
        refine List.eq_nil_iff_forall_not_mem.mpr fun d hd => ?_
        obtain ⟨hmem, rfl, rfl⟩ := mem_inScope.mp hd
        have hhead := (hc.mem_iff d).mp hmem
        rw [Library.head?, Store.shelf?_unfit h.ready.kept.valid hfits] at hhead
        cases hhead
      have hnothing : visible session.store.policy caller [] = [] :=
        List.sublist_nil.mp (visible_sublist session.store.policy caller [])
      rw [call_of_ok rfl hlist] at hanswer
      refine ⟨[], by rw [hempty, List.filter_nil, hnothing], List.Pairwise.nil, ?_⟩
      rw [← Except.ok.inj hanswer, hnothing]
      rfl

/-- **Scans that come in late make no difference.** If the cache keeps its copies and no document is
written with a revision that it had before, then whatever was read at earlier moments may come into
the cache at any time: the store answers as the map that its answers make, and a listing is a page
of that map. The path of the directory that the run starts on leaves room for any names below it
(`Session.Fresh.short`). -/
theorem runLate_list {settings : Settings} (hfresh : session.Fresh settings)
    (henabled : settings.cache.enabled = true) (hlasting : settings.cache.ttlSecs ≠ 0)
    (hdocs : ∀ step ∈ steps, step.OnDocuments) (hrising : Rising (session.runLate steps).1)
    (hlate : session.Overtaken steps) (caller : Caller) (domain project : String) {query : Query}
    (hquery : query.isUnique = false) :
    (ofTrace (session.runLate steps).1).Describes (session.runLate steps).2 ∧
      (∀ answer,
        ((session.runLate steps).2.call (.list caller domain project query)).1 = .ok answer →
        ∃ docs, docs.Perm (visible (session.runLate steps).2.store.policy caller
            ((inScope (ofTrace (session.runLate steps).1) domain project).filter query.accepts)) ∧
          docs.Pairwise Document.Before ∧
          answer = .listing ⟨docs.length, page docs query.offset query.limit⟩) ∧
      (Names.checkScope domain project = .ok () → (∀ name ∈ [domain, project], Fits name) →
        ∃ answer,
          ((session.runLate steps).2.call (.list caller domain project query)).1 = .ok answer) := by
  obtain ⟨base, hstart⟩ := hfresh.settled henabled hlasting
  obtain ⟨lib, hlast⟩ := runLate_settled hstart hdocs hrising hlate
  refine ⟨describes_of_mirrors hlast.sound hlast.mirrors, fun answer hanswer => ?_,
    fun hscope hfits => ?_⟩
  · exact list_answer_of_mirrors hlast.sound hlast.mirrors caller hquery hanswer
  · obtain ⟨docs, -, -, hgiven⟩ :=
      list_of_mirrors hlast.sound hlast.mirrors caller hscope hfits hquery
    exact ⟨_, hgiven⟩

/-- The document of the run above, as it is written anew after a deletion. -/
def sampleRevived : Document := { sampleDocument with value := "60", updateRevision := 2 }

/-- A document is created, deleted and created anew; what was read of it at first comes in late,
once when it is deleted and once when it is there again. -/
def sampleLateSteps : List LateStep := [
  .call (.create .anonymous sampleDocument),
  .call (.deleteOne .anonymous "shop" "web" "timeout"),
  .backfill [sampleDocument],
  .call (.create .anonymous sampleRevived),
  .backfill [sampleDocument],
  .sweep]

/-- Whatever a request to create a document is answered, no other document is written. -/
theorem writeOf_create (session : Session) (caller : Caller) (d : Document) :
    (writeOf (.call (.create caller d), (session.call (.create caller d)).1)).toList.Sublist
      [d] := by
  cases hanswer : session.store.create caller d session.state with
  | error failure state =>
    rw [call_of_error rfl hanswer]
    exact List.nil_sublist _
  | ok e state =>
    rw [call_of_ok rfl hanswer, (Store.cache_of_create hanswer).1]
    exact List.Sublist.refl _

theorem sampleLateSteps_rising : Rising (sample.runLate sampleLateSteps).1 := by
  have hdelete : ∀ result,
      writeOf (.call (.deleteOne .anonymous "shop" "web" "timeout"), result) = none :=
    fun _ => rfl
  have hwrites : (writes (sample.runLate sampleLateSteps).1).Sublist
      ([sampleDocument] ++ [sampleRevived]) := by
    simp only [sampleLateSteps, runLate, lateStep, List.cons_append, List.nil_append, writes_cons,
      hdelete, Option.toList_none, writes_nil, List.append_nil]
    exact (writeOf_create ..).append (writeOf_create ..)
  exact List.Pairwise.sublist hwrites (List.pairwise_pair.mpr fun _ => by decide)

theorem sampleLateSteps_overtaken : sample.Overtaken sampleLateSteps := by
  have hread : ((sample.runLate [.call (.create .anonymous sampleDocument)]).2.call
      (.get .anonymous "shop" "web" "timeout")).1 = .ok (.document sampleDocument) := by
    obtain ⟨base, hsound⟩ := sample_fresh.sound
    have hstore : Storable "shop" "web" "timeout" := .of_fits rfl rfl (by decide)
    obtain ⟨state, hcall, hcreated, -⟩ := call_create hsound .anonymous (d := sampleDocument)
      hstore rfl
    rw [runLate, lateStep, hcall]
    exact congrArg Prod.fst (call_get hcreated .anonymous hstore (head?_write ..) rfl)
  have hfirst : ∀ before docs after, sampleLateSteps = before ++ .backfill docs :: after →
      docs = [sampleDocument] ∧ [.call (.create .anonymous sampleDocument)] <+: before := by
    intro before docs after hsteps
    rcases before with - | ⟨s₁, - | ⟨s₂, - | ⟨s₃, - | ⟨s₄, - | ⟨s₅, - | ⟨s₆, before⟩⟩⟩⟩⟩⟩ <;>
      simp [sampleLateSteps] at hsteps
    · simp [hsteps.1, hsteps.2.2.1]
    · simp [hsteps.1, hsteps.2.2.2.2.1]
  intro before docs after hsteps d hd
  obtain ⟨rfl, hbefore⟩ := hfirst before docs after hsteps
  obtain rfl := List.mem_singleton.mp hd
  exact ⟨_, hbefore, hread⟩

theorem runLate_list_sample :
    ∃ docs, docs.Perm (visible (sample.runLate sampleLateSteps).2.store.policy .anonymous
        ((inScope (ofTrace (sample.runLate sampleLateSteps).1) "shop" "web").filter
          ({ key := "timeout" } : Query).accepts)) ∧
      ((sample.runLate sampleLateSteps).2.call (.list .anonymous "shop" "web"
          { key := "timeout" })).1 = .ok (.listing ⟨docs.length, page docs 0 0⟩) := by
  have hdocs : ∀ step ∈ sampleLateSteps, step.OnDocuments := by
    simp [sampleLateSteps, LateStep.OnDocuments, Request.OnDocuments]
  obtain ⟨-, hlist, hgiven⟩ := runLate_list sample_fresh rfl (by decide) hdocs
    sampleLateSteps_rising sampleLateSteps_overtaken .anonymous "shop" "web"
    (rfl : ({ key := "timeout" } : Query).isUnique = false)
  obtain ⟨answer, hanswer⟩ := hgiven rfl (by decide)
  obtain ⟨docs, hperm, -, rfl⟩ := hlist answer hanswer
  exact ⟨docs, hperm, hanswer⟩

end Session

end ConfigStore
