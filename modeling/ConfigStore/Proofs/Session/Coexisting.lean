import ConfigStore.Proofs.Session.Counters

/-!
# Names beside the files of a store

Documents share a tree with counters, with polling records and with documents that are put aside.
The checks of names keep them apart, so a document whose names are accepted can always be created,
listed and counted, and is never in the way of a counter. There is one exception: the counter of a
domain is kept beside the projects of that domain, and a project may have the name of its file.

* `Session.Furnished` is the invariant: beside the projects of a domain there is nothing but its
  counter. `Session.run_furnished` says that every run keeps it.
* `Session.Furnished.call_create`, `Session.Furnished.call_list` and `Session.Furnished.call_total`
  are the requests about documents.
* `Session.run_coexists` is the result, and `Session.create_over_counter` the exception.
-/

namespace ConfigStore

open Node Disk Library

namespace Store

variable {s : Store} {base : Place} {lib : Library} {state : StoreState}
  {domain project : String}

/-- A scope whose names fit can be searched, whatever is looked for. -/
theorem find_succeeds (h : s.Ready base lib state)
    (hscope : Names.checkScope domain project = .ok ())
    (hnames : ∀ n ∈ [domain, project], IsName n) (hloose : lib.loose? domain project = none)
    (query : Query) : ∃ docs state', s.find domain project query state = .ok docs state' := by
  obtain ⟨found, mid, hsearch, hready, -⟩ := searchCache_ready h hscope query
  obtain ⟨ids, -, hscan⟩ := hready.kept.scan h.room hscope hnames hloose query found.cachedIds
  rw [find_eq hscope hsearch]
  split
  · exact ⟨_, _, rfl⟩
  · rw [hscan]
    exact ⟨_, _, rfl⟩

end Store

namespace Session

/-- What a session keeps is a library, and no file stands beside the projects of a domain but the
counter of that domain. -/
structure Furnished (root : Path) (base : Place) (lib : Library) (session : Session) : Prop
    extends session.Stocked root base lib where
  counters : ∀ domain name, name ≠ Layout.counterName → lib.loose? domain name = none

variable {session next : Session} {settings : Settings} {root : Path} {base : Place} {lib : Library}
  {step : Step} {steps more : List Step} {d : Document} {caller : Caller} {domain project : String}

theorem Fresh.furnished (h : session.Fresh settings) :
    ∃ base, session.Furnished settings.root base .empty := by
  obtain ⟨base, hsound⟩ := h.sound
  exact ⟨base, hsound.toStocked, fun _ _ _ => rfl⟩

/-! ## Runs -/

/-- A run goes on where the run before it ended. -/
theorem run_append_snd (session : Session) (steps more : List Step) :
    (session.run (steps ++ more)).2 = ((session.run steps).2.run more).2 := by
  induction steps generalizing session with
  | nil => rfl
  | cons step steps ih =>
    rw [List.cons_append, run_cons (Prod.eta _).symm, run_cons (Prod.eta _).symm]
    exact ih _

theorem step_furnished (h : session.Furnished root base lib) (hs : step.Accepted root) :
    ∃ result next lib', session.step step = (result, next) ∧ next.Furnished root base lib' := by
  obtain ⟨result, next, lib', hnext, hstocked, hdone, -⟩ := step_stocked h.toStocked hs
  refine ⟨result, next, lib', hnext, hstocked, fun domain name hname => ?_⟩
  rw [hdone.loose?_eq fun heq => absurd heq hname]
  exact h.counters domain name hname

theorem run_furnished (h : session.Furnished root base lib)
    (hsteps : ∀ step ∈ steps, step.Accepted root) :
    ∃ lib', (session.run steps).2.Furnished root base lib' := by
  induction steps generalizing session lib with
  | nil => exact ⟨lib, h⟩
  | cons step steps ih =>
    obtain ⟨hstep, hsteps⟩ := List.forall_mem_cons.mp hsteps
    obtain ⟨result, next, lib', hnext, hfurnished⟩ := step_furnished h hstep
    rw [run_cons hnext]
    exact ih hfurnished hsteps

/-! ## Requests -/

/-- A document whose names are accepted and fit is created, unless its project has the name of
counters. -/
theorem Furnished.call_create (h : session.Furnished root base lib)
    (hstore : Storable d.domain d.project d.id) (hproject : d.project ≠ Layout.counterName)
    (hoff : caller.authEnabled = false) :
    ∃ state, session.call (.create caller d) = (.ok (.document d), { session with state }) := by
  obtain ⟨state, hwrite, -⟩ := Store.write_ready h.ready hstore (h.counters _ _ hproject)
  have hcheck := Names.checkDocument_eq_ok_iff.mpr ⟨hstore.scope, hstore.document⟩
  have hauth : authorize session.store.policy caller .create d.labels = .ok () := by
    rw [authorize, hoff]
    rfl
  have hok : session.store.create caller d session.state = .ok d state := by
    simp only [Store.create, bind, EStateM.bind, hcheck, hauth, Store.require_ok, hwrite]
    rfl
  exact ⟨state, call_of_ok rfl hok⟩

theorem Furnished.call_list (h : session.Furnished root base lib)
    (hscope : Names.checkScope domain project = .ok ())
    (hnames : ∀ n ∈ [domain, project], IsName n) (hproject : project ≠ Layout.counterName)
    (caller : Caller) (query : Query) :
    ∃ page, (session.call (.list caller domain project query)).1 = .ok (.listing page) := by
  obtain ⟨docs, state, hfind⟩ :=
    Store.find_succeeds h.ready hscope hnames (h.counters _ _ hproject) query
  have hlist : session.store.list caller domain project query session.state
      = .ok (.ofFound (visible session.store.policy caller docs) query.offset query.limit)
        state := by
    simp only [Store.list, bind, EStateM.bind, hfind]
    rfl
  exact ⟨_, by rw [call_of_ok rfl hlist]⟩

theorem Furnished.call_total (h : session.Furnished root base lib)
    (hscope : Names.checkScope domain project = .ok ())
    (hnames : ∀ n ∈ [domain, project], IsName n) (hproject : project ≠ Layout.counterName) :
    ∃ n, (session.call (.total domain project)).1 = .ok (.count n) := by
  obtain ⟨ids, -, htotal⟩ :=
    Store.total_kept h.ready.kept h.ready.room hscope hnames (h.counters _ _ hproject)
  exact ⟨ids.length, by rw [call_of_ok rfl htotal]⟩

/-- **Names do not collide.** After any run that starts where nothing is, a document whose names are
accepted and fit can be created, if its project has not the name of counters. However the run goes
on, its project can be listed and counted then, and the counter of its domain can be read and moved
on if no request has been to create a document where that counter is. -/
theorem run_coexists (hfresh : session.Fresh settings)
    (hsteps : ∀ step ∈ steps, step.Accepted settings.root)
    (hmore : ∀ step ∈ more, step.Accepted settings.root)
    (hcheck : Names.checkDocument d = .ok ())
    (hfits : ∀ name ∈ [d.domain, d.project, d.id], Library.Fits name)
    (hproject : d.project ≠ Layout.counterName) (hoff : caller.authEnabled = false) :
    ∃ next, (session.run steps).2.call (.create caller d) = (.ok (.document d), next) ∧
      (∀ reader query, ∃ page,
        ((next.run more).2.call (.list reader d.domain d.project query)).1 = .ok (.listing page)) ∧
      (∃ n, ((next.run more).2.call (.total d.domain d.project)).1 = .ok (.count n)) ∧
      ((∀ step ∈ steps ++ more, ¬step.Occupies d.domain) →
        (∃ n, ((next.run more).2.call (.current d.domain)).1 = .ok (.revision n)) ∧
          ∃ n, ((next.run more).2.call (.advance d.domain)).1 = .ok (.revision n)) := by
  obtain ⟨hscope, hid⟩ := Names.checkDocument_eq_ok_iff.mp hcheck
  have hstore := Storable.of_fits hscope hid hfits
  have hnames : ∀ n ∈ [d.domain, d.project], IsName n :=
    fun n hn => hstore.names n (List.mem_append_left [d.id] hn)
  have hcounts : (Step.call (.create caller d)).Accepted settings.root := trivial
  have hall : ∀ step ∈ steps ++ .call (.create caller d) :: more, step.Accepted settings.root :=
    List.forall_mem_append.mpr ⟨hsteps, List.forall_mem_cons.mpr ⟨hcounts, hmore⟩⟩
  obtain ⟨base, hfurnished⟩ := hfresh.furnished
  obtain ⟨lib, hreached⟩ := run_furnished hfurnished hsteps
  obtain ⟨state, hcreate⟩ := hreached.call_create hstore hproject hoff
  obtain ⟨lib', hlast⟩ := run_furnished hfurnished hall
  have hrun := run_append_snd session steps (.call (.create caller d) :: more)
  rw [run_call_cons hcreate] at hrun
  refine ⟨_, hcreate, ?_⟩
  rw [← hrun]
  refine ⟨hlast.call_list hscope hnames hproject, hlast.call_total hscope hnames hproject,
    fun hnot => ?_⟩
  have hdomain : Counter.IsDomain d.domain :=
    ⟨(Names.checkScope_eq_ok_iff.mp hscope).1, (Names.checkScope_eq_ok_iff.mp hscope).2.1,
      hfits d.domain (List.mem_cons_self ..)⟩
  have hnone : ∀ step ∈ steps ++ .call (.create caller d) :: more, ¬step.Occupies d.domain := by
    obtain ⟨hfirst, hrest⟩ := List.forall_mem_append.mp hnot
    exact List.forall_mem_append.mpr ⟨hfirst, List.forall_mem_cons.mpr
      ⟨fun heq => hproject (Prod.mk.inj heq).2, hrest⟩⟩
  obtain ⟨base', hcounting⟩ := hfresh.counting d.domain
  obtain ⟨lib'', hcounted, hcount⟩ := run_counted hcounting hall hnone hdomain (k := 0) rfl
  obtain ⟨state', hadvance, -⟩ := call_advance hcounted hdomain hcount
  exact ⟨⟨_, by rw [call_current hcounted hdomain hcount]⟩, _, by rw [hadvance]⟩

/-- A counter is moved on, and the document of the run below is created beside it. -/
theorem run_coexists_sample :
    sample.Fresh sampleSettings ∧
      (∀ step ∈ [Step.call (.advance "shop")], step.Accepted sampleSettings.root) ∧
      Names.checkDocument sampleDocument = .ok () ∧
      (∀ name ∈ [sampleDocument.domain, sampleDocument.project, sampleDocument.id],
        Library.Fits name) ∧
      sampleDocument.project ≠ Layout.counterName ∧
      ∃ next, (sample.run [.call (.advance "shop")]).2.call (.create .anonymous sampleDocument)
          = (.ok (.document sampleDocument), next) ∧
        ∃ n, ((next.run [.call (.advance "shop")]).2.call (.advance "shop")).1
          = .ok (.revision n) := by
  have hsteps : ∀ step ∈ [Step.call (.advance "shop")], step.Accepted sampleSettings.root :=
    List.forall_mem_singleton.mpr ⟨by decide, by decide⟩
  have hfits : ∀ name ∈ [sampleDocument.domain, sampleDocument.project, sampleDocument.id],
      Library.Fits name := by decide
  have hnot : ∀ step ∈ [Step.call (.advance "shop")] ++ [.call (.advance "shop")],
      ¬step.Occupies sampleDocument.domain := by
    simp [Step.Occupies]
  have hoff : Caller.anonymous.authEnabled = false := rfl
  obtain ⟨next, hcreate, -, -, hcounter⟩ :=
    run_coexists sample_fresh hsteps hsteps rfl hfits (by decide) hoff
  exact ⟨sample_fresh, hsteps, rfl, hfits, by decide, next, hcreate, (hcounter hnot).2⟩

/-! ## A project with the name of counters -/

/-- A document of a project that has the name of counters. -/
def revisionDocument : Document := { sampleDocument with project := Layout.counterName }

/-- The store is opened anew so that it keeps all revisions, and the document is created. -/
def revisionSteps : List Step := [
  .reopen { sampleSettings with maxHistory := 0 } .allowAll,
  .call (.create .anonymous revisionDocument)]

/-- Its names are accepted and fit, but it cannot be created once the counter of its domain has been
moved on; and once it has been created, the counter of its domain can be neither read nor moved
on. -/
theorem create_over_counter :
    sample.Fresh sampleSettings ∧
      (∀ step ∈ .call (.advance "shop") :: revisionSteps, step.Accepted sampleSettings.root) ∧
      Names.checkDocument revisionDocument = .ok () ∧
      (∀ name ∈ [revisionDocument.domain, revisionDocument.project, revisionDocument.id],
        Library.Fits name) ∧
      (∃ failure, ((sample.run [.call (.advance "shop")]).2.call
        (.create .anonymous revisionDocument)).1 = .error failure) ∧
      (sample.run revisionSteps).1.map (·.2) = [.ok .done, .ok (.document revisionDocument)] ∧
      (∃ failure, ((sample.run revisionSteps).2.call (.current "shop")).1 = .error failure) ∧
      ∃ failure, ((sample.run revisionSteps).2.call (.advance "shop")).1 = .error failure :=
  ⟨sample_fresh, List.forall_mem_cons.mpr ⟨⟨by decide, by decide⟩,
      List.forall_mem_cons.mpr ⟨rfl, List.forall_mem_singleton.mpr trivial⟩⟩,
    rfl, by decide, ⟨_, rfl⟩, rfl, ⟨_, rfl⟩, ⟨_, rfl⟩⟩

end Session

end ConfigStore
