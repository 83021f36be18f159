import ConfigStore.Proofs.Library.Copying
import ConfigStore.Proofs.Library.Counting

/-!
# Runs of a session

A run starts with a store that is opened on an empty directory. After that, requests are answered
and the store is opened anew, in any order and with any settings and policies.

* `Step` is one step of a run, `Session.run` runs a list of steps and keeps their results.
* `Session.Fresh` says of a session that it is at the start of a run.
* `Session.Stocked` says that what a session keeps is a library, and `Session.Sound` that there are
  no loose files in it. `Session.Fresh.sound` and `Session.step_sound` establish and preserve this;
  `Session.step_stocked` is about counters and polling records too.
-/

namespace ConfigStore

open Node Disk Files Library

/-- A step of a run. -/
inductive Step
  | call (request : Request)
  | reopen (settings : Settings) (policy : Authorizer)

/-- A step with its result. -/
abbrev Event := Step × Except Failure Answer

/-- The step is about documents and takes names that a file system takes; the directory of the store
stays the same. -/
def Step.Ordinary (root : Path) : Step → Prop
  | .call request => request.Fits ∧ request.OnDocuments
  | .reopen settings _ => settings.root = root

/-- The step is about documents, of whatever names; the directory of the store stays the same. -/
def Step.OnDocuments (root : Path) : Step → Prop
  | .call request => request.OnDocuments
  | .reopen settings _ => settings.root = root

theorem Step.Ordinary.onDocuments {root : Path} {step : Step} (h : step.Ordinary root) :
    step.OnDocuments root := by
  cases step with
  | call request => exact h.2
  | reopen settings policy => exact h

/-- What a step with this result has done to the library. -/
def Step.Effect (max : Nat) (lib : Library) : Event → Library → Prop
  | (.call request, result), lib' => lib.After max request result lib'
  | (.reopen .., _), lib' => lib' = lib

/-- The step is about documents, polling records or the counter of a domain that is accepted, of
whatever names; the directory of the store stays the same. -/
def Step.Accepted (root : Path) : Step → Prop
  | .call request => request.CountsDomain
  | .reopen settings _ => settings.root = root

/-- What a step of any kind with this result has done to the library. -/
def Step.Done (max : Nat) (lib : Library) : Event → Library → Prop
  | (.call request, result), lib' => lib.Served max request result lib'
  | (.reopen .., _), lib' => lib' = lib

/-- A step does what a step about documents does, or it moves a counter on. -/
theorem Step.Done.effect_or_counted {max : Nat} {lib lib' : Library} {event : Event}
    (h : Step.Done max lib event lib') :
    Step.Effect max lib event lib' ∨ ∃ domain n,
      event = (.call (.advance domain), .ok (.revision n)) ∧
        lib' = lib.putLoose domain Layout.counterName (Utf8.encode (toString n.toInt)) := by
  obtain ⟨step, result⟩ := event
  cases step with
  | reopen settings policy => exact .inl h
  | call request =>
    cases request with
    | advance domain =>
      rcases h with ⟨n, hresult, hlib⟩ | hlib
      · exact .inr ⟨domain, n, by rw [hresult], hlib⟩
      · exact .inl hlib
    | _ => exact .inl h

theorem Step.Effect.loose?_eq {max : Nat} {lib lib' : Library} {event : Event}
    (h : Step.Effect max lib event lib') : lib'.loose? = lib.loose? := by
  obtain ⟨step, result⟩ := event
  cases step with
  | call request => exact Library.After.loose?_eq h
  | reopen settings policy => exact congrArg loose? h

/-- Beside the documents of a domain nothing changes but its counter, and that only when it is moved
on. -/
theorem Step.Done.loose?_eq {max : Nat} {lib lib' : Library} {event : Event}
    (h : Step.Done max lib event lib') {domain name : String}
    (hname : name = Layout.counterName → event.1 ≠ .call (.advance domain)) :
    lib'.loose? domain name = lib.loose? domain name := by
  rcases h.effect_or_counted with heffect | ⟨domain', n, rfl, rfl⟩
  · rw [heffect.loose?_eq]
  · refine loose?_putLoose_of_ne _ fun heq => ?_
    cases heq
    exact hname rfl rfl

/-- How many snapshots are kept after a step. -/
def Step.maxHistory (max : Nat) : Step → Nat
  | .call _ => max
  | .reopen settings _ => settings.maxHistory

namespace Session

/-- Takes a step. -/
def step (session : Session) : Step → Except Failure Answer × Session
  | .call request => session.call request
  | .reopen settings policy =>
    let (result, session) := session.reopen (openLocal settings policy)
    (result.map fun _ => .done, session)

/-- Takes one step after the other and gives all of them with their results. -/
def run (session : Session) : List Step → List Event × Session
  | [] => ([], session)
  | step :: steps =>
    let (result, next) := session.step step
    let (trace, last) := next.run steps
    ((step, result) :: trace, last)

/-- A session that has just been opened on a directory that holds nothing. The path of the directory
is so short that what is stored below it has a path that a disk takes, whatever its names: three
names of 255 bytes and the name of a file take up at most 798 bytes. -/
structure Fresh (settings : Settings) (session : Session) : Prop where
  opened : ∃ policy disk, disk.Distinct ∧
    start (openLocal settings policy) disk = .ok session
  empty : ∃ base, reach session.state.disk settings.root = .ok base ∧
    session.state.disk.at? base = some (.dir [])
  short : settings.root.byteLength + 798 ≤ maxPathBytes

/-- What a session keeps is a library, with loose files or without. -/
structure Stocked (root : Path) (base : Place) (lib : Library) (session : Session) : Prop where
  ready : session.store.Ready base lib session.state
  root_eq : session.store.root = root

/-- What a session keeps is a library without loose files. -/
structure Sound (root : Path) (base : Place) (lib : Library) (session : Session) : Prop
    extends session.Stocked root base lib where
  noLoose : ∀ domain name, lib.loose? domain name = none

variable {session next : Session} {root : Path} {base : Place} {lib lib' : Library}

theorem run_cons {result : Except Failure Answer} {s : Step} (h : session.step s = (result, next))
    (steps : List Step) :
    session.run (s :: steps) = ((s, result) :: (next.run steps).1, (next.run steps).2) := by
  rw [run, h]

theorem run_call_cons {result : Except Failure Answer} {request : Request}
    (h : session.call request = (result, next)) (steps : List Step) :
    session.run (.call request :: steps) =
      ((.call request, result) :: (next.run steps).1, (next.run steps).2) :=
  run_cons (s := .call request) h steps

/-- What a step of a run answers is what it answers at the end of the run before it. -/
theorem run_split {steps : List Step} {before after : List Event} {step : Step}
    {result : Except Failure Answer}
    (h : (session.run steps).1 = before ++ (step, result) :: after) :
    ∃ front back, steps = front ++ step :: back ∧ (session.run front).1 = before ∧
      ((session.run front).2.step step).1 = result := by
  induction before generalizing session steps with
  | nil =>
    cases steps with
    | nil => cases h
    | cons s steps =>
      rw [run_cons (Prod.eta _).symm, List.nil_append] at h
      cases h
      exact ⟨[], steps, rfl, rfl, rfl⟩
  | cons event before ih =>
    cases steps with
    | nil => cases h
    | cons s steps =>
      rw [run_cons (Prod.eta _).symm, List.cons_append, List.cons.injEq] at h
      obtain ⟨front, back, rfl, hfront, hresult⟩ := ih h.2
      refine ⟨s :: front, back, rfl, ?_, ?_⟩
      · rw [run_cons (Prod.eta _).symm, hfront, h.1]
      · rw [run_cons (Prod.eta _).symm, hresult]

/-! ## The start -/

theorem start_eq (settings : Settings) (policy : Authorizer) (disk : Node) :
    start (openLocal settings policy) disk =
      match makeDirs settings.root disk with
      | (.ok (), disk) => .ok
        ⟨⟨settings.root, policy, settings.maxHistory⟩,
          ⟨disk, if settings.cache.enabled then some { ttl := settings.cache.ttlSecs } else none⟩⟩
      | (.error refusal, disk) => .error (.disk (.makeDir settings.root) refusal, disk) := by
  simp only [start, openLocal, Files.ensureDir, bind, EStateM.bind]
  rcases makeDirs settings.root disk with ⟨refusal | u, disk'⟩ <;> rfl

/-- A directory that holds nothing stays where it is whatever is put into it. -/
theorem grounded_of_empty {root : Path} {base : Place} {disk : Node} (hd : disk.Distinct)
    (hleads : Leads root base disk) (hempty : disk.at? base = some (.dir [])) :
    Grounded root base disk ∧ ∀ name q, disk.kindAt? (base ++ name :: q) = none := by
  have hbelow : ∀ name q, disk.kindAt? (base ++ name :: q) = none := by
    intro name q
    rw [kindAt?_eq_none_iff, at?_append, hempty]
    rfl
  refine ⟨⟨hd, kindAt?_eq_dir_iff.mpr ⟨_, hempty⟩, fun disk' hkept => ?_⟩, hbelow⟩
  refine hleads.mono fun q hq => hkept q hq ?_
  rintro ⟨rest, rfl⟩
  cases rest with
  | nil => rw [List.append_nil]
  | cons name rest =>
    rw [hbelow] at hq
    cases hq

/-- At the start of a run the store is at its directory, which holds nothing. -/
theorem Fresh.grounded {settings : Settings} (h : session.Fresh settings) :
    session.store.root = settings.root ∧ checkText settings.root = .ok () ∧
      ∃ base, Grounded settings.root base session.state.disk ∧
        ∀ name q, session.state.disk.kindAt? (base ++ name :: q) = none := by
  obtain ⟨policy, disk, hd, hopen⟩ := h.opened
  have hdistinct := (makeDirs_extended hd settings.root).distinct
  rw [start_eq] at hopen
  split at hopen
  next disk' hdirs =>
    rw [hdirs] at hdistinct
    cases hopen
    obtain ⟨base, hreach, hnode⟩ := h.empty
    obtain ⟨htext, hfollow⟩ := reach_eq_ok_iff.mp hreach
    exact ⟨rfl, htext, base, grounded_of_empty hdistinct (leads_of_follow hfollow) hnode⟩
  · cases hopen

/-- At the start of a run a session keeps nothing. -/
theorem Fresh.sound {settings : Settings} (h : session.Fresh settings) :
    ∃ base, session.Sound settings.root base .empty := by
  obtain ⟨hroot, htext, base, hgrounded, hbelow⟩ := h.grounded
  refine ⟨base, ⟨⟨?_, ?_, fun cache hcache => ?_⟩, hroot⟩, fun _ _ => rfl⟩
  · rw [hroot]
    exact ⟨htext, h.short⟩
  · rw [hroot]
    exact ⟨valid_empty, hgrounded, .of_empty hbelow⟩
  · obtain ⟨policy, disk, -, hopen⟩ := h.opened
    rw [start_eq] at hopen
    split at hopen
    · cases hopen
      dsimp only at hcache
      split at hcache
      · cases hcache
        exact Cache.agrees_empty _ _
      · cases hcache
    · cases hopen

theorem Fresh.maxHistory_eq {settings : Settings} (h : session.Fresh settings) :
    session.store.maxHistory = settings.maxHistory := by
  obtain ⟨policy, disk, -, hopen⟩ := h.opened
  rw [start_eq] at hopen
  split at hopen
  · cases hopen
    rfl
  · cases hopen

/-! ## The steps -/

/-- A store that is opened anew keeps what it kept. -/
theorem reopen_stocked (h : session.Stocked root base lib) {settings : Settings}
    (hroot : settings.root = root) (policy : Authorizer) :
    ∃ next, session.step (.reopen settings policy) = (.ok .done, next) ∧
      next.Stocked root base lib ∧ next.store.maxHistory = settings.maxHistory := by
  have hready := h.ready
  have hdirs : makeDirs settings.root session.state.disk = (.ok (), session.state.disk) := by
    have htext := hready.room.text
    have hg := hready.kept.grounded
    rw [h.root_eq, ← hroot] at htext hg
    exact makeDirs_of_leads hg.leads htext hg.isDir
  refine ⟨_, by rw [step, reopen, start_eq, hdirs]; rfl, ⟨⟨?_, ?_, ?_⟩, hroot⟩, rfl⟩
  · show Roomy settings.root
    rw [hroot, ← h.root_eq]
    exact hready.room
  · show Kept settings.root base lib session.state.disk
    rw [hroot, ← h.root_eq]
    exact hready.kept
  · intro cache hcache
    dsimp only at hcache
    split at hcache
    · cases hcache
      exact Cache.agrees_empty _ _
    · cases hcache

/-- Every step does to the library what it says, and keeps the invariant, whatever names are in
it. -/
theorem step_kept (h : session.Sound root base lib) {s : Step} (hs : s.OnDocuments root) :
    ∃ result next lib', session.step s = (result, next) ∧ next.Sound root base lib' ∧
      Step.Effect session.store.maxHistory lib (s, result) lib' ∧
      next.store.maxHistory = s.maxHistory session.store.maxHistory := by
  cases s with
  | call request =>
    obtain ⟨result, lib', state', hcall, hready, hafter⟩ := call_kept h.ready hs
    refine ⟨result, _, lib', hcall, ⟨⟨hready, h.root_eq⟩, fun domain name => ?_⟩, hafter, rfl⟩
    rw [hafter.loose?_eq, h.noLoose]
  | reopen settings policy =>
    obtain ⟨next, hstep, hstocked, hmax⟩ := reopen_stocked h.toStocked hs policy
    exact ⟨_, next, lib, hstep, ⟨hstocked, h.noLoose⟩, rfl, hmax⟩

theorem step_sound (h : session.Sound root base lib) {s : Step} (hs : s.Ordinary root) :
    ∃ result next lib', session.step s = (result, next) ∧ next.Sound root base lib' ∧
      Step.Effect session.store.maxHistory lib (s, result) lib' ∧
      next.store.maxHistory = s.maxHistory session.store.maxHistory :=
  step_kept h hs.onDocuments

/-- A document is created if its names are accepted and fit and the caller may create it. -/
theorem call_create (h : session.Sound root base lib) (caller : Caller) {d : Document}
    (hstore : Storable d.domain d.project d.id)
    (hauth : authorize session.store.policy caller .create d.labels = .ok ()) :
    ∃ state, session.call (.create caller d) = (.ok (.document d), { session with state }) ∧
      Sound root base (lib.write session.store.maxHistory d) { session with state } ∧
      state.cache = session.state.cache.map (·.put [d]) := by
  obtain ⟨state, hwrite, hready⟩ := Store.write_ready h.ready hstore (h.noLoose _ _)
  have hok : session.store.create caller d session.state = .ok d state := by
    simp only [Store.create, bind, EStateM.bind, Names.checkDocument_eq_ok_iff.mpr
      ⟨hstore.scope, hstore.document⟩, hauth, Store.require_ok, hwrite]
    rfl
  exact ⟨state, call_of_ok rfl hok, ⟨⟨hready, h.root_eq⟩, h.noLoose⟩,
    (Store.cache_of_create hok).2⟩

/-- The newest copy of a document is read if the caller may read it. -/
theorem call_get (h : session.Sound root base lib) (caller : Caller) {domain project id : String}
    (hstore : Storable domain project id) {d : Document}
    (hhead : lib.head? domain project id = some d)
    (hauth : authorize session.store.policy caller .get d.labels = .ok ()) :
    session.call (.get caller domain project id) = (.ok (.document d), session) := by
  have hget := Store.get_kept h.ready.kept h.ready.room hstore (h.noLoose _ _) caller
  simp only [hhead, hauth] at hget
  rw [call_of_ok rfl hget]

/-- What is given as a document is the newest copy on its shelf. -/
theorem Stocked.head?_of_get (h : session.Stocked root base lib) {caller : Caller}
    {domain project id : String} {d : Document}
    (hget : (session.call (.get caller domain project id)).1 = .ok (.document d)) :
    lib.head? domain project id = some d := by
  cases hanswer : session.store.get caller domain project id session.state with
  | error failure state =>
    rw [call_of_error rfl hanswer] at hget
    cases hget
  | ok e state =>
    rw [call_of_ok rfl hanswer] at hget
    cases hget
    obtain ⟨u, mid, hfirst, hrest⟩ := bind_eq_ok_iff.mp hanswer
    obtain ⟨hscope, rfl⟩ := require_eq_ok_iff.mp hfirst
    obtain ⟨u, mid, hsecond, hrest⟩ := bind_eq_ok_iff.mp hrest
    obtain ⟨hid, rfl⟩ := require_eq_ok_iff.mp hsecond
    obtain ⟨e, mid, hread, hrest⟩ := bind_eq_ok_iff.mp hrest
    obtain ⟨u, last, -, hend⟩ := bind_eq_ok_iff.mp hrest
    obtain ⟨rfl, -⟩ := pure_eq_ok_iff.mp hend
    exact h.ready.kept.head?_of_read hscope hid (onDisk_eq_ok_iff.mp hread).1

/-- Without authorization the newest copy on a shelf is given, whatever stands beside the
documents. -/
theorem Stocked.get_eq_ok_iff (h : session.Stocked root base lib) {caller : Caller}
    (hauth : caller.authEnabled = false) {domain project id : String} {d : Document} :
    (session.call (.get caller domain project id)).1 = .ok (.document d) ↔
      lib.head? domain project id = some d := by
  refine ⟨h.head?_of_get, fun hhead => ?_⟩
  obtain ⟨shelf, hshelf, -⟩ := head?_eq_some_iff.mp hhead
  have hstore := h.ready.kept.valid.storable hshelf
  have hloose : lib.loose? domain project = none :=
    h.ready.kept.holds.loose?_eq_none hstore.notReserved (by rw [hshelf]; rfl)
  have hget := Store.get_kept h.ready.kept h.ready.room hstore hloose caller
  have hok : authorize session.store.policy caller .get d.labels = .ok () := by
    rw [authorize, hauth]
    rfl
  simp only [hhead, hok] at hget
  rw [call_of_ok rfl hget]

/-! ## All requests -/

/-- Every step does to the library what it says, and keeps the invariant, whatever it is about. -/
theorem step_stocked (h : session.Stocked root base lib) {s : Step} (hs : s.Accepted root) :
    ∃ result next lib', session.step s = (result, next) ∧ next.Stocked root base lib' ∧
      Step.Done session.store.maxHistory lib (s, result) lib' ∧
      next.store.maxHistory = s.maxHistory session.store.maxHistory := by
  cases s with
  | call request =>
    obtain ⟨result, lib', state', hcall, hready, hserved⟩ := call_served h.ready hs
    exact ⟨result, _, lib', hcall, ⟨hready, h.root_eq⟩, hserved, rfl⟩
  | reopen settings policy =>
    obtain ⟨next, hstep, hstocked, hmax⟩ := reopen_stocked h hs policy
    exact ⟨_, next, lib, hstep, hstocked, rfl, hmax⟩

/-- At the end of every run what a session keeps is a library. -/
theorem run_stocked (h : session.Stocked root base lib) {steps : List Step}
    (hsteps : ∀ step ∈ steps, step.Accepted root) :
    ∃ lib', (session.run steps).2.Stocked root base lib' := by
  induction steps generalizing session lib with
  | nil => exact ⟨lib, h⟩
  | cons step steps ih =>
    obtain ⟨hstep, hsteps⟩ := List.forall_mem_cons.mp hsteps
    obtain ⟨result, next, lib', hnext, hstocked, -, -⟩ := step_stocked h hstep
    rw [run_cons hnext]
    exact ih hstocked hsteps

/-! ## A run -/

/-- Settings for the run below. -/
def sampleSettings : Settings := .atRoot (.ofText "/kvs")

/-- A store that was opened where nothing was. -/
def sample : Session where
  store := { root := sampleSettings.root }
  state := ⟨.dir [("kvs", .dir [])], some { ttl := sampleSettings.cache.ttlSecs }⟩

/-- A document for the run below. -/
def sampleDocument : Document :=
  { id := "timeout", domain := "shop", project := "web", key := "timeout", value := "30",
    updateRevision := 1 }

/-- A document is created and updated; then the store is opened without a cache, and snapshots are
deleted. -/
def sampleSteps : List Step := [
  .call (.create .anonymous sampleDocument),
  .call (.update .anonymous { sampleDocument with value := "60", updateRevision := 2 }),
  .reopen { sampleSettings with cache := .disabled } .allowAll,
  .call (.addHistory sampleDocument)]

theorem sample_fresh : sample.Fresh sampleSettings where
  opened := ⟨.allowAll, .dir [], distinct_dir_nil, rfl⟩
  empty := ⟨_, rfl, rfl⟩
  short := by decide

theorem sampleSteps_ordinary : ∀ step ∈ sampleSteps, step.Ordinary sampleSettings.root := by
  simp only [sampleSteps, List.forall_mem_cons, List.not_mem_nil, false_implies, implies_true,
    and_true, Step.Ordinary, Request.Fits, Request.OnDocuments, Fits]
  decide

/-- The first of these steps. -/
def createSteps : List Step := [.call (.create .anonymous sampleDocument)]

theorem createSteps_ordinary : ∀ step ∈ createSteps, step.Ordinary sampleSettings.root :=
  fun _ hstep => sampleSteps_ordinary _ (List.mem_append_left sampleSteps.tail hstep)

/-- The document is created, and the answer says so. -/
theorem run_createSteps : ∃ state, sample.run createSteps =
    ([(.call (.create .anonymous sampleDocument), .ok (.document sampleDocument))],
      { sample with state }) := by
  obtain ⟨base, hsound⟩ := sample_fresh.sound
  have hstore : Storable sampleDocument.domain sampleDocument.project sampleDocument.id :=
    .of_fits rfl rfl (by decide)
  obtain ⟨state, hcall, -⟩ := call_create hsound .anonymous hstore rfl
  exact ⟨state, run_call_cons hcall []⟩

end Session

end ConfigStore
