import ConfigStore.Proofs.Session.Fences

/-!
# What counters count

Every domain has a counter of its own. It tells how often it has been moved on, however the moves
are mixed with requests about documents, with polling records, with the counters of other domains,
and with new starts of the store. A counter can always be moved on, as long as no project has taken
the name of its file.

* `Counter.fence` keeps directories from the place of a counter, and `Request.within_counter` says
  which requests stay within this fence. `Session.Counting` is the invariant.
* `Session.call_current` and `Session.call_advance` are the two requests about counters, and
  `Session.step_counted` is what any step does to the value of a counter.
* `Session.run_counters` is the result.
-/

namespace ConfigStore

open Node Disk Deletion Library

/-- The request leaves the places of counters to them: it writes and deletes no document of a
project with the name of counters, and if it moves a counter on, then that of a domain that is
accepted. -/
def Request.SparesCounters : Request → Prop
  | .create _ d => d.project ≠ Layout.counterName
  | .update _ d => d.project ≠ Layout.counterName
  | .deleteOne _ _ project _ => project ≠ Layout.counterName
  | .deleteMany _ _ project _ => project ≠ Layout.counterName
  | request => request.CountsDomain

/-- The step leaves the places of counters to them; the directory of the store stays the same. -/
def Step.SparesCounters (root : Path) : Step → Prop
  | .call request => request.SparesCounters
  | .reopen settings _ => settings.root = root

/-- The step asks for the counter of a domain to be moved on. -/
def Step.advances (domain : String) : Step → Bool
  | .call (.advance other) => other = domain
  | _ => false

/-- How many requests of a run were to move the counter of a domain on. -/
def timesAdvanced (domain : String) (trace : List Event) : Nat :=
  trace.countP (·.1.advances domain)

theorem Step.SparesCounters.accepted {root : Path} {step : Step} (h : step.SparesCounters root) :
    step.Accepted root := by
  cases step with
  | reopen settings policy => exact h
  | call request =>
    cases request with
    | create | update | deleteOne | deleteMany => exact trivial
    | _ => exact h

/-! ## The place of a counter -/

/-- There is no directory at the place of the counter of a domain. -/
def Counter.fence (domain : String) : Fence := fun q kind =>
  q = [domain, Layout.counterName] → kind ≠ some .dir

namespace Counter

variable {domain domain' project' : String}

/-- The directory of a document is apart from a counter, unless its project has the place of it. -/
theorem free_home (h : (domain', project') ≠ (domain, Layout.counterName)) (id' : String) :
    Free (fence domain) (home domain' project' id') where
  above := by
    rintro _ hle rfl
    simp only [List.cons_prefix_cons] at hle
    exact absurd (by rw [hle.1, hle.2.1]) h
  below := by
    rintro _ _ hle rfl
    have hlength := hle.length_le
    simp at hlength

/-- If its project has the place of a counter, it cannot be there. -/
theorem shut_home (h : (domain', project') = (domain, Layout.counterName)) (id' : String) :
    Shut (fence domain) (home domain' project' id') := by
  cases h
  exact ⟨[domain, Layout.counterName], ⟨[id'], rfl⟩, fun hdir => hdir rfl rfl⟩

/-- Documents are put aside apart from counters. -/
theorem free_aside (h : Names.isReserved domain = false) (domain' project' id' : String) :
    Free (fence domain) (aside domain' project' id') where
  above := by
    rintro _ hle rfl
    exact absurd (List.cons_prefix_cons.mp hle).1 (Names.ne_tmpName_of_isReserved h)
  below := by
    rintro _ _ hle rfl
    have hlength := hle.length_le
    simp at hlength

theorem free_or_shut (domain domain' project' id' : String) :
    Free (fence domain) (home domain' project' id') ∨
      Shut (fence domain) (home domain' project' id') := by
  by_cases h : (domain', project') = (domain, Layout.counterName)
  · exact .inr (shut_home h id')
  · exact .inl (free_home h id')

end Counter

/-- No request takes the place of a counter but that to create a document of a project that has its
name. -/
theorem Request.within_counter {request : Request} {domain : String}
    (hreserved : Names.isReserved domain = false) (hcounts : request.CountsDomain)
    (hcreate : ∀ caller d, request = .create caller d →
      (d.domain, d.project) ≠ (domain, Layout.counterName)) :
    request.Within (Counter.fence domain) := by
  cases request with
  | create caller d => exact fun _ => Counter.free_home (hcreate caller d rfl) d.id
  | update caller d => exact fun _ => Counter.free_or_shut ..
  | deleteOne caller domain' project id =>
    exact fun _ => ⟨Counter.free_or_shut .., Counter.free_aside hreserved ..⟩
  | deleteMany caller domain' project ids =>
    exact fun _ id => ⟨Counter.free_or_shut .., Counter.free_aside hreserved ..⟩
  | addHistory d => exact fun here name content _ => .inl fun _ => by simp
  | advance domain' =>
    refine ⟨hcounts.1, ?_, fun content _ => by simp⟩
    rintro _ hle rfl
    have hlength := hle.length_le
    simp at hlength
  | putPolling record =>
    refine ⟨?_, fun hplace => by simp at hplace⟩
    rintro _ hle rfl
    rw [(List.cons_prefix_cons.mp hle).1] at hreserved
    cases hreserved
  | _ => exact trivial

/-- The step asks for a document to be created where the counter of a domain is. -/
def Step.Occupies (domain : String) : Step → Prop
  | .call (.create _ d) => (d.domain, d.project) = (domain, Layout.counterName)
  | _ => False

/-- The step takes the place of a counter from it no more than a request can that is accepted. -/
theorem Step.Accepted.within {root : Path} {step : Step} (h : step.Accepted root) {domain : String}
    (hreserved : Names.isReserved domain = false) (hnot : ¬step.Occupies domain) :
    step.Within (Counter.fence domain) := by
  cases step with
  | reopen settings policy => exact trivial
  | call request =>
    refine Request.within_counter hreserved h fun caller d hrequest heq => ?_
    subst hrequest
    exact hnot heq

theorem Step.SparesCounters.not_occupies {root : Path} {step : Step} (h : step.SparesCounters root)
    (domain : String) : ¬step.Occupies domain := by
  cases step with
  | reopen settings policy => exact id
  | call request =>
    cases request with
    | create caller d => exact fun heq => h (Prod.mk.inj heq).2
    | _ => exact id

namespace Session

/-- What a session keeps is a library, and no directory has the place of the counter of a domain. -/
abbrev Counting (domain : String) (root : Path) (base : Place) (lib : Library)
    (session : Session) : Prop :=
  session.Enclosed (Counter.fence domain) root base lib

variable {session next : Session} {settings : Settings} {root : Path} {base : Place} {lib : Library}
  {domain : String} {step : Step} {steps : List Step}

theorem Fresh.counting (h : session.Fresh settings) (domain : String) :
    ∃ base, session.Counting domain settings.root base .empty :=
  h.enclosed (fun heq => nomatch heq) fun _ _ _ => by simp

/-! ## The steps -/

theorem Counting.bare (h : session.Counting domain root base lib) :
    session.state.disk.kindAt? (base ++ [domain, Layout.counterName]) ≠ some .dir :=
  h.fenced.allowed _ rfl

/-- The value of a counter is given. -/
theorem call_current (h : session.Counting domain root base lib) (hdomain : Counter.IsDomain domain)
    {n : Int64} (hcount : lib.count? domain = some n) :
    session.call (.current domain) = (.ok (.revision n), session) := by
  have hcurrent := h.ready.kept.current_eq h.ready.room hdomain h.bare hcount
  exact call_of_disk_ok rfl hcurrent

/-- A counter is moved on. -/
theorem call_advance (h : session.Counting domain root base lib) (hdomain : Counter.IsDomain domain)
    {n : Int64} (hcount : lib.count? domain = some n) :
    ∃ state, session.call (.advance domain) = (.ok (.revision (n + 1)), { session with state }) ∧
      Counting domain root base
        (lib.putLoose domain Layout.counterName (Utf8.encode (toString (n + 1).toInt)))
        { session with state } := by
  obtain ⟨disk, hadvance, hkept⟩ :=
    h.ready.kept.advance_eq h.ready.room hdomain h.bare hcount
  have hcall : session.call (.advance domain)
      = (.ok (.revision (n + 1)), { session with state := { session.state with disk } }) :=
    call_of_disk_ok rfl hadvance
  have haccepted : (Step.call (.advance domain)).Accepted root :=
    ⟨hdomain.plain, hdomain.notReserved⟩
  obtain ⟨result, next, lib', hnext, hcounting, -⟩ :=
    step_enclosed h haccepted (haccepted.within hdomain.notReserved id)
  cases hcall.symm.trans hnext
  refine ⟨_, hcall, ⟨⟨⟨h.ready.room, hkept, fun cache hcache => ?_⟩, h.root_eq⟩, hcounting.fenced⟩⟩
  exact (h.ready.agrees cache hcache).of_head?_eq fun _ _ _ => rfl

/-! ## The value of a counter -/

theorem toInt_ofNat_of_le {n : Nat} (h : n ≤ Int64.maxValue.toInt) : (Int64.ofNat n).toInt = n := by
  have hmax : Int64.maxValue.toInt = 2 ^ 63 - 1 := rfl
  exact Int64.toInt_ofNat_of_lt (by omega)

/-- A step moves the counter of a domain on by one if it asks for this, and leaves it as it is
otherwise. -/
theorem step_counted (h : session.Counting domain root base lib) (hs : step.Accepted root)
    (hnot : ¬step.Occupies domain) (hdomain : Counter.IsDomain domain) {k : Nat}
    (hcount : lib.count? domain = some (Int64.ofNat k)) :
    ∃ result next lib', session.step step = (result, next) ∧ next.Counting domain root base lib' ∧
      lib'.count? domain = some (Int64.ofNat (k + (step.advances domain).toNat)) := by
  cases hadvances : step.advances domain with
  | true =>
    obtain rfl : step = .call (.advance domain) := by
      unfold Step.advances at hadvances
      split at hadvances
      · rw [of_decide_eq_true hadvances]
      · cases hadvances
    obtain ⟨state, hcall, hcounting⟩ := call_advance h hdomain hcount
    have hsum : Int64.ofNat k + 1 = Int64.ofNat (k + 1) := (Int64.ofNat_add k 1).symm
    refine ⟨_, _, _, hcall, hcounting, ?_⟩
    rw [hsum, Library.count?, loose?_putLoose_self]
    exact Counter.value?_encode _
  | false =>
    obtain ⟨result, next, lib', hnext, hcounting, hdone⟩ :=
      step_enclosed h hs (hs.within hdomain.notReserved hnot)
    refine ⟨result, next, lib', hnext, hcounting, ?_⟩
    have hsame : lib'.loose? domain Layout.counterName = lib.loose? domain Layout.counterName := by
      refine hdone.loose?_eq fun _ hstep => ?_
      obtain rfl : step = .call (.advance domain) := hstep
      simp [Step.advances] at hadvances
    rw [Library.count?, hsame]
    exact hcount

/-- At the end of a run the counter of a domain tells how often it was moved on. -/
theorem run_counted (h : session.Counting domain root base lib)
    (hsteps : ∀ step ∈ steps, step.Accepted root) (hnot : ∀ step ∈ steps, ¬step.Occupies domain)
    (hdomain : Counter.IsDomain domain) {k : Nat}
    (hcount : lib.count? domain = some (Int64.ofNat k)) :
    ∃ lib', (session.run steps).2.Counting domain root base lib' ∧ lib'.count? domain
      = some (Int64.ofNat (k + timesAdvanced domain (session.run steps).1)) := by
  induction steps generalizing session lib k with
  | nil => exact ⟨lib, h, hcount⟩
  | cons step steps ih =>
    obtain ⟨hstep, hsteps⟩ := List.forall_mem_cons.mp hsteps
    obtain ⟨hfirst, hnot⟩ := List.forall_mem_cons.mp hnot
    obtain ⟨result, next, lib', hnext, hcounting, hcount'⟩ :=
      step_counted h hstep hfirst hdomain hcount
    have htimes : timesAdvanced domain ((step, result) :: (next.run steps).1)
        = (step.advances domain).toNat + timesAdvanced domain (next.run steps).1 := by
      rw [timesAdvanced, List.countP_cons, Nat.add_comm]
      cases step.advances domain <;> rfl
    rw [run_cons hnext, htimes, ← Nat.add_assoc]
    exact ih hcounting hsteps hnot hcount'

/-- **Counters are exact.** In a run that starts where nothing is and in which no document of a
project with the name of counters is written or deleted, every request for the counter of a domain
succeeds: what is given is how often the counter has been moved on before, and one more if it is
moved on now. That the path of the directory leaves room for any names below it
(`Session.Fresh.short`) is needed here, for a counter is moved on by writing a file. -/
theorem run_counters (hfresh : session.Fresh settings)
    (hsteps : ∀ step ∈ steps, step.SparesCounters settings.root)
    (hdomain : Counter.IsDomain domain) {before after : List Event} {result : Except Failure Answer}
    (hrun : (session.run steps).1 = before ++ (step, result) :: after)
    (hlimit : timesAdvanced domain before < Int64.maxValue.toInt) :
    (step = .call (.advance domain) → ∃ n, result = .ok (.revision n) ∧
        n.toInt = timesAdvanced domain before + 1) ∧
      (step = .call (.current domain) → ∃ n, result = .ok (.revision n) ∧
        n.toInt = timesAdvanced domain before) := by
  obtain ⟨base, hcounting⟩ := hfresh.counting domain
  obtain ⟨front, back, rfl, rfl, rfl⟩ := run_split hrun
  have hfront : ∀ step ∈ front, step.SparesCounters settings.root :=
    fun step hstep => hsteps step (List.mem_append_left _ hstep)
  obtain ⟨lib, hlast, hcount⟩ := run_counted hcounting
    (fun step hstep => (hfront step hstep).accepted)
    (fun step hstep => (hfront step hstep).not_occupies domain) hdomain (k := 0) rfl
  rw [Nat.zero_add] at hcount
  generalize timesAdvanced domain (session.run front).1 = k at hcount hlimit ⊢
  constructor
  · rintro rfl
    obtain ⟨state, hcall, -⟩ := call_advance hlast hdomain hcount
    refine ⟨Int64.ofNat k + 1, by rw [Session.step, hcall], ?_⟩
    rw [show Int64.ofNat k + 1 = Int64.ofNat (k + 1) from (Int64.ofNat_add k 1).symm,
      toInt_ofNat_of_le (by omega)]
    rfl
  · rintro rfl
    exact ⟨Int64.ofNat k, by rw [Session.step, call_current hlast hdomain hcount],
      toInt_ofNat_of_le (by omega)⟩

/-- The counters of two domains are moved on; in between the store is opened anew and a document is
created. -/
def countingSteps : List Step := [
  .call (.advance "shop"),
  .reopen { sampleSettings with maxHistory := 0 } .allowAll,
  .call (.create .anonymous sampleDocument),
  .call (.advance "blog"),
  .call (.advance "shop"),
  .call (.current "shop")]

theorem run_counters_sample :
    sample.Fresh sampleSettings ∧
      (∀ step ∈ countingSteps, step.SparesCounters sampleSettings.root) ∧
      Counter.IsDomain "shop" ∧
      ∃ before result after,
        (sample.run countingSteps).1 = before ++ (.call (.advance "shop"), result) :: after ∧
          timesAdvanced "shop" before = 1 ∧ ∃ n, result = .ok (.revision n) ∧ n.toInt = 2 := by
  have hsteps : ∀ step ∈ countingSteps, step.SparesCounters sampleSettings.root := by
    simp only [countingSteps, List.forall_mem_cons, List.not_mem_nil, false_implies, implies_true,
      and_true, Step.SparesCounters, Request.SparesCounters, Request.CountsDomain]
    decide
  have hdomain : Counter.IsDomain "shop" := ⟨by decide, by decide, by decide⟩
  have hrun : (sample.run countingSteps).1 = (sample.run (countingSteps.take 4)).1 ++
      [(.call (.advance "shop"), .ok (.revision 2)),
        (.call (.current "shop"), .ok (.revision 2))] :=
    rfl
  exact ⟨sample_fresh, hsteps, hdomain, _, _, _, hrun, rfl,
    (run_counters sample_fresh hsteps hdomain hrun (by decide)).1 rfl⟩

end Session

end ConfigStore
