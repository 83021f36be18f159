import ConfigStore.Proofs.Polling.Filing
import ConfigStore.Proofs.Session.Fences

/-!
# The log of a run

What the log of polling records gives is decided by the records that were put with success: of every
key it has the one that was put last. Nothing else that a store is asked for changes this, and
neither does a new start.

* `PollingLog.IsNewest` says which records are the newest of their keys in a run, and
  `PollingLog.isNewest_concat` how one more record changes this.
* `Request.within_polling` says that requests about anything else stay outside the log, and
  `Session.call_putPolling` what happens when a record is put.
* `Session.Logging` is the invariant. `Session.Fresh.logging` and `Session.step_logged` establish
  and preserve it.
* `Session.run_polling` is the result.
-/

namespace ConfigStore

open Node Disk Deletion Library

/-! ## The newest records -/

namespace PollingLog

variable {trace : List Event} {event : Event} {r record : PollingRecord}

/-- The record that a step has put; none if the step is about something else or has failed. -/
def recorded? : Event → Option PollingRecord
  | (.call (.putPolling record), .ok _) => some record
  | _ => none

/-- The last record of a key that was put in a run. -/
def newest? (trace : List Event) (key : String × String × String × String) :
    Option PollingRecord :=
  (trace.filterMap recorded?).reverse.find? (·.key = key)

/-- The record is the last one of its key that was put in a run. -/
def IsNewest (trace : List Event) (r : PollingRecord) : Prop := newest? trace r.key = some r

theorem not_isNewest_nil (r : PollingRecord) : ¬IsNewest [] r := nofun

/-- The record that is put last is the newest of its key. -/
theorem isNewest_concat (h : recorded? event = some record) :
    IsNewest (trace ++ [event]) r ↔ r = record ∨ IsNewest trace r ∧ r.key ≠ record.key := by
  have hnewest : newest? (trace ++ [event]) r.key
      = if record.key = r.key then some record else newest? trace r.key := by
    rw [newest?, newest?, List.filterMap_append, List.filterMap_cons_some h, List.reverse_append,
      List.filterMap_nil, List.reverse_singleton, List.singleton_append, List.find?_cons]
    by_cases hkey : record.key = r.key <;> simp [hkey]
  rw [IsNewest, IsNewest, hnewest]
  split
  next hkey =>
    rw [Option.some_inj]
    exact ⟨fun heq => .inl heq.symm, fun hr => (hr.resolve_right fun h => h.2 hkey.symm).symm⟩
  next hkey =>
    refine ⟨fun hr => .inr ⟨hr, Ne.symm hkey⟩, fun hr => (hr.resolve_left ?_).1⟩
    rintro rfl
    exact hkey rfl

theorem isNewest_concat_of_none (h : recorded? event = none) :
    IsNewest (trace ++ [event]) r ↔ IsNewest trace r := by
  rw [IsNewest, IsNewest, newest?, newest?, List.filterMap_append, List.filterMap_cons_none h,
    List.filterMap_nil, List.append_nil]

end PollingLog

/-! ## Requests -/

/-- No request gets into the log but that to put a record. -/
theorem Request.within_polling {request : Request} {root : Path} {kept : PollingRecord → Prop}
    (hkept : ∀ r, kept r → r.Integral) (hcounts : request.CountsDomain)
    (hother : ∀ record, request ≠ .putPolling record) :
    request.Within (PollingLog.fence root kept) := by
  have hreserved : ∀ {domain project}, Names.checkScope domain project = .ok () →
      Names.isReserved domain = false := fun hscope => (Names.checkScope_eq_ok_iff.mp hscope).2.1
  cases request with
  | create caller d => exact fun hscope => PollingLog.free_home (hreserved hscope) ..
  | update caller d => exact fun hscope => .inl (PollingLog.free_home (hreserved hscope) ..)
  | deleteOne caller domain project id =>
    exact fun hscope => ⟨.inl (PollingLog.free_home (hreserved hscope) ..),
      PollingLog.free_aside ..⟩
  | deleteMany caller domain project ids =>
    exact fun hscope id => ⟨.inl (PollingLog.free_home (hreserved hscope) ..),
      PollingLog.free_aside ..⟩
  | addHistory d => exact PollingLog.lax hkept
  | advance domain =>
    have hdomain : domain ≠ Layout.trackName := by
      rintro rfl
      cases hcounts.2
    refine ⟨hcounts.1, fun q hle htrack => ?_, fun content htrack => ?_⟩
    · exact absurd (htrack.trans hle) (PollingLog.not_track_le hdomain)
    · exact absurd htrack (PollingLog.not_track_le hdomain)
  | putPolling record => exact absurd rfl (hother record)
  | _ => exact trivial

namespace Session

variable {session last : Session} {settings : Settings} {root : Path} {base : Place} {lib : Library}
  {kept : PollingRecord → Prop} {done trace : List Event} {step : Step} {steps : List Step}

/-- A record is put and is kept in place of any other of its key; or this fails, and no file
changes. -/
theorem call_putPolling (hroot : session.store.root = root)
    (h : Fenced (PollingLog.fence root kept) root base session.state.disk)
    (record : PollingRecord) :
    ∃ result disk', session.call (.putPolling record)
        = (result, { session with state := { session.state with disk := disk' } }) ∧
      ((result = .ok (.record record) ∧
          Fenced (PollingLog.fence root fun r => r = record ∨ kept r ∧ r.key ≠ record.key) root base
            disk') ∨
        ∃ failure, result = .error failure ∧ Fenced (PollingLog.fence root kept) root base disk' ∧
          ∀ q, disk'.content? q = session.state.disk.content? q) := by
  subst hroot
  rcases PollingLog.put_fenced h record with
    ⟨disk', hok, hfenced⟩ | ⟨failure, disk', herror, hfenced, hsame⟩
  · exact ⟨_, disk', call_of_disk_ok rfl hok, .inl ⟨rfl, hfenced⟩⟩
  · exact ⟨_, disk', call_of_disk_error rfl herror, .inr ⟨failure, rfl, hfenced, hsame⟩⟩

/-! ## Runs -/

/-- What a session keeps is a library, and the log has the newest records of what was done. -/
structure Logging (done : List Event) (root : Path) (base : Place) (lib : Library)
    (session : Session) : Prop
    extends session.Enclosed (PollingLog.fence root (PollingLog.IsNewest done)) root base lib where
  modest : ∀ r, PollingLog.IsNewest done r → r.Modest

theorem Fresh.logging (h : session.Fresh settings) :
    ∃ base, session.Logging [] settings.root base .empty := by
  have hempty : ∀ name q,
      PollingLog.fence settings.root (PollingLog.IsNewest []) (name :: q) none := by
    refine fun name q _ => ⟨fun content => iff_of_false (by simp) ?_, fun hne => absurd rfl hne⟩
    exact fun ⟨r, hr, _⟩ => PollingLog.not_isNewest_nil r hr
  obtain ⟨base, henclosed⟩ := h.enclosed (fun htrack => absurd htrack (by simp)) hempty
  exact ⟨base, henclosed, fun r hr => absurd hr (PollingLog.not_isNewest_nil r)⟩

/-- A step by which no record is put leaves the newest ones as they are. -/
theorem Logging.of_none {next : Session} {lib' : Library} {event : Event}
    (h : session.Logging done root base lib) (hnone : PollingLog.recorded? event = none)
    (henclosed : next.Enclosed (PollingLog.fence root (PollingLog.IsNewest done)) root base lib') :
    next.Logging (done ++ [event]) root base lib' := by
  have heq : PollingLog.IsNewest (done ++ [event]) = PollingLog.IsNewest done :=
    funext fun r => propext (PollingLog.isNewest_concat_of_none hnone)
  exact ⟨heq ▸ henclosed, heq ▸ h.modest⟩

/-- Whatever the step, the log has the newest records afterwards. -/
theorem step_logged (h : session.Logging done root base lib) (hs : step.Accepted root)
    (hmodest : ∀ r, step = .call (.putPolling r) → r.Modest) :
    ∃ result next lib', session.step step = (result, next) ∧
      next.Logging (done ++ [(step, result)]) root base lib' := by
  by_cases hput : ∃ record, step = .call (.putPolling record)
  · obtain ⟨record, rfl⟩ := hput
    obtain ⟨result, next, lib', hnext, hstocked, -⟩ := step_stocked h.toStocked hs
    obtain ⟨result', disk', hcall, houtcome⟩ := call_putPolling h.root_eq h.fenced record
    cases hcall.symm.trans hnext
    refine ⟨result, _, lib', hnext, ?_⟩
    rcases houtcome with ⟨rfl, hfenced⟩ | ⟨failure, rfl, hfenced, -⟩
    · have heq : PollingLog.IsNewest (done ++ [(.call (.putPolling record), .ok (.record record))])
          = fun r => r = record ∨ PollingLog.IsNewest done r ∧ r.key ≠ record.key :=
        funext fun r => propext (PollingLog.isNewest_concat rfl)
      refine ⟨⟨hstocked, heq ▸ hfenced⟩, fun r hr => ?_⟩
      rcases (PollingLog.isNewest_concat rfl).mp hr with rfl | ⟨hr, -⟩
      · exact hmodest r rfl
      · exact h.modest r hr
    · exact h.of_none rfl ⟨hstocked, hfenced⟩
  · have hwithin : step.Within (PollingLog.fence root (PollingLog.IsNewest done)) := by
      cases step with
      | reopen settings policy => exact trivial
      | call request =>
        exact Request.within_polling (fun r hr => (h.modest r hr).integral) hs
          fun record heq => hput ⟨record, heq ▸ rfl⟩
    obtain ⟨result, next, lib', hnext, henclosed, -⟩ := step_enclosed h.toEnclosed hs hwithin
    refine ⟨result, next, lib', hnext, h.of_none ?_ henclosed⟩
    rw [PollingLog.recorded?]
    rintro record answer ⟨⟩
    exact hput ⟨record, rfl⟩

theorem run_logged (h : session.Logging done root base lib)
    (hsteps : ∀ step ∈ steps, step.Accepted root)
    (hmodest : ∀ r, Step.call (.putPolling r) ∈ steps → r.Modest) :
    ∃ lib', (session.run steps).2.Logging (done ++ (session.run steps).1) root base lib' := by
  induction steps generalizing session done lib with
  | nil => exact ⟨lib, by rwa [run, List.append_nil]⟩
  | cons step steps ih =>
    obtain ⟨hstep, hsteps⟩ := List.forall_mem_cons.mp hsteps
    obtain ⟨result, next, lib', hnext, hlogging⟩ :=
      step_logged h hstep fun r heq => hmodest r (heq ▸ List.mem_cons_self ..)
    rw [run_cons hnext, List.append_cons]
    exact ih hlogging hsteps fun r hr => hmodest r (List.mem_cons_of_mem _ hr)

/-- **The log of polling records has the newest one of every key.** After any run that starts where
nothing is, in which requests about documents, counters and polling records are mixed and the store
is opened anew, what is found are the records that are the newest of their keys and suit what is
looked for, in the order of their places; if there is none, that is the failure. If a record cannot
be put, no file changes. The path of the directory leaves room for any names below it
(`Session.Fresh.short`), and so the file of every record that may be put can be written. -/
theorem run_polling (hfresh : session.Fresh settings)
    (hsteps : ∀ step ∈ steps, step.Accepted settings.root)
    (hmodest : ∀ r, Step.call (.putPolling r) ∈ steps → r.Modest)
    (hrun : session.run steps = (trace, last)) :
    (∀ wanted : PollingRecord,
      (∀ name ∈ [wanted.domain, wanted.project], Names.isPlain name = true ∧ Fits name) →
        ∃ found : List PollingRecord,
          (∀ r, r ∈ found ↔ PollingLog.IsNewest trace r ∧ r.Suits wanted) ∧
          found.Pairwise (fun a b => a.place.Precedes b.place) ∧
          (last.call (.findPolling wanted)).1
            = if found.isEmpty then .error .recordNotFound else .ok (.records found)) ∧
    ∀ record failure next, last.call (.putPolling record) = (.error failure, next) →
      ∀ q, next.state.disk.content? q = last.state.disk.content? q := by
  obtain ⟨base, hstart⟩ := hfresh.logging
  obtain ⟨lib, hlast⟩ := run_logged hstart hsteps hmodest
  rw [hrun, List.nil_append] at hlast
  refine ⟨fun wanted hnames => ?_, fun record failure next hcall => ?_⟩
  · obtain ⟨hdomain, hproject⟩ := List.forall_mem_cons.mp hnames
    have hproject := List.forall_mem_singleton.mp hproject
    have hall : ∀ n ∈ [wanted.domain, wanted.project], IsName n := fun n hn =>
      ⟨Names.isPiece_of_isPlain (hnames n hn).1, (hnames n hn).2.2, (hnames n hn).2.1⟩
    have hfenced := hlast.fenced
    rw [← hlast.root_eq] at hfenced
    obtain ⟨found, hmem, hordered, hfind⟩ := PollingLog.find_fenced hfenced hlast.ready.room
      hlast.modest hdomain.1 hproject.1 hall
    refine ⟨found, hmem, hordered, ?_⟩
    by_cases hempty : found.isEmpty
    · rw [if_pos hempty] at hfind ⊢
      rw [call_of_disk_error rfl hfind]
    · rw [if_neg hempty] at hfind ⊢
      rw [call_of_disk_ok rfl hfind]
  · obtain ⟨result, disk', hput, houtcome⟩ := call_putPolling hlast.root_eq hlast.fenced record
    cases hput.symm.trans hcall
    rcases houtcome with ⟨hok, -⟩ | ⟨-, -, -, hsame⟩
    · cases hok
    · exact hsame

/-- A record of a client of the project `web`. -/
def polledRecord : PollingRecord := { PollingRecord.sample with domain := "shop", project := "web" }

/-- A record is put and, after the store has been opened anew and a document been created, put again
with another response. Then a record of another session is put. -/
def pollingSteps : List Step := [
  .call (.putPolling { polledRecord with responseCode := 200 }),
  .reopen { sampleSettings with maxHistory := 0 } .allowAll,
  .call (.create .anonymous sampleDocument),
  .call (.putPolling polledRecord),
  .call (.putPolling { polledRecord with sessionId := "s2" })]

theorem run_polling_sample :
    sample.Fresh sampleSettings ∧
      (∀ step ∈ pollingSteps, step.Accepted sampleSettings.root) ∧
      (∀ r, Step.call (.putPolling r) ∈ pollingSteps → r.Modest) ∧
      (∀ name ∈ [polledRecord.domain, polledRecord.project],
        Names.isPlain name = true ∧ Fits name) ∧
      ∃ found, ((sample.run pollingSteps).2.call (.findPolling polledRecord)).1
          = .ok (.records found) ∧
        polledRecord ∈ found ∧ { polledRecord with responseCode := 200 } ∉ found := by
  have hsteps : ∀ step ∈ pollingSteps, step.Accepted sampleSettings.root := by
    simp only [pollingSteps, List.forall_mem_cons, List.not_mem_nil, false_implies, implies_true,
      and_true, Step.Accepted, Request.CountsDomain]
  have hmodest : ∀ r, Step.call (.putPolling r) ∈ pollingSteps → r.Modest := by
    simp only [pollingSteps, List.mem_cons, List.not_mem_nil, Step.call.injEq,
      Request.putPolling.injEq, reduceCtorEq, or_false, false_or]
    rintro r (rfl | rfl | rfl) <;> exact PollingRecord.modest_sample.of_pollingData rfl
  have hnames : ∀ name ∈ [polledRecord.domain, polledRecord.project],
      Names.isPlain name = true ∧ Fits name := by decide
  obtain ⟨found, hmem, -, hfind⟩ :=
    (run_polling sample_fresh hsteps hmodest (Prod.eta _).symm).1 polledRecord hnames
  have hnewest : PollingLog.newest? (sample.run pollingSteps).1 polledRecord.key
      = some polledRecord := rfl
  have hfound : polledRecord ∈ found :=
    (hmem polledRecord).mpr ⟨hnewest, rfl, rfl, .inr rfl, .inr rfl, .inr rfl, .inr rfl, .inr rfl⟩
  have hlost : { polledRecord with responseCode := 200 } ∉ found := fun hold => by
    have heq := hnewest.symm.trans ((hmem _).mp hold).1
    exact absurd (congrArg PollingRecord.responseCode (Option.some.inj heq)) (by decide)
  refine ⟨sample_fresh, hsteps, hmodest, hnames, found, ?_, hfound, hlost⟩
  rw [hfind, if_neg]
  simpa using List.ne_nil_of_mem hfound

end Session

end ConfigStore
