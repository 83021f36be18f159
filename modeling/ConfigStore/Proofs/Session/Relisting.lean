import ConfigStore.Proofs.Session.Listing
import ConfigStore.Proofs.Store.Scanning

/-!
# Listings one after the other

A session that is asked for nothing but listings changes no file. If every document below its
directory is where it belongs, each listing is what it would be if it came first, and what it would
be without a cache. A document that says it belongs elsewhere ends this: the listing that comes
across it puts it into the cache under the place that the document names, and a listing of that
place finds it there.

* `Kept.inPlace`: what a run leaves behind is in place.
* `Session.call_list` says what one listing does, and `Session.run_listings` is the result.
* `Session.list_misplaced` is a listing that another one changes.
-/

namespace ConfigStore

open Node Disk Files Library

/-- The documents of a library are where they belong. -/
theorem Kept.inPlace {root : Path} {base : Place} {lib : Library} {disk : Node}
    (h : Kept root base lib disk) (hroom : Roomy root) : Store.InPlace root disk := by
  intro domain project ids hscope hvisits id hid d hmet
  rcases h.ids_outcome hscope with ⟨ids', hids', hshelves⟩ | ⟨failure, herror⟩
  · obtain rfl := hvisits.unique hids'
    have hone := h.scanOne hroom (hshelves id hid)
    rcases Store.scanOne_outcome root disk domain project id with hmets | ⟨hnone, -⟩
    · rw [hone, hmet] at hmets
      simp only [EStateM.Result.ok.injEq, and_true] at hmets
      exact h.valid.place hmets
    · rw [hnone] at hmet
      cases hmet
  · rw [Store.Visits, herror] at hvisits
    cases hvisits

/-- A step that lists documents and is not meant to find a single one. -/
def Step.ListsMany : Step → Prop
  | .call (.list _ _ _ query) => query.isUnique = false
  | _ => False

namespace Session

variable {session next : Session}

/-- The session without its cache. -/
def uncached (session : Session) : Session := ⟨session.store, ⟨session.state.disk, none⟩⟩

/-- Every document is where it belongs, and the cache has no others. -/
structure Orderly (session : Session) : Prop where
  distinct : session.state.disk.Distinct
  inPlace : Store.InPlace session.store.root session.state.disk
  backed : session.store.Backed session.state

theorem Orderly.uncached (h : session.Orderly) : session.uncached.Orderly :=
  ⟨h.distinct, h.inPlace, fun _ hcache => by cases hcache⟩

/-- A listing is what it would be without a cache, and changes nothing but the cache. -/
theorem call_list (h : session.Orderly) (caller : Caller) (domain project : String) {query : Query}
    (hquery : query.isUnique = false) :
    ∃ next, session.call (.list caller domain project query)
        = ((session.uncached.call (.list caller domain project query)).1, next) ∧
      next.Orderly ∧ next.uncached = session.uncached := by
  cases hscope : Names.checkScope domain project with
  | error failure =>
    have hfind : ∀ s : Store, ∀ state,
        s.find domain project query state = .error failure state := by
      intro s state
      simp only [Store.find, bind, EStateM.bind, hscope, Store.require_error]
    rw [call_list_of_error (hfind _ _), call_list_of_error (hfind _ _)]
    exact ⟨_, rfl, h, rfl⟩
  | ok _ =>
    obtain ⟨state', hdisk, hbacked, hfind⟩ :=
      Store.find_backed h.backed h.distinct h.inPlace hscope hquery
    obtain ⟨bare, -, -, hbare⟩ := Store.find_backed h.uncached.backed h.uncached.distinct
      h.uncached.inPlace hscope hquery
    refine ⟨⟨session.store, state'⟩, ?_, ⟨?_, ?_, hbacked⟩, by rw [uncached, uncached, hdisk]⟩
    · -- both find what a scan finds that passes over nothing
      rcases hfind with ⟨docs, all, hfind, hscan, hperm, hranked⟩ | ⟨failure, hfind, hscan⟩
      · rcases hbare with ⟨docs', all', hfind', hscan', hperm', -⟩ | ⟨failure, -, hscan'⟩
        · cases hscan.symm.trans hscan'
          have hvisible := visible_perm session.store.policy caller (hperm.trans hperm'.symm)
          have hsub := visible_sublist session.store.policy caller docs
          have hsorted := byPriority_eq_of_perm hvisible fun a ha b hb =>
            hranked a (hsub.subset ha) b (hsub.subset hb)
          rw [call_list_of_ok hfind, call_list_of_ok hfind', Listing.ofFound, hsorted,
            hvisible.length_eq]
          rfl
        · cases hscan.symm.trans hscan'
      · rcases hbare with ⟨docs', all', -, hscan', -⟩ | ⟨failure', hfind', hscan'⟩
        · cases hscan.symm.trans hscan'
        · cases hscan.symm.trans hscan'
          rw [call_list_of_error hfind, call_list_of_error hfind']
    · exact hdisk ▸ h.distinct
    · exact hdisk ▸ h.inPlace

/-- Listings are what they would be without a cache. -/
theorem run_listings_uncached (h : session.Orderly) {steps : List Step}
    (hsteps : ∀ step ∈ steps, step.ListsMany) :
    (session.run steps).1 = steps.map fun step => (step, (session.uncached.step step).1) := by
  induction steps generalizing session with
  | nil => rfl
  | cons step steps ih =>
    obtain ⟨hstep, hrest⟩ := List.forall_mem_cons.mp hsteps
    cases step with
    | reopen settings policy => exact hstep.elim
    | call request =>
      cases request with
      | list caller domain project query =>
        obtain ⟨next, hcall, horderly, hsame⟩ := call_list h caller domain project hstep
        rw [run_call_cons hcall, ih horderly hrest, hsame]
        rfl
      | _ => exact hstep.elim

/-- At the start a session has no copies. -/
theorem orderly_of_start {settings : Settings} {policy : Authorizer} {disk : Node}
    (hd : disk.Distinct) (hstart : start (openLocal settings policy) disk = .ok session)
    (hplaces : Store.InPlace settings.root session.state.disk) : session.Orderly := by
  have hdistinct := (makeDirs_extended hd settings.root).distinct
  rw [start_eq] at hstart
  split at hstart
  next disk' hdirs =>
    rw [hdirs] at hdistinct
    cases hstart
    refine ⟨hdistinct, hplaces, fun cache hcache => ?_⟩
    dsimp only at hcache
    split at hcache
    · cases hcache
      exact Cache.All.empty _ _
    · cases hcache
  · cases hstart

/-- **Listings do not influence one another** in a session that starts on a disk where every
document is where it belongs. Each is what it would be if it came first. -/
theorem run_listings {settings : Settings} {policy : Authorizer} {disk : Node}
    (hd : disk.Distinct) (hstart : start (openLocal settings policy) disk = .ok session)
    (hplaces : Store.InPlace settings.root session.state.disk) {steps : List Step}
    (hsteps : ∀ step ∈ steps, step.ListsMany) :
    (session.run steps).1 = steps.map fun step => (step, (session.step step).1) := by
  have horderly := orderly_of_start hd hstart hplaces
  rw [run_listings_uncached horderly hsteps]
  refine List.map_congr_left fun step hstep => ?_
  have hone := run_listings_uncached horderly (List.forall_mem_singleton.mpr (hsteps step hstep))
  simp only [run, List.map_cons, List.map_nil, List.cons.injEq, Prod.mk.injEq, true_and,
    and_true] at hone
  rw [hone]

theorem start_of_reopen {settings : Settings} {policy : Authorizer}
    (h : session.step (.reopen settings policy) = (.ok .done, next)) :
    start (openLocal settings policy) session.state.disk = .ok next := by
  simp only [step, reopen] at h
  cases hstart : start (openLocal settings policy) session.state.disk with
  | ok opened =>
    simp only [hstart, Prod.mk.injEq] at h
    rw [h.2]
  | error failure =>
    simp only [hstart, Prod.mk.injEq] at h
    cases h.1

/-- Two projects are listed in turn. -/
def listingSteps : List Step := [
  .call (.list .anonymous "shop" "app" {}),
  .call (.list .anonymous "shop" "web" {}),
  .call (.list .anonymous "shop" "app" {})]

theorem run_listings_sample :
    ∃ disk session, disk.Distinct ∧
      start (openLocal sampleSettings .allowAll) disk = .ok session ∧
      Store.InPlace sampleSettings.root session.state.disk ∧
      (session.run listingSteps).1
        = listingSteps.map fun step => (step, (session.step step).1) := by
  obtain ⟨base, hsound⟩ := sample_fresh.sound
  obtain ⟨state, hcreate, hcreated, -⟩ := call_create hsound .anonymous (d := sampleDocument)
    (.of_fits rfl rfl (by decide)) rfl
  obtain ⟨next, hreopen, hstocked, -⟩ :=
    reopen_stocked hcreated.toStocked (rfl : sampleSettings.root = _) .allowAll
  have hstart := start_of_reopen hreopen
  have hd := hcreated.ready.kept.grounded.distinct
  have hplaces := hstocked.ready.kept.inPlace hstocked.ready.room
  rw [hstocked.root_eq] at hplaces
  refine ⟨state.disk, next, hd, hstart, hplaces, run_listings hd hstart hplaces ?_⟩
  simp [listingSteps, Step.ListsMany, Query.isUnique]

/-! ## A misplaced document -/

/-- A tree with the file of a document, but in another project than the document says. -/
def misplacedDisk (content : Bytes) : Node :=
  .dir [("kvs", .dir [("shop", .dir [("app", .dir [("timeout", .dir [
    (Layout.newestName, .file content)])])])])]

/-- A store that was opened on such a tree. -/
def misplaced (cache : Option Cache) : Session where
  store := { root := sampleSettings.root }
  state := ⟨misplacedDisk sampleDocument.encode, cache⟩

theorem scan_app : Store.scan sampleSettings.root "shop" "app" {} []
    (misplacedDisk sampleDocument.encode)
      = .ok [sampleDocument] (misplacedDisk sampleDocument.encode) := by
  have hids : ∀ content, (subdirs (Layout.projectDir sampleSettings.root "shop" "app")).orIfMissing
      [] (misplacedDisk content) = .ok ["timeout"] (misplacedDisk content) := fun _ => rfl
  have hread : ∀ content, readFile (misplacedDisk content)
      (Layout.newest sampleSettings.root "shop" "app" "timeout") = .ok content := fun _ => rfl
  have hone : Store.scanOne sampleSettings.root "shop" "app" "timeout"
      (misplacedDisk sampleDocument.encode)
        = .ok (some sampleDocument) (misplacedDisk sampleDocument.encode) := by
    simp only [Store.scanOne, bind, EStateM.bind, read?_of_ok (hread _), Document.decode_encode]
    rfl
  simp only [Store.scan, bind, EStateM.bind, hids]
  rw [Store.scanIds_cons rfl List.not_mem_nil hone]
  rfl

theorem scan_web (skip : List String) : ∀ content, Store.scan sampleSettings.root "shop" "web" {}
    skip (misplacedDisk content) = .ok [] (misplacedDisk content) := fun _ => rfl

/-- A cache without copies. -/
def emptyCache : Cache := { ttl := sampleSettings.cache.ttlSecs }

/-- The cache after the document was found. -/
def filledCache : Cache := (emptyCache.backfill [sampleDocument]).2

/-- A listing of one project brings a document into the listing of another one. -/
theorem list_misplaced :
    start (openLocal sampleSettings .allowAll) (misplacedDisk sampleDocument.encode)
        = .ok (misplaced (some emptyCache)) ∧
      ((misplaced (some emptyCache)).call (.list .anonymous "shop" "web" {})).1
        = .ok (.listing ⟨0, []⟩) ∧
      (misplaced (some emptyCache)).call (.list .anonymous "shop" "app" {})
        = (.ok (.listing ⟨1, [sampleDocument]⟩), misplaced (some filledCache)) ∧
      ((misplaced (some filledCache)).call (.list .anonymous "shop" "web" {})).1
        = .ok (.listing ⟨1, [sampleDocument]⟩) := by
  have hempty : ∀ project, (emptyCache.search "shop" project {}).1 = { usedCache := true } ∧
      (emptyCache.search "shop" project {}).2 = emptyCache := fun _ => ⟨rfl, rfl⟩
  have hfilled : (filledCache.search "shop" "web" {}).1 =
      { docs := [sampleDocument], usedCache := true, cachedIds := ["timeout"] } := rfl
  have hbefore : (misplaced (some emptyCache)).store.find "shop" "web" {}
      (misplaced (some emptyCache)).state = .ok [] (misplaced (some emptyCache)).state := by
    rw [Store.find_eq rfl (Store.searchCache_some rfl {}), (hempty "web").1, (hempty "web").2]
    simp only [misplaced, scan_web]
    rfl
  have hfind : (misplaced (some emptyCache)).store.find "shop" "app" {}
      (misplaced (some emptyCache)).state
        = .ok [sampleDocument] (misplaced (some filledCache)).state := by
    rw [Store.find_eq rfl (Store.searchCache_some rfl {}), (hempty "app").1, (hempty "app").2]
    simp only [misplaced, scan_app]
    rfl
  have hafter : ∃ state', (misplaced (some filledCache)).store.find "shop" "web" {}
      (misplaced (some filledCache)).state = .ok [sampleDocument] state' := by
    rw [Store.find_eq rfl (Store.searchCache_some rfl {}), hfilled]
    simp only [misplaced, scan_web]
    exact ⟨_, rfl⟩
  obtain ⟨state', hafter⟩ := hafter
  refine ⟨rfl, ?_, ?_, ?_⟩
  · rw [call_list_of_ok hbefore]
    rfl
  · rw [call_list_of_ok hfind]
    rfl
  · rw [call_list_of_ok hafter]
    rfl

end Session

end ConfigStore
