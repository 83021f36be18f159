import ConfigStore.Proofs.Library.Refusing

/-!
# What a store does to its cache

A successful write puts the written document into the cache, a successful deletion evicts what it
deleted, and whatever else is asked of a store brings at most newest copies into the cache. An
answer that is a failure leaves the cache as it was.

* `Cache.After` says what a request with a given result does to a cache whose copies do not expire.
* `Session.call_copies` is the result.
-/

namespace ConfigStore

open Node Disk Deletion Files Library

variable {base : Place} {lib : Library} {d : Document} {domain project id : String}

/-! ## Writes and deletions -/

namespace Store

variable {s : Store} {state state' : StoreState} {caller : Caller}

/-- A write that succeeds puts the document into the cache. -/
theorem cache_of_write (hok : s.write d state = .ok () state') :
    state'.cache = state.cache.map (·.put [d]) := by
  obtain ⟨u, mid, hpersist, hafter⟩ := bind_eq_ok_iff.mp hok
  obtain ⟨u, mid', hput, hrest⟩ := bind_eq_ok_iff.mp hafter
  obtain ⟨n, last, hrotate, hend⟩ := bind_eq_ok_iff.mp hrest
  obtain ⟨-, rfl⟩ := pure_eq_ok_iff.mp hend
  rw [(onDisk_eq_ok_iff.mp hrotate).2, ← (onDisk_eq_ok_iff.mp hpersist).2]
  cases hput
  rfl

theorem cache_of_create {e : Document} (hok : s.create caller d state = .ok e state') :
    e = d ∧ state'.cache = state.cache.map (·.put [d]) := by
  obtain ⟨u, mid, hcheck, hrest⟩ := bind_eq_ok_iff.mp hok
  obtain ⟨-, rfl⟩ := require_eq_ok_iff.mp hcheck
  obtain ⟨u, mid, hauth, hrest⟩ := bind_eq_ok_iff.mp hrest
  obtain ⟨-, rfl⟩ := require_eq_ok_iff.mp hauth
  obtain ⟨u, mid, hwrite, hend⟩ := bind_eq_ok_iff.mp hrest
  obtain ⟨rfl, rfl⟩ := pure_eq_ok_iff.mp hend
  exact ⟨rfl, cache_of_write hwrite⟩

theorem cache_of_update {e : Document} (hok : s.update caller d state = .ok e state') :
    state'.cache = state.cache.map (·.put [e]) := by
  obtain ⟨u, mid, hcheck, hrest⟩ := bind_eq_ok_iff.mp hok
  obtain ⟨-, rfl⟩ := require_eq_ok_iff.mp hcheck
  obtain ⟨old, mid, hread, hrest⟩ := bind_eq_ok_iff.mp hrest
  obtain ⟨u, mid', hauth, hrest⟩ := bind_eq_ok_iff.mp hrest
  obtain ⟨-, rfl⟩ := require_eq_ok_iff.mp hauth
  obtain ⟨u, mid', hnewer, hrest⟩ := bind_eq_ok_iff.mp hrest
  obtain ⟨-, rfl⟩ := require_eq_ok_iff.mp hnewer
  obtain ⟨u, last, hwrite, hend⟩ := bind_eq_ok_iff.mp hrest
  obtain ⟨rfl, rfl⟩ := pure_eq_ok_iff.mp hend
  rw [cache_of_write hwrite, (onDisk_eq_ok_iff.mp hread).2]

theorem cache_of_deleteOne (hok : s.deleteOne caller domain project id state = .ok d state') :
    state'.cache = state.cache.map (·.evict [d]) := by
  obtain ⟨u, mid, hscope, hrest⟩ := bind_eq_ok_iff.mp hok
  obtain ⟨-, rfl⟩ := require_eq_ok_iff.mp hscope
  obtain ⟨u, mid, hid, hrest⟩ := bind_eq_ok_iff.mp hrest
  obtain ⟨-, rfl⟩ := require_eq_ok_iff.mp hid
  obtain ⟨e, mid, hstage, hrest⟩ := bind_eq_ok_iff.mp hrest
  obtain ⟨u, mid', hcommit, hrest⟩ := bind_eq_ok_iff.mp hrest
  obtain ⟨u, last, hevict, hend⟩ := bind_eq_ok_iff.mp hrest
  obtain ⟨rfl, rfl⟩ := pure_eq_ok_iff.mp hend
  cases hcommit
  cases hevict
  rw [← (onDisk_eq_ok_iff.mp hstage).2]

theorem cache_of_deleteMany {ids : List String} {docs : List Document}
    (hok : s.deleteMany caller domain project ids state = .ok docs state') :
    state'.cache = state.cache.map (·.evict docs) := by
  by_cases hvalid : Names.checkScope domain project = .ok () ∧
      (∀ id ∈ ids, Names.checkId id = .ok ()) ∧ ids ≠ []
  · obtain ⟨hscope, hids, hne⟩ := hvalid
    rw [deleteMany_eq caller hscope hids hne] at hok
    cases hstage : stageEach s caller domain project [] ids.eraseDups state.disk with
    | error failure disk =>
      rw [hstage] at hok
      cases hok
    | ok found disk =>
      rw [hstage] at hok
      cases hok
      rfl
  · obtain ⟨failure, herror⟩ : ∃ failure, s.deleteMany caller domain project ids state
        = .error failure state := deleteMany_invalid caller hvalid
    rw [herror] at hok
    cases hok

end Store

/-! ## Looking up -/

namespace Cache

variable {c : Cache}

/-- Looking ids up in a cache whose copies do not expire changes nothing. -/
theorem searchIds_lasting (hlasting : c.expiresAtOnce = false) (query : Query)
    (ids : List String) : (c.searchIds domain project query ids).2 = c := by
  induction ids with
  | nil => rfl
  | cons id ids ih =>
    have hget : c.get domain project id = (c.bodies.get? (documentKey domain project id), c) := by
      simp [get, hlasting]
    simp only [searchIds, hget]
    cases c.bodies.get? (documentKey domain project id) <;> exact ih

/-- What a request with this result has done to a cache whose copies do not expire. -/
def After (lib : Library) (c : Cache) : Request → Except Failure Answer → Cache → Prop
  | .create .., .ok (.document d), c' => c' = c.put [d]
  | .update .., .ok (.document d), c' => c' = c.put [d]
  | .deleteOne .., .ok (.document d), c' => c' = c.evict [d]
  | .deleteMany .., .ok (.deleted docs), c' => c' = c.evict docs
  | _, _, c' => ∃ docs, (∀ d ∈ docs, lib.head? d.domain d.project d.id = some d) ∧
      c' = (c.backfill docs).2

end Cache

namespace Store

variable {s : Store} {state : StoreState} {c : Cache}

/-- An action on the disk leaves the cache alone. -/
theorem ends_onDisk {α : Type} (action : DiskAction α) (state : StoreState) :
    ∃ disk, Ends (StoreAction.onDisk action) state ⟨disk, state.cache⟩ := by
  simp only [Ends, StoreAction.onDisk]
  cases action state.disk with
  | ok a disk => exact ⟨disk, .inl ⟨a, rfl⟩⟩
  | error failure disk => exact ⟨disk, .inr ⟨failure, rfl⟩⟩

/-- Whatever is looked for, what is found on the disk is put into the cache. -/
theorem find_copies (h : s.Ready base lib state) (hcache : state.cache = some c)
    (hlasting : c.expiresAtOnce = false) (domain project : String) (query : Query) :
    ∃ docs disk, (∀ d ∈ docs, lib.head? d.domain d.project d.id = some d) ∧
      Ends (s.find domain project query) state ⟨disk, some (c.backfill docs).2⟩ := by
  obtain ⟨disk, cache⟩ := state
  obtain rfl : cache = some c := hcache
  have hnothing : ∀ d ∈ ([] : List Document), lib.head? d.domain d.project d.id = some d :=
    fun _ hd => absurd hd List.not_mem_nil
  cases hscope : Names.checkScope domain project with
  | error failure =>
    refine ⟨[], disk, hnothing, .inr ⟨failure, ?_⟩⟩
    simp only [find, bind, EStateM.bind, hscope, require_error]
    rfl
  | ok u =>
    have hsearch : searchCache domain project query ⟨disk, some c⟩ =
        .ok (c.search domain project query).1 ⟨disk, some (c.search domain project query).2⟩ :=
      searchCache_some rfl query
    rw [show (c.search domain project query).2 = c from Cache.searchIds_lasting hlasting ..]
      at hsearch
    simp only [Ends, find_eq hscope hsearch]
    split
    · exact ⟨[], disk, hnothing, .inl ⟨_, rfl⟩⟩
    · rcases h.kept.scan_outcome h.room hscope query
          (c.search domain project query).1.cachedIds with ⟨docs, hok, hdocs⟩ | ⟨failure, herror⟩
      · rw [hok]
        exact ⟨docs, disk, fun d hd => h.kept.valid.head?_self (hdocs d hd).1, .inl ⟨_, rfl⟩⟩
      · rw [herror]
        exact ⟨[], disk, hnothing, .inr ⟨_, rfl⟩⟩

end Store

/-! ## Requests -/

namespace Session

variable {session : Session} {c : Cache}

/-- A request that changes nothing, or what only looks after it has changed something. -/
theorem cache_of_ends (request : Request) {α : Type} {action : StoreAction α} {f : α → Answer}
    {state' : StoreState} (hanswer : session.store.answer request = f <$> action)
    (hends : Ends action session.state state') :
    (session.call request).2.state.cache = state'.cache := by
  obtain ⟨result, hcall⟩ := call_of_ends request hanswer hends
  rw [hcall]

/-- A request does to the cache what it says. -/
theorem call_copies (h : session.store.Ready base lib session.state)
    (hcache : session.state.cache = some c) (hlasting : c.expiresAtOnce = false)
    {request : Request} (hdocs : request.OnDocuments) :
    ∃ c', (session.call request).2.state.cache = some c' ∧
      c.After lib request (session.call request).1 c' := by
  have hsame : ∀ {α : Type} (request : Request) {action : StoreAction α} {f : α → Answer},
      session.store.answer request = f <$> action → Looks action →
      (session.call request).2.state.cache = some c := fun request _ _ hanswer hlooks =>
    (cache_of_ends request hanswer (hlooks.outcome _)).trans hcache
  have hnothing : ∃ docs, (∀ d ∈ docs, lib.head? d.domain d.project d.id = some d) ∧
      c = (c.backfill docs).2 := ⟨[], fun _ hd => absurd hd List.not_mem_nil, rfl⟩
  cases request with
  | create caller d =>
    rcases Store.create_outcome h caller d with
      ⟨state', hok, -⟩ | ⟨failure, disk', herror, -⟩
    · rw [call_of_ok rfl hok]
      exact ⟨c.put [d], by rw [(Store.cache_of_create hok).2, hcache]; rfl, rfl⟩
    · rw [call_of_error rfl herror]
      exact ⟨c, hcache, hnothing⟩
  | update caller d =>
    rcases Store.update_ready h caller d with
      ⟨old, state', -, hok, -⟩ | ⟨failure, herror⟩
    · rw [call_of_ok rfl hok]
      exact ⟨c.put [old.merge d], by rw [Store.cache_of_update hok, hcache]; rfl, rfl⟩
    · rw [call_of_error rfl herror]
      exact ⟨c, hcache, hnothing⟩
  | deleteOne caller domain project id =>
    rcases Store.deleteOne_ready h caller domain project id with
      ⟨d, state', hok, -⟩ | ⟨failure, state', herror, hsame, -⟩
    · rw [call_of_ok rfl hok]
      exact ⟨c.evict [d], by rw [Store.cache_of_deleteOne hok, hcache]; rfl, rfl⟩
    · rw [call_of_error rfl herror]
      exact ⟨c, hsame.trans hcache, hnothing⟩
  | deleteMany caller domain project ids =>
    rcases Store.deleteMany_ready h caller domain project ids with
      ⟨docs, state', hok, -⟩ | ⟨failure, state', herror, hsame, -⟩
    · rw [call_of_ok rfl hok]
      exact ⟨c.evict docs, by rw [Store.cache_of_deleteMany hok, hcache]; rfl, rfl⟩
    · rw [call_of_error rfl herror]
      exact ⟨c, hsame.trans hcache, hnothing⟩
  | list caller domain project query =>
    obtain ⟨docs, disk, hdocs, hends⟩ :=
      Store.find_copies h hcache hlasting domain project query
    have hlist : Ends (session.store.list caller domain project query) session.state
        ⟨disk, some (c.backfill docs).2⟩ := hends.after fun _ => Looks.pure _
    exact ⟨_, cache_of_ends (.list caller domain project query) rfl hlist, docs, hdocs, rfl⟩
  | holdsKey domain project key query =>
    obtain ⟨docs, disk, hdocs, hends⟩ :=
      Store.find_copies h hcache hlasting domain project (Store.keyQuery key query)
    have hholds : Ends (session.store.holdsKey domain project key query) session.state
        ⟨disk, some (c.backfill docs).2⟩ := by
      refine hends.after fun found => ?_
      split
      · exact .pure _
      · exact .guarded (.pure _)
    exact ⟨_, cache_of_ends (.holdsKey domain project key query) rfl hholds, docs, hdocs, rfl⟩
  | getByKey domain project key query =>
    obtain ⟨docs, disk, hdocs, hends⟩ :=
      Store.find_copies h hcache hlasting domain project (Store.keyQuery key query)
    have hget : Ends (session.store.getByKey domain project key query) session.state
        ⟨disk, some (c.backfill docs).2⟩ :=
      hends.after fun found => .guarded (.guarded (.pure _))
    exact ⟨_, cache_of_ends (.getByKey domain project key query) rfl hget, docs, hdocs, rfl⟩
  | addHistory d =>
    obtain ⟨disk, hends⟩ := Store.ends_onDisk (Retention.rotate session.store.root d.domain
      d.project d.id session.store.maxHistory) session.state
    have hrotate : Ends (session.store.addHistory d) session.state
        ⟨disk, session.state.cache⟩ := hends.after fun _ => Looks.pure _
    exact ⟨c, (cache_of_ends (.addHistory d) rfl hrotate).trans hcache, hnothing⟩
  | get caller domain project id =>
    exact ⟨c, hsame (.get caller domain project id) rfl (looks_get ..), hnothing⟩
  | total domain project =>
    exact ⟨c, hsame (.total domain project) rfl (looks_total ..), hnothing⟩
  | history caller domain project id offset limit =>
    exact ⟨c, hsame (.history caller domain project id offset limit) rfl (looks_history ..),
      hnothing⟩
  | delayDeletion domain project ids => exact ⟨c, hcache, hnothing⟩
  | current domain =>
    exact ⟨c, hsame (.current domain) rfl (looks_current ..).onDisk, hnothing⟩
  | findPolling wanted =>
    exact ⟨c, hsame (.findPolling wanted) rfl (looks_findPolling ..).onDisk, hnothing⟩
  | advance domain => exact hdocs.elim
  | putPolling record => exact hdocs.elim

end Session

end ConfigStore
