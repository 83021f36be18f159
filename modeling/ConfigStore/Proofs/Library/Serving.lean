import ConfigStore.Proofs.Library.Caching
import ConfigStore.Session

/-!
# What a store does to a library

* `Store.Ready` is the invariant of a store: the disk holds a library, and the cache agrees with it.
* `Store.find_kept` says what a listing finds, and `Store.find_sound` of any query that nothing else
  is found than what it accepts.
* `Library.After` says what a request does to the library.
-/

namespace ConfigStore

open Node Disk Deletion Files Library

/-- The library with a document that has just been written; of its snapshots at most `max` stay. -/
def Library.write (lib : Library) (max : Nat) (d : Document) : Library :=
  lib.put d.domain d.project d.id
    (some ((Shelf.write (lib.shelf? d.domain d.project d.id) d).keep max))

theorem Library.head?_write (lib : Library) (max : Nat) (d : Document) :
    (lib.write max d).head? d.domain d.project d.id = some d := by
  rw [write, head?, shelf?_put_self]
  rfl

theorem Library.head?_write_of_ne (lib : Library) (max : Nat) {d : Document}
    {domain project id : String} (h : (domain, project, id) ≠ (d.domain, d.project, d.id)) :
    (lib.write max d).head? domain project id = lib.head? domain project id := by
  rw [write, head?, shelf?_put_of_ne _ h, head?]

namespace Store

variable {s : Store} {base : Place} {lib : Library} {state : StoreState} {d : Document}
  {domain project id : String}

/-- What a store relies on between two requests. -/
structure Ready (s : Store) (base : Place) (lib : Library) (state : StoreState) : Prop where
  room : Roomy s.root
  kept : Kept s.root base lib state.disk
  agrees : ∀ cache, state.cache = some cache → cache.Agrees lib

theorem Ready.of_cache (h : s.Ready base lib state) {lib' : Library} {disk : Node}
    {f : Cache → Cache} (hkept : Kept s.root base lib' disk)
    (hagrees : ∀ cache, cache.Agrees lib → (f cache).Agrees lib') :
    s.Ready base lib' ⟨disk, state.cache.map f⟩ := by
  refine ⟨h.room, hkept, fun cache hcache => ?_⟩
  obtain ⟨old, hold, rfl⟩ := Option.map_eq_some_iff.mp hcache
  exact hagrees old (h.agrees old hold)

/-! ## Writing -/

theorem onCache_eq (f : Cache → Cache) (state : StoreState) :
    StoreAction.onCache f state = .ok () ⟨state.disk, state.cache.map f⟩ :=
  rfl

/-- A write puts the document on its shelf and into the cache. -/
theorem write_ready (h : s.Ready base lib state) (hstore : Storable d.domain d.project d.id)
    (hloose : lib.loose? d.domain d.project = none) :
    ∃ state', s.write d state = .ok () state' ∧
      s.Ready base (lib.write s.maxHistory d) state' := by
  obtain ⟨disk₁, hpersist, hg₁, hholds₁⟩ :=
    h.kept.holds.persist h.kept.valid h.kept.grounded h.room hstore hloose
  have hvalid₁ : (lib.put d.domain d.project d.id
      (some (Shelf.write (lib.shelf? d.domain d.project d.id) d))).Valid := by
    refine h.kept.valid.put ?_
    intro shelf hshelf
    obtain rfl := Option.some.inj hshelf
    exact ⟨hstore, Shelf.valid_write fun _ => h.kept.valid.shelf⟩
  obtain ⟨n, disk₂, hrotate, hg₂, hholds₂⟩ :=
    hholds₁.rotate hvalid₁ hg₁ h.room (shelf?_put_self ..) s.maxHistory
  rw [put_put] at hholds₂
  refine ⟨⟨disk₂, state.cache.map (·.put [d])⟩, ?_, h.of_cache ⟨?_, hg₂, hholds₂⟩ ?_⟩
  · simp only [write, afterWrite, bind, EStateM.bind, StoreAction.onDisk, hpersist, onCache_eq,
      hrotate]
    rfl
  · have hvalid₂ := hvalid₁.put fun shelf hshelf => by
      obtain rfl := Option.some.inj hshelf
      exact ⟨hstore, (hvalid₁.shelf (shelf?_put_self ..)).keep s.maxHistory⟩
    rwa [put_put] at hvalid₂
  · intro cache hagrees
    exact hagrees.putOne (head?_write ..) fun _ _ _ => head?_write_of_ne _ _

/-- A document is created, or nothing happens. -/
theorem create_ready (h : s.Ready base lib state) (caller : Caller)
    (hfits : ∀ name ∈ [d.domain, d.project, d.id], Fits name)
    (hloose : lib.loose? d.domain d.project = none) :
    (∃ state', s.create caller d state = .ok d state' ∧ Storable d.domain d.project d.id ∧
        authorize s.policy caller .create d.labels = .ok () ∧
        s.Ready base (lib.write s.maxHistory d) state') ∨
      ∃ failure, s.create caller d state = .error failure state := by
  cases hcheck : Names.checkDocument d with
  | error failure =>
    exact .inr ⟨failure, by simp only [create, bind, EStateM.bind, hcheck, require_error]⟩
  | ok u =>
    cases hauth : authorize s.policy caller .create d.labels with
    | error failure =>
      exact .inr ⟨failure, by simp only [create, bind, EStateM.bind, hcheck, hauth, require_ok,
        require_error]⟩
    | ok u =>
      obtain ⟨hscope, hid⟩ := Names.checkDocument_eq_ok_iff.mp hcheck
      have hstore := Storable.of_fits hscope hid hfits
      obtain ⟨state', hwrite, hready⟩ := write_ready h hstore hloose
      refine .inl ⟨state', ?_, hstore, rfl, hready⟩
      simp only [create, bind, EStateM.bind, hcheck, hauth, require_ok, hwrite]
      rfl

theorem lt_of_checkNewer {old : Document} (h : checkNewer old d = .ok ()) :
    old.updateRevision < d.updateRevision := by
  rw [checkNewer] at h
  split at h
  next hlt => exact hlt
  · cases h

/-- A stored document is merged with an update that is newer, or nothing happens. -/
theorem update_ready (h : s.Ready base lib state) (caller : Caller) (d : Document) :
    (∃ old state', lib.head? d.domain d.project d.id = some old ∧
        s.update caller d state = .ok (old.merge d) state' ∧
        authorize s.policy caller .update old.labels = .ok () ∧ checkNewer old d = .ok () ∧
        s.Ready base (lib.write s.maxHistory (old.merge d)) state') ∨
      ∃ failure, s.update caller d state = .error failure state := by
  cases hcheck : Names.checkDocument d with
  | error failure =>
    exact .inr ⟨failure, by simp only [update, bind, EStateM.bind, hcheck, require_error]⟩
  | ok u =>
    obtain ⟨hscope, hid⟩ := Names.checkDocument_eq_ok_iff.mp hcheck
    rcases h.kept.readDocument_outcome hscope hid with ⟨old, hread, hhead⟩ | ⟨failure, hread⟩
    · cases hauth : authorize s.policy caller .update old.labels with
      | error failure =>
        exact .inr ⟨failure, by simp only [update, bind, EStateM.bind, hcheck, require_ok,
          StoreAction.onDisk, hread, hauth, require_error]⟩
      | ok u =>
        cases hnewer : checkNewer old d with
        | error failure =>
          exact .inr ⟨failure, by simp only [update, bind, EStateM.bind, hcheck, require_ok,
            StoreAction.onDisk, hread, hauth, hnewer, require_error]⟩
        | ok u =>
          obtain ⟨hdomain, hproject, hold⟩ := h.kept.valid.place hhead
          have hstore : Storable (old.merge d).domain (old.merge d).project (old.merge d).id := by
            rw [show (old.merge d).domain = d.domain from hdomain,
              show (old.merge d).project = d.project from hproject,
              show (old.merge d).id = d.id from hold]
            exact h.kept.valid.storable_head hhead
          have hshelf : (lib.shelf? d.domain d.project d.id).isSome := by
            rw [← head?_isSome, hhead]
            rfl
          have hloose : lib.loose? (old.merge d).domain (old.merge d).project = none := by
            rw [show (old.merge d).domain = d.domain from hdomain,
              show (old.merge d).project = d.project from hproject]
            exact h.kept.holds.loose?_eq_none (Names.checkScope_eq_ok_iff.mp hscope).2.1 hshelf
          obtain ⟨state', hwrite, hready⟩ := write_ready h hstore hloose
          refine .inl ⟨old, state', hhead, ?_, hauth, hnewer, hready⟩
          simp only [update, bind, EStateM.bind, hcheck, require_ok, StoreAction.onDisk, hread,
            hauth, hnewer, hwrite]
          rfl
    · exact .inr ⟨failure, by simp only [update, bind, EStateM.bind, hcheck, require_ok,
        StoreAction.onDisk, hread]⟩

/-! ## Deleting -/

/-- Once the heads of deleted documents are evicted, a cache agrees with what is left. -/
theorem agrees_clear {cache : Cache} (h : cache.Agrees lib) {ids : List String}
    {docs : List Document} (hdocs : ∀ id ∈ ids, ∃ d ∈ docs, lib.head? domain project id = some d) :
    (cache.evict docs).Agrees (lib.clear domain project ids) := by
  refine h.evict ?_
  intro d hhead hnot
  rw [head?_clear_of_not, hhead]
  rintro ⟨hdomain, hproject, hid⟩
  obtain ⟨d', hd', hhead'⟩ := hdocs d.id hid
  rw [hdomain, hproject, hhead'] at hhead
  exact hnot (Option.some.inj hhead ▸ hd')

/-- A deletion takes the shelf away and evicts the document, or changes nothing that counts. -/
theorem deleteOne_ready (h : s.Ready base lib state) (caller : Caller)
    (domain project id : String) :
    (∃ d state', s.deleteOne caller domain project id state = .ok d state' ∧
        lib.head? domain project id = some d ∧
        authorize s.policy caller .delete d.labels = .ok () ∧
        s.Ready base (lib.clear domain project [id]) state') ∨
      ∃ failure state', s.deleteOne caller domain project id state = .error failure state' ∧
        state'.cache = state.cache ∧ s.Ready base lib state' := by
  rcases deleteOne_kept h.kept caller domain project id with
    ⟨d, disk', hok, hhead, hauth, hkept⟩ | ⟨failure, disk', herror, hkept⟩
  · refine .inl ⟨d, _, hok, hhead, hauth, h.of_cache hkept fun cache hagrees => ?_⟩
    refine agrees_clear hagrees ?_
    intro other hother
    rw [List.mem_singleton.mp hother]
    exact ⟨d, List.mem_singleton_self _, hhead⟩
  · exact .inr ⟨failure, _, herror, rfl, h.room, hkept, h.agrees⟩

theorem deleteMany_ready (h : s.Ready base lib state) (caller : Caller)
    (domain project : String) (ids : List String) :
    (∃ docs state', s.deleteMany caller domain project ids state = .ok docs state' ∧
        List.Forall₂ (fun id d => lib.head? domain project id = some d ∧
          authorize s.policy caller .delete d.labels = .ok ()) ids.eraseDups docs ∧
        s.Ready base (lib.clear domain project ids) state') ∨
      ∃ failure state', s.deleteMany caller domain project ids state = .error failure state' ∧
        state'.cache = state.cache ∧ s.Ready base lib state' := by
  rcases deleteMany_kept h.kept caller domain project ids with
    ⟨docs, disk', hok, hdocs, hkept⟩ | ⟨failure, disk', herror, hkept⟩
  · refine .inl ⟨docs, _, hok, hdocs, h.of_cache hkept fun cache hagrees => ?_⟩
    refine agrees_clear hagrees ?_
    intro id hid
    obtain ⟨d, hd, hhead, -⟩ := exists_of_forall₂ hdocs (List.mem_eraseDups.mpr hid)
    exact ⟨d, hd, hhead⟩
  · exact .inr ⟨failure, _, herror, rfl, h.room, hkept, h.agrees⟩

/-! ## Finding -/

theorem searchCache_none (h : state.cache = none) (query : Query) :
    searchCache domain project query state = .ok {} state := by
  obtain ⟨disk, cache⟩ := state
  subst h
  rfl

theorem searchCache_some {cache : Cache} (h : state.cache = some cache) (query : Query) :
    searchCache domain project query state =
      .ok (cache.search domain project query).1
        ⟨state.disk, some (cache.search domain project query).2⟩ := by
  obtain ⟨disk, cache⟩ := state
  subst h
  rfl

/-- A search in the cache, if there is one, finds documents that are on their shelves. -/
theorem searchCache_ready (h : s.Ready base lib state)
    (hscope : Names.checkScope domain project = .ok ()) (query : Query) :
    ∃ found state', searchCache domain project query state = .ok found state' ∧
      s.Ready base lib state' ∧ state'.disk = state.disk ∧ found.cachedIds.Nodup ∧
      (∀ id ∈ found.cachedIds, (lib.shelf? domain project id).isSome) ∧
      found.docs = (found.cachedIds.filterMap (lib.head? domain project)).filter query.accepts := by
  cases hcache : state.cache with
  | none =>
    exact ⟨{}, state, searchCache_none hcache query, h, rfl, List.nodup_nil,
      fun _ hid => absurd hid List.not_mem_nil, rfl⟩
  | some cache =>
    obtain ⟨held, cache', hsub, hheld, hagrees, found, hfound, hids, hdocs⟩ :=
      (h.agrees cache hcache).searchIds h.kept.valid hscope query
        (cache.idsIn (Cache.scopeKey domain project)).keys
    refine ⟨found, ⟨state.disk, some cache'⟩, ?_, ⟨h.room, h.kept, fun c hc => ?_⟩, rfl, ?_, ?_, ?_⟩
    · rw [searchCache_some hcache, Cache.search, hfound]
    · cases hc
      exact hagrees
    · rw [hids]
      exact (Dict.nodup_keys _).sublist hsub
    · rwa [hids]
    · rw [hdocs, hids]

theorem find_eq (hscope : Names.checkScope domain project = .ok ()) {query : Query}
    {found : CacheSearch} {state' : StoreState}
    (hsearch : searchCache domain project query state = .ok found state') :
    s.find domain project query state =
      if query.isUnique && !found.docs.isEmpty then .ok found.docs state'
      else
        match Store.scan s.root domain project query found.cachedIds state'.disk with
        | .error failure disk => .error failure { state' with disk }
        | .ok scanned disk => .ok (found.docs ++ scanned)
          ⟨disk, state'.cache.map fun cache => (cache.backfill scanned).2⟩ := by
  cases hunique : query.isUnique && !found.docs.isEmpty with
  | true =>
    simp only [find, bind, EStateM.bind, hscope, require_ok, hsearch, hunique, if_true]
    rfl
  | false =>
    simp only [find, bind, EStateM.bind, hscope, require_ok, hsearch, hunique, Bool.false_eq_true,
      if_false, StoreAction.onDisk]
    cases Store.scan s.root domain project query found.cachedIds state'.disk <;> rfl

/-- Whatever is looked for, the invariant is kept. -/
theorem find_ready (h : s.Ready base lib state) (domain project : String) (query : Query) :
    ∃ state', s.Ready base lib state' ∧ Ends (s.find domain project query) state state' := by
  cases hscope : Names.checkScope domain project with
  | error failure =>
    exact ⟨state, h, .inr ⟨failure, by simp only [find, bind, EStateM.bind, hscope, require_error]⟩⟩
  | ok u =>
    obtain ⟨found, state', hsearch, hready, -, -, -, -⟩ := searchCache_ready h hscope query
    simp only [Ends, find_eq hscope hsearch]
    split
    · exact ⟨state', hready, .inl ⟨_, rfl⟩⟩
    · rcases hready.kept.scan_outcome h.room hscope query found.cachedIds with
        ⟨docs, hok, hdocs⟩ | ⟨failure, herror⟩
      · rw [hok]
        refine ⟨_, hready.of_cache hready.kept fun cache hagrees => ?_, .inl ⟨_, rfl⟩⟩
        exact hagrees.backfill fun d hd => hready.kept.valid.head?_self (hdocs d hd).1
      · rw [herror]
        exact ⟨_, hready, .inr ⟨_, rfl⟩⟩

/-- Whatever is looked for and whatever the names are, nothing is found but documents of the project
that the query accepts. -/
theorem find_sound (h : s.Ready base lib state) {query : Query} {docs : List Document}
    {state' : StoreState} (hfind : s.find domain project query state = .ok docs state') :
    ∀ d ∈ docs, lib.head? domain project d.id = some d ∧ query.accepts d = true := by
  cases hscope : Names.checkScope domain project with
  | error failure =>
    simp only [find, bind, EStateM.bind, hscope, require_error] at hfind
    cases hfind
  | ok u =>
    obtain ⟨found, mid, hsearch, hready, -, -, -, hdocs⟩ := searchCache_ready h hscope query
    have hcached : ∀ d ∈ found.docs, lib.head? domain project d.id = some d ∧
        query.accepts d = true := by
      intro d hd
      rw [hdocs, List.mem_filter, List.mem_filterMap] at hd
      obtain ⟨⟨id, -, hhead⟩, haccepts⟩ := hd
      obtain rfl := (hready.kept.valid.place hhead).2.2
      exact ⟨hhead, haccepts⟩
    rw [find_eq hscope hsearch] at hfind
    split at hfind
    · cases hfind
      exact hcached
    · rcases hready.kept.scan_outcome h.room hscope query found.cachedIds with
        ⟨docs, hok, hscanned⟩ | ⟨failure, herror⟩
      · rw [hok] at hfind
        cases hfind
        intro d hd
        exact (List.mem_append.mp hd).elim (hcached d) (hscanned d)
      · rw [herror] at hfind
        cases hfind

/-- What stands at the ids in the cache and what stands at the others make up the whole. -/
theorem perm_held {α : Type} {held ids : List String} (hheld : held.Nodup) (hids : ids.Nodup)
    (hsub : held ⊆ ids) (f : String → Option α) :
    (held.filterMap f ++ (ids.filter (· ∉ held)).filterMap f).Perm (ids.filterMap f) := by
  have hin : held.Perm (ids.filter (· ∈ held)) := by
    refine (List.perm_ext_iff_of_nodup hheld (hids.filter _)).mpr fun id => ?_
    rw [List.mem_filter, decide_eq_true_eq]
    exact ⟨fun hid => ⟨hsub hid, hid⟩, fun hid => hid.2⟩
  have hsplit : (ids.filter (· ∈ held) ++ ids.filter (· ∉ held)).Perm ids := by
    have hall := List.filter_append_perm (· ∈ held) ids
    simpa only [decide_not] using hall
  rw [← List.filterMap_append]
  exact ((hin.append_right _).trans hsplit).filterMap f

/-- Unless it is for a unique document, a query finds the documents of the project that it
accepts, whatever is in the cache. -/
theorem find_kept (h : s.Ready base lib state) (hscope : Names.checkScope domain project = .ok ())
    (hnames : ∀ n ∈ [domain, project], IsName n) (hloose : lib.loose? domain project = none)
    {query : Query} (hquery : query.isUnique = false) :
    ∃ ids docs state', lib.Lists domain project ids ∧
      s.find domain project query state = .ok docs state' ∧
      docs.Perm ((ids.filterMap (lib.head? domain project)).filter query.accepts) := by
  obtain ⟨found, state', hsearch, hready, -, hnodup, hheld, hdocs⟩ :=
    searchCache_ready h hscope query
  obtain ⟨ids, hlists, hscan⟩ := hready.kept.scan h.room hscope hnames hloose query found.cachedIds
  refine ⟨ids, found.docs ++ lib.pick domain project query (ids.filter (· ∉ found.cachedIds)),
    ⟨state'.disk, state'.cache.map fun cache => (cache.backfill
      (lib.pick domain project query (ids.filter (· ∉ found.cachedIds)))).2⟩, hlists, ?_, ?_⟩
  · rw [find_eq hscope hsearch, hquery, hscan]
    rfl
  · rw [hdocs, pick, hquery, if_neg Bool.false_ne_true, ← List.filter_append]
    refine (perm_held hnodup hlists.nodup (fun id hid => ?_) _).filter _
    exact (hlists.mem_iff id).mpr (hheld id hid)

/-- A listing is a page of what the query finds and the caller may see. -/
theorem list_kept (h : s.Ready base lib state) (hscope : Names.checkScope domain project = .ok ())
    (hnames : ∀ n ∈ [domain, project], IsName n) (hloose : lib.loose? domain project = none)
    (caller : Caller) {query : Query} (hquery : query.isUnique = false) :
    ∃ ids docs state', lib.Lists domain project ids ∧
      docs.Perm ((ids.filterMap (lib.head? domain project)).filter query.accepts) ∧
      s.list caller domain project query state
        = .ok (.ofFound (visible s.policy caller docs) query.offset query.limit) state' := by
  obtain ⟨ids, docs, state', hlists, hfind, hperm⟩ := find_kept h hscope hnames hloose hquery
  refine ⟨ids, docs, state', hlists, hperm, ?_⟩
  simp only [list, bind, EStateM.bind, hfind]
  rfl

theorem holdsKey_ready (h : s.Ready base lib state) (domain project key : String)
    (query : Query) :
    ∃ state', s.Ready base lib state' ∧
      Ends (s.holdsKey domain project key query) state state' := by
  obtain ⟨state', hready, hends⟩ := find_ready h domain project (keyQuery key query)
  refine ⟨state', hready, hends.after fun docs => ?_⟩
  split
  · exact .pure _
  · exact .guarded (.pure _)

theorem getByKey_ready (h : s.Ready base lib state) (domain project key : String)
    (query : Query) :
    ∃ state', s.Ready base lib state' ∧
      Ends (s.getByKey domain project key query) state state' := by
  obtain ⟨state', hready, hends⟩ := find_ready h domain project (keyQuery key query)
  exact ⟨state', hready, hends.after fun docs => .guarded (.guarded (.pure _))⟩

/-- Rotating the snapshots of any document keeps the invariant and the newest copies. -/
theorem addHistory_ready (h : s.Ready base lib state) (d : Document) :
    ∃ lib' state', Trimmed s.maxHistory lib lib' ∧ s.Ready base lib' state' ∧
      Ends (s.addHistory d) state state' := by
  obtain ⟨disk', lib', hends, hg, hvalid, hholds, htrimmed⟩ :=
    h.kept.holds.rotate_anywhere h.kept.valid h.kept.grounded d.domain d.project d.id s.maxHistory
  refine ⟨lib', { state with disk := disk' }, htrimmed,
    ⟨h.room, ⟨hvalid, hg, hholds⟩, fun cache hcache => ?_⟩, ?_⟩
  · exact (h.agrees cache hcache).of_head?_eq htrimmed.head?_eq
  · rcases hends with ⟨n, hok⟩ | ⟨failure, herror⟩
    · exact .inl ⟨(), by simp only [addHistory, bind, EStateM.bind, StoreAction.onDisk, hok]; rfl⟩
    · exact .inr ⟨failure, by simp only [addHistory, bind, EStateM.bind, StoreAction.onDisk,
        herror]⟩

end Store

/-! ## Requests -/

/-- The names in a request are names that a file system takes. -/
def Request.Fits : Request → Prop
  | .create _ d => ∀ name ∈ [d.domain, d.project, d.id], Library.Fits name
  | _ => True

/-- A request that leaves revision counters and polling records alone. -/
def Request.OnDocuments : Request → Prop
  | .advance _ | .putPolling _ => False
  | _ => True

/-- What a request with this result has done to the library: a successful write or deletion changes
it, and nothing else does, except that snapshots may be deleted when that is asked for. -/
def Library.After (max : Nat) (lib : Library) :
    Request → Except Failure Answer → Library → Prop
  | .create _ d, .ok answer, lib' => answer = .document d ∧ lib' = lib.write max d
  | .update _ d, .ok answer, lib' => ∃ old, lib.head? d.domain d.project d.id = some old ∧
      Store.checkNewer old d = .ok () ∧ answer = .document (old.merge d) ∧
      lib' = lib.write max (old.merge d)
  | .deleteOne _ domain project id, .ok answer, lib' => ∃ d, answer = .document d ∧
      lib.head? domain project id = some d ∧ lib' = lib.clear domain project [id]
  | .deleteMany _ domain project ids, .ok answer, lib' => ∃ docs, answer = .deleted docs ∧
      List.Forall₂ (fun id d => lib.head? domain project id = some d) ids.eraseDups docs ∧
      lib' = lib.clear domain project ids
  | .addHistory _, _, lib' => Trimmed max lib lib'
  | _, _, lib' => lib' = lib

/-- No request that is about documents makes loose files. -/
theorem Library.After.loose?_eq {max : Nat} {lib lib' : Library} {request : Request}
    {result : Except Failure Answer} (h : lib.After max request result lib') :
    lib'.loose? = lib.loose? := by
  cases request with
  | create caller d =>
    cases result with
    | ok answer =>
      obtain ⟨-, rfl⟩ := h
      rfl
    | error failure => exact congrArg loose? h
  | update caller d =>
    cases result with
    | ok answer =>
      obtain ⟨old, -, -, -, rfl⟩ := h
      rfl
    | error failure => exact congrArg loose? h
  | deleteOne caller domain project id =>
    cases result with
    | ok answer =>
      obtain ⟨d, -, -, rfl⟩ := h
      rfl
    | error failure => exact congrArg loose? h
  | deleteMany caller domain project ids =>
    cases result with
    | ok answer =>
      obtain ⟨docs, -, -, rfl⟩ := h
      rfl
    | error failure => exact congrArg loose? h
  | addHistory d => exact Trimmed.loose? h
  | _ => exact congrArg loose? h

namespace Session

variable {session : Session} {base : Place} {lib : Library}

theorem call_of_ok {request : Request} {α : Type} {action : StoreAction α} {f : α → Answer}
    {a : α} {state' : StoreState} (hanswer : session.store.answer request = f <$> action)
    (hok : action session.state = .ok a state') :
    session.call request = (.ok (f a), { session with state := state' }) := by
  simp only [call, hanswer, Functor.map, EStateM.map, hok]

theorem call_of_error {request : Request} {α : Type} {action : StoreAction α} {f : α → Answer}
    {failure : Failure} {state' : StoreState}
    (hanswer : session.store.answer request = f <$> action)
    (herror : action session.state = .error failure state') :
    session.call request = (.error failure, { session with state := state' }) := by
  simp only [call, hanswer, Functor.map, EStateM.map, herror]

/-- A request for an action on the disk alone changes nothing else. -/
theorem call_of_disk_ok {request : Request} {α : Type} {action : DiskAction α} {f : α → Answer}
    {a : α} {disk' : Node} (hanswer : session.store.answer request = f <$> .onDisk action)
    (hok : action session.state.disk = .ok a disk') :
    session.call request
      = (.ok (f a), { session with state := { session.state with disk := disk' } }) :=
  call_of_ok hanswer (onDisk_eq_ok_iff.mpr ⟨hok, rfl⟩)

theorem call_of_disk_error {request : Request} {α : Type} {action : DiskAction α} {f : α → Answer}
    {failure : Failure} {disk' : Node}
    (hanswer : session.store.answer request = f <$> .onDisk action)
    (herror : action session.state.disk = .error failure disk') :
    session.call request
      = (.error failure, { session with state := { session.state with disk := disk' } }) :=
  call_of_error hanswer (by simp only [StoreAction.onDisk, herror])

theorem call_of_ends (request : Request) {α : Type} {action : StoreAction α} {f : α → Answer}
    {state' : StoreState} (hanswer : session.store.answer request = f <$> action)
    (hends : Ends action session.state state') :
    ∃ result, session.call request = (result, { session with state := state' }) := by
  rcases hends with ⟨a, hok⟩ | ⟨failure, herror⟩
  · exact ⟨_, call_of_ok hanswer hok⟩
  · exact ⟨_, call_of_error hanswer herror⟩

/-- A listing gives a page of what the query finds and the caller may see. -/
theorem call_list_of_ok {domain project : String} {query : Query} {docs : List Document}
    {state' : StoreState}
    (hfind : session.store.find domain project query session.state = .ok docs state')
    (caller : Caller) :
    session.call (.list caller domain project query)
      = (.ok (.listing (.ofFound (visible session.store.policy caller docs) query.offset
          query.limit)), { session with state := state' }) := by
  refine call_of_ok rfl ?_
  simp only [Store.list, bind, EStateM.bind, hfind]
  rfl

theorem call_list_of_error {domain project : String} {query : Query} {failure : Failure}
    {state' : StoreState}
    (hfind : session.store.find domain project query session.state = .error failure state')
    (caller : Caller) :
    session.call (.list caller domain project query)
      = (.error failure, { session with state := state' }) := by
  refine call_of_error rfl ?_
  simp only [Store.list, bind, EStateM.bind, hfind]

end Session

end ConfigStore
