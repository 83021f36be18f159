import ConfigStore.Proofs.Cache.Indexing

/-!
# Sequences of calls of a cache

A cache is called again and again, by requests that write documents, by scans, and by the sweeps of
its refresher. Whatever the order of these calls, a search finds exactly the copies that looking the
documents up would find, and nothing that is done with documents of other scopes shows in it.

* `Cache.Call` lists the calls, `Cache.Reply` their results, and `Cache.run` makes one call after
  the other.
* `Cache.Call.within` is what a call has to do with one scope.
* `Cache.Alike` says that two caches cannot be told apart in one scope; `Cache.Alike.run` that calls
  which are the same within that scope leave them so.
* `Cache.run_search` is the result.
-/

namespace ConfigStore.Cache

/-- What a cache can be called for. -/
inductive Call
  | put (docs : List Document)
  | backfill (docs : List Document)
  | evict (docs : List Document)
  | get (domain project id : String)
  | search (domain project : String) (query : Query)
  | sweep

/-- What a call gives. -/
inductive Reply
  | done
  /-- How many documents were kept. -/
  | kept (count : Nat)
  | copy (doc : Option Document)
  | found (found : CacheSearch)
  /-- How many copies were dropped. -/
  | dropped (count : Nat)

/-- Makes a call. -/
def call (c : Cache) : Call → Reply × Cache
  | .put docs => (.done, c.put docs)
  | .backfill docs => let (count, c) := c.backfill docs; (.kept count, c)
  | .evict docs => (.done, c.evict docs)
  | .get domain project id => let (doc, c) := c.get domain project id; (.copy doc, c)
  | .search domain project query =>
    let (found, c) := c.search domain project query; (.found found, c)
  | .sweep => let (count, c) := c.sweep; (.dropped count, c)

/-- Makes one call after the other. -/
def run (c : Cache) : List Call → List Reply × Cache
  | [] => ([], c)
  | call :: calls =>
    let (reply, c) := c.call call
    let (replies, c) := c.run calls
    (reply :: replies, c)

/-- The documents that a call hands to the cache. -/
def Call.docs : Call → List Document
  | .put docs | .backfill docs | .evict docs => docs
  | _ => []

variable {a b c : Cache} {d : Document} {domain project domain' project' id : String}
  {docs : List Document}

theorem backfill_eq_foldl (c : Cache) (docs : List Document) :
    (c.backfill docs).2 = docs.foldl (fun c d => (c.backfillOne d).2) c := by
  induction docs generalizing c with
  | nil => rfl
  | cons d docs ih => exact ih _

/-! ## The invariant -/

theorem Indexed.call (h : c.Indexed) {call : Call} (hdocs : ∀ d ∈ call.docs, d.SlashFree) :
    (c.call call).2.Indexed := by
  cases call with
  | put docs => exact h.foldl (fun _ _ h hd => h.putOne hd) hdocs
  | backfill docs =>
    show (c.backfill docs).2.Indexed
    rw [backfill_eq_foldl]
    exact h.foldl (fun _ _ h hd => h.backfillOne hd) hdocs
  | evict docs => exact h.foldl (fun _ d h _ => h.evictOne d) hdocs
  | get domain project id => exact h.get domain project id
  | search domain project query => exact h.searchIds domain project query _
  | sweep => exact h.sweep

theorem Indexed.run {calls : List Call} (h : c.Indexed)
    (hdocs : ∀ call ∈ calls, ∀ d ∈ call.docs, d.SlashFree) : (c.run calls).2.Indexed := by
  induction calls generalizing c with
  | nil => exact h
  | cons call calls ih =>
    obtain ⟨hcall, hdocs⟩ := List.forall_mem_cons.mp hdocs
    exact ih (h.call hcall) hdocs

/-! ## One scope -/

/-- The document belongs to a scope. -/
def InScope (domain project : String) (d : Document) : Prop :=
  d.domain = domain ∧ d.project = project

instance (domain project : String) (d : Document) : Decidable (InScope domain project d) :=
  inferInstanceAs (Decidable (_ ∧ _))

/-- A call that hands over the documents of one scope only, if there are any. -/
def Call.about (domain project : String) (call : List Document → Call) (docs : List Document) :
    Option Call :=
  match docs.filter (InScope domain project ·) with
  | [] => none
  | docs => some (call docs)

/-- What a call has to do with one scope; none if it is about other scopes only. -/
def Call.within (domain project : String) : Call → Option Call
  | .put docs => about domain project .put docs
  | .backfill docs => about domain project .backfill docs
  | .evict docs => about domain project .evict docs
  | .get domain' project' id =>
    if domain' = domain ∧ project' = project then some (.get domain' project' id) else none
  | .search domain' project' query =>
    if domain' = domain ∧ project' = project then some (.search domain' project' query) else none
  | .sweep => some .sweep

/-- Two caches cannot be told apart in one scope. -/
structure Alike (domain project : String) (a b : Cache) : Prop where
  ttl : a.ttl = b.ttl
  ids : a.idsIn (scopeKey domain project) = b.idsIn (scopeKey domain project)
  bodies : ∀ id, a.bodies.get? (documentKey domain project id)
    = b.bodies.get? (documentKey domain project id)
  evicted : ∀ id, a.evicted.get? (documentKey domain project id)
    = b.evicted.get? (documentKey domain project id)

namespace Alike

theorem refl (domain project : String) (c : Cache) : Alike domain project c c :=
  ⟨rfl, rfl, fun _ => rfl, fun _ => rfl⟩

theorem symm (h : Alike domain project a b) : Alike domain project b a :=
  ⟨h.ttl.symm, h.ids.symm, fun id => (h.bodies id).symm, fun id => (h.evicted id).symm⟩

theorem trans (h : Alike domain project a b) (h' : Alike domain project b c) :
    Alike domain project a c :=
  ⟨h.ttl.trans h'.ttl, h.ids.trans h'.ids, fun id => (h.bodies id).trans (h'.bodies id),
    fun id => (h.evicted id).trans (h'.evicted id)⟩

theorem expiresAtOnce (h : Alike domain project a b) : a.expiresAtOnce = b.expiresAtOnce := by
  rw [Cache.expiresAtOnce, Cache.expiresAtOnce, h.ttl]

theorem get (h : Alike domain project a b) (id : String) :
    (a.get domain project id).1 = (b.get domain project id).1 := by
  simp only [Cache.get, h.expiresAtOnce]
  split
  · rfl
  · exact h.bodies id

/-- A search goes by the ids of the scope and by what is found of them. -/
theorem search (h : Alike domain project a b) (query : Query) :
    (a.search domain project query).1 = (b.search domain project query).1 := by
  simp only [Cache.search, searchIds_eq, h.ids, h.get]

/-! ### Changes within the scope -/

theorem drop (h : Alike domain project a b) (key : String) :
    Alike domain project (a.drop key) (b.drop key) := by
  refine ⟨h.ttl, h.ids, fun id => ?_, h.evicted⟩
  rw [Cache.drop, Cache.drop, Dict.get?_erase, Dict.get?_erase, h.bodies]

theorem store_index (h : Alike domain project a b) (d : Document) :
    Alike domain project ((a.store d).index d) ((b.store d).index d) := by
  refine ⟨h.ttl, ?_, fun id => ?_, h.evicted⟩
  · rw [idsIn_index, idsIn_index]
    simp only [Cache.store, idsIn] at h ⊢
    have hids := h.ids
    simp only [idsIn] at hids
    rw [hids]
  · simp only [index, store, Dict.get?_insert, h.bodies]

theorem putOne (h : Alike domain project a b) (d : Document) :
    Alike domain project (a.putOne d) (b.putOne d) := by
  refine store_index (a := { a with evicted := a.evicted.erase (keyOf d) })
    (b := { b with evicted := b.evicted.erase (keyOf d) }) ⟨h.ttl, h.ids, h.bodies, fun id => ?_⟩ d
  simp only [Dict.get?_erase, h.evicted]

theorem evictOne (h : Alike domain project a b) (d : Document) :
    Alike domain project (a.evictOne d) (b.evictOne d) := by
  refine ⟨h.ttl, ?_, fun id => ?_, fun id => ?_⟩
  · have hids := h.ids
    rw [Cache.evictOne, Cache.evictOne, idsIn_unindex, idsIn_unindex]
    simp only [Cache.drop, idsIn] at hids ⊢
    rw [hids]
  · simp only [bodies_evictOne, Dict.get?_erase, h.bodies]
  · simp only [Cache.evictOne, unindex, Cache.drop, Dict.get?_insert, h.evicted]

/-- Whether a document is kept hangs on its copy and on its marker. -/
theorem backfillOne (h : Alike domain project a b) (hd : InScope domain project d) :
    Alike domain project (a.backfillOne d).2 (b.backfillOne d).2 := by
  obtain ⟨rfl, rfl⟩ := hd
  have hnewer : a.hasNewer d = b.hasNewer d := by
    rw [hasNewer, hasNewer, keyOf, h.bodies]
  have hmarked : a.isMarked d = b.isMarked d := by
    rw [isMarked, isMarked, keyOf, h.evicted]
  simp only [Cache.backfillOne, hnewer, hmarked]
  split
  · exact h
  · split
    · exact h.drop _
    · exact h.store_index d

theorem sweep (h : Alike domain project a b) : Alike domain project a.sweep.2 b.sweep.2 := by
  simp only [Cache.sweep, h.expiresAtOnce]
  split
  · exact ⟨h.ttl, h.ids, fun _ => rfl, fun _ => rfl⟩
  · exact h

theorem get_cache (h : Alike domain project a b) (domain' project' id : String) :
    Alike domain project (a.get domain' project' id).2 (b.get domain' project' id).2 := by
  simp only [Cache.get, h.expiresAtOnce]
  split
  · exact h.drop _
  · exact h

theorem searchIds_cache (h : Alike domain project a b) (query : Query) (ids : List String) :
    Alike domain project (a.searchIds domain project query ids).2
      (b.searchIds domain project query ids).2 := by
  induction ids generalizing a b with
  | nil => exact h
  | cons id ids ih =>
    rw [searchIds_cons, searchIds_cons]
    exact ih (h.get_cache domain project id)

/-! ### Changes in other scopes -/

theorem other_key (hd : d.SlashFree) (hother : ¬InScope domain project d) (id : String) :
    documentKey domain project id ≠ keyOf d := fun h =>
  hother ⟨(place_of_documentKey hd h).1, (place_of_documentKey hd h).2.1⟩

theorem other_scope (hd : d.SlashFree) (hother : ¬InScope domain project d) :
    scopeKey domain project ≠ scopeOf d := fun h => hother (scope_of_scopeKey hd h)

theorem putOne_other (hd : d.SlashFree) (hother : ¬InScope domain project d) (c : Cache) :
    Alike domain project c (c.putOne d) := by
  refine ⟨rfl, ?_, fun id => ?_, fun id => ?_⟩
  · rw [Cache.putOne, idsIn_index, if_neg (other_scope hd hother)]
    rfl
  · rw [bodies_putOne, Dict.get?_insert, if_neg (other_key hd hother id)]
  · simp only [Cache.putOne, index, store, Dict.get?_erase, if_neg (other_key hd hother id)]

theorem evictOne_other (hd : d.SlashFree) (hother : ¬InScope domain project d) (c : Cache) :
    Alike domain project c (c.evictOne d) := by
  refine ⟨rfl, ?_, fun id => ?_, fun id => ?_⟩
  · rw [Cache.evictOne, idsIn_unindex, if_neg (other_scope hd hother)]
    rfl
  · rw [bodies_evictOne, Dict.get?_erase, if_neg (other_key hd hother id)]
  · simp only [Cache.evictOne, unindex, Cache.drop, Dict.get?_insert,
      if_neg (other_key hd hother id)]

theorem backfillOne_other (hd : d.SlashFree) (hother : ¬InScope domain project d) (c : Cache) :
    Alike domain project c (c.backfillOne d).2 := by
  unfold Cache.backfillOne
  split
  · exact refl _ _ c
  · split
    · refine ⟨rfl, rfl, fun id => ?_, fun _ => rfl⟩
      rw [Cache.drop, Dict.get?_erase, if_neg (other_key hd hother id)]
    · refine ⟨rfl, ?_, fun id => ?_, fun _ => rfl⟩
      · rw [idsIn_index, if_neg (other_scope hd hother)]
        rfl
      · rw [index, store, Dict.get?_insert, if_neg (other_key hd hother id)]

/-- Looking up a document of another scope drops no copy of this one. -/
theorem get_other (h : c.Indexed) (hother : ¬(domain' = domain ∧ project' = project))
    (id : String) : Alike domain project c (c.get domain' project' id).2 := by
  rcases get_outcome c domain' project' id with hget | hget
  · rw [hget]
    exact refl _ _ c
  · rw [hget]
    refine ⟨rfl, rfl, fun id' => ?_, fun _ => rfl⟩
    rw [Cache.drop, Dict.get?_erase]
    split
    next hkey =>
      -- only odd names give two scopes one key, and no copy stands under such a key
      cases hcopy : c.bodies.get? (documentKey domain project id') with
      | none => rfl
      | some d =>
        obtain ⟨hown, hd⟩ := h.named _ _ hcopy
        have hhere := place_of_documentKey hd hown
        have hthere := place_of_documentKey hd (hkey ▸ hown)
        exact absurd ⟨hthere.1.symm.trans hhere.1, hthere.2.1.symm.trans hhere.2.1⟩ hother
    · rfl

theorem searchIds_other (h : c.Indexed) (hother : ¬(domain' = domain ∧ project' = project))
    (query : Query) (ids : List String) :
    Alike domain project c (c.searchIds domain' project' query ids).2 := by
  induction ids generalizing c with
  | nil => exact refl _ _ c
  | cons id ids ih =>
    rw [searchIds_cons]
    exact (get_other h hother id).trans (ih (h.get domain' project' id))

/-! ### Calls -/

/-- Of the documents that are handed over, those of other scopes do not show. -/
theorem foldl {change : Cache → Document → Cache} (h : Alike domain project a b)
    (hin : ∀ a b d, Alike domain project a b → InScope domain project d →
      Alike domain project (change a d) (change b d))
    (hout : ∀ c d, Document.SlashFree d → ¬InScope domain project d →
      Alike domain project c (change c d))
    (hdocs : ∀ d ∈ docs, d.SlashFree) :
    Alike domain project (docs.foldl change a)
      ((docs.filter (InScope domain project ·)).foldl change b) := by
  induction docs generalizing a b with
  | nil => exact h
  | cons d docs ih =>
    obtain ⟨hd, hdocs⟩ := List.forall_mem_cons.mp hdocs
    rw [List.foldl_cons, List.filter_cons]
    split
    next hscope => exact ih (hin a b d h (of_decide_eq_true hscope)) hdocs
    next hscope =>
      exact ih ((hout a d hd fun hin => hscope (decide_eq_true hin)).symm.trans h) hdocs

/-- Makes a call if there is one. -/
def callIf (c : Cache) : Option Call → Cache
  | none => c
  | some call => (c.call call).2

theorem callIf_about (call : List Document → Call)
    (hcall : ∀ c : Cache, (c.call (call [])).2 = c) (c : Cache) (docs : List Document) :
    callIf c (Call.about domain project call docs)
      = (c.call (call (docs.filter (InScope domain project ·)))).2 := by
  unfold Call.about
  split
  next hnil => rw [hnil, hcall]; rfl
  next => rfl

theorem call (h : Alike domain project a b) (ha : a.Indexed) {call : Call}
    (hdocs : ∀ d ∈ call.docs, d.SlashFree) :
    Alike domain project (a.call call).2 (callIf b (call.within domain project)) := by
  cases call with
  | put docs =>
    rw [Call.within, callIf_about .put fun _ => rfl]
    exact h.foldl (fun _ _ d h _ => h.putOne d) (fun c _ hd ho => putOne_other hd ho c) hdocs
  | backfill docs =>
    rw [Call.within, callIf_about .backfill fun _ => rfl]
    simp only [Cache.call, backfill_eq_foldl]
    exact h.foldl (fun _ _ _ h hd => h.backfillOne hd)
      (fun c _ hd ho => backfillOne_other hd ho c) hdocs
  | evict docs =>
    rw [Call.within, callIf_about .evict fun _ => rfl]
    exact h.foldl (fun _ _ d h _ => h.evictOne d) (fun c _ hd ho => evictOne_other hd ho c) hdocs
  | get domain' project' id =>
    rw [Call.within]
    split
    · exact h.get_cache domain' project' id
    next hother => exact (get_other ha hother id).symm.trans h
  | search domain' project' query =>
    rw [Call.within]
    split
    next hsame =>
      obtain ⟨rfl, rfl⟩ := hsame
      simp only [callIf, Cache.call, Cache.search, h.ids]
      exact h.searchIds_cache query _
    next hother => exact (searchIds_other ha hother query _).symm.trans h
  | sweep => exact h.sweep

/-- A sequence of calls leaves in a scope what the calls within the scope leave. -/
theorem run {calls : List Call} (h : Alike domain project a b) (ha : a.Indexed)
    (hdocs : ∀ call ∈ calls, ∀ d ∈ call.docs, d.SlashFree) :
    Alike domain project (a.run calls).2
      (b.run (calls.filterMap (Call.within domain project))).2 := by
  induction calls generalizing a b with
  | nil => exact h
  | cons call calls ih =>
    obtain ⟨hcall, hdocs⟩ := List.forall_mem_cons.mp hdocs
    have hstep := h.call ha hcall
    rw [List.filterMap_cons]
    split
    next hnone =>
      rw [hnone] at hstep
      exact ih hstep (ha.call hcall) hdocs
    next some hsome =>
      rw [hsome] at hstep
      exact ih hstep (ha.call hcall) hdocs

end Alike

/-! ## All scopes -/

/-- After any calls of a cache that was empty at first, with documents whose names have no slash in
them, a search finds exactly the copies that looking them up would find, and what is looked up has
the place that was asked for. None of this hangs on calls about other scopes: two sequences of calls
that are the same within a scope give the same answers there. -/
theorem run_search (ttl : Nat) (calls : List Call)
    (hdocs : ∀ call ∈ calls, ∀ d ∈ call.docs, d.SlashFree) (domain project : String) :
    (∀ query, (run { ttl } calls).2.Faithful domain project query
      ((run { ttl } calls).2.search domain project query).1) ∧
    (∀ id d, ((run { ttl } calls).2.get domain project id).1 = some d →
      d.domain = domain ∧ d.project = project ∧ d.id = id) ∧
    ∀ calls' : List Call, (∀ call ∈ calls', ∀ d ∈ call.docs, d.SlashFree) →
      calls'.filterMap (Call.within domain project) = calls.filterMap (Call.within domain project) →
      (∀ id, ((run { ttl } calls').2.get domain project id).1
        = ((run { ttl } calls).2.get domain project id).1) ∧
      ∀ query, ((run { ttl } calls').2.search domain project query).1
        = ((run { ttl } calls).2.search domain project query).1 := by
  have hempty := Indexed.empty ttl
  have hindexed := hempty.run hdocs
  refine ⟨hindexed.search domain project, fun id d hget => (hindexed.of_get hget).1,
    fun calls' hdocs' hsame => ?_⟩
  have hrun := (Alike.refl domain project { ttl }).run hempty hdocs
  have hrun' := (Alike.refl domain project { ttl }).run hempty hdocs'
  rw [hsame] at hrun'
  have halike := hrun'.trans hrun.symm
  exact ⟨halike.get, halike.search⟩

/-- A document of a project, at a revision. -/
def copyOf (project id : String) (revision : Int64) : Document :=
  { domain := "shop", project, id, updateRevision := revision }

/-- A deleted document is scanned in late, next to one that was never deleted. -/
def lateScan : List Call :=
  [.put [copyOf "web" "1" 3], .evict [copyOf "web" "1" 4],
    .backfill [copyOf "web" "1" 3, copyOf "web" "2" 5], .sweep]

/-- The same, while another project is at work on a document of the same id. -/
def lateScanBeside : List Call :=
  [.put [copyOf "web" "1" 3, copyOf "app" "1" 9], .evict [copyOf "web" "1" 4],
    .evict [copyOf "app" "1" 9], .search "shop" "app" {},
    .backfill [copyOf "web" "1" 3, copyOf "app" "1" 9, copyOf "web" "2" 5], .sweep]

/-- The deleted document is stored again in the end. -/
def putAgain : List Call := lateScan ++ [.put [copyOf "web" "1" 6]]

theorem run_search_sample :
    ((run { ttl := 60 } lateScan).2.search "shop" "web" {}).1
      = { docs := [copyOf "web" "2" 5], usedCache := true, cachedIds := ["2"], missingIds := [] } ∧
    (run { ttl := 60 } lateScan).2.Faithful "shop" "web" {}
      ((run { ttl := 60 } lateScan).2.search "shop" "web" {}).1 ∧
    ((run { ttl := 60 } lateScanBeside).2.search "shop" "web" {}).1
      = ((run { ttl := 60 } lateScan).2.search "shop" "web" {}).1 ∧
    ((run { ttl := 60 } putAgain).2.get "shop" "web" "1").1 = some (copyOf "web" "1" 6) ∧
    (run { ttl := 60 } putAgain).2.Faithful "shop" "web" {}
      { docs := [copyOf "web" "1" 6, copyOf "web" "2" 5], usedCache := true,
        cachedIds := ["1", "2"], missingIds := [] } := by
  obtain ⟨hfaithful, -, hsame⟩ := run_search 60 lateScan (by decide) "shop" "web"
  obtain ⟨hagain, -⟩ := run_search 60 putAgain (by decide) "shop" "web"
  exact ⟨by decide, hfaithful {}, (hsame lateScanBeside (by decide) (by rfl)).2 {}, by decide,
    hagain {}⟩

end ConfigStore.Cache
