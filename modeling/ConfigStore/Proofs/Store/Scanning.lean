import ConfigStore.Proofs.Cache.Copies
import ConfigStore.Proofs.Document.Ordering
import ConfigStore.Proofs.Library.Serving

/-!
# Scanning any directory

What a listing finds if the files below the directory of a store may have come from anywhere. A
document says where it belongs, and the cache goes by that, while a scan goes by the directories. As
long as every document that a scan comes across is where it belongs, the cache and the scan agree.

* `Store.met?` is the document that a scan comes across at an id, and `Store.scan_outcome` says what
  a scan finds, or with what it fails, if some ids are passed over.
* `Store.InPlace` says that documents are where they belong, and `Store.Meets` of one document that
  a scan comes across it there.
* `Store.find_backed` says that a store whose cache has only such documents finds what it would find
  without a cache.
-/

namespace ConfigStore.Store

open Node Disk Files

variable {root : Path} {disk : Node} {domain project id : String} {query : Query} {d : Document}

/-! ## Scans that pass over some ids -/

/-- The document that a scan comes across at an id. -/
def met? (root : Path) (disk : Node) (domain project id : String) : Option Document :=
  match scanOne root domain project id disk with
  | .ok found _ => found
  | .error _ _ => none

theorem scanOne_outcome (root : Path) (disk : Node) (domain project id : String) :
    scanOne root domain project id disk = .ok (met? root disk domain project id) disk ∨
      met? root disk domain project id = none ∧
        ∃ failure, scanOne root domain project id disk = .error failure disk := by
  rcases (looks_scanOne root domain project id).outcome disk with ⟨found, hok⟩ | ⟨failure, herror⟩
  · have hmet : met? root disk domain project id = found := by
      unfold met?
      rw [hok]
    exact .inl (hmet ▸ hok)
  · have hmet : met? root disk domain project id = none := by
      unfold met?
      rw [herror]
    exact .inr ⟨hmet, failure, herror⟩

/-- What a scan comes across at an id comes before what it finds at the others. -/
theorem scanIds_cons (hquery : query.isUnique = false) {skip : List String} (hskip : id ∉ skip)
    {found : Option Document} (hone : scanOne root domain project id disk = .ok found disk)
    (ids : List String) :
    scanIds root domain project query skip (id :: ids) disk =
      (((found.filter query.accepts).toList ++ ·) <$>
        scanIds root domain project query skip ids) disk := by
  have hnil : ∀ action : DiskAction (List Document), (([] ++ ·) <$> action) disk = action disk := by
    intro action
    simp only [List.nil_append, Functor.map, EStateM.map]
    cases action disk <;> rfl
  rw [scanIds, if_neg hskip]
  simp only [bind, EStateM.bind, hone]
  cases found with
  | none => exact (hnil _).symm
  | some d =>
    cases haccepts : query.accepts d with
    | false =>
      simp only [Option.filter, haccepts, Bool.not_false, if_true, Bool.false_eq_true, if_false]
      exact (hnil _).symm
    | true =>
      simp only [Option.filter, haccepts, hquery, Bool.not_true, Bool.false_eq_true, if_false,
        if_true, Option.toList_some]
      simp only [EStateM.bind, Functor.map, EStateM.map, List.cons_append, List.nil_append]
      cases scanIds root domain project query skip ids disk <;> rfl

/-- A scan finds what the query accepts of the documents that it comes across at the ids that are
not passed over. If it fails, it fails in the same way whatever documents it passes over. -/
theorem scanIds_outcome (root : Path) (disk : Node) (domain project : String)
    (hquery : query.isUnique = false) (ids : List String) :
    (∀ skip, scanIds root domain project query skip ids disk
        = .ok (((ids.filter (· ∉ skip)).filterMap (met? root disk domain project)).filter
          query.accepts) disk) ∨
      ∃ failure, ∀ skip, (∀ id ∈ skip, (met? root disk domain project id).isSome) →
        scanIds root domain project query skip ids disk = .error failure disk := by
  induction ids with
  | nil => exact .inl fun _ => rfl
  | cons id ids ih =>
    have hpassed : ∀ {skip : List String}, id ∈ skip →
        scanIds root domain project query skip (id :: ids) disk
          = scanIds root domain project query skip ids disk := fun hmem => by
      rw [scanIds, if_pos hmem]
    rcases scanOne_outcome root disk domain project id with hone | ⟨hnone, failure, hone⟩
    · rcases ih with hrest | ⟨failure, hrest⟩
      · refine .inl fun skip => ?_
        by_cases hmem : id ∈ skip
        · rw [hpassed hmem, List.filter_cons_of_neg (by simpa using hmem)]
          exact hrest skip
        · rw [scanIds_cons hquery hmem hone, List.filter_cons_of_pos (by simpa using hmem)]
          simp only [Functor.map, EStateM.map, hrest skip]
          cases hmet : met? root disk domain project id with
          | none => rw [List.filterMap_cons_none hmet, Option.filter_none, Option.toList_none,
              List.nil_append]
          | some d =>
            rw [List.filterMap_cons_some hmet, List.filter_cons, Option.filter_some]
            split <;> rfl
      · refine .inr ⟨failure, fun skip hskip => ?_⟩
        by_cases hmem : id ∈ skip
        · rw [hpassed hmem, hrest skip hskip]
        · rw [scanIds_cons hquery hmem hone]
          simp only [Functor.map, EStateM.map, hrest skip hskip]
    · refine .inr ⟨failure, fun skip hskip => ?_⟩
      have hmem : id ∉ skip := by
        intro hmem
        have hsome := hskip id hmem
        rw [hnone] at hsome
        cases hsome
      rw [scanIds, if_neg hmem]
      simp only [bind, EStateM.bind, hone]

/-- A scan of a project visits the directories with these names. -/
def Visits (root : Path) (disk : Node) (domain project : String) (ids : List String) : Prop :=
  (subdirs (Layout.projectDir root domain project)).orIfMissing [] disk = .ok ids disk

theorem Visits.unique {ids ids' : List String} (h : Visits root disk domain project ids)
    (h' : Visits root disk domain project ids') : ids = ids' := by
  rw [Visits, h] at h'
  cases h'
  rfl

theorem Visits.nodup {ids : List String} (h : Visits root disk domain project ids)
    (hd : disk.Distinct) : ids.Nodup := by
  rw [Visits, DiskAction.orIfMissing] at h
  cases hentries : Disk.entries disk (Layout.projectDir root domain project) with
  | error refusal =>
    rw [subdirs_of_error hentries] at h
    dsimp only at h
    split at h
    · cases h
      exact List.nodup_nil
    · cases h
  | ok children =>
    obtain ⟨place, -, hchildren⟩ := leads_of_entries hentries
    rw [subdirs_of_ok hentries] at h
    cases h
    exact nodup_subdirs hd hchildren

theorem scan_outcome (root : Path) (disk : Node) (domain project : String)
    (hquery : query.isUnique = false) :
    (∃ ids, Visits root disk domain project ids ∧ ∀ skip,
        scan root domain project query skip disk
          = .ok (((ids.filter (· ∉ skip)).filterMap (met? root disk domain project)).filter
            query.accepts) disk) ∨
      ∃ failure, ∀ skip, (∀ id ∈ skip, (met? root disk domain project id).isSome) →
        scan root domain project query skip disk = .error failure disk := by
  rcases ((looks_subdirs (Layout.projectDir root domain project)).orIfMissing []).outcome disk with
    ⟨ids, hids⟩ | ⟨failure, hids⟩
  · refine (scanIds_outcome root disk domain project hquery ids).imp (fun hok => ⟨ids, hids, ?_⟩)
      fun ⟨failure, herror⟩ => ⟨failure, ?_⟩
    · intro skip
      simp only [scan, bind, EStateM.bind, hids, hok skip]
    · intro skip hskip
      simp only [scan, bind, EStateM.bind, hids, herror skip hskip]
  · refine .inr ⟨failure, fun skip _ => ?_⟩
    simp only [scan, bind, EStateM.bind, hids]

/-! ## Documents that are where they belong -/

/-- Every document that a scan comes across is where it belongs. -/
def InPlace (root : Path) (disk : Node) : Prop :=
  ∀ domain project ids, Names.checkScope domain project = .ok () →
    Visits root disk domain project ids → ∀ id ∈ ids, ∀ d,
      met? root disk domain project id = some d →
        d.domain = domain ∧ d.project = project ∧ d.id = id

/-- A scan comes across a document where it belongs. -/
structure Meets (root : Path) (disk : Node) (d : Document) : Prop where
  scope : Names.checkScope d.domain d.project = .ok ()
  listed : ∃ ids, Visits root disk d.domain d.project ids ∧ d.id ∈ ids
  met : met? root disk d.domain d.project d.id = some d

/-- No two documents of a scan have one id. -/
theorem InPlace.ranked (h : InPlace root disk) (hscope : Names.checkScope domain project = .ok ())
    {ids : List String} (hids : Visits root disk domain project ids) (query : Query) :
    Ranked ((ids.filterMap (met? root disk domain project)).filter query.accepts) := by
  have hplace : ∀ d ∈ (ids.filterMap (met? root disk domain project)).filter query.accepts,
      met? root disk domain project d.id = some d := by
    intro d hd
    obtain ⟨id, hid, hmet⟩ := List.mem_filterMap.mp (List.mem_filter.mp hd).1
    rw [(h domain project ids hscope hids id hid d hmet).2.2, hmet]
  intro a ha b hb _ _ hid
  have hmet := hplace a ha
  rw [hid, hplace b hb] at hmet
  exact (Option.some.inj hmet).symm

theorem InPlace.meets (h : InPlace root disk) (hscope : Names.checkScope domain project = .ok ())
    {ids : List String} (hids : Visits root disk domain project ids) (hid : id ∈ ids)
    (hmet : met? root disk domain project id = some d) : Meets root disk d := by
  obtain ⟨rfl, rfl, rfl⟩ := h domain project ids hscope hids id hid d hmet
  exact ⟨hscope, ⟨ids, hids, hid⟩, hmet⟩

/-! ## Finding -/

variable {s : Store} {state : StoreState}

/-- Every copy in the cache, if there is one, is of a document that a scan comes across. -/
def Backed (s : Store) (state : StoreState) : Prop :=
  ∀ cache, state.cache = some cache → cache.All (Meets s.root state.disk)

/-- A search in the cache, if there is one, finds documents that a scan comes across as well. -/
theorem searchCache_backed (h : s.Backed state)
    (hscope : Names.checkScope domain project = .ok ()) (query : Query) :
    ∃ (copies : List Document) (state' : StoreState) (found : CacheSearch),
      searchCache domain project query state = .ok found state' ∧
      state'.disk = state.disk ∧ s.Backed state' ∧ (copies.map (·.id)).Nodup ∧
      (∀ d ∈ copies, Meets s.root state.disk d ∧ d.domain = domain ∧ d.project = project) ∧
      found.cachedIds = copies.map (·.id) ∧ found.docs = copies.filter query.accepts := by
  cases hcache : state.cache with
  | none =>
    exact ⟨[], state, {}, searchCache_none hcache query, rfl, h, List.nodup_nil,
      fun _ hd => absurd hd List.not_mem_nil, rfl, rfl⟩
  | some cache =>
    obtain ⟨hdomain, hproject⟩ := Names.noSlash_of_checkScope hscope
    obtain ⟨copies, cache', hsub, hcopies, hall, found, hfound, hids, hdocs⟩ :=
      (h cache hcache).searchIds (fun d hmeets => Names.noSlash_of_checkScope hmeets.scope) hdomain
        hproject query (cache.idsIn (Cache.scopeKey domain project)).keys
    refine ⟨copies, ⟨state.disk, some cache'⟩, found, ?_, rfl, fun c hc => ?_,
      (Dict.nodup_keys _).sublist hsub, hcopies, hids, hdocs⟩
    · rw [searchCache_some hcache, Cache.search, hfound]
    · cases hc
      exact hall

/-- Beside a cache of documents that a scan comes across, a query finds what it finds without a
cache, in some order, or it fails in the same way. -/
theorem find_backed (h : s.Backed state) (hd : state.disk.Distinct)
    (hplaces : InPlace s.root state.disk) (hscope : Names.checkScope domain project = .ok ())
    (hquery : query.isUnique = false) :
    ∃ state', state'.disk = state.disk ∧ s.Backed state' ∧
      ((∃ docs all, s.find domain project query state = .ok docs state' ∧
          scan s.root domain project query [] state.disk = .ok all state.disk ∧
          docs.Perm all ∧ Ranked docs) ∨
        ∃ failure, s.find domain project query state = .error failure state' ∧
          scan s.root domain project query [] state.disk = .error failure state.disk) := by
  obtain ⟨copies, mid, found, hsearch, hdisk, hbacked, hnodup, hcopies, hcached, hdocs⟩ :=
    searchCache_backed h hscope query
  have hmet : ∀ d ∈ copies, met? s.root state.disk domain project d.id = some d := by
    intro d hd
    obtain ⟨hmeets, rfl, rfl⟩ := hcopies d hd
    exact hmeets.met
  have hfind := find_eq (s := s) hscope hsearch
  rw [hquery, Bool.false_and, if_neg Bool.false_ne_true, hdisk, hcached] at hfind
  rcases scan_outcome s.root state.disk domain project hquery with
    ⟨ids, hids, hscan⟩ | ⟨failure, hscan⟩
  · rw [hscan (copies.map (·.id))] at hfind
    refine ⟨_, ?_, ?_, .inl ⟨_, _, hfind, hscan [], ?_⟩⟩
    · rfl
    · intro cache hcache
      obtain ⟨old, hold, rfl⟩ := Option.map_eq_some_iff.mp hcache
      have hall := hbacked old hold
      rw [hdisk] at hall
      refine hall.backfill fun d hd => ?_
      obtain ⟨id, hid, hmet⟩ := List.mem_filterMap.mp (List.mem_filter.mp hd).1
      exact hplaces.meets hscope hids (List.mem_filter.mp hid).1 hmet
    · have hlisted : copies.map (·.id) ⊆ ids := by
        intro id hid
        obtain ⟨d, hd, rfl⟩ := List.mem_map.mp hid
        obtain ⟨⟨-, ⟨ids', hids', hmem⟩, -⟩, rfl, rfl⟩ := hcopies d hd
        rwa [hids.unique hids']
      have hpick : (copies.map (·.id)).filterMap (met? s.root state.disk domain project)
          = copies := by
        rw [List.filterMap_map]
        exact (List.filterMap_congr hmet).trans List.filterMap_some
      have hperm : (found.docs ++ ((ids.filter (· ∉ copies.map (·.id))).filterMap
          (met? s.root state.disk domain project)).filter query.accepts).Perm
            ((ids.filterMap (met? s.root state.disk domain project)).filter query.accepts) := by
        have hall := perm_held hnodup (hids.nodup hd) hlisted
          (met? s.root state.disk domain project)
        rw [hpick] at hall
        rw [hdocs, ← List.filter_append]
        exact hall.filter _
      have hwhole : ids.filter (· ∉ ([] : List String)) = ids :=
        List.filter_eq_self.mpr fun id _ => decide_eq_true List.not_mem_nil
      rw [hwhole]
      refine ⟨hperm, fun a ha b hb => ?_⟩
      exact hplaces.ranked hscope hids query a (hperm.mem_iff.mp ha) b (hperm.mem_iff.mp hb)
  · have hskip : ∀ id ∈ copies.map (·.id),
        (met? s.root state.disk domain project id).isSome := by
      intro id hid
      obtain ⟨d, hd, rfl⟩ := List.mem_map.mp hid
      rw [hmet d hd]
      rfl
    rw [hscan _ hskip] at hfind
    refine ⟨⟨state.disk, mid.cache⟩, rfl, fun cache hcache => ?_, .inr ⟨failure, hfind,
      hscan [] fun _ hid => absurd hid List.not_mem_nil⟩⟩
    have hall := hbacked cache hcache
    rwa [hdisk] at hall

end ConfigStore.Store
