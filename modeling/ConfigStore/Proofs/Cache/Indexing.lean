import ConfigStore.Proofs.Cache.Copies

/-!
# Ids and copies

A cache keeps its copies and the ids of every scope apart, under names that are put together from
the names of documents. As long as no name has a slash in it, the two go together: a copy stands
under the name of its own document, and its id is among those of its scope. So a search, which goes
by the ids, finds every copy that looking it up by name would find.

* `Document.SlashFree` says that the names of a document can be told apart in the cache.
* `Cache.Indexed` is the invariant, with one lemma for each change of a cache.
* `Cache.Faithful` says what a search should find, and `Cache.Indexed.search` that it does.
-/

namespace ConfigStore

/-- No name of the place of a document has a slash in it. -/
structure Document.SlashFree (d : Document) : Prop where
  domain : '/' ∉ d.domain.toList
  project : '/' ∉ d.project.toList
  id : '/' ∉ d.id.toList

instance (d : Document) : Decidable d.SlashFree :=
  decidable_of_iff ('/' ∉ d.domain.toList ∧ '/' ∉ d.project.toList ∧ '/' ∉ d.id.toList)
    ⟨fun ⟨hdomain, hproject, hid⟩ => ⟨hdomain, hproject, hid⟩,
      fun ⟨hdomain, hproject, hid⟩ => ⟨hdomain, hproject, hid⟩⟩

namespace Cache

variable {c : Cache} {d e : Document} {domain project id key scope : String}

/-! ## Names without slashes -/

theorem toList_scopeKey (domain project : String) :
    (scopeKey domain project).toList = '/' :: (domain.toList ++ '/' :: project.toList) := by
  simp [scopeKey, String.toList_append]

/-- Under the name of a document with slash-free names no other document is looked up, whatever the
names that are asked for. -/
theorem place_of_documentKey (hd : d.SlashFree) (h : documentKey domain project id = keyOf d) :
    d.domain = domain ∧ d.project = project ∧ d.id = id := by
  have hslashes := congrArg (fun name : String => name.toList.count '/') h
  simp only [keyOf, toList_documentKey, List.count_cons, List.count_append,
    List.count_eq_zero.mpr hd.domain, List.count_eq_zero.mpr hd.project,
    List.count_eq_zero.mpr hd.id] at hslashes
  have hdomain : '/' ∉ domain.toList := List.count_eq_zero.mp (by omega)
  have hproject : '/' ∉ project.toList := List.count_eq_zero.mp (by omega)
  obtain ⟨rfl, rfl, rfl⟩ := documentKey_inj hdomain hproject hd.domain hd.project h
  exact ⟨rfl, rfl, rfl⟩

/-- The scope of a document with slash-free names is no other scope. -/
theorem scope_of_scopeKey (hd : d.SlashFree) (h : scopeKey domain project = scopeOf d) :
    d.domain = domain ∧ d.project = project := by
  have hslashes := congrArg (fun name : String => name.toList.count '/') h
  simp only [scopeOf, toList_scopeKey, List.count_cons, List.count_append,
    List.count_eq_zero.mpr hd.domain, List.count_eq_zero.mpr hd.project] at hslashes
  have hdomain : '/' ∉ domain.toList := List.count_eq_zero.mp (by omega)
  have hlist := congrArg String.toList h
  rw [scopeOf, toList_scopeKey, toList_scopeKey] at hlist
  obtain ⟨hd, hp⟩ := append_slash_inj hdomain hd.domain (List.cons.inj hlist).2
  exact ⟨(String.toList_injective hd).symm, (String.toList_injective hp).symm⟩

theorem keyOf_of_scopeOf (hscope : scopeOf e = scopeOf d) (hid : e.id = d.id) :
    keyOf e = keyOf d := by
  show scopeOf e ++ "/" ++ e.id = scopeOf d ++ "/" ++ d.id
  rw [hscope, hid]

/-! ## Ids -/

theorem idsIn_index (c : Cache) (d : Document) (scope : String) :
    (c.index d).idsIn scope
      = if scope = scopeOf d then (c.idsIn scope).insert d.id () else c.idsIn scope := by
  rw [index, idsIn, Dict.get?_insert]
  split
  next h => rw [h]; rfl
  · rfl

theorem idsIn_unindex (c : Cache) (d : Document) (scope : String) :
    (c.unindex d).idsIn scope
      = if scope = scopeOf d then (c.idsIn scope).erase d.id else c.idsIn scope := by
  rw [unindex, idsIn, Dict.get?_insert]
  split
  next h => rw [h]; rfl
  · rfl

theorem mem_ids_index : id ∈ ((c.index d).idsIn scope).keys ↔
    scope = scopeOf d ∧ id = d.id ∨ id ∈ (c.idsIn scope).keys := by
  rw [idsIn_index]
  split
  next h =>
    simp only [Dict.mem_keys_iff, Dict.get?_insert]
    split <;> simp_all
  next h => simp [h]

theorem mem_ids_unindex : id ∈ ((c.unindex d).idsIn scope).keys ↔
    ¬(scope = scopeOf d ∧ id = d.id) ∧ id ∈ (c.idsIn scope).keys := by
  rw [idsIn_unindex]
  split
  next h =>
    simp only [Dict.mem_keys_iff, Dict.get?_erase]
    split <;> simp_all
  next h => simp [h]

/-- What a search leaves, whether or not it finds the first of the ids. -/
theorem searchIds_cons (c : Cache) (domain project : String) (query : Query) (id : String)
    (ids : List String) : (c.searchIds domain project query (id :: ids)).2
      = ((c.get domain project id).2.searchIds domain project query ids).2 := by
  rw [Cache.searchIds]
  dsimp only
  split <;> rfl

/-! ## The invariant -/

/-- Every copy stands under its own name, which can be told from all others, and its id is among
those of its scope. -/
structure Indexed (c : Cache) : Prop where
  named : c.All Document.SlashFree
  known : ∀ key d, c.bodies.get? key = some d → d.id ∈ (c.idsIn (scopeOf d)).keys

namespace Indexed

theorem empty (ttl : Nat) : Indexed { ttl } := ⟨All.empty ttl _, fun _ _ h => by cases h⟩

/-- Copies may be dropped. -/
theorem drop (h : c.Indexed) (key : String) : (c.drop key).Indexed := by
  refine ⟨h.named.drop key, fun key' d hd => ?_⟩
  rw [Cache.drop, Dict.get?_erase] at hd
  split at hd
  · cases hd
  · exact h.known key' d hd

/-- A copy is stored together with its id. -/
theorem store_index (h : c.Indexed) (hd : d.SlashFree) : ((c.store d).index d).Indexed := by
  have hcases : ∀ key e, ((c.store d).index d).bodies.get? key = some e →
      key = keyOf d ∧ e = d ∨ c.bodies.get? key = some e := by
    intro key e he
    rw [index, store, Dict.get?_insert] at he
    split at he
    next hkey => exact .inl ⟨hkey, (Option.some.inj he).symm⟩
    · exact .inr he
  refine ⟨fun key e he => ?_, fun key e he => mem_ids_index.mpr ?_⟩
  · rcases hcases key e he with ⟨rfl, rfl⟩ | hold
    · exact ⟨rfl, hd⟩
    · exact h.named key e hold
  · rcases hcases key e he with ⟨-, rfl⟩ | hold
    · exact .inl ⟨rfl, rfl⟩
    · exact .inr (h.known key e hold)

theorem putOne (h : c.Indexed) (hd : d.SlashFree) : (c.putOne d).Indexed :=
  Indexed.store_index (c := { c with evicted := c.evicted.erase (keyOf d) })
    ⟨h.named, h.known⟩ hd

theorem backfillOne (h : c.Indexed) (hd : d.SlashFree) : (c.backfillOne d).2.Indexed := by
  unfold Cache.backfillOne
  split
  · exact h
  · split
    · exact h.drop _
    · exact h.store_index hd

/-- An evicted document loses its copy, so that its id may go as well. -/
theorem evictOne (h : c.Indexed) (d : Document) : (c.evictOne d).Indexed := by
  have hold : ∀ key e, (c.evictOne d).bodies.get? key = some e →
      key ≠ keyOf d ∧ c.bodies.get? key = some e := by
    intro key e he
    rw [bodies_evictOne, Dict.get?_erase] at he
    split at he
    · cases he
    next hkey => exact ⟨hkey, he⟩
  refine ⟨fun key e he => h.named key e (hold key e he).2, fun key e he => ?_⟩
  obtain ⟨hkey, he⟩ := hold key e he
  refine mem_ids_unindex.mpr ⟨fun hsame => hkey ?_, h.known key e he⟩
  rw [(h.named key e he).1, keyOf_of_scopeOf hsame.1 hsame.2]

theorem sweep (h : c.Indexed) : c.sweep.2.Indexed := by
  unfold Cache.sweep
  split
  · exact ⟨fun _ _ hd => (by cases hd), fun _ _ hd => (by cases hd)⟩
  · exact h

theorem get (h : c.Indexed) (domain project id : String) : (c.get domain project id).2.Indexed := by
  rcases get_outcome c domain project id with hget | hget
  · rwa [hget]
  · rw [hget]
    exact h.drop _

theorem searchIds (h : c.Indexed) (domain project : String) (query : Query) (ids : List String) :
    (c.searchIds domain project query ids).2.Indexed := by
  induction ids generalizing c with
  | nil => exact h
  | cons id ids ih =>
    rw [searchIds_cons]
    exact ih (h.get domain project id)

/-- What keeps the invariant for one document keeps it for many. -/
theorem foldl {change : Cache → Document → Cache} {docs : List Document} (h : c.Indexed)
    (hchange : ∀ c d, Indexed c → d.SlashFree → (change c d).Indexed)
    (hdocs : ∀ d ∈ docs, d.SlashFree) : (docs.foldl change c).Indexed := by
  induction docs generalizing c with
  | nil => exact h
  | cons d docs ih =>
    obtain ⟨hd, hdocs⟩ := List.forall_mem_cons.mp hdocs
    exact ih (hchange c d h hd) hdocs

end Indexed

/-! ## Searching -/

/-- Looking one document up does not change what is found of others. -/
theorem get_after_get (c : Cache) (domain project id domain' project' id' : String) :
    ((c.get domain' project' id').2.get domain project id).1 = (c.get domain project id).1 := by
  cases hexpired : c.expiresAtOnce with
  | true =>
    have hdropped : (c.drop (documentKey domain' project' id')).expiresAtOnce = true := hexpired
    simp [Cache.get, hexpired, hdropped]
  | false => simp [Cache.get, hexpired]

/-- A search looks up every id, and sorts the ids by whether there is a copy. -/
theorem searchIds_eq (c : Cache) (domain project : String) (query : Query) (ids : List String) :
    (c.searchIds domain project query ids).1 =
      { docs := (ids.filterMap fun id => (c.get domain project id).1).filter query.accepts
        usedCache := true
        cachedIds := ids.filter fun id => (c.get domain project id).1.isSome
        missingIds := ids.filter fun id => (c.get domain project id).1.isNone } := by
  induction ids generalizing c with
  | nil => rfl
  | cons id ids ih =>
    rw [Cache.searchIds]
    have hrest := ih (c.get domain project id).2
    simp only [get_after_get] at hrest
    cases hcopy : (c.get domain project id).1 with
    | none => simp [hrest, hcopy]
    | some d =>
      simp only [hrest, List.filterMap_cons, hcopy, List.filter_cons, Option.isSome_some,
        Option.isNone_some, if_true]
      split <;> simp

/-- What a search should find: the copies in its scope that the query asks for, in the order of
their ids, and with them the ids of all copies there are. -/
structure Faithful (c : Cache) (domain project : String) (query : Query) (found : CacheSearch) :
    Prop where
  usedCache : found.usedCache = true
  docs : ∀ d, d ∈ found.docs ↔
    (∃ id, (c.get domain project id).1 = some d) ∧ query.accepts d = true
  ordered : found.docs.Pairwise (·.id < ·.id)
  cached : ∀ id, id ∈ found.cachedIds ↔ ∃ d, (c.get domain project id).1 = some d
  cachedAscending : found.cachedIds.Pairwise (· < ·)
  missingAscending : found.missingIds.Pairwise (· < ·)
  disjoint : ∀ id ∈ found.cachedIds, id ∉ found.missingIds

namespace Indexed

/-- What is looked up is a copy, and it has the place that was asked for. -/
theorem of_get (h : c.Indexed) (hget : (c.get domain project id).1 = some d) :
    (d.domain = domain ∧ d.project = project ∧ d.id = id) ∧
      id ∈ (c.idsIn (scopeKey domain project)).keys := by
  have hcopy : c.bodies.get? (documentKey domain project id) = some d := by
    rcases get_outcome c domain project id with heq | heq
    · rwa [heq] at hget
    · rw [heq] at hget
      cases hget
  obtain ⟨hkey, hd⟩ := h.named _ _ hcopy
  have hknown := h.known _ _ hcopy
  obtain ⟨rfl, rfl, rfl⟩ := place_of_documentKey hd hkey
  exact ⟨⟨rfl, rfl, rfl⟩, hknown⟩

/-- A search finds what looking up every id would find. -/
theorem search (h : c.Indexed) (domain project : String) (query : Query) :
    c.Faithful domain project query (c.search domain project query).1 := by
  have hids : ∀ id, id ∈ (c.idsIn (scopeKey domain project)).keys ∧
      (∃ d, (c.get domain project id).1 = some d) ↔ ∃ d, (c.get domain project id).1 = some d :=
    fun id => and_iff_right_of_imp fun ⟨_, hget⟩ => (h.of_get hget).2
  have hascending := Dict.ascending_keys (c.idsIn (scopeKey domain project))
  rw [Cache.search, searchIds_eq]
  refine ⟨rfl, fun d => ?_, ?_, fun id => ?_, hascending.sublist List.filter_sublist,
    hascending.sublist List.filter_sublist, fun id hid hmissing => ?_⟩
  · simp only [List.mem_filter, List.mem_filterMap]
    refine and_congr_left' (exists_congr fun id => and_iff_right_of_imp ?_)
    exact fun hget => (h.of_get hget).2
  · -- the copies come in the order of the ids that were looked up, which are their own
    refine List.Pairwise.sublist List.filter_sublist (List.pairwise_filterMap.mpr ?_)
    refine hascending.imp fun hlt d hd e he => ?_
    rwa [(h.of_get hd).1.2.2, (h.of_get he).1.2.2]
  · rw [List.mem_filter, Option.isSome_iff_exists]
    exact hids id
  · have hsome := (List.mem_filter.mp hid).2
    have hnone := (List.mem_filter.mp hmissing).2
    simp only [Option.isNone_iff_eq_none] at hnone
    simp [hnone] at hsome

end Indexed

end Cache

end ConfigStore
