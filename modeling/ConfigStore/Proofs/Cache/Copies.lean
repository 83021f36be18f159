import ConfigStore.Cache

/-!
# The copies in a cache

What the changes of a cache do to its copies, and how the names of documents tell them apart.

* `Cache.documentKey_inj`: documents of different places have different names.
* `Cache.bodies_putOne`, `Cache.get?_evict`, `Cache.get?_backfill` say what becomes of the copies.
* `Cache.All` says of every copy that it has a property, and `Cache.All.searchIds` what a search
  finds then.
-/

namespace ConfigStore.Cache

variable {c : Cache} {d : Document} {domain project id domain' project' id' key : String}

/-! ## Names -/

/-- A text ends at the first slash. -/
theorem append_slash_inj {xs xs' rest rest' : List Char} (h : '/' ∉ xs) (h' : '/' ∉ xs')
    (heq : xs ++ '/' :: rest = xs' ++ '/' :: rest') : xs = xs' ∧ rest = rest' := by
  induction xs generalizing xs' with
  | nil =>
    cases xs' with
    | nil => exact ⟨rfl, (List.cons.inj heq).2⟩
    | cons x xs' =>
      refine absurd (List.cons.inj heq).1 fun hx => h' ?_
      rw [hx]
      exact List.mem_cons_self ..
  | cons x xs ih =>
    rw [List.mem_cons, not_or] at h
    cases xs' with
    | nil => exact absurd (List.cons.inj heq).1.symm h.1
    | cons x' xs' =>
      rw [List.mem_cons, not_or] at h'
      obtain ⟨rfl, htail⟩ := List.cons.inj heq
      obtain ⟨rfl, hrest⟩ := ih h.2 h'.2 htail
      exact ⟨rfl, hrest⟩

theorem toList_documentKey (domain project id : String) :
    (documentKey domain project id).toList
      = '/' :: (domain.toList ++ '/' :: (project.toList ++ '/' :: id.toList)) := by
  simp [documentKey, String.toList_append]

/-- Documents of different places have different names. -/
theorem documentKey_inj (hdomain : '/' ∉ domain.toList) (hproject : '/' ∉ project.toList)
    (hdomain' : '/' ∉ domain'.toList) (hproject' : '/' ∉ project'.toList)
    (h : documentKey domain project id = documentKey domain' project' id') :
    domain = domain' ∧ project = project' ∧ id = id' := by
  have hlist := congrArg String.toList h
  rw [toList_documentKey, toList_documentKey] at hlist
  obtain ⟨hd, hrest⟩ := append_slash_inj hdomain hdomain' (List.cons.inj hlist).2
  obtain ⟨hp, hi⟩ := append_slash_inj hproject hproject' hrest
  exact ⟨String.toList_injective hd, String.toList_injective hp, String.toList_injective hi⟩

/-! ## Changing -/

theorem bodies_putOne (c : Cache) (d : Document) :
    (c.putOne d).bodies = c.bodies.insert (keyOf d) d := rfl

theorem bodies_evictOne (c : Cache) (d : Document) :
    (c.evictOne d).bodies = c.bodies.erase (keyOf d) := rfl

/-- Evicting drops the copies of the documents and no others. -/
theorem get?_evict (c : Cache) (docs : List Document) (key : String) :
    (c.evict docs).bodies.get? key
      = if key ∈ docs.map keyOf then none else c.bodies.get? key := by
  induction docs generalizing c with
  | nil => rfl
  | cons d docs ih =>
    rw [evict, List.foldl_cons, ← evict, ih, bodies_evictOne, Dict.get?_erase]
    by_cases hkey : key = keyOf d <;> simp [hkey]

/-- A document that a scan brings in leaves the copy under its name, replaces it, or drops it. -/
theorem get?_backfillOne (c : Cache) (d : Document) {copy : Document}
    (h : (c.backfillOne d).2.bodies.get? key = some copy) :
    c.bodies.get? key = some copy ∨ key = keyOf d ∧ copy = d := by
  unfold backfillOne at h
  split at h
  · exact .inl h
  · split at h
    · rw [drop, Dict.get?_erase] at h
      split at h
      · cases h
      · exact .inl h
    · rw [index, store, Dict.get?_insert] at h
      split at h
      next hkey => exact .inr ⟨hkey, (Option.some.inj h).symm⟩
      · exact .inl h

theorem get?_backfill (c : Cache) (docs : List Document) {copy : Document}
    (h : (c.backfill docs).2.bodies.get? key = some copy) :
    c.bodies.get? key = some copy ∨ ∃ d ∈ docs, key = keyOf d ∧ copy = d := by
  induction docs generalizing c with
  | nil => exact .inl h
  | cons d docs ih =>
    rcases ih _ h with hold | ⟨e, he, hcopy⟩
    · exact (get?_backfillOne c d hold).imp_right fun hd => ⟨d, List.mem_cons_self .., hd⟩
    · exact .inr ⟨e, List.mem_cons_of_mem _ he, hcopy⟩

/-! ## Looking up -/

/-- Looking a document up gives its copy, if any, and leaves no copies but those there were. -/
theorem get_outcome (c : Cache) (domain project id : String) :
    (c.get domain project id = (c.bodies.get? (documentKey domain project id), c)) ∨
      c.get domain project id = (none, c.drop (documentKey domain project id)) := by
  unfold get
  split
  · exact .inr rfl
  · exact .inl rfl

/-! ## Copies of one kind -/

/-- Every copy stands under its own name and has a property. -/
def All (c : Cache) (P : Document → Prop) : Prop :=
  ∀ key d, c.bodies.get? key = some d → key = keyOf d ∧ P d

namespace All

variable {P : Document → Prop}

theorem empty (ttl : Nat) (P : Document → Prop) : All { ttl } P := fun _ _ h => by cases h

theorem drop (h : c.All P) (key : String) : (c.drop key).All P := by
  intro key' d hd
  rw [Cache.drop, Dict.get?_erase] at hd
  split at hd
  · cases hd
  · exact h key' d hd

/-- What a scan brings in has the property too. -/
theorem backfill (h : c.All P) {docs : List Document} (hdocs : ∀ d ∈ docs, P d) :
    (c.backfill docs).2.All P := by
  intro key copy hcopy
  rcases get?_backfill c docs hcopy with hold | ⟨d, hd, hkey, rfl⟩
  · exact h key copy hold
  · exact ⟨hkey, hdocs _ hd⟩

/-- The copy under the name of a document belongs to the place of the document. -/
theorem get? (h : c.All P) (hP : ∀ d, P d → '/' ∉ d.domain.toList ∧ '/' ∉ d.project.toList)
    (hdomain : '/' ∉ domain.toList) (hproject : '/' ∉ project.toList)
    (hcopy : c.bodies.get? (documentKey domain project id) = some d) :
    P d ∧ d.domain = domain ∧ d.project = project ∧ d.id = id := by
  obtain ⟨hkey, hd⟩ := h _ _ hcopy
  obtain ⟨hdomain', hproject'⟩ := hP d hd
  obtain ⟨rfl, rfl, rfl⟩ := documentKey_inj hdomain hproject hdomain' hproject' hkey
  exact ⟨hd, rfl, rfl, rfl⟩

/-- Of some ids a search finds copies that belong to their places. -/
theorem searchIds (h : c.All P)
    (hP : ∀ d, P d → '/' ∉ d.domain.toList ∧ '/' ∉ d.project.toList)
    (hdomain : '/' ∉ domain.toList) (hproject : '/' ∉ project.toList) (query : Query)
    (ids : List String) :
    ∃ (copies : List Document) (c' : Cache), (copies.map (·.id)).Sublist ids ∧
      (∀ d ∈ copies, P d ∧ d.domain = domain ∧ d.project = project) ∧ c'.All P ∧
      ∃ found, c.searchIds domain project query ids = (found, c') ∧
        found.cachedIds = copies.map (·.id) ∧ found.docs = copies.filter query.accepts := by
  induction ids generalizing c with
  | nil => exact ⟨[], c, List.Sublist.refl _, fun _ hd => absurd hd List.not_mem_nil, h, _, rfl,
      rfl, rfl⟩
  | cons id ids ih =>
    rw [Cache.searchIds]
    rcases get_outcome c domain project id with hget | hget
    · obtain ⟨copies, c', hsub, hcopies, hall, found, hfound, hids, hdocs⟩ := ih h
      cases hcopy : c.bodies.get? (documentKey domain project id) with
      | none =>
        simp only [hget, hcopy, hfound]
        exact ⟨copies, c', hsub.cons _, hcopies, hall, _, rfl, hids, hdocs⟩
      | some d =>
        obtain ⟨hd, hd₁, hd₂, rfl⟩ := h.get? hP hdomain hproject hcopy
        simp only [hget, hcopy, hfound]
        refine ⟨d :: copies, c', hsub.cons_cons _,
          List.forall_mem_cons.mpr ⟨⟨hd, hd₁, hd₂⟩, hcopies⟩, hall, _, rfl, ?_, ?_⟩
        · rw [hids, List.map_cons]
        · rw [hdocs, List.filter_cons]
    · obtain ⟨copies, c', hsub, hcopies, hall, found, hfound, hids, hdocs⟩ :=
        ih (h.drop (documentKey domain project id))
      simp only [hget, hfound]
      exact ⟨copies, c', hsub.cons _, hcopies, hall, _, rfl, hids, hdocs⟩

end All

end ConfigStore.Cache
