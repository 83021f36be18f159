import ConfigStore.Proofs.Library.Copying

/-!
# A cache that late copies do not disturb

A scan may bring a document into the cache long after it was read, when it has been changed or
deleted since. As long as every write of a document has a later revision than all writes before it,
this does not matter: of a stored document the cache has the newest copy, which is newer than the
late one, and of a deleted document it has a marker that is not older.

* `Library.Chronicled` says that the newest copies of a library are the latest of all that was ever
  written.
* `Cache.Settled` is the invariant of the cache, with one lemma for each change of a cache.
* `Cache.Settled.backfill` is the point: whatever was written at any time may come in late.
-/

namespace ConfigStore

open Library

variable {lib : Library} {c : Cache} {docs : List Document} {d e : Document}
  {domain project id : String}

/-! ## What was ever written -/

/-- A document belongs to the place of another. -/
def Document.Beside (e d : Document) : Prop :=
  e.domain = d.domain ∧ e.project = d.project ∧ e.id = d.id

namespace Library

/-- The documents are all that was ever written: every newest copy is among them, and all others of
its place are older. -/
structure Chronicled (lib : Library) (docs : List Document) : Prop where
  storable : ∀ e ∈ docs, Storable e.domain e.project e.id
  heads : ∀ d, lib.head? d.domain d.project d.id = some d → d ∈ docs
  latest : ∀ d e, lib.head? d.domain d.project d.id = some d → e ∈ docs → e.Beside d →
    e = d ∨ e.updateRevision < d.updateRevision

namespace Chronicled

theorem empty : Chronicled .empty [] where
  storable := fun _ h => absurd h List.not_mem_nil
  heads := fun _ h => by cases h
  latest := fun _ _ h => by cases h

/-- Only the newest copies count. -/
theorem of_head? {lib' : Library} (h : lib.Chronicled docs)
    (hsub : ∀ d, lib'.head? d.domain d.project d.id = some d →
      lib.head? d.domain d.project d.id = some d) : lib'.Chronicled docs where
  storable := h.storable
  heads := fun d hd => h.heads d (hsub d hd)
  latest := fun d e hd => h.latest d e (hsub d hd)

/-- A document is written with a later revision than all of its place before. -/
theorem write (h : lib.Chronicled docs) (hstore : Storable d.domain d.project d.id)
    (hrising : ∀ e ∈ docs, e.Beside d → e.updateRevision < d.updateRevision) (max : Nat) :
    (lib.write max d).Chronicled (docs ++ [d]) where
  storable := by
    intro e he
    rcases List.mem_append.mp he with he | he
    · exact h.storable e he
    · rwa [List.mem_singleton.mp he]
  heads := by
    intro e he
    by_cases hplace : (e.domain, e.project, e.id) = (d.domain, d.project, d.id)
    · simp only [Prod.mk.injEq] at hplace
      rw [hplace.1, hplace.2.1, hplace.2.2, head?_write] at he
      simp [Option.some.inj he]
    · rw [head?_write_of_ne lib max hplace] at he
      exact List.mem_append_left _ (h.heads e he)
  latest := by
    intro a e ha he hbeside
    by_cases hplace : (a.domain, a.project, a.id) = (d.domain, d.project, d.id)
    · simp only [Prod.mk.injEq] at hplace
      rw [hplace.1, hplace.2.1, hplace.2.2, head?_write] at ha
      obtain rfl := Option.some.inj ha
      rcases List.mem_append.mp he with he | he
      · exact .inr (hrising e he hbeside)
      · exact .inl (List.mem_singleton.mp he)
    · rw [head?_write_of_ne lib max hplace] at ha
      rcases List.mem_append.mp he with he | he
      · exact h.latest a e ha he hbeside
      · obtain rfl := List.mem_singleton.mp he
        obtain ⟨hdomain, hproject, hid⟩ := hbeside
        exact absurd (by rw [hdomain, hproject, hid]) hplace

end Chronicled

/-- Deleting takes newest copies away and brings none. -/
theorem head?_of_clear {ids : List String} {domain' project' id' : String}
    (h : (lib.clear domain project ids).head? domain' project' id' = some d) :
    ¬(domain' = domain ∧ project' = project ∧ id' ∈ ids) ∧
      lib.head? domain' project' id' = some d := by
  by_cases hgone : domain' = domain ∧ project' = project ∧ id' ∈ ids
  · obtain ⟨rfl, rfl, hid⟩ := hgone
    rw [head?_clear_of_mem lib hid] at h
    cases h
  · rw [head?_clear_of_not hgone] at h
    exact ⟨hgone, h⟩

end Library

/-! ## The cache -/

namespace Cache

/-- Documents of different places have different names in the cache. -/
theorem keyOf_inj (hd : Storable d.domain d.project d.id)
    (he : Storable e.domain e.project e.id) (h : keyOf e = keyOf d) : e.Beside d := by
  obtain ⟨hdomain, -, hproject⟩ := Names.checkScope_eq_ok_iff.mp hd.scope
  obtain ⟨hdomain', -, hproject'⟩ := Names.checkScope_eq_ok_iff.mp he.scope
  exact documentKey_inj (Names.isPiece_of_isPlain hdomain').noSlash
    (Names.isPiece_of_isPlain hproject').noSlash (Names.isPiece_of_isPlain hdomain).noSlash
    (Names.isPiece_of_isPlain hproject).noSlash h

theorem keyOf_eq (h : e.Beside d) : keyOf e = keyOf d := by
  rw [keyOf, keyOf, h.1, h.2.1, h.2.2]

/-- The copies do not expire, and the cache has all newest copies. It has no marker for what is
stored, and for what is stored no more a marker that is not older than anything that was written. -/
structure Settled (c : Cache) (lib : Library) (docs : List Document) : Prop where
  lasting : c.expiresAtOnce = false
  agrees : c.Agrees lib
  copied : ∀ d, lib.head? d.domain d.project d.id = some d → c.bodies.get? (keyOf d) = some d
  unmarked : ∀ d, lib.head? d.domain d.project d.id = some d → c.evicted.get? (keyOf d) = none
  marked : ∀ e ∈ docs, lib.head? e.domain e.project e.id = none →
    ∃ revision, c.evicted.get? (keyOf e) = some revision ∧ e.updateRevision ≤ revision

namespace Settled

theorem empty {ttl : Nat} (hlasting : Cache.expiresAtOnce { ttl } = false) :
    Settled { ttl } .empty [] where
  lasting := hlasting
  agrees := agrees_empty ttl .empty
  copied := fun _ h => by cases h
  unmarked := fun _ h => by cases h
  marked := fun _ h => absurd h List.not_mem_nil

/-- Only what is looked up in the cache counts. -/
theorem congr {c' : Cache} (h : c.Settled lib docs) (httl : c'.ttl = c.ttl)
    (hbodies : ∀ key, c'.bodies.get? key = c.bodies.get? key)
    (hevicted : c'.evicted = c.evicted) : c'.Settled lib docs where
  lasting := by rw [expiresAtOnce, httl]; exact h.lasting
  agrees := fun key d hd => h.agrees key d (by rwa [← hbodies])
  copied := fun d hd => by rw [hbodies, h.copied d hd]
  unmarked := fun d hd => by rw [hevicted, h.unmarked d hd]
  marked := fun e he hnone => by rw [hevicted]; exact h.marked e he hnone

/-- Only the newest copies in the library count. -/
theorem of_head?_eq {lib' : Library} (h : c.Settled lib docs)
    (heq : ∀ domain project id, lib'.head? domain project id = lib.head? domain project id) :
    c.Settled lib' docs where
  lasting := h.lasting
  agrees := h.agrees.of_head?_eq heq
  copied := fun d hd => h.copied d (by rwa [← heq])
  unmarked := fun d hd => h.unmarked d (by rwa [← heq])
  marked := fun e he hnone => h.marked e he (by rwa [← heq])

/-! ### Late copies -/

/-- Of a document that is not stored there is no copy. -/
theorem get?_eq_none (h : c.Settled lib docs) (hvalid : lib.Valid)
    (he : Storable e.domain e.project e.id) (hnone : lib.head? e.domain e.project e.id = none) :
    c.bodies.get? (keyOf e) = none := by
  cases hcopy : c.bodies.get? (keyOf e) with
  | none => rfl
  | some d =>
    obtain ⟨hkey, hhead⟩ := h.agrees _ _ hcopy
    obtain ⟨hdomain, hproject, hid⟩ := keyOf_inj (hvalid.storable_head hhead) he hkey
    rw [hdomain, hproject, hid, hhead] at hnone
    cases hnone

/-- Whatever was written at any time may come in late. -/
theorem backfillOne (h : c.Settled lib docs) (hvalid : lib.Valid) (hdocs : lib.Chronicled docs)
    (he : e ∈ docs) : (c.backfillOne e).2.Settled lib docs := by
  cases hhead : lib.head? e.domain e.project e.id with
  | none =>
    -- the document was deleted: its marker stops the copy, and there is none to be dropped
    have hcopy := h.get?_eq_none hvalid (hdocs.storable e he) hhead
    obtain ⟨revision, hmarker, hle⟩ := h.marked e he hhead
    have hdropped : (c.backfillOne e).2 = c.drop (keyOf e) := by
      simp [Cache.backfillOne, hasNewer, isMarked, hcopy, hmarker, hle]
    rw [hdropped]
    refine h.congr rfl (fun key => ?_) rfl
    rw [drop, Dict.get?_erase]
    split
    next hkey => rw [hkey, hcopy]
    · rfl
  | some d =>
    obtain ⟨hdomain, hproject, hid⟩ := hvalid.place hhead
    have hhead' : lib.head? d.domain d.project d.id = some d := by
      rw [hdomain, hproject, hid, hhead]
    have hbeside : e.Beside d := ⟨hdomain.symm, hproject.symm, hid.symm⟩
    have hcopy : c.bodies.get? (keyOf e) = some d := by
      rw [keyOf_eq hbeside]
      exact h.copied d hhead'
    rcases hdocs.latest d e hhead' he hbeside with rfl | hlt
    · -- the copy is the one that the cache has
      have hmarker := h.unmarked e hhead'
      have hstored : (c.backfillOne e).2 = (c.store e).index e := by
        simp [Cache.backfillOne, hasNewer, isMarked, hcopy, hmarker, Int64.lt_irrefl]
      rw [hstored]
      refine h.congr rfl (fun key => ?_) rfl
      rw [index, store, Dict.get?_insert]
      split
      next hkey => rw [hkey, hcopy]
      · rfl
    · have hkept : (c.backfillOne e).2 = c := by
        simp [Cache.backfillOne, hasNewer, hcopy, hlt]
      rwa [hkept]

theorem backfill (h : c.Settled lib docs) (hvalid : lib.Valid) (hdocs : lib.Chronicled docs)
    {late : List Document} (hlate : ∀ e ∈ late, e ∈ docs) :
    (c.backfill late).2.Settled lib docs := by
  induction late generalizing c with
  | nil => exact h
  | cons e late ih =>
    obtain ⟨he, hlate⟩ := List.forall_mem_cons.mp hlate
    exact ih (h.backfillOne hvalid hdocs he) hlate

/-- Nothing is swept out of a cache whose copies do not expire. -/
theorem sweep (h : c.Settled lib docs) : c.sweep.2 = c := by
  simp [Cache.sweep, h.lasting]

/-! ### Writes and deletions -/

theorem put (h : c.Settled lib docs) (hvalid : lib.Valid) (hdocs : lib.Chronicled docs)
    (hstore : Storable d.domain d.project d.id) (max : Nat) :
    (c.put [d]).Settled (lib.write max d) (docs ++ [d]) where
  lasting := h.lasting
  agrees := h.agrees.putOne (head?_write ..) fun _ _ _ => head?_write_of_ne _ _
  copied := by
    intro e he
    show (c.putOne d).bodies.get? (keyOf e) = some e
    rw [bodies_putOne, Dict.get?_insert]
    by_cases hplace : (e.domain, e.project, e.id) = (d.domain, d.project, d.id)
    · simp only [Prod.mk.injEq] at hplace
      rw [if_pos (keyOf_eq hplace), ← he, hplace.1, hplace.2.1, hplace.2.2, head?_write]
    · rw [head?_write_of_ne lib max hplace] at he
      rw [if_neg, h.copied e he]
      intro hkey
      obtain ⟨hdomain, hproject, hid⟩ := keyOf_inj hstore (hvalid.storable_head he) hkey
      exact hplace (by rw [hdomain, hproject, hid])
  unmarked := by
    intro e he
    show (c.evicted.erase (keyOf d)).get? (keyOf e) = none
    rw [Dict.get?_erase]
    by_cases hplace : (e.domain, e.project, e.id) = (d.domain, d.project, d.id)
    · simp only [Prod.mk.injEq] at hplace
      rw [if_pos (keyOf_eq hplace)]
    · rw [head?_write_of_ne lib max hplace] at he
      split
      · rfl
      · exact h.unmarked e he
  marked := by
    intro e he hnone
    have hplace : (e.domain, e.project, e.id) ≠ (d.domain, d.project, d.id) := by
      intro hplace
      simp only [Prod.mk.injEq] at hplace
      rw [hplace.1, hplace.2.1, hplace.2.2, head?_write] at hnone
      cases hnone
    have he : e ∈ docs := by
      rcases List.mem_append.mp he with he | he
      · exact he
      · exact absurd (by rw [List.mem_singleton.mp he]) hplace
    rw [head?_write_of_ne lib max hplace] at hnone
    show ∃ revision, (c.evicted.erase (keyOf d)).get? (keyOf e) = some revision ∧ _
    rw [Dict.get?_erase, if_neg]
    · exact h.marked e he hnone
    · intro hkey
      obtain ⟨hdomain, hproject, hid⟩ := keyOf_inj hstore (hdocs.storable e he) hkey
      exact hplace (by rw [hdomain, hproject, hid])

end Settled

theorem ttl_evict (c : Cache) (gone : List Document) : (c.evict gone).ttl = c.ttl := by
  induction gone generalizing c with
  | nil => rfl
  | cons d gone ih =>
    rw [evict, List.foldl_cons, ← evict, ih]
    rfl

/-- Evicting documents marks them with their revisions, and nothing else. -/
theorem evicted_evict (c : Cache) {gone : List Document} {key : String}
    (hsame : ∀ d ∈ gone, ∀ e ∈ gone, keyOf d = keyOf e → d = e) :
    (∀ d ∈ gone, key = keyOf d →
        (c.evict gone).evicted.get? key = some d.updateRevision) ∧
      (key ∉ gone.map keyOf → (c.evict gone).evicted.get? key = c.evicted.get? key) := by
  induction gone generalizing c with
  | nil => exact ⟨fun _ h => absurd h List.not_mem_nil, fun _ => rfl⟩
  | cons first gone ih =>
    have hstep : ∀ key, (c.evictOne first).evicted.get? key =
        if key = keyOf first then some first.updateRevision else c.evicted.get? key :=
      fun key => Dict.get?_insert ..
    obtain ⟨hmem, hnot⟩ := ih (c.evictOne first) fun d hd e he =>
      hsame d (List.mem_cons_of_mem _ hd) e (List.mem_cons_of_mem _ he)
    rw [evict, List.foldl_cons, ← evict]
    refine ⟨fun d hd hkey => ?_, fun habsent => ?_⟩
    · by_cases hlater : key ∈ gone.map keyOf
      · obtain ⟨e, he, hkey'⟩ := List.mem_map.mp hlater
        obtain rfl := hsame d hd e (List.mem_cons_of_mem _ he) (hkey.symm.trans hkey'.symm)
        exact hmem d he hkey
      · have hfirst : d = first := by
          rcases List.mem_cons.mp hd with rfl | hd
          · rfl
          · exact absurd (List.mem_map.mpr ⟨d, hd, hkey.symm⟩) hlater
        rw [hnot hlater, hstep, hkey, hfirst, if_pos rfl]
    · rw [List.map_cons, List.mem_cons, not_or] at habsent
      rw [hnot habsent.2, hstep, if_neg habsent.1]

/-- Deleted documents leave markers that are not older than anything that was written. -/
theorem Settled.evict (h : c.Settled lib docs) (hvalid : lib.Valid) (hdocs : lib.Chronicled docs)
    {ids : List String} {gone : List Document}
    (hgone : ∀ d, d ∈ gone ↔ ∃ id ∈ ids, lib.head? domain project id = some d) :
    (c.evict gone).Settled (lib.clear domain project ids) docs := by
  have hhead : ∀ d ∈ gone, d.domain = domain ∧ d.project = project ∧ d.id ∈ ids ∧
      lib.head? d.domain d.project d.id = some d := by
    intro d hd
    obtain ⟨id, hid, hhead⟩ := (hgone d).mp hd
    obtain ⟨rfl, rfl, rfl⟩ := hvalid.place hhead
    exact ⟨rfl, rfl, hid, hhead⟩
  have hstorable : ∀ d ∈ gone, Storable d.domain d.project d.id := fun d hd =>
    hvalid.storable_head (hhead d hd).2.2.2
  have hsame : ∀ d ∈ gone, ∀ e ∈ gone, keyOf d = keyOf e → d = e := by
    intro d hd e he hkey
    obtain ⟨hdomain, hproject, hid⟩ := keyOf_inj (hstorable e he) (hstorable d hd) hkey
    have hd' := (hhead d hd).2.2.2
    rw [hdomain, hproject, hid, (hhead e he).2.2.2] at hd'
    exact (Option.some.inj hd').symm
  -- what is not deleted has another name than all that is
  have hother : ∀ e, Storable e.domain e.project e.id →
      ¬(e.domain = domain ∧ e.project = project ∧ e.id ∈ ids) → keyOf e ∉ gone.map keyOf := by
    intro e he hnot hmem
    obtain ⟨d, hd, hkey⟩ := List.mem_map.mp hmem
    obtain ⟨hdomain, hproject, hid⟩ := keyOf_inj he (hstorable d hd) hkey
    obtain ⟨hdomain', hproject', hid', -⟩ := hhead d hd
    exact hnot ⟨hdomain ▸ hdomain', hproject ▸ hproject', hid ▸ hid'⟩
  refine ⟨?_, ?_, fun e he => ?_, fun e he => ?_, fun e he hnone => ?_⟩
  · rw [expiresAtOnce, ttl_evict]
    exact h.lasting
  · refine h.agrees.evict fun e he hnot => ?_
    rw [head?_clear_of_not, he]
    rintro ⟨hdomain, hproject, hid⟩
    exact hnot ((hgone e).mpr ⟨e.id, hid, by rw [← hdomain, ← hproject, he]⟩)
  · obtain ⟨hnot, he⟩ := head?_of_clear he
    rw [get?_evict, if_neg (hother e (hvalid.storable_head he) hnot), h.copied e he]
  · obtain ⟨hnot, he⟩ := head?_of_clear he
    rw [(evicted_evict c hsame).2 (hother e (hvalid.storable_head he) hnot), h.unmarked e he]
  · cases hold : lib.head? e.domain e.project e.id with
    | none =>
      rw [(evicted_evict c hsame).2]
      · exact h.marked e he hold
      · intro hmem
        obtain ⟨d, hd, hkey⟩ := List.mem_map.mp hmem
        obtain ⟨hdomain, hproject, hid⟩ := keyOf_inj (hdocs.storable e he) (hstorable d hd) hkey
        have hd' := (hhead d hd).2.2.2
        rw [hdomain, hproject, hid, hold] at hd'
        cases hd'
    | some d =>
      have hplace : e.domain = domain ∧ e.project = project ∧ e.id ∈ ids := by
        by_contra hnot
        rw [head?_clear_of_not hnot, hold] at hnone
        cases hnone
      obtain ⟨hdomain, hproject, hid⟩ := hvalid.place hold
      have hd : d ∈ gone := (hgone d).mpr ⟨e.id, hplace.2.2, by rw [← hplace.1, ← hplace.2.1, hold]⟩
      have hbeside : e.Beside d := ⟨hdomain.symm, hproject.symm, hid.symm⟩
      refine ⟨d.updateRevision, (evicted_evict c hsame).1 d hd (keyOf_eq hbeside), ?_⟩
      rcases hdocs.latest d e (hhead d hd).2.2.2 he hbeside with rfl | hlt
      · exact Int64.le_refl _
      · exact Int64.le_of_lt hlt

end Cache

end ConfigStore
