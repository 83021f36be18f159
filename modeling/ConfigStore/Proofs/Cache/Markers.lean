import ConfigStore.Proofs.Cache.Calls

/-!
# The markers of deleted documents

A document that is evicted leaves a marker of its revision. A scan that read the document before it
was deleted may bring it back late; the marker stops every copy that is not of a later revision. It
stays until the document is put again, or is evicted once more: the last marker is the one that
counts, also if it is of an earlier revision than the one before.

* `Call.written` and `Call.deleted` are what puts a marker away and what puts another one in its
  place. `Cache.call_keeps` goes from the changes of a cache to calls.
* `Cache.Guarded` says that copies are of later revisions than the markers beside them, and
  `Cache.Marked` that there is a marker of some revision or a later one. Both have a lemma for each
  change of a cache.
* `Cache.run_marked` is the result. `Cache.run_marked_anew` evicts a document twice, the second time
  at an earlier revision, and so lets a copy in that the first marker would have stopped.
-/

namespace ConfigStore.Cache

variable {c : Cache} {d : Document} {key : String} {revision : Int64} {docs : List Document}

/-! ## What changes markers -/

theorem evicted_putOne (c : Cache) (d : Document) :
    (c.putOne d).evicted = c.evicted.erase (keyOf d) := rfl

theorem evicted_evictOne (c : Cache) (d : Document) :
    (c.evictOne d).evicted = c.evicted.insert (keyOf d) d.updateRevision := rfl

/-- What a scan brings in leaves the markers alone. -/
theorem evicted_backfillOne (c : Cache) (d : Document) :
    (c.backfillOne d).2.evicted = c.evicted ∧ (c.backfillOne d).2.ttl = c.ttl := by
  unfold backfillOne
  split
  · exact ⟨rfl, rfl⟩
  · split <;> exact ⟨rfl, rfl⟩

/-! ## What calls keep -/

/-- The documents that a call stores as just written. -/
def Call.written : Call → List Document
  | .put docs => docs
  | _ => []

/-- The documents that a call drops as deleted. -/
def Call.deleted : Call → List Document
  | .evict docs => docs
  | _ => []

section

variable {P : Cache → Prop}

/-- What stays when copies are dropped stays when documents are looked up. -/
theorem get_keeps (hdrop : ∀ c key, P c → P (c.drop key)) (h : P c) (domain project id : String) :
    P (c.get domain project id).2 := by
  rcases get_outcome c domain project id with hget | hget
  · rwa [hget]
  · rw [hget]
    exact hdrop c _ h

theorem searchIds_keeps (hdrop : ∀ c key, P c → P (c.drop key)) (h : P c)
    (domain project : String) (query : Query) (ids : List String) :
    P (c.searchIds domain project query ids).2 := by
  induction ids generalizing c with
  | nil => exact h
  | cons id ids ih =>
    rw [searchIds_cons]
    exact ih (get_keeps hdrop h domain project id)

/-- A call keeps what each change keeps that it is made of. -/
theorem call_keeps {call : Call} (hput : ∀ c, ∀ d ∈ call.written, P c → P (c.putOne d))
    (hbackfill : ∀ c d, P c → P (c.backfillOne d).2)
    (hevict : ∀ c, ∀ d ∈ call.deleted, P c → P (c.evictOne d))
    (hdrop : ∀ c key, P c → P (c.drop key)) (hsweep : ∀ c, P c → P c.sweep.2) (h : P c) :
    P (c.call call).2 := by
  cases call with
  | put docs => exact List.foldlRecOn docs putOne h fun c hc d hd => hput c d hd hc
  | backfill docs =>
    show P (c.backfill docs).2
    rw [backfill_eq_foldl]
    exact List.foldlRecOn docs _ h fun c hc d _ => hbackfill c d hc
  | evict docs => exact List.foldlRecOn docs evictOne h fun c hc d hd => hevict c d hd hc
  | get domain project id => exact get_keeps hdrop h domain project id
  | search domain project query => exact searchIds_keeps hdrop h domain project query _
  | sweep => exact hsweep c h

end

/-! ## Copies beside markers -/

/-- Every copy is of a later revision than the marker under its name. -/
def Guarded (c : Cache) : Prop :=
  ∀ key copy revision, c.bodies.get? key = some copy → c.evicted.get? key = some revision →
    revision < copy.updateRevision

namespace Guarded

theorem empty (ttl : Nat) : Guarded { ttl } := fun _ _ _ hcopy => by cases hcopy

/-- Copies may be dropped. -/
theorem drop (h : c.Guarded) (key : String) : (c.drop key).Guarded := by
  intro key' copy revision hcopy hmarker
  rw [Cache.drop, Dict.get?_erase] at hcopy
  split at hcopy
  · cases hcopy
  · exact h key' copy revision hcopy hmarker

/-- The copy of a document that was written stands beside no marker. -/
theorem putOne (h : c.Guarded) (d : Document) : (c.putOne d).Guarded := by
  intro key copy revision hcopy hmarker
  rw [evicted_putOne, Dict.get?_erase] at hmarker
  split at hmarker
  · cases hmarker
  next hkey =>
    rw [bodies_putOne, Dict.get?_insert, if_neg hkey] at hcopy
    exact h key copy revision hcopy hmarker

/-- A copy is let in only if it is of a later revision than the marker. -/
theorem backfillOne (h : c.Guarded) (d : Document) : (c.backfillOne d).2.Guarded := by
  unfold Cache.backfillOne
  split
  · exact h
  · split
    · exact h.drop _
    next hmarked =>
      intro key copy revision hcopy hmarker
      have hbodies : ((c.store d).index d).bodies = c.bodies.insert (keyOf d) d := rfl
      have hevicted : ((c.store d).index d).evicted = c.evicted := rfl
      rw [hbodies, Dict.get?_insert] at hcopy
      rw [hevicted] at hmarker
      split at hcopy
      next hkey =>
        cases hcopy
        rw [isMarked, ← hkey, hmarker, decide_eq_true_eq] at hmarked
        exact Int64.not_le.mp hmarked
      · exact h key copy revision hcopy hmarker

/-- A new marker stands beside no copy. -/
theorem evictOne (h : c.Guarded) (d : Document) : (c.evictOne d).Guarded := by
  intro key copy revision hcopy hmarker
  rw [bodies_evictOne, Dict.get?_erase] at hcopy
  split at hcopy
  · cases hcopy
  next hkey =>
    rw [evicted_evictOne, Dict.get?_insert, if_neg hkey] at hmarker
    exact h key copy revision hcopy hmarker

theorem sweep (h : c.Guarded) : c.sweep.2.Guarded := by
  unfold Cache.sweep
  split
  · intro key copy revision hcopy
    cases hcopy
  · exact h

theorem call (h : c.Guarded) (call : Call) : (c.call call).2.Guarded :=
  call_keeps (fun _ d _ hc => hc.putOne d) (fun _ d hc => hc.backfillOne d)
    (fun _ d _ hc => hc.evictOne d) (fun _ key hc => hc.drop key) (fun _ hc => hc.sweep) h

theorem run (h : c.Guarded) (calls : List Call) : (c.run calls).2.Guarded := by
  induction calls generalizing c with
  | nil => exact h
  | cons call calls ih => exact ih (h.call call)

end Guarded

/-! ## Markers that stay -/

/-- There is a marker of a revision or a later one; or copies expire at once, so that none is ever
found. -/
def Marked (c : Cache) (key : String) (revision : Int64) : Prop :=
  c.expiresAtOnce = true ∨ ∃ later, c.evicted.get? key = some later ∧ revision ≤ later

namespace Marked

theorem congr {c' : Cache} (h : c.Marked key revision) (hevicted : c'.evicted = c.evicted)
    (httl : c'.ttl = c.ttl) : c'.Marked key revision := by
  rw [Marked, expiresAtOnce, httl, hevicted]
  exact h

/-- A document that is written lifts only the marker under its own name. -/
theorem putOne (h : c.Marked key revision) (hd : keyOf d ≠ key) :
    (c.putOne d).Marked key revision := by
  refine h.imp id fun ⟨later, hmarker, hle⟩ => ⟨later, ?_, hle⟩
  rwa [evicted_putOne, Dict.get?_erase, if_neg hd.symm]

/-- A document that is evicted leaves a marker of its own revision. -/
theorem evictOne (h : c.Marked key revision) (hd : keyOf d = key → revision ≤ d.updateRevision) :
    (c.evictOne d).Marked key revision := by
  refine h.imp id fun ⟨later, hmarker, hle⟩ => ?_
  rw [evicted_evictOne, Dict.get?_insert]
  split
  next hkey => exact ⟨_, rfl, hd hkey.symm⟩
  · exact ⟨later, hmarker, hle⟩

theorem evict (h : c.Marked key revision)
    (hdocs : ∀ d ∈ docs, keyOf d = key → revision ≤ d.updateRevision) :
    (c.evict docs).Marked key revision :=
  List.foldlRecOn (motive := fun c => c.Marked key revision) docs Cache.evictOne h
    fun _ hc d hd => hc.evictOne (hdocs d hd)

/-- Markers are swept only where no copy is found anyway. -/
theorem sweep (h : c.Marked key revision) : c.sweep.2.Marked key revision := by
  unfold Cache.sweep
  split
  next hexpired => exact .inl hexpired
  · exact h

theorem call (h : c.Marked key revision) {call : Call}
    (hput : ∀ d ∈ call.written, keyOf d ≠ key)
    (hevict : ∀ d ∈ call.deleted, keyOf d = key → revision ≤ d.updateRevision) :
    (c.call call).2.Marked key revision := by
  refine call_keeps (P := fun c => c.Marked key revision) (fun _ d hd hc => hc.putOne (hput d hd))
    (fun c d hc => ?_) (fun _ d hd hc => hc.evictOne (hevict d hd)) (fun _ _ hc => hc)
    (fun _ hc => hc.sweep) h
  obtain ⟨hevicted, httl⟩ := evicted_backfillOne c d
  exact hc.congr hevicted httl

theorem run (h : c.Marked key revision) {calls : List Call}
    (hput : ∀ call ∈ calls, ∀ d ∈ call.written, keyOf d ≠ key)
    (hevict : ∀ call ∈ calls, ∀ d ∈ call.deleted, keyOf d = key → revision ≤ d.updateRevision) :
    (c.run calls).2.Marked key revision := by
  induction calls generalizing c with
  | nil => exact h
  | cons call calls ih =>
    obtain ⟨hcallPut, hput⟩ := List.forall_mem_cons.mp hput
    obtain ⟨hcallEvict, hevict⟩ := List.forall_mem_cons.mp hevict
    exact ih (h.call hcallPut hcallEvict) hput hevict

/-- Beside a marker only later revisions are found. -/
theorem lt_of_get (h : c.Marked (keyOf d) revision) (hguarded : c.Guarded) {copy : Document}
    (hget : (c.get d.domain d.project d.id).1 = some copy) : revision < copy.updateRevision := by
  rw [Cache.get] at hget
  split at hget
  · cases hget
  next hlasting =>
    obtain ⟨later, hmarker, hle⟩ := h.resolve_left hlasting
    exact Int64.lt_of_le_of_lt hle (hguarded _ copy later hget hmarker)

end Marked

/-! ## Sequences of calls -/

theorem run_append_snd (c : Cache) (calls calls' : List Call) :
    (c.run (calls ++ calls')).2 = ((c.run calls).2.run calls').2 := by
  induction calls generalizing c with
  | nil => rfl
  | cons call calls ih => exact ih _

/-- **A marker stops late copies.** After a document is evicted at some revision, and as long as it
is not put again, no copy of this revision or an earlier one is found, whatever scans bring in and
in whatever order, unless the document is evicted once more at an earlier revision. Documents count
as the same here if the cache knows them by one name. -/
theorem run_marked (ttl : Nat) (before after : List Call) (front back : List Document)
    (d : Document) (hput : ∀ call ∈ after, ∀ e ∈ call.written, keyOf e ≠ keyOf d)
    (hevict : ∀ e ∈ back ++ after.flatMap Call.deleted,
      keyOf e = keyOf d → d.updateRevision ≤ e.updateRevision) :
    ∀ copy, ((run { ttl } (before ++ .evict (front ++ d :: back) :: after)).2.get d.domain d.project
      d.id).1 = some copy → d.updateRevision < copy.updateRevision := by
  rw [List.forall_mem_append] at hevict
  obtain ⟨hback, hafter⟩ := hevict
  intro copy hget
  have hguarded := (Guarded.empty ttl).run (before ++ .evict (front ++ d :: back) :: after)
  refine Marked.lt_of_get (d := d) ?_ hguarded hget
  have hrun : ∀ c : Cache, (c.run (.evict (front ++ d :: back) :: after)).2
      = ((((c.evict front).evictOne d).evict back).run after).2 := by
    intro c
    show ((c.evict (front ++ d :: back)).run after).2 = _
    rw [Cache.evict, List.foldl_append]
    rfl
  rw [run_append_snd, hrun]
  -- whatever came before, the marker is there once the document is evicted; from here on it stays
  have hown : ∀ c : Cache, (c.evictOne d).Marked (keyOf d) d.updateRevision := by
    intro c
    refine .inr ⟨d.updateRevision, ?_, Int64.le_refl _⟩
    rw [evicted_evictOne, Dict.get?_insert, if_pos rfl]
  refine ((hown _).evict hback).run hput fun call hcall e he => hafter e ?_
  exact List.mem_flatMap.mpr ⟨call, hcall, he⟩

/-- Scans bring in copies of all kinds around a second eviction; in the end there is one of a later
revision. -/
theorem run_marked_sample :
    let late : List Call := [.backfill [copyOf "web" "1" 4, copyOf "web" "1" 5],
      .evict [copyOf "web" "1" 6], .backfill [copyOf "web" "1" 8, copyOf "web" "1" 2]]
    let last := (run { ttl := 60 } ([.put [copyOf "web" "1" 3]] ++
      .evict ([copyOf "app" "1" 9] ++ copyOf "web" "1" 5 :: [copyOf "web" "2" 1]) :: late)).2
    (last.get "shop" "web" "1").1 = some (copyOf "web" "1" 8) ∧
      ∀ copy, (last.get "shop" "web" "1").1 = some copy → 5 < copy.updateRevision := by
  intro late last
  have hmarked := run_marked 60 [.put [copyOf "web" "1" 3]] late [copyOf "app" "1" 9]
    [copyOf "web" "2" 1] (copyOf "web" "1" 5) (by decide) (by decide)
  exact ⟨by decide, hmarked⟩

/-- A document is evicted at one revision and then at an earlier one. A late copy of a revision in
between comes back. -/
theorem run_marked_anew :
    let last := (run { ttl := 60 } [.evict [copyOf "web" "1" 5], .evict [copyOf "web" "1" 3],
      .backfill [copyOf "web" "1" 4]]).2
    (last.get "shop" "web" "1").1 = some (copyOf "web" "1" 4) ∧
      (copyOf "web" "1" 4).updateRevision ≤ (copyOf "web" "1" 5).updateRevision := by
  intro last
  exact ⟨by decide, by decide⟩

end ConfigStore.Cache
