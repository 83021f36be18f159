import ConfigStore.Proofs.Cache.Copies
import ConfigStore.Proofs.Library.Reading

/-!
# A cache beside a library

Whatever was put into a cache, and in whichever order, every copy in it is the newest copy of a
document. So it makes no difference whether a document is found in the cache or on the disk.

* `Cache.Agrees` is the invariant of a cache; `Agrees.putOne`, `Agrees.evict` and `Agrees.backfill`
  say what keeps it.
* `Cache.Agrees.searchIds` says what is found in a cache.
-/

namespace ConfigStore

variable {lib lib' : Library} {d : Document} {domain project id : String}

/-! ## The invariant of a cache -/

namespace Cache

variable {c : Cache}

/-- Every copy stands under its own name and is the newest copy of the document. -/
def Agrees (c : Cache) (lib : Library) : Prop :=
  ∀ key d, c.bodies.get? key = some d → key = keyOf d ∧ lib.head? d.domain d.project d.id = some d

theorem agrees_empty (ttl : Nat) (lib : Library) : Agrees { ttl } lib := fun _ _ h => by cases h

namespace Agrees

/-- Only the newest copies count. -/
theorem of_head?_eq (h : c.Agrees lib)
    (heq : ∀ domain project id, lib'.head? domain project id = lib.head? domain project id) :
    c.Agrees lib' := by
  intro key d hd
  rw [heq]
  exact h key d hd

/-- A document that has become the newest copy can be put into the cache. -/
theorem putOne (h : c.Agrees lib) (hhead : lib'.head? d.domain d.project d.id = some d)
    (hother : ∀ domain project id, (domain, project, id) ≠ (d.domain, d.project, d.id) →
      lib'.head? domain project id = lib.head? domain project id) :
    (c.putOne d).Agrees lib' := by
  intro key copy hcopy
  rw [bodies_putOne, Dict.get?_insert] at hcopy
  split at hcopy
  next hkey =>
    obtain rfl := Option.some.inj hcopy
    exact ⟨hkey, hhead⟩
  next hkey =>
    obtain ⟨rfl, hold⟩ := h key copy hcopy
    refine ⟨rfl, ?_⟩
    rw [hother _ _ _ fun hplace => hkey ?_, hold]
    simp only [Prod.mk.injEq] at hplace
    rw [keyOf, keyOf, hplace.1, hplace.2.1, hplace.2.2]

/-- After some documents are evicted, the cache agrees with a library that has all others. -/
theorem evict (h : c.Agrees lib) {docs : List Document}
    (hothers : ∀ d, lib.head? d.domain d.project d.id = some d → d ∉ docs →
      lib'.head? d.domain d.project d.id = some d) :
    (c.evict docs).Agrees lib' := by
  intro key copy hcopy
  rw [get?_evict] at hcopy
  split at hcopy
  · cases hcopy
  next hkey =>
    obtain ⟨rfl, hold⟩ := h key copy hcopy
    exact ⟨rfl, hothers copy hold fun hmem => hkey (List.mem_map_of_mem hmem)⟩

/-- What a scan has found can be put into the cache. -/
theorem backfill (h : c.Agrees lib) {docs : List Document}
    (hdocs : ∀ d ∈ docs, lib.head? d.domain d.project d.id = some d) :
    (c.backfill docs).2.Agrees lib :=
  All.backfill h hdocs

/-! ## Searching -/

/-- Of some ids a search finds the newest copies of those that are cached. -/
theorem searchIds (h : c.Agrees lib) (hvalid : lib.Valid)
    (hscope : Names.checkScope domain project = .ok ()) (query : Query) (ids : List String) :
    ∃ held c', held.Sublist ids ∧ (∀ id ∈ held, (lib.shelf? domain project id).isSome) ∧
      c'.Agrees lib ∧ ∃ found, c.searchIds domain project query ids = (found, c') ∧
        found.cachedIds = held ∧
        found.docs = (held.filterMap (lib.head? domain project)).filter query.accepts := by
  have hall : c.All fun d => lib.head? d.domain d.project d.id = some d := h
  obtain ⟨copies, c', hsub, hcopies, hagrees, found, hfound, hids, hdocs⟩ := hall.searchIds
    (fun d hhead => Names.noSlash_of_checkScope (hvalid.storable_head hhead).scope)
    (Names.noSlash_of_checkScope hscope).1 (Names.noSlash_of_checkScope hscope).2 query ids
  have hheads : ∀ d ∈ copies, lib.head? domain project d.id = some d := by
    intro d hd
    obtain ⟨hhead, rfl, rfl⟩ := hcopies d hd
    exact hhead
  have hheld : (copies.map (·.id)).filterMap (lib.head? domain project) = copies := by
    rw [List.filterMap_map]
    exact (List.filterMap_congr hheads).trans List.filterMap_some
  refine ⟨copies.map (·.id), c', hsub, fun id hid => ?_, hagrees, found, hfound, hids, ?_⟩
  · obtain ⟨d, hd, rfl⟩ := List.mem_map.mp hid
    rw [← Library.head?_isSome, hheads d hd]
    rfl
  · rw [hdocs, hheld]

end Agrees

end Cache

end ConfigStore
