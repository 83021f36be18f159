import ConfigStore.Proofs.Document.Ordering
import Mathlib.Data.List.Nodup

/-!
# Turning the pages of a listing

Whoever asks for one page after the other, until a page is empty, has seen every element once and in
the order of the list. The list itself hangs on nothing but the documents: which of them were found
first cannot be seen.

* `ranked_of_nodup` says that documents of different ids are told apart by the order of listings.
* `page_eq_nil_iff` says which pages are empty, `pageCount` counts those that are not and
  `flatten_pages` puts pages together again.
* `listings_canonical` is what a listing and its pages are.
-/

namespace ConfigStore

/-! ## The order of listings -/

section Order

variable {docs docs' : List Document}

theorem ranked_of_nodup (h : (docs.map (·.id)).Nodup) : Ranked docs :=
  fun _ ha _ hb _ _ hid => List.inj_on_of_nodup_map h ha hb hid

/-- Each document of a listing comes before the next ones, if their ids are different. -/
theorem pairwise_before_byPriority (h : (docs.map (·.id)).Nodup) :
    (byPriority docs).Pairwise Document.Before := by
  have hnodup : ((byPriority docs).map (·.id)).Nodup :=
    ((byPriority_perm docs).map (·.id)).nodup_iff.mpr h
  have hids : (byPriority docs).Pairwise fun a b => a.id ≠ b.id := List.pairwise_map.mp hnodup
  exact ((pairwise_byPriority docs).and hids).imp fun hab => Document.before_of_precedes hab.1 hab.2

/-- The pages of a listing do not depend on the order in which its documents were found. -/
theorem ofFound_eq_of_perm (hperm : docs.Perm docs') (hranked : Ranked docs) (offset limit : Nat) :
    Listing.ofFound docs offset limit = Listing.ofFound docs' offset limit := by
  rw [Listing.ofFound, Listing.ofFound, hperm.length_eq, byPriority_eq_of_perm hperm hranked]

end Order

/-! ## Pages -/

section Pages

variable {α : Type} {items : List α} {limit : Nat}

theorem page_zero (items : List α) (offset : Nat) : page items offset 0 = items.drop offset :=
  if_pos rfl

theorem page_of_pos (hlimit : 0 < limit) (items : List α) (offset : Nat) :
    page items offset limit = (items.drop offset).take limit :=
  if_neg (Nat.ne_of_gt hlimit)

/-- A page is empty if it begins behind the last element. -/
theorem page_eq_nil_iff (hlimit : 0 < limit) {offset : Nat} :
    page items offset limit = [] ↔ items.length ≤ offset := by
  rw [page_of_pos hlimit, List.take_eq_nil_iff, List.drop_eq_nil_iff]
  exact or_iff_right (Nat.ne_of_gt hlimit)

/-- The first pages hold the first elements. -/
theorem flatten_pages (hlimit : 0 < limit) (items : List α) (n : Nat) :
    ((List.range n).map fun k => page items (k * limit) limit).flatten
      = items.take (n * limit) := by
  induction n with
  | zero => simp
  | succ n ih =>
    rw [List.range_succ, List.map_append, List.flatten_append, ih, List.map_singleton,
      List.flatten_singleton, page_of_pos hlimit, ← List.take_add, Nat.succ_mul]

/-- How many pages it takes to cover a list. -/
def pageCount (items : List α) (limit : Nat) : Nat := (items.length + limit - 1) / limit

theorem pageCount_le_iff (hlimit : 0 < limit) {k : Nat} :
    pageCount items limit ≤ k ↔ items.length ≤ k * limit := by
  have hsucc : (k + 1) * limit = k * limit + limit := Nat.succ_mul k limit
  rw [pageCount, ← Nat.lt_succ_iff, Nat.div_lt_iff_lt_mul hlimit, Nat.succ_eq_add_one, hsucc]
  omega

/-- The first empty page begins no further on than one limit, or twice the length of the list. -/
theorem pageCount_mul_le (hlimit : 0 < limit) (items : List α) :
    pageCount items limit * limit ≤ max limit (2 * items.length) := by
  cases hcount : pageCount items limit with
  | zero => simp
  | succ n =>
    have hsucc : (n + 1) * limit = n * limit + limit := Nat.succ_mul n limit
    -- the page before it is not empty
    have hlast : n * limit < items.length := by
      rw [← Nat.not_le, ← pageCount_le_iff hlimit]
      omega
    cases n with
    | zero => omega
    | succ n =>
      have hsucc' : (n + 1) * limit = n * limit + limit := Nat.succ_mul n limit
      omega

end Pages

/-- **Listings are canonical and pages tile them.** Documents of different ids have one listing,
whichever was found first: it holds each of them once, one with more labels before one with fewer,
then the later revision before the earlier one, then the smaller id. The pages of any list, up to
the first one that is empty, are the list; no page after that holds anything, and as long as the
limit is a number of 64 bits and the list is no longer than memory, so is every offset asked for. A
limit of zero gives everything from the offset on. -/
theorem listings_canonical :
    (∀ docs docs' : List Document, docs.Perm docs' → (docs.map (·.id)).Nodup →
      byPriority docs = byPriority docs' ∧ (byPriority docs).Perm docs ∧
        (byPriority docs).Pairwise Document.Before ∧
        ∀ offset limit, Listing.ofFound docs offset limit = Listing.ofFound docs' offset limit) ∧
    (∀ {α : Type} (items : List α) (limit : Nat), 1 ≤ limit → ∃ n,
      (∀ k, page items (k * limit) limit = [] ↔ n ≤ k) ∧
        ((List.range n).map fun k => page items (k * limit) limit).flatten = items ∧
        (limit < UInt64.size → 2 * items.length < UInt64.size → n * limit < UInt64.size)) ∧
    (∀ {α : Type} (items : List α) (offset : Nat), page items offset 0 = items.drop offset) := by
  refine ⟨fun docs docs' hperm hnodup => ?_, fun items limit hlimit => ?_, page_zero⟩
  · have hranked := ranked_of_nodup hnodup
    exact ⟨byPriority_eq_of_perm hperm hranked, byPriority_perm docs,
      pairwise_before_byPriority hnodup, ofFound_eq_of_perm hperm hranked⟩
  · refine ⟨pageCount items limit, fun k => ?_, ?_, fun hsize hlength => ?_⟩
    · rw [page_eq_nil_iff hlimit, pageCount_le_iff hlimit]
    · rw [flatten_pages hlimit, List.take_of_length_le]
      exact (pageCount_le_iff hlimit).mp (Nat.le_refl _)
    · exact Nat.lt_of_le_of_lt (pageCount_mul_le hlimit items) (Nat.max_lt.mpr ⟨hsize, hlength⟩)

/-- Three documents in two orders: the one with a label comes first, then the later of the other
two. -/
theorem listings_canonical_sample :
    let old : Document := { id := "a", updateRevision := 1 }
    let new : Document := { id := "b", updateRevision := 5 }
    let labelled : Document :=
      { id := "c", updateRevision := 2, labels := .ofList [("env", "prod")] }
    (byPriority [old, new, labelled] = byPriority [labelled, old, new] ∧
      (byPriority [old, new, labelled]).Pairwise Document.Before ∧
      byPriority [old, new, labelled] = [labelled, new, old]) ∧
    ∃ n, (∀ k, page [old, new, labelled] (k * 2) 2 = [] ↔ n ≤ k) ∧
      ((List.range n).map fun k => page [old, new, labelled] (k * 2) 2).flatten
        = [old, new, labelled] ∧ n * 2 < UInt64.size := by
  intro old new labelled
  have hperm : [old, new, labelled].Perm [labelled, old, new] :=
    (List.perm_append_comm : ([old, new] ++ [labelled]).Perm ([labelled] ++ [old, new]))
  have hnodup : ([old, new, labelled].map (·.id)).Nodup := by decide
  obtain ⟨heq, -, hbefore, -⟩ := listings_canonical.1 _ _ hperm hnodup
  obtain ⟨n, hempty, hpages, hsize⟩ :=
    listings_canonical.2.1 [old, new, labelled] 2 (by decide)
  exact ⟨⟨heq, hbefore, by decide⟩, n, hempty, hpages, hsize (by decide) (by decide)⟩

end ConfigStore
