/-!
# Stable sorting

Sorting by repeated insertion. Two elements that compare as equal keep the order they came in,
and the definitions are structural, so a sorted list can be computed by the kernel.

* `insertBy` puts one element in front of the first one that it may precede.
* `sortBy` sorts a whole list; `sortBy_perm` says that nothing is lost or repeated and
  `pairwise_sortBy` that the result is in order.
-/

namespace ConfigStore

variable {α : Type}

/-- Puts `x` in front of the first element that it may precede. -/
def insertBy (le : α → α → Bool) (x : α) (l : List α) : List α :=
  l.takeWhile (!le x ·) ++ x :: l.dropWhile (!le x ·)

/-- Sorts a list so that `le` holds from each element to those after it; equal elements keep their
order. -/
def sortBy (le : α → α → Bool) (l : List α) : List α := l.foldr (insertBy le) []

/-! ## Nothing is lost -/

theorem insertBy_perm (le : α → α → Bool) (x : α) (l : List α) :
    (insertBy le x l).Perm (x :: l) := by
  refine List.perm_middle.trans (.cons x ?_)
  rw [List.takeWhile_append_dropWhile]

theorem sortBy_perm (le : α → α → Bool) (l : List α) : (sortBy le l).Perm l := by
  induction l with
  | nil => exact .refl _
  | cons x xs ih => exact (insertBy_perm le x _).trans (ih.cons x)

@[simp]
theorem mem_sortBy {le : α → α → Bool} {a : α} {l : List α} : a ∈ sortBy le l ↔ a ∈ l :=
  (sortBy_perm le l).mem_iff

@[simp]
theorem length_sortBy (le : α → α → Bool) (l : List α) : (sortBy le l).length = l.length :=
  (sortBy_perm le l).length_eq

/-! ## The result is in order -/

/-- A list is in order if every element may precede all that come after it. -/
abbrev InOrder (le : α → α → Bool) (l : List α) : Prop := l.Pairwise (le · · = true)

/-- In a list in order, all elements from the first on that `x` may precede are elements that `x`
may precede. -/
theorem le_of_mem_dropWhile {le : α → α → Bool}
    (trans : ∀ a b c, le a b = true → le b c = true → le a c = true) {x z : α} {l : List α}
    (h : InOrder le l) (hz : z ∈ l.dropWhile (!le x ·)) : le x z = true := by
  induction l with
  | nil => cases hz
  | cons y ys ih =>
    obtain ⟨hy, hys⟩ := List.pairwise_cons.mp h
    cases hxy : le x y with
    | false => exact ih hys (by simpa [hxy] using hz)
    | true =>
      rw [List.dropWhile_cons_of_neg (by simp [hxy])] at hz
      rcases List.mem_cons.mp hz with rfl | hz
      · exact hxy
      · exact trans _ _ _ hxy (hy z hz)

theorem inOrder_insertBy {le : α → α → Bool}
    (total : ∀ a b, le a b = true ∨ le b a = true)
    (trans : ∀ a b c, le a b = true → le b c = true → le a c = true)
    (x : α) {l : List α} (h : InOrder le l) : InOrder le (insertBy le x l) := by
  have parts := h
  rw [InOrder, ← List.takeWhile_append_dropWhile (p := (!le x ·)) (l := l)] at parts
  obtain ⟨before, after, across⟩ := List.pairwise_append.mp parts
  refine List.pairwise_append.mpr ⟨before, List.pairwise_cons.mpr ⟨?_, after⟩, fun a ha b hb => ?_⟩
  · exact fun z hz => le_of_mem_dropWhile trans h hz
  · rcases List.mem_cons.mp hb with rfl | hb
    · have hab := List.all_eq_true.mp List.all_takeWhile a ha
      exact (total a b).resolve_right (by simpa using hab)
    · exact across a ha b hb

theorem pairwise_sortBy {le : α → α → Bool}
    (total : ∀ a b, le a b = true ∨ le b a = true)
    (trans : ∀ a b c, le a b = true → le b c = true → le a c = true)
    (l : List α) : (sortBy le l).Pairwise (le · · = true) := by
  induction l with
  | nil => exact .nil
  | cons x xs ih => exact inOrder_insertBy total trans x ih

end ConfigStore
