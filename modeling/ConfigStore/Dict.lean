/-!
# Finite maps from text

A `Dict` is a finite map whose keys are strings. Its pairs are kept in strictly ascending order of
the keys, so two maps with the same look-ups are equal and listing a map needs no sorting.
The order of strings is by code point, which is also the order of their UTF-8 bytes.

* `Dict.get?`, `Dict.insert`, `Dict.erase`, `Dict.ofList` are the operations.
* `Dict.get?_insert`, `Dict.get?_erase` say what they do to the look-ups; `Dict.ext_get?` says that
  the look-ups determine the map.
* `Dict.mem_keys_iff`, `Dict.ascending_keys` and `Dict.nodup_keys` describe the list of the keys.
-/

namespace ConfigStore

/-! ## Pairs in key order -/

namespace Pairs

variable {α : Type}

/-- The value under `key` in a list of pairs. -/
def find? (key : String) : List (String × α) → Option α
  | [] => none
  | (k, v) :: rest => if key = k then some v else find? key rest

/-- Puts a pair at its place in key order; a pair of the same key is replaced. -/
def insert (key : String) (value : α) : List (String × α) → List (String × α)
  | [] => [(key, value)]
  | (k, v) :: rest =>
    if key < k then (key, value) :: (k, v) :: rest
    else if key = k then (key, value) :: rest
    else (k, v) :: insert key value rest

/-- Removes the pair of a key. -/
def erase (key : String) (pairs : List (String × α)) : List (String × α) :=
  pairs.filter (·.1 ≠ key)

/-- The keys ascend strictly. -/
abbrev Ascending (pairs : List (String × α)) : Prop :=
  pairs.Pairwise (·.1 < ·.1)

theorem lt_of_not_lt_of_ne {a b : String} (h : ¬a < b) (hne : a ≠ b) : b < a :=
  Decidable.byContradiction fun h' =>
    hne (String.le_antisymm (String.not_lt.mp h') (String.not_lt.mp h))

theorem mem_insert {key : String} {value : α} {pairs : List (String × α)} {p : String × α}
    (h : p ∈ insert key value pairs) : p = (key, value) ∨ p ∈ pairs := by
  induction pairs with
  | nil => exact .inl (List.mem_singleton.mp h)
  | cons q rest ih =>
    unfold insert at h
    split at h
    · exact List.mem_cons.mp h
    · split at h
      · exact (List.mem_cons.mp h).imp_right (List.mem_cons_of_mem _)
      · rcases List.mem_cons.mp h with rfl | h
        · exact .inr (List.mem_cons_self ..)
        · exact (ih h).imp_right (List.mem_cons_of_mem _)

theorem ascending_insert (key : String) (value : α) {pairs : List (String × α)}
    (h : Ascending pairs) : Ascending (insert key value pairs) := by
  induction pairs with
  | nil => exact List.pairwise_singleton _ _
  | cons q rest ih =>
    obtain ⟨hq, hrest⟩ := List.pairwise_cons.mp h
    unfold insert
    split
    next hlt =>
      refine List.pairwise_cons.mpr ⟨fun p hp => ?_, h⟩
      rcases List.mem_cons.mp hp with rfl | hp
      · exact hlt
      · exact String.lt_trans hlt (hq p hp)
    next hlt =>
      split
      next heq => exact List.pairwise_cons.mpr ⟨fun p hp => heq ▸ hq p hp, hrest⟩
      next hne =>
        refine List.pairwise_cons.mpr ⟨fun p hp => ?_, ih hrest⟩
        rcases mem_insert hp with rfl | hp
        · exact lt_of_not_lt_of_ne hlt hne
        · exact hq p hp

theorem ascending_erase (key : String) {pairs : List (String × α)} (h : Ascending pairs) :
    Ascending (erase key pairs) :=
  h.sublist List.filter_sublist

theorem find?_insert (key k : String) (value : α) (pairs : List (String × α)) :
    find? k (insert key value pairs) = if k = key then some value else find? k pairs := by
  induction pairs with
  | nil => rfl
  | cons q rest ih =>
    unfold insert
    split
    · rfl
    · split
      next heq => subst heq; unfold find?; split <;> rfl
      next hne =>
        by_cases hk : k = q.1
        · have : k ≠ key := fun h => hne (h ▸ hk)
          simp [find?, hk ▸ this, hk]
        · simp [find?, hk, ih]

theorem find?_erase (key k : String) (pairs : List (String × α)) :
    find? k (erase key pairs) = if k = key then none else find? k pairs := by
  induction pairs with
  | nil => simp [erase, find?]
  | cons q rest ih =>
    unfold erase at ih ⊢
    by_cases hq : q.1 = key
    · rw [List.filter_cons_of_neg (by simpa using hq), ih]
      by_cases hk : k = key
      · simp [hk]
      · have : k ≠ q.1 := fun h => hk (h.trans hq)
        simp [find?, hk, this]
    · rw [List.filter_cons_of_pos (by simpa using hq)]
      by_cases hk : k = q.1
      · have : k ≠ key := fun h => hq (hk ▸ h)
        simp [find?, hk, hk ▸ this]
      · simpa [find?, hk] using ih

theorem find?_eq_some_of_mem {pairs : List (String × α)} (h : Ascending pairs) {p : String × α}
    (hp : p ∈ pairs) : find? p.1 pairs = some p.2 := by
  induction pairs with
  | nil => cases hp
  | cons q rest ih =>
    obtain ⟨hq, hrest⟩ := List.pairwise_cons.mp h
    rcases List.mem_cons.mp hp with rfl | hp
    · simp [find?]
    · have : p.1 ≠ q.1 := fun heq => String.lt_irrefl _ (heq ▸ hq p hp)
      simp [find?, this, ih hrest hp]

theorem mem_of_find?_eq_some {pairs : List (String × α)} {k : String} {v : α}
    (h : find? k pairs = some v) : (k, v) ∈ pairs := by
  induction pairs with
  | nil => cases h
  | cons q rest ih =>
    unfold find? at h
    split at h
    next heq => cases h; subst heq; exact List.mem_cons_self ..
    next => exact List.mem_cons_of_mem _ (ih h)

theorem ext_find? {l m : List (String × α)} (hl : Ascending l) (hm : Ascending m)
    (h : ∀ k, find? k l = find? k m) : l = m := by
  have mem : ∀ {l m : List (String × α)}, Ascending l → (∀ k, find? k l = find? k m) →
      ∀ p ∈ l, p ∈ m := fun hl h p hp =>
    mem_of_find?_eq_some ((h p.1).symm.trans (find?_eq_some_of_mem hl hp))
  induction l generalizing m with
  | nil =>
    cases m with
    | nil => rfl
    | cons q rest => cases mem hm (fun k => (h k).symm) q (List.mem_cons_self ..)
  | cons p l' ih =>
    cases m with
    | nil => cases mem hl h p (List.mem_cons_self ..)
    | cons q m' =>
      obtain ⟨hp, hl'⟩ := List.pairwise_cons.mp hl
      obtain ⟨hq, hm'⟩ := List.pairwise_cons.mp hm
      have hpq : p = q := by
        rcases List.mem_cons.mp (mem hl h p (List.mem_cons_self ..)) with rfl | hpm
        · rfl
        · rcases List.mem_cons.mp (mem hm (fun k => (h k).symm) q (List.mem_cons_self ..)) with
            rfl | hql
          · rfl
          · exact absurd (hp q hql) (String.lt_asymm (hq p hpm))
      subst hpq
      refine congrArg (p :: ·) (ih hl' hm' fun k => ?_)
      have hk := h k
      unfold find? at hk
      split at hk
      next heq =>
        have absent : ∀ {rest : List (String × α)}, (∀ x ∈ rest, p.1 < x.1) →
            find? k rest = none := fun {rest} hlt => by
          cases hf : find? k rest with
          | none => rfl
          | some v =>
            have := hlt _ (mem_of_find?_eq_some hf)
            exact absurd (heq ▸ this) (String.lt_irrefl _)
        rw [absent hp, absent hq]
      next => exact hk

end Pairs

/-! ## The type -/

/-- A finite map from strings; its pairs are in strictly ascending order of the keys. -/
structure Dict (α : Type) where
  /-- The pairs of the map. -/
  pairs : List (String × α)
  /-- The keys ascend strictly. -/
  ascending : Pairs.Ascending pairs

namespace Dict

variable {α : Type}

instance [DecidableEq α] : DecidableEq (Dict α) := fun a b =>
  decidable_of_iff (a.pairs = b.pairs) (by cases a; cases b; simp)

/-- The map without a pair. -/
def empty : Dict α := ⟨[], .nil⟩

instance : Inhabited (Dict α) := ⟨empty⟩
instance : EmptyCollection (Dict α) := ⟨empty⟩

/-- The value under a key. -/
def get? (d : Dict α) (key : String) : Option α := Pairs.find? key d.pairs

/-- Whether a key has a value. -/
def contains (d : Dict α) (key : String) : Bool := (d.get? key).isSome

/-- Puts a value under a key in place of any value it had. -/
def insert (d : Dict α) (key : String) (value : α) : Dict α :=
  ⟨Pairs.insert key value d.pairs, Pairs.ascending_insert key value d.ascending⟩

/-- Takes a key out of the map. -/
def erase (d : Dict α) (key : String) : Dict α :=
  ⟨Pairs.erase key d.pairs, Pairs.ascending_erase key d.ascending⟩

/-- Keeps the pairs that pass a test. -/
def filter (d : Dict α) (keep : String → α → Bool) : Dict α :=
  ⟨d.pairs.filter fun p => keep p.1 p.2, d.ascending.sublist List.filter_sublist⟩

/-- The map of a list of pairs; of two pairs with one key the later counts. -/
def ofList (pairs : List (String × α)) : Dict α :=
  pairs.foldl (fun d p => d.insert p.1 p.2) empty

/-- The number of pairs. -/
def size (d : Dict α) : Nat := d.pairs.length

/-- Whether the map has no pair. -/
def isEmpty (d : Dict α) : Bool := d.pairs.isEmpty

/-- The keys in ascending order. -/
def keys (d : Dict α) : List String := d.pairs.map (·.1)

/-! ## Look-ups -/

@[simp]
theorem get?_empty (k : String) : (empty : Dict α).get? k = none := rfl

theorem get?_insert (d : Dict α) (key k : String) (value : α) :
    (d.insert key value).get? k = if k = key then some value else d.get? k :=
  Pairs.find?_insert key k value d.pairs

theorem get?_erase (d : Dict α) (key k : String) :
    (d.erase key).get? k = if k = key then none else d.get? k :=
  Pairs.find?_erase key k d.pairs

/-- An entry that is added to two maps leaves one of them part of the other. -/
theorem get?_insert_mono {d d' : Dict α} (h : ∀ k v, d.get? k = some v → d'.get? k = some v)
    (key : String) (value : α) (k : String) (v : α) (hv : (d.insert key value).get? k = some v) :
    (d'.insert key value).get? k = some v := by
  rw [get?_insert] at hv ⊢
  split
  next hkey => rwa [if_pos hkey] at hv
  next hkey =>
    rw [if_neg hkey] at hv
    exact h k v hv

/-- So does an entry that is taken out of both. -/
theorem get?_erase_mono {d d' : Dict α} (h : ∀ k v, d.get? k = some v → d'.get? k = some v)
    (key k : String) (v : α) (hv : (d.erase key).get? k = some v) :
    (d'.erase key).get? k = some v := by
  rw [get?_erase] at hv ⊢
  split
  next hkey =>
    rw [if_pos hkey] at hv
    cases hv
  next hkey =>
    rw [if_neg hkey] at hv
    exact h k v hv

theorem mem_pairs_iff (d : Dict α) (k : String) (v : α) :
    (k, v) ∈ d.pairs ↔ d.get? k = some v :=
  ⟨fun h => Pairs.find?_eq_some_of_mem d.ascending h, Pairs.mem_of_find?_eq_some⟩

theorem mem_keys_iff {d : Dict α} {key : String} :
    key ∈ d.keys ↔ ∃ value, d.get? key = some value := by
  simp [keys, mem_pairs_iff]

theorem ascending_keys (d : Dict α) : d.keys.Pairwise (· < ·) :=
  List.pairwise_map.mpr d.ascending

theorem nodup_keys (d : Dict α) : d.keys.Nodup := by
  refine d.ascending_keys.imp ?_
  intro a b hlt heq
  rw [heq] at hlt
  exact String.lt_irrefl _ hlt

theorem ext_get? {a b : Dict α} (h : ∀ k, a.get? k = b.get? k) : a = b := by
  cases a with
  | mk l hl =>
    cases b with
    | mk m hm =>
      have : l = m := Pairs.ext_find? hl hm h
      subst this
      rfl

end Dict

end ConfigStore
