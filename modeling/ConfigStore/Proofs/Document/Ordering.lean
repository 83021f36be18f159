import ConfigStore.Document.Order
import Mathlib.Data.List.Basic

/-!
# Listings in order

The order of listings leaves open only how documents stand that agree in the number of their labels,
in their revision and in their id. A listing of documents of which no two agree in all of these does
not depend on the order in which they were found.

* `Document.precedes_total`, `Document.precedes_trans`, `Document.precedes_antisymm` are the laws of
  the order.
* `Document.Before` is the order of documents of different ids.
* `byPriority_eq_of_perm` says that a listing does not depend on the order of finding.
* `pairwise_byPriority` says that a listing is in order.
-/

namespace ConfigStore

namespace Document

variable {a b c : Document}

theorem precedes_iff :
    a.precedes b = true ↔
      b.labels.size < a.labels.size ∨
        a.labels.size = b.labels.size ∧
          (b.updateRevision < a.updateRevision ∨
            a.updateRevision = b.updateRevision ∧ a.id ≤ b.id) := by
  unfold precedes
  by_cases hsize : a.labels.size = b.labels.size
  · by_cases hrevision : a.updateRevision = b.updateRevision
    · have hirrefl : ¬b.updateRevision < b.updateRevision := Int64.lt_irrefl
      simp [hsize, hrevision, hirrefl]
    · simp [hsize, hrevision]
  · simp [hsize]

theorem precedes_total (a b : Document) : a.precedes b = true ∨ b.precedes a = true := by
  rw [precedes_iff, precedes_iff]
  rcases Nat.lt_trichotomy a.labels.size b.labels.size with hsize | hsize | hsize
  · exact .inr (.inl hsize)
  · rcases Int64.lt_or_le a.updateRevision b.updateRevision with hrevision | hrevision
    · exact .inr (.inr ⟨hsize.symm, .inl hrevision⟩)
    · by_cases heq : a.updateRevision = b.updateRevision
      · rcases String.le_total a.id b.id with hid | hid
        · exact .inl (.inr ⟨hsize, .inr ⟨heq, hid⟩⟩)
        · exact .inr (.inr ⟨hsize.symm, .inr ⟨heq.symm, hid⟩⟩)
      · exact .inl (.inr ⟨hsize, .inl (Int64.lt_of_le_of_ne hrevision (Ne.symm heq))⟩)
  · exact .inl (.inl hsize)

theorem precedes_trans (a b c : Document) (hab : a.precedes b = true) (hbc : b.precedes c = true) :
    a.precedes c = true := by
  rw [precedes_iff] at hab hbc ⊢
  rcases hab with hab | ⟨hsize, hab⟩
  · rcases hbc with hbc | ⟨hsize', -⟩
    · exact .inl (by omega)
    · exact .inl (by omega)
  · rcases hbc with hbc | ⟨hsize', hbc⟩
    · exact .inl (by omega)
    · refine .inr ⟨hsize.trans hsize', ?_⟩
      rcases hab with hab | ⟨hrevision, hid⟩
      · rcases hbc with hbc | ⟨hrevision', -⟩
        · exact .inl (Int64.lt_trans hbc hab)
        · exact .inl (hrevision' ▸ hab)
      · rcases hbc with hbc | ⟨hrevision', hid'⟩
        · exact .inl (hrevision ▸ hbc)
        · exact .inr ⟨hrevision.trans hrevision', String.le_trans hid hid'⟩

/-- Two documents either of which may stand before the other agree in all that the order sees. -/
theorem precedes_antisymm (hab : a.precedes b = true) (hba : b.precedes a = true) :
    a.labels.size = b.labels.size ∧ a.updateRevision = b.updateRevision ∧ a.id = b.id := by
  rw [precedes_iff] at hab hba
  rcases hab with hab | ⟨hsize, hab⟩
  · rcases hba with hba | ⟨hsize', -⟩ <;> omega
  · rcases hba with hba | ⟨-, hba⟩
    · omega
    · rcases hab with hab | ⟨hrevision, hid⟩
      · rcases hba with hba | ⟨hrevision', -⟩
        · exact absurd (Int64.lt_trans hab hba) Int64.lt_irrefl
        · exact absurd (hrevision' ▸ hab) Int64.lt_irrefl
      · rcases hba with hba | ⟨-, hid'⟩
        · exact absurd (hrevision ▸ hba) Int64.lt_irrefl
        · exact ⟨hsize, hrevision, String.le_antisymm hid hid'⟩

/-- The order of listings: more labels before fewer, then later revisions before earlier ones, then
ids in ascending order. -/
def Before (a b : Document) : Prop :=
  b.labels.size < a.labels.size ∨ a.labels.size = b.labels.size ∧
    (b.updateRevision < a.updateRevision ∨ a.updateRevision = b.updateRevision ∧ a.id < b.id)

theorem before_of_precedes (h : a.precedes b = true) (hid : a.id ≠ b.id) : a.Before b := by
  refine (precedes_iff.mp h).imp_right fun ⟨hsize, hrest⟩ => ⟨hsize, ?_⟩
  exact hrest.imp_right fun ⟨hrevision, hle⟩ => ⟨hrevision, Std.lt_of_le_of_ne hle hid⟩

end Document

/-! ## Listings -/

theorem pairwise_byPriority (docs : List Document) :
    (byPriority docs).Pairwise (Document.precedes · · = true) :=
  pairwise_sortBy Document.precedes_total Document.precedes_trans docs

theorem byPriority_perm (docs : List Document) : (byPriority docs).Perm docs :=
  sortBy_perm Document.precedes docs

/-- No two documents agree in all that the order sees. -/
def Ranked (docs : List Document) : Prop :=
  ∀ a ∈ docs, ∀ b ∈ docs, a.labels.size = b.labels.size → a.updateRevision = b.updateRevision →
    a.id = b.id → a = b

/-- Two lists in order of the same documents are the same. -/
theorem eq_of_perm_of_inOrder {docs docs' : List Document} (hperm : docs.Perm docs')
    (hranked : Ranked docs) (h : docs.Pairwise (Document.precedes · · = true))
    (h' : docs'.Pairwise (Document.precedes · · = true)) : docs = docs' := by
  refine hperm.eq_of_pairwise (fun a b ha hb hab hba => ?_) h h'
  obtain ⟨hsize, hrevision, hid⟩ := Document.precedes_antisymm hab hba
  exact hranked a ha b (hperm.mem_iff.mpr hb) hsize hrevision hid

/-- A listing does not depend on the order in which its documents were found. -/
theorem byPriority_eq_of_perm {docs docs' : List Document} (hperm : docs.Perm docs')
    (hranked : Ranked docs) : byPriority docs = byPriority docs' := by
  have hsorted : (byPriority docs).Perm (byPriority docs') :=
    (byPriority_perm docs).trans (hperm.trans (byPriority_perm docs').symm)
  refine eq_of_perm_of_inOrder hsorted ?_ (pairwise_byPriority docs) (pairwise_byPriority docs')
  intro a ha b hb
  exact hranked a (mem_sortBy.mp ha) b (mem_sortBy.mp hb)

/-- Documents that are in order already stay as they are. -/
theorem byPriority_eq_of_inOrder {docs docs' : List Document} (hperm : docs'.Perm docs)
    (hranked : Ranked docs) (h : docs.Pairwise (Document.precedes · · = true)) :
    byPriority docs' = docs := by
  refine (eq_of_perm_of_inOrder (hperm.symm.trans (byPriority_perm docs').symm) hranked h
    (pairwise_byPriority docs')).symm

end ConfigStore
