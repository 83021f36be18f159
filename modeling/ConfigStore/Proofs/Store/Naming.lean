import ConfigStore.Proofs.Disk.Operation
import ConfigStore.Proofs.Text.Decimal
import ConfigStore.Store.Names

/-!
# Names that a store accepts

A name that passes the checks of a store is one piece of a path. Whether it also fits on the disk,
the store does not ask; a path with a name that does not fit is refused by the disk.

* `Names.isPiece_of_isPlain` is the link between the two.
* `Names.checkScope_eq_ok_iff`, `Names.checkId_eq_ok_iff` say when the checks succeed.
-/

namespace ConfigStore

open Disk

namespace Names

variable {domain project id name : String}

theorem isPiece_of_isPlain (h : isPlain name = true) : IsPiece name := by
  simp only [isPlain, Bool.and_eq_true, decide_eq_true_eq] at h
  obtain ⟨⟨⟨⟨hempty, hdot⟩, hdotdot⟩, hslash⟩, -⟩ := h
  exact ⟨hempty, hdot, hdotdot, hslash⟩

theorem isPiece_json (h : IsPiece name) : IsPiece (name ++ ".json") := by
  have hlong : 5 ≤ (name ++ ".json").utf8ByteSize := by
    rw [String.utf8ByteSize_append]
    exact Nat.le_add_left ..
  refine ⟨?_, ?_, ?_, ?_⟩
  · intro heq
    exact absurd (heq ▸ hlong) (by decide)
  · intro heq
    exact absurd (heq ▸ hlong) (by decide)
  · intro heq
    exact absurd (heq ▸ hlong) (by decide)
  · rw [String.toList_append, List.mem_append, not_or]
    exact ⟨h.noSlash, by decide⟩

theorem check_eq_ok_iff {what : String} : check what name = .ok () ↔ isPlain name = true := by
  rw [check]
  split
  next h => simp [h, isPlain]
  · split <;> simp_all

theorem checkId_eq_ok_iff : checkId id = .ok () ↔ isPlain id = true := check_eq_ok_iff

theorem checkScope_eq_ok_iff :
    checkScope domain project = .ok () ↔
      isPlain domain = true ∧ isReserved domain = false ∧ isPlain project = true := by
  rw [checkScope]
  cases hdomain : check "domain" domain with
  | error failure =>
    refine iff_of_false (fun h => by cases h) fun h => ?_
    rw [check_eq_ok_iff.mpr h.1] at hdomain
    cases hdomain
  | ok u =>
    rw [check_eq_ok_iff] at hdomain
    cases hreserved : isReserved domain with
    | true =>
      refine iff_of_false (fun h => by cases h) fun h => ?_
      cases h.2.1
    | false =>
      simp only [bind, Except.bind, hdomain, true_and, Bool.false_eq_true, if_false]
      exact check_eq_ok_iff

theorem noSlash_of_checkScope (h : checkScope domain project = .ok ()) :
    '/' ∉ domain.toList ∧ '/' ∉ project.toList := by
  obtain ⟨hdomain, -, hproject⟩ := checkScope_eq_ok_iff.mp h
  exact ⟨(isPiece_of_isPlain hdomain).noSlash, (isPiece_of_isPlain hproject).noSlash⟩

theorem checkDocument_eq_ok_iff {d : Document} : checkDocument d = .ok () ↔
    checkScope d.domain d.project = .ok () ∧ checkId d.id = .ok () := by
  rw [checkDocument]
  cases checkScope d.domain d.project with
  | error failure => exact iff_of_false (by simp [bind, Except.bind]) (by simp)
  | ok u => exact ⟨fun h => ⟨rfl, h⟩, fun h => h.2⟩

theorem ne_tmpName_of_isReserved (h : isReserved domain = false) : domain ≠ Layout.tmpName := by
  rintro rfl
  simp [isReserved] at h

theorem ne_tmpName_of_checkScope (h : checkScope domain project = .ok ()) :
    domain ≠ Layout.tmpName :=
  ne_tmpName_of_isReserved (checkScope_eq_ok_iff.mp h).2.1

end Names

namespace Layout

theorem isName_tmpName : IsName tmpName :=
  ⟨⟨by decide, by decide, by decide, by decide⟩, by decide, by decide⟩

theorem isName_trackName : IsName trackName :=
  ⟨⟨by decide, by decide, by decide, by decide⟩, by decide, by decide⟩

theorem isName_newestName : IsName newestName :=
  ⟨⟨by decide, by decide, by decide, by decide⟩, by decide, by decide⟩

/-! ## Snapshots -/

theorem snapshotName_eq (revision : Int64) :
    snapshotName revision = revision.toInt.repr ++ ".json" := rfl

/-- Snapshots of different revisions have different names. -/
theorem snapshotName_injective {r r' : Int64} (h : snapshotName r = snapshotName r') : r = r' := by
  rw [snapshotName_eq, snapshotName_eq, String.append_left_inj] at h
  exact Int64.toInt_inj.mp (Decimal.repr_injective h)

theorem snapshotName_ne_newestName (revision : Int64) : snapshotName revision ≠ newestName := by
  intro h
  have hnewest : newestName = "newest_version" ++ ".json" := rfl
  rw [snapshotName_eq, hnewest, String.append_left_inj] at h
  have := Decimal.repr_chars (a := revision.toInt) (c := 'n') (by rw [h]; decide)
  revert this
  decide

theorem utf8ByteSize_snapshotName_le (revision : Int64) :
    (snapshotName revision).utf8ByteSize ≤ 25 := by
  have := Decimal.utf8ByteSize_repr_le revision
  have hsuffix : ".json".utf8ByteSize = 5 := rfl
  rw [snapshotName_eq, String.utf8ByteSize_append]
  omega

theorem isName_snapshotName (revision : Int64) : IsName (snapshotName revision) := by
  have hchars : ∀ c ∈ (snapshotName revision).toList, c ≠ '/' ∧ c ≠ '\x00' := by
    intro c hc
    rw [snapshotName_eq, String.toList_append, List.mem_append] at hc
    rcases hc with hc | hc
    · rcases Decimal.repr_chars hc with hdigit | rfl
      · constructor <;> rintro rfl <;> revert hdigit <;> decide
      · decide
    · have hall : ".json".toList.all (fun c => c ≠ '/' && c ≠ '\x00') = true := by decide
      simpa using List.all_eq_true.mp hall c hc
  have hlong : 5 < (snapshotName revision).utf8ByteSize := by
    have hsuffix : ".json".utf8ByteSize = 5 := rfl
    have hne := String.utf8ByteSize_eq_zero_iff.not.mpr (Decimal.repr_ne_empty revision.toInt)
    rw [snapshotName_eq, String.utf8ByteSize_append]
    omega
  refine ⟨⟨?_, ?_, ?_, fun h => (hchars _ h).1 rfl⟩, fun h => (hchars _ h).2 rfl,
    Nat.le_trans (utf8ByteSize_snapshotName_le revision) (by decide)⟩
  all_goals
    intro h
    rw [h] at hlong
    revert hlong
    decide

end Layout

end ConfigStore
