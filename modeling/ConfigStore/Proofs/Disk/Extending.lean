import ConfigStore.Disk.Operation
import ConfigStore.Proofs.Disk.Revising

/-!
# Trees with more directories

A disk creates directories one by one and does not take them back if it is refused. Whatever the
path, and whether or not all of it can be created, the tree has then the same files as before, and
more directories at most.

* `Disk.Extended` says that a tree has only gained directories; `Disk.Extended.content?` that no
  file is affected.
* `Disk.makeDirs_extended` says so of creating directories.
-/

namespace ConfigStore.Disk

open Node

variable {disk disk' disk'' : Node}

/-- Nothing but directories was added. -/
structure Extended (disk disk' : Node) : Prop where
  distinct : disk'.Distinct
  kept : ∀ q, disk.kindAt? q ≠ none → disk'.kindAt? q = disk.kindAt? q
  added : ∀ q, disk.kindAt? q = none → disk'.kindAt? q ≠ none → disk'.kindAt? q = some .dir

namespace Extended

theorem refl (hd : disk.Distinct) : Extended disk disk :=
  ⟨hd, fun _ _ => rfl, fun _ h h' => absurd h h'⟩

theorem trans (h : Extended disk disk') (h' : Extended disk' disk'') : Extended disk disk'' where
  distinct := h'.distinct
  kept := fun q hq => (h'.kept q (by rwa [h.kept q hq])).trans (h.kept q hq)
  added := by
    intro q hq hq''
    by_cases hq' : disk'.kindAt? q = none
    · exact h'.added q hq' hq''
    · rw [h'.kept q hq']
      exact h.added q hq hq'

theorem dir (h : Extended disk disk') {q : Place} (hq : disk.kindAt? q = some .dir) :
    disk'.kindAt? q = some .dir := by
  rw [h.kept q (by simp [hq]), hq]

theorem file_iff (h : Extended disk disk') {q : Place} {content : Bytes} :
    disk'.kindAt? q = some (.file content) ↔ disk.kindAt? q = some (.file content) := by
  constructor
  · intro hq
    by_cases hnone : disk.kindAt? q = none
    · have hdir := h.added q hnone (by simp [hq])
      rw [hq] at hdir
      cases hdir
    · rwa [← h.kept q hnone]
  · intro hq
    rw [h.kept q (by simp [hq]), hq]

/-- Directories that are added change the content of no file. -/
theorem content? (h : Extended disk disk') (q : Place) : disk'.content? q = disk.content? q :=
  Option.ext fun content => by rw [content?_eq_some_iff, content?_eq_some_iff, h.file_iff]

/-- A new directory, or none if there is no directory for it. -/
theorem put_dir (hd : disk.Distinct) {here : Place} {name : String}
    (hnone : disk.kindAt? (here ++ [name]) = none) :
    Extended disk (disk.put (here ++ [name]) (.dir [])) := by
  by_cases hdir : disk.kindAt? here = some .dir
  · have hput := kindAt?_put_dir hd hdir (by rw [hnone]; simp)
    refine ⟨hd.put distinct_dir_nil _, fun q hq => ?_, fun q hq hq' => ?_⟩
    · rw [hput, if_neg]
      rintro rfl
      exact hq hnone
    · rw [hput] at hq' ⊢
      split at hq'
      next heq => rw [if_pos heq]
      next => exact absurd hq hq'
  · rw [put_of_not_dir hdir]
    exact .refl hd

end Extended

/-! ## Creating directories -/

theorem makeDirsFrom_extended (hd : disk.Distinct) (here : Place) (pieces : List String) :
    Extended disk (makeDirsFrom disk here pieces).2 := by
  induction pieces generalizing disk here with
  | nil => exact .refl hd
  | cons piece pieces ih =>
    rw [makeDirsFrom]
    split
    · exact ih hd here
    · split
      · exact ih hd here.dropLast
      · split
        · exact .refl hd
        · split
          · exact .refl hd
          · exact ih hd _
          next hnone =>
            have hput := Extended.put_dir hd (kindAt?_eq_none_iff.mpr hnone)
            exact hput.trans (ih hput.distinct _)

/-- Creating directories changes no file, whatever the path is and however it ends. -/
theorem makeDirs_extended (hd : disk.Distinct) (path : Path) :
    Extended disk (makeDirs path disk).2 := by
  unfold makeDirs
  split
  · exact .refl hd
  · split
    · have hparent := makeDirsFrom_extended hd [] path.parent.pieces
      split
      next heq => rwa [heq] at hparent
      next heq => rwa [heq] at hparent
    · exact makeDirsFrom_extended hd [] path.pieces

end ConfigStore.Disk
