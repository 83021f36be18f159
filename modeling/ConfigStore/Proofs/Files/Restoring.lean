import ConfigStore.Proofs.Disk.Changing
import ConfigStore.Proofs.Files.Looking
import ConfigStore.Files.Undo

/-!
# Restoring what files held

An undo record that says what a path holds changes nothing when it is restored. Once the file has
been overwritten, restoring the record gives back the tree from before, exactly as it was.

* `Files.write_outcome` says what writing a file does, wherever its path leads and whatever is
  there.
* `UndoRecord.restore_eq_self` and `UndoRecord.restore_overwritten` restore a record.
-/

namespace ConfigStore

open Node Disk

variable {disk disk' : Node} {path : Path} {place : Place} {name : String} {content : Bytes}
  {prior : Option Bytes}

/-! ## The directory of a file -/

namespace Path

theorem parent_join (p : Path) (h : IsPiece name) : (p.join name).parent = ⟨trimIdle p.stem⟩ := by
  rw [parent, pieces_join p h.noSlash, trimIdle_concat h.isIdle_eq_false, List.dropLast_concat]

theorem trimIdle_prefix (pieces : List String) : trimIdle pieces <+: pieces :=
  List.rdropWhile_prefix isIdle pieces

/-- Without idle pieces at its end, a path does not end in a dot. -/
theorem endsInDot_trimIdle (pieces : List String) :
    (Path.mk (trimIdle pieces)).endsInDot = false := by
  rcases List.eq_nil_or_concat (trimIdle pieces) with hnil | ⟨front, last, hconcat⟩
  · rw [hnil]
    rfl
  · have hlast : isIdle last = false := by
      have hne : pieces.rdropWhile isIdle ≠ [] := by
        show trimIdle pieces ≠ []
        simp [hconcat]
      have hnot := List.rdropWhile_last_not isIdle pieces hne
      have hend : (pieces.rdropWhile isIdle).getLast hne = last := by
        have hsplit : pieces.rdropWhile isIdle = front ++ [last] :=
          hconcat.trans (List.concat_eq_append ..)
        simp [hsplit]
      rw [hend] at hnot
      simpa using hnot
    simp only [isIdle, Bool.or_eq_false_iff, beq_eq_false_iff_ne] at hlast
    simp [endsInDot, trimSlash, hconcat, hlast.1, hlast.2]

end Path

namespace Disk

/-- If a disk takes the text of a path, it takes that of its front. -/
theorem checkText_of_prefix {p q : Path} (hle : p.pieces <+: q.pieces)
    (h : checkText q = .ok ()) : checkText p = .ok () := by
  obtain ⟨rest, hrest⟩ := hle
  rw [checkText] at h ⊢
  split at h
  · cases h
  next hnul =>
    split at h
    · cases h
    next hlong =>
      rw [hasNul, ← hrest, List.any_append, Bool.or_eq_true, not_or] at hnul
      rw [isPathTooLong, Path.byteLength_eq, ← hrest, Path.width_append, decide_eq_true_eq] at hlong
      rw [hasNul, if_neg hnul.1, isPathTooLong, Path.byteLength_eq, if_neg]
      rw [decide_eq_true_eq]
      omega

/-- A path whose text is refused is not one that leads nowhere. -/
theorem checkText_ne_notFound (path : Path) : checkText path ≠ .error .notFound := by
  intro h
  rw [checkText] at h
  split at h
  · cases h
  · split at h <;> cases h

/-- The directory in which a path ends need not be created. -/
theorem makeDirs_parent (hname : IsPiece name) (hleads : Leads path place disk)
    (hdir : disk.kindAt? place = some .dir) (htext : checkText (path.join name) = .ok ()) :
    makeDirs (path.join name).parent disk = (.ok (), disk) := by
  have hparent := checkText_of_prefix (parent_pieces_le (path.join name)) htext
  rw [Path.parent_join path hname] at hparent ⊢
  rw [makeDirs, hparent, Path.endsInDot_trimIdle]
  exact makeDirsFrom_front hleads hdir (Path.trimIdle_prefix path.stem)

/-- Idle pieces at the end of a path stay in the directory before them. -/
theorem follow_of_trimIdle {here : Place} {pieces : List String}
    (h : follow disk here (Path.trimIdle pieces) = .ok place)
    (hdir : disk.kindAt? place = some .dir) : follow disk here pieces = .ok place := by
  induction pieces using List.reverseRecOn with
  | nil => exact h
  | append_singleton pieces piece ih =>
    cases hidle : Path.isIdle piece with
    | false => rwa [Path.trimIdle_concat hidle] at h
    | true =>
      have htrim : Path.trimIdle (pieces ++ [piece]) = Path.trimIdle pieces := by
        simp [Path.trimIdle, hidle]
      obtain ⟨entries, hentries⟩ := kindAt?_eq_dir_iff.mp hdir
      rw [follow_append, ih (htrim ▸ h), Except.bind, follow, hentries]
      dsimp only
      rw [if_pos hidle, follow]

/-- The directory that has been created for a file can be found. -/
theorem leads_of_makeDirs_parent (hd : disk.Distinct) (htop : disk.kindAt? [] = some .dir)
    (hname : IsPiece name) (h : makeDirs (path.join name).parent disk = (.ok (), disk')) :
    ∃ here, Leads path here disk' ∧ disk'.kindAt? here = some .dir := by
  rw [Path.parent_join path hname, makeDirs, Path.endsInDot_trimIdle] at h
  split at h
  · cases h
  · obtain ⟨here, hfollow, hdir⟩ := follow_of_makeDirsFrom hd htop h
    exact ⟨here, follow_of_trimIdle hfollow hdir, hdir⟩

/-- What is read at the end of a path hangs on what stands there. -/
theorem readFile_join_eq (hleads : Leads path place disk) (hdir : disk.kindAt? place = some .dir)
    (hname : IsName name) (htext : checkText (path.join name) = .ok ()) :
    readFile disk (path.join name) =
      match disk.kindAt? (place ++ [name]) with
      | some (.file content) => .ok content
      | some .dir => .error .isADirectory
      | none => .error .notFound := by
  cases hkind : disk.kindAt? (place ++ [name]) with
  | none => exact readFile_join_none hleads hdir hname htext hkind
  | some kind =>
    cases kind with
    | file content => exact readFile_join hleads hdir hname htext hkind
    | dir =>
      obtain ⟨entries, hentries⟩ := kindAt?_eq_dir_iff.mp hkind
      rw [readFile, find_join hleads hdir hname htext hentries]
      rfl

end Disk

/-! ## Restoring one file -/

namespace Files

theorem checkText_of_read? (h : read? path disk = .ok prior disk') : checkText path = .ok () := by
  obtain ⟨-, hprior⟩ := read?_eq_ok_iff.mp h
  cases htext : checkText path with
  | ok text => rfl
  | error refusal =>
    rw [readFile_refused htext] at hprior
    cases prior with
    | none =>
      rw [Except.error.inj hprior] at htext
      exact absurd htext (checkText_ne_notFound path)
    | some content => cases hprior

/-- What a path holds was the same before something was put beside it. -/
theorem read?_beside (hleads : Leads path place disk) (hdir : disk.kindAt? place = some .dir)
    (hkept : ∀ q, disk.kindAt? q = some .dir → disk'.kindAt? q = some .dir) (hname : IsName name)
    (hsame : disk'.kindAt? (place ++ [name]) = disk.kindAt? (place ++ [name]))
    (h : read? (path.join name) disk' = .ok prior disk') :
    read? (path.join name) disk = .ok prior disk := by
  have htext := checkText_of_read? h
  have hprior := (read?_eq_ok_iff.mp h).2
  rw [readFile_join_eq (hleads.mono hkept) (hkept place hdir) hname htext, hsame,
    ← readFile_join_eq hleads hdir hname htext] at hprior
  exact read?_eq_ok_iff.mpr ⟨rfl, hprior⟩

end Files

namespace UndoRecord

open Files

/-- A record of what a path holds changes nothing. -/
theorem restore_eq_self (hname : IsPiece name)
    (h : read? (path.join name) disk = .ok prior disk) :
    (UndoRecord.mk (path.join name) prior).restore disk = disk := by
  have htext := checkText_of_read? h
  obtain ⟨-, hprior⟩ := read?_eq_ok_iff.mp h
  cases prior with
  | none =>
    have hread : readFile disk (path.join name) = .error .notFound := hprior
    rw [restore]
    cases hremove : removeFile (path.join name) disk with
    | error refusal => rfl
    | ok disk' =>
      obtain ⟨here, content, hleads, hdir, hfits, hfile, -⟩ := removeFile_inv hname hremove
      rw [readFile_join hleads hdir hfits htext hfile] at hread
      cases hread
  | some content =>
    obtain ⟨here, hleads, hdir, hfits, hfile⟩ := readFile_join_inv hname hprior
    have hput : disk.put (here ++ [name]) (.file content) = disk :=
      alter_eq_self (kindAt?_eq_file_iff.mp hfile).symm
    rw [restore]
    simp only [makeDirs_parent hname hleads hdir htext,
      writeFile_join hleads hdir hfits htext (by rw [hfile]; simp), hput]

/-- A file that has been overwritten is restored, and the tree is the one from before. -/
theorem restore_overwritten (hd : disk.Distinct) (hname : IsPiece name)
    (hread : read? (path.join name) disk = .ok prior disk)
    (hwrite : writeFile (path.join name) content disk = .ok disk') :
    (UndoRecord.mk (path.join name) prior).restore disk' = disk := by
  have htext := checkText_of_read? hread
  obtain ⟨here, hleads, hdir, hfits, hfree, rfl⟩ := writeFile_inv hname hwrite
  have hput := kindAt?_put_file hd hdir hfree content
  have hkept : ∀ q, disk.kindAt? q = some .dir →
      (disk.put (here ++ [name]) (.file content)).kindAt? q = some .dir := by
    intro q hq
    rw [hput, if_neg, hq]
    rintro rfl
    exact hfree hq
  have hleads' := hleads.mono hkept
  have hdir' := hkept here hdir
  have hfile' := (hput (here ++ [name])).trans (if_pos rfl)
  obtain ⟨-, hprior⟩ := read?_eq_ok_iff.mp hread
  cases prior with
  | none =>
    have hnone : disk.kindAt? (here ++ [name]) = none := by
      cases hkind : disk.kindAt? (here ++ [name]) with
      | none => rfl
      | some kind =>
        have hfound := readFile_join_eq hleads hdir hfits htext
        rw [hkind, hprior] at hfound
        cases kind <;> cases hfound
    rw [restore]
    simp only [removeFile_join hleads' hdir' hfits htext hfile']
    exact erase_put (by simp) hnone _
  | some content' =>
    obtain ⟨here', hleads₂, -, -, hfile⟩ := readFile_join_inv hname hprior
    obtain rfl : here = here' := Except.ok.inj (hleads.symm.trans hleads₂)
    rw [restore]
    simp only [makeDirs_parent hname hleads' hdir' htext,
      writeFile_join hleads' hdir' hfits htext (by rw [hfile']; simp)]
    exact put_back (by simp) (kindAt?_eq_file_iff.mp hfile) _

end UndoRecord

/-! ## Writing one file -/

namespace Files

/-- A file is written in the tree in which its directories have been created; if it is not, they
stay, and the log has no record but of what the file holds. -/
theorem write_outcome (path : Path) (content : Bytes) (disk : Node) (undo : UndoLog) :
    (∃ failure undo', write path content ⟨disk, undo⟩
        = .error failure ⟨(makeDirs path.parent disk).2, undo'⟩ ∧
      (undo' = undo ∨ ∃ prior, undo' = undo ++ [⟨path, prior⟩] ∧
        read? path (makeDirs path.parent disk).2 = .ok prior (makeDirs path.parent disk).2 ∧
        (makeDirs path.parent disk).1 = .ok ())) ∨
      ∃ prior disk', write path content ⟨disk, undo⟩ = .ok () ⟨disk', undo ++ [⟨path, prior⟩]⟩ ∧
        read? path (makeDirs path.parent disk).2 = .ok prior (makeDirs path.parent disk).2 ∧
        writeFile path content (makeDirs path.parent disk).2 = .ok disk' := by
  rcases hmade : makeDirs path.parent disk with ⟨refusal | u, made⟩
  · refine .inl ⟨.disk (.makeDir path.parent) refusal, undo, ?_, .inl rfl⟩
    simp only [write, bind, EStateM.bind, LoggedAction.lift, ensureDir, hmade]
  have hensure : ensureDir path.parent disk = .ok () made := by simp only [ensureDir, hmade]
  rcases (looks_look (.read path) _).outcome made with ⟨prior, hread⟩ | ⟨failure, hfailure⟩
  · replace hread : read? path made = .ok prior made := hread
    cases hwrite : writeFile path content made with
    | error refusal =>
      refine .inl ⟨.disk (.write path) refusal, _, ?_, .inr ⟨prior, rfl, hread, rfl⟩⟩
      simp only [write, bind, EStateM.bind, LoggedAction.lift, LoggedAction.record, hensure, hread,
        overwrite, change, hwrite]
    | ok disk' =>
      refine .inr ⟨prior, disk', ?_, hread, rfl⟩
      simp only [write, bind, EStateM.bind, LoggedAction.lift, LoggedAction.record, hensure, hread,
        overwrite, change, hwrite]
  · replace hfailure : read? path made = .error failure made := hfailure
    refine .inl ⟨failure, undo, ?_, .inl rfl⟩
    simp only [write, bind, EStateM.bind, LoggedAction.lift, hensure, hfailure]

end Files

end ConfigStore
