import ConfigStore.Proofs.Files.Cleaning
import ConfigStore.Proofs.Files.Looking
import ConfigStore.Proofs.Files.Moving

/-!
# Writing a file and deleting files

A file below the root is written together with the directories that lead to it. Files are also
deleted one by one, where it does not matter whether a deletion succeeds.

* `Files.write_descend` writes a file below the root, if nothing stands in the way.
* `Files.forgetEach_outcome` deletes files of one directory, as far as they can be deleted;
  `Files.cleared_of_forgetEach` says what is left if all of them can.
-/

namespace ConfigStore.Files

open Node Disk

variable {disk disk' disk'' : Node} {path root : Path} {base place p : Place}
  {name : String} {names : List String} {content : Bytes}

/-! ## Writing -/

/-- A file has been written, and all directories that lead to it exist. -/
structure Written (p : Place) (name : String) (content : Bytes) (disk disk' : Node) : Prop where
  distinct : disk'.Distinct
  view : ∀ q, disk'.kindAt? q =
    if q = p ++ [name] then some (.file content)
    else if q <+: p then some .dir
    else disk.kindAt? q

/-- Directories stay directories. -/
theorem Written.dir (h : Written p name content disk disk') {q : Place}
    (hleaf : disk.kindAt? (p ++ [name]) ≠ some .dir) (hq : disk.kindAt? q = some .dir) :
    disk'.kindAt? q = some .dir := by
  rw [h.view]
  split
  next heq => exact absurd (heq ▸ hq) hleaf
  · split
    · rfl
    · exact hq

theorem overwrite_join (hleads : Leads path place disk) (hdir : disk.kindAt? place = some .dir)
    (hname : IsName name) (htext : checkText (path.join name) = .ok ()) {content : Bytes}
    (hfree : disk.kindAt? (place ++ [name]) ≠ some .dir) :
    overwrite (path.join name) content disk
      = .ok () (disk.put (place ++ [name]) (.file content)) := by
  simp only [overwrite, change, writeFile_join hleads hdir hname htext hfree]

theorem read?_join (hleads : Leads path place disk) (hdir : disk.kindAt? place = some .dir)
    (hname : IsName name) (htext : checkText (path.join name) = .ok ())
    (hfree : disk.kindAt? (place ++ [name]) ≠ some .dir) :
    read? (path.join name) disk = .ok (disk.content? (place ++ [name])) disk := by
  cases hkind : disk.kindAt? (place ++ [name]) with
  | none =>
    have hcontent : disk.content? (place ++ [name]) = none := by
      rw [content?, kindAt?_eq_none_iff.mp hkind]
    rw [hcontent]
    exact read?_of_notFound (readFile_join_none hleads hdir hname htext hkind)
  | some kind =>
    cases kind with
    | dir => exact absurd hkind hfree
    | file content =>
      rw [content?_eq_some_iff.mpr hkind]
      exact read?_of_ok (readFile_join hleads hdir hname htext hkind)

/-- A file below the root is written if no file stands on the way to it and no directory stands in
its place. -/
theorem write_descend (hg : Grounded root base disk) (hnames : ∀ n ∈ names, IsName n)
    (hne : names ≠ []) (hname : IsName name)
    (htext : checkText ((root.descend names).join name) = .ok ())
    (hfree : Unblocked base names disk)
    (hleaf : disk.kindAt? (base ++ names ++ [name]) ≠ some .dir) (content : Bytes)
    (undo : UndoLog) :
    ∃ disk' undo', write ((root.descend names).join name) content ⟨disk, undo⟩
        = .ok () ⟨disk', undo'⟩ ∧
      Written (base ++ names) name content disk disk' := by
  have hparent : ((root.descend names).join name).parent = root.descend names :=
    Path.parent_descend_join root hne (fun n hn => (hnames n hn).toIsPiece) hname.toIsPiece
  have htext' := checkText_of_join hname.toIsPiece htext
  obtain ⟨disk₁, hgrown, ⟨-, -, hdir, hensure⟩ | ⟨hnot, -⟩⟩ := ensureDir_descend hg hnames hne
  · have hleads : Leads (root.descend names) (base ++ names) disk₁ :=
      (hg.leads.mono fun _ => hgrown.dir).descend hnames hdir
    have habove : ¬base ++ names ++ [name] <+: base ++ names := not_below_above _ name []
    have hleaf₁ : disk₁.kindAt? (base ++ names ++ [name]) ≠ some .dir := by
      rwa [hgrown.eq_of_not_above habove]
    refine ⟨disk₁.put (base ++ names ++ [name]) (.file content),
      undo ++ [⟨(root.descend names).join name, disk₁.content? (base ++ names ++ [name])⟩], ?_,
      hgrown.distinct.put (distinct_file content) _, fun q => ?_⟩
    · simp only [write, bind, EStateM.bind, LoggedAction.lift, LoggedAction.record, hparent,
        hensure, read?_join hleads hdir hname htext hleaf₁,
        overwrite_join hleads hdir hname htext hleaf₁]
    · rw [kindAt?_put_file hgrown.distinct hdir hleaf₁]
      split
      · rfl
      · split
        next hq => exact kindAt?_eq_dir_above hq hdir
        next hq => exact hgrown.eq_of_not_above hq
  · exact absurd ⟨htext', hfree⟩ hnot

/-! ## Deleting -/

theorem delete_occupied (hleads : Leads path place disk) (hdir : disk.kindAt? place = some .dir)
    (hname : IsName name) (htext : checkText (path.join name) = .ok ())
    (hkind : disk.kindAt? (place ++ [name]) = some .dir) (undo : UndoLog) :
    ∃ failure, delete (path.join name) ⟨disk, undo⟩ = .error failure ⟨disk, undo⟩ := by
  obtain ⟨entries, hentries⟩ := kindAt?_eq_dir_iff.mp hkind
  have hread : readFile disk (path.join name) = .error .isADirectory := by
    rw [readFile, find_join hleads hdir hname htext hentries]
    rfl
  refine ⟨.disk (.read (path.join name)) .isADirectory, ?_⟩
  simp only [delete, bind, EStateM.bind, LoggedAction.lift,
    read?_of_error hread (by simp)]

/-- A file is deleted, or there is none, or it cannot be deleted; then nothing has changed. -/
theorem forget_outcome (hd : disk.Distinct) (hleads : Leads path place disk)
    (hdir : disk.kindAt? place = some .dir) (hname : IsName name) :
    ((∃ content, disk.kindAt? (place ++ [name]) = some (.file content)) ∧ ∃ disk',
        (delete (path.join name)).forgetful disk = .ok () disk' ∧
        Cleared place [name] disk disk') ∨
      disk.kindAt? (place ++ [name]) = none ∧
        (delete (path.join name)).forgetful disk = .ok () disk ∨
      ∃ failure, (delete (path.join name)).forgetful disk = .error failure disk := by
  cases htext : checkText (path.join name) with
  | error refusal =>
    obtain ⟨failure, hfailure⟩ := delete_refused htext ⟨disk, []⟩
    refine .inr (.inr ⟨failure, ?_⟩)
    simp only [LoggedAction.forgetful, hfailure]
  | ok _ =>
    cases hkind : disk.kindAt? (place ++ [name]) with
    | none =>
      refine .inr (.inl ⟨rfl, ?_⟩)
      simp only [LoggedAction.forgetful, delete_absent hleads hdir hname htext hkind]
    | some kind =>
      cases kind with
      | dir =>
        obtain ⟨failure, hfailure⟩ := delete_occupied hleads hdir hname htext hkind []
        refine .inr (.inr ⟨failure, ?_⟩)
        simp only [LoggedAction.forgetful, hfailure]
      | file content =>
        have hdelete := delete_file hleads hdir hname htext hkind []
        have hleaf : ∀ next rest, disk.kindAt? (place ++ [name] ++ next :: rest) = none :=
          kindAt?_append_cons_eq_none (by rw [hkind]; simp)
        refine .inl ⟨⟨content, rfl⟩, disk.erase (place ++ [name]), ?_,
          (Cleared.nil hd place).concat hleaf⟩
        simp only [LoggedAction.forgetful, hdelete]

/-- What is gone after a second round is gone in all. -/
theorem Cleared.trans {gone gone' : List String} (h : Cleared p gone disk disk')
    (h' : Cleared p gone' disk' disk'') : Cleared p (gone ++ gone') disk disk'' where
  distinct := h'.distinct
  absent := by
    intro n hn
    by_cases hlast : n ∈ gone'
    · exact h'.absent n hlast
    · have hfirst := (List.mem_append.mp hn).resolve_right hlast
      rw [h'.frame _ ?_, h.absent n hfirst]
      intro m hm heq
      have hnm : n = m := by simpa using heq
      exact hlast (hnm ▸ hm)
  frame := by
    intro q hq
    rw [h'.frame q fun n hn => hq n (List.mem_append_right _ hn),
      h.frame q fun n hn => hq n (List.mem_append_left _ hn)]
  apart q hpq hqp := (h'.apart q hpq hqp).trans (h.apart q hpq hqp)

/-- Deletes files of one directory until one of them cannot be deleted. -/
def forgetEach (path : Path) (names : List String) : DiskAction Unit :=
  names.forM fun name => (delete (path.join name)).forgetful

theorem forgetEach_cons_ok (h : (delete (path.join name)).forgetful disk = .ok () disk') :
    forgetEach path (name :: names) disk = forgetEach path names disk' := by
  simp only [forgetEach, List.forM_eq_forM, List.forM_cons, bind, EStateM.bind, h]

theorem forgetEach_cons_error {failure : Failure}
    (h : (delete (path.join name)).forgetful disk = .error failure disk') :
    forgetEach path (name :: names) disk = .error failure disk' := by
  simp only [forgetEach, List.forM_eq_forM, List.forM_cons, bind, EStateM.bind, h]

/-- Some of the files are deleted, and nothing else changes. -/
theorem forgetEach_outcome (hd : disk.Distinct) (hleads : Leads path place disk)
    (hdir : disk.kindAt? place = some .dir) (names : List String) (hnames : ∀ n ∈ names, IsName n) :
    ∃ gone disk', (∀ n ∈ gone, n ∈ names ∧ ∃ content,
        disk.kindAt? (place ++ [n]) = some (.file content)) ∧
      Cleared place gone disk disk' ∧
      (forgetEach path names disk = .ok () disk' ∨
        ∃ failure, forgetEach path names disk = .error failure disk') := by
  induction names generalizing disk with
  | nil => exact ⟨[], disk, fun _ h => (List.not_mem_nil h).elim, .nil hd place, .inl rfl⟩
  | cons name names ih =>
    obtain ⟨hname, hnames⟩ := List.forall_mem_cons.mp hnames
    rcases forget_outcome hd hleads hdir hname with
      ⟨⟨content, hfile⟩, disk₁, hforget, hcleared⟩ | ⟨-, hforget⟩ | ⟨failure, hforget⟩
    · have hkept : ∀ q, disk.kindAt? q = some .dir → disk₁.kindAt? q = some .dir := by
        intro q hq
        refine hcleared.dir (fun n hn => ?_) hq
        rw [List.mem_singleton.mp hn]
        exact ⟨content, hfile⟩
      obtain ⟨gone, disk', hgone, hcleared', houtcome⟩ :=
        ih hcleared.distinct (hleads.mono hkept) (hkept place hdir) hnames
      refine ⟨[name] ++ gone, disk', fun n hn => ?_, hcleared.trans hcleared', ?_⟩
      · rcases List.mem_cons.mp hn with rfl | hn
        · exact ⟨List.mem_cons_self .., content, hfile⟩
        · obtain ⟨hmem, content', hfile'⟩ := hgone n hn
          refine ⟨List.mem_cons_of_mem _ hmem, content', ?_⟩
          rwa [hcleared.frame] at hfile'
          intro m hm heq
          rw [heq, hcleared.absent m hm] at hfile'
          cases hfile'
      · rwa [forgetEach_cons_ok hforget]
    · obtain ⟨gone, disk', hgone, hcleared', houtcome⟩ := ih hd hleads hdir hnames
      refine ⟨gone, disk', fun n hn => ⟨List.mem_cons_of_mem _ (hgone n hn).1, (hgone n hn).2⟩,
        hcleared', ?_⟩
      rwa [forgetEach_cons_ok hforget]
    · exact ⟨[], disk, fun _ h => (List.not_mem_nil h).elim, .nil hd place,
        .inr ⟨failure, forgetEach_cons_error hforget⟩⟩

/-- If nothing is in the way, all of the files are gone, those that were not there among them. -/
theorem cleared_of_forgetEach (hd : disk.Distinct) (hleads : Leads path place disk)
    (hdir : disk.kindAt? place = some .dir) (hnames : ∀ n ∈ names, IsName n)
    (h : forgetEach path names disk = .ok () disk') : Cleared place names disk disk' := by
  induction names generalizing disk with
  | nil =>
    cases h
    exact .nil hd place
  | cons name names ih =>
    obtain ⟨hname, hnames⟩ := List.forall_mem_cons.mp hnames
    rcases forget_outcome hd hleads hdir hname with
      ⟨⟨content, hfile⟩, disk₁, hforget, hcleared⟩ | ⟨hnone, hforget⟩ | ⟨failure, hforget⟩
    · have hkept : ∀ q, disk.kindAt? q = some .dir → disk₁.kindAt? q = some .dir := by
        intro q hq
        refine hcleared.dir (fun n hn => ?_) hq
        rw [List.mem_singleton.mp hn]
        exact ⟨content, hfile⟩
      rw [forgetEach_cons_ok hforget] at h
      exact hcleared.trans (ih hcleared.distinct (hleads.mono hkept) (hkept place hdir) hnames h)
    · have hcleared : Cleared place [name] disk disk :=
        ⟨hd, List.forall_mem_singleton.mpr hnone, fun _ _ => rfl, fun _ _ _ => rfl⟩
      rw [forgetEach_cons_ok hforget] at h
      exact hcleared.trans (ih hd hleads hdir hnames h)
    · rw [forgetEach_cons_error hforget] at h
      cases h

/-- Files whose paths are paths are all deleted. -/
theorem forgetEach_files (hd : disk.Distinct) (hleads : Leads path place disk)
    (hdir : disk.kindAt? place = some .dir) (hnames : ∀ n ∈ names, IsName n) (hnodup : names.Nodup)
    (htexts : ∀ n ∈ names, checkText (path.join n) = .ok ())
    (hfiles : ∀ n ∈ names, ∃ content, disk.kindAt? (place ++ [n]) = some (.file content)) :
    ∃ disk', forgetEach path names disk = .ok () disk' ∧ Cleared place names disk disk' := by
  induction names generalizing disk with
  | nil => exact ⟨disk, rfl, .nil hd place⟩
  | cons name names ih =>
    obtain ⟨hname, hnames⟩ := List.forall_mem_cons.mp hnames
    obtain ⟨htext, htexts⟩ := List.forall_mem_cons.mp htexts
    obtain ⟨⟨content, hfile⟩, hfiles⟩ := List.forall_mem_cons.mp hfiles
    obtain ⟨hnew, hnodup⟩ := List.nodup_cons.mp hnodup
    have hdelete := delete_file hleads hdir hname htext hfile []
    have hleaf : ∀ next rest, disk.kindAt? (place ++ [name] ++ next :: rest) = none :=
      kindAt?_append_cons_eq_none (by rw [hfile]; simp)
    have hcleared := (Cleared.nil hd place).concat hleaf
    have hkept : ∀ q, disk.kindAt? q = some .dir →
        (disk.erase (place ++ [name])).kindAt? q = some .dir := by
      intro q hq
      refine hcleared.dir (fun n hn => ?_) hq
      rw [List.mem_singleton.mp hn]
      exact ⟨content, hfile⟩
    obtain ⟨disk', hrest, hcleared'⟩ := ih hcleared.distinct (hleads.mono hkept)
      (hkept place hdir) hnames hnodup htexts fun n hn => by
        obtain ⟨content', hfile'⟩ := hfiles n hn
        refine ⟨content', ?_⟩
        rw [hcleared.frame _ fun m hm heq => ?_, hfile']
        have : n = name := by simpa [List.mem_singleton.mp hm] using heq
        exact hnew (this ▸ hn)
    have hforget : (delete (path.join name)).forgetful disk
        = .ok () (disk.erase (place ++ [name])) := by
      simp only [LoggedAction.forgetful, hdelete]
    exact ⟨disk', by rw [forgetEach_cons_ok hforget, hrest], hcleared.trans hcleared'⟩

end ConfigStore.Files
