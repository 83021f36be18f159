import ConfigStore.Files.Directory
import ConfigStore.Proofs.Files.Restoring

/-!
# Removing a directory that holds nothing but files

The files are deleted one by one, each of them recorded before it goes, and the directory is removed
last. While this is under way the tree lacks exactly the files of the log (`Files.Cleared`), so
replaying the log gives back the tree as it was.

* `Files.deleteEach_outcome` deletes files until one of them has a path that is no path.
* `Files.replay_same` is the way back.
* `Files.clean_outcome` removes the directory or leaves the tree as it was.
* `Files.Clearable` says which directories can be removed, and `Files.clean_removes_or_restores`
  what becomes of any path.
-/

namespace ConfigStore

open Node Disk

namespace Files

variable {disk disk' : Node} {path : Path} {p place : Place} {name : String}

/-! ## Deleting one file -/

theorem delete_file (hleads : Leads path place disk) (hdir : disk.kindAt? place = some .dir)
    (hname : IsName name) (htext : checkText (path.join name) = .ok ()) {content : Bytes}
    (hfile : disk.kindAt? (place ++ [name]) = some (.file content)) (undo : UndoLog) :
    delete (path.join name) ⟨disk, undo⟩
      = .ok () ⟨disk.erase (place ++ [name]), undo ++ [⟨path.join name, some content⟩]⟩ := by
  simp only [delete, bind, EStateM.bind, LoggedAction.lift, read?, look, LoggedAction.record,
    remove, change, readFile_join hleads hdir hname htext hfile,
    removeFile_join hleads hdir hname htext hfile]

theorem delete_absent (hleads : Leads path place disk) (hdir : disk.kindAt? place = some .dir)
    (hname : IsName name) (htext : checkText (path.join name) = .ok ())
    (hnone : disk.kindAt? (place ++ [name]) = none) (undo : UndoLog) :
    delete (path.join name) ⟨disk, undo⟩ = .ok () ⟨disk, undo⟩ := by
  simp only [delete, bind, EStateM.bind, LoggedAction.lift, read?, look,
    readFile_join_none hleads hdir hname htext hnone]
  rfl

theorem delete_refused {refusal : Refusal} (htext : checkText path = .error refusal)
    (ledger : Ledger) : ∃ failure, delete path ledger = .error failure ledger := by
  have hread := readFile_refused htext ledger.disk
  have hne : refusal ≠ .notFound := fun hmissing =>
    checkText_ne_notFound path (hmissing ▸ htext)
  refine ⟨.disk (.read path) refusal, ?_⟩
  cases refusal <;> first
    | exact absurd rfl hne
    | simp only [delete, bind, EStateM.bind, LoggedAction.lift, read?, look, hread]

/-! ## Deleting many files -/

/-- Some files of the directory at `p` are gone; everything else is as it was. -/
structure Cleared (p : Place) (gone : List String) (disk disk' : Node) : Prop where
  distinct : disk'.Distinct
  absent : ∀ n ∈ gone, disk'.kindAt? (p ++ [n]) = none
  frame : ∀ q, (∀ n ∈ gone, q ≠ p ++ [n]) → disk'.kindAt? q = disk.kindAt? q
  apart : ∀ q, ¬p <+: q → ¬q <+: p → disk'.at? q = disk.at? q

/-- What the log holds when some files of a directory are gone. -/
def logOf (path : Path) (p : Place) (disk : Node) (gone : List String) : UndoLog :=
  gone.map fun n => ⟨path.join n, disk.content? (p ++ [n])⟩

theorem logOf_nil (path : Path) (p : Place) (disk : Node) : logOf path p disk [] = [] := rfl

namespace Cleared

variable {gone : List String}

theorem nil (hd : disk.Distinct) (p : Place) : Cleared p [] disk disk :=
  ⟨hd, fun _ h => absurd h List.not_mem_nil, fun _ _ => rfl, fun _ _ _ => rfl⟩

theorem same (h : Cleared p [] disk disk') : Same disk' disk :=
  fun q => h.frame q fun _ hn => absurd hn List.not_mem_nil

/-- A place is as it was, or it is that of a file that is gone. -/
theorem eq_or_absent (h : Cleared p gone disk disk') (q : Place) :
    disk'.kindAt? q = disk.kindAt? q ∨ disk'.kindAt? q = none ∧ ∃ n ∈ gone, q = p ++ [n] := by
  by_cases hq : ∃ n ∈ gone, q = p ++ [n]
  · obtain ⟨n, hn, rfl⟩ := hq
    exact .inr ⟨h.absent n hn, n, hn, rfl⟩
  · exact .inl (h.frame q fun n hn heq => hq ⟨n, hn, heq⟩)

theorem old_file (h : Cleared p gone disk disk') {q : Place} {content : Bytes}
    (hq : disk'.kindAt? q = some (.file content)) : disk.kindAt? q = some (.file content) := by
  rcases h.eq_or_absent q with hsame | ⟨hnone, -⟩
  · rwa [hsame] at hq
  · rw [hnone] at hq
    cases hq

/-- All directories are still there if only files are gone. -/
theorem dir (h : Cleared p gone disk disk')
    (hfiles : ∀ n ∈ gone, ∃ content, disk.kindAt? (p ++ [n]) = some (.file content)) {q : Place}
    (hq : disk.kindAt? q = some .dir) : disk'.kindAt? q = some .dir := by
  rw [h.frame q, hq]
  rintro n hn rfl
  obtain ⟨content, hcontent⟩ := hfiles n hn
  rw [hcontent] at hq
  cases hq

theorem concat (h : Cleared p gone disk disk')
    (hleaf : ∀ next rest, disk'.kindAt? (p ++ [name] ++ next :: rest) = none) :
    Cleared p (gone ++ [name]) disk (disk'.erase (p ++ [name])) := by
  have herase := kindAt?_erase_leaf h.distinct (by simp) hleaf
  refine ⟨h.distinct.erase _, fun n hn => ?_, fun q hq => ?_, fun q hpq hqp => ?_⟩
  · rw [herase]
    split
    · rfl
    next hne =>
      rcases List.mem_append.mp hn with hn | hn
      · exact h.absent n hn
      · exact absurd (by rw [List.mem_singleton.mp hn]) hne
  · rw [herase, if_neg (hq name (by simp))]
    exact h.frame q fun n hn => hq n (by simp [hn])
  · rw [erase, at?_alter_in_apart h.distinct hpq hqp, h.apart q hpq hqp]

theorem uncons {content : Bytes} (h : Cleared p (name :: gone) disk disk') (hname : name ∉ gone)
    (hdir : disk'.kindAt? p = some .dir)
    (hfile : disk.kindAt? (p ++ [name]) = some (.file content)) :
    Cleared p gone disk (disk'.put (p ++ [name]) (.file content)) := by
  have hgone := h.absent name (List.mem_cons_self ..)
  have hput := kindAt?_put_file h.distinct hdir (by rw [hgone]; simp) content
  refine ⟨h.distinct.put (distinct_file content) _, fun n hn => ?_, fun q hq => ?_,
    fun q hpq hqp => ?_⟩
  · have hne : p ++ [n] ≠ p ++ [name] := by simpa using ne_of_mem_of_not_mem hn hname
    rw [hput, if_neg hne, h.absent n (List.mem_cons_of_mem _ hn)]
  · rw [hput]
    split
    next heq => rw [heq, hfile]
    next hne =>
      refine h.frame q ?_
      intro n hn
      rcases List.mem_cons.mp hn with rfl | hn
      · exact hne
      · exact hq n hn
  · rw [put, at?_alter_in_apart h.distinct hpq hqp, h.apart q hpq hqp]

/-- Nothing is left in a directory that held nothing but the files that are gone. -/
theorem children_eq_nil (h : Cleared p gone disk disk')
    (hall : ∀ n, disk.kindAt? (p ++ [n]) ≠ none → n ∈ gone) {children : List (String × Node)}
    (hchildren : disk'.at? p = some (.dir children)) : children = [] := by
  by_contra hne
  obtain ⟨entry, rest, rfl⟩ := List.exists_cons_of_ne_nil hne
  have hthere := (mem_names_iff h.distinct hchildren).mp (List.mem_cons_self ..)
  rcases h.eq_or_absent (p ++ [entry.1]) with hsame | ⟨hnone, -⟩
  · rw [hsame] at hthere
    exact (hsame ▸ hthere) (h.absent _ (hall _ hthere))
  · exact hthere hnone

end Cleared

/-- Files are deleted in turn until one of them has a path that is no path. -/
theorem deleteEach_outcome {gone : List String} {files : List (String × Node)}
    (hleads : Leads path p disk) (hdir : disk.kindAt? p = some .dir)
    (hnodup : (gone ++ files.map (·.1)).Nodup)
    (hnames : ∀ n ∈ files.map (·.1), IsName n)
    (hfiles : ∀ n ∈ gone ++ files.map (·.1), ∃ content,
      disk.kindAt? (p ++ [n]) = some (.file content))
    (htexts : ∀ n ∈ gone, checkText (path.join n) = .ok ())
    (hcleared : Cleared p gone disk disk') :
    (∃ disk'', files.forM (fun child => delete (path.join child.1)) ⟨disk', logOf path p disk gone⟩
          = .ok () ⟨disk'', logOf path p disk (gone ++ files.map (·.1))⟩ ∧
        (∀ n ∈ files.map (·.1), checkText (path.join n) = .ok ()) ∧
        Cleared p (gone ++ files.map (·.1)) disk disk'') ∨
      ∃ failure disk'' gone',
        files.forM (fun child => delete (path.join child.1)) ⟨disk', logOf path p disk gone⟩
          = .error failure ⟨disk'', logOf path p disk gone'⟩ ∧
        (∃ n ∈ files.map (·.1), checkText (path.join n) ≠ .ok ()) ∧
        gone' <+: gone ++ files.map (·.1) ∧ (∀ n ∈ gone', checkText (path.join n) = .ok ()) ∧
        Cleared p gone' disk disk'' := by
  induction files generalizing gone disk' with
  | nil =>
    rw [List.map_nil, List.append_nil]
    exact .inl ⟨disk', rfl, fun n hn => absurd hn List.not_mem_nil, hcleared⟩
  | cons file files ih =>
    have hmem : file.1 ∈ (file :: files).map (·.1) := List.mem_cons_self ..
    have hgone : ∀ n ∈ gone, ∃ content, disk.kindAt? (p ++ [n]) = some (.file content) :=
      fun n hn => hfiles n (by simp [hn])
    cases htext : checkText (path.join file.1) with
    | error refusal =>
      obtain ⟨failure, herror⟩ := delete_refused htext ⟨disk', logOf path p disk gone⟩
      refine .inr ⟨failure, disk', gone, ?_, ⟨file.1, hmem, by simp [htext]⟩, ?_, htexts, hcleared⟩
      · simp only [List.forM_eq_forM, List.forM_cons, bind, EStateM.bind, herror]
      · exact List.prefix_append _ _
    | ok text =>
      obtain ⟨content, hcontent⟩ := hfiles file.1 (List.mem_append_right _ hmem)
      have hfresh : ∀ n ∈ gone, p ++ [file.1] ≠ p ++ [n] := by
        intro n hn heq
        have hne := (List.nodup_append.mp hnodup).2.2 n hn file.1 hmem
        exact hne (by simpa using heq.symm)
      have hfile : disk'.kindAt? (p ++ [file.1]) = some (.file content) := by
        rw [hcleared.frame _ hfresh, hcontent]
      have hleads' : Leads path p disk' := hleads.mono fun q hq => hcleared.dir hgone hq
      have hdelete := delete_file hleads' (hcleared.dir hgone hdir) (hnames _ hmem) htext hfile
        (logOf path p disk gone)
      have hlog : logOf path p disk gone ++ [⟨path.join file.1, some content⟩]
          = logOf path p disk (gone ++ [file.1]) := by
        simp [logOf, content?_eq_some_iff.mpr hcontent]
      have hstep := hcleared.concat (kindAt?_append_cons_eq_none (by rw [hfile]; simp))
      have hsplit : gone ++ (file :: files).map (·.1) = gone ++ [file.1] ++ files.map (·.1) := by
        simp
      rw [hsplit] at hnodup hfiles ⊢
      have htexts' : ∀ n ∈ gone ++ [file.1], checkText (path.join n) = .ok () := by
        intro n hn
        rcases List.mem_append.mp hn with hn | hn
        · exact htexts n hn
        · exact List.mem_singleton.mp hn ▸ htext
      rw [hlog] at hdelete
      simp only [List.forM_eq_forM, List.forM_cons, bind, EStateM.bind, hdelete]
      rcases ih hnodup (fun n hn => hnames n (List.mem_cons_of_mem _ hn)) hfiles htexts' hstep with
        ⟨disk'', hok, hall, hcleared'⟩ | ⟨failure, disk'', gone', herror, ⟨n, hn, hnot⟩, hend⟩
      · refine .inl ⟨disk'', hok, fun n hn => ?_, hcleared'⟩
        rcases List.mem_cons.mp hn with rfl | hn
        · exact htext
        · exact hall n hn
      · exact .inr ⟨failure, disk'', gone', herror, ⟨n, List.mem_cons_of_mem _ hn, hnot⟩, hend⟩

/-! ## The way back -/

/-- Replaying the log brings back the files that are gone. -/
theorem replay_same {gone : List String} (hleads : Leads path p disk)
    (hdir : disk.kindAt? p = some .dir) (hnodup : gone.Nodup) (hnames : ∀ n ∈ gone, IsName n)
    (htexts : ∀ n ∈ gone, checkText (path.join n) = .ok ())
    (hfiles : ∀ n ∈ gone, ∃ content, disk.kindAt? (p ++ [n]) = some (.file content))
    (hcleared : Cleared p gone disk disk') :
    ((logOf path p disk gone).replay disk').Distinct ∧
      Same ((logOf path p disk gone).replay disk') disk := by
  induction gone generalizing disk' with
  | nil => exact ⟨hcleared.distinct, hcleared.same⟩
  | cons n gone ih =>
    have hmem : n ∈ n :: gone := List.mem_cons_self ..
    have hrest : ∀ m ∈ gone, m ∈ n :: gone := fun m hm => List.mem_cons_of_mem _ hm
    obtain ⟨hname, hnodup⟩ := List.nodup_cons.mp hnodup
    obtain ⟨content, hcontent⟩ := hfiles n hmem
    have hleads' : Leads path p disk' := hleads.mono fun q hq => hcleared.dir hfiles hq
    have hdir' := hcleared.dir hfiles hdir
    have hfree : disk'.kindAt? (p ++ [n]) ≠ some .dir := by
      rw [hcleared.absent n hmem]
      simp
    have hrestore : (UndoRecord.mk (path.join n) (some content)).restore disk'
        = disk'.put (p ++ [n]) (.file content) := by
      simp only [UndoRecord.restore,
        makeDirs_parent (hnames n hmem).toIsPiece hleads' hdir' (htexts n hmem),
        writeFile_join hleads' hdir' (hnames n hmem) (htexts n hmem) hfree]
    have hstep := hcleared.uncons hname hdir' hcontent
    have hlog : logOf path p disk (n :: gone)
        = ⟨path.join n, some content⟩ :: logOf path p disk gone := by
      simp [logOf, content?_eq_some_iff.mpr hcontent]
    rw [hlog, UndoLog.replay, List.foldl_cons, hrestore]
    exact ih hnodup (fun m hm => hnames m (hrest m hm)) (fun m hm => htexts m (hrest m hm))
      (fun m hm => hfiles m (hrest m hm)) hstep

/-! ## The whole directory -/

/-- What stood at or below a place is gone, and nothing else has changed. -/
structure Removed (p : Place) (disk disk' : Node) : Prop where
  distinct : disk'.Distinct
  absent : ∀ q, disk'.kindAt? (p ++ q) = none
  frame : ∀ q, ¬p <+: q → disk'.kindAt? q = disk.kindAt? q

theorem Cleared.removed {gone : List String} (h : Cleared p gone disk disk') (hp : p ≠ []) :
    Removed p disk (disk'.erase p) where
  distinct := h.distinct.erase _
  absent := kindAt?_erase_append h.distinct hp
  frame := by
    intro q hq
    rw [kindAt?_erase_of_not_below h.distinct hq]
    exact h.frame q fun n _ heq => hq (heq ▸ List.prefix_append _ _)

/-- A directory can be removed if it holds nothing but files with paths that are paths. -/
def Cleanable (path : Path) (p : Place) (disk : Node) : Prop :=
  ∀ n, disk.kindAt? (p ++ [n]) ≠ none →
    disk.kindAt? (p ++ [n]) ≠ some .dir ∧ checkText (path.join n) = .ok ()

theorem clean_eq {children : List (String × Node)} (h : Disk.entries disk path = .ok children) :
    clean path disk = LoggedAction.allOrNothing (do
      (children.filter (!·.2.isDir)).forM fun child => delete (path.join child.1)
      .lift (removeDir path)) disk := by
  simp only [clean, h]

theorem mem_fileNames_iff (hd : disk.Distinct) {children : List (String × Node)}
    (h : disk.at? p = some (.dir children)) {n : String} :
    n ∈ (children.filter (!·.2.isDir)).map (·.1) ↔
      ∃ content, disk.kindAt? (p ++ [n]) = some (.file content) := by
  simp only [List.mem_map, List.mem_filter, Prod.exists, exists_and_right, exists_eq_right,
    mem_entries_iff hd h, kindAt?_eq_file_iff]
  constructor
  · rintro ⟨node, hnode, hkind⟩
    cases node with
    | file content => exact ⟨content, hnode⟩
    | dir entries => cases hkind
  · rintro ⟨content, hcontent⟩
    exact ⟨_, hcontent, rfl⟩

/-- A directory is removed with its files, or the tree stays as it was. -/
theorem clean_outcome (hd : disk.Distinct) (hleads : Leads path p disk)
    (hempty : path.isEmpty = false) (htext : checkText path = .ok ())
    (hdir : disk.kindAt? p = some .dir)
    (hnamed : ∀ n, disk.kindAt? (p ++ [n]) ≠ none → IsName n) :
    ((p ≠ [] ∧ path.endsInDot = false ∧ Cleanable path p disk) ∧ ∃ disk',
        clean path disk = .ok () disk' ∧ Removed p disk disk') ∨
      ¬(p ≠ [] ∧ path.endsInDot = false ∧ Cleanable path p disk) ∧ ∃ failure disk',
        clean path disk = .error failure disk' ∧ disk'.Distinct ∧ Same disk' disk := by
  obtain ⟨children, hchildren⟩ := kindAt?_eq_dir_iff.mp hdir
  rw [clean_eq (entries_of_leads hleads hempty htext hchildren)]
  -- the files among the children, and what is known of their names
  set files := children.filter (!·.2.isDir) with hfilesDef
  have hfile : ∀ n, n ∈ files.map (·.1) ↔
      ∃ content, disk.kindAt? (p ++ [n]) = some (.file content) :=
    fun n => mem_fileNames_iff hd hchildren
  have hnodup : (files.map (·.1)).Nodup :=
    (hd _ _ hchildren).sublist (List.Sublist.map _ List.filter_sublist)
  have hnames : ∀ n ∈ files.map (·.1), IsName n := by
    intro n hn
    obtain ⟨content, hcontent⟩ := (hfile n).mp hn
    exact hnamed n (by simp [hcontent])
  rcases deleteEach_outcome hleads hdir hnodup hnames (fun n hn => (hfile n).mp hn)
      (fun n hn => absurd hn List.not_mem_nil) (.nil hd p) with
    ⟨disk', hok, htexts, hcleared⟩ |
      ⟨failure, disk', gone, herror, ⟨n, hn, hnot⟩, hgone, htexts, hcleared⟩
  · rw [List.nil_append] at hok hcleared
    rw [logOf_nil] at hok
    have hkept : ∀ q, disk.kindAt? q = some .dir → disk'.kindAt? q = some .dir := fun q hq =>
      hcleared.dir (fun n hn => (hfile n).mp hn) hq
    obtain ⟨children', hchildren'⟩ := kindAt?_eq_dir_iff.mp (hkept _ hdir)
    -- the directory is empty by now, unless it holds directories
    have hflat : (children' = []) ↔ ∀ n, disk.kindAt? (p ++ [n]) ≠ some .dir := by
      refine ⟨fun hnil n hn => ?_, fun hnone => ?_⟩
      · cases hnil ▸ (mem_names_iff hcleared.distinct hchildren').mpr (by rw [hkept _ hn]; simp)
      · refine hcleared.children_eq_nil (fun n hn => (hfile n).mpr ?_) hchildren'
        obtain ⟨kind, hkind⟩ := Option.ne_none_iff_exists'.mp hn
        cases kind with
        | file content => exact ⟨content, hkind⟩
        | dir => exact absurd hkind (hnone n)
    rcases removeDir_outcome (hleads.mono hkept) hempty htext hchildren' with
      ⟨htop, hdot, hnil, hremove⟩ | ⟨hnot, refusal, hremove⟩
    · refine .inl ⟨⟨htop, hdot, fun n hn => ⟨hflat.mp hnil n, htexts n ?_⟩⟩, disk'.erase p, ?_,
        hcleared.removed htop⟩
      · obtain ⟨kind, hkind⟩ := Option.ne_none_iff_exists'.mp hn
        cases kind with
        | file content => exact (hfile n).mpr ⟨content, hkind⟩
        | dir => exact absurd hkind (hflat.mp hnil n)
      · simp only [LoggedAction.allOrNothing, bind, EStateM.bind, hok, LoggedAction.lift,
          removeDir, change, hremove]
    · refine .inr ⟨fun h => hnot ⟨h.1, h.2.1, hflat.mpr fun n hn => ?_⟩,
        .disk (.removeDir path) refusal, _, ?_, replay_same hleads hdir hnodup hnames htexts
          (fun n hn => (hfile n).mp hn) hcleared⟩
      · exact (h.2.2 n (by simp [hn])).1 hn
      · simp only [LoggedAction.allOrNothing, bind, EStateM.bind, hok, LoggedAction.lift,
          removeDir, change, hremove]
  · rw [List.nil_append] at hgone
    rw [logOf_nil] at herror
    refine .inr ⟨fun h => ?_, failure, _, ?_, replay_same hleads hdir (hnodup.sublist hgone.sublist)
      (fun n hn => hnames n (hgone.subset hn)) htexts (fun n hn => (hfile n).mp (hgone.subset hn))
      hcleared⟩
    · obtain ⟨content, hcontent⟩ := (hfile n).mp hn
      exact hnot (h.2.2 n (by simp [hcontent])).2
    · simp only [LoggedAction.allOrNothing, bind, EStateM.bind, herror]

/-- A directory below the root is removed with its files, or the tree stays as it was. -/
theorem clean_descend {root : Path} {base : Place} {names : List String}
    (hg : Grounded root base disk) (hnames : ∀ n ∈ names, IsName n) (hne : names ≠ [])
    (htext : checkText (root.descend names) = .ok ())
    (hdir : disk.kindAt? (base ++ names) = some .dir)
    (hnamed : ∀ n, disk.kindAt? (base ++ names ++ [n]) ≠ none → IsName n) :
    (Cleanable (root.descend names) (base ++ names) disk ∧ ∃ disk',
        clean (root.descend names) disk = .ok () disk' ∧ Removed (base ++ names) disk disk') ∨
      ¬Cleanable (root.descend names) (base ++ names) disk ∧ ∃ failure disk',
        clean (root.descend names) disk = .error failure disk' ∧ disk'.Distinct ∧
          Same disk' disk := by
  have hleads := hg.leads.descend hnames hdir
  have hdot : (root.descend names).endsInDot = false := by
    obtain ⟨front, last, rfl⟩ := (List.eq_nil_or_concat names).resolve_left hne
    rw [List.concat_eq_append] at hnames ⊢
    rw [Path.descend_concat]
    exact Path.endsInDot_join _ (hnames last (by simp)).toIsPiece
  have htop : base ++ names ≠ [] := by simp [hne]
  have hempty := Path.isEmpty_descend root hne fun n hn => (hnames n hn).toIsPiece
  rcases clean_outcome hg.distinct hleads hempty htext hdir hnamed with ⟨h, hok⟩ | ⟨hnot, herror⟩
  · exact .inl ⟨h.2.2, hok⟩
  · exact .inr ⟨fun h => hnot ⟨htop, hdot, h⟩, herror⟩

/-- The path leads to a directory that can be removed: it is not the top of the tree, the path does
not end in a dot, and the directory holds nothing but files with paths that are paths. -/
structure Clearable (path : Path) (p : Place) (disk : Node) : Prop where
  leads : resolve disk path = .ok p
  isDir : disk.kindAt? p = some .dir
  notTop : p ≠ []
  named : path.endsInDot = false
  cleanable : Cleanable path p disk

/-- Wherever a path leads, and in whatever order a directory is listed: if there is nothing at the
path, nothing is done; if there is a directory that can be removed, it is removed with its files and
nothing else changes; in all other cases there is a failure, and the tree is as it was. -/
theorem clean_removes_or_restores (hd : disk.Distinct) (hnamed : WellNamed disk) (path : Path) :
    (Disk.entries disk path = .error .notFound ∧ clean path disk = .ok () disk) ∨
    (∃ p, Clearable path p disk ∧
      ∃ disk', clean path disk = .ok () disk' ∧ Removed p disk disk') ∨
    Disk.entries disk path ≠ .error .notFound ∧ (¬∃ p, Clearable path p disk) ∧
      ∃ failure disk', clean path disk = .error failure disk' ∧ disk'.Distinct ∧
        Same disk' disk := by
  -- only a directory that can be listed can be removed
  have hlisted : ∀ p, Clearable path p disk → ∃ children,
      Disk.entries disk path = .ok children := by
    intro p h
    obtain ⟨children, hchildren⟩ := kindAt?_eq_dir_iff.mp h.isDir
    have hresolve := h.leads
    exact ⟨children, by rw [Disk.entries, find, hresolve]; simp only [bind, Except.bind, hchildren]⟩
  cases hentries : Disk.entries disk path with
  | error refusal =>
    by_cases hmissing : refusal = .notFound
    · subst hmissing
      exact .inl ⟨rfl, by simp only [clean, hentries]⟩
    · refine .inr (.inr ⟨fun h => hmissing (Except.error.inj h), ?_,
        .disk (.readDir path) refusal, disk, ?_, hd, fun _ => rfl⟩)
      · rintro ⟨p, h⟩
        obtain ⟨children, hok⟩ := hlisted p h
        cases hentries.symm.trans hok
      · cases refusal <;> first
          | exact absurd rfl hmissing
          | simp only [clean, hentries]
  | ok children =>
    obtain ⟨p, hresolve, hleads, hchildren⟩ := resolve_of_entries hentries
    have hdir := kindAt?_eq_dir_iff.mpr ⟨children, hchildren⟩
    rcases clean_outcome hd hleads (isEmpty_of_entries hentries) (checkText_of_entries hentries)
      hdir (hnamed p) with
      ⟨⟨htop, hdot, hclean⟩, hok⟩ | ⟨hnot, herror⟩
    · exact .inr (.inl ⟨p, ⟨hresolve, hdir, htop, hdot, hclean⟩, hok⟩)
    · refine .inr (.inr ⟨by simp, ?_, herror⟩)
      rintro ⟨q, h⟩
      cases hresolve.symm.trans h.leads
      exact hnot ⟨h.notTop, h.named, h.cleanable⟩

/-- A directory with two files, what is listed between them, and a file beside the directory. -/
def crate (between : List (String × Node)) : Node :=
  .dir [("crate", .dir (("a", .file [1]) :: between ++ [("b", .file [2])])), ("c", .file [3])]

theorem clean_removes_or_restores_sample :
    ((crate []).Distinct ∧ WellNamed (crate []) ∧ ∃ disk',
      clean (Path.ofText "crate") (crate []) = .ok () disk' ∧
        Removed ["crate"] (crate []) disk') ∧
    (crate [("dir", .dir [])]).Distinct ∧ WellNamed (crate [("dir", .dir [])]) ∧
      ∃ failure disk', clean (Path.ofText "crate") (crate [("dir", .dir [])])
          = .error failure disk' ∧ disk'.Distinct ∧ Same disk' (crate [("dir", .dir [])]) := by
  constructor
  · have hproper : (crate []).Distinct ∧ WellNamed (crate []) := by decide
    refine ⟨hproper.1, hproper.2, ?_⟩
    rcases clean_removes_or_restores hproper.1 hproper.2 (Path.ofText "crate") with
      h | ⟨p, hclear, hok⟩ | ⟨-, -, h⟩
    · cases h.1
    · cases hclear.leads
      exact hok
    · obtain ⟨failure, disk', herror, -⟩ := h
      cases herror
  · have hproper : (crate [("dir", .dir [])]).Distinct ∧ WellNamed (crate [("dir", .dir [])]) := by
      decide
    refine ⟨hproper.1, hproper.2, ?_⟩
    rcases clean_removes_or_restores hproper.1 hproper.2 (Path.ofText "crate") with
      h | ⟨p, hclear, -⟩ | ⟨-, -, h⟩
    · cases h.1
    · cases hclear.leads
      exact absurd rfl (hclear.cleanable "dir" (by decide)).1
    · exact h

end Files

end ConfigStore
