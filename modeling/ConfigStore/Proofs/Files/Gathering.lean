import ConfigStore.Proofs.Disk.Overlooking
import ConfigStore.Proofs.Files.Walking

/-!
# Gathering the files below a directory

The files below a directory are gathered with a list of directories that still have to be listed.
Listing one of them puts the directories in it in front of the list and notes down the files in it,
so that the order in which directories are listed depends on the order of their entries. What is
gathered does not: it is sorted before it is read.

* `Files.Walks` says what the walk with its list of pending directories comes to.
* `Files.walks_later` is a walk through all directories of a list of entries, and
  `Files.walks_unlistable` one that comes to a directory that cannot be listed.
* `Files.filesBelow_gathers` says that the walk comes to one end, that its outcome is what is read
  below the directory, and what that is, in whatever order entries are listed.
-/

namespace ConfigStore

open Node Disk

/-- A path has no text, or nothing stands at its end or somewhere on the way. -/
def Disk.Missing (path : Path) (disk : Node) : Prop :=
  path.isEmpty = true ∨ ∃ front back here, path.pieces = front ++ back ∧
    follow disk [] front = .ok here ∧ disk.at? here = none

theorem Disk.Missing.find {path : Path} {disk : Node} (h : Missing path disk)
    (htext : checkText path = .ok ()) : find disk path = .error .notFound := by
  cases hempty : path.isEmpty with
  | true =>
    rw [Disk.find, resolve_of_isEmpty hempty]
    rfl
  | false =>
    obtain ⟨front, back, here, hpieces, hfront, hnone⟩ := h.resolve_left (by simp [hempty])
    rw [Disk.find, resolve_of_follow hempty htext hpieces hfront]
    cases back with
    | nil => simp only [follow, bind, Except.bind, hnone]
    | cons name rest =>
      rw [follow_missing (kindAt?_eq_none_iff.mpr hnone)]
      rfl

/-- All names on the way to something that stands on a well-named disk are proper. -/
theorem Disk.WellNamed.isName {disk : Node} (h : WellNamed disk) (here place : Place)
    (hplace : disk.kindAt? (here ++ place) ≠ none) : ∀ name ∈ place, IsName name := by
  intro name hmem
  obtain ⟨front, back, rfl⟩ := List.append_of_mem hmem
  refine h (here ++ front) name fun hnone => hplace ?_
  have := kindAt?_cons_eq_none hnone back
  rwa [List.append_assoc] at this

namespace Files

/-! ## The walk -/

/-- The directories among the entries of a directory, the one that is listed last in front. -/
def later (dir : Path) (entries : List (String × Node)) : List Path :=
  ((entries.filter (·.2.isDir)).map (dir.join ·.1)).reverse

/-- The files among the entries of a directory, but for one of a certain name. -/
def noted (dir : Path) (except? : Option String) (entries : List (String × Node)) : List Path :=
  (entries.filter fun entry => !entry.2.isDir && some entry.1 != except?).map (dir.join ·.1)

/-- What a walk comes to that has the pending directories before it and the files it has found
behind it: the files that it has found in the end, or the failure to list a directory. -/
inductive Walks (disk : Node) (except? : Option String) :
    List Path → List Path → Except Failure (List Path) → Prop
  | done {found : List Path} : Walks disk except? [] found (.ok found)
  | refused {dir : Path} {pending found : List Path} {refusal : Refusal}
      (h : Disk.entries disk dir = .error refusal) :
      Walks disk except? (dir :: pending) found (.error (.disk (.readDir dir) refusal))
  | listed {dir : Path} {pending found : List Path} {entries : List (String × Node)}
      {outcome : Except Failure (List Path)} (h : Disk.entries disk dir = .ok entries)
      (rest : Walks disk except? (later dir entries ++ pending) (found ++ noted dir except? entries)
        outcome) :
      Walks disk except? (dir :: pending) found outcome

/-- Reads the files that a walk has found, in the order of their paths. -/
def readFound (outcome : Except Failure (List Path)) : DiskAction (List (Path × Bytes)) :=
  match outcome with
  | .error failure => throw failure
  | .ok found =>
    (sortBy (fun a b => Place.le a.pieces b.pieces) found).mapM fun file => do
      return (file, ← read file)

variable {disk : Node} {except? : Option String} {path : Path} {here : Place}
  {entries rest : List (String × Node)}

/-- A walk comes to one end only. -/
theorem Walks.unique {pending found : List Path} {a b : Except Failure (List Path)}
    (ha : Walks disk except? pending found a) (hb : Walks disk except? pending found b) :
    a = b := by
  induction ha with
  | done =>
    cases hb
    rfl
  | refused h =>
    cases hb with
    | refused h' => cases h.symm.trans h'; rfl
    | listed h' => cases h.symm.trans h'
  | listed h _ ih =>
    cases hb with
    | refused h' => cases h.symm.trans h'
    | listed h' hrest =>
      cases h.symm.trans h'
      exact ih hrest

/-! ## What is wanted -/

/-- The files among some entries and below them, but for those of a certain name. -/
def wantedFiles (except? : Option String) (entries : List (String × Node)) : List (Place × Bytes) :=
  (entryFiles entries).filter fun file => file.1.getLast? ≠ except?

theorem wantedFiles_file (name : String) (content : Bytes) :
    wantedFiles except? ((name, .file content) :: rest)
      = (if some name = except? then [] else [([name], content)]) ++ wantedFiles except? rest := by
  rw [wantedFiles, entryFiles, files, List.filter_append]
  by_cases h : some name = except? <;> simp [h, wantedFiles]

theorem wantedFiles_dir (name : String) (entries : List (String × Node)) :
    wantedFiles except? ((name, .dir entries) :: rest)
      = (wantedFiles except? entries).map (fun file => (name :: file.1, file.2))
        ++ wantedFiles except? rest := by
  rw [wantedFiles, entryFiles, files, List.filter_append, List.filter_map, wantedFiles]
  congr 2
  refine List.filter_congr fun file hfile => ?_
  obtain ⟨n, child, q, -, hplace, -⟩ := mem_entryFiles.mp hfile
  simp [hplace]

theorem later_dir (name : String) (entries : List (String × Node)) :
    later path ((name, .dir entries) :: rest) = later path rest ++ [path.join name] := by
  simp [later, isDir]

theorem noted_file (name : String) (content : Bytes) :
    noted path except? ((name, .file content) :: rest)
      = (if some name = except? then [] else [path.join name]) ++ noted path except? rest := by
  by_cases h : some name = except? <;> simp [h, noted, isDir]

theorem noted_dir (name : String) (entries : List (String × Node)) :
    noted path except? ((name, .dir entries) :: rest) = noted path except? rest := rfl

/-- What is wanted in a directory are the files noted down there, and those wanted below the
directories in it. -/
theorem noted_perm (path : Path) (except? : Option String) (entries : List (String × Node)) :
    (noted path except? entries ++
        (wantedFiles except? (entries.filter (·.2.isDir))).map (path.descend ·.1)).Perm
      ((wantedFiles except? entries).map (path.descend ·.1)) := by
  induction entries with
  | nil => exact .refl _
  | cons entry rest ih =>
    obtain ⟨name, content | children⟩ := entry
    · rw [noted_file, wantedFiles_file, List.filter_cons_of_neg (by simp [isDir]), List.map_append,
        List.append_assoc, apply_ite (List.map _)]
      exact ih.append_left _
    · rw [noted_dir, wantedFiles_dir, List.filter_cons_of_pos rfl, wantedFiles_dir, List.map_append,
        List.map_append]
      exact (List.perm_append_comm_assoc ..).trans (ih.append_left _)

/-! ## Walking through the directories of a list of entries -/

/-- A path leads to a directory in which certain entries stand. -/
structure Opens (disk : Node) (path : Path) (here : Place) (entries : List (String × Node)) :
    Prop where
  leads : Leads path here disk
  isDir : disk.kindAt? here = some .dir
  noNul : hasNul path = false
  standing : ∀ entry ∈ entries, disk.at? (here ++ [entry.1]) = some entry.2

namespace Opens

variable {entry : String × Node} {name : String} {children : List (String × Node)}

theorem tail (h : Opens disk path here (entry :: rest)) : Opens disk path here rest :=
  { h with standing := fun e hmem => h.standing e (.tail _ hmem) }

theorem isName (h : Opens disk path here (entry :: rest)) (hnamed : WellNamed disk) :
    IsName entry.1 :=
  hnamed here entry.1 (by simp [kindAt?, h.standing entry (List.mem_cons_self ..)])

/-- A directory that stands in a directory opens in turn. -/
theorem head (h : Opens disk path here ((name, .dir children) :: rest)) (hd : disk.Distinct)
    (hnamed : WellNamed disk) : Opens disk (path.join name) (here ++ [name]) children := by
  have hname := h.isName hnamed
  have hat := h.standing _ (List.mem_cons_self ..)
  exact ⟨h.leads.join h.isDir hname, kindAt?_eq_dir_iff.mpr ⟨children, hat⟩,
    hasNul_join h.noNul hname, fun e hmem => (mem_entries_iff hd hat).mp hmem⟩

/-- The path of a directory is too long, or it can be listed. -/
theorem entries_head (h : Opens disk path here ((name, .dir children) :: rest))
    (hnamed : WellNamed disk) : Disk.entries disk (path.join name) =
      if isPathTooLong (path.join name) then .error .pathTooLong else .ok children := by
  have hname := h.isName hnamed
  have hnul := hasNul_join h.noNul hname
  split
  next hlong =>
    have htext : checkText (path.join name) = .error .pathTooLong := by
      rw [checkText, hnul, hlong]
      rfl
    rw [Disk.entries, find, resolve_eq_reach (isEmpty_of_refused htext), reach, htext]
    rfl
  next hshort =>
    refine entries_of_leads (h.leads.join h.isDir hname) (Path.isEmpty_join path hname.toIsPiece) ?_
      (h.standing _ (List.mem_cons_self ..))
    rw [checkText, hnul, if_neg (by simp), if_neg hshort]

end Opens

/-- If every directory can be listed, a walk goes through all of them and finds what is wanted below
them, and goes on with what was pending before. -/
theorem walks_later (except? : Option String) (hd : disk.Distinct) (hnamed : WellNamed disk)
    (hopens : Opens disk path here entries) (hlistable : firstUnlistable path entries = none) :
    ∃ more, more.Perm ((wantedFiles except? (entries.filter (·.2.isDir))).map (path.descend ·.1)) ∧
      ∀ pending found outcome, Walks disk except? pending (found ++ more) outcome →
        Walks disk except? (later path entries ++ pending) found outcome := by
  fun_induction firstUnlistable path entries generalizing here with
  | case1 path => exact ⟨[], .refl _, fun pending found outcome h => by simpa [later] using h⟩
  | case2 path name content rest ih => exact ih hopens.tail hlistable
  | case3 path name children rest ihrest ihchildren =>
    obtain ⟨hrest, hshort, hchildren⟩ : firstUnlistable path rest = none ∧
        isPathTooLong (path.join name) = false ∧
          firstUnlistable (path.join name) children = none := by
      rw [Option.or_eq_none_iff] at hlistable
      refine ⟨hlistable.1, ?_⟩
      cases hlong : isPathTooLong (path.join name) <;> simp_all
    obtain ⟨others, hothers, hwalk⟩ := ihrest hopens.tail hrest
    obtain ⟨below, hbelow, hwalk'⟩ := ihchildren (hopens.head hd hnamed) hchildren
    have hentries := hopens.entries_head hnamed
    rw [if_neg (by simp [hshort])] at hentries
    refine ⟨others ++ (noted (path.join name) except? children ++ below), ?_, ?_⟩
    · rw [List.filter_cons_of_pos rfl, wantedFiles_dir, List.map_append, List.map_map]
      have hown := ((List.Perm.refl _).append hbelow).trans (noted_perm (path.join name) except? _)
      exact List.perm_append_comm.trans (hown.append hothers)
    · intro pending found outcome h
      rw [later_dir, List.append_assoc, List.singleton_append]
      refine hwalk _ _ _ (.listed hentries (hwalk' _ _ _ ?_))
      simpa only [List.append_assoc] using h

/-- A walk comes to the first directory that cannot be listed and ends there. -/
theorem walks_unlistable (hd : disk.Distinct) (hnamed : WellNamed disk)
    (hopens : Opens disk path here entries) {bad : Path}
    (hbad : firstUnlistable path entries = some bad) (pending found : List Path) :
    Walks disk except? (later path entries ++ pending) found
      (.error (.disk (.readDir bad) .pathTooLong)) := by
  fun_induction firstUnlistable path entries generalizing here pending found with
  | case1 path => cases hbad
  | case2 path name content rest ih => exact ih hopens.tail hbad pending found
  | case3 path name children rest ihrest ihchildren =>
    rw [later_dir, List.append_assoc, List.singleton_append]
    cases hrest : firstUnlistable path rest with
    | some first =>
      rw [hrest] at hbad
      cases hbad
      exact ihrest hopens.tail hrest _ found
    | none =>
      obtain ⟨others, -, hwalk⟩ := walks_later except? hd hnamed hopens.tail hrest
      refine hwalk _ _ _ ?_
      have hentries := hopens.entries_head hnamed
      rw [hrest, Option.none_or] at hbad
      split at hbad
      next hlong =>
        cases hbad
        rw [if_pos hlong] at hentries
        exact .refused hentries
      next hshort =>
        rw [if_neg hshort] at hentries
        exact .listed hentries (ihchildren (hopens.head hd hnamed) hbad pending _)

/-! ## Paths that are too long -/

/-- The first directory that cannot be listed stands there, and its path is too long. -/
theorem firstUnlistable_eq_some (hd : disk.Distinct) (hnamed : WellNamed disk)
    (hopens : Opens disk path here entries) {bad : Path}
    (hbad : firstUnlistable path entries = some bad) :
    ∃ place, place ≠ [] ∧ disk.kindAt? (here ++ place) = some .dir ∧ bad = path.descend place ∧
      isPathTooLong bad = true := by
  fun_induction firstUnlistable path entries generalizing here with
  | case1 path => cases hbad
  | case2 path name content rest ih => exact ih hopens.tail hbad
  | case3 path name children rest ihrest ihchildren =>
    rcases Option.or_eq_some_iff.mp hbad with hrest | ⟨-, hhead⟩
    · exact ihrest hopens.tail hrest
    · have hchild := hopens.head hd hnamed
      split at hhead
      next hlong =>
        cases hhead
        exact ⟨[name], List.cons_ne_nil _ _, hchild.isDir, rfl, hlong⟩
      next =>
        obtain ⟨place, -, hplace, rfl, hlong⟩ := ihchildren hchild hhead
        exact ⟨name :: place, List.cons_ne_nil _ _, by simpa using hplace, rfl, hlong⟩

/-- If every directory can be listed, none has a path that is too long. -/
theorem isPathTooLong_of_listable (hd : disk.Distinct) (hnamed : WellNamed disk)
    (hopens : Opens disk path here entries) (hlistable : firstUnlistable path entries = none) :
    ∀ entry ∈ entries, ∀ q, disk.kindAt? (here ++ entry.1 :: q) = some .dir →
      isPathTooLong (path.descend (entry.1 :: q)) = false := by
  fun_induction firstUnlistable path entries generalizing here with
  | case1 path => exact fun _ hmem => absurd hmem List.not_mem_nil
  | case2 path name content rest ih =>
    refine List.forall_mem_cons.mpr ⟨fun q hdir => ?_, ih hopens.tail hlistable⟩
    have hfile := hopens.standing _ (List.mem_cons_self ..)
    have hkind := kindAt?_append disk (here ++ [name]) q
    rw [hfile, List.append_assoc, List.singleton_append, hdir] at hkind
    cases q <;> cases hkind
  | case3 path name children rest ihrest ihchildren =>
    obtain ⟨hrest, hhead⟩ := Option.or_eq_none_iff.mp hlistable
    refine List.forall_mem_cons.mpr ⟨fun q hdir => ?_, ihrest hopens.tail hrest⟩
    split at hhead
    · cases hhead
    next hshort =>
      cases q with
      | nil => exact (Bool.not_eq_true _).mp hshort
      | cons next q =>
        have hat := hopens.standing _ (List.mem_cons_self ..)
        have hsplit : here ++ name :: next :: q = here ++ [name] ++ [next] ++ q := by simp
        have hnext : disk.kindAt? (here ++ [name] ++ [next]) ≠ none := by
          rw [kindAt?_eq_dir_above (List.prefix_append _ q) (hsplit ▸ hdir)]
          simp
        obtain ⟨entry, hentry, rfl⟩ := List.mem_map.mp ((mem_names_iff hd hat).mpr hnext)
        exact ihchildren (hopens.head hd hnamed) hhead entry hentry q (by simpa using hdir)

theorem readAt_of_long {file : Place × Bytes} (h : isPathTooLong (path.descend file.1) = true) :
    readAt path file disk = .error (.disk (.read (path.descend file.1)) .pathTooLong) disk := by
  rw [Path.descend] at h ⊢
  rw [readAt, h]
  rfl

theorem readAt_of_short {file : Place × Bytes} (h : ¬isPathTooLong (path.descend file.1) = true) :
    readAt path file disk = .ok (path.descend file.1, file.2) disk := by
  rw [Path.descend] at h ⊢
  rw [readAt, if_neg h]
  rfl

/-- Files are read one after the other until one has a path that is too long. -/
theorem mapM_readAt_error {files : List (Place × Bytes)} {failure : Failure} {disk' : Node}
    (h : files.mapM (readAt path) disk = .error failure disk') :
    ∃ file ∈ files, isPathTooLong (path.descend file.1) = true ∧
      failure = .disk (.read (path.descend file.1)) .pathTooLong := by
  induction files with
  | nil => cases h
  | cons file files ih =>
    rw [List.mapM_cons] at h
    simp only [bind, EStateM.bind] at h
    by_cases hlong : isPathTooLong (path.descend file.1) = true
    · rw [readAt_of_long hlong] at h
      cases h
      exact ⟨file, List.mem_cons_self .., hlong, rfl⟩
    · rw [readAt_of_short hlong] at h
      dsimp only at h
      split at h
      · cases h
      next herror =>
        cases h
        obtain ⟨other, hmem, hother⟩ := ih herror
        exact ⟨other, .tail _ hmem, hother⟩

/-! ## Reading what was found -/

/-- A file that was found is read unless its path is too long. -/
theorem read_below (hnamed : WellNamed disk) (hleads : Leads path here disk)
    (hnul : hasNul path = false) {place : Place} {content : Bytes} (hne : place ≠ [])
    (hcontent : disk.content? (here ++ place) = some content) :
    (do return (path.descend place, ← read (path.descend place)) :
      DiskAction (Path × Bytes)) disk = readAt path (place, content) disk := by
  have hkind := content?_eq_some_iff.mp hcontent
  have hnames := hnamed.isName here place (by simp [hkind])
  have hnul' := hasNul_descend hnul hnames
  by_cases hlong : isPathTooLong (path.descend place) = true
  · have htext : checkText (path.descend place) = .error .pathTooLong := by
      rw [checkText, hnul', hlong]
      rfl
    have hread := readFile_refused htext disk
    rw [readAt_of_long hlong]
    simp only [bind, EStateM.bind, read, look, hread]
  · obtain ⟨front, name, rfl⟩ := (List.eq_nil_or_concat place).resolve_left hne
    rw [List.concat_eq_append] at *
    have hfront : disk.kindAt? (here ++ front) = some .dir :=
      kindAt?_eq_dir_of_append (List.cons_ne_nil name [])
        (by rw [List.append_assoc, hkind]; simp)
    have hread : readFile disk (path.descend (front ++ [name])) = .ok content := by
      rw [Path.descend_concat]
      refine readFile_join
        (hleads.descend (fun n hn => hnames n (List.mem_append_left _ hn)) hfront) hfront
        (hnames name (by simp)) ?_ (by rwa [List.append_assoc])
      rw [← Path.descend_concat, checkText, hnul', if_neg (by simp), if_neg hlong]
    rw [readAt_of_short hlong]
    simp only [bind, EStateM.bind, read, look, hread]
    rfl

/-- Two lists of checks that agree one by one come to the same. -/
theorem mapM_congr_looks {α β : Type} {check check' : α → DiskAction β} {l : List α}
    (h : ∀ a ∈ l, check a disk = check' a disk) (hlooks : ∀ a, Looks (check' a)) :
    l.mapM check disk = l.mapM check' disk := by
  induction l with
  | nil => rfl
  | cons a l ih =>
    obtain ⟨ha, hl⟩ := List.forall_mem_cons.mp h
    rw [List.mapM_cons, List.mapM_cons]
    simp only [bind, EStateM.bind, ha]
    rcases (hlooks a).outcome disk with ⟨b, hok⟩ | ⟨failure, herror⟩
    · simp only [hok, ih hl]
    · simp only [herror]

theorem looks_readAt (path : Path) (file : Place × Bytes) : Looks (readAt path file) := by
  rw [readAt]
  split
  · exact .throw _
  · exact .pure _

/-- Files sorted by their places below a directory are sorted by their paths. -/
theorem sortBy_descend {files : List (Place × Bytes)} {found : List Path}
    (hfiles : ∀ file ∈ files, file.1 ≠ [] ∧ ∀ name ∈ file.1, IsPiece name)
    (hfound : found.Perm (files.map (path.descend ·.1))) :
    sortBy (fun a b => Place.le a.pieces b.pieces) found
      = (sortBy (fun a b => Place.le a.1 b.1) files).map (path.descend ·.1) := by
  have hpieces : ∀ file ∈ files, (path.descend file.1).pieces = path.stem ++ file.1 :=
    fun file hfile => Path.pieces_descend path (hfiles file hfile).1 (hfiles file hfile).2
  have hplaces := pairwise_sortBy (fun (a b : Place × Bytes) => Place.le_total a.1 b.1)
    (fun _ _ _ => Place.le_trans) files
  have hpaths := pairwise_sortBy (fun a b : Path => Place.le_total a.pieces b.pieces)
    (fun _ _ _ => Place.le_trans) found
  have hmapped : ((sortBy (fun a b => Place.le a.1 b.1) files).map (path.descend ·.1)).Pairwise
      fun a b => Place.le a.pieces b.pieces = true := by
    refine List.pairwise_map.mpr (hplaces.imp_of_mem fun ha hb hab => ?_)
    rwa [hpieces _ (mem_sortBy.mp ha), hpieces _ (mem_sortBy.mp hb), Place.le_append]
  have hperm := (sortBy_perm (fun a b : Path => Place.le a.pieces b.pieces) found).trans
    (hfound.trans ((sortBy_perm (fun a b => Place.le a.1 b.1) files).map (path.descend ·.1)).symm)
  refine hperm.eq_of_pairwise (fun a b _ _ hab hba => ?_) hpaths hmapped
  have hsame : a.pieces = b.pieces := Place.le_antisymm hab hba
  cases a
  cases b
  exact congrArg Path.mk hsame

/-- Reading what was found is reading the files in the order of their places. -/
theorem readFound_ok (hnamed : WellNamed disk) (hleads : Leads path here disk)
    (hnul : hasNul path = false) {files : List (Place × Bytes)}
    (hfiles : ∀ file ∈ files, file.1 ≠ [] ∧ disk.content? (here ++ file.1) = some file.2)
    {found : List Path} (hfound : found.Perm (files.map (path.descend ·.1))) :
    readFound (.ok found) disk
      = (sortBy (fun a b => Place.le a.1 b.1) files).mapM (readAt path) disk := by
  have hnames : ∀ file ∈ files, file.1 ≠ [] ∧ ∀ name ∈ file.1, IsPiece name :=
    fun file hfile => ⟨(hfiles file hfile).1, fun name hmem =>
      (hnamed.isName here file.1
        (by simp [content?_eq_some_iff.mp (hfiles file hfile).2]) name hmem).toIsPiece⟩
  rw [readFound, sortBy_descend hnames hfound, List.mapM_map]
  refine mapM_congr_looks (fun file hfile => ?_) (looks_readAt path)
  obtain ⟨hne, hcontent⟩ := hfiles file (mem_sortBy.mp hfile)
  exact read_below hnamed hleads hnul hne hcontent

/-! ## What is gathered -/

/-- What a walk from a directory comes to: the directories below it, and the files that are
wanted. -/
def Meets (disk : Node) (here : Place) (except? : Option String) (place : Place) : Prop :=
  place ≠ [] ∧ (disk.kindAt? (here ++ place) = some .dir ∨
    place.getLast? ≠ except? ∧ ∃ content, disk.content? (here ++ place) = some content)

theorem Meets.same {disk' : Node} (hsame : Same disk disk') {place : Place}
    (h : Meets disk' here except? place) : Meets disk here except? place := by
  obtain ⟨hne, hdir | ⟨hname, content, hcontent⟩⟩ := h
  · exact ⟨hne, .inl ((hsame _).trans hdir)⟩
  · exact ⟨hne, .inr ⟨hname, content, (content?_congr (hsame _)).trans hcontent⟩⟩

/-- What is gathered below a directory: every file whose own name is not the excluded one, once, in
the order of places and of paths. -/
structure Gathered (disk : Node) (path : Path) (here : Place) (except? : Option String)
    (files : List (Place × Bytes)) : Prop where
  mem_iff : ∀ place content, (place, content) ∈ files ↔
    place.getLast? ≠ except? ∧ disk.content? (here ++ place) = some content
  places_sorted : (files.map (·.1)).Pairwise Place.Precedes
  paths_sorted : (files.map fun file => (path.descend file.1).pieces).Pairwise Place.Precedes

/-- What is gathered does not show in which order the entries of a directory are listed. -/
theorem Gathered.eq_of_same {disk' : Node} (hsame : Same disk disk')
    {files files' : List (Place × Bytes)} (h : Gathered disk path here except? files)
    (h' : Gathered disk' path here except? files') : files = files' := by
  have hsorted := List.pairwise_map.mp h.places_sorted
  have hsorted' := List.pairwise_map.mp h'.places_sorted
  have hne : ∀ {a b : Place × Bytes}, Place.Precedes a.1 b.1 → a ≠ b :=
    fun hab heq => hab.2 (congrArg (·.1) heq)
  have hperm : files.Perm files' := by
    refine (List.perm_ext_iff_of_nodup (hsorted.imp hne) (hsorted'.imp hne)).mpr fun file => ?_
    rw [h.mem_iff, h'.mem_iff, content?_congr (hsame (here ++ file.1))]
  exact hperm.eq_of_pairwise (fun a b _ _ hab hba =>
    absurd (Place.le_antisymm hab.1 hba.1) hab.2) hsorted hsorted'

theorem mem_wantedFiles (hd : disk.Distinct) (hat : disk.at? here = some (.dir entries))
    {place : Place} {content : Bytes} : (place, content) ∈ wantedFiles except? entries ↔
      place.getLast? ≠ except? ∧ disk.content? (here ++ place) = some content := by
  have hfile : (place, content) ∈ entryFiles entries ↔
      (Node.dir entries).content? place = some content := mem_files_iff (hd.child hat)
  rw [wantedFiles, List.mem_filter, hfile, decide_eq_true_eq, and_comm, content?, content?,
    at?_append, hat]
  rfl

/-- A file below a directory stands at a place of its own. -/
theorem ne_nil_of_content? (hat : disk.at? here = some (.dir entries)) {place : Place}
    {content : Bytes} (h : disk.content? (here ++ place) = some content) : place ≠ [] := by
  rintro rfl
  rw [List.append_nil, content?, hat] at h
  cases h

theorem gathered_wantedFiles (hd : disk.Distinct) (hnamed : WellNamed disk)
    (hat : disk.at? here = some (.dir entries)) (path : Path) (except? : Option String) :
    Gathered disk path here except?
      (sortBy (fun a b => Place.le a.1 b.1) (wantedFiles except? entries)) := by
  have hplaces : ((sortBy (fun a b : Place × Bytes => Place.le a.1 b.1)
      (wantedFiles except? entries)).map (·.1)).Pairwise Place.Precedes :=
    pairwise_sortBy_places ((nodup_files (.dir entries) (hd.child hat)).sublist
      (List.filter_sublist.map _))
  refine ⟨fun place content => mem_sortBy.trans (mem_wantedFiles hd hat), hplaces, ?_⟩
  refine List.pairwise_map.mpr ((List.pairwise_map.mp hplaces).imp_of_mem fun ha hb hab => ?_)
  have hpieces : ∀ file ∈ sortBy (fun a b : Place × Bytes => Place.le a.1 b.1)
      (wantedFiles except? entries), (path.descend file.1).pieces = path.stem ++ file.1 := by
    intro file hfile
    have hcontent := ((mem_wantedFiles hd hat).mp (mem_sortBy.mp hfile)).2
    exact Path.pieces_descend path (ne_nil_of_content? hat hcontent) fun name hname =>
      (hnamed.isName here file.1
        (by simp [content?_eq_some_iff.mp hcontent]) name hname).toIsPiece
  rw [hpieces _ ha, hpieces _ hb]
  exact Place.precedes_append _ |>.mpr hab

/-- A path that can be listed opens the directory that it leads to. -/
theorem opens_of_entries (hd : disk.Distinct) (hentries : Disk.entries disk path = .ok entries)
    (hleads : Leads path here disk) (hat : disk.at? here = some (.dir entries)) :
    Opens disk path here entries where
  leads := hleads
  isDir := kindAt?_eq_dir_iff.mpr ⟨entries, hat⟩
  noNul := by
    have htext := noNul_of_checkText (checkText_of_entries hentries)
    rw [hasNul, List.any_eq_false]
    exact fun piece hpiece => by simpa using htext piece hpiece
  standing := fun _ hmem => (mem_entries_iff hd hat).mp hmem

/-- A walk from a directory ends, and what it finds is what is read below the directory. -/
theorem exists_walks (hd : disk.Distinct) (hnamed : WellNamed disk) (path : Path)
    (except? : Option String) : ∃ outcome, Walks disk except? [path] [] outcome ∧
      filesBelow path except? disk = readFound outcome disk := by
  cases hentries : Disk.entries disk path with
  | error refusal => exact ⟨_, .refused hentries, filesBelow_of_error except? hentries⟩
  | ok entries =>
    obtain ⟨here, hleads, hat⟩ := leads_of_entries hentries
    have hopens := opens_of_entries hd hentries hleads hat
    rw [filesBelow_of_ok except? hentries]
    cases hlistable : firstUnlistable path entries with
    | some bad =>
      exact ⟨_, .listed hentries (walks_unlistable hd hnamed hopens hlistable [] _), rfl⟩
    | none =>
      obtain ⟨more, hmore, hwalk⟩ := walks_later except? hd hnamed hopens hlistable
      refine ⟨_, .listed hentries (hwalk _ _ _ .done), (readFound_ok hnamed hleads hopens.noNul
        (fun file hfile => ?_) (((List.Perm.refl _).append hmore).trans
          (noted_perm path except? entries))).symm⟩
      have hcontent := ((mem_wantedFiles hd hat).mp hfile).2
      exact ⟨ne_nil_of_content? hat hcontent, hcontent⟩

/-- Below a directory, either everything is gathered and no path is too long, or nothing is read and
the failure names a path that is. -/
theorem filesBelow_outcome (hd : disk.Distinct) (hnamed : WellNamed disk)
    (hresolve : resolve disk path = .ok here) (hdir : disk.kindAt? here = some .dir)
    (except? : Option String) :
    ((∀ place, Meets disk here except? place → isPathTooLong (path.descend place) = false) ∧
      ∃ files, Gathered disk path here except? files ∧ filesBelow path except? disk
        = .ok (files.map fun file => (path.descend file.1, file.2)) disk) ∨
    ∃ place, Meets disk here except? place ∧ isPathTooLong (path.descend place) = true ∧
      ∃ activity, (activity = .readDir (path.descend place) ∨
          activity = .read (path.descend place)) ∧
        filesBelow path except? disk = .error (.disk activity .pathTooLong) disk := by
  obtain ⟨entries, hat⟩ := kindAt?_eq_dir_iff.mp hdir
  have hentries : Disk.entries disk path = .ok entries :=
    entries_eq_ok_iff.mpr ⟨here, find_eq_ok_iff.mpr ⟨hresolve, hat⟩⟩
  obtain ⟨here', hresolve', hleads, -⟩ := resolve_of_entries hentries
  cases hresolve.symm.trans hresolve'
  have hopens := opens_of_entries hd hentries hleads hat
  rw [filesBelow_of_ok except? hentries]
  cases hlistable : firstUnlistable path entries with
  | some bad =>
    obtain ⟨place, hne, hplace, rfl, hlong⟩ := firstUnlistable_eq_some hd hnamed hopens hlistable
    exact .inr ⟨place, ⟨hne, .inl hplace⟩, hlong, _, .inl rfl, rfl⟩
  | none =>
    have hgathered := gathered_wantedFiles hd hnamed hat path except?
    rcases mapM_readAt_outcome path (sortBy (fun a b : Place × Bytes => Place.le a.1 b.1)
      (wantedFiles except? entries)) disk with ⟨hshort, hok⟩ | ⟨-, failure, herror⟩
    · refine .inl ⟨?_, _, hgathered, hok⟩
      rintro place ⟨hne, hplace | ⟨hname, content, hcontent⟩⟩
      · obtain ⟨name, q, rfl⟩ := List.exists_cons_of_ne_nil hne
        have hsplit : here ++ name :: q = here ++ [name] ++ q := by simp
        have hmem : name ∈ entries.map (·.1) := (mem_names_iff hd hat).mpr <| by
          rw [kindAt?_eq_dir_above (List.prefix_append _ q) (hsplit ▸ hplace)]
          simp
        obtain ⟨entry, hentry, rfl⟩ := List.mem_map.mp hmem
        exact isPathTooLong_of_listable hd hnamed hopens hlistable entry hentry q hplace
      · exact hshort (place, content) ((hgathered.mem_iff place content).mpr ⟨hname, hcontent⟩)
    · obtain ⟨file, hfile, hlong, rfl⟩ := mapM_readAt_error herror
      obtain ⟨hname, hcontent⟩ := (hgathered.mem_iff file.1 file.2).mp hfile
      exact .inr ⟨file.1, ⟨ne_nil_of_content? hat hcontent, .inr ⟨hname, _, hcontent⟩⟩, hlong, _,
        .inr rfl, herror⟩

/-- Where something is read below a directory, the same is read on a disk that differs only in the
order in which entries are listed. -/
theorem filesBelow_same {disk' : Node} (hd : disk.Distinct) (hd' : disk'.Distinct)
    (hnamed : WellNamed disk) (hsame : Same disk disk') {files : List (Path × Bytes)}
    (hok : filesBelow path except? disk = .ok files disk) :
    filesBelow path except? disk' = .ok files disk' := by
  have hnamed' : WellNamed disk' := fun place name h => hnamed place name (by rwa [hsame])
  cases hentries : Disk.entries disk path with
  | error refusal =>
    rw [filesBelow_of_error except? hentries] at hok
    cases hok
  | ok entries =>
    obtain ⟨here, hresolve, -, hat⟩ := resolve_of_entries hentries
    have hdir := kindAt?_eq_dir_iff.mpr ⟨entries, hat⟩
    have hresolve' := resolve_mono (fun q hq => (hsame q).symm.trans hq) hresolve
    rcases filesBelow_outcome hd hnamed hresolve hdir except? with
      ⟨hshort, found, hgathered, hfound⟩ | ⟨_, -, -, _, -, herror⟩
    · cases hok.symm.trans hfound
      rcases filesBelow_outcome hd' hnamed' hresolve' ((hsame here).symm.trans hdir) except? with
        ⟨-, found', hgathered', hfound'⟩ | ⟨place, hmeets, hlong, -⟩
      · rw [hfound', hgathered.eq_of_same hsame hgathered']
      · rw [hshort place (hmeets.same hsame)] at hlong
        cases hlong
    · cases hok.symm.trans herror

/-- The walk from a directory comes to one end whatever is on the disk, and what it finds is what is
read. If no path on the way is too long for a disk, every file below the directory whose own name is
not the excluded one is read once, in the order of paths, and nothing else; otherwise nothing is
read. A directory that does not exist is not found. What is read does not hang on the order in which
the entries of directories are listed. -/
theorem filesBelow_gathers (hd : disk.Distinct) (hnamed : WellNamed disk) (path : Path)
    (except? : Option String) :
    (∃ outcome, Walks disk except? [path] [] outcome ∧
      (∀ other, Walks disk except? [path] [] other → other = outcome) ∧
      filesBelow path except? disk = readFound outcome disk) ∧
    (∀ here, resolve disk path = .ok here → disk.kindAt? here = some .dir →
      ((∀ place, Meets disk here except? place → isPathTooLong (path.descend place) = false) ∧
        ∃ files, Gathered disk path here except? files ∧ filesBelow path except? disk
          = .ok (files.map fun file => (path.descend file.1, file.2)) disk) ∨
      ∃ place, Meets disk here except? place ∧ isPathTooLong (path.descend place) = true ∧
        ∃ activity, (activity = .readDir (path.descend place) ∨
            activity = .read (path.descend place)) ∧
          filesBelow path except? disk = .error (.disk activity .pathTooLong) disk) ∧
    (checkText path = .ok () → Missing path disk →
      filesBelow path except? disk = .error (.disk (.readDir path) .notFound) disk) ∧
    ∀ disk' : Node, disk'.Distinct → Same disk disk' → ∀ files,
      filesBelow path except? disk = .ok files disk ↔
        filesBelow path except? disk' = .ok files disk' := by
  refine ⟨?_, fun here hresolve hdir => filesBelow_outcome hd hnamed hresolve hdir except?,
    fun htext hmissing => ?_, fun disk' hd' hsame files => ⟨filesBelow_same hd hd' hnamed hsame,
      filesBelow_same hd' hd (fun place name h => hnamed place name (by rwa [hsame]))
        fun place => (hsame place).symm⟩⟩
  · obtain ⟨outcome, hwalks, hread⟩ := exists_walks hd hnamed path except?
    exact ⟨outcome, hwalks, fun other hother => hother.unique hwalks, hread⟩
  · refine filesBelow_of_error except? ?_
    rw [Disk.entries, hmissing.find htext]
    rfl

/-- A directory with a file and a directory in it, and a file beside it. -/
def satchel : Node :=
  .dir [("in", .dir [("b", .dir [("skip", .file [1]), ("a", .file [2])]), ("a", .file [3])]),
    ("out", .file [4])]

/-- The same, where the entries of the first directory are listed the other way round. -/
def satchelTurned : Node :=
  .dir [("in", .dir [("a", .file [3]), ("b", .dir [("skip", .file [1]), ("a", .file [2])])]),
    ("out", .file [4])]

theorem satchel_same : Same satchel satchelTurned :=
  same_dir_cons "in" (same_of_perm (.swap ..) (by decide)) _

theorem filesBelow_gathers_sample :
    (satchel.Distinct ∧ WellNamed satchel) ∧
    (∃ outcome, Walks satchel (some "skip") [Path.ofText "in"] [] outcome ∧
      filesBelow (Path.ofText "in") (some "skip") satchel = readFound outcome satchel) ∧
    (∃ files, Gathered satchel (Path.ofText "in") ["in"] (some "skip") files ∧
      filesBelow (Path.ofText "in") (some "skip") satchel
        = .ok (files.map fun file => ((Path.ofText "in").descend file.1, file.2)) satchel ∧
      filesBelow (Path.ofText "in") (some "skip") satchelTurned
        = .ok (files.map fun file => ((Path.ofText "in").descend file.1, file.2)) satchelTurned) ∧
    filesBelow (Path.ofText "gone") none satchel
      = .error (.disk (.readDir (Path.ofText "gone")) .notFound) satchel := by
  have hproper : satchel.Distinct ∧ WellNamed satchel := by decide
  have hproper' : satchelTurned.Distinct ∧ WellNamed satchelTurned := by decide
  obtain ⟨⟨outcome, hwalks, -, hread⟩, hgathers, -, hturned⟩ :=
    filesBelow_gathers hproper.1 hproper.2 (Path.ofText "in") (some "skip")
  refine ⟨hproper, ⟨outcome, hwalks, hread⟩, ?_, ?_⟩
  · rcases hgathers ["in"] rfl rfl with ⟨-, files, hfiles, hok⟩ | ⟨_, -, -, _, -, herror⟩
    · exact ⟨files, hfiles, hok, (hturned satchelTurned hproper'.1 satchel_same _).mp hok⟩
    · have hlistable : firstUnlistable (Path.ofText "in")
          [("b", .dir [("skip", .file [1]), ("a", .file [2])]), ("a", .file [3])] = none := by
        simp only [firstUnlistable]
        rfl
      rw [filesBelow_of_ok (some "skip") rfl, hlistable] at herror
      cases herror
  · refine (filesBelow_gathers hproper.1 hproper.2 (Path.ofText "gone") none).2.2.1 rfl ?_
    exact .inr ⟨["gone"], [], ["gone"], rfl, rfl, rfl⟩

/-- Directories within each other, and a node in the innermost one. -/
def nested (names : List String) (node : Node) : Node :=
  names.foldr (fun name node => .dir [(name, node)]) node

theorem at?_nested (names : List String) (node : Node) (place : Place) :
    (nested names node).at? (names ++ place) = node.at? place := by
  induction names with
  | nil => rfl
  | cons name names ih =>
    rw [List.cons_append, at?, nested, List.foldr_cons, child?, List.lookup_cons_self]
    exact ih

theorem isProper_nested {names : List String} (hnames : ∀ name ∈ names, IsName name) {node : Node}
    (hnode : isProper node = true) : isProper (nested names node) = true := by
  induction names with
  | nil => exact hnode
  | cons name names ih =>
    obtain ⟨hname, hnames⟩ := List.forall_mem_cons.mp hnames
    rw [nested, List.foldr_cons, isProper, areProper, areProper, ← nested, ih hnames]
    simp [hname]

theorem utf8ByteSize_replicate (n : Nat) :
    (String.ofList (List.replicate n 'n')).utf8ByteSize = n := by
  induction n with
  | zero => rfl
  | succ n ih =>
    rw [List.replicate_succ, String.ofList_cons, String.utf8ByteSize_append, ih, Nat.add_comm]
    rfl

theorem isName_replicate {n : Nat} (hpos : 0 < n) (hfits : n ≤ 255) :
    IsName (String.ofList (List.replicate n 'n')) := by
  have hne (text : String) (htext : 'n' ∉ text.toList) :
      String.ofList (List.replicate n 'n') ≠ text := by
    rintro rfl
    refine htext ?_
    rw [String.toList_ofList]
    exact List.mem_replicate.mpr ⟨by omega, rfl⟩
  have hother (c : Char) (hc : c ≠ 'n') : c ∉ (String.ofList (List.replicate n 'n')).toList := by
    rw [String.toList_ofList]
    exact fun hmem => hc (List.eq_of_mem_replicate hmem)
  exact ⟨⟨hne _ (by decide), hne _ (by decide), hne _ (by decide), hother _ (by decide)⟩,
    hother _ (by decide), (utf8ByteSize_replicate n).trans_le hfits⟩

/-- The longest name that a disk takes. -/
def longName : String := String.ofList (List.replicate 255 'n')

theorem utf8ByteSize_longName : longName.utf8ByteSize = 255 := utf8ByteSize_replicate 255

theorem isName_longName : IsName longName := isName_replicate (by decide) (by decide)

/-- A file in sixteen directories with the longest names. -/
def shaft : Node := nested (List.replicate 16 longName) (.dir [("f", .file [])])

/-- A file may stand so deep that neither it nor any other file is read. -/
theorem deep_file_not_gathered :
    (shaft.Distinct ∧ WellNamed shaft) ∧ resolve shaft (Path.ofText "/") = .ok [] ∧
    shaft.kindAt? [] = some .dir ∧
    shaft.content? (List.replicate 16 longName ++ ["f"]) = some [] ∧
    ¬∃ files, filesBelow (Path.ofText "/") none shaft = .ok files shaft := by
  have hnames : ∀ name ∈ List.replicate 16 longName, IsName name := fun name hmem =>
    List.eq_of_mem_replicate hmem ▸ isName_longName
  have hproper : shaft.Distinct ∧ WellNamed shaft :=
    (isProper_iff shaft).mp (isProper_nested hnames (by decide))
  refine ⟨hproper, rfl, rfl, ?_, ?_⟩
  · rw [content?, shaft, at?_nested]
    rfl
  · rintro ⟨files, hok⟩
    have hresolve : resolve shaft (Path.ofText "/") = .ok [] := rfl
    rcases filesBelow_outcome hproper.1 hproper.2 hresolve rfl none with
      ⟨hshort, -⟩ | ⟨_, -, -, _, -, herror⟩
    · have hdeep := hshort (List.replicate 16 longName) ⟨by simp, .inl ?_⟩
      · have hwidth : Path.width (List.replicate 16 longName) = 4096 := by
          simp [List.replicate, utf8ByteSize_longName]
        rw [isPathTooLong, Path.byteLength_eq, Path.pieces_descend _ (by simp) fun n hn =>
          (hnames n hn).toIsPiece, Path.width_append, hwidth, decide_eq_false_iff_not] at hdeep
        exact hdeep (by decide)
      · rw [List.nil_append, ← List.append_nil (List.replicate 16 longName), kindAt?, shaft,
          at?_nested]
        rfl
    · cases hok.symm.trans herror

end Files

end ConfigStore
