import ConfigStore.Proofs.Library.Writing
import ConfigStore.Store.Retention

/-!
# Snapshots on the disk

The snapshots of a document are read from its shelf. Where snapshots are deleted, every shelf keeps
its newest copy and the snapshots that come first, whatever path leads to its directory.

* `Library.Holds.snapshots` reads the snapshots of a document.
* `Library.Holds.rotate` deletes old snapshots at the name of a document.
* `Library.Holds.rotate_anywhere` deletes old snapshots at any path: `Library.Trimmed` says what may
  be missing then.
-/

namespace ConfigStore

open Node Disk Deletion Files

namespace Files

/-- A directory without directories holds nothing but files. -/
theorem exists_flat {children : List (String × Node)}
    (h : ∀ child ∈ children, child.2.isDir = false) :
    ∃ files, children = flat files := by
  induction children with
  | nil => exact ⟨[], rfl⟩
  | cons child children ih =>
    obtain ⟨hchild, hchildren⟩ := List.forall_mem_cons.mp h
    obtain ⟨files, rfl⟩ := ih hchildren
    obtain ⟨name, node⟩ := child
    cases node with
    | dir => cases hchild
    | file content => exact ⟨(name, content) :: files, rfl⟩

theorem mem_flat_iff {files : List (String × Bytes)} {name : String} {content : Bytes} :
    (name, Node.file content) ∈ flat files ↔ (name, content) ∈ files := by
  rw [flat, List.mem_map]
  constructor
  · rintro ⟨⟨n, c⟩, hmem, heq⟩
    cases heq
    exact hmem
  · intro hmem
    exact ⟨(name, content), hmem, rfl⟩

end Files

/-- In a list of different keys, what is left without the keys of the last elements are the first
elements. -/
theorem filter_not_mem_drop {α β : Type} [DecidableEq β] {key : α → β} {l : List α}
    (h : (l.map key).Nodup) (n : Nat) :
    l.filter (fun a => key a ∉ (l.drop n).map key) = l.take n := by
  have hsplit := List.take_append_drop n l
  have hapart : ∀ a ∈ l.take n, key a ∉ (l.drop n).map key := by
    rw [← hsplit, List.map_append] at h
    intro a ha hmem
    exact (List.nodup_append.mp h).2.2 _ (List.mem_map_of_mem ha) _ hmem rfl
  conv_lhs => rw [← hsplit]
  rw [List.filter_append, List.take_append_drop, List.filter_eq_self.mpr,
    List.filter_eq_nil_iff.mpr, List.append_nil]
  · intro a ha
    simpa using List.mem_map_of_mem ha (f := key)
  · intro a ha
    simpa using hapart a ha

namespace Library

variable {root : Path} {base : Place} {lib lib' : Library} {disk disk' : Node}
  {domain project id name : String} {shelf : Shelf} {d : Document} {max : Nat}

/-! ## The files of a document -/

/-- The directory of a document holds the files of its shelf. -/
theorem Holds.entries_home (h : lib.Holds base disk) (hd : disk.Distinct)
    (hdomain : Names.isReserved domain = false)
    (hshelf : lib.shelf? domain project id = some shelf) :
    ∃ files, disk.at? (base ++ home domain project id) = some (.dir (flat files)) ∧
      (files.map (·.1)).Nodup ∧ ∀ name content, (name, content) ∈ files ↔
        shelf.file? name = some content := by
  have hsome : (lib.shelf? domain project id).isSome := by rw [hshelf]; rfl
  obtain ⟨children, hchildren⟩ := kindAt?_eq_dir_iff.mp ((h.dir_iff hdomain).mpr hsome)
  have hflat : ∀ child ∈ children, child.2.isDir = false := by
    intro child hchild
    obtain ⟨name, node⟩ := child
    have hnode := (mem_entries_iff hd hchildren).mp hchild
    have hkind := h.file hdomain hshelf name
    rw [kindAt?, hnode, Option.map_some] at hkind
    cases node with
    | file content => rfl
    | dir entries => cases hfile : shelf.file? name <;> simp [hfile, kind] at hkind
  obtain ⟨files, rfl⟩ := exists_flat hflat
  refine ⟨files, hchildren, ?_, fun name content => ?_⟩
  · have := hd _ _ hchildren
    rwa [flat, List.map_map] at this
  · rw [← mem_flat_iff, mem_entries_iff hd hchildren, ← kindAt?_eq_file_iff,
      h.file hdomain hshelf]
    cases shelf.file? name <;> simp

/-- Files that are named by their revisions are decoded one by one. -/
theorem names_filterMap {files : List (String × Bytes)}
    (h : ∀ file ∈ files, ∃ e : Document, file.1 = Layout.snapshotName e.updateRevision ∧
      file.2 = e.encode) :
    (files.filterMap fun file => (Document.decode file.2).toOption).map
      (fun e => Layout.snapshotName e.updateRevision) = files.map (·.1) := by
  induction files with
  | nil => rfl
  | cons file files ih =>
    obtain ⟨⟨e, hname, hcontent⟩, hfiles⟩ := List.forall_mem_cons.mp h
    rw [List.filterMap_cons_some (b := e), List.map_cons, List.map_cons, ih hfiles, hname]
    rw [hcontent, Document.decode_encode]
    rfl

/-- What the files of a shelf say, apart from the newest copy, are the snapshots. -/
theorem decoded_perm (hvalid : shelf.Valid domain project id) {files : List (String × Bytes)}
    (hnodup : (files.map (·.1)).Nodup)
    (hfiles : ∀ name content, (name, content) ∈ files ↔ shelf.file? name = some content)
    {path : Path} {found : List (Path × Bytes)}
    (hfound : found.Perm ((files.filter (some ·.1 ≠ some Layout.newestName)).map fun file =>
      (path.join file.1, file.2))) :
    (found.filterMap fun file => (Document.decode file.2).toOption).Perm shelf.past := by
  refine (hfound.filterMap _).trans ?_
  rw [List.filterMap_map]
  show (List.filterMap (fun file => (Document.decode file.2).toOption)
    (files.filter (some ·.1 ≠ some Layout.newestName))).Perm shelf.past
  -- every file but the newest copy is a snapshot, and its name is that of its revision
  have hsnapshot : ∀ file ∈ files.filter (some ·.1 ≠ some Layout.newestName), ∃ e ∈ shelf.past,
      file.1 = Layout.snapshotName e.updateRevision ∧ file.2 = e.encode := by
    rintro ⟨name, content⟩ hmem
    obtain ⟨hmem, hname⟩ := List.mem_filter.mp hmem
    rcases (Shelf.file?_eq_some_iff hvalid).mp ((hfiles name content).mp hmem) with ⟨heq, -⟩ | hsome
    · simp [heq] at hname
    · exact hsome
  have hnames := names_filterMap fun file hfile =>
    let ⟨e, _, hname, hcontent⟩ := hsnapshot file hfile; ⟨e, hname, hcontent⟩
  have hdocs := List.Nodup.of_map _ (hnames ▸ hnodup.sublist (List.filter_sublist.map _))
  refine (List.perm_ext_iff_of_nodup hdocs (List.Nodup.of_map _ hvalid.revisions)).mpr ?_
  intro d
  rw [List.mem_filterMap]
  constructor
  · rintro ⟨file, hfile, hdecode⟩
    obtain ⟨e, he, -, hcontent⟩ := hsnapshot file hfile
    rw [hcontent, Document.decode_encode] at hdecode
    exact Option.some.inj hdecode ▸ he
  · intro hd
    have hfile := (Shelf.file?_eq_some_iff hvalid).mpr (.inr ⟨d, hd, rfl, rfl⟩)
    refine ⟨(Layout.snapshotName d.updateRevision, d.encode),
      List.mem_filter.mpr ⟨(hfiles _ _).mpr hfile, ?_⟩, ?_⟩
    · simpa using Layout.snapshotName_ne_newestName d.updateRevision
    · rw [Document.decode_encode]
      rfl

/-- The snapshots of a document are those on its shelf. -/
theorem Holds.snapshots (h : lib.Holds base disk) (hvalid : lib.Valid)
    (hg : Grounded root base disk) (hroom : Roomy root)
    (hshelf : lib.shelf? domain project id = some shelf) :
    ∃ found, Retention.snapshots root domain project id disk = .ok found disk ∧
      found.Perm shelf.past := by
  have hstore := hvalid.storable hshelf
  have hdomain := hstore.notReserved
  obtain ⟨files, hchildren, hnodup, hfiles⟩ := h.entries_home hg.distinct hdomain hshelf
  have htext := hroom.checkText_home hstore.names Layout.isName_newestName
    utf8ByteSize_newestName_le
  have hentries := entries_descend hg.leads (List.cons_ne_nil _ _) hstore.names
    (checkText_of_join Layout.isName_newestName.toIsPiece htext) hchildren
  rcases filesBelow_flat (some Layout.newestName) hentries with
    ⟨-, found, hfound, hperm⟩ | ⟨hnot, -⟩
  · refine ⟨_, ?_, decoded_perm (hvalid.shelf hshelf) hnodup hfiles hperm⟩
    simp only [Retention.snapshots, bind, EStateM.bind, documentDir_eq, hfound]
    rfl
  · refine absurd ?_ hnot
    rintro ⟨name, content⟩ hmem hne
    rcases (Shelf.file?_eq_some_iff (hvalid.shelf hshelf)).mp ((hfiles name content).mp hmem) with
      ⟨hname, -⟩ | ⟨e, -, hname, -⟩
    · exact absurd (congrArg some hname) hne
    · have hshort := hroom.checkText_home hstore.names (Layout.isName_snapshotName e.updateRevision)
        (Layout.utf8ByteSize_snapshotName_le _)
      rw [checkText] at hshort
      split at hshort
      · cases hshort
      · split at hshort
        · cases hshort
        next hlong => simpa [hname] using hlong

/-! ## Deleting snapshots -/

/-- The library without some snapshots. -/
def discard (lib : Library) (gone : String → String → String → Document → Bool) : Library where
  shelf? := fun domain project id => (lib.shelf? domain project id).map fun shelf =>
    ⟨shelf.head, shelf.past.filter (!gone domain project id ·)⟩
  loose? := lib.loose?

theorem shelf?_discard (lib : Library) (gone : String → String → String → Document → Bool)
    (domain project id : String) :
    (lib.discard gone).shelf? domain project id = (lib.shelf? domain project id).map fun shelf =>
      ⟨shelf.head, shelf.past.filter (!gone domain project id ·)⟩ := rfl

/-- At most snapshots are missing, and not those that come first. -/
structure Trimmed (max : Nat) (lib lib' : Library) : Prop where
  loose? : lib'.loose? = lib.loose?
  none : ∀ {domain project id}, lib.shelf? domain project id = none →
    lib'.shelf? domain project id = none
  some : ∀ {domain project id shelf}, lib.shelf? domain project id = some shelf →
    ∃ past, lib'.shelf? domain project id = some ⟨shelf.head, past⟩ ∧ past.Sublist shelf.past ∧
      (shelf.keep max).past.Sublist past

theorem Valid.discard (h : lib.Valid) (gone : String → String → String → Document → Bool) :
    (lib.discard gone).Valid where
  storable := by
    intro domain project id shelf hshelf
    obtain ⟨old, hold, -⟩ := Option.map_eq_some_iff.mp hshelf
    exact h.storable hold
  shelf := by
    intro domain project id shelf hshelf
    obtain ⟨old, hold, rfl⟩ := Option.map_eq_some_iff.mp hshelf
    exact (h.shelf hold).sublist List.filter_sublist
  loose := h.loose

section Discard

variable {x : Place} {gone : List String}

/-- A snapshot is missing if and only if its file is gone. -/
theorem Holds.file?_discard (h : lib.Holds base disk) (hvalid : lib.Valid)
    (hcleared : Cleared x gone disk disk')
    (hgone : ∀ n ∈ gone, (∃ revision, n = Layout.snapshotName revision) ∧
      ∃ content, disk.kindAt? (x ++ [n]) = some (.file content))
    (hdomain : Names.isReserved domain = false)
    (hshelf : lib.shelf? domain project id = some shelf) (name : String) :
    disk'.kindAt? (base ++ home domain project id ++ [name]) =
      (Shelf.file? ⟨shelf.head, shelf.past.filter fun d => !decide
        (base ++ home domain project id = x ∧ Layout.snapshotName d.updateRevision ∈ gone)⟩
          name).map .file := by
  have hold := h.file hdomain hshelf name
  rw [Shelf.file?_filter (hvalid.shelf hshelf)]
  split
  next hmissing =>
    obtain ⟨e, he, hkeep, hname⟩ := hmissing
    simp only [Bool.not_eq_false', decide_eq_true_eq] at hkeep
    obtain ⟨rfl, hmem⟩ := hkeep
    exact hcleared.absent name (hname ▸ hmem)
  next hkept =>
    rcases hcleared.eq_or_absent (base ++ home domain project id ++ [name]) with
      hsame | ⟨-, n, hn, heq⟩
    · rw [hsame, hold]
    · -- a file that is gone is that of a snapshot, which is then missing
      obtain ⟨hplace, hname⟩ := List.append_inj' heq rfl
      obtain rfl : name = n := by simpa using hname
      obtain ⟨⟨revision, hrevision⟩, content, hcontent⟩ := hgone name hn
      rw [← heq, hold] at hcontent
      obtain ⟨bytes, hbytes, -⟩ := Option.map_eq_some_iff.mp hcontent
      rcases (Shelf.file?_eq_some_iff (hvalid.shelf hshelf)).mp hbytes with
        ⟨hnewest, -⟩ | ⟨e, he, hsnapshot, -⟩
      · exact absurd (hrevision.symm.trans hnewest) (Layout.snapshotName_ne_newestName _)
      · refine absurd ⟨e, he, ?_, hsnapshot⟩ hkept
        simp only [Bool.not_eq_false', decide_eq_true_eq]
        exact ⟨hplace, hsnapshot ▸ hn⟩

theorem Holds.documents_discard (h : lib.Holds base disk) (hvalid : lib.Valid)
    (hcleared : Cleared x gone disk disk')
    (hgone : ∀ n ∈ gone, (∃ revision, n = Layout.snapshotName revision) ∧
      ∃ content, disk.kindAt? (x ++ [n]) = some (.file content))
    (hdomain : Names.isReserved domain = false) (project id : String) (q : Place) :
    disk'.kindAt? (base ++ home domain project id ++ q) =
      kindOf? ((lib.discard fun domain project id d => base ++ home domain project id = x ∧
        Layout.snapshotName d.updateRevision ∈ gone).shelf? domain project id) q := by
  have hold := h.documents domain project id q hdomain
  have hplace := hcleared.eq_or_absent (base ++ home domain project id ++ q)
  rw [shelf?_discard]
  cases hshelf : lib.shelf? domain project id with
  | none =>
    rw [hshelf, kindOf?_none] at hold
    rw [Option.map_none, kindOf?_none]
    rcases hplace with hsame | ⟨hnone, -⟩
    · rw [hsame, hold]
    · exact hnone
  | some shelf =>
    rw [hshelf] at hold
    rw [Option.map_some]
    rcases q with - | ⟨name, - | ⟨next, q⟩⟩
    · -- the directory of a document is no file
      rcases hplace with hsame | ⟨-, n, hn, heq⟩
      · rw [hsame, hold]
        rfl
      · obtain ⟨-, content, hcontent⟩ := hgone n hn
        rw [← heq, hold] at hcontent
        cases hcontent
    · exact h.file?_discard hvalid hcleared hgone hdomain hshelf name
    · -- nothing stands deeper
      rcases hplace with hsame | ⟨hnone, -⟩
      · rw [hsame, hold]
        rfl
      · rw [hnone]
        rfl

/-- Where snapshots of one directory are gone, a library without them is held. -/
theorem Holds.discard (h : lib.Holds base disk) (hvalid : lib.Valid)
    (hcleared : Cleared x gone disk disk')
    (hgone : ∀ n ∈ gone, (∃ revision, n = Layout.snapshotName revision) ∧
      ∃ content, disk.kindAt? (x ++ [n]) = some (.file content)) :
    (lib.discard fun domain project id d => base ++ home domain project id = x ∧
      Layout.snapshotName d.updateRevision ∈ gone).Holds base disk' where
  documents _ project id q hdomain :=
    h.documents_discard hvalid hcleared hgone hdomain project id q
  projects := by
    intro domain name content hdomain
    refine ⟨fun hq => (h.projects _ _ _ hdomain).mp (hcleared.old_file hq), fun hloose => ?_⟩
    have hold := (h.projects _ _ _ hdomain).mpr hloose
    rcases hcleared.eq_or_absent (base ++ [domain, name]) with hsame | ⟨-, n, hn, heq⟩
    · rw [hsame, hold]
    · -- a loose file has not the name of a snapshot
      obtain ⟨⟨revision, hrevision⟩, -⟩ := hgone n hn
      have hname : name = n := by
        have := congrArg List.getLast? heq
        simpa using this
      exact absurd (hname.trans hrevision) (hvalid.loose hloose revision)
  domains domain content hq := h.domains domain content (hcleared.old_file hq)
  waiting q content hq := h.waiting q content (hcleared.old_file hq)
  vacant := by
    intro domain project id name
    rcases hcleared.eq_or_absent (base ++ aside domain project id ++ [name]) with
      hsame | ⟨hnone, -⟩
    · rw [hsame, h.vacant]
    · exact hnone

end Discard

/-! ## Rotating -/

theorem forgetEach_map {α : Type} (path : Path) (f : α → String) (l : List α) :
    forgetEach path (l.map f) = l.forM fun a => (delete (path.join (f a))).forgetful := by
  simp only [forgetEach, List.forM_eq_forM, List.forM_map]

theorem rotate_eq (hmax : max ≠ 0) :
    Retention.rotate root domain project id max disk =
      match (Retention.snapshots root domain project id).orIfMissing [] disk with
      | .error failure disk => .error failure disk
      | .ok found disk =>
        match forgetEach (Layout.documentDir root domain project id)
            (((byPriority found).drop max).map fun d => Layout.snapshotName d.updateRevision)
            disk with
        | .error failure disk => .error failure disk
        | .ok _ disk => .ok ((byPriority found).drop max).length disk := by
  have hforget : ∀ docs : List Document,
      (docs.forM fun d =>
          (delete (Layout.snapshot root domain project id d.updateRevision)).forgetful)
        = forgetEach (Layout.documentDir root domain project id)
          (docs.map fun d => Layout.snapshotName d.updateRevision) :=
    fun docs => (forgetEach_map _ _ docs).symm
  rw [Retention.rotate, if_neg hmax]
  simp only [bind, EStateM.bind, hforget]
  cases (Retention.snapshots root domain project id).orIfMissing [] disk with
  | error failure disk => rfl
  | ok found disk =>
    dsimp only
    cases forgetEach _ _ disk <;> rfl

theorem snapshots_eq :
    Retention.snapshots root domain project id disk =
      match filesBelow (Layout.documentDir root domain project id) (some Layout.newestName) disk
      with
      | .error failure disk => .error failure disk
      | .ok files disk =>
        .ok (files.filterMap fun file => (Document.decode file.2).toOption) disk := by
  simp only [Retention.snapshots, bind, EStateM.bind]
  cases filesBelow (Layout.documentDir root domain project id) (some Layout.newestName) disk <;> rfl

/-- Rotating deletes snapshots of one directory, or nothing. -/
theorem rotate_outcome (root : Path) (domain project id : String) (max : Nat) (hd : disk.Distinct) :
    ∃ disk', ((∃ n, Retention.rotate root domain project id max disk = .ok n disk') ∨
        ∃ failure, Retention.rotate root domain project id max disk = .error failure disk') ∧
      (disk' = disk ∨ max ≠ 0 ∧ ∃ children files x gone,
        Disk.entries disk (Layout.documentDir root domain project id) = .ok children ∧
        Leads (Layout.documentDir root domain project id) x disk ∧
        disk.at? x = some (.dir children) ∧
        filesBelow (Layout.documentDir root domain project id) (some Layout.newestName) disk
          = .ok files disk ∧
        Cleared x gone disk disk' ∧
        ∀ n ∈ gone, (∃ e ∈ (byPriority (files.filterMap fun file =>
            (Document.decode file.2).toOption)).drop max,
              n = Layout.snapshotName e.updateRevision) ∧
          ∃ content, disk.kindAt? (x ++ [n]) = some (.file content)) := by
  by_cases hmax : max = 0
  · refine ⟨disk, .inl ⟨0, ?_⟩, .inl rfl⟩
    rw [Retention.rotate, if_pos hmax]
    rfl
  rcases (looks_filesBelow (Layout.documentDir root domain project id)
      (some Layout.newestName)).outcome disk with ⟨files, hfiles⟩ | ⟨failure, hfailure⟩
  · cases hentries : Disk.entries disk (Layout.documentDir root domain project id) with
    | error refusal =>
      rw [filesBelow_of_error _ hentries] at hfiles
      cases hfiles
    | ok children =>
      obtain ⟨x, hleads, hchildren⟩ := leads_of_entries hentries
      obtain ⟨gone, disk', hgone, hcleared, houtcome⟩ := forgetEach_outcome hd hleads
        (kindAt?_eq_dir_iff.mpr ⟨_, hchildren⟩)
        (((byPriority (files.filterMap fun file => (Document.decode file.2).toOption)).drop max).map
          fun d => Layout.snapshotName d.updateRevision)
        (fun n hn => by
          obtain ⟨e, -, rfl⟩ := List.mem_map.mp hn
          exact Layout.isName_snapshotName _)
      refine ⟨disk', ?_, .inr ⟨hmax, children, files, x, gone, rfl, hleads, hchildren, hfiles,
        hcleared, fun n hn => ?_⟩⟩
      · rw [rotate_eq hmax]
        simp only [DiskAction.orIfMissing, snapshots_eq, hfiles]
        rcases houtcome with hok | ⟨failure, herror⟩
        · exact .inl ⟨_, by rw [hok]⟩
        · exact .inr ⟨failure, by rw [herror]⟩
      · obtain ⟨hmem, hfile⟩ := hgone n hn
        obtain ⟨e, he, hname⟩ := List.mem_map.mp hmem
        exact ⟨⟨e, he, hname.symm⟩, hfile⟩
  · refine ⟨disk, ?_, .inl rfl⟩
    rw [rotate_eq hmax]
    simp only [DiskAction.orIfMissing, snapshots_eq, hfailure]
    cases failure.isMissingOnDisk
    · exact .inr ⟨failure, rfl⟩
    · refine .inl ⟨0, ?_⟩
      simp only [byPriority, sortBy, List.foldr_nil, List.drop_nil, List.map_nil, if_true]
      rfl

theorem Trimmed.refl (max : Nat) (lib : Library) : Trimmed max lib lib where
  loose? := rfl
  none := id
  some := by
    intro domain project id shelf hshelf
    refine ⟨shelf.past, hshelf, List.Sublist.refl _, ?_⟩
    rw [Shelf.keep]
    split
    · exact List.Sublist.refl _
    · exact List.take_sublist ..

theorem Trimmed.head?_eq {max : Nat} (h : Trimmed max lib lib') (domain project id : String) :
    lib'.head? domain project id = lib.head? domain project id := by
  rw [head?, head?]
  cases hshelf : lib.shelf? domain project id with
  | none => rw [h.none hshelf]
  | some shelf =>
    obtain ⟨past, hpast, -, -⟩ := h.some hshelf
    rw [hpast]
    rfl

/-- A path to the directory of a document reads its snapshots. -/
theorem Holds.decoded_at (h : lib.Holds base disk) (hvalid : lib.Valid) (hd : disk.Distinct)
    (hshelf : lib.shelf? domain project id = some shelf) {path : Path}
    {children : List (String × Node)} {files : List (Path × Bytes)}
    (hentries : Disk.entries disk path = .ok children)
    (hchildren : disk.at? (base ++ home domain project id) = some (.dir children))
    (hfiles : filesBelow path (some Layout.newestName) disk = .ok files disk) :
    byPriority (files.filterMap fun file => (Document.decode file.2).toOption) = shelf.past := by
  have hdomain := (hvalid.storable hshelf).notReserved
  obtain ⟨flatFiles, hflat, hnodup, hmem⟩ := h.entries_home hd hdomain hshelf
  obtain rfl : children = flat flatFiles := by
    have := hchildren.symm.trans hflat
    simpa using this
  rcases filesBelow_flat (some Layout.newestName) hentries with
    ⟨-, found, hfound, hperm⟩ | ⟨-, failure, hfailure⟩
  · obtain rfl : files = found := by
      rw [hfiles] at hfound
      cases hfound
      rfl
    exact byPriority_eq_of_inOrder (decoded_perm (hvalid.shelf hshelf) hnodup hmem hperm)
      (hvalid.shelf hshelf).ranked (hvalid.shelf hshelf).inOrder
  · rw [hfiles] at hfailure
    cases hfailure

/-- Wherever snapshots are deleted, every shelf keeps those that come first. -/
theorem Holds.rotate_anywhere (h : lib.Holds base disk) (hvalid : lib.Valid)
    (hg : Grounded root base disk) (domain project id : String) (max : Nat) :
    ∃ disk' lib', ((∃ n, Retention.rotate root domain project id max disk = .ok n disk') ∨
        ∃ failure, Retention.rotate root domain project id max disk = .error failure disk') ∧
      Grounded root base disk' ∧ lib'.Valid ∧ lib'.Holds base disk' ∧ Trimmed max lib lib' := by
  obtain ⟨disk', houtcome, rfl | ⟨hmax, children, files, x, gone, hentries, -, hchildren, hfiles,
    hcleared, hgone⟩⟩ := rotate_outcome root domain project id max hg.distinct
  · exact ⟨disk', lib, houtcome, hg, hvalid, h, .refl max lib⟩
  refine ⟨disk', _, houtcome, ?_, hvalid.discard _, h.discard hvalid hcleared fun n hn => ?_,
    ⟨rfl, fun hnone => ?_, fun {domain' project' id' shelf} hshelf => ?_⟩⟩
  · exact hg.mono hcleared.distinct fun q hq _ => hcleared.dir (fun n hn => (hgone n hn).2) hq
  · obtain ⟨⟨e, -, hname⟩, hfile⟩ := hgone n hn
    exact ⟨⟨_, hname⟩, hfile⟩
  · rw [shelf?_discard, hnone, Option.map_none]
  · refine ⟨_, by rw [shelf?_discard, hshelf, Option.map_some], List.filter_sublist, ?_⟩
    rw [Shelf.keep, if_neg hmax]
    by_cases hx : base ++ home domain' project' id' = x
    · -- only snapshots that come late are gone
      subst hx
      rw [h.decoded_at hvalid hg.distinct hshelf hentries hchildren hfiles] at hgone
      rw [← filter_not_mem_drop (hvalid.shelf hshelf).names max]
      refine List.monotone_filter_right _ ?_
      intro e he
      simp only [true_and, Bool.not_eq_true', decide_eq_false_iff_not]
      intro hmem
      obtain ⟨⟨e', he', hname⟩, -⟩ := hgone _ hmem
      exact of_decide_eq_true he (hname ▸ List.mem_map_of_mem he')
    · simp [hx, List.take_sublist]

/-- Taking the last snapshots from one shelf keeps the first ones. -/
theorem discard_drop (hshelf : lib.shelf? domain project id = some shelf)
    (hvalid : shelf.Valid domain project id) (hmax : max ≠ 0) :
    (lib.discard fun domain' project' id' d =>
        base ++ home domain' project' id' = base ++ home domain project id ∧
          Layout.snapshotName d.updateRevision
            ∈ (shelf.past.drop max).map fun d => Layout.snapshotName d.updateRevision)
      = lib.put domain project id (some (shelf.keep max)) := by
  unfold discard put
  congr 1
  funext domain' project' id'
  by_cases heq : (domain', project', id') = (domain, project, id)
  · cases heq
    rw [if_pos rfl, hshelf, Option.map_some, Shelf.keep, if_neg hmax,
      ← filter_not_mem_drop hvalid.names max]
    simp
  · have hne : ¬base ++ home domain' project' id' = base ++ home domain project id := by
      intro hhome
      have := List.append_cancel_left hhome
      simp only [home, List.cons.injEq, and_true] at this
      obtain ⟨rfl, rfl, rfl⟩ := this
      exact heq rfl
    rw [if_neg heq]
    simp [hne]

/-- Old snapshots of a document are deleted. -/
theorem Holds.rotate (h : lib.Holds base disk) (hvalid : lib.Valid) (hg : Grounded root base disk)
    (hroom : Roomy root) (hshelf : lib.shelf? domain project id = some shelf) (max : Nat) :
    ∃ n disk', Retention.rotate root domain project id max disk = .ok n disk' ∧
      Grounded root base disk' ∧
      (lib.put domain project id (some (shelf.keep max))).Holds base disk' := by
  by_cases hmax : max = 0
  · refine ⟨0, disk, ?_, hg, ?_⟩
    · rw [Retention.rotate, if_pos hmax]
      rfl
    · rw [Shelf.keep, if_pos hmax, put_eq_self hshelf]
      exact h
  have hshelfValid := hvalid.shelf hshelf
  have hstore := hvalid.storable hshelf
  have hdomain := hstore.notReserved
  have hsome : (lib.shelf? domain project id).isSome := by rw [hshelf]; rfl
  have hdir := (h.dir_iff hdomain).mpr hsome
  obtain ⟨found, hfound, hperm⟩ := h.snapshots hvalid hg hroom hshelf
  have hpast := byPriority_eq_of_inOrder hperm hshelfValid.ranked hshelfValid.inOrder
  have hnodup :=
    (List.drop_sublist max shelf.past).map fun d => Layout.snapshotName d.updateRevision
  have hnames : ∀ n ∈ (shelf.past.drop max).map fun d => Layout.snapshotName d.updateRevision,
      ∃ e ∈ shelf.past, n = Layout.snapshotName e.updateRevision := by
    intro n hn
    obtain ⟨e, he, hname⟩ := List.mem_map.mp hn
    exact ⟨e, List.mem_of_mem_drop he, hname.symm⟩
  have hfiles : ∀ n ∈ (shelf.past.drop max).map fun d => Layout.snapshotName d.updateRevision,
      ∃ content, disk.kindAt? (base ++ home domain project id ++ [n]) = some (.file content) := by
    intro n hn
    obtain ⟨e, he, hname⟩ := hnames n hn
    refine ⟨e.encode, ?_⟩
    rw [h.file hdomain hshelf,
      (Shelf.file?_eq_some_iff hshelfValid).mpr (.inr ⟨e, he, hname, rfl⟩), Option.map_some]
  obtain ⟨disk', hforget, hcleared⟩ := forgetEach_files hg.distinct
    (hg.leads.descend hstore.names hdir) hdir
    (fun n hn => by
      obtain ⟨e, -, hname⟩ := hnames n hn
      exact hname ▸ Layout.isName_snapshotName _)
    (hshelfValid.names.sublist hnodup)
    (fun n hn => by
      obtain ⟨e, -, hname⟩ := hnames n hn
      rw [hname]
      exact hroom.checkText_home hstore.names (Layout.isName_snapshotName _)
        (Layout.utf8ByteSize_snapshotName_le _))
    hfiles
  refine ⟨(shelf.past.drop max).length, disk', ?_,
    hg.mono hcleared.distinct fun q hq _ => hcleared.dir hfiles hq, ?_⟩
  · rw [rotate_eq hmax]
    simp only [DiskAction.orIfMissing, hfound, hpast, documentDir_eq, hforget]
  · have hdiscard := h.discard hvalid hcleared fun n hn => by
      obtain ⟨e, -, hname⟩ := hnames n hn
      exact ⟨⟨_, hname⟩, hfiles n hn⟩
    rwa [discard_drop hshelf hshelfValid hmax] at hdiscard

end Library

end ConfigStore
