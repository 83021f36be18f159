import ConfigStore.Proofs.Document.Ordering
import ConfigStore.Proofs.Files.Walking
import ConfigStore.Proofs.Library.Rotating

/-!
# What is left of the snapshots

Snapshots are found by what is in the files below a directory, and deleted by the names of their
revisions in the directory itself. Where each of those beyond the bound lies in the file of its
revision, they are deleted and nothing else is; a copy under another name stays.

* `Retention.ranked` are the snapshots below a directory with the places of their files, and
  `Retention.surplus` those beyond a bound.
* `Retention.rotate_eq_ok_iff` says when rotating succeeds.
* `Retention.Trimmed` says that only the surplus is gone, `Retention.trimmed_of_cleared` that this
  is so if it was in its own files, and `Retention.rotate_again` that nothing is left to do then.
* `Retention.rotate_trims` is the result, and `Retention.rotate_misses_copy` a directory for which
  less is true.
-/

namespace ConfigStore

open Node Disk Files

/-! ## Sorting -/

/-- To sort by a property is to sort the values of the property. -/
theorem map_sortBy {α β : Type} (f : α → β) (le : β → β → Bool) (l : List α) :
    (sortBy (fun a b => le (f a) (f b)) l).map f = sortBy le (l.map f) := by
  induction l with
  | nil => rfl
  | cons a l ih =>
    have hinsert : ∀ m : List α, (insertBy (fun a b => le (f a) (f b)) a m).map f
        = insertBy le (f a) (m.map f) := by
      intro m
      rw [insertBy, insertBy, List.map_append, List.map_cons, List.takeWhile_map,
        List.dropWhile_map]
      rfl
    exact (hinsert _).trans (congrArg _ ih)

/-! ## Directories that can be listed -/

namespace Files

variable {path : Path} {children : List (String × Node)}

/-- What stands below the first entry of a directory stands in that entry, and everything else in
the rest of the directory. -/
theorem kindAt?_dir_entry (name : String) (child : Node) (rest : List (String × Node)) (n : String)
    (q : Place) : (Node.dir ((name, child) :: rest)).kindAt? (n :: q) =
      if n = name then child.kindAt? q else (Node.dir rest).kindAt? (n :: q) := by
  rw [kindAt?, at?, child?, List.lookup_cons]
  by_cases hn : n = name
  · rw [hn, beq_self_eq_true, if_pos rfl]
    rfl
  · rw [beq_eq_false_iff_ne.mpr hn, if_neg hn]
    rfl

/-- If every directory below a path can be listed, none has a path that is too long. -/
theorem short_of_firstUnlistable (h : firstUnlistable path children = none) {place : Place}
    (hne : place ≠ []) (hplace : (Node.dir children).kindAt? place = some .dir) :
    isPathTooLong (path.descend place) = false := by
  obtain ⟨n, q, rfl⟩ := List.exists_cons_of_ne_nil hne
  fun_induction firstUnlistable path children generalizing n q with
  | case1 path => cases hplace
  | case2 path name content rest ih =>
    rw [kindAt?_dir_entry] at hplace
    split at hplace
    · cases q <;> cases hplace
    · exact ih h n q hne hplace
  | case3 path name entries rest ihrest ihentries =>
    rw [Option.or_eq_none_iff] at h
    obtain ⟨hlater, hhere⟩ := h
    split at hhere
    · cases hhere
    rename_i hshort
    rw [kindAt?_dir_entry] at hplace
    split at hplace
    · rename_i hn
      rw [hn]
      cases q with
      | nil => exact Bool.eq_false_iff.mpr hshort
      | cons m q => exact ihentries hhere m q (List.cons_ne_nil _ _) hplace
    · exact ihrest hlater n q hne hplace

end Files

/-! ## The snapshots below a directory -/

namespace Retention

variable {children children' : List (String × Node)} {file : Place × Document} {max : Nat}

/-- The files below a directory whose own name is not that of the newest copy, in the order of their
places. -/
def listed (children : List (String × Node)) : List (Place × Bytes) :=
  sortBy (fun a b => Place.le a.1 b.1)
    ((entryFiles children).filter fun file => file.1.getLast? ≠ some Layout.newestName)

/-- The snapshots below a directory with the places of their files. -/
def filed (children : List (String × Node)) : List (Place × Document) :=
  (listed children).filterMap fun file => (Document.decode file.2).toOption.map (file.1, ·)

/-- The snapshots below a directory in the order of listings. -/
def ranked (children : List (String × Node)) : List (Place × Document) :=
  sortBy (fun a b => a.2.precedes b.2) (filed children)

/-- The snapshots that a bound leaves. -/
def kept (max : Nat) (children : List (String × Node)) : List (Place × Document) :=
  (ranked children).take max

/-- The snapshots beyond a bound. -/
def surplus (max : Nat) (children : List (String × Node)) : List (Place × Document) :=
  (ranked children).drop max

/-- The file in the directory of a document that has the name of a revision. -/
def fileName (file : Place × Document) : String := Layout.snapshotName file.2.updateRevision

theorem mem_listed (hd : (Node.dir children).Distinct) {place : Place} {content : Bytes} :
    (place, content) ∈ listed children ↔ (Node.dir children).content? place = some content ∧
      place.getLast? ≠ some Layout.newestName := by
  rw [listed, mem_sortBy, List.mem_filter, decide_eq_true_eq, ← mem_files_iff hd]
  rfl

theorem mem_filed (hd : (Node.dir children).Distinct) {place : Place} {d : Document} :
    (place, d) ∈ filed children ↔ place.getLast? ≠ some Layout.newestName ∧
      ∃ content, (Node.dir children).content? place = some content ∧
        Document.decode content = .ok d := by
  rw [filed, List.mem_filterMap]
  constructor
  · rintro ⟨⟨p, content⟩, hlisted, hdecode⟩
    obtain ⟨e, he, heq⟩ := Option.map_eq_some_iff.mp hdecode
    cases heq
    obtain ⟨hcontent, hname⟩ := (mem_listed hd).mp hlisted
    exact ⟨hname, content, hcontent, toOption_eq_some_iff.mp he⟩
  · rintro ⟨hname, content, hcontent, hdecode⟩
    refine ⟨(place, content), (mem_listed hd).mpr ⟨hcontent, hname⟩, ?_⟩
    rw [hdecode]
    rfl

theorem nodup_filed (hd : (Node.dir children).Distinct) : ((filed children).map (·.1)).Nodup := by
  have hlisted : ((listed children).map (·.1)).Nodup := by
    have hperm : (listed children).Perm _ := sortBy_perm _ _
    refine (hperm.map _).nodup_iff.mpr ?_
    exact (nodup_files (.dir children) hd).sublist (List.filter_sublist.map _)
  rw [filed, List.Nodup, List.pairwise_map, List.pairwise_filterMap]
  refine (List.pairwise_map.mp hlisted).imp fun hne d hd e he => ?_
  obtain ⟨-, -, rfl⟩ := Option.map_eq_some_iff.mp hd
  obtain ⟨-, -, rfl⟩ := Option.map_eq_some_iff.mp he
  exact hne

theorem ranked_perm (children : List (String × Node)) : (ranked children).Perm (filed children) :=
  sortBy_perm _ _

/-- What is ranked are the snapshots in the order of listings. -/
theorem map_ranked (children : List (String × Node)) :
    (ranked children).map (·.2) = byPriority ((listed children).filterMap fun file =>
      (Document.decode file.2).toOption) := by
  have hdocs : (filed children).map (·.2) = (listed children).filterMap fun file =>
      (Document.decode file.2).toOption := by
    rw [filed, List.map_filterMap]
    congr 1
    funext file
    cases (Document.decode file.2).toOption <;> rfl
  rw [ranked, map_sortBy (fun file : Place × Document => file.2) Document.precedes, hdocs]
  rfl

theorem kept_append_surplus (max : Nat) (children : List (String × Node)) :
    kept max children ++ surplus max children = ranked children :=
  List.take_append_drop ..

theorem nodup_ranked (max : Nat) (hd : (Node.dir children).Distinct) :
    ((kept max children ++ surplus max children).map (·.1)).Nodup := by
  rw [kept_append_surplus]
  exact ((ranked_perm children).map _).nodup_iff.mpr (nodup_filed hd)

theorem mem_filed_iff : file ∈ filed children ↔
    file ∈ kept max children ∨ file ∈ surplus max children := by
  rw [← List.mem_append, kept_append_surplus, (ranked_perm children).mem_iff]

end Retention

/-! ## When rotating succeeds -/

/-- A file that cannot be read is not missing. -/
theorem Files.not_missing_of_readAt {path : Path} {files : List (Place × Bytes)} {disk disk' : Node}
    {failure : Failure} (h : files.mapM (readAt path) disk = .error failure disk') :
    failure.isMissingOnDisk = false := by
  induction files with
  | nil => cases h
  | cons file files ih =>
    rw [List.mapM_cons] at h
    simp only [bind, EStateM.bind] at h
    by_cases hlong : isPathTooLong (file.1.foldl Path.join path) = true
    · rw [readAt, if_pos hlong] at h
      cases h
      rfl
    · rw [readAt, if_neg hlong] at h
      simp only [pure, EStateM.pure] at h
      cases hrest : files.mapM (readAt path) disk with
      | ok found last =>
        simp only [hrest] at h
        cases h
      | error failure' last =>
        simp only [hrest] at h
        cases h
        exact ih hrest

namespace Retention

variable {root : Path} {domain project id : String} {disk disk' : Node} {here : Place}
  {children : List (String × Node)} {max n : Nat}

/-- The path of the directory has been listed. Rotating succeeds if all below it can be listed and
read, and if the files of the surplus revisions can be deleted. It gives the number of surplus
snapshots, whether or not there were files to delete. -/
theorem rotate_eq_ok_iff
    (hentries : Disk.entries disk (Layout.documentDir root domain project id) = .ok children)
    (hmax : max ≠ 0) :
    rotate root domain project id max disk = .ok n disk' ↔
      firstUnlistable (Layout.documentDir root domain project id) children = none ∧
      (∀ file ∈ listed children,
        isPathTooLong ((Layout.documentDir root domain project id).descend file.1) = false) ∧
      n = (surplus max children).length ∧
      forgetEach (Layout.documentDir root domain project id) ((surplus max children).map fileName)
        disk = .ok () disk' := by
  have hdocs : ((byPriority ((listed children).filterMap fun file =>
      (Document.decode file.2).toOption)).drop max) = (surplus max children).map (·.2) := by
    rw [← map_ranked, surplus, List.map_drop]
  have hnames : ((surplus max children).map (·.2)).map
      (fun d => Layout.snapshotName d.updateRevision) = (surplus max children).map fileName := by
    rw [List.map_map]
    rfl
  rw [Library.rotate_eq hmax, DiskAction.orIfMissing, Library.snapshots_eq,
    filesBelow_of_ok _ hentries]
  cases hlist : firstUnlistable (Layout.documentDir root domain project id) children with
  | some dir =>
    refine iff_of_false (fun h => ?_) (fun h => by cases h.1)
    cases h
  | none =>
    dsimp only
    rw [show sortBy _ _ = listed children from rfl]
    rcases mapM_readAt_outcome (Layout.documentDir root domain project id) (listed children) disk
      with ⟨hshort, hok⟩ | ⟨hlong, failure, herror⟩
    · rw [hok]
      dsimp only
      rw [List.filterMap_map]
      dsimp only [Function.comp_def]
      rw [hdocs, hnames, List.length_map]
      cases hforget : forgetEach _ ((surplus max children).map fileName) disk with
      | error failure last =>
        refine iff_of_false (fun h => ?_) (fun h => ?_)
        · cases h
        · cases h.2.2.2
      | ok _ last =>
        constructor
        · rintro ⟨⟩
          exact ⟨rfl, hshort, rfl, rfl⟩
        · rintro ⟨-, -, rfl, h⟩
          cases h
          rfl
    · rw [herror]
      dsimp only
      rw [not_missing_of_readAt herror]
      refine iff_of_false (fun h => ?_) (fun h => hlong h.2.1)
      cases h

/-! ## What rotating leaves -/

/-- The snapshots beyond a bound are gone from below a directory and nothing else is. -/
structure Trimmed (here : Place) (children : List (String × Node)) (max : Nat)
    (disk disk' : Node) : Prop where
  /-- No two of them were in one file. -/
  apart : ((surplus max children).map (·.1)).Nodup
  /-- Each of them was in a file. -/
  stored : ∀ file ∈ surplus max children, ∃ content,
    disk.content? (here ++ file.1) = some content ∧ Document.decode content = .ok file.2
  /-- These files are gone. -/
  gone : ∀ file ∈ surplus max children, disk'.kindAt? (here ++ file.1) = none
  /-- Everything else is as it was. -/
  others : ∀ q, (∀ file ∈ surplus max children, q ≠ here ++ file.1) →
    disk'.kindAt? q = disk.kindAt? q
  /-- Files with the name of the newest copy are as they were. -/
  newest : ∀ p, p.getLast? = some Layout.newestName →
    disk'.kindAt? (here ++ p) = disk.kindAt? (here ++ p)
  /-- So are files that cannot be read as documents. -/
  unread : ∀ p content, disk.content? (here ++ p) = some content →
    (∀ d, Document.decode content ≠ .ok d) → disk'.content? (here ++ p) = some content
  /-- The snapshots that are left are those within the bound. -/
  left : ∃ children', disk'.at? here = some (.dir children') ∧
    (filed children').Perm (kept max children)

theorem kindAt?_below (hhere : disk.at? here = some (.dir children)) (p : Place) :
    disk.kindAt? (here ++ p) = (Node.dir children).kindAt? p := by
  rw [kindAt?_append, hhere]
  rfl

/-- If only the files of the surplus are gone from a directory, the other snapshots are left. -/
theorem filed_perm_kept {children' : List (String × Node)} (hd : (Node.dir children).Distinct)
    (hd' : (Node.dir children').Distinct)
    (hgone : ∀ file ∈ surplus max children, (Node.dir children').kindAt? file.1 = none)
    (hothers : ∀ p, (∀ file ∈ surplus max children, p ≠ file.1) →
      (Node.dir children').kindAt? p = (Node.dir children).kindAt? p) :
    (filed children').Perm (kept max children) := by
  have hranked := nodup_ranked max hd
  rw [List.map_append] at hranked
  obtain ⟨hkept, -, hapart⟩ := List.nodup_append.mp hranked
  refine (List.perm_ext_iff_of_nodup (nodup_filed hd').of_map hkept.of_map).mpr ?_
  rintro ⟨place, d⟩
  constructor
  · intro hfiled
    obtain ⟨hname, content, hcontent, hdecode⟩ := (mem_filed hd').mp hfiled
    have hplace : ∀ file ∈ surplus max children, place ≠ file.1 := by
      rintro file hfile rfl
      rw [content?_eq_some_iff, hgone file hfile] at hcontent
      cases hcontent
    rw [content?_congr (hothers place hplace)] at hcontent
    have hold := (mem_filed hd).mpr ⟨hname, content, hcontent, hdecode⟩
    exact (mem_filed_iff.mp hold).resolve_right fun hfile => hplace _ hfile rfl
  · intro hfile
    obtain ⟨hname, content, hcontent, hdecode⟩ := (mem_filed hd).mp (mem_filed_iff.mpr (.inl hfile))
    have hplace : ∀ file ∈ surplus max children, place ≠ file.1 := fun file hsurplus =>
      hapart _ (List.mem_map_of_mem hfile) _ (List.mem_map_of_mem hsurplus)
    rw [← content?_congr (hothers place hplace)] at hcontent
    exact (mem_filed hd').mpr ⟨hname, content, hcontent, hdecode⟩

/-- Each surplus snapshot lies in the directory itself, in the file that has the name of its
revision. -/
def InOwnFiles (max : Nat) (children : List (String × Node)) : Prop :=
  ∀ file ∈ surplus max children, file.1 = [fileName file]

theorem trimmed_of_cleared (hd : disk.Distinct) (hhere : disk.at? here = some (.dir children))
    (hcleared : Cleared here ((surplus max children).map fileName) disk disk')
    (hown : InOwnFiles max children) : Trimmed here children max disk disk' := by
  have hgone : ∀ file ∈ surplus max children, disk'.kindAt? (here ++ file.1) = none := by
    intro file hfile
    rw [hown file hfile]
    exact hcleared.absent _ (List.mem_map_of_mem hfile)
  have hothers : ∀ q, (∀ file ∈ surplus max children, q ≠ here ++ file.1) →
      disk'.kindAt? q = disk.kindAt? q := by
    intro q hq
    refine hcleared.frame q fun name hname heq => ?_
    obtain ⟨file, hfile, rfl⟩ := List.mem_map.mp hname
    exact hq file hfile (by rw [heq, hown file hfile])
  have hstored : ∀ file ∈ surplus max children, file.1.getLast? ≠ some Layout.newestName ∧
      ∃ content, disk.content? (here ++ file.1) = some content ∧
        Document.decode content = .ok file.2 := by
    intro file hfile
    obtain ⟨hname, content, hcontent, hdecode⟩ :=
      (mem_filed (hd.child hhere)).mp (mem_filed_iff.mpr (.inr hfile))
    exact ⟨hname, content, (content?_congr (kindAt?_below hhere _)).trans hcontent, hdecode⟩
  refine ⟨?_, fun file hfile => (hstored file hfile).2, hgone, hothers, fun p hp => ?_,
    fun p content hcontent hunread => ?_, ?_⟩
  · have hranked := nodup_ranked max (hd.child hhere)
    rw [List.map_append] at hranked
    exact (List.nodup_append.mp hranked).2.1
  · refine hothers _ fun file hfile heq => (hstored file hfile).1 ?_
    rw [← List.append_cancel_left heq, hp]
  · rw [content?_congr (hothers _ fun file hfile heq => ?_), hcontent]
    obtain ⟨-, content', hcontent', hdecode⟩ := hstored file hfile
    rw [← heq, hcontent, Option.some.injEq] at hcontent'
    exact hunread file.2 (hcontent' ▸ hdecode)
  · have hdir : disk'.kindAt? here = some .dir := by
      rw [hothers, kindAt?_eq_dir_iff.mpr ⟨_, hhere⟩]
      intro file hfile heq
      rw [hown file hfile] at heq
      simp at heq
    obtain ⟨children', hhere'⟩ := kindAt?_eq_dir_iff.mp hdir
    refine ⟨children', hhere', filed_perm_kept (hd.child hhere) (hcleared.distinct.child hhere')
      (fun file hfile => ?_) fun p hp => ?_⟩
    · rw [← kindAt?_below hhere', hgone file hfile]
    · rw [← kindAt?_below hhere', ← kindAt?_below hhere]
      exact hothers _ fun file hfile heq => hp file hfile (List.append_cancel_left heq)

namespace Trimmed

/-- Whatever is left was there. -/
theorem old (h : Trimmed here children max disk disk') {q : Place} {kind : Kind}
    (hq : disk'.kindAt? q = some kind) : disk.kindAt? q = some kind := by
  rw [← h.others q, hq]
  rintro file hfile rfl
  rw [h.gone file hfile] at hq
  cases hq

theorem dir (h : Trimmed here children max disk disk') {q : Place}
    (hq : disk.kindAt? q = some .dir) : disk'.kindAt? q = some .dir := by
  rw [h.others q, hq]
  rintro file hfile rfl
  obtain ⟨content, hcontent, -⟩ := h.stored file hfile
  rw [content?_eq_some_iff, hq] at hcontent
  cases hcontent

end Trimmed

/-- Where the bound is kept, nothing is beyond it. -/
theorem surplus_eq_nil (h : (filed children).length ≤ max) : surplus max children = [] := by
  rw [surplus, List.drop_eq_nil_iff, (ranked_perm children).length_eq]
  exact h

/-- To rotate again deletes nothing. -/
theorem rotate_again (hd : disk.Distinct) (hd' : disk'.Distinct)
    (hleads : Leads (Layout.documentDir root domain project id) here disk)
    (hentries : Disk.entries disk (Layout.documentDir root domain project id) = .ok children)
    (hmax : max ≠ 0) (hrotate : rotate root domain project id max disk = .ok n disk')
    (h : Trimmed here children max disk disk') :
    rotate root domain project id max disk' = .ok 0 disk' := by
  obtain ⟨hlisted, hshort, -, -⟩ := (rotate_eq_ok_iff hentries hmax).mp hrotate
  obtain ⟨here', hleads', hhere⟩ := leads_of_entries hentries
  obtain rfl : here = here' := Except.ok.inj (hleads.symm.trans hleads')
  obtain ⟨children', hhere', hleft⟩ := h.left
  have hchildren := hd.child hhere
  have hchildren' := hd'.child hhere'
  have hold : ∀ p kind, (Node.dir children').kindAt? p = some kind →
      (Node.dir children).kindAt? p = some kind := by
    intro p kind hp
    rw [← kindAt?_below hhere'] at hp
    rw [← kindAt?_below hhere, h.old hp]
  have hentries' : Disk.entries disk' (Layout.documentDir root domain project id) = .ok children' :=
    entries_of_leads (hleads.mono fun _ => h.dir) (isEmpty_of_entries hentries)
      (checkText_of_entries hentries) hhere'
  have hnone : surplus max children' = [] := by
    refine surplus_eq_nil ?_
    rw [hleft.length_eq, kept]
    exact List.length_take_le ..
  refine (rotate_eq_ok_iff hentries' hmax).mpr ⟨?_, fun file hfile => ?_, ?_, ?_⟩
  · refine firstUnlistable_eq_none hchildren' fun place hne hplace => ?_
    exact short_of_firstUnlistable hlisted hne (hold place _ hplace)
  · obtain ⟨hcontent, hname⟩ := (mem_listed hchildren').mp hfile
    refine hshort file ((mem_listed hchildren).mpr ⟨?_, hname⟩)
    exact content?_eq_some_iff.mpr (hold _ _ (content?_eq_some_iff.mp hcontent))
  · rw [hnone]
    rfl
  · rw [hnone]
    rfl

/-- **What rotating deletes.** If it succeeds, the number that it gives is that of the snapshots
beyond the bound, and just the files are gone that have the names of their revisions, as far as
there were such files. If each of these snapshots lies in the file of its revision, these files are
gone and nothing else is: the snapshots within the bound are left, files with the name of the newest
copy and files that cannot be read are as they were, and to rotate again deletes nothing. -/
theorem rotate_trims (hd : disk.Distinct)
    (hleads : Leads (Layout.documentDir root domain project id) here disk)
    (hentries : Disk.entries disk (Layout.documentDir root domain project id) = .ok children)
    (hmax : 1 ≤ max) (hrotate : rotate root domain project id max disk = .ok n disk') :
    n = (surplus max children).length ∧
      Cleared here ((surplus max children).map fileName) disk disk' ∧
      (InOwnFiles max children → Trimmed here children max disk disk' ∧
        rotate root domain project id max disk' = .ok 0 disk') := by
  have hne := Nat.one_le_iff_ne_zero.mp hmax
  obtain ⟨-, -, hcount, hforget⟩ := (rotate_eq_ok_iff hentries hne).mp hrotate
  obtain ⟨here', hleads', hhere⟩ := leads_of_entries hentries
  obtain rfl : here = here' := Except.ok.inj (hleads.symm.trans hleads')
  have hnames : ∀ name ∈ (surplus max children).map fileName, IsName name := by
    intro name hname
    obtain ⟨file, -, rfl⟩ := List.mem_map.mp hname
    exact Layout.isName_snapshotName _
  have hcleared :=
    cleared_of_forgetEach hd hleads (kindAt?_eq_dir_iff.mpr ⟨_, hhere⟩) hnames hforget
  refine ⟨hcount, hcleared, fun hown => ?_⟩
  have htrimmed := trimmed_of_cleared hd hhere hcleared hown
  exact ⟨htrimmed, rotate_again hd hcleared.distinct hleads hentries hne hrotate htrimmed⟩

/-- A revision of a document. -/
def revision (n : Int64) : Document :=
  { id := "timeout", domain := "shop", project := "web", key := "timeout", value := "30",
    updateRevision := n }

/-- The path of the document. -/
abbrev dirPath : Path := Layout.documentDir (.ofText "/kvs") "shop" "web" "timeout"

/-- A tree with the files of the document. -/
def housed (files : List (String × Node)) : Node :=
  .dir [("kvs", .dir [("shop", .dir [("web", .dir [("timeout", .dir files)])])])]

theorem rotate_housed {files files' : List (String × Node)} {names : List String}
    (hlisted : firstUnlistable dirPath files = none)
    (hshort : ∀ file ∈ listed files, isPathTooLong (dirPath.descend file.1) = false)
    (hnames : (surplus 1 files).map fileName = names)
    (hforget : forgetEach dirPath names (housed files) = .ok () (housed files')) :
    rotate (.ofText "/kvs") "shop" "web" "timeout" 1 (housed files)
      = .ok names.length (housed files') := by
  have hentries : Disk.entries (housed files) dirPath = .ok files := rfl
  refine (rotate_eq_ok_iff hentries Nat.one_ne_zero).mpr ⟨hlisted, hshort, ?_, ?_⟩
  · rw [← hnames, List.length_map]
  · rw [hnames]
    exact hforget

/-- Two revisions of a document, the second of which is the newest. -/
def twoFiles (first second : Bytes) : List (String × Node) :=
  [("1.json", .file first), ("2.json", .file second), (Layout.newestName, .file second)]

theorem surplus_twoFiles : surplus 1 (twoFiles (revision 1).encode (revision 2).encode) =
    [(["1.json"], revision 1)] := by
  have hlisted : ∀ first second, listed (twoFiles first second) =
      [(["1.json"], first), (["2.json"], second)] := fun _ _ => rfl
  have hfiled : filed (twoFiles (revision 1).encode (revision 2).encode) =
      [(["1.json"], revision 1), (["2.json"], revision 2)] := by
    simp [filed, hlisted, Document.decode_encode, Except.toOption]
  rw [surplus, ranked, hfiled]
  rfl

theorem rotate_twoFiles {first second : Bytes}
    (hsurplus : surplus 1 (twoFiles first second) = [(["1.json"], revision 1)]) :
    rotate (.ofText "/kvs") "shop" "web" "timeout" 1 (housed (twoFiles first second))
      = .ok 1 (housed ((twoFiles first second).drop 1)) := by
  have hnames : (surplus 1 (twoFiles first second)).map fileName = ["1.json"] := by
    rw [hsurplus]
    rfl
  have hfirst : (delete (dirPath.join "1.json")).forgetful (housed (twoFiles first second))
      = .ok () (housed ((twoFiles first second).drop 1)) := rfl
  have hforget : forgetEach dirPath ["1.json"] (housed (twoFiles first second))
      = .ok () (housed ((twoFiles first second).drop 1)) := by
    rw [forgetEach_cons_ok hfirst]
    rfl
  refine rotate_housed (by simp only [twoFiles, firstUnlistable]) ?_ hnames hforget
  exact List.forall_mem_cons.mpr ⟨rfl, List.forall_mem_singleton.mpr rfl⟩

theorem rotate_trims_sample :
    ∃ disk', rotate (.ofText "/kvs") "shop" "web" "timeout" 1
        (housed (twoFiles (revision 1).encode (revision 2).encode)) = .ok 1 disk' ∧
      Trimmed ["kvs", "shop", "web", "timeout"]
        (twoFiles (revision 1).encode (revision 2).encode) 1
        (housed (twoFiles (revision 1).encode (revision 2).encode)) disk' ∧
      rotate (.ofText "/kvs") "shop" "web" "timeout" 1 disk' = .ok 0 disk' := by
  have hsurplus := surplus_twoFiles
  generalize (revision 1).encode = first, (revision 2).encode = second at hsurplus ⊢
  have hd : (housed (twoFiles first second)).Distinct := by
    simp [housed, twoFiles, Layout.newestName, distinct_dir_iff, distinct_file, or_imp, forall_and]
  have hleads : Leads dirPath ["kvs", "shop", "web", "timeout"]
      (housed (twoFiles first second)) := rfl
  have hown : InOwnFiles 1 (twoFiles first second) := by
    rw [InOwnFiles, hsurplus]
    exact List.forall_mem_singleton.mpr rfl
  have hrotate := rotate_twoFiles hsurplus
  have hentries : Disk.entries (housed (twoFiles first second)) dirPath
      = .ok (twoFiles first second) := rfl
  obtain ⟨-, -, htrims⟩ := rotate_trims hd hleads hentries (le_refl 1) hrotate
  exact ⟨_, hrotate, htrims hown⟩

/-! ## A copy of a snapshot -/

/-- Beside the files of two revisions there is a copy of the first one under another name. -/
def withCopy (first second : Bytes) : List (String × Node) :=
  twoFiles first second ++ [("copy.json", .file first)]

/-- The same without the file of the first revision. -/
def withoutFirst (first second : Bytes) : List (String × Node) :=
  (withCopy first second).drop 1

theorem filed_withCopy : filed (withCopy (revision 1).encode (revision 2).encode) =
    [(["1.json"], revision 1), (["2.json"], revision 2), (["copy.json"], revision 1)] := by
  have hlisted : ∀ first second, listed (withCopy first second) =
      [(["1.json"], first), (["2.json"], second), (["copy.json"], first)] := fun _ _ => rfl
  simp [filed, hlisted, Document.decode_encode, Except.toOption]

theorem filed_withoutFirst : filed (withoutFirst (revision 1).encode (revision 2).encode) =
    [(["2.json"], revision 2), (["copy.json"], revision 1)] := by
  have hlisted : ∀ first second, listed (withoutFirst first second) =
      [(["2.json"], second), (["copy.json"], first)] := fun _ _ => rfl
  simp [filed, hlisted, Document.decode_encode, Except.toOption]

theorem forget_withoutFirst (first second : Bytes) :
    forgetEach dirPath ["1.json"] (housed (withoutFirst first second))
      = .ok () (housed (withoutFirst first second)) := rfl

theorem forget_withCopy (first second : Bytes) :
    forgetEach dirPath ["1.json", "1.json"] (housed (withCopy first second))
      = .ok () (housed (withoutFirst first second)) := by
  have hfirst : (delete (dirPath.join "1.json")).forgetful (housed (withCopy first second))
      = .ok () (housed (withoutFirst first second)) := rfl
  rw [forgetEach_cons_ok hfirst]
  exact forget_withoutFirst first second

/-- Two snapshots are to be deleted and two are counted, but only one file is gone: the copy of the
first revision stays, and two snapshots are left instead of one. To rotate again counts the copy
once more and deletes nothing. -/
theorem rotate_misses_copy :
    let before := withCopy (revision 1).encode (revision 2).encode
    let after := withoutFirst (revision 1).encode (revision 2).encode
    rotate (.ofText "/kvs") "shop" "web" "timeout" 1 (housed before) = .ok 2 (housed after) ∧
      filed after = [(["2.json"], revision 2), (["copy.json"], revision 1)] ∧
      rotate (.ofText "/kvs") "shop" "web" "timeout" 1 (housed after) = .ok 1 (housed after) := by
  have hbefore : (surplus 1 (withCopy (revision 1).encode (revision 2).encode)).map fileName =
      ["1.json", "1.json"] := by
    rw [surplus, ranked, filed_withCopy]
    rfl
  have hafter : (surplus 1 (withoutFirst (revision 1).encode (revision 2).encode)).map fileName =
      ["1.json"] := by
    rw [surplus, ranked, filed_withoutFirst]
    rfl
  have hfiled := filed_withoutFirst
  generalize (revision 1).encode = first, (revision 2).encode = second
    at hbefore hafter hfiled ⊢
  refine ⟨?_, hfiled, ?_⟩
  · refine rotate_housed (by simp [withCopy, twoFiles, firstUnlistable]) ?_ hbefore
      (forget_withCopy first second)
    exact List.forall_mem_cons.mpr ⟨rfl, List.forall_mem_cons.mpr
      ⟨rfl, List.forall_mem_singleton.mpr rfl⟩⟩
  · refine rotate_housed (by simp [withoutFirst, withCopy, twoFiles, firstUnlistable]) ?_ hafter
      (forget_withoutFirst first second)
    exact List.forall_mem_cons.mpr ⟨rfl, List.forall_mem_singleton.mpr rfl⟩

end Retention

end ConfigStore
