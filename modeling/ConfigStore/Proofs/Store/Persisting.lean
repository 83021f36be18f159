import ConfigStore.Proofs.Files.Keeping
import ConfigStore.Proofs.Files.Restoring
import ConfigStore.Proofs.Library.Reading

/-!
# What a write leaves behind

A write first creates the directory of its document, then puts two files into it and at last deletes
others from it. Nothing is asked of the tree here, nor of the names in the document: whatever path
they make, its directory is the one that changes.

* `Store.persist_outcome` says what is on the disk after the two files have been written, or have
  not: a failure leaves nothing but the directories that were created.
  `Store.persist_both_or_neither` says so of what can be read.
* `Store.keeps_write_of` goes on to a write as a whole, `Store.endsIn_create` and
  `Store.endsIn_update` to the two requests that lead to one.
* `Disk.Confined` says that files have changed in one directory only; `Store.keeps_write` that a
  write does no more than this.
-/

namespace ConfigStore

open Node Disk Files

variable {disk disk' disk'' : Node} {root path : Path} {here : Place} {d : Document}

/-! ## The two files of a write -/

/-- The snapshot of a document and its newest copy have been put into one directory. -/
structure Persisted (path : Path) (here : Place) (d : Document) (disk disk' : Node) : Prop where
  leads : Leads path here disk
  dir : disk.kindAt? here = some .dir
  text : checkText (path.join Layout.newestName) = .ok ()
  distinct : disk'.Distinct
  snapshotFree : disk.kindAt? (here ++ [Layout.snapshotName d.updateRevision]) ≠ some .dir
  newestFree : disk.kindAt? (here ++ [Layout.newestName]) ≠ some .dir
  view : ∀ q, disk'.kindAt? q =
    if q = here ++ [Layout.snapshotName d.updateRevision] ∨ q = here ++ [Layout.newestName] then
      some (.file d.encode)
    else disk.kindAt? q
  apart : ∀ q, ¬here <+: q → ¬q <+: here → disk'.at? q = disk.at? q

namespace Persisted

theorem kept (h : Persisted path here d disk disk') {q : Place} (hq : disk.kindAt? q = some .dir) :
    disk'.kindAt? q = some .dir := by
  rw [h.view, if_neg, hq]
  rintro (rfl | rfl)
  · exact h.snapshotFree hq
  · exact h.newestFree hq

/-- One file after the other has been put into the directory. -/
theorem of_put (hd : disk.Distinct) (hleads : Leads path here disk)
    (hdir : disk.kindAt? here = some .dir)
    (htext : checkText (path.join Layout.newestName) = .ok ())
    (hsnapshot : disk.kindAt? (here ++ [Layout.snapshotName d.updateRevision]) ≠ some .dir)
    (hnewest : disk.kindAt? (here ++ [Layout.newestName]) ≠ some .dir) :
    Persisted path here d disk
      ((disk.put (here ++ [Layout.snapshotName d.updateRevision]) (.file d.encode)).put
        (here ++ [Layout.newestName]) (.file d.encode)) := by
  have hfirst := kindAt?_put_file hd hdir hsnapshot d.encode
  have hd' := hd.put (distinct_file d.encode) (here ++ [Layout.snapshotName d.updateRevision])
  have hne : here ++ [Layout.newestName] ≠ here ++ [Layout.snapshotName d.updateRevision] := by
    simpa using (Layout.snapshotName_ne_newestName d.updateRevision).symm
  have hdir' := (hfirst here).trans ((if_neg (by simp)).trans hdir)
  have hleaf : _ ≠ some Kind.dir := fun h => hnewest (((hfirst _).trans (if_neg hne)).symm.trans h)
  refine ⟨hleads, hdir, htext, hd'.put (distinct_file _) _, hsnapshot, hnewest, fun q => ?_,
    fun q hpq hqp => ?_⟩
  · rw [kindAt?_put_file hd' hdir' hleaf, hfirst]
    by_cases hq : q = here ++ [Layout.newestName] <;> simp [hq]
  · rw [put, at?_alter_in_apart hd' hpq hqp, put, at?_alter_in_apart hd hpq hqp]

end Persisted

namespace Store

/-- Where the path of a document leads, its root leads to the beginning of that place. -/
theorem leads_root_of_home {domain project id : String}
    (hpieces : ∀ n ∈ Deletion.home domain project id, IsPiece n)
    (h : Leads (Layout.documentDir root domain project id) here disk) :
    ∃ base, Leads root base disk ∧ here = base ++ Deletion.home domain project id := by
  have hfollow := h
  rw [Deletion.documentDir_eq, Leads, Path.stem_descend _ hpieces] at hfollow
  obtain ⟨base, hbase, -⟩ := follow_append_eq_ok_iff.mp hfollow
  exact ⟨base, hbase, Leads.place_eq hbase hpieces h⟩

/-- Once the snapshot is written, the newest copy is written, or nothing is left of the snapshot. -/
theorem persist_second (hd : disk.Distinct) {prior : Option Bytes}
    (hread : read? (path.join (Layout.snapshotName d.updateRevision)) disk = .ok prior disk)
    (hwrite : writeFile (path.join (Layout.snapshotName d.updateRevision)) d.encode disk
      = .ok disk') :
    (∃ failure undo, Files.write (path.join Layout.newestName) d.encode
          ⟨disk', [⟨path.join (Layout.snapshotName d.updateRevision), prior⟩]⟩
        = .error failure ⟨disk', undo⟩ ∧ undo.replay disk' = disk) ∨
      ∃ undo here disk'', Files.write (path.join Layout.newestName) d.encode
          ⟨disk', [⟨path.join (Layout.snapshotName d.updateRevision), prior⟩]⟩
        = .ok () ⟨disk'', undo⟩ ∧ Persisted path here d disk disk'' := by
  have hsnapshot := Layout.isName_snapshotName d.updateRevision
  have hnewest := Layout.isName_newestName
  have htext := checkText_of_read? hread
  have hback := UndoRecord.restore_overwritten hd hsnapshot.toIsPiece hread hwrite
  obtain ⟨here, hleads, hdir, -, hfree, rfl⟩ := writeFile_inv hsnapshot.toIsPiece hwrite
  have hput := kindAt?_put_file hd hdir hfree d.encode
  have hkept : ∀ q, disk.kindAt? q = some .dir →
      (disk.put (here ++ [Layout.snapshotName d.updateRevision]) (.file d.encode)).kindAt? q
        = some .dir := by
    intro q hq
    rw [hput, if_neg, hq]
    rintro rfl
    exact hfree hq
  have hleads' := hleads.mono hkept
  have hsame := (hput (here ++ [Layout.newestName])).trans
    (if_neg (by simpa using (Layout.snapshotName_ne_newestName d.updateRevision).symm))
  -- the directory is there already, so that nothing more is created
  have hmade := makeDirs_parent hsnapshot.toIsPiece hleads' (hkept here hdir) htext
  rw [Path.parent_join _ hsnapshot.toIsPiece, ← Path.parent_join _ hnewest.toIsPiece] at hmade
  rcases write_outcome (path.join Layout.newestName) d.encode
      (disk.put (here ++ [Layout.snapshotName d.updateRevision]) (.file d.encode))
      [⟨path.join (Layout.snapshotName d.updateRevision), prior⟩] with
    ⟨failure, undo, herror, hundo⟩ | ⟨newest, disk'', hok, hfound, hwritten⟩
  · rw [hmade] at herror hundo
    refine .inl ⟨failure, undo, herror, ?_⟩
    rcases hundo with rfl | ⟨newest, rfl, hfound, -⟩
    · exact hback
    · have hunread := read?_beside hleads hdir hkept hnewest hsame hfound
      rw [UndoLog.replay, List.cons_append, List.foldl_cons, hback]
      exact UndoRecord.restore_eq_self hnewest.toIsPiece hunread
  · rw [hmade] at hwritten hfound
    obtain ⟨there, hthere, -, -, hleaf, rfl⟩ := writeFile_inv hnewest.toIsPiece hwritten
    obtain rfl : here = there := Except.ok.inj (hleads'.symm.trans hthere)
    exact .inr ⟨_, here, _, hok,
      .of_put hd hleads hdir (checkText_of_read? hfound) hfree (hsame ▸ hleaf)⟩

/-- Both files are written, or the tree has nothing new but directories. -/
theorem persist_outcome (root : Path) (d : Document) (hd : disk.Distinct) :
    (∃ failure, persist root d disk
        = .error failure (makeDirs (Layout.newest root d.domain d.project d.id).parent disk).2) ∨
      ∃ here disk', persist root d disk = .ok () disk' ∧
        Persisted (Layout.documentDir root d.domain d.project d.id) here d
          (makeDirs (Layout.newest root d.domain d.project d.id).parent disk).2 disk' := by
  have hparent : ((Layout.documentDir root d.domain d.project d.id).join
      (Layout.snapshotName d.updateRevision)).parent
        = (Layout.newest root d.domain d.project d.id).parent := by
    rw [Layout.newest, Path.parent_join _ (Layout.isName_snapshotName _).toIsPiece,
      Path.parent_join _ Layout.isName_newestName.toIsPiece]
  have hfirst := write_outcome ((Layout.documentDir root d.domain d.project d.id).join
    (Layout.snapshotName d.updateRevision)) d.encode disk []
  have hmade := makeDirs_extended hd (Layout.newest root d.domain d.project d.id).parent
  simp only [hparent, List.nil_append] at hfirst
  generalize (makeDirs (Layout.newest root d.domain d.project d.id).parent disk).2 = made
    at hmade hfirst ⊢
  rcases hfirst with ⟨failure, undo, herror, hundo⟩ | ⟨prior, disk₁, hok, hread, hwrite⟩
  · have hreplay : undo.replay made = made := by
      rcases hundo with rfl | ⟨prior, rfl, hread, -⟩
      · rfl
      · have hrestore := UndoRecord.restore_eq_self (Layout.isName_snapshotName _).toIsPiece hread
        simpa only [UndoLog.replay, List.foldl_cons, List.foldl_nil] using hrestore
    refine .inl ⟨failure, ?_⟩
    simp only [persist, Layout.snapshot, LoggedAction.allOrNothing, bind, EStateM.bind, herror,
      hreplay]
  · rcases persist_second hmade.distinct hread hwrite with
      ⟨failure, undo, herror, hreplay⟩ | ⟨undo, here, disk', hok', hpersisted⟩
    · refine .inl ⟨failure, ?_⟩
      simp only [persist, Layout.snapshot, Layout.newest, LoggedAction.allOrNothing, bind,
        EStateM.bind, hok, herror, hreplay]
    · refine .inr ⟨here, disk', ?_, hpersisted⟩
      simp only [persist, Layout.snapshot, Layout.newest, LoggedAction.allOrNothing, bind,
        EStateM.bind, hok, hok']

theorem checkText_snapshot_of_persist (h : persist root d disk = .ok () disk') :
    checkText (Layout.snapshot root d.domain d.project d.id d.updateRevision) = .ok () := by
  rcases write_outcome (Layout.snapshot root d.domain d.project d.id d.updateRevision) d.encode
    disk [] with ⟨failure, undo, herror, -⟩ | ⟨prior, mid, -, hread, -⟩
  · simp only [persist, LoggedAction.allOrNothing, bind, EStateM.bind, herror] at h
    cases h
  · exact checkText_of_read? hread

/-- Both files of a document hold it. Everything else is as it was, except that there may be more
directories. -/
structure BothWritten (root : Path) (d : Document) (disk disk' : Node) : Prop where
  snapshot : readFile disk' (Layout.snapshot root d.domain d.project d.id d.updateRevision)
    = .ok d.encode
  newest : readFile disk' (Layout.newest root d.domain d.project d.id) = .ok d.encode
  others : ∀ q,
    resolve disk' (Layout.snapshot root d.domain d.project d.id d.updateRevision) ≠ .ok q →
    resolve disk' (Layout.newest root d.domain d.project d.id) ≠ .ok q →
    disk'.content? q = disk.content? q ∧
      (disk.kindAt? q ≠ none → disk'.kindAt? q = disk.kindAt? q)

theorem bothWritten_of_persisted {made : Node} (hmade : Extended disk made)
    (htext : checkText (Layout.snapshot root d.domain d.project d.id d.updateRevision) = .ok ())
    (h : Persisted (Layout.documentDir root d.domain d.project d.id) here d made disk') :
    BothWritten root d disk disk' := by
  have hleads := h.leads.mono fun _ => h.kept
  have hdir := h.kept h.dir
  have hsnapshot := Layout.isName_snapshotName d.updateRevision
  have hnewest := Layout.isName_newestName
  refine ⟨readFile_join hleads hdir hsnapshot htext ((h.view _).trans (if_pos (.inl rfl))),
    readFile_join hleads hdir hnewest h.text ((h.view _).trans (if_pos (.inr rfl))),
    fun q hq hq' => ?_⟩
  have hother : ¬(q = here ++ [Layout.snapshotName d.updateRevision] ∨
      q = here ++ [Layout.newestName]) := by
    rintro (rfl | rfl)
    · exact hq (resolve_join hleads hdir hsnapshot htext)
    · exact hq' (resolve_join hleads hdir hnewest h.text)
  have hsame : disk'.kindAt? q = made.kindAt? q := (h.view q).trans (if_neg hother)
  exact ⟨(content?_congr hsame).trans (hmade.content? q),
    fun hkind => hsame.trans (hmade.kept q hkind)⟩

/-- **The two files of a document are written both or not at all.** If they are, both hold the
document and no other file has changed. If they are not, every file has the content that it had, and
nothing is new but directories. Whatever stands in the tree, and whatever paths the names in the
document make, there is no third case. -/
theorem persist_both_or_neither (root : Path) (d : Document) (hd : disk.Distinct) :
    (∃ disk', persist root d disk = .ok () disk' ∧ BothWritten root d disk disk') ∨
      ∃ failure disk', persist root d disk = .error failure disk' ∧ Extended disk disk' ∧
        ∀ q, disk'.content? q = disk.content? q := by
  have hmade := makeDirs_extended hd (Layout.newest root d.domain d.project d.id).parent
  rcases persist_outcome root d hd with ⟨failure, herror⟩ | ⟨here, disk', hok, hpersisted⟩
  · exact .inr ⟨failure, _, herror, hmade, hmade.content?⟩
  · have htext := checkText_snapshot_of_persist hok
    exact .inl ⟨disk', hok, bothWritten_of_persisted hmade htext hpersisted⟩

/-- A revision of a document. -/
def revised : Document :=
  { id := "timeout", domain := "shop", project := "web", key := "timeout", value := "60",
    updateRevision := 2 }

/-- A tree with a file for that revision and a directory in the place of the newest copy. -/
def obstructed (old : Bytes) : Node :=
  .dir [("kvs", .dir [("shop", .dir [("web", .dir [("timeout",
    .dir [("2.json", .file old), (Layout.newestName, .dir [])])])])])]

/-- A tree with an earlier revision of the document. -/
def revisable (old : Bytes) : Node :=
  .dir [("kvs", .dir [("shop", .dir [("web", .dir [("timeout",
    .dir [("1.json", .file old), (Layout.newestName, .file old)])])])])]

/-- Next to the earlier revision both files are written. In the place of the directory the newest
copy cannot be written, after the file of the revision has been overwritten; this is put back. -/
theorem persist_revised (old : Bytes) :
    (∃ disk', persist (.ofText "/kvs") revised (revisable old) = .ok () disk') ∧
      ∃ failure, persist (.ofText "/kvs") revised (obstructed old)
        = .error failure (obstructed old) := by
  obtain ⟨hdomain, hproject, hid, hrevision⟩ : revised.domain = "shop" ∧
      revised.project = "web" ∧ revised.id = "timeout" ∧ revised.updateRevision = 2 :=
    ⟨rfl, rfl, rfl, rfl⟩
  rw [persist, hdomain, hproject, hid, hrevision]
  generalize revised.encode = new
  exact ⟨⟨_, rfl⟩, _, rfl⟩

theorem persist_both_or_neither_sample :
    (revisable []).Distinct ∧ (obstructed []).Distinct ∧
      (∃ disk', persist (.ofText "/kvs") revised (revisable []) = .ok () disk' ∧
        BothWritten (.ofText "/kvs") revised (revisable []) disk') ∧
      ∃ failure disk', persist (.ofText "/kvs") revised (obstructed []) = .error failure disk' ∧
        Extended (obstructed []) disk' ∧ ∀ q, disk'.content? q = (obstructed []).content? q := by
  have hd : (revisable []).Distinct := by
    simp [revisable, Layout.newestName, distinct_dir_iff, distinct_file, or_imp, forall_and]
  have hd' : (obstructed []).Distinct := by
    simp [obstructed, Layout.newestName, distinct_dir_iff, distinct_file, or_imp, forall_and]
  obtain ⟨⟨written, hok⟩, failure, herror⟩ := persist_revised []
  refine ⟨hd, hd', ?_, ?_⟩
  · refine (persist_both_or_neither (.ofText "/kvs") revised hd).resolve_right ?_
    rintro ⟨failure', disk', herror', -⟩
    rw [hok] at herror'
    cases herror'
  · refine (persist_both_or_neither (.ofText "/kvs") revised hd').resolve_left ?_
    rintro ⟨disk', hok', -⟩
    rw [herror] at hok'
    cases hok'

end Store

/-! ## Writes as a whole -/

namespace Store

variable {s : Store} {caller : Caller} {state : StoreState}

/-- What writing the files of a document and deleting its old revisions keeps, a write keeps. -/
theorem keeps_write_of {P : Node → Prop} (hpersist : Keeps P (persist s.root d))
    (hrotate : Keeps P (Retention.rotate s.root d.domain d.project d.id s.maxHistory)) :
    Keeps (fun state : StoreState => P state.disk) (s.write d) :=
  hpersist.onDisk.bind fun _ => (Keeps.onCache _).bind fun _ =>
    hrotate.onDisk.bind fun _ => .of_looks (.pure _)

/-- To create a document is to write it, after checks. -/
theorem endsIn_create {P : StoreState → Prop} (hP : P state)
    (hwrite : Names.checkScope d.domain d.project = .ok () → Names.checkId d.id = .ok () →
      authorize s.policy caller .create d.labels = .ok () → EndsIn P (s.write d) state) :
    EndsIn P (s.create caller d) state := by
  refine .after_looks (.require _) hP fun _ hcheck => ?_
  refine .after_looks (.require _) hP fun _ hauth => ?_
  obtain ⟨hscope, hid⟩ := Names.checkDocument_eq_ok_iff.mp (require_eq_ok_iff.mp hcheck).1
  exact (hwrite hscope hid (require_eq_ok_iff.mp hauth).1).bind
    fun _ _ _ hend => .of_ok d rfl hend

/-- To update a document is to write what is made of the stored one, after checks. -/
theorem endsIn_update {P : StoreState → Prop} (hP : P state)
    (hwrite : ∀ stored, Names.checkScope d.domain d.project = .ok () →
      Names.checkId d.id = .ok () →
      readDocument s.root d.domain d.project d.id state.disk = .ok stored state.disk →
      authorize s.policy caller .update stored.labels = .ok () →
      EndsIn P (s.write (stored.merge d)) state) :
    EndsIn P (s.update caller d) state := by
  refine .after_looks (.require _) hP fun _ hcheck => ?_
  refine .after_looks (looks_readDocument ..).onDisk hP fun stored hread => ?_
  refine .after_looks (.require _) hP fun _ hauth => ?_
  refine .after_looks (.require _) hP fun _ _ => ?_
  obtain ⟨hscope, hid⟩ := Names.checkDocument_eq_ok_iff.mp (require_eq_ok_iff.mp hcheck).1
  exact (hwrite stored hscope hid (onDisk_eq_ok_iff.mp hread).1 (require_eq_ok_iff.mp hauth).1).bind
    fun _ _ _ hend => .of_ok (stored.merge d) rfl hend

end Store

/-! ## Changes in one directory -/

/-- No file has changed outside the directory to which a path leads, and no directory is gone. -/
structure Disk.Confined (path : Path) (disk disk' : Node) : Prop where
  distinct : disk'.Distinct
  dir : ∀ q, disk.kindAt? q = some .dir → disk'.kindAt? q = some .dir
  frame : ∀ q, disk'.content? q = disk.content? q ∨
    ∃ here name, q = here ++ [name] ∧ Leads path here disk'

namespace Disk.Confined

theorem refl (hd : disk.Distinct) (path : Path) : Confined path disk disk :=
  ⟨hd, fun _ hq => hq, fun _ => .inl rfl⟩

theorem trans (h : Confined path disk disk') (h' : Confined path disk' disk'') :
    Confined path disk disk'' where
  distinct := h'.distinct
  dir q hq := h'.dir q (h.dir q hq)
  frame := by
    intro q
    rcases h'.frame q with hsame | hthere
    · rcases h.frame q with hsame' | ⟨here, name, hq, hleads⟩
      · exact .inl (hsame.trans hsame')
      · exact .inr ⟨here, name, hq, hleads.mono h'.dir⟩
    · exact .inr hthere

theorem of_extended (h : Extended disk disk') (path : Path) : Confined path disk disk' :=
  ⟨h.distinct, fun _ => h.dir, fun q => .inl (h.content? q)⟩

theorem of_persisted (h : Persisted path here d disk disk') : Confined path disk disk' where
  distinct := h.distinct
  dir _ := h.kept
  frame := by
    intro q
    by_cases hq : q = here ++ [Layout.snapshotName d.updateRevision] ∨
        q = here ++ [Layout.newestName]
    · have hleads := h.leads.mono fun _ => h.kept
      rcases hq with rfl | rfl
      · exact .inr ⟨here, _, rfl, hleads⟩
      · exact .inr ⟨here, _, rfl, hleads⟩
    · exact .inl (content?_congr ((h.view q).trans (if_neg hq)))

/-- Files of the directory are gone. -/
theorem of_cleared {gone : List String} (hleads : Leads path here disk)
    (hgone : ∀ n ∈ gone, ∃ content, disk.kindAt? (here ++ [n]) = some (.file content))
    (h : Cleared here gone disk disk') : Confined path disk disk' where
  distinct := h.distinct
  dir _ := h.dir hgone
  frame := by
    intro q
    rcases h.eq_or_absent q with hsame | ⟨-, n, -, hq⟩
    · exact .inl (content?_congr hsame)
    · exact .inr ⟨here, n, hq, hleads.mono fun _ => h.dir hgone⟩

end Disk.Confined

namespace Store

variable {start : Node}

theorem keeps_persist (root : Path) (d : Document) :
    Keeps (Confined (Layout.documentDir root d.domain d.project d.id) start) (persist root d) := by
  refine ⟨fun disk h => ?_⟩
  have hmade := makeDirs_extended h.distinct (Layout.newest root d.domain d.project d.id).parent
  have hconfined := h.trans (.of_extended hmade _)
  rcases persist_outcome root d h.distinct with ⟨failure, herror⟩ | ⟨here, disk', hok, hpersisted⟩
  · exact .of_error failure herror hconfined
  · exact .of_ok () hok (hconfined.trans (.of_persisted hpersisted))

theorem keeps_rotate (root : Path) (domain project id : String) (max : Nat) :
    Keeps (Confined (Layout.documentDir root domain project id) start)
      (Retention.rotate root domain project id max) := by
  refine ⟨fun disk h => ?_⟩
  obtain ⟨disk', hends, hchange⟩ :=
    Library.rotate_outcome root domain project id max h.distinct
  refine ⟨disk', hends, ?_⟩
  rcases hchange with rfl | ⟨-, children, files, x, gone, -, hleads, -, -, hcleared, hgone⟩
  · exact h
  · exact h.trans (.of_cleared hleads (fun n hn => (hgone n hn).2) hcleared)

/-- A write changes files in the directory of its document only. -/
theorem keeps_write (s : Store) (d : Document) :
    Keeps (fun state : StoreState =>
        Confined (Layout.documentDir s.root d.domain d.project d.id) start state.disk)
      (s.write d) :=
  keeps_write_of (keeps_persist s.root d) (keeps_rotate ..)

end Store

end ConfigStore
