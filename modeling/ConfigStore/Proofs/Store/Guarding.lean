import ConfigStore.Proofs.Library.Counting
import ConfigStore.Proofs.Store.Displacing
import ConfigStore.Proofs.Store.Persisting
import ConfigStore.Proofs.Store.Watching

/-!
# Documents under a watch

Whatever else the tree holds, the actions of a store keep a watch if they are allowed only where
the watch is open: a document may be written at a place, or deleted from it, if the watch lets the
newest copy there come and go.

* `Watch.Opens` says so of a place, and `Watch.Stages` of a deletion that only goes through where
  the watch is open.
* `Watch.keeps_create`, `Watch.keeps_update`, `Watch.keeps_deleteOne` and `Watch.keeps_deleteMany`
  are the four ways to change a document; `Watch.keeps_rotate` deletes old revisions.
* `Watch.keeps_advance` and `Watch.keeps_putPolling` write what is no document.
-/

namespace ConfigStore

open Node Disk Files Deletion

namespace Watch

variable {w : Watch} {s : Store} {root : Path} {base : Place} {disk disk' : Node} {caller : Caller}
  {domain project id : String} {ids : List String} {d : Document}

/-- Any document of a place may be written there, and deleted. -/
structure Opens (w : Watch) (domain project id : String) : Prop
    extends w.Frees domain project id where
  written : ∀ d : Document, d.domain = domain → d.project = project → d.id = id →
    w.allows (Deletion.home domain project id ++ [Layout.newestName]) (some d.encode)

/-- The tree of a store under a watch. -/
abbrev Over (w : Watch) (s : Store) (base : Place) (state : StoreState) : Prop :=
  w.Holds s.root base state.disk

/-! ## Writing -/

theorem keeps_persist (hopens : w.Opens d.domain d.project d.id)
    (hpieces : ∀ n ∈ home d.domain d.project d.id, IsPiece n) :
    Keeps (w.Holds root base) (Store.persist root d) := by
  have hsnapshot : Keeps (Ledger.Safe (w.Holds root base))
      (Files.write (Layout.snapshot root d.domain d.project d.id d.updateRevision) d.encode) := by
    rw [Layout.snapshot, documentDir_eq]
    have hfree : ∀ content?, w.allows (home d.domain d.project d.id
        ++ [Layout.snapshotName d.updateRevision]) content? := by
      refine w.allows_of_getLast? ?_
      rw [List.getLast?_concat]
      exact fun h => Layout.snapshotName_ne_newestName _ (Option.some.inj h)
    exact keeps_write (List.cons_ne_nil _ _) hpieces (Layout.isName_snapshotName _).toIsPiece
      (hfree none) (hfree _)
  have hnewest : Keeps (Ledger.Safe (w.Holds root base))
      (Files.write (Layout.newest root d.domain d.project d.id) d.encode) := by
    rw [Layout.newest, documentDir_eq]
    exact keeps_write (List.cons_ne_nil _ _) hpieces Layout.isName_newestName.toIsPiece hopens.home
      (hopens.written d rfl rfl rfl)
  exact (hsnapshot.bind fun _ => hnewest).allOrNothing

/-- Old revisions are no newest copies, wherever they are looked for. -/
theorem keeps_rotate (max : Nat) :
    Keeps (w.Holds root base) (Retention.rotate root domain project id max) := by
  refine ⟨fun disk h => ?_⟩
  obtain ⟨disk', hends, hchange⟩ :=
    Library.rotate_outcome root domain project id max h.grounded.distinct
  refine ⟨disk', hends, ?_⟩
  rcases hchange with rfl | ⟨-, children, files, x, gone, -, -, -, -, hcleared, hgone⟩
  · exact h
  · refine h.cleared (fun n hn => ?_) hcleared
    obtain ⟨⟨e, -, rfl⟩, hfile⟩ := hgone n hn
    exact ⟨Layout.snapshotName_ne_newestName _, hfile⟩

theorem keeps_storeWrite (hopens : w.Opens d.domain d.project d.id)
    (hpieces : ∀ n ∈ home d.domain d.project d.id, IsPiece n) :
    Keeps (w.Over s base) (s.write d) :=
  Store.keeps_write_of (keeps_persist hopens hpieces) (keeps_rotate _)

/-- A document may be created if the watch is open for it, or if the caller may not do so. -/
theorem keeps_create
    (hopens : Names.checkScope d.domain d.project = .ok () →
      authorize s.policy caller .create d.labels = .ok () → w.Opens d.domain d.project d.id) :
    Keeps (w.Over s base) (s.create caller d) := by
  refine ⟨fun state hstate => Store.endsIn_create hstate fun hscope hid hauth => ?_⟩
  exact (keeps_storeWrite (hopens hscope hauth) (isPiece_home hscope hid)).outcome state hstate

/-! ## Reading, and writing what was read -/

/-- A newest copy that can be read is that of its place. -/
theorem Holds.content_of_read (h : w.Holds root base disk)
    (hpieces : ∀ n ∈ home domain project id, IsPiece n) {content : Bytes}
    (hread : readFile disk (Layout.newest root domain project id) = .ok content) :
    disk.content? (base ++ (home domain project id ++ [Layout.newestName])) = some content := by
  obtain ⟨-, -, hfile⟩ :=
    readFile_inv h.grounded.leads hpieces Layout.isName_newestName.toIsPiece hread
  rwa [← List.append_assoc, content?_eq_some_iff]

/-- A newest copy can be read whose path is one that a disk takes. -/
theorem Holds.read_of_content (h : w.Holds root base disk)
    (hnames : ∀ n ∈ home domain project id, IsName n)
    (htext : checkText (Layout.newest root domain project id) = .ok ()) {content : Bytes}
    (hcontent : disk.content? (base ++ (home domain project id ++ [Layout.newestName]))
      = some content) : readFile disk (Layout.newest root domain project id) = .ok content := by
  rw [content?_eq_some_iff, ← List.append_assoc] at hcontent
  have hdir : disk.kindAt? (base ++ home domain project id) = some .dir :=
    kindAt?_eq_dir_of_append (List.cons_ne_nil _ _) (by rw [hcontent]; simp)
  exact readFile_join (h.grounded.leads.descend hnames hdir) hdir Layout.isName_newestName htext
    hcontent

theorem Holds.place_of_read (h : w.Holds root base disk)
    (hscope : Names.checkScope domain project = .ok ()) (hid : Names.checkId id = .ok ())
    (hread : Store.readDocument root domain project id disk = .ok d disk') :
    d.domain = domain ∧ d.project = project ∧ d.id = id := by
  obtain ⟨-, content, hfile, hdecode⟩ := Store.readDocument_eq_ok_iff.mp hread
  have hallowed := h.allowed (home domain project id ++ [Layout.newestName])
  rw [h.content_of_read (isPiece_home hscope hid) hfile] at hallowed
  exact w.truthful domain project id content d (Names.ne_tmpName_of_checkScope hscope) hallowed
    hdecode

/-- A document may be updated if the watch is open for it whenever the caller may do so. -/
theorem keeps_update
    (hopens : ∀ disk stored, Names.checkScope d.domain d.project = .ok () →
      Names.checkId d.id = .ok () → w.Holds s.root base disk →
      Store.readDocument s.root d.domain d.project d.id disk = .ok stored disk →
      authorize s.policy caller .update stored.labels = .ok () →
      w.Opens d.domain d.project d.id) : Keeps (w.Over s base) (s.update caller d) := by
  refine ⟨fun state hstate => Store.endsIn_update hstate fun stored hscope hid hread hauth => ?_⟩
  -- the document is written at the place that is stored in it, which is where it was read
  obtain ⟨hdomain, hproject, hplace⟩ := hstate.place_of_read hscope hid hread
  have hopen := hopens state.disk stored hscope hid hstate hread hauth
  have hpieces := isPiece_home hscope hid
  rw [← hdomain, ← hproject, ← hplace] at hopen hpieces
  have hwrite : Keeps (w.Over s base) (s.write (stored.merge d)) := keeps_storeWrite hopen hpieces
  exact hwrite.outcome state hstate

/-! ## Deleting -/

theorem keeps_cleanAside (haside : w.allows (aside domain project id ++ [Layout.newestName]) none)
    (hpieces : ∀ n ∈ home domain project id, IsPiece n) :
    Keeps (w.Holds root base) (clean (root.descend (aside domain project id))) := by
  refine keeps_clean (isPiece_aside hpieces) (List.cons_ne_nil _ _) (fun n q => ?_)
    (w.free _ _ not_isNewest_aside)
  by_cases hnewest : IsNewest (aside domain project id ++ n :: q)
  · obtain ⟨rfl, rfl⟩ := isNewest_aside_iff.mp hnewest
    exact haside
  · exact w.free _ _ hnewest

/-- A document may be deleted if the watch is open for it. -/
theorem Frees.upheld (hfrees : w.Frees domain project id) (hdomain : domain ≠ Layout.tmpName)
    (hpieces : ∀ n ∈ Deletion.home domain project id, IsPiece n) :
    Upheld (w.Holds root base) root domain project id where
  moveAside := keeps_moveDir (hfrees.admits_aside hdomain) (route_aside hdomain hpieces)
  moveHome := keeps_moveDir (hfrees.admits_home hdomain) (route_home hdomain hpieces)
  cleanAside := keeps_cleanAside hfrees.aside hpieces
  cleanHome := keeps_clean hpieces (List.cons_ne_nil _ _) (hfrees.allows_home hdomain)
    (w.free _ _ not_isNewest_home)

/-- Moving a document aside keeps the watch, and succeeds only if the watch is open for it. -/
structure Stages (w : Watch) (s : Store) (caller : Caller) (base : Place)
    (domain project id : String) : Prop where
  keeps : Keeps (w.Holds s.root base) (stage s caller domain project id)
  frees : ∀ disk d disk', w.Holds s.root base disk →
    stage s caller domain project id disk = .ok d disk' → w.Frees domain project id

theorem Frees.stages (hfrees : w.Frees domain project id) (hdomain : domain ≠ Layout.tmpName)
    (hpieces : ∀ n ∈ Deletion.home domain project id, IsPiece n) :
    w.Stages s caller base domain project id :=
  ⟨(hfrees.upheld hdomain hpieces).stage caller, fun _ _ _ _ _ => hfrees⟩

theorem Stages.toDeletion (h : w.Stages s caller base domain project id)
    (hdomain : domain ≠ Layout.tmpName)
    (hpieces : ∀ n ∈ Deletion.home domain project id, IsPiece n) :
    Deletion.Stages (w.Holds s.root base) s caller domain project id :=
  ⟨h.keeps, fun disk d disk' hdisk hok => (h.frees disk d disk' hdisk hok).upheld hdomain hpieces⟩

theorem keeps_deleteOne
    (hstages : Names.checkScope domain project = .ok () → Names.checkId id = .ok () →
      w.Stages s caller base domain project id) :
    Keeps (w.Over s base) (s.deleteOne caller domain project id) :=
  Deletion.keeps_deleteOne fun hscope hid => (hstages hscope hid).toDeletion
    (Names.ne_tmpName_of_checkScope hscope) (isPiece_home hscope hid)

theorem keeps_deleteMany
    (hstages : ∀ id, Names.checkScope domain project = .ok () → Names.checkId id = .ok () →
      w.Stages s caller base domain project id) :
    Keeps (w.Over s base) (s.deleteMany caller domain project ids) :=
  Deletion.keeps_deleteMany fun id hscope hid => (hstages id hscope hid).toDeletion
    (Names.ne_tmpName_of_checkScope hscope) (isPiece_home hscope hid)

/-! ## Counters and polling records -/

theorem keeps_advance (domain : String) :
    Keeps (w.Holds root base) (Counter.advance root domain) := by
  have hname : IsPiece "revision" := ⟨by decide, by decide, by decide, by decide⟩
  have hdirs : Keeps (w.Holds root base) (ensureDir (Layout.counter root domain).parent) := by
    have hle := Path.parent_join_le (root.join domain) hname
    refine keeps_ensureDir (Path.noSlash_ofText domain) ?_
    rcases Path.pieces_join_text root domain with hpieces | hpieces
    · exact .inl (hpieces ▸ hle)
    · exact .inr (hpieces ▸ hle)
  have hwrite : ∀ content,
      Keeps (w.Holds root base) (overwrite (Layout.counter root domain) content) :=
    fun content => keeps_overwrite hname (aims_of_ne (by decide) _)
  refine (Keeps.of_looks (looks_current root domain)).bind fun n => ?_
  exact (write_keeps hdirs (hwrite _)).forgetful.bind fun _ => .of_looks (.pure _)

theorem keeps_putPolling (record : PollingRecord) :
    Keeps (w.Holds root base) (PollingLog.put root record) := by
  refine ⟨fun disk h => PollingLog.endsIn_put h fun hpieces hname => ?_⟩
  have hwrite : Keeps (w.Holds root base) (overwrite (Layout.track root record.domain record.project
      (PollingLog.revisionName record) record.sessionId) record.encode) :=
    keeps_overwrite hname (aims_of_allows hpieces (w.free _ _ not_isNewest_track))
  exact (write_keeps (keeps_parent (List.cons_ne_nil _ _) hpieces hname) hwrite).forgetful.outcome
    disk h

end Watch

end ConfigStore
