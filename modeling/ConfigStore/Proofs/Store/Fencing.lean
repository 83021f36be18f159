import ConfigStore.Proofs.Files.Walking
import ConfigStore.Proofs.Library.Counting
import ConfigStore.Proofs.Store.Displacing
import ConfigStore.Proofs.Store.Persisting

/-!
# Fences around what a store keeps

The files of a store are not all of one kind: documents, counters and polling records share one
tree. A fence says what may stand at each place of the tree, and it holds for a request that changes
only what the fence leaves free. Three actions of a store lead to new directories: the way to a file
is created, and the children of a directory are moved to another one or back. Files come and go in
the directories of documents, at the places of counters and at those of polling records.

* `Disk.Fenced` says that whatever stands in a tree is allowed by a fence; `Disk.Fenced.grown`,
  `Disk.Fenced.changed`, `Disk.Fenced.transferred` and their like say which changes of the tree keep
  this.
* `Disk.Free` says that a fence leaves a directory free, with the way to it and all that is below
  it, and `Disk.Shut` that it keeps a directory from being there. `Disk.Lax` says that it leaves
  snapshots free, wherever they are.
* `Disk.Fenced.keeps_create`, `Disk.Fenced.stages`, `Disk.Fenced.keeps_advance` and their like say
  what keeps a fence.
-/

namespace ConfigStore

open Node Disk Files Deletion

/-- What may stand at a place below the root of a store. -/
abbrev Disk.Fence := Place → Option Kind → Prop

/-- There may be a directory, and anything below it. -/
structure Disk.Free (fence : Fence) (ns : List String) : Prop where
  above : ∀ q, q <+: ns → fence q (some .dir)
  below : ∀ q kind, ns <+: q → fence q kind

/-- There cannot be a directory, for there is none on the way to it. -/
def Disk.Shut (fence : Fence) (ns : List String) : Prop := ∃ q, q <+: ns ∧ ¬fence q (some .dir)

/-- Any file may go missing that is in a directory below which a document may be. -/
def Disk.Lax (fence : Fence) : Prop :=
  ∀ here name content, fence (here ++ [name]) (some (.file content)) →
    fence (here ++ [name]) none ∨
      ∀ place stored d, fence (here ++ place) (some (.file stored)) →
        Document.decode stored ≠ .ok d

/-- The tree of a store in which everything may stand where it stands. -/
structure Disk.Fenced (fence : Fence) (root : Path) (base : Place) (disk : Node) : Prop
    extends Site root base disk where
  allowed : ∀ q, fence q (disk.kindAt? (base ++ q))

namespace Disk.Fenced

variable {fence : Fence} {root path : Path} {base here : Place} {disk disk' : Node}
  {name : String} {ns ms names gone lost : List String} {content : Bytes}

/-! ## Changes of the tree -/

/-- Directories are created on the way to another one. -/
theorem grown (h : Fenced fence root base disk) (hsite : Site root base disk')
    (habove : ∀ q, q <+: ns → fence q (some .dir)) (hgrown : Grown (base ++ ns) disk disk') :
    Fenced fence root base disk' := by
  refine ⟨hsite, fun q => ?_⟩
  cases hkind : disk.kindAt? (base ++ q) with
  | some kind =>
    rw [hgrown.kept _ (by rw [hkind]; simp)]
    exact h.allowed q
  | none =>
    cases hkind' : disk'.kindAt? (base ++ q) with
    | none => exact hkind ▸ h.allowed q
    | some kind =>
      obtain ⟨hdir, hle⟩ := hgrown.added _ hkind (by rw [hkind']; simp)
      rw [← hkind', hdir]
      exact habove q ((List.prefix_append_right_inj base).mp hle)

/-- A file has been written or removed. -/
theorem changed (h : Fenced fence root base disk) (hname : IsName name) (hd : disk'.Distinct)
    (hframe : ∀ q, q ≠ here ++ [name] → disk'.kindAt? q = disk.kindAt? q)
    (hdir : disk.kindAt? (here ++ [name]) ≠ some .dir)
    (hallowed : ∀ q, base ++ q = here ++ [name] → fence q (disk'.kindAt? (here ++ [name]))) :
    Fenced fence root base disk' := by
  refine ⟨h.toSite.changed hname hd hframe hdir, fun q => ?_⟩
  by_cases heq : base ++ q = here ++ [name]
  · rw [heq]
    exact hallowed q heq
  · rw [hframe _ heq]
    exact h.allowed q

/-- Children of one directory have been moved to another one. -/
theorem transferred (h : Fenced fence root base disk) (hsite : Site root base disk')
    (hsource : Free fence ns) (htarget : Free fence ms)
    (hmoved : Transferred (base ++ ns) (base ++ ms) names disk disk') :
    Fenced fence root base disk' := by
  refine ⟨hsite, fun q => ?_⟩
  rcases hmoved.place_cases (base ++ q) with
    hsame | ⟨-, n, -, r, hplace⟩ | ⟨n, -, r, hplace, -⟩
  · rw [hsame]
    exact h.allowed q
  · rw [List.append_assoc, List.append_cancel_left_eq] at hplace
    exact hsource.below q _ ⟨n :: r, hplace.symm⟩
  · rw [List.append_assoc, List.append_cancel_left_eq] at hplace
    exact htarget.below q _ ⟨n :: r, hplace.symm⟩

/-- A directory has lost what it held under some names. -/
theorem reverted (h : Fenced fence root base disk) (hsite : Site root base disk')
    (htarget : Free fence ms) (hreverted : Reverted (base ++ ms) lost disk disk') :
    Fenced fence root base disk' := by
  refine ⟨hsite, fun q => ?_⟩
  rcases hreverted.eq_or_gone (base ++ q) with hsame | ⟨-, n, -, r, hplace⟩
  · rw [hsame]
    exact h.allowed q
  · rw [List.append_assoc, List.append_cancel_left_eq] at hplace
    exact htarget.below q _ ⟨n :: r, hplace.symm⟩

/-- Whatever was below a directory is gone, and the directory as well. -/
theorem removed (h : Fenced fence root base disk) (hsite : Site root base disk')
    (hfree : Free fence ns) (hremoved : Removed (base ++ ns) disk disk') :
    Fenced fence root base disk' := by
  refine ⟨hsite, fun q => ?_⟩
  by_cases hbelow : ns <+: q
  · exact hfree.below q _ hbelow
  · rw [hremoved.frame _ fun hle => hbelow ((List.prefix_append_right_inj base).mp hle)]
    exact h.allowed q

/-- Files of one directory are gone. -/
theorem cleared (h : Fenced fence root base disk)
    (hgone : ∀ n ∈ gone, ∃ content, disk.kindAt? (here ++ [n]) = some (.file content))
    (hallowed : ∀ n ∈ gone, ∀ q, base ++ q = here ++ [n] → fence q none)
    (hcleared : Cleared here gone disk disk') : Fenced fence root base disk' := by
  refine ⟨h.toSite.cleared hgone hcleared, fun q => ?_⟩
  rcases hcleared.eq_or_absent (base ++ q) with hsame | ⟨hnone, n, hn, hplace⟩
  · rw [hsame]
    exact h.allowed q
  · rw [hnone]
    exact hallowed n hn q hplace

/-- The two files of a document have been written into a directory. -/
theorem persisted {d : Document} (h : Fenced fence root base disk) (hfree : Free fence ns)
    (hwritten : Persisted path (base ++ ns) d disk disk') : Fenced fence root base disk' := by
  have hsite : Site root base disk' := by
    refine ⟨h.grounded.mono hwritten.distinct fun _ hq _ => hwritten.kept hq, fun q n hn => ?_⟩
    rw [hwritten.view] at hn
    split at hn
    next hfile =>
      rcases hfile with hfile | hfile <;> obtain rfl := (List.append_inj' hfile rfl).2 |>
        List.cons.inj |>.1
      · exact Layout.isName_snapshotName _
      · exact Layout.isName_newestName
    next => exact h.named q n hn
  refine ⟨hsite, fun q => ?_⟩
  by_cases hbelow : ns <+: q
  · exact hfree.below q _ hbelow
  · rw [hwritten.view, if_neg]
    · exact h.allowed q
    · have hne : ∀ n, base ++ q ≠ base ++ ns ++ [n] := by
        intro n heq
        rw [List.append_assoc, List.append_cancel_left_eq] at heq
        exact hbelow ⟨[n], heq.symm⟩
      exact not_or.mpr ⟨hne _, hne _⟩

/-! ## Actions on files -/

theorem makeDirs (h : Fenced fence root base disk) (hns : ∀ n ∈ ns, IsPiece n) (hne : ns ≠ [])
    (habove : ∀ q, q <+: ns → fence q (some .dir)) :
    Fenced fence root base (Disk.makeDirs (root.descend ns) disk).2 :=
  have hpaved := makeDirs_paved h.grounded hns hne
  h.grown (h.toSite.sprouted hpaved.sprouted) habove hpaved.grown

/-- A file below the root is written if it may be there, and so may the directories on the way. -/
theorem keeps_writeFile (hns : ∀ n ∈ ns, IsPiece n) (hne : ns ≠ []) (hname : IsPiece name)
    (habove : ∀ q, q <+: ns → fence q (some .dir))
    (hfile : fence (ns ++ [name]) (some (.file content))) :
    Keeps (Fenced fence root base)
      (Files.write ((root.descend ns).join name) content).forgetful := by
  have hdirs : Keeps (Fenced fence root base)
      (ensureDir ((root.descend ns).join name).parent) := by
    rw [Path.parent_descend_join root hne hns hname]
    refine ⟨fun disk h => ?_⟩
    have hmade := h.makeDirs hns hne habove
    rcases hend : Disk.makeDirs (root.descend ns) disk with ⟨refusal | u, disk'⟩
    · rw [hend] at hmade
      exact .of_error (.disk (.makeDir (root.descend ns)) refusal) (by rw [ensureDir, hend]) hmade
    · rw [hend] at hmade
      exact .of_ok () (by rw [ensureDir, hend]) hmade
  have hwrite : Keeps (Fenced fence root base)
      (overwrite ((root.descend ns).join name) content) := by
    refine ⟨fun disk h => ?_⟩
    cases hend : writeFile ((root.descend ns).join name) content disk with
    | error refusal =>
      exact .of_error (.disk (.write ((root.descend ns).join name)) refusal)
        (by simp only [overwrite, change, hend]) h
    | ok disk' =>
      have hok : overwrite ((root.descend ns).join name) content disk = .ok () disk' := by
        simp only [overwrite, change, hend]
      obtain ⟨here, hleads, hhere, hfits, hdir, rfl⟩ := writeFile_inv hname hend
      obtain rfl := h.grounded.leads.place_eq hns hleads
      have hput := kindAt?_put_file h.grounded.distinct hhere hdir content
      refine .of_ok () hok (h.changed hfits (h.grounded.distinct.put (distinct_file content) _)
        (fun q hq => (hput q).trans (if_neg hq)) hdir fun q hq => ?_)
      rw [List.append_assoc, List.append_cancel_left_eq] at hq
      rwa [hput, if_pos rfl, hq]
  exact (write_keeps hdirs hwrite).forgetful

/-- The children of one directory are moved into another one, or back. -/
theorem keeps_moveDir (hsource : Free fence ns) (htarget : Free fence ms) (hroute : Route ns ms) :
    Keeps (Fenced fence root base) (moveDir (root.descend ns) (root.descend ms)) := by
  refine ⟨fun disk h => ?_⟩
  obtain ⟨mid, disk', hends, hsite, hsprouted, hgrown, hchange⟩ := h.toSite.moveDir hroute
  have hmid := h.grown (h.toSite.sprouted hsprouted) htarget.above hgrown
  rcases hchange with ⟨names, hmoved⟩ | ⟨lost, hreverted⟩
  · exact ⟨disk', hends, hmid.transferred hsite hsource htarget hmoved⟩
  · exact ⟨disk', hends, hmid.reverted hsite htarget hreverted⟩

/-- A directory is removed with its files, or stays. -/
theorem keeps_clean (hfree : Free fence ns) (hns : ∀ n ∈ ns, IsPiece n) (hne : ns ≠ []) :
    Keeps (Fenced fence root base) (clean (root.descend ns)) := by
  refine ⟨fun disk h => ?_⟩
  obtain ⟨disk', hends, hsite, ⟨-, hsame⟩ | ⟨-, hremoved⟩⟩ := h.toSite.clean hns hne
  · exact ⟨disk', hends, hsite, fun q => hsame (base ++ q) ▸ h.allowed q⟩
  · exact ⟨disk', hends, h.removed hsite hfree hremoved⟩

/-- What is shut off cannot be read. -/
theorem unread (h : Fenced fence root base disk) (hshut : Shut fence ns)
    (hns : ∀ n ∈ ns, IsPiece n) (hname : IsPiece name) :
    ∃ refusal, readFile disk ((root.descend ns).join name) = .error refusal := by
  cases hread : readFile disk ((root.descend ns).join name) with
  | error refusal => exact ⟨refusal, rfl⟩
  | ok content =>
    obtain ⟨q, hle, hnot⟩ := hshut
    obtain ⟨-, -, hfile⟩ := readFile_inv h.grounded.leads hns hname hread
    have hdir : disk.kindAt? (base ++ q) = some .dir := by
      refine kindAt?_eq_dir_above ((List.prefix_append_right_inj base).mpr hle)
        (kindAt?_eq_dir_of_append (List.cons_ne_nil name []) ?_)
      rw [hfile]
      simp
    exact absurd (hdir ▸ h.allowed q) hnot

/-! ## Documents -/

variable {s : Store} {domain project id : String} {d : Document} {state : StoreState}
  {caller : Caller}

theorem keeps_persist (hfree : Free fence (home d.domain d.project d.id))
    (hpieces : ∀ n ∈ home d.domain d.project d.id, IsPiece n) :
    Keeps (Fenced fence root base) (Store.persist root d) := by
  refine ⟨fun disk h => ?_⟩
  have hparent : (Layout.newest root d.domain d.project d.id).parent
      = root.descend (home d.domain d.project d.id) :=
    Path.parent_descend_join root (List.cons_ne_nil _ _) hpieces Layout.isName_newestName.toIsPiece
  have hmade := h.makeDirs hpieces (List.cons_ne_nil _ _) hfree.above
  have houtcome := Store.persist_outcome root d h.grounded.distinct
  rw [hparent] at houtcome
  rcases houtcome with ⟨failure, herror⟩ | ⟨here, disk', hok, hpersisted⟩
  · exact .of_error failure herror hmade
  · obtain rfl := hmade.grounded.leads.place_eq hpieces hpersisted.leads
    exact .of_ok () hok (hmade.persisted hfree hpersisted)

/-- Snapshots are deleted where files may be missing; nothing is deleted from a directory below
which there are no documents. -/
theorem keeps_rotate_of (hnone : ∀ disk here n q, Fenced fence root base disk →
      Leads (Layout.documentDir root domain project id) here disk → base ++ q = here ++ [n] →
      (∃ content, disk.kindAt? (here ++ [n]) = some (.file content)) →
      (∃ place content d, disk.content? (here ++ place) = some content ∧
        Document.decode content = .ok d) → fence q none) (max : Nat) :
    Keeps (Fenced fence root base) (Retention.rotate root domain project id max) := by
  refine ⟨fun disk h => ?_⟩
  obtain ⟨disk', hends, hchange⟩ :=
    Library.rotate_outcome root domain project id max h.grounded.distinct
  refine ⟨disk', hends, ?_⟩
  rcases hchange with
    rfl | ⟨-, children, files, here, gone, hentries, hleads, hat, hfiles, hcleared, hgone⟩
  · exact h
  · refine h.cleared (fun n hn => (hgone n hn).2) (fun n hn q hq => ?_) hcleared
    obtain ⟨⟨d, hd, -⟩, hfile⟩ := hgone n hn
    have hlisted := (byPriority_perm _).mem_iff.mp (List.mem_of_mem_drop hd)
    obtain ⟨file, hmem, hdecode⟩ := List.mem_filterMap.mp hlisted
    obtain ⟨place, hcontent⟩ :=
      content?_of_filesBelow h.grounded.distinct hat hentries hfiles file hmem
    exact hnone disk here n q h hleads hq hfile
      ⟨place, file.2, d, hcontent, toOption_eq_some_iff.mp hdecode⟩

/-- Snapshots of any document may be deleted, whatever its names are. -/
theorem keeps_rotate (hlax : Lax fence) (max : Nat) :
    Keeps (Fenced fence root base) (Retention.rotate root domain project id max) := by
  refine keeps_rotate_of (fun disk here n q h _ hplace hfile hdocument => ?_) max
  obtain ⟨content, hfile⟩ := hfile
  obtain ⟨place, stored, d, hstored, hdecode⟩ := hdocument
  -- The root is a directory, so the snapshot is below it.
  rcases List.eq_nil_or_concat q with rfl | ⟨front, last, rfl⟩
  · rw [← hplace, List.append_nil, h.grounded.isDir] at hfile
    cases hfile
  · rw [List.concat_eq_append, ← List.append_assoc] at hplace
    obtain ⟨rfl, hlast⟩ := List.append_inj' hplace rfl
    obtain rfl : last = n := (List.cons.inj hlast).1
    rw [List.concat_eq_append]
    have hallowed := h.allowed (front ++ [last])
    rw [← List.append_assoc, hfile] at hallowed
    rcases hlax front last content hallowed with hnone | hnot
    · exact hnone
    · have hbelow := h.allowed (front ++ place)
      rw [← List.append_assoc, content?_eq_some_iff.mp hstored] at hbelow
      exact absurd hdecode (hnot place stored d hbelow)

theorem keeps_write (hfree : Free fence (home d.domain d.project d.id))
    (hpieces : ∀ n ∈ home d.domain d.project d.id, IsPiece n) :
    Keeps (fun state : StoreState => Fenced fence s.root base state.disk) (s.write d) := by
  refine Store.keeps_write_of (keeps_persist hfree hpieces) (keeps_rotate_of ?_ _)
  intro disk here n q h hleads hplace _ _
  obtain rfl := h.grounded.leads.place_eq hpieces hleads
  rw [List.append_assoc, List.append_cancel_left_eq] at hplace
  exact hfree.below q none ⟨[n], hplace.symm⟩

theorem keeps_create (caller : Caller)
    (hfree : Names.checkScope d.domain d.project = .ok () → Names.checkId d.id = .ok () →
      Free fence (home d.domain d.project d.id)) :
    Keeps (fun state : StoreState => Fenced fence s.root base state.disk) (s.create caller d) :=
  ⟨fun state h => Store.endsIn_create h fun hscope hid _ =>
    (keeps_write (hfree hscope hid) (isPiece_home hscope hid)).outcome state h⟩

/-- An update goes where the stored document says, which is where it is stored; if nothing can be
there, nothing happens. -/
theorem endsIn_update (h : Fenced fence s.root base state.disk) (caller : Caller)
    (hfree : Names.checkScope d.domain d.project = .ok () → Names.checkId d.id = .ok () →
      Free fence (home d.domain d.project d.id) ∨ Shut fence (home d.domain d.project d.id))
    (htrue : ∀ stored, Names.checkScope d.domain d.project = .ok () →
      Names.checkId d.id = .ok () →
      Store.readDocument s.root d.domain d.project d.id state.disk = .ok stored state.disk →
      stored.domain = d.domain ∧ stored.project = d.project ∧ stored.id = d.id) :
    EndsIn (fun state : StoreState => Fenced fence s.root base state.disk) (s.update caller d)
      state := by
  refine Store.endsIn_update h fun stored hscope hid hread _ => ?_
  have hpieces := isPiece_home hscope hid
  rcases hfree hscope hid with hfree | hshut
  · obtain ⟨hdomain, hproject, hplace⟩ := htrue stored hscope hid hread
    rw [← hdomain, ← hproject, ← hplace] at hpieces hfree
    have hwrite : Keeps (fun state : StoreState => Fenced fence s.root base state.disk)
        (s.write (stored.merge d)) := keeps_write hfree hpieces
    exact hwrite.outcome state h
  · obtain ⟨-, content, hcontent, -⟩ := Store.readDocument_eq_ok_iff.mp hread
    obtain ⟨refusal, herror⟩ := h.unread hshut hpieces Layout.isName_newestName.toIsPiece
    cases hcontent.symm.trans herror

theorem upheld (hhome : Free fence (home domain project id))
    (haside : Free fence (aside domain project id))
    (hscope : Names.checkScope domain project = .ok ()) (hid : Names.checkId id = .ok ()) :
    Upheld (Fenced fence root base) root domain project id := by
  have hdomain := Names.ne_tmpName_of_checkScope hscope
  have hpieces := isPiece_home hscope hid
  constructor
  · exact keeps_moveDir hhome haside (route_aside hdomain hpieces)
  · exact keeps_moveDir haside hhome (route_home hdomain hpieces)
  · exact keeps_clean haside (isPiece_aside hpieces) (List.cons_ne_nil _ _)
  · exact keeps_clean hhome hpieces (List.cons_ne_nil _ _)

theorem stages (s : Store) (base : Place) (caller : Caller)
    (hfree : Free fence (home domain project id) ∨ Shut fence (home domain project id))
    (haside : Free fence (aside domain project id))
    (hscope : Names.checkScope domain project = .ok ()) (hid : Names.checkId id = .ok ()) :
    Stages (Fenced fence s.root base) s caller domain project id := by
  rcases hfree with hhome | hshut
  · exact (upheld hhome haside hscope hid).stages caller
  · -- nothing is moved aside where nothing can be read
    have hstage : ∀ disk, Fenced fence s.root base disk →
        ∃ failure, stage s caller domain project id disk = .error failure disk := by
      intro disk h
      obtain ⟨refusal, herror⟩ := h.unread hshut (isPiece_home hscope hid)
        Layout.isName_newestName.toIsPiece
      exact stage_unread caller herror
    refine ⟨⟨fun disk h => ?_⟩, fun disk d disk' h hok => ?_⟩
    · obtain ⟨failure, herror⟩ := hstage disk h
      exact .of_error failure herror h
    · obtain ⟨failure, herror⟩ := hstage disk h
      cases herror.symm.trans hok

/-! ## Counters and polling records -/

theorem keeps_advance (hplain : Names.isPlain domain = true)
    (habove : ∀ q, q <+: [domain] → fence q (some .dir))
    (hfile : ∀ content, fence [domain, Layout.counterName] (some (.file content))) :
    Keeps (Fenced fence root base) (Counter.advance root domain) := by
  have hpieces : ∀ n ∈ [domain], IsPiece n :=
    List.forall_mem_singleton.mpr (Names.isPiece_of_isPlain hplain)
  refine (Keeps.of_looks (looks_current root domain)).bind fun n => ?_
  exact (keeps_writeFile hpieces (List.cons_ne_nil _ _) Layout.isName_counterName.toIsPiece
    habove (hfile _)).bind fun _ => .of_looks (.pure _)

theorem keeps_putPolling (record : PollingRecord)
    (habove : ∀ q, q <+: [Layout.trackName, record.domain, record.project,
      PollingLog.revisionName record] → fence q (some .dir))
    (hfile : fence [Layout.trackName, record.domain, record.project,
      PollingLog.revisionName record, record.sessionId ++ ".json"] (some (.file record.encode))) :
    Keeps (Fenced fence root base) (PollingLog.put root record) :=
  ⟨fun disk h => PollingLog.endsIn_put h fun hpieces hname =>
    (keeps_writeFile hpieces (List.cons_ne_nil _ _) hname habove hfile).outcome disk h⟩

end Disk.Fenced

end ConfigStore
