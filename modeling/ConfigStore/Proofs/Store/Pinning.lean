import ConfigStore.Proofs.Document.RoundTrip
import ConfigStore.Proofs.Library.Holding
import ConfigStore.Proofs.Store.Guarding

/-!
# Documents that stay as they are

A document that the caller may not delete stays when the caller tries: it is moved aside, read there
and moved back, whatever else is in the tree. The watch is open for all other documents meanwhile.

* `Watch.usual` is the watch of every store: a newest copy that can be read is the document of its
  place.
* `Watch.pin` is a watch that also wants the newest copy of one document to stay as it is.
* `Watch.stage_denied` says that a denied deletion keeps the pin.
-/

namespace ConfigStore

open Node Disk Files Deletion

namespace Watch

variable {w : Watch} {s : Store} {root : Path} {base : Place} {disk disk' : Node} {caller : Caller}
  {domain project id domain' project' id' : String} {content : Bytes} {d : Document}

/-! ## The watch of every store -/

/-- A newest copy that can be read is the document of its place. -/
def usual : Watch where
  allows q content? := ∀ domain project id content d, IsNewestOf domain project id q →
    content? = some content → Document.decode content = .ok d →
      d.domain = domain ∧ d.project = project ∧ d.id = id
  free _ _ hfree domain project id _ _ hnewest _ _ := absurd ⟨domain, project, id, hnewest⟩ hfree
  truthful domain project id content d hdomain hallowed hdecode :=
    hallowed domain project id content d (.inl ⟨hdomain, rfl⟩) rfl hdecode

theorem usual_allows_none (q : Place) : usual.allows q none :=
  fun _ _ _ _ _ _ hsome _ => by cases hsome

theorem usual_opens (hscope : Names.checkScope domain project = .ok ()) :
    usual.Opens domain project id where
  home := usual_allows_none _
  aside := usual_allows_none _
  moves content? := by
    simp only [usual, isNewestOf_home_iff (Names.ne_tmpName_of_checkScope hscope),
      isNewestOf_aside_iff]
  written d hd hp hi := by
    intro domain' project' id' content e hnewest hcontent hdecode
    obtain ⟨⟨rfl, rfl, rfl⟩, -⟩ :=
      (isNewestOf_home_iff (Names.ne_tmpName_of_checkScope hscope)).mp hnewest
    rw [← Option.some.inj hcontent, Document.decode_encode] at hdecode
    rw [← Except.ok.inj hdecode]
    exact ⟨hd, hp, hi⟩

/-- A watch is met where there are no files. -/
theorem usual_holds_of_empty (hg : Grounded root base disk)
    (hbelow : ∀ n q, disk.kindAt? (base ++ n :: q) = none) : usual.Holds root base disk where
  grounded := hg
  named q n hn := by
    cases q with
    | nil => exact absurd (hbelow n []) (by rwa [List.append_nil] at hn)
    | cons m q => exact absurd (hbelow m (q ++ [n])) (by rwa [List.append_assoc] at hn)
  allowed q := by
    have hnone : disk.content? (base ++ q) = none := by
      rw [Option.eq_none_iff_forall_ne_some]
      intro content hcontent
      rw [content?_eq_some_iff] at hcontent
      cases q with
      | nil => rw [List.append_nil, hg.isDir] at hcontent; cases hcontent
      | cons n q => rw [hbelow] at hcontent; cases hcontent
    exact hnone ▸ usual_allows_none q

/-! ## Pins -/

/-- The newest copy of one document stays as it is. -/
def pin (w : Watch) (hdomain : domain ≠ Layout.tmpName) (project id : String) (content : Bytes) :
    Watch where
  allows q content? := w.allows q content? ∧
    (q = Deletion.home domain project id ++ [Layout.newestName] → content? = some content)
  free q content? hfree := by
    refine ⟨w.free q content? hfree, ?_⟩
    rintro rfl
    exact absurd ((isNewest_home_iff hdomain).mpr ⟨rfl, rfl⟩) hfree
  truthful domain project id content d hdomain hallowed :=
    w.truthful domain project id content d hdomain hallowed.1

variable {hdomain : domain ≠ Layout.tmpName}

theorem holds_pin_iff : (w.pin hdomain project id content).Holds root base disk ↔
    w.Holds root base disk ∧
      disk.content? (base ++ (home domain project id ++ [Layout.newestName])) = some content where
  mp h := ⟨⟨h.grounded, h.named, fun q => (h.allowed q).1⟩, (h.allowed _).2 rfl⟩
  mpr h := ⟨h.1.grounded, h.1.named, fun q => ⟨h.1.allowed q, fun hq => hq ▸ h.2⟩⟩

theorem pin_allows_of_ne {q : Place} {content? : Option Bytes}
    (hne : q ≠ home domain project id ++ [Layout.newestName]) :
    (w.pin hdomain project id content).allows q content? ↔ w.allows q content? :=
  ⟨fun h => h.1, fun h => ⟨h, fun hq => absurd hq hne⟩⟩

theorem aside_ne_home :
    aside domain' project' id' ++ [Layout.newestName]
      ≠ home domain project id ++ [Layout.newestName] := by
  intro h
  have hlength := congrArg List.length h
  simp at hlength

/-- A pin leaves all other documents open. -/
theorem Opens.pin (hopens : w.Opens domain' project' id')
    (hne : ¬(domain' = domain ∧ project' = project ∧ id' = id)) :
    (w.pin hdomain project id content).Opens domain' project' id' := by
  have hhome : Deletion.home domain' project' id' ++ [Layout.newestName]
      ≠ Deletion.home domain project id ++ [Layout.newestName] := by
    simpa using hne
  refine ⟨⟨?_, ?_, fun content? => ?_⟩, fun d hd hp hi => ?_⟩
  · exact (pin_allows_of_ne hhome).mpr hopens.home
  · exact (pin_allows_of_ne aside_ne_home).mpr hopens.aside
  · rw [pin_allows_of_ne hhome, pin_allows_of_ne aside_ne_home]
    exact hopens.moves content?
  · exact (pin_allows_of_ne hhome).mpr (hopens.written d hd hp hi)

theorem pin_allows_aside_iff {content? : Option Bytes} :
    (w.pin hdomain project id content).allows (aside domain project id ++ [Layout.newestName])
      content? ↔ w.allows (aside domain project id ++ [Layout.newestName]) content? :=
  pin_allows_of_ne aside_ne_home

/-! ## Denied deletions -/

/-- Whatever is where a document is moved aside can be moved to where the document was. -/
theorem carriable_home (hroom : Roomy root) (hshort : root.byteLength + 1028 ≤ maxPathBytes)
    (hnames : ∀ n ∈ home domain project id, IsName n) {name : String} (hname : IsName name) :
    Carriable (root.descend (aside domain project id)) (root.descend (home domain project id))
      name := by
  have hnames' : ∀ n ∈ home domain project id ++ [name], IsName n := by
    intro n hn
    rcases List.mem_append.mp hn with hn | hn
    · exact hnames n hn
    · exact List.mem_singleton.mp hn ▸ hname
  have hwidth : Path.width (home domain project id ++ [name]) ≤ 1024 :=
    Path.width_le_of_isName hnames'
  constructor
  · rw [← Path.descend_concat]
    refine checkText_descend_of_le hroom.text (List.forall_mem_cons.mpr
      ⟨Layout.isName_tmpName, hnames'⟩) ?_
    have htmp : Path.width (aside domain project id ++ [name])
      = 4 + Path.width (home domain project id ++ [name]) := rfl
    omega
  · rw [← Path.descend_concat]
    exact checkText_descend_of_le hroom.text hnames' (by omega)

/-- The document of a place has been moved aside, and nothing is left of it at home. -/
structure Displaced (w : Watch) (root : Path) (base : Place) (domain project id : String)
    (content : Bytes) (disk : Node) : Prop where
  holds : w.Holds root base disk
  homeDir : disk.kindAt? (base ++ home domain project id) = some .dir
  homeClear : ∀ n, disk.kindAt? (base ++ home domain project id ++ [n]) = none
  newest : disk.kindAt? (base ++ aside domain project id ++ [Layout.newestName])
    = some (.file content)

theorem Displaced.asideDir (h : w.Displaced root base domain project id content disk) :
    disk.kindAt? (base ++ aside domain project id) = some .dir :=
  kindAt?_eq_dir_of_append (List.cons_ne_nil _ _) (by rw [h.newest]; simp)

/-- A pinned document is moved aside with all that is there, or stays. -/
theorem moveAside_pin (hfrees : w.Frees domain project id)
    (hnames : ∀ n ∈ home domain project id, IsName n)
    (htext : checkText (root.descend (home domain project id)) = .ok ())
    (h : (w.pin hdomain project id content).Holds root base disk) :
    (∃ disk', moveDir (root.descend (home domain project id))
        (root.descend (aside domain project id)) disk = .ok () disk' ∧
        w.Displaced root base domain project id content disk') ∨
      ∃ failure disk', moveDir (root.descend (home domain project id))
        (root.descend (aside domain project id)) disk = .error failure disk' ∧
        (w.pin hdomain project id content).Holds root base disk' := by
  have hnewest := content?_eq_some_iff.mp (holds_pin_iff.mp h).2
  rw [← List.append_assoc] at hnewest
  have hdir : disk.kindAt? (base ++ home domain project id) = some .dir :=
    kindAt?_eq_dir_of_append (List.cons_ne_nil _ _) (by rw [hnewest]; simp)
  have happart : ¬base ++ home domain project id <+: base ++ aside domain project id :=
    fun hle => not_home_le_aside hdomain ((List.prefix_append_right_inj base).mp hle)
  have happart' : ¬base ++ aside domain project id <+: base ++ home domain project id :=
    fun hle => not_aside_le_home hdomain ((List.prefix_append_right_inj base).mp hle)
  obtain ⟨disk₁, names, hgrown, hmem, hend⟩ := moveDir_merge h.grounded hnames (isName_aside hnames)
    (List.cons_ne_nil _ _) htext hdir (not_home_le_aside hdomain) (not_aside_le_home hdomain)
    fun n hn => h.named (home domain project id) n hn
  have hmid := h.grown (isName_aside hnames) hgrown
  -- the directories that lead to the target are not below the source
  have hmem₁ : ∀ n, n ∈ names ↔ disk₁.kindAt? (base ++ home domain project id ++ [n]) ≠ none := by
    intro n
    rw [hmem, hgrown.eq_of_not_above fun hle => happart ((List.prefix_append _ _).trans hle)]
  rcases hend with ⟨disk', hok, -, -, hmoved⟩ | ⟨failure, disk', lost, herror, -, hreverted⟩
  · have hhere : Layout.newestName ∈ names := (hmem _).mpr (by rw [hnewest]; simp)
    refine .inl ⟨disk', hok, ⟨?_, ?_, fun n => hmoved.emptied happart happart' hmem₁ n [], ?_⟩⟩
    · have hsite := hmid.site.transferred
        (fun n hn => h.named (home domain project id) n ((hmem n).mp hn)) hmoved
      exact (holds_pin_iff.mp hmid).1.transferred (hfrees.admits_aside hdomain) hsite hmoved
    · rw [hmoved.kept (fun _ => rfl) fun hle => absurd hle happart', hgrown.dir hdir]
    · rw [hmoved.arrived _ hhere, hgrown.kept _ (by rw [hnewest]; simp), hnewest]
  · refine .inr ⟨failure, disk', herror, hmid.reverted (fun n q => ?_) hreverted⟩
    exact ⟨hfrees.allows_aside n q, fun hplace => absurd (List.cons.inj hplace).1.symm hdomain⟩

/-- What is moved back is what had been moved aside. -/
theorem Displaced.moveHome (h : w.Displaced root base domain project id content disk)
    (hfrees : w.Frees domain project id) (hdomain : domain ≠ Layout.tmpName) (hroom : Roomy root)
    (hshort : root.byteLength + 1028 ≤ maxPathBytes)
    (hnames : ∀ n ∈ home domain project id, IsName n) :
    ∃ disk', moveDir (root.descend (aside domain project id))
        (root.descend (home domain project id)) disk = .ok () disk' ∧
      (w.pin hdomain project id content).Holds root base disk' := by
  have hnamed : ∀ n, disk.kindAt? (base ++ aside domain project id ++ [n]) ≠ none → IsName n :=
    fun n hn => h.holds.named (aside domain project id) n hn
  have hcarriable : Carriable (root.descend (aside domain project id))
      (root.descend (home domain project id)) Layout.newestName :=
    carriable_home hroom hshort hnames Layout.isName_newestName
  have hmovable : Movable root base (aside domain project id) (home domain project id) disk :=
    ⟨checkText_of_join Layout.isName_newestName.toIsPiece hcarriable.target,
      unblocked_of_dir h.homeDir, fun n hn => carriable_home hroom hshort hnames (hnamed n hn)⟩
  obtain ⟨-, disk', hok, hmoved⟩ := (moveDir_outcome h.holds.grounded (isName_aside hnames) hnames
    (List.cons_ne_nil _ _) (checkText_of_join Layout.isName_newestName.toIsPiece hcarriable.source)
    h.asideDir (not_aside_le_home hdomain) (not_home_le_aside hdomain) hnamed
    h.homeClear).resolve_right fun hnot => hnot.1 hmovable
  -- what else the watch says is kept by every move, and this is the move
  obtain ⟨disk'', hends, hbase⟩ :=
    (hfrees.upheld hdomain fun n hn => (hnames n hn).toIsPiece).moveHome.outcome disk h.holds
  obtain rfl : disk' = disk'' := by
    rw [Ends, hok] at hends
    rcases hends with ⟨_, hend⟩ | ⟨_, hend⟩
    · cases hend
      rfl
    · cases hend
  refine ⟨disk', hok, holds_pin_iff.mpr ⟨hbase, ?_⟩⟩
  rw [content?_eq_some_iff, ← List.append_assoc, hmoved.target, h.newest]

/-- A document that the caller may not delete is never moved aside for good. -/
theorem stage_denied (hfrees : w.Frees domain project id) (hroom : Roomy s.root)
    (hshort : s.root.byteLength + 1028 ≤ maxPathBytes)
    (hpieces : ∀ n ∈ home domain project id, IsPiece n) (hdecode : Document.decode content = .ok d)
    (hdenied : authorize s.policy caller .delete d.labels ≠ .ok ())
    (h : (w.pin hdomain project id content).Holds s.root base disk) :
    ∃ failure disk', stage s caller domain project id disk = .error failure disk' ∧
      (w.pin hdomain project id content).Holds s.root base disk' := by
  cases hread : readFile disk (Layout.newest s.root domain project id) with
  | error refusal =>
    obtain ⟨failure, herror⟩ := stage_unread caller hread
    exact ⟨failure, disk, herror, h⟩
  | ok found =>
    obtain ⟨hall, htext, -⟩ :=
      readFile_inv h.grounded.leads hpieces Layout.isName_newestName.toIsPiece hread
    have hnames : ∀ n ∈ home domain project id, IsName n :=
      fun n hn => hall n (List.mem_append_left _ hn)
    rcases moveAside_pin hfrees hnames
        (checkText_of_join Layout.isName_newestName.toIsPiece htext) h with
      ⟨mid, hok, haside⟩ | ⟨failure, disk', herror, hdisk'⟩
    · obtain ⟨failure, hfailed⟩ : ∃ failure,
          readStaged s caller domain project id mid = .error failure mid := by
        rw [readStaged_eq caller haside.holds.grounded
          (isName_aside hnames) haside.asideDir
          (carriable_home hroom hshort hnames Layout.isName_newestName).source haside.newest,
          hdecode]
        cases hauth : authorize s.policy caller .delete d.labels with
        | error failure => exact ⟨failure, by simp only [hauth]⟩
        | ok _ => exact absurd hauth hdenied
      obtain ⟨disk', hback, hdisk'⟩ := haside.moveHome hfrees hdomain hroom hshort hnames
      refine ⟨failure, Deletion.unstage s.root domain project id mid,
        by rw [stage_eq caller hread, hok]; simp only [hfailed], ?_⟩
      simp only [Deletion.unstage, documentDir_eq, tmpDocumentDir_eq, hback]
      exact (keeps_cleanAside (pin_allows_aside_iff.mpr hfrees.aside) hpieces).attempt hdisk'
    · exact ⟨failure, disk', by rw [stage_eq caller hread, herror], hdisk'⟩

/-- A pin leaves the deletion of other documents open, and that of its own document to those who may
delete it. -/
theorem Opens.stages_pin (hopens : w.Opens domain' project' id')
    (hroom : Roomy s.root) (hshort : s.root.byteLength + 1028 ≤ maxPathBytes)
    (hdomain' : domain' ≠ Layout.tmpName)
    (hpieces : ∀ n ∈ Deletion.home domain' project' id', IsPiece n)
    (hdecode : Document.decode content = .ok d)
    (hdenied : authorize s.policy caller .delete d.labels ≠ .ok ()) :
    (w.pin hdomain project id content).Stages s caller base domain' project' id' := by
  by_cases hsame : domain' = domain ∧ project' = project ∧ id' = id
  · obtain ⟨rfl, rfl, rfl⟩ := hsame
    refine ⟨⟨fun disk h => ?_⟩, fun disk e disk' h hok => ?_⟩
    · obtain ⟨failure, disk', herror, hdisk'⟩ :=
        stage_denied hopens.toFrees hroom hshort hpieces hdecode hdenied h
      exact .of_error failure herror hdisk'
    · obtain ⟨failure, disk'', herror, -⟩ :=
        stage_denied hopens.toFrees hroom hshort hpieces hdecode hdenied h
      rw [hok] at herror
      cases herror
  · exact (hopens.pin hsame).toFrees.stages hdomain' hpieces

end Watch

end ConfigStore
