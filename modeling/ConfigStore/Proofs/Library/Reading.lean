import ConfigStore.Polling.Log
import ConfigStore.Proofs.Library.Deleting
import ConfigStore.Proofs.Library.Rotating
import ConfigStore.Store.Counter
import ConfigStore.Store.Finding

/-!
# Reading a library

Reading gives what stands on the shelves and changes nothing.

* `Library.Lists` says of ids that they are those of the documents of a project.
* `Kept.ids` lists the directories of a project, `Kept.scan` finds the documents that a query
  accepts.
* `Store.get_kept`, `Store.history_kept` and `Store.total_kept` say what a store answers.
-/

namespace ConfigStore

open Node Disk Deletion Files

variable {root : Path} {base : Place} {lib : Library} {disk : Node}
  {domain project id : String} {d : Document}

/-! ## What only looks -/

theorem looks_readDocument (root : Path) (domain project id : String) :
    Looks (Store.readDocument root domain project id) := by
  refine (looks_look _ _).bind fun content => ?_
  cases content with
  | none => exact Looks.throw _
  | some content =>
    dsimp only
    split
    · exact Looks.pure _
    · exact Looks.throw _

theorem Store.readDocument_eq_ok_iff {disk' : Node} :
    Store.readDocument root domain project id disk = .ok d disk' ↔ disk' = disk ∧ ∃ content,
      readFile disk (Layout.newest root domain project id) = .ok content ∧
        Document.decode content = .ok d := by
  rw [Store.readDocument, bind_eq_ok_iff]
  constructor
  · rintro ⟨found, mid, hread, hrest⟩
    obtain ⟨rfl, hfound⟩ := read?_eq_ok_iff.mp hread
    cases found with
    | none => cases hrest
    | some content =>
      cases hdecode : Document.decode content with
      | error fault => simp only [hdecode] at hrest; cases hrest
      | ok stored =>
        simp only [hdecode] at hrest
        cases hrest
        exact ⟨rfl, content, hfound, hdecode⟩
  · rintro ⟨rfl, content, hfound, hdecode⟩
    exact ⟨some content, disk', read?_of_ok hfound, by simp only [hdecode]; rfl⟩

theorem looks_get (s : Store) (caller : Caller) (domain project id : String) :
    Looks (s.get caller domain project id) :=
  (Looks.require _).bind fun _ => (Looks.require _).bind fun _ =>
    (looks_readDocument ..).onDisk.bind fun _ => (Looks.require _).bind fun _ => .pure _

theorem looks_history (s : Store) (caller : Caller) (domain project id : String)
    (offset limit : Nat) : Looks (s.history caller domain project id offset limit) := by
  have hsnapshots : Looks (Retention.snapshots s.root domain project id) :=
    (looks_filesBelow _ _).bind fun _ => .pure _
  exact (looks_get ..).bind fun _ => hsnapshots.onDisk.bind fun _ => .pure _

theorem looks_total (s : Store) (domain project : String) : Looks (s.total domain project) := by
  have hcount : Looks (countSubdirs (Layout.projectDir s.root domain project)) :=
    (looks_subdirs _).bind fun _ => .pure _
  exact (Looks.require _).bind fun _ => (hcount.orIfMissing 0).onDisk

theorem looks_scanOne (root : Path) (domain project id : String) :
    Looks (Store.scanOne root domain project id) := by
  refine (looks_look _ _).bind fun content => ?_
  cases content <;> exact Looks.pure _

theorem looks_scanIds (root : Path) (domain project : String) (query : Query)
    (skip ids : List String) : Looks (Store.scanIds root domain project query skip ids) := by
  induction ids with
  | nil => exact Looks.pure _
  | cons id ids ih =>
    rw [Store.scanIds]
    split
    · exact ih
    · refine (looks_scanOne ..).bind fun found => ?_
      cases found with
      | none => exact ih
      | some d =>
        dsimp only
        split
        · exact ih
        · split
          · exact Looks.pure _
          · exact ih.bind fun _ => .pure _

theorem looks_scan (root : Path) (domain project : String) (query : Query) (skip : List String) :
    Looks (Store.scan root domain project query skip) :=
  ((looks_subdirs _).orIfMissing _).bind fun _ => looks_scanIds ..

theorem looks_current (root : Path) (domain : String) : Looks (Counter.current root domain) := by
  refine (looks_look _ _).bind fun content => ?_
  cases content with
  | none => exact Looks.pure _
  | some content =>
    dsimp only
    split
    · exact Looks.pure _
    · exact Looks.throw _

theorem looks_findPolling (root : Path) (wanted : PollingRecord) :
    Looks (PollingLog.find root wanted) := by
  refine (Looks.require _).bind fun _ => (Looks.require _).bind fun _ => ?_
  refine ((looks_filesBelow _ _).orIfMissing _).bind fun files => ?_
  dsimp only
  split
  · exact Looks.throw _
  · exact Looks.pure _

/-! ## The documents of a project -/

namespace Library

/-- The ids of the documents of a project. -/
structure Lists (lib : Library) (domain project : String) (ids : List String) : Prop where
  nodup : ids.Nodup
  mem_iff : ∀ id, id ∈ ids ↔ (lib.shelf? domain project id).isSome

/-- The documents with one of the ids that a query accepts; a query for a unique document is content
with the first. -/
def pick (lib : Library) (domain project : String) (query : Query) (ids : List String) :
    List Document :=
  let docs := (ids.filterMap (lib.head? domain project)).filter query.accepts
  if query.isUnique then docs.take 1 else docs

theorem head?_eq_some_iff :
    lib.head? domain project id = some d ↔
      ∃ shelf, lib.shelf? domain project id = some shelf ∧ shelf.head = d := by
  rw [head?, Option.map_eq_some_iff]

theorem head?_isSome (lib : Library) (domain project id : String) :
    (lib.head? domain project id).isSome = (lib.shelf? domain project id).isSome :=
  Option.isSome_map

/-- The newest copy of a document says where it belongs. -/
theorem Valid.place (h : lib.Valid) (hhead : lib.head? domain project id = some d) :
    d.domain = domain ∧ d.project = project ∧ d.id = id := by
  obtain ⟨shelf, hshelf, rfl⟩ := head?_eq_some_iff.mp hhead
  have hvalid := h.shelf hshelf
  exact ⟨hvalid.domain_eq _ (List.mem_cons_self ..), hvalid.project_eq _ (List.mem_cons_self ..),
    hvalid.id_eq _ (List.mem_cons_self ..)⟩

/-- A newest copy is found at the names that are written in it. -/
theorem Valid.head?_self (h : lib.Valid) (hhead : lib.head? domain project id = some d) :
    lib.head? d.domain d.project d.id = some d := by
  obtain ⟨rfl, rfl, rfl⟩ := h.place hhead
  exact hhead

theorem Valid.storable_head (h : lib.Valid) (hhead : lib.head? domain project id = some d) :
    Storable domain project id := by
  obtain ⟨shelf, hshelf, -⟩ := head?_eq_some_iff.mp hhead
  exact h.storable hshelf

theorem pick_nil (lib : Library) (domain project : String) (query : Query) :
    lib.pick domain project query [] = [] := by
  rw [pick]
  split <;> rfl

theorem mem_pick (h : lib.Valid) {query : Query} {ids : List String}
    (hd : d ∈ lib.pick domain project query ids) :
    d.id ∈ ids ∧ lib.head? domain project d.id = some d ∧ query.accepts d = true := by
  have hmem : d ∈ (ids.filterMap (lib.head? domain project)).filter query.accepts := by
    rw [pick] at hd
    split at hd
    · exact List.mem_of_mem_take hd
    · exact hd
  obtain ⟨hmem, haccepts⟩ := List.mem_filter.mp hmem
  obtain ⟨id, hid, hhead⟩ := List.mem_filterMap.mp hmem
  obtain rfl := (h.place hhead).2.2
  exact ⟨hid, hhead, haccepts⟩

end Library

open Library

namespace Kept

/-- The entries of the directory of a project are its documents. -/
theorem lists (h : Kept root base lib disk) (hdomain : Names.isReserved domain = false)
    {children : List (String × Node)}
    (hchildren : disk.at? (base ++ [domain, project]) = some (.dir children)) :
    lib.Lists domain project (sortBy (· ≤ ·) ((children.filter (·.2.isDir)).map (·.1))) := by
  refine ⟨nodup_subdirs h.grounded.distinct hchildren, fun id => ?_⟩
  rw [mem_subdirs_iff h.grounded.distinct hchildren, ← h.holds.dir_iff hdomain, List.append_assoc]
  rfl

/-- The directories of a project are listed if its name fits into a directory; a project that does
not exist has none. -/
theorem ids (h : Kept root base lib disk) (hroom : Roomy root)
    (hscope : Names.checkScope domain project = .ok ())
    (hnames : ∀ n ∈ [domain, project], IsName n) (hloose : lib.loose? domain project = none) :
    ∃ ids, (subdirs (Layout.projectDir root domain project)).orIfMissing [] disk = .ok ids disk ∧
      lib.Lists domain project ids := by
  have hdomain := (Names.checkScope_eq_ok_iff.mp hscope).2.1
  obtain ⟨hname, hname'⟩ := List.forall_mem_cons.mp hnames
  have hname' := hname' project (List.mem_singleton_self _)
  have hfirst : ∀ n ∈ [domain], IsName n := fun n hn => by rwa [List.mem_singleton.mp hn]
  have hsplit : base ++ [domain, project] = base ++ [domain] ++ [project] := by simp
  have htext : checkText ((root.descend [domain]).join project) = .ok () := by
    rw [← Path.descend_concat]
    refine hroom.checkText_descend hnames ?_
    have h₁ := hname.fits
    have h₂ := hname'.fits
    simp only [List.cons_append, List.nil_append, Path.width_cons, Path.width_nil]
    omega
  rw [show Layout.projectDir root domain project = (root.descend [domain]).join project from rfl]
  cases hkind : disk.kindAt? (base ++ [domain, project]) with
  | none =>
    have hentries := entries_absent h.grounded.leads h.grounded.isDir hfirst hname' htext
      (hsplit ▸ hkind) (h.holds.unblocked_domain h.grounded.isDir domain)
    refine ⟨[], ?_, List.nodup_nil, fun id => iff_of_false List.not_mem_nil fun hsome => ?_⟩
    · rw [DiskAction.orIfMissing, subdirs_of_error hentries]
      rfl
    · have habove : base ++ [domain, project] <+: base ++ home domain project id :=
        (List.prefix_append_right_inj base).mpr ⟨[id], rfl⟩
      have hdir := kindAt?_eq_dir_above habove ((h.holds.dir_iff hdomain).mpr hsome)
      rw [hkind] at hdir
      cases hdir
  | some kind =>
    cases kind with
    | file content =>
      have hfile := (h.holds.projects domain project content hdomain).mp hkind
      rw [hloose] at hfile
      cases hfile
    | dir =>
      obtain ⟨children, hchildren⟩ := kindAt?_eq_dir_iff.mp hkind
      have hentries : Disk.entries disk ((root.descend [domain]).join project) = .ok children :=
        entries_descend h.grounded.leads (List.cons_ne_nil _ _) hnames htext hchildren
      refine ⟨_, ?_, h.lists hdomain hchildren⟩
      rw [DiskAction.orIfMissing, subdirs_of_ok hentries]

/-- Whatever the name of the project, the directories that are listed are its documents. -/
theorem ids_outcome (h : Kept root base lib disk)
    (hscope : Names.checkScope domain project = .ok ()) :
    (∃ ids, (subdirs (Layout.projectDir root domain project)).orIfMissing [] disk = .ok ids disk ∧
        ∀ id ∈ ids, (lib.shelf? domain project id).isSome) ∨
      ∃ failure, (subdirs (Layout.projectDir root domain project)).orIfMissing [] disk
        = .error failure disk := by
  obtain ⟨hdomain, hreserved, hproject⟩ := Names.checkScope_eq_ok_iff.mp hscope
  have hfirst : ∀ n ∈ [domain], IsPiece n := by
    intro n hn
    rw [List.mem_singleton.mp hn]
    exact Names.isPiece_of_isPlain hdomain
  rw [show Layout.projectDir root domain project = (root.descend [domain]).join project from rfl]
  rw [DiskAction.orIfMissing]
  cases hentries : Disk.entries disk ((root.descend [domain]).join project) with
  | error refusal =>
    rw [subdirs_of_error hentries]
    dsimp only
    split
    · exact .inl ⟨[], rfl, fun _ hid => absurd hid List.not_mem_nil⟩
    · exact .inr ⟨_, rfl⟩
  | ok children =>
    rw [subdirs_of_ok hentries]
    obtain ⟨-, hchildren⟩ := entries_inv h.grounded.leads hfirst
      (Names.isPiece_of_isPlain hproject) hentries
    rw [show base ++ [domain] ++ [project] = base ++ [domain, project] by simp] at hchildren
    exact .inl ⟨_, rfl, fun id hid => ((h.lists hreserved hchildren).mem_iff id).mp hid⟩

/-! ## Scanning -/

/-- At the id of a document a scan comes across its newest copy. -/
theorem scanOne (h : Kept root base lib disk) (hroom : Roomy root)
    (hid : (lib.shelf? domain project id).isSome) :
    Store.scanOne root domain project id disk = .ok (lib.head? domain project id) disk := by
  obtain ⟨shelf, hshelf⟩ := Option.isSome_iff_exists.mp hid
  have hstore := h.valid.storable hshelf
  have hloose := h.holds.loose?_eq_none hstore.notReserved hid
  have hhead : lib.head? domain project id = some shelf.head := by
    rw [Library.head?, hshelf, Option.map_some]
  simp only [Store.scanOne, bind, EStateM.bind,
    h.holds.read?_newest h.grounded hroom hstore hloose, hhead, Option.map_some,
    Document.decode_encode]
  rfl

theorem scanIds (h : Kept root base lib disk) (hroom : Roomy root) (query : Query)
    (skip : List String) {ids : List String}
    (hids : ∀ id ∈ ids, (lib.shelf? domain project id).isSome) :
    Store.scanIds root domain project query skip ids disk
      = .ok (lib.pick domain project query (ids.filter (· ∉ skip))) disk := by
  induction ids with
  | nil =>
    rw [List.filter_nil, pick_nil]
    rfl
  | cons id ids ih =>
    obtain ⟨hid, hids⟩ := List.forall_mem_cons.mp hids
    rw [Store.scanIds]
    by_cases hskip : id ∈ skip
    · rw [if_pos hskip, List.filter_cons_of_neg (by simpa using hskip)]
      exact ih hids
    · obtain ⟨shelf, hshelf⟩ := Option.isSome_iff_exists.mp hid
      have hhead : lib.head? domain project id = some shelf.head := by
        rw [Library.head?, hshelf, Option.map_some]
      have hone := h.scanOne hroom hid
      rw [hhead] at hone
      rw [if_neg hskip, List.filter_cons_of_pos (by simpa using hskip)]
      simp only [bind, EStateM.bind, hone]
      simp only [pick, List.filterMap_cons_some hhead] at ih ⊢
      by_cases haccepts : query.accepts shelf.head = true
      · by_cases hunique : query.isUnique = true
        · simp [haccepts, hunique, pure, EStateM.pure]
        · simp only [hunique] at ih
          simp [haccepts, hunique, pure, EStateM.pure, EStateM.bind, ih hids]
      · simp [haccepts, ih hids]

/-- A scan finds the documents of a project that a query accepts. -/
theorem scan (h : Kept root base lib disk) (hroom : Roomy root)
    (hscope : Names.checkScope domain project = .ok ())
    (hnames : ∀ n ∈ [domain, project], IsName n) (hloose : lib.loose? domain project = none)
    (query : Query) (skip : List String) :
    ∃ ids, lib.Lists domain project ids ∧ Store.scan root domain project query skip disk
      = .ok (lib.pick domain project query (ids.filter (· ∉ skip))) disk := by
  obtain ⟨ids, hids, hlists⟩ := h.ids hroom hscope hnames hloose
  refine ⟨ids, hlists, ?_⟩
  simp only [Store.scan, bind, EStateM.bind, hids]
  exact h.scanIds hroom query skip fun id => (hlists.mem_iff id).mp

/-- Whatever the name of the project, a scan finds nothing but documents of it that the query
accepts. -/
theorem scan_outcome (h : Kept root base lib disk) (hroom : Roomy root)
    (hscope : Names.checkScope domain project = .ok ()) (query : Query) (skip : List String) :
    (∃ docs, Store.scan root domain project query skip disk = .ok docs disk ∧
        ∀ d ∈ docs, lib.head? domain project d.id = some d ∧ query.accepts d = true) ∨
      ∃ failure, Store.scan root domain project query skip disk = .error failure disk := by
  rcases h.ids_outcome hscope with ⟨ids, hok, hids⟩ | ⟨failure, herror⟩
  · refine .inl ⟨lib.pick domain project query (ids.filter (· ∉ skip)), ?_, fun d hd => ?_⟩
    · simp only [Store.scan, bind, EStateM.bind, hok]
      exact h.scanIds hroom query skip hids
    · exact (mem_pick h.valid hd).2
  · refine .inr ⟨failure, ?_⟩
    simp only [Store.scan, bind, EStateM.bind, herror]

/-! ## Single documents -/

/-- Whatever the name of a document, what is read is the newest copy. -/
theorem head?_of_read (h : Kept root base lib disk)
    (hscope : Names.checkScope domain project = .ok ()) (hid : Names.checkId id = .ok ())
    {d : Document} {disk' : Node}
    (hread : Store.readDocument root domain project id disk = .ok d disk') :
    lib.head? domain project id = some d := by
  obtain ⟨-, hreserved, -⟩ := Names.checkScope_eq_ok_iff.mp hscope
  obtain ⟨-, content, hread, hdecode⟩ := Store.readDocument_eq_ok_iff.mp hread
  obtain ⟨-, -, hfile⟩ := readFile_inv h.grounded.leads (isPiece_home hscope hid)
    Layout.isName_newestName.toIsPiece hread
  cases hshelf : lib.shelf? domain project id with
  | none =>
    rw [h.holds.eq_none hreserved hshelf] at hfile
    cases hfile
  | some shelf =>
    rw [h.holds.file hreserved hshelf, Shelf.file?_newestName, Option.map_some] at hfile
    rw [← Kind.file.inj (Option.some.inj hfile), Document.decode_encode] at hdecode
    rw [Library.head?, hshelf, Option.map_some, Except.ok.inj hdecode]

theorem readDocument_outcome (h : Kept root base lib disk)
    (hscope : Names.checkScope domain project = .ok ()) (hid : Names.checkId id = .ok ()) :
    (∃ d, Store.readDocument root domain project id disk = .ok d disk ∧
        lib.head? domain project id = some d) ∨
      ∃ failure, Store.readDocument root domain project id disk = .error failure disk :=
  (looks_readDocument root domain project id |>.outcome disk).imp_left fun ⟨d, hok⟩ =>
    ⟨d, hok, h.head?_of_read hscope hid hok⟩

end Kept

/-! ## What a store answers -/

namespace Store

variable {s : Store} {state : StoreState}

/-- A document is given as it is on its shelf, if the caller may read it. -/
theorem get_kept (h : Kept s.root base lib state.disk) (hroom : Roomy s.root)
    (hstore : Storable domain project id) (hloose : lib.loose? domain project = none)
    (caller : Caller) :
    s.get caller domain project id state =
      match lib.head? domain project id with
      | none => .error (.keyNotFound (domain ++ "/" ++ project ++ "/" ++ id)) state
      | some d =>
        match authorize s.policy caller .get d.labels with
        | .ok () => .ok d state
        | .error failure => .error failure state := by
  simp only [get, bind, EStateM.bind, hstore.scope, hstore.document, require_ok,
    StoreAction.onDisk, h.holds.readDocument h.grounded hroom hstore hloose]
  cases lib.head? domain project id with
  | none => rfl
  | some d => cases hauth : authorize s.policy caller .get d.labels <;> simp only [hauth] <;> rfl

/-- The history of a document is what lies behind the newest copy on its shelf. -/
theorem history_kept (h : Kept s.root base lib state.disk) (hroom : Roomy s.root)
    (hstore : Storable domain project id) (hloose : lib.loose? domain project = none)
    (caller : Caller) (offset limit : Nat) :
    s.history caller domain project id offset limit state =
      match lib.shelf? domain project id with
      | none => .error (.keyNotFound (domain ++ "/" ++ project ++ "/" ++ id)) state
      | some shelf =>
        match authorize s.policy caller .get shelf.head.labels with
        | .ok () => .ok ⟨shelf.past.length, page shelf.past offset limit⟩ state
        | .error failure => .error failure state := by
  simp only [history, bind, EStateM.bind, get_kept h hroom hstore hloose, Library.head?]
  cases hshelf : lib.shelf? domain project id with
  | none => rfl
  | some shelf =>
    rw [Option.map_some]
    cases hauth : authorize s.policy caller .get shelf.head.labels with
    | error failure => simp only [hauth]
    | ok u =>
      obtain ⟨found, hfound, hperm⟩ := h.holds.snapshots h.valid h.grounded hroom hshelf
      have hvalid := h.valid.shelf hshelf
      have hsorted := byPriority_eq_of_inOrder hperm hvalid.ranked hvalid.inOrder
      simp only [hauth, StoreAction.onDisk, hfound]
      rw [Listing.ofFound, hsorted, hperm.length_eq]
      rfl

/-- The documents of a project are counted. -/
theorem total_kept (h : Kept s.root base lib state.disk) (hroom : Roomy s.root)
    (hscope : Names.checkScope domain project = .ok ())
    (hnames : ∀ n ∈ [domain, project], IsName n) (hloose : lib.loose? domain project = none) :
    ∃ ids, lib.Lists domain project ids ∧ s.total domain project state = .ok ids.length state := by
  obtain ⟨ids, hids, hlists⟩ := h.ids hroom hscope hnames hloose
  refine ⟨ids, hlists, ?_⟩
  have hcount : (countSubdirs (Layout.projectDir s.root domain project)).orIfMissing 0 state.disk
      = .ok ids.length state.disk := by
    simp only [DiskAction.orIfMissing, countSubdirs, bind, EStateM.bind] at hids ⊢
    rcases (looks_subdirs (Layout.projectDir s.root domain project)).outcome state.disk with
      ⟨found, hok⟩ | ⟨failure, herror⟩
    · simp only [hok] at hids ⊢
      cases hids
      rfl
    · simp only [herror] at hids ⊢
      split at hids
      next hmissing =>
        cases hids
        rw [if_pos hmissing]
        rfl
      · cases hids
  simp only [total, bind, EStateM.bind, hscope, require_ok, StoreAction.onDisk, hcount]

end Store

end ConfigStore
