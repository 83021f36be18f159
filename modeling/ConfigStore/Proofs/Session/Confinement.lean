import ConfigStore.Proofs.Session.Permission
import ConfigStore.Proofs.Store.Persisting

/-!
# Where documents are changed

A request that changes a document works in the directory of that document, and in the directory
where it is put aside while it is being deleted. This is so for every tree, whatever its files hold,
with one exception: an update goes where the stored document says it belongs, and a file may hold a
document of another place than its own.

* `Request.subject?` are the names of the document that a request changes.
* `Store.Spares` says that no file has changed outside the two directories.
* `Session.call_spares` says so of every such request, and `Session.update_strays` gives the
  exception.
-/

namespace ConfigStore

open Node Disk Files Deletion

/-- The names of the document that a request changes; none if it is no request to change one. -/
def Request.subject? : Request → Option (String × String × String)
  | .create _ d => some (d.domain, d.project, d.id)
  | .update _ d => some (d.domain, d.project, d.id)
  | .deleteOne _ domain project id => some (domain, project, id)
  | _ => none

/-- A place is in the directory of a document, or in that where the document is put aside. -/
def Store.InReach (base : Place) (domain project id : String) (q : Place) : Prop :=
  ∃ names ∈ [home domain project id, aside domain project id], ∃ name rest,
    q = base ++ names ++ name :: rest

/-- No file has changed but in the directory of a document, and in that where it is put aside. -/
def Store.Spares (root : Path) (domain project id : String) (disk disk' : Node) : Prop :=
  ∀ q, disk'.content? q = disk.content? q ∨
    ∃ base, Leads root base disk' ∧ InReach base domain project id q

variable {s : Store} {caller : Caller} {root : Path} {base : Place} {disk disk' origin : Node}
  {domain project id : String} {d : Document} {ns ms : List String} {state : StoreState}

namespace Store

theorem inReach_home (base : Place) (domain project id name : String) (rest : Place) :
    InReach base domain project id (base ++ home domain project id ++ name :: rest) :=
  ⟨_, List.mem_cons_self .., name, rest, rfl⟩

theorem inReach_aside (base : Place) (domain project id name : String) (rest : Place) :
    InReach base domain project id (base ++ aside domain project id ++ name :: rest) :=
  ⟨_, List.mem_cons_of_mem _ (List.mem_singleton_self _), name, rest, rfl⟩

theorem Spares.refl (root : Path) (domain project id : String) (disk : Node) :
    Spares root domain project id disk disk := fun _ => .inl rfl

end Store

/-! ## Deletions -/

/-- While a document is being deleted, files have changed in its two directories only. -/
structure Deletion.Working (root : Path) (base : Place) (domain project id : String)
    (origin disk : Node) : Prop where
  site : Site root base disk
  frame : ∀ q, disk.content? q = origin.content? q ∨ Store.InReach base domain project id q

namespace Deletion.Working

theorem start (h : Site root base disk) (domain project id : String) :
    Working root base domain project id disk disk := ⟨h, fun _ => .inl rfl⟩

theorem spares (h : Working root base domain project id origin disk) :
    Store.Spares root domain project id origin disk := fun q =>
  (h.frame q).imp_right fun hq => ⟨base, h.site.grounded.leads, hq⟩

/-- More files have changed in the two directories. -/
theorem step (h : Working root base domain project id origin disk) (hsite : Site root base disk')
    (hframe : ∀ q, disk'.content? q = disk.content? q ∨ Store.InReach base domain project id q) :
    Working root base domain project id origin disk' := by
  refine ⟨hsite, fun q => ?_⟩
  rcases hframe q with hsame | hreach
  · rw [hsame]
    exact h.frame q
  · exact .inr hreach

/-- The children of one of the two directories are moved into the other. -/
theorem keeps_moveDir
    (hsource : ∀ n r, Store.InReach base domain project id (base ++ ns ++ n :: r))
    (htarget : ∀ n r, Store.InReach base domain project id (base ++ ms ++ n :: r))
    (hroute : Route ns ms) :
    Keeps (Working root base domain project id origin)
      (moveDir (root.descend ns) (root.descend ms)) := by
  refine ⟨fun disk h => ?_⟩
  obtain ⟨mid, disk', hends, hsite, hsprouted, -, hchange⟩ := h.site.moveDir hroute
  refine ⟨disk', hends, h.step hsite fun q => ?_⟩
  rw [← hsprouted.content? q]
  rcases hchange with ⟨names, hmoved⟩ | ⟨lost, hreverted⟩
  · rcases hmoved.place_cases q with hsame | ⟨-, n, -, r, rfl⟩ | ⟨n, -, r, rfl, -⟩
    · exact .inl (content?_congr hsame)
    · exact .inr (hsource n r)
    · exact .inr (htarget n r)
  · rcases hreverted.eq_or_gone q with hsame | ⟨-, n, -, r, rfl⟩
    · exact .inl (content?_congr hsame)
    · exact .inr (htarget n r)

/-- One of the two directories is removed with its files. -/
theorem keeps_clean (hreach : ∀ n r, Store.InReach base domain project id (base ++ ns ++ n :: r))
    (hns : ∀ n ∈ ns, IsPiece n) (hne : ns ≠ []) :
    Keeps (Working root base domain project id origin) (clean (root.descend ns)) := by
  refine ⟨fun disk h => ?_⟩
  obtain ⟨disk', hends, hsite, hchange⟩ := h.site.clean hns hne
  refine ⟨disk', hends, h.step hsite fun q => ?_⟩
  rcases hchange with ⟨-, hsame⟩ | ⟨hdir, hremoved⟩
  · exact .inl (content?_congr (hsame q))
  · by_cases hbelow : base ++ ns <+: q
    · obtain ⟨r, rfl⟩ := hbelow
      cases r with
      | nil =>
        -- a directory has no content, and neither has what is gone
        obtain ⟨entries, hentries⟩ := kindAt?_eq_dir_iff.mp hdir
        have hnone := kindAt?_eq_none_iff.mp (hremoved.absent [])
        rw [List.append_nil] at hnone ⊢
        rw [content?, content?, hnone, hentries]
        exact .inl rfl
      | cons n r => exact .inr (hreach n r)
    · exact .inl (content?_congr (hremoved.frame q hbelow))

theorem upheld (hscope : Names.checkScope domain project = .ok ())
    (hid : Names.checkId id = .ok ()) :
    Upheld (Working root base domain project id origin) root domain project id := by
  have hdomain := Names.ne_tmpName_of_checkScope hscope
  have hpieces := isPiece_home hscope hid
  have hhome := Store.inReach_home base domain project id
  have haside := Store.inReach_aside base domain project id
  constructor
  · exact keeps_moveDir hhome haside (route_aside hdomain hpieces)
  · exact keeps_moveDir haside hhome (route_home hdomain hpieces)
  · exact keeps_clean haside (isPiece_aside hpieces) (List.cons_ne_nil _ _)
  · exact keeps_clean hhome hpieces (List.cons_ne_nil _ _)

end Deletion.Working

namespace Store

/-- A deletion that finds no newest copy changes nothing. -/
theorem deleteOne_unread (caller : Caller) {refusal : Refusal}
    (h : readFile state.disk (Layout.newest s.root domain project id) = .error refusal) :
    ∃ failure, s.deleteOne caller domain project id state = .error failure state := by
  by_cases hvalid : Names.checkScope domain project = .ok () ∧ Names.checkId id = .ok ()
  · obtain ⟨failure, herror⟩ := stage_unread caller h
    exact ⟨failure, by rw [deleteOne_eq caller hvalid.1 hvalid.2, herror]⟩
  · exact deleteOne_invalid caller hvalid

theorem deleteOne_spares (caller : Caller) (hd : state.disk.Distinct)
    (hnamed : WellNamed state.disk) (hanchored : Anchored s.root state.disk) :
    EndsIn (fun state' => Spares s.root domain project id state.disk state'.disk)
      (s.deleteOne caller domain project id) state := by
  cases hread : readFile state.disk (Layout.newest s.root domain project id) with
  | error refusal =>
    obtain ⟨failure, herror⟩ := deleteOne_unread caller hread
    exact .of_error failure herror (.refl s.root domain project id state.disk)
  | ok content =>
    by_cases hvalid : Names.checkScope domain project = .ok () ∧ Names.checkId id = .ok ()
    · obtain ⟨hscope, hid⟩ := hvalid
      obtain ⟨base, hbase, hdir⟩ := root_of_readFile (isPiece_home hscope hid)
        (List.cons_ne_nil _ _) Layout.isName_newestName.toIsPiece hread
      have hsite : Site s.root base state.disk :=
        ⟨.of_anchored hd hdir hanchored hbase, fun q n hn => hnamed (base ++ q) n hn⟩
      have hupheld : Upheld (Working s.root base domain project id state.disk) s.root domain
        project id := Working.upheld hscope hid
      have hkeeps := Deletion.keeps_deleteOne fun _ _ => hupheld.stages caller
      obtain ⟨state', hends, hworking⟩ := hkeeps.outcome state (Working.start hsite _ _ _)
      exact ⟨state', hends, hworking.spares⟩
    · obtain ⟨failure, herror⟩ : ∃ failure, s.deleteOne caller domain project id state
          = .error failure state := deleteOne_invalid caller hvalid
      exact .of_error failure herror (.refl s.root domain project id state.disk)

/-! ## Writes -/

theorem spares_of_confined (hscope : Names.checkScope domain project = .ok ())
    (hid : Names.checkId id = .ok ())
    (h : Confined (Layout.documentDir root domain project id) disk disk') :
    Spares root domain project id disk disk' := by
  intro q
  refine (h.frame q).imp_right ?_
  rintro ⟨here, name, rfl, hleads⟩
  obtain ⟨base, hbase, rfl⟩ := leads_root_of_home (isPiece_home hscope hid) hleads
  exact ⟨base, hbase, inReach_home base domain project id name []⟩

theorem write_spares (hscope : Names.checkScope d.domain d.project = .ok ())
    (hid : Names.checkId d.id = .ok ()) (hd : state.disk.Distinct) :
    EndsIn (fun state' => Spares s.root d.domain d.project d.id state.disk state'.disk)
      (s.write d) state := by
  obtain ⟨state', hends, hconfined⟩ := (keeps_write s d).outcome state (.refl hd _)
  exact ⟨state', hends, spares_of_confined hscope hid hconfined⟩

theorem create_spares (caller : Caller) (hd : state.disk.Distinct) :
    EndsIn (fun state' => Spares s.root d.domain d.project d.id state.disk state'.disk)
      (s.create caller d) state :=
  endsIn_create (Spares.refl _ _ _ _ _) fun hscope hid _ => write_spares hscope hid hd

/-- An update stays in reach if the stored document is of the place where it is stored. -/
theorem update_spares (caller : Caller) (hd : state.disk.Distinct)
    (htrue : ∀ stored, readDocument s.root d.domain d.project d.id state.disk
      = .ok stored state.disk →
        stored.domain = d.domain ∧ stored.project = d.project ∧ stored.id = d.id) :
    EndsIn (fun state' => Spares s.root d.domain d.project d.id state.disk state'.disk)
      (s.update caller d) state := by
  refine endsIn_update (Spares.refl _ _ _ _ _) fun stored hscope hid hread _ => ?_
  obtain ⟨hdomain, hproject, hplace⟩ := htrue stored hread
  rw [← hdomain, ← hproject] at hscope
  rw [← hplace] at hid
  have hwrite := write_spares (s := s) (d := stored.merge d) hscope hid hd
  rwa [show (stored.merge d).domain = d.domain from hdomain,
    show (stored.merge d).project = d.project from hproject,
    show (stored.merge d).id = d.id from hplace] at hwrite

/-- An update that passes all checks writes what it makes of the stored document. -/
theorem update_of_write {stored : Document} {state' : StoreState}
    (hcheck : Names.checkDocument d = .ok ())
    (hread : readDocument s.root d.domain d.project d.id state.disk = .ok stored state.disk)
    (hauth : authorize s.policy caller .update stored.labels = .ok ())
    (hnewer : checkNewer stored d = .ok ())
    (hwrite : s.write (stored.merge d) state = .ok () state') :
    s.update caller d state = .ok (stored.merge d) state' := by
  have hdisk : StoreAction.onDisk (readDocument s.root d.domain d.project d.id) state
      = .ok stored state := onDisk_eq_ok_iff.mpr ⟨hread, rfl⟩
  simp only [update, bind, EStateM.bind, hcheck, require_ok, hdisk, hauth, hnewer, hwrite]
  rfl

end Store

/-! ## Requests -/

namespace Session

variable {session : Session} {request : Request}

/-- A request for a document whose names are refused changes nothing at all. -/
theorem call_refused (hsubject : request.subject? = some (domain, project, id))
    (hrefused : ¬(Names.checkScope domain project = .ok () ∧ Names.checkId id = .ok ())) :
    ∃ failure, session.call request = (.error failure, session) := by
  have hcheck : ∀ {d : Document}, (d.domain, d.project, d.id) = (domain, project, id) →
      ∃ failure, Names.checkDocument d = .error failure := by
    rintro d ⟨⟩
    cases hd : Names.checkDocument d with
    | error failure => exact ⟨failure, rfl⟩
    | ok _ => exact absurd (Names.checkDocument_eq_ok_iff.mp hd) hrefused
  cases request with
  | create caller d =>
    obtain ⟨failure, hfailure⟩ := hcheck (Option.some.inj hsubject)
    have herror : session.store.create caller d session.state = .error failure session.state := by
      simp only [Store.create, bind, EStateM.bind, hfailure, Store.require_error]
    exact ⟨failure, call_of_error rfl herror⟩
  | update caller d =>
    obtain ⟨failure, hfailure⟩ := hcheck (Option.some.inj hsubject)
    have herror : session.store.update caller d session.state = .error failure session.state := by
      simp only [Store.update, bind, EStateM.bind, hfailure, Store.require_error]
    exact ⟨failure, call_of_error rfl herror⟩
  | deleteOne caller domain' project' id' =>
    cases hsubject
    obtain ⟨failure, herror⟩ : ∃ failure, session.store.deleteOne caller domain project id
        session.state = .error failure session.state := Store.deleteOne_invalid caller hrefused
    exact ⟨failure, call_of_error rfl herror⟩
  | _ => cases hsubject

/-- **A document is changed in its own place.** A request for a document changes no file outside the
directory of that document and the one where it is put aside, whatever the tree holds; of an update
this needs that the stored document, if it can be read, is of the place where it is stored. A
request with names that are refused changes nothing. The way to the root must not lead through the
root itself, or else a directory that is put aside could be part of it. -/
theorem call_spares (hd : session.state.disk.Distinct) (hnamed : WellNamed session.state.disk)
    (hanchored : Anchored session.store.root session.state.disk)
    (hsubject : request.subject? = some (domain, project, id))
    (htrue : ∀ caller d stored, request = .update caller d →
      Store.readDocument session.store.root domain project id session.state.disk
        = .ok stored session.state.disk →
      stored.domain = domain ∧ stored.project = project ∧ stored.id = id) :
    Store.Spares session.store.root domain project id session.state.disk
        (session.call request).2.state.disk ∧
      (¬(Names.checkScope domain project = .ok () ∧ Names.checkId id = .ok ()) →
        ∃ failure, session.call request = (.error failure, session)) := by
  refine ⟨?_, call_refused hsubject⟩
  cases request with
  | create caller d =>
    cases hsubject
    exact disk_call_of_endsIn ((Store.create_spares caller hd).map _)
  | update caller d =>
    cases hsubject
    exact disk_call_of_endsIn
      ((Store.update_spares caller hd fun stored => htrue caller d stored rfl).map _)
  | deleteOne caller domain project id =>
    cases hsubject
    exact disk_call_of_endsIn ((Store.deleteOne_spares caller hd hnamed hanchored).map _)
  | _ => cases hsubject

/-- A tree with a newest copy, and whatever else there is in the project. -/
def shopDisk (content : Bytes) (others : List (String × Node)) : Node :=
  .dir [("kvs", .dir [("shop", .dir [("web", .dir
    (("timeout", .dir [(Layout.newestName, .file content)]) :: others))])])]

/-- A store at such a tree, which keeps all revisions. -/
def atShop (content : Bytes) : Session where
  store := { root := sampleSettings.root, maxHistory := 0 }
  state := ⟨shopDisk content [], none⟩

theorem readDocument_atShop (d : Document) :
    Store.readDocument sampleSettings.root "shop" "web" "timeout" (shopDisk d.encode [])
      = .ok d (shopDisk d.encode []) := by
  have hread : ∀ content, readFile (shopDisk content [])
      (Layout.newest sampleSettings.root "shop" "web" "timeout") = .ok content := fun _ => rfl
  exact Store.readDocument_eq_ok_iff.mpr ⟨rfl, d.encode, hread _, Document.decode_encode _⟩

theorem distinct_atShop (content : Bytes) : (atShop content).state.disk.Distinct := by
  simp [atShop, shopDisk, distinct_dir_iff, distinct_file]

theorem wellNamed_atShop (content : Bytes) : WellNamed (atShop content).state.disk := by
  simp only [atShop, shopDisk, wellNamed_dir_iff, wellNamed_file, List.map_cons, List.map_nil,
    List.nodup_cons, List.not_mem_nil, not_false_eq_true, List.nodup_nil, List.mem_singleton,
    forall_eq, and_self, and_true]
  decide

/-- An update of the document in that tree. -/
def shopUpdate : Document := { sampleDocument with value := "60", updateRevision := 2 }

theorem call_spares_sample :
    (atShop sampleDocument.encode).state.disk.Distinct ∧
      WellNamed (atShop sampleDocument.encode).state.disk ∧
      Anchored sampleSettings.root (atShop sampleDocument.encode).state.disk ∧
      Store.readDocument sampleSettings.root "shop" "web" "timeout"
          (atShop sampleDocument.encode).state.disk
        = .ok sampleDocument (atShop sampleDocument.encode).state.disk ∧
      Store.Spares sampleSettings.root "shop" "web" "timeout"
        (atShop sampleDocument.encode).state.disk
        ((atShop sampleDocument.encode).call (.update .anonymous shopUpdate)).2.state.disk := by
  have hd := distinct_atShop sampleDocument.encode
  have hnamed := wellNamed_atShop sampleDocument.encode
  have hanchored : Anchored sampleSettings.root (atShop sampleDocument.encode).state.disk :=
    anchored_of_not_mem hd (by decide)
  have hread := readDocument_atShop sampleDocument
  have hsubject : Request.subject? (.update .anonymous shopUpdate)
      = some ("shop", "web", "timeout") := rfl
  refine ⟨hd, hnamed, hanchored, hread,
    (call_spares hd hnamed hanchored hsubject fun caller d stored _ hstored => ?_).1⟩
  cases hread.symm.trans hstored
  exact ⟨rfl, rfl, rfl⟩

/-! ## A stored document of another place -/

/-- A document that belongs elsewhere than where it is stored. -/
def stray : Document := { sampleDocument with id := "other" }

/-- What an update at the place where it is stored makes of it. -/
def strayed : Document := stray.merge shopUpdate

/-- The directory in which the update leaves it. -/
def elsewhere : String × Node :=
  ("other", .dir [("2.json", .file strayed.encode), (Layout.newestName, .file strayed.encode)])

theorem persist_strayed (content : Bytes) :
    Store.persist sampleSettings.root strayed (shopDisk content [])
      = .ok () (shopDisk content [elsewhere]) := by
  obtain ⟨hdomain, hproject, hid, hrevision⟩ : strayed.domain = "shop" ∧ strayed.project = "web" ∧
      strayed.id = "other" ∧ strayed.updateRevision = 2 := ⟨rfl, rfl, rfl, rfl⟩
  rw [Store.persist, elsewhere, hdomain, hproject, hid, hrevision]
  generalize strayed.encode = bytes
  rfl

/-- An update of one document writes the newest copy of another one. -/
theorem update_strays :
    Request.subject? (.update .anonymous shopUpdate) = some ("shop", "web", "timeout") ∧
      ((atShop stray.encode).call (.update .anonymous shopUpdate)).1 = .ok (.document strayed) ∧
      ((atShop stray.encode).call (.update .anonymous shopUpdate)).2.state.disk.content?
        ["kvs", "shop", "web", "other", Layout.newestName] = some strayed.encode ∧
      ¬Store.Spares sampleSettings.root "shop" "web" "timeout" (atShop stray.encode).state.disk
        ((atShop stray.encode).call (.update .anonymous shopUpdate)).2.state.disk := by
  have hpersist : StoreAction.onDisk (Store.persist sampleSettings.root strayed)
      (atShop stray.encode).state = .ok () ⟨shopDisk stray.encode [elsewhere], none⟩ :=
    onDisk_eq_ok_iff.mpr ⟨persist_strayed stray.encode, rfl⟩
  have hwrite : (atShop stray.encode).store.write strayed (atShop stray.encode).state
      = .ok () ⟨shopDisk stray.encode [elsewhere], none⟩ := by
    simp only [Store.write, bind, EStateM.bind, atShop] at hpersist ⊢
    rw [hpersist]
    rfl
  have hupdate : (atShop stray.encode).store.update .anonymous shopUpdate
      (atShop stray.encode).state = .ok strayed ⟨shopDisk stray.encode [elsewhere], none⟩ :=
    Store.update_of_write rfl (readDocument_atShop stray) rfl (by decide) hwrite
  rw [call_of_ok rfl hupdate]
  have hbefore : (atShop stray.encode).state.disk.content?
      ["kvs", "shop", "web", "other", Layout.newestName] = none := rfl
  have hafter : (shopDisk stray.encode [elsewhere]).content?
      ["kvs", "shop", "web", "other", Layout.newestName] = some strayed.encode := rfl
  refine ⟨rfl, rfl, hafter, fun hspares => ?_⟩
  rcases hspares ["kvs", "shop", "web", "other", Layout.newestName] with
    hsame | ⟨base, hbase, names, hnames, name, rest, hplace⟩
  · rw [hbefore, hafter] at hsame
    cases hsame
  · obtain rfl : ["kvs"] = base := Except.ok.inj hbase
    simp only [List.mem_cons, List.not_mem_nil, or_false] at hnames
    rcases hnames with rfl | rfl <;> simp at hplace

end Session

end ConfigStore
