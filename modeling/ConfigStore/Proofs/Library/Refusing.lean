import ConfigStore.Proofs.Library.Serving

/-!
# Documents that cannot be stored

A store accepts names that no directory takes: names of more than 255 bytes, and names with a NUL.
And a loose file may stand where the directory of a project would be. No document of such a name is
ever created. The attempt may leave directories behind, those that lead to the first name that does
not fit or to the file; they belong to no document.

* `Files.ensureDir_unfit` and `Files.ensureDir_blocked` say what is left of a chain of directories
  that cannot be created.
* `Library.Holds.of_grown` says that such directories do not count.
* `Session.call_kept` says that a request does to the library what it says, and keeps the invariant.
-/

namespace ConfigStore

open Node Disk Deletion Files Library

variable {root : Path} {base : Place} {lib : Library} {disk disk' : Node} {names : List String}
  {d : Document}

/-! ## Directories that cannot be created -/

namespace Disk

/-- Pieces of which not all are names are names up to a first one that is too long. -/
theorem exists_tooLong (hpieces : ∀ n ∈ names, IsPiece n) (hnul : ∀ n ∈ names, '\x00' ∉ n.toList)
    (hunfit : ¬∀ n ∈ names, IsName n) :
    ∃ front name rest, names = front ++ name :: rest ∧ (∀ n ∈ front, IsName n) ∧
      IsPiece name ∧ isTooLong name = true := by
  induction names with
  | nil => exact absurd (fun _ h => absurd h List.not_mem_nil) hunfit
  | cons name rest ih =>
    obtain ⟨hpiece, hpieces⟩ := List.forall_mem_cons.mp hpieces
    obtain ⟨hname, hnul⟩ := List.forall_mem_cons.mp hnul
    cases hlong : isTooLong name with
    | true => exact ⟨[], name, rest, rfl, fun _ h => absurd h List.not_mem_nil, hpiece, hlong⟩
    | false =>
      have hfits : IsName name := ⟨hpiece, hname, by simpa [isTooLong] using hlong⟩
      have hrest : ¬∀ n ∈ rest, IsName n := fun h => hunfit (List.forall_mem_cons.mpr ⟨hfits, h⟩)
      obtain ⟨front, long, back, rfl, hfront, hfound⟩ := ih hpieces hnul hrest
      exact ⟨name :: front, long, back, rfl, List.forall_mem_cons.mpr ⟨hfits, hfront⟩, hfound⟩

/-- No directory is created below a name that is too long. -/
theorem makeDirsFrom_tooLong (hd : disk.Distinct) {here : Place}
    (hdir : disk.kindAt? here = some .dir) {front : List String} (hfront : ∀ n ∈ front, IsName n)
    {name : String} (hname : IsPiece name) (hlong : isTooLong name = true) (rest : List String) :
    ∃ disk' refusal, Grown (here ++ front) disk disk' ∧
      makeDirsFrom disk here (front ++ name :: rest) = (.error refusal, disk') := by
  obtain ⟨disk', hgrown, ⟨-, hmade⟩ | ⟨-, hmade⟩⟩ :=
    makeDirsFrom_names hd hdir hfront (name :: rest)
  · refine ⟨disk', .nameTooLong, hgrown, ?_⟩
    rw [hmade, makeDirsFrom, if_neg (by simp [hname.isIdle_eq_false]), if_neg hname.ne_dotdot,
      if_pos hlong]
  · exact ⟨disk', _, hgrown, hmade⟩

end Disk

namespace Files

/-- Of a chain of directories with a name that does not fit, only directories in front of that name
are created. -/
theorem ensureDir_unfit (hg : Grounded root base disk) (hpieces : ∀ n ∈ names, IsPiece n)
    (hunfit : ¬∀ n ∈ names, IsName n) :
    ∃ front disk' failure, front.length < names.length ∧ Grown (base ++ front) disk disk' ∧
      ensureDir (root.descend names) disk = .error failure disk' := by
  have hne : names ≠ [] := by
    rintro rfl
    exact hunfit fun _ h => absurd h List.not_mem_nil
  cases htext : checkText (root.descend names) with
  | error refusal =>
    exact ⟨[], disk, _, List.length_pos_iff.mpr hne, .refl hg.distinct _,
      by rw [ensureDir, makeDirs, htext]⟩
  | ok text =>
    have hstem : ∀ n ∈ names, n ∈ (root.descend names).pieces := by
      intro n hn
      obtain ⟨init, last, rfl⟩ := (List.eq_nil_or_concat names).resolve_left hne
      rw [List.concat_eq_append] at hn hpieces ⊢
      rw [Path.descend_concat, Path.pieces_join _ (hpieces last (by simp)).noSlash,
        Path.stem_descend _ fun m hm => hpieces m (by simp [hm]), List.append_assoc]
      exact List.mem_append_right _ hn
    obtain ⟨front, name, rest, rfl, hfront, hname, hlong⟩ :=
      exists_tooLong hpieces (fun n hn => noNul_of_checkText htext n (hstem n hn)) hunfit
    obtain ⟨disk', refusal, hgrown, hmade⟩ :=
      makeDirsFrom_tooLong hg.distinct hg.isDir hfront hname hlong rest
    exact ⟨front, disk', _, by simp, hgrown,
      by rw [ensureDir, makeDirs_descend hg hpieces (by simp) htext, hmade]⟩

/-- Of a chain of directories with a file in the way, only directories in front of the file are
created. -/
theorem ensureDir_blocked (hg : Grounded root base disk) {front rest : List String}
    (hfront : ∀ n ∈ front, IsName n) {content : Bytes}
    (hfile : disk.kindAt? (base ++ front) = some (.file content)) (hrest : ∀ n ∈ rest, IsName n)
    (hne : rest ≠ []) :
    ∃ disk' failure, Grown (base ++ front) disk disk' ∧
      ensureDir (root.descend (front ++ rest)) disk = .error failure disk' := by
  have hpieces : ∀ n ∈ front ++ rest, IsPiece n := by
    intro n hn
    rcases List.mem_append.mp hn with hn | hn
    · exact (hfront n hn).toIsPiece
    · exact (hrest n hn).toIsPiece
  cases htext : checkText (root.descend (front ++ rest)) with
  | error refusal =>
    exact ⟨disk, _, .refl hg.distinct _, by rw [ensureDir, makeDirs, htext]⟩
  | ok text =>
    obtain ⟨disk', hgrown, ⟨hdir, -⟩ | ⟨-, hmade⟩⟩ :=
      makeDirsFrom_names hg.distinct hg.isDir hfront rest
    · rw [hgrown.file_iff.mpr hfile] at hdir
      cases hdir
    · exact ⟨disk', _, hgrown, by rw [ensureDir, makeDirs_descend hg hpieces (by simp [hne]) htext,
        hmade]⟩

end Files

/-! ## Directories that do not count -/

namespace Library

/-- Directories for a domain and for a project belong to no document. -/
theorem Holds.of_grown (h : lib.Holds base disk) {front : List String}
    (hgrown : Grown (base ++ front) disk disk') (hshort : front.length < 3) :
    lib.Holds base disk' := by
  have hdeep : ∀ q : Place, 3 ≤ q.length →
      disk'.kindAt? (base ++ q) = disk.kindAt? (base ++ q) := by
    intro q hq
    refine hgrown.eq_of_not_above fun habove => ?_
    have hlength := habove.length_le
    rw [List.length_append, List.length_append] at hlength
    omega
  refine ⟨fun domain project id q hdomain => ?_, fun domain name content hdomain => ?_,
    fun domain content => ?_, fun q content => ?_, fun domain project id name => ?_⟩
  · rw [← h.documents domain project id q hdomain, List.append_assoc]
    exact hdeep _ (by simp [home])
  · rw [hgrown.file_iff]
    exact h.projects domain name content hdomain
  · rw [Ne, hgrown.file_iff]
    exact h.domains domain content
  · rw [Ne, hgrown.file_iff]
    exact h.waiting q content
  · rw [← h.vacant domain project id name, List.append_assoc]
    exact hdeep _ (by simp [aside])

end Library

/-! ## Requests -/

namespace Store

variable {s : Store} {state : StoreState}

/-- Where the directory of a document cannot be created, the document is not written. -/
theorem persist_refused (hpieces : ∀ n ∈ home d.domain d.project d.id, IsPiece n)
    {failure : Failure} (hensure : ensureDir (root.descend (home d.domain d.project d.id)) disk
      = .error failure disk') : persist root d disk = .error failure disk' := by
  have hsnapshot := (Layout.isName_snapshotName d.updateRevision).toIsPiece
  have hparent : ((root.descend (home d.domain d.project d.id)).join
      (Layout.snapshotName d.updateRevision)).parent
        = root.descend (home d.domain d.project d.id) :=
    Path.parent_join_join (root.descend [d.domain, d.project]) (hpieces d.id (by simp)) hsnapshot
  simp only [persist, LoggedAction.allOrNothing, Files.write, bind, EStateM.bind,
    LoggedAction.lift, snapshot_eq, hparent, hensure]
  rfl

/-- The directory of a document cannot be created if one of its names does not fit, or if there is a
loose file in its place; then only directories that do not count are. -/
theorem ensureDir_home (h : s.Ready base lib state) (hscope : Names.checkScope d.domain d.project
      = .ok ()) (hid : Names.checkId d.id = .ok ())
    (hnot : ¬((∀ name ∈ [d.domain, d.project, d.id], Fits name) ∧
      lib.loose? d.domain d.project = none)) :
    ∃ front disk' failure, front.length < 3 ∧ Grown (base ++ front) state.disk disk' ∧
      ensureDir (s.root.descend (home d.domain d.project d.id)) state.disk
        = .error failure disk' := by
  have hpieces := isPiece_home hscope hid
  by_cases hnames : ∀ n ∈ home d.domain d.project d.id, IsName n
  · have hfits : ∀ name ∈ [d.domain, d.project, d.id], Fits name := fun name hname =>
      ⟨(hnames name hname).fits, (hnames name hname).noNul⟩
    obtain ⟨content, hloose⟩ := Option.ne_none_iff_exists'.mp fun hloose => hnot ⟨hfits, hloose⟩
    have hfile := (h.kept.holds.projects _ _ _ (Names.checkScope_eq_ok_iff.mp hscope).2.1).mpr
      hloose
    obtain ⟨disk', failure, hgrown, hensure⟩ := ensureDir_blocked h.kept.grounded
      (fun n hn => hnames n (List.mem_of_mem_take (i := 2) hn)) hfile
      (List.forall_mem_singleton.mpr (hnames d.id (by simp))) (List.cons_ne_nil _ _)
    exact ⟨_, disk', failure, by simp, hgrown, hensure⟩
  · exact ensureDir_unfit h.kept.grounded hpieces hnames

/-- A document is created, or nothing that counts changes. -/
theorem create_outcome (h : s.Ready base lib state) (caller : Caller) (d : Document) :
    (∃ state', s.create caller d state = .ok d state' ∧ Storable d.domain d.project d.id ∧
        authorize s.policy caller .create d.labels = .ok () ∧
        s.Ready base (lib.write s.maxHistory d) state') ∨
      ∃ failure disk', s.create caller d state = .error failure { state with disk := disk' } ∧
        s.Ready base lib { state with disk := disk' } := by
  by_cases hfree : (∀ name ∈ [d.domain, d.project, d.id], Fits name) ∧
      lib.loose? d.domain d.project = none
  · exact (create_ready h caller hfree.1 hfree.2).imp_right fun ⟨failure, herror⟩ =>
      ⟨failure, state.disk, herror, h⟩
  refine .inr ?_
  cases hcheck : Names.checkDocument d with
  | error failure =>
    exact ⟨failure, state.disk, by simp only [create, bind, EStateM.bind, hcheck, require_error], h⟩
  | ok u =>
    cases hauth : authorize s.policy caller .create d.labels with
    | error failure =>
      exact ⟨failure, state.disk, by simp only [create, bind, EStateM.bind, hcheck, hauth,
        require_ok, require_error], h⟩
    | ok u =>
      obtain ⟨hscope, hid⟩ := Names.checkDocument_eq_ok_iff.mp hcheck
      obtain ⟨front, disk', failure, hshort, hgrown, hensure⟩ := ensureDir_home h hscope hid hfree
      have hpersist := persist_refused (isPiece_home hscope hid) hensure
      refine ⟨failure, disk', ?_, h.room, ⟨h.kept.valid, ?_, ?_⟩, h.agrees⟩
      · simp only [create, bind, EStateM.bind, hcheck, hauth, require_ok, Store.write,
          StoreAction.onDisk, hpersist]
      · exact h.kept.grounded.mono hgrown.distinct fun q hq _ => hgrown.dir hq
      · exact h.kept.holds.of_grown hgrown hshort

/-- A project with a name that does not fit has no documents. -/
theorem shelf?_unfit (h : lib.Valid) {domain project : String}
    (hunfit : ¬∀ name ∈ [domain, project], Fits name) (id : String) :
    lib.shelf? domain project id = none := by
  cases hshelf : lib.shelf? domain project id with
  | none => rfl
  | some shelf =>
    refine absurd (fun name hname => ?_) hunfit
    have hnamed := (h.storable hshelf).names name
      (List.mem_of_mem_take (i := 2) (by simpa [home] using hname))
    exact ⟨hnamed.fits, hnamed.noNul⟩

/-- Nothing is found in a project with a name that does not fit. -/
theorem find_unfit (h : s.Ready base lib state) {domain project : String}
    (hunfit : ¬∀ name ∈ [domain, project], Fits name) {query : Query} {docs : List Document}
    {state' : StoreState} (hfind : s.find domain project query state = .ok docs state') :
    docs = [] := by
  refine List.eq_nil_iff_forall_not_mem.mpr fun d hd => ?_
  obtain ⟨hhead, -⟩ := find_sound h hfind d hd
  rw [head?, shelf?_unfit h.kept.valid hunfit] at hhead
  cases hhead

end Store

namespace Session

variable {session : Session}

/-- A request does to the library what it says and keeps the invariant, whatever names are in
it. -/
theorem call_kept (h : session.store.Ready base lib session.state) {request : Request}
    (hdocs : request.OnDocuments) :
    ∃ result lib' state', session.call request = (result, { session with state := state' }) ∧
      session.store.Ready base lib' state' ∧
      lib.After session.store.maxHistory request result lib' := by
  cases request with
  | create caller d =>
    rcases Store.create_outcome h caller d with
      ⟨state', hok, -, -, hready⟩ | ⟨failure, disk', herror, hready⟩
    · exact ⟨_, _, state', call_of_ok rfl hok, hready, rfl, rfl⟩
    · exact ⟨_, lib, _, call_of_error rfl herror, hready, rfl⟩
  | update caller d =>
    rcases Store.update_ready h caller d with
      ⟨old, state', hhead, hok, -, hnewer, hready⟩ | ⟨failure, herror⟩
    · exact ⟨_, _, state', call_of_ok rfl hok, hready, old, hhead, hnewer, rfl, rfl⟩
    · exact ⟨_, lib, _, call_of_error rfl herror, h, rfl⟩
  | deleteOne caller domain project id =>
    rcases Store.deleteOne_ready h caller domain project id with
      ⟨d, state', hok, hhead, -, hready⟩ | ⟨failure, state', herror, -, hready⟩
    · exact ⟨_, _, state', call_of_ok rfl hok, hready, d, rfl, hhead, rfl⟩
    · exact ⟨_, lib, state', call_of_error rfl herror, hready, rfl⟩
  | deleteMany caller domain project ids =>
    rcases Store.deleteMany_ready h caller domain project ids with
      ⟨docs, state', hok, hheads, hready⟩ | ⟨failure, state', herror, -, hready⟩
    · exact ⟨_, _, state', call_of_ok rfl hok, hready, docs, rfl,
        hheads.imp fun _ _ hhead => hhead.1, rfl⟩
    · exact ⟨_, lib, state', call_of_error rfl herror, hready, rfl⟩
  | addHistory d =>
    obtain ⟨lib', state', htrimmed, hready, hends⟩ := Store.addHistory_ready h d
    obtain ⟨result, hcall⟩ := call_of_ends (.addHistory d) rfl hends
    exact ⟨result, lib', state', hcall, hready, htrimmed⟩
  | list caller domain project query =>
    obtain ⟨state', hready, hends⟩ := Store.find_ready h domain project query
    have hlist : Ends (session.store.list caller domain project query) session.state state' :=
      hends.after fun _ => Looks.pure _
    obtain ⟨result, hcall⟩ := call_of_ends (.list caller domain project query) rfl hlist
    exact ⟨result, lib, state', hcall, hready, rfl⟩
  | holdsKey domain project key query =>
    obtain ⟨state', hready, hends⟩ :=
      Store.holdsKey_ready h domain project key query
    obtain ⟨result, hcall⟩ := call_of_ends (.holdsKey domain project key query) rfl hends
    exact ⟨result, lib, state', hcall, hready, rfl⟩
  | getByKey domain project key query =>
    obtain ⟨state', hready, hends⟩ :=
      Store.getByKey_ready h domain project key query
    obtain ⟨result, hcall⟩ := call_of_ends (.getByKey domain project key query) rfl hends
    exact ⟨result, lib, state', hcall, hready, rfl⟩
  | get caller domain project id =>
    obtain ⟨result, hcall⟩ := call_of_ends (.get caller domain project id) rfl
      ((looks_get session.store caller domain project id).outcome session.state)
    exact ⟨result, lib, _, hcall, h, rfl⟩
  | total domain project =>
    obtain ⟨result, hcall⟩ := call_of_ends (.total domain project) rfl
      ((looks_total session.store domain project).outcome session.state)
    exact ⟨result, lib, _, hcall, h, rfl⟩
  | history caller domain project id offset limit =>
    obtain ⟨result, hcall⟩ := call_of_ends (.history caller domain project id offset limit) rfl
      ((looks_history session.store caller domain project id offset limit).outcome session.state)
    exact ⟨result, lib, _, hcall, h, rfl⟩
  | delayDeletion domain project ids => exact ⟨_, lib, _, rfl, h, rfl⟩
  | current domain =>
    obtain ⟨result, hcall⟩ := call_of_ends (.current domain) rfl
      ((looks_current session.store.root domain).onDisk.outcome session.state)
    exact ⟨result, lib, _, hcall, h, rfl⟩
  | findPolling wanted =>
    obtain ⟨result, hcall⟩ := call_of_ends (.findPolling wanted) rfl
      ((looks_findPolling session.store.root wanted).onDisk.outcome session.state)
    exact ⟨result, lib, _, hcall, h, rfl⟩
  | advance domain => exact hdocs.elim
  | putPolling record => exact hdocs.elim

end Session

end ConfigStore
