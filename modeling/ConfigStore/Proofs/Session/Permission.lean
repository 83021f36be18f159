import ConfigStore.Proofs.Session.Runs
import ConfigStore.Proofs.Store.Pinning

/-!
# Who may change a document

A caller who may neither update nor delete a document cannot change it, whatever the store has been
asked for before, counters and polling records under any names included. There is one exception: a
document is created whether or not there is one already, and the permission depends on the labels of
the new document.

* `Session.Tidy` is the invariant of all runs; `Session.Fresh.tidy` and `Session.run_tidy` establish
  and preserve it.
* `Session.call_get_eq_ok_iff` says what a store answers those for whom permissions do not count.
* `Store.keeps_pinned` says what requests without permission leave as it is.
* `Session.run_denied` says so of every run, and `Session.create_over_denied` gives the exception.
-/

namespace ConfigStore

open Node Disk Files Deletion

/-! ## Requests -/

/-- The request is one by which the caller may change documents. -/
def Request.IsWriteBy (caller : Caller) : Request → Prop
  | .create writer _ => writer = caller
  | .update writer _ => writer = caller
  | .deleteOne writer .. => writer = caller
  | .deleteMany writer .. => writer = caller
  | _ => False

/-- The request asks for something and changes nothing, whatever the answer. -/
def Request.Reads : Request → Prop
  | .get .. | .list .. | .holdsKey .. | .getByKey .. | .total .. | .history .. => True
  | .delayDeletion .. | .current _ | .findPolling _ => True
  | _ => False

namespace Store

variable {s : Store} {base : Place} {caller : Caller} {domain project id : String} {d : Document}
  {content : Bytes}

theorem keeps_find {P : Node → Prop} (domain project : String) (query : Query) :
    Keeps (fun state => P state.disk) (s.find domain project query) := by
  have hsearch : Keeps (fun state : StoreState => P state.disk)
      (searchCache domain project query) := by
    refine ⟨fun state hP => ?_⟩
    cases hcache : state.cache with
    | none => exact .of_ok _ (searchCache_none hcache query) hP
    | some cache => exact .of_ok _ (searchCache_some hcache query) hP
  refine (Keeps.require _).bind fun _ => hsearch.bind fun cached => ?_
  split
  · exact .of_looks (.pure _)
  · refine (Keeps.of_looks (looks_scan ..).onDisk).bind fun scanned => ?_
    exact (Keeps.onCache _).bind fun _ => .of_looks (.pure _)

/-- A request that only reads keeps the tree as it is. -/
theorem keeps_read {P : Node → Prop} (s : Store) {request : Request} (hread : request.Reads) :
    Keeps (fun state => P state.disk) (s.answer request) := by
  cases request with
  | get caller domain project id => exact (Keeps.of_looks (looks_get ..)).map _
  | list caller domain project query =>
    exact ((keeps_find domain project query).bind fun _ => .of_looks (.pure _)).map _
  | holdsKey domain project key query =>
    refine Keeps.map ((keeps_find ..).bind fun docs => ?_) _
    split
    · exact .of_looks (.pure _)
    · exact .of_looks (Looks.guarded (.pure _))
  | getByKey domain project key query =>
    refine Keeps.map ((keeps_find ..).bind fun docs => ?_) _
    exact .of_looks (Looks.guarded (Looks.guarded (.pure _)))
  | total domain project => exact (Keeps.of_looks (looks_total ..)).map _
  | history caller domain project id offset limit => exact (Keeps.of_looks (looks_history ..)).map _
  | delayDeletion domain project ids => exact .of_looks (.pure _)
  | current domain => exact (Keeps.of_looks (looks_current ..).onDisk).map _
  | findPolling wanted => exact (Keeps.of_looks (looks_findPolling ..).onDisk).map _
  | _ => exact hread.elim

/-- Whatever is asked for, a newest copy that can be read is the document of its place. -/
theorem keeps_answer (s : Store) (base : Place) (request : Request) :
    Keeps (Watch.usual.Over s base) (s.answer request) := by
  have hstages : ∀ {caller : Caller} {domain project id : String},
      Names.checkScope domain project = .ok () → Names.checkId id = .ok () →
        Watch.usual.Stages s caller base domain project id :=
    fun hscope hid => (Watch.usual_opens hscope).toFrees.stages
      (Names.ne_tmpName_of_checkScope hscope) (isPiece_home hscope hid)
  cases request with
  | create caller d => exact (Watch.keeps_create fun hscope _ => Watch.usual_opens hscope).map _
  | update caller d =>
    exact (Watch.keeps_update fun _ _ hscope _ _ _ _ => Watch.usual_opens hscope).map _
  | deleteOne caller domain project id => exact (Watch.keeps_deleteOne hstages).map _
  | deleteMany caller domain project ids => exact (Watch.keeps_deleteMany fun _ => hstages).map _
  | addHistory d =>
    have hrotate : Keeps (Watch.usual.Holds s.root base)
        (Retention.rotate s.root d.domain d.project d.id s.maxHistory) := Watch.keeps_rotate _
    exact (hrotate.onDisk.bind fun _ => .of_looks (.pure _)).map _
  | advance domain => exact (Watch.keeps_advance domain).onDisk.map _
  | putPolling record => exact (Watch.keeps_putPolling record).onDisk.map _
  | _ => exact keeps_read s trivial

theorem get_eq_ok_iff {reader : Caller} {state state' : StoreState}
    (hreader : reader.authEnabled = false) :
    s.get reader domain project id state = .ok d state' ↔
      (Names.checkScope domain project = .ok () ∧ Names.checkId id = .ok () ∧
        ∃ content, readFile state.disk (Layout.newest s.root domain project id) = .ok content ∧
          Document.decode content = .ok d) ∧ state' = state := by
  simp only [get, bind_eq_ok_iff, require_eq_ok_iff, onDisk_eq_ok_iff, pure_eq_ok_iff,
    readDocument_eq_ok_iff, authorize, hreader]
  constructor
  · rintro ⟨_, _, ⟨hscope, rfl⟩, _, _, ⟨hid, rfl⟩, stored, ⟨disk, cache⟩,
      ⟨⟨rfl, hread⟩, rfl⟩, _, _, ⟨-, rfl⟩, rfl, rfl⟩
    exact ⟨⟨hscope, hid, hread⟩, rfl⟩
  · rintro ⟨⟨hscope, hid, hread⟩, rfl⟩
    exact ⟨(), _, ⟨hscope, rfl⟩, (), _, ⟨hid, rfl⟩, d, _, ⟨⟨rfl, hread⟩, rfl⟩, (), _,
      ⟨rfl, rfl⟩, rfl, rfl⟩

/-- What is read at a pinned place is the pinned document. -/
theorem eq_of_read_pinned {w : Watch} {hdomain : domain ≠ Layout.tmpName} {disk : Node}
    {stored : Document} (hscope : Names.checkScope domain project = .ok ())
    (hid : Names.checkId id = .ok ()) (hdecode : Document.decode content = .ok d)
    (h : (w.pin hdomain project id content).Holds s.root base disk)
    (hread : readDocument s.root domain project id disk = .ok stored disk) : stored = d := by
  obtain ⟨-, found, hfile, hstored⟩ := readDocument_eq_ok_iff.mp hread
  have hfound := h.content_of_read (isPiece_home hscope hid) hfile
  rw [(Watch.holds_pin_iff.mp h).2] at hfound
  rw [Option.some.inj hfound, hstored] at hdecode
  exact Except.ok.inj hdecode

/-- Writes by a caller who may neither update nor delete a document keep it, unless the document is
created anew. -/
theorem keeps_pinned {hdomain : domain ≠ Layout.tmpName} (hroom : Roomy s.root)
    (hshort : s.root.byteLength + 1028 ≤ maxPathBytes) (hdecode : Document.decode content = .ok d)
    (hupdate : authorize s.policy caller .update d.labels ≠ .ok ())
    (hdelete : authorize s.policy caller .delete d.labels ≠ .ok ()) {request : Request}
    (hwrite : request.IsWriteBy caller)
    (hcreate : ∀ e, request = .create caller e →
      e.domain = domain ∧ e.project = project ∧ e.id = id →
        authorize s.policy caller .create e.labels ≠ .ok ()) :
    Keeps ((Watch.usual.pin hdomain project id content).Over s base) (s.answer request) := by
  have hstages : ∀ {domain' project' id' : String}, Names.checkScope domain' project' = .ok () →
      Names.checkId id' = .ok () →
        (Watch.usual.pin hdomain project id content).Stages s caller base domain' project' id' :=
    fun hscope hid => (Watch.usual_opens hscope).stages_pin hroom hshort
      (Names.ne_tmpName_of_checkScope hscope) (isPiece_home hscope hid) hdecode hdelete
  cases request with
  | create writer e =>
    obtain rfl : writer = caller := hwrite
    refine (Watch.keeps_create fun hscope hauth =>
      (Watch.usual_opens hscope).pin fun hsame => ?_).map _
    exact hcreate e rfl hsame hauth
  | update writer e =>
    obtain rfl : writer = caller := hwrite
    refine (Watch.keeps_update fun disk stored hscope hid h hread hauth =>
      (Watch.usual_opens hscope).pin ?_).map _
    rintro ⟨rfl, rfl, rfl⟩
    rw [eq_of_read_pinned hscope hid hdecode h hread] at hauth
    exact hupdate hauth
  | deleteOne writer domain' project' id' =>
    obtain rfl : writer = caller := hwrite
    exact (Watch.keeps_deleteOne hstages).map _
  | deleteMany writer domain' project' ids =>
    obtain rfl : writer = caller := hwrite
    exact (Watch.keeps_deleteMany fun _ => hstages).map _
  | _ => exact hwrite.elim

end Store

/-! ## Sessions -/

/-- The directory of the store stays the same. -/
def Step.At (root : Path) : Step → Prop
  | .call _ => True
  | .reopen settings _ => settings.root = root

namespace Session

/-- The tree of a session may hold anything, but a newest copy that can be read is the document of
its place. -/
structure Tidy (root : Path) (base : Place) (session : Session) : Prop where
  text : checkText root = .ok ()
  root_eq : session.store.root = root
  holds : Watch.usual.Holds root base session.state.disk

variable {session : Session} {settings : Settings} {root : Path} {base : Place}
  {domain project id : String} {caller reader : Caller} {d : Document}

theorem Fresh.tidy (h : session.Fresh settings) : ∃ base, session.Tidy settings.root base := by
  obtain ⟨hroot, htext, base, hgrounded, hbelow⟩ := h.grounded
  exact ⟨base, htext, hroot, Watch.usual_holds_of_empty hgrounded hbelow⟩

theorem disk_call_of_endsIn {P : Node → Prop} {request : Request}
    (h : EndsIn (fun state => P state.disk) (session.store.answer request) session.state) :
    P (session.call request).2.state.disk := by
  obtain ⟨state', ⟨a, hok⟩ | ⟨failure, herror⟩, hP⟩ := h
  · simpa only [call, hok] using hP
  · simpa only [call, herror] using hP

/-- A request keeps what its action keeps. -/
theorem disk_call_of_keeps {P : Node → Prop} {request : Request}
    (h : Keeps (fun state => P state.disk) (session.store.answer request))
    (hP : P session.state.disk) : P (session.call request).2.state.disk :=
  disk_call_of_endsIn (h.outcome session.state hP)

theorem store_call (session : Session) (request : Request) :
    (session.call request).2.store = session.store := by
  rw [call]
  cases session.store.answer request session.state <;> rfl

theorem step_tidy (h : session.Tidy root base) {s : Step} (hs : s.At root) :
    (session.step s).2.Tidy root base := by
  cases s with
  | call request =>
    obtain ⟨htext, rfl, hholds⟩ := h
    exact ⟨htext, congrArg Store.root (store_call session request),
      disk_call_of_keeps (session.store.keeps_answer base request) hholds⟩
  | reopen settings policy =>
    obtain rfl : settings.root = root := hs
    have hdirs := makeDirs_of_leads h.holds.grounded.leads h.text h.holds.grounded.isDir
    rw [step, reopen, start_eq, hdirs]
    exact ⟨h.text, rfl, h.holds⟩

/-- Whatever happens in a run, a newest copy that can be read is the document of its place. -/
theorem run_tidy (h : session.Tidy root base) {steps : List Step}
    (hsteps : ∀ s ∈ steps, s.At root) : (session.run steps).2.Tidy root base := by
  induction steps generalizing session with
  | nil => exact h
  | cons s steps ih =>
    obtain ⟨hs, hsteps⟩ := List.forall_mem_cons.mp hsteps
    exact ih (step_tidy h hs) hsteps

/-- Without authorization, a document is read if its names are accepted and its newest copy can be
read. -/
theorem call_get_eq_ok_iff (hreader : reader.authEnabled = false) :
    (session.call (.get reader domain project id)).1 = .ok (.document d) ↔
      Names.checkScope domain project = .ok () ∧ Names.checkId id = .ok () ∧
        ∃ content, readFile session.state.disk (Layout.newest session.store.root domain project id)
          = .ok content ∧ Document.decode content = .ok d := by
  constructor
  · intro h
    rcases hend : session.store.get reader domain project id session.state with
      ⟨e, state'⟩ | ⟨failure, state'⟩
    · rw [call_of_ok rfl hend] at h
      cases h
      exact (Store.get_eq_ok_iff hreader).mp hend |>.1
    · rw [call_of_error rfl hend] at h
      cases h
  · intro h
    rw [call_of_ok rfl ((Store.get_eq_ok_iff hreader).mpr ⟨h, rfl⟩)]

/-- A write without permission for what is stored leaves it as it is, unless it is created anew. -/
theorem call_denied (h : session.Tidy root base) (hroom : Roomy root)
    (hshort : root.byteLength + 1028 ≤ maxPathBytes) (hreader : reader.authEnabled = false)
    (hget : (session.call (.get reader domain project id)).1 = .ok (.document d))
    (hupdate : authorize session.store.policy caller .update d.labels ≠ .ok ())
    (hdelete : authorize session.store.policy caller .delete d.labels ≠ .ok ())
    {request : Request} (hwrite : request.IsWriteBy caller)
    (hcreate : ∀ e, request = .create caller e →
      e.domain = domain ∧ e.project = project ∧ e.id = id →
        authorize session.store.policy caller .create e.labels ≠ .ok ()) :
    ((session.call request).2.call (.get reader domain project id)).1 = .ok (.document d) := by
  obtain ⟨-, rfl, hholds⟩ := h
  obtain ⟨hscope, hid, content, hread, hdecode⟩ := (call_get_eq_ok_iff hreader).mp hget
  have hpieces := isPiece_home hscope hid
  obtain ⟨hnames, htext, -⟩ :=
    readFile_inv hholds.grounded.leads hpieces Layout.isName_newestName.toIsPiece hread
  have hbefore : (Watch.usual.pin (Names.ne_tmpName_of_checkScope hscope) project id content).Holds
      session.store.root base session.state.disk :=
    Watch.holds_pin_iff.mpr ⟨hholds, hholds.content_of_read hpieces hread⟩
  have hafter : (Watch.usual.pin (Names.ne_tmpName_of_checkScope hscope) project id content).Holds
      session.store.root base (session.call request).2.state.disk :=
    disk_call_of_keeps (Store.keeps_pinned hroom hshort hdecode hupdate hdelete hwrite hcreate)
      hbefore
  refine (call_get_eq_ok_iff hreader).mpr ⟨hscope, hid, content, ?_, hdecode⟩
  rw [store_call]
  exact hafter.read_of_content (fun n hn => hnames n (List.mem_append_left _ hn)) htext
    (Watch.holds_pin_iff.mp hafter).2

/-- **Nobody changes a document without a permission for what is stored, except by creating it
anew.** -/
theorem run_denied (h : session.Fresh settings)
    (hshort : settings.root.byteLength + 1028 ≤ maxPathBytes) {steps : List Step}
    (hsteps : ∀ s ∈ steps, s.At settings.root) {last : Session}
    (hlast : (session.run steps).2 = last) (hreader : reader.authEnabled = false)
    (hget : (last.call (.get reader domain project id)).1 = .ok (.document d))
    (hauth : caller.authEnabled = true)
    (hupdate : last.store.policy caller .update (some d.labels) = none)
    (hdelete : last.store.policy caller .delete (some d.labels) = none) {request : Request}
    (hwrite : request.IsWriteBy caller)
    (hcreate : ∀ e, request = .create caller e →
      e.domain = domain ∧ e.project = project ∧ e.id = id →
        last.store.policy caller .create (some e.labels) = none) :
    ((last.call request).2.call (.get reader domain project id)).1 = .ok (.document d) := by
  obtain ⟨base, htidy⟩ := h.tidy
  have hlastTidy : last.Tidy settings.root base := hlast ▸ run_tidy htidy hsteps
  have hdenied : ∀ {verb labels}, last.store.policy caller verb (some labels) = none →
      authorize last.store.policy caller verb labels ≠ .ok () := by
    intro verb labels hnone hok
    simp [authorize, hauth, hnone] at hok
  exact call_denied hlastTidy ⟨htidy.text, h.short⟩ hshort hreader hget (hdenied hupdate)
    (hdenied hdelete) hwrite fun e he hsame => hdenied (hcreate e he hsame)

/-! ## A document that is created anew -/

/-- A policy that allows everybody to create and to read documents, and nothing else. -/
def creatorPolicy : Authorizer := .ofRules [
  { verb := some "create", result := some .unrestricted },
  { verb := some "get", result := some .unrestricted }]

/-- A store with this policy that was opened where nothing was. -/
def creatorSample : Session :=
  { sample with store := { root := sampleSettings.root, policy := creatorPolicy } }

/-- The store keeps one document. -/
def creatorKept : Session := (creatorSample.run [.call (.create .anonymous sampleDocument)]).2

/-- A caller who may create and read. -/
def creator : Caller := .ofAccount "eve" []

/-- A document for the place of the one that the store keeps. -/
def usurper : Document := { sampleDocument with value := "0", updateRevision := 2 }

theorem creatorSample_fresh : creatorSample.Fresh sampleSettings where
  opened := ⟨creatorPolicy, .dir [], distinct_dir_nil, rfl⟩
  empty := ⟨_, rfl, rfl⟩
  short := by decide

theorem creatorKept_sound : creatorKept.store = creatorSample.store ∧
    ∃ base, creatorKept.Sound sampleSettings.root base
      (Library.empty.write creatorSample.store.maxHistory sampleDocument) := by
  obtain ⟨base, hsound⟩ := creatorSample_fresh.sound
  obtain ⟨state, hcreate, hsound, -⟩ := call_create hsound .anonymous (d := sampleDocument)
    (.of_fits rfl rfl (by decide)) rfl
  rw [creatorKept, run_call_cons hcreate]
  exact ⟨rfl, base, hsound⟩

theorem creatorKept_get : (creatorKept.call (.get .anonymous "shop" "web" "timeout")).1
    = .ok (.document sampleDocument) := by
  obtain ⟨-, base, hsound⟩ := creatorKept_sound
  exact congrArg Prod.fst (call_get hsound .anonymous (.of_fits rfl rfl (by decide))
    (Library.head?_write ..) rfl)

theorem run_denied_sample :
    creatorPolicy creator .update (some sampleDocument.labels) = none ∧
      creatorPolicy creator .delete (some sampleDocument.labels) = none ∧
      ((creatorKept.call (.deleteOne creator "shop" "web" "timeout")).2.call
          (.get .anonymous "shop" "web" "timeout")).1 = .ok (.document sampleDocument) := by
  have hsteps : ∀ s ∈ [Step.call (.create .anonymous sampleDocument)], s.At sampleSettings.root :=
    List.forall_mem_singleton.mpr trivial
  have hpolicy : creatorKept.store.policy = creatorPolicy :=
    congrArg Store.policy creatorKept_sound.1
  have hupdate : creatorKept.store.policy creator .update (some sampleDocument.labels) = none := by
    rw [hpolicy]
    rfl
  have hdelete : creatorKept.store.policy creator .delete (some sampleDocument.labels) = none := by
    rw [hpolicy]
    rfl
  refine ⟨rfl, rfl, run_denied creatorSample_fresh (by decide) hsteps
    (rfl : _ = creatorKept) rfl creatorKept_get rfl hupdate hdelete rfl ?_⟩
  rintro e ⟨⟩

/-- A caller who may neither update nor delete a document replaces it by creating it anew. -/
theorem create_over_denied :
    creator.authEnabled = true ∧
      creatorPolicy creator .update (some sampleDocument.labels) = none ∧
      creatorPolicy creator .delete (some sampleDocument.labels) = none ∧
      (creatorKept.call (.get .anonymous "shop" "web" "timeout")).1
        = .ok (.document sampleDocument) ∧
      ((creatorKept.call (.create creator usurper)).2.call
          (.get .anonymous "shop" "web" "timeout")).1 = .ok (.document usurper) ∧
      usurper ≠ sampleDocument := by
  refine ⟨rfl, rfl, rfl, creatorKept_get, ?_, by decide⟩
  obtain ⟨hstore, base, hsound⟩ := creatorKept_sound
  obtain ⟨state, hcreate, hsound', -⟩ := call_create hsound creator (d := usurper)
    (.of_fits rfl rfl (by decide)) (by rw [hstore]; rfl)
  rw [hcreate]
  exact congrArg Prod.fst (call_get hsound' .anonymous (.of_fits rfl rfl (by decide))
    (Library.head?_write ..) rfl)

end Session

end ConfigStore
