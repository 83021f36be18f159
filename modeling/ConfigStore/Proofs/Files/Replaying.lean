import ConfigStore.Proofs.Disk.Overlooking
import ConfigStore.Proofs.Files.Restoring

/-!
# Replaying a log of many changes

Files are written and deleted one after the other, by paths of any kind, and every change that gets
so far records what it is about to overwrite. When the log is replayed, the records are applied in
the order in which they were made. So of several records of one file the last one counts. What was
created as a directory stays one.

* `FileChange` is a logged change and `Ledger.run` makes one change after the other, whether or not
  they succeed.
* `Ledger.recordings` are the trees in which a place was recorded.
* `UndoRecord.Sound` says of a record that it can be restored wherever directories are added;
  `UndoLog.replay_outcome` says what a log of such records restores.
* `Ledger.replay_run` says what stands where after the replay.
-/

namespace ConfigStore

open Node Disk

/-! ## Logged changes -/

/-- A change of one file. -/
inductive FileChange
  | write (text : String) (content : Bytes)
  | delete (text : String)

namespace FileChange

/-- The path of the file. -/
def path : FileChange → Path
  | .write text _ | .delete text => .ofText text

/-- Makes the change. -/
def action : FileChange → LoggedAction Unit
  | .write text content => Files.write (.ofText text) content
  | .delete text => Files.delete (.ofText text)

end FileChange

namespace Ledger

/-- The ledger after a change, be it successful or not. -/
def after (ledger : Ledger) (change : FileChange) : Ledger :=
  match change.action ledger with
  | .ok _ ledger | .error _ ledger => ledger

/-- The ledger after several changes. -/
def run (ledger : Ledger) (changes : List FileChange) : Ledger := changes.foldl after ledger

/-- A change records what stands at a place. -/
def Records (ledger : Ledger) (change : FileChange) (q : Place) : Prop :=
  (ledger.after change).undo ≠ ledger.undo ∧
    resolve (ledger.after change).disk change.path = .ok q

instance (ledger : Ledger) (change : FileChange) (q : Place) :
    Decidable (ledger.Records change q) :=
  inferInstanceAs (Decidable (_ ∧ _))

/-- The trees in which a place was recorded, each as it was before the change. -/
def recordings (q : Place) (ledger : Ledger) : List FileChange → List Node
  | [] => []
  | change :: changes =>
    if ledger.Records change q then ledger.disk :: recordings q (ledger.after change) changes
    else recordings q (ledger.after change) changes

end Ledger

/-! ## Sound records -/

variable {disk disk' : Node} {path : Path} {q : Place}

/-- A path that has a text and does not end in a slash has no slash at its end. -/
theorem Path.trimSlash_eq_self {front : List String} {last : String}
    (hpieces : path.pieces = front ++ [last]) (hempty : path.isEmpty = false)
    (hslash : path.endsInSlash = false) : path.trimSlash = path := by
  have hlast : last ≠ "" := by
    rintro rfl
    cases front with
    | nil => simp [isEmpty, hpieces] at hempty
    | cons first rest =>
      rw [endsInSlash, hpieces, List.getLast?_concat] at hslash
      simp at hslash
  have hkeep : (last == "") = false := by simpa using hlast
  rw [trimSlash, hpieces, List.reverse_concat, List.dropWhile_cons, hkeep]
  simp [← hpieces]

namespace Disk

/-- Where a path leads hangs on the directories alone. -/
theorem resolve_congr (h : ∀ q, disk'.kindAt? q = some .dir ↔ disk.kindAt? q = some .dir) :
    resolve disk' path = .ok q ↔ resolve disk path = .ok q :=
  ⟨resolve_mono fun q => (h q).mp, resolve_mono fun q => (h q).mpr⟩

end Disk

namespace UndoRecord

variable {r : UndoRecord}

/-- The path of the record is that of an entry of a directory. -/
def Aims (r : UndoRecord) (disk : Node) (q : Place) : Prop :=
  ∃ (parent : Path) (here : Place) (name : String), r.path = parent.join name ∧ IsName name ∧
    Leads parent here disk ∧ disk.kindAt? here = some .dir ∧ checkText r.path = .ok () ∧
    q = here ++ [name]

/-- The record says that there is no file where there can be none. -/
def Idle (r : UndoRecord) : Prop :=
  r.prior = none ∧ ∀ disk q, resolve disk r.path = .ok q → disk.kindAt? q = some .dir

/-- The record can be restored. -/
def Sound (r : UndoRecord) (disk : Node) : Prop := r.Idle ∨ ∃ q, r.Aims disk q

theorem Aims.resolve (h : r.Aims disk q) : Disk.resolve disk r.path = .ok q := by
  obtain ⟨parent, here, name, hpath, hname, hleads, hdir, htext, rfl⟩ := h
  rw [hpath] at htext ⊢
  exact resolve_join hleads hdir hname htext

theorem Sound.mono (h : r.Sound disk)
    (hkept : ∀ q, disk.kindAt? q = some .dir → disk'.kindAt? q = some .dir) : r.Sound disk' := by
  refine h.imp_right ?_
  rintro ⟨q, parent, here, name, hpath, hname, hleads, hdir, hrest⟩
  exact ⟨q, parent, here, name, hpath, hname, hleads.mono hkept, hkept here hdir, hrest⟩

theorem restore_of_idle (h : r.Idle) : r.restore disk = disk := by
  rw [restore, h.1]
  cases hremove : removeFile r.path disk with
  | error refusal => rfl
  | ok disk' =>
    -- what has been removed was a file
    obtain ⟨q, content, hfind, -⟩ := removeFile_eq_ok_iff.mp hremove
    obtain ⟨hresolve, hfile⟩ := find_eq_ok_iff.mp hfind
    cases (h.2 disk q hresolve).symm.trans (kindAt?_eq_file_iff.mpr hfile)

/-- A record of no file removes the file that is there now. -/
theorem restore_none (hd : disk.Distinct) (h : (UndoRecord.mk path none).Aims disk q) :
    ((UndoRecord.mk path none).restore disk).Distinct ∧
      ∀ q', ((UndoRecord.mk path none).restore disk).kindAt? q' =
        if q' = q ∧ disk.kindAt? q ≠ some .dir then none else disk.kindAt? q' := by
  obtain ⟨parent, here, name, rfl, hname, hleads, hdir, htext, rfl⟩ := h
  by_cases hfile : ∃ content, disk.kindAt? (here ++ [name]) = some (.file content)
  · obtain ⟨content, hfile⟩ := hfile
    have hleaf : ∀ next rest, disk.kindAt? ((here ++ [name]) ++ next :: rest) = none :=
      kindAt?_append_cons_eq_none (by rw [hfile]; simp)
    simp only [restore, removeFile_join hleads hdir hname htext hfile]
    refine ⟨hd.erase _, fun q' => ?_⟩
    rw [kindAt?_erase_leaf hd (by simp) hleaf, hfile]
    simp
  · obtain ⟨refusal, hrefused⟩ :
        ∃ refusal, removeFile (parent.join name) disk = .error refusal := by
      cases hremove : removeFile (parent.join name) disk with
      | error refusal => exact ⟨refusal, rfl⟩
      | ok disk' =>
        obtain ⟨here', content, hleads', -, -, hfound, -⟩ := removeFile_inv hname.toIsPiece hremove
        cases hleads.symm.trans hleads'
        exact absurd ⟨content, hfound⟩ hfile
    simp only [restore, hrefused]
    refine ⟨hd, fun q' => ?_⟩
    split
    next hq =>
      obtain ⟨rfl, hleaf⟩ := hq
      cases hkind : disk.kindAt? (here ++ [name]) with
      | none => rfl
      | some kind =>
        cases kind with
        | dir => exact absurd hkind hleaf
        | file content => exact absurd ⟨content, hkind⟩ hfile
    · rfl

/-- A record of a file writes it, unless a directory is there now. -/
theorem restore_some {content : Bytes} (hd : disk.Distinct)
    (h : (UndoRecord.mk path (some content)).Aims disk q) :
    ((UndoRecord.mk path (some content)).restore disk).Distinct ∧
      ∀ q', ((UndoRecord.mk path (some content)).restore disk).kindAt? q' =
        if q' = q ∧ disk.kindAt? q ≠ some .dir then some (.file content)
        else disk.kindAt? q' := by
  obtain ⟨parent, here, name, rfl, hname, hleads, hdir, htext, rfl⟩ := h
  have hmade := makeDirs_parent hname.toIsPiece hleads hdir htext
  by_cases hleaf : disk.kindAt? (here ++ [name]) = some .dir
  · obtain ⟨refusal, hrefused⟩ :
        ∃ refusal, writeFile (parent.join name) content disk = .error refusal := by
      cases hwrite : writeFile (parent.join name) content disk with
      | error refusal => exact ⟨refusal, rfl⟩
      | ok disk' =>
        obtain ⟨here', hleads', -, -, hfree, -⟩ := writeFile_inv hname.toIsPiece hwrite
        cases hleads.symm.trans hleads'
        exact absurd hleaf hfree
    simp only [restore, hmade, hrefused]
    exact ⟨hd, fun q' => by simp [hleaf]⟩
  · simp only [restore, hmade, writeFile_join hleads hdir hname htext hleaf]
    refine ⟨hd.put (distinct_file content) _, fun q' => ?_⟩
    rw [kindAt?_put_file hd hdir hleaf]
    simp [hleaf]

/-- A sound record is restored at the place to which its path leads, unless that is a directory. -/
theorem restore_outcome (hd : disk.Distinct) (h : r.Sound disk) :
    (r.restore disk).Distinct ∧ ∀ q, (r.restore disk).kindAt? q =
      if Disk.resolve disk r.path = .ok q ∧ disk.kindAt? q ≠ some .dir then r.prior.map .file
      else disk.kindAt? q := by
  rcases h with hidle | ⟨q₀, haims⟩
  · rw [restore_of_idle hidle]
    refine ⟨hd, fun q => (if_neg ?_).symm⟩
    exact fun hq => hq.2 (hidle.2 disk q hq.1)
  · have hrestore : (r.restore disk).Distinct ∧ ∀ q, (r.restore disk).kindAt? q =
        if q = q₀ ∧ disk.kindAt? q₀ ≠ some .dir then r.prior.map .file else disk.kindAt? q := by
      obtain ⟨path, prior⟩ := r
      cases prior with
      | none => exact restore_none hd haims
      | some content => exact restore_some hd haims
    refine ⟨hrestore.1, fun q => (hrestore.2 q).trans ?_⟩
    rw [haims.resolve]
    by_cases hq : q = q₀
    · subst hq
      simp
    · simp [hq, Ne.symm hq]

end UndoRecord

/-! ## Replaying -/

namespace UndoLog

variable {log : UndoLog}

/-- What a log says of a place, record by record. -/
def priors (log : UndoLog) (disk : Node) (q : Place) : List (Option Bytes) :=
  (log.filter fun r => resolve disk r.path = .ok q).map (·.prior)

/-- Directories stay, and everywhere else the last record counts. -/
theorem replay_outcome (hd : disk.Distinct) (h : ∀ r ∈ log, UndoRecord.Sound r disk) :
    (log.replay disk).Distinct ∧ ∀ q, (log.replay disk).kindAt? q =
      if disk.kindAt? q = some .dir then some .dir
      else ((log.priors disk q).getLast?.getD (disk.content? q)).map .file := by
  induction log generalizing disk with
  | nil =>
    refine ⟨hd, fun q => ?_⟩
    split
    next hdir => exact hdir
    next hleaf => exact kindAt?_of_leaf hleaf
  | cons r log ih =>
    obtain ⟨hr, hlog⟩ := List.forall_mem_cons.mp h
    obtain ⟨hd', hkind⟩ := UndoRecord.restore_outcome hd hr
    have hdirs : ∀ q, (r.restore disk).kindAt? q = some .dir ↔ disk.kindAt? q = some .dir := by
      intro q
      rw [hkind]
      split
      next hq => exact iff_of_false (by cases r.prior <;> simp) hq.2
      · rfl
    obtain ⟨hdistinct, hreplay⟩ := ih hd' fun r' hr' => (hlog r' hr').mono fun q => (hdirs q).mpr
    refine ⟨hdistinct, fun q => (hreplay q).trans ?_⟩
    have hpriors : priors log (r.restore disk) q = priors log disk q := by
      simp only [priors, resolve_congr hdirs]
    simp only [hdirs, hpriors]
    split
    · rfl
    next hleaf =>
      simp only [priors, List.filter_cons]
      split
      next hresolve =>
        have hprior : (r.restore disk).content? q = r.prior :=
          content?_of_kindAt? ((hkind q).trans (if_pos ⟨of_decide_eq_true hresolve, hleaf⟩))
        rw [List.map_cons, List.getLast?_cons, hprior, Option.getD_some]
      next hresolve =>
        have hsame := (hkind q).trans (if_neg fun hq => hresolve (decide_eq_true hq.1))
        rw [content?_congr hsame]

end UndoLog

/-! ## One change -/

namespace Disk

theorem top_of_readFile (hempty : path.isEmpty = false)
    (h : readFile disk path = .error .notFound) : disk.kindAt? [] = some .dir := by
  cases disk with
  | dir entries => rfl
  | file content =>
    rw [readFile_eq, resolve_eq_reach hempty, reach] at h
    cases htext : checkText path with
    | error refusal =>
      rw [htext] at h
      exact absurd (by rw [htext, Except.error.inj h]) (checkText_ne_notFound path)
    | ok text =>
      rw [htext] at h
      cases hpieces : path.pieces with
      | nil => rw [hpieces] at h; cases h
      | cons piece pieces => rw [hpieces] at h; cases h

/-- A path that does not end in a name is no path of a file. -/
theorem writeFile_stay {front : List String} {last : String}
    (hpieces : path.pieces = front ++ [last]) (hstay : Path.isStay last = true) (content : Bytes) :
    ∃ refusal, writeFile path content disk = .error refusal := by
  cases hwrite : writeFile path content disk with
  | error refusal => exact ⟨refusal, rfl⟩
  | ok disk' =>
    obtain ⟨hempty, -, hslash, q, hreach, hfree, -⟩ := writeFile_eq_ok_iff.mp hwrite
    rw [Path.trimSlash_eq_self hpieces hempty hslash] at hreach
    have hresolve := resolve_eq_ok_iff.mpr ⟨hempty, hreach⟩
    exact absurd (isDir_of_resolve_stay hpieces hstay hresolve) hfree

end Disk

namespace Files

variable {prior : Option Bytes} {made : Node}

/-- What has been read is what stands where the path leads. -/
theorem kindAt?_of_read? (h : read? path disk = .ok prior disk) (hq : resolve disk path = .ok q) :
    disk.kindAt? q = prior.map .file := by
  have hread := (read?_eq_ok_iff.mp h).2
  rw [readFile_eq, hq] at hread
  cases hkind : disk.kindAt? q with
  | none =>
    cases prior with
    | none => rfl
    | some content => simp only [Except.bind, hkind] at hread; cases hread
  | some kind =>
    cases kind with
    | dir => cases prior <;> simp only [Except.bind, hkind] at hread <;> cases hread
    | file content =>
      cases prior with
      | none => simp only [Except.bind, hkind] at hread; cases hread
      | some content' => simp only [Except.bind, hkind] at hread; cases hread; rfl

/-- A path that does not end in a name is no path of a file. -/
theorem read?_stay {front : List String} {last : String} (hpieces : path.pieces = front ++ [last])
    (hstay : Path.isStay last = true) (h : read? path disk = .ok prior disk) :
    (UndoRecord.mk path prior).Idle := by
  refine ⟨?_, fun disk q hq => isDir_of_resolve_stay hpieces hstay hq⟩
  cases prior with
  | none => rfl
  | some content =>
    have hread : readFile disk path = .ok content := (read?_eq_ok_iff.mp h).2
    obtain ⟨q, hfind⟩ := readFile_eq_ok_iff.mp hread
    obtain ⟨hresolve, hfile⟩ := find_eq_ok_iff.mp hfind
    have hdir := isDir_of_resolve_stay hpieces hstay hresolve
    cases hdir.symm.trans (kindAt?_eq_file_iff.mpr hfile)

/-- If the directories of a file could be created and the file can be looked for, they are there. -/
theorem leads_of_read? {parent : Path} {name : String} (hd : disk.Distinct) (hname : IsPiece name)
    (hmade : makeDirs (parent.join name).parent disk = (.ok (), made))
    (h : read? (parent.join name) made = .ok prior made) :
    ∃ here, Leads parent here made ∧ made.kindAt? here = some .dir := by
  have hread := (read?_eq_ok_iff.mp h).2
  cases prior with
  | some content =>
    obtain ⟨here, hleads, hdir, -⟩ := readFile_join_inv hname hread
    exact ⟨here, hleads, hdir⟩
  | none =>
    have hext := makeDirs_extended hd (parent.join name).parent
    rw [hmade] at hext
    have htop := top_of_readFile (Path.isEmpty_join parent hname) hread
    rw [hext.kept [] (by simp [kindAt?, at?])] at htop
    exact leads_of_makeDirs_parent hd htop hname hmade

theorem aims_of_read? {parent : Path} {here : Place} {name : String} (hname : IsPiece name)
    (hleads : Leads parent here disk) (hdir : disk.kindAt? here = some .dir)
    (h : read? (parent.join name) disk = .ok prior disk) :
    (UndoRecord.mk (parent.join name) prior).Aims disk (here ++ [name]) := by
  have htext := checkText_of_read? h
  have hpieces := Path.pieces_join parent hname.noSlash
  have hfits : isTooLong name = false := by
    by_contra hlong
    obtain ⟨entries, hentries⟩ := kindAt?_eq_dir_iff.mp hdir
    have hresolve : resolve disk (parent.join name) = .error .nameTooLong := by
      rw [resolve_of_follow (Path.isEmpty_join parent hname) htext hpieces hleads, follow, hentries]
      simp [hname.isIdle_eq_false, hname.ne_dotdot, hlong]
    have hread := (read?_eq_ok_iff.mp h).2
    rw [readFile_eq, hresolve] at hread
    cases prior <;> cases hread
  refine ⟨parent, here, name, rfl, ⟨hname, ?_, by simpa [isTooLong] using hfits⟩, hleads, hdir,
    htext, rfl⟩
  exact noNul_of_checkText htext name (by simp [hpieces])

end Files

namespace Ledger

variable {ledger ledger' : Ledger} {made : Node} {undo : UndoLog} {prior : Option Bytes}

/-- What a change of the file at a path does to a ledger. No directory goes; and either the log and
all files are as they were, or a sound record has been made of the only file that may have
changed. -/
structure Advanced (path : Path) (ledger ledger' : Ledger) : Prop where
  distinct : ledger'.disk.Distinct
  kept : ∀ q, ledger.disk.kindAt? q = some .dir → ledger'.disk.kindAt? q = some .dir
  logged :
    (ledger'.undo = ledger.undo ∧ ∀ q, ledger'.disk.content? q = ledger.disk.content? q) ∨
    ∃ prior, ledger'.undo = ledger.undo ++ [⟨path, prior⟩] ∧
      (UndoRecord.mk path prior).Sound ledger'.disk ∧
      ∀ q, (resolve ledger'.disk path = .ok q → ledger'.disk.kindAt? q ≠ some .dir →
          prior = ledger.disk.content? q) ∧
        (resolve ledger'.disk path ≠ .ok q → ledger'.disk.content? q = ledger.disk.content? q)

namespace Advanced

theorem unlogged (h : Extended disk made) (path : Path) (undo : UndoLog) :
    Advanced path ⟨disk, undo⟩ ⟨made, undo⟩ :=
  ⟨h.distinct, fun _ => h.dir, .inl ⟨rfl, h.content?⟩⟩

theorem idle (h : Extended disk made) (hidle : (UndoRecord.mk path prior).Idle) (undo : UndoLog) :
    Advanced path ⟨disk, undo⟩ ⟨made, undo ++ [⟨path, prior⟩]⟩ where
  distinct := h.distinct
  kept := fun _ => h.dir
  logged := by
    refine .inr ⟨prior, rfl, .inl hidle, fun q => ⟨fun hq hleaf => ?_, fun _ => h.content? q⟩⟩
    exact absurd (hidle.2 _ q hq) hleaf

/-- The file to which the path leads has been recorded, and nothing else has changed. -/
theorem recorded {q₀ : Place} (h : Extended disk made)
    (hread : Files.read? path made = .ok prior made)
    (haims : (UndoRecord.mk path prior).Aims made q₀) (hd : disk'.Distinct)
    (hframe : ∀ q, q ≠ q₀ → disk'.kindAt? q = made.kindAt? q) (undo : UndoLog) :
    Advanced path ⟨disk, undo⟩ ⟨disk', undo ++ [⟨path, prior⟩]⟩ := by
  have hfound := Files.kindAt?_of_read? hread haims.resolve
  have hkept : ∀ q, made.kindAt? q = some .dir → disk'.kindAt? q = some .dir := by
    intro q hq
    rw [hframe q, hq]
    rintro rfl
    rw [hfound] at hq
    cases prior <;> cases hq
  have haims' : (UndoRecord.mk path prior).Sound disk' :=
    UndoRecord.Sound.mono (.inr ⟨q₀, haims⟩) hkept
  have hresolve := resolve_mono hkept haims.resolve
  refine ⟨hd, fun q hq => hkept q (h.dir hq), .inr ⟨prior, rfl, haims', fun q => ⟨?_, ?_⟩⟩⟩
  · intro hq _
    obtain rfl : q₀ = q := Except.ok.inj (hresolve.symm.trans hq)
    rw [← h.content? q₀]
    exact (content?_of_kindAt? hfound).symm
  · intro hq
    rw [content?_congr (hframe q ?_), h.content? q]
    rintro rfl
    exact hq hresolve

end Advanced

theorem after_of_ok {change : FileChange} (h : change.action ledger = .ok () ledger') :
    ledger.after change = ledger' := by
  rw [after, h]

theorem after_of_error {change : FileChange} {failure : Failure}
    (h : change.action ledger = .error failure ledger') : ledger.after change = ledger' := by
  rw [after, h]

theorem advanced_delete (hd : ledger.disk.Distinct) (text : String) :
    Advanced (.ofText text) ledger (ledger.after (.delete text)) := by
  obtain ⟨disk, undo⟩ := ledger
  rcases (Files.looks_look (.read (.ofText text)) _).outcome disk with
    ⟨prior, hread⟩ | ⟨failure, hfail⟩
  · replace hread : Files.read? (.ofText text) disk = .ok prior disk := hread
    cases prior with
    | none =>
      have hafter : after ⟨disk, undo⟩ (.delete text) = ⟨disk, undo⟩ := by
        simp only [after, FileChange.action, Files.delete, bind, EStateM.bind, LoggedAction.lift,
          hread]
        rfl
      rw [hafter]
      exact .unlogged (.refl hd) _ undo
    | some content =>
      have hfile : readFile disk (.ofText text) = .ok content := (Files.read?_eq_ok_iff.mp hread).2
      rcases Path.ofText_cases text with ⟨parent, name, hname, hpath⟩ | ⟨front, last, hpath, hstay⟩
      · rw [hpath] at hread hfile
        obtain ⟨here, hleads, hdir, hfits, hfound⟩ := readFile_join_inv hname hfile
        have haims := Files.aims_of_read? hname hleads hdir hread
        have hremove := removeFile_join hleads hdir hfits (Files.checkText_of_read? hread) hfound
        have hafter : after ⟨disk, undo⟩ (.delete text)
            = ⟨disk.erase (here ++ [name]), undo ++ [⟨parent.join name, some content⟩]⟩ := by
          simp only [after, FileChange.action, Files.delete, bind, EStateM.bind, LoggedAction.lift,
            hpath, hread, LoggedAction.record, Files.remove, Files.change, hremove]
        rw [hafter, hpath]
        refine .recorded (.refl hd) hread haims (hd.erase _) (fun q hq => ?_) undo
        rw [kindAt?_erase_leaf hd (by simp) (kindAt?_append_cons_eq_none (by rw [hfound]; simp)),
          if_neg hq]
      · cases (Files.read?_stay hpath hstay hread).1
  · replace hfail : Files.read? (.ofText text) disk = .error failure disk := hfail
    have hafter : after ⟨disk, undo⟩ (.delete text) = ⟨disk, undo⟩ := by
      simp only [after, FileChange.action, Files.delete, bind, EStateM.bind, LoggedAction.lift,
        hfail]
    rw [hafter]
    exact .unlogged (.refl hd) _ undo

theorem advanced_write (hd : ledger.disk.Distinct) (text : String) (content : Bytes) :
    Advanced (.ofText text) ledger (ledger.after (.write text content)) := by
  obtain ⟨disk, undo⟩ := ledger
  have hext := makeDirs_extended hd (Path.ofText text).parent
  have haction : (FileChange.write text content).action = Files.write (.ofText text) content := rfl
  have houtcome := Files.write_outcome (.ofText text) content disk undo
  rcases hmakes : makeDirs (Path.ofText text).parent disk with ⟨created, made⟩
  rw [hmakes] at hext
  rw [hmakes, ← haction] at houtcome
  rcases houtcome with
    ⟨failure, undo', herror, rfl | ⟨prior, rfl, hread, rfl⟩⟩ | ⟨prior, disk', hok, hread, hwrite⟩
  · rw [after_of_error herror]
    exact .unlogged hext _ _
  · rw [after_of_error herror]
    rcases Path.ofText_cases text with ⟨parent, name, hname, hpath⟩ | ⟨front, last, hpath, hstay⟩
    · rw [hpath] at hread hmakes ⊢
      obtain ⟨here, hleads, hdir⟩ := Files.leads_of_read? hd hname hmakes hread
      have haims := Files.aims_of_read? hname hleads hdir hread
      exact .recorded hext hread haims hext.distinct (fun _ _ => rfl) undo
    · exact .idle hext (Files.read?_stay hpath hstay hread) undo
  · rw [after_of_ok hok]
    rcases Path.ofText_cases text with ⟨parent, name, hname, hpath⟩ | ⟨front, last, hpath, hstay⟩
    · rw [hpath] at hread hwrite ⊢
      obtain ⟨here, hleads, hdir, -, hleaf, rfl⟩ := writeFile_inv hname hwrite
      have haims := Files.aims_of_read? hname hleads hdir hread
      refine .recorded hext hread haims (hext.distinct.put (distinct_file content) _)
        (fun q hq => ?_) undo
      rw [kindAt?_put_file hext.distinct hdir hleaf, if_neg hq]
    · have hnone := (Files.read?_stay hpath hstay hread).1
      subst hnone
      obtain ⟨refusal, hrefused⟩ := writeFile_stay hpath hstay content
      cases hwrite.symm.trans hrefused

theorem advanced_after (hd : ledger.disk.Distinct) (change : FileChange) :
    Advanced change.path ledger (ledger.after change) := by
  cases change with
  | write text content => exact advanced_write hd text content
  | delete text => exact advanced_delete hd text

/-! ## Many changes -/

/-- Where a sound record leads is settled, as long as it is not a directory. -/
theorem resolve_settled {r : UndoRecord} (hsound : r.Sound disk)
    (hkept : ∀ q, disk.kindAt? q = some .dir → disk'.kindAt? q = some .dir)
    (hleaf : disk'.kindAt? q ≠ some .dir) :
    resolve disk' r.path = .ok q ↔ resolve disk r.path = .ok q := by
  refine ⟨fun hq => ?_, resolve_mono hkept⟩
  rcases hsound with hidle | ⟨q₀, haims⟩
  · exact absurd (hidle.2 disk' q hq) hleaf
  · cases (resolve_mono hkept haims.resolve).symm.trans hq
    exact haims.resolve

/-- The log says of a place what stood there each time that it was recorded. A place that was not
recorded has not changed. -/
theorem run_outcome (hd : ledger.disk.Distinct) (changes : List FileChange) :
    (ledger.run changes).disk.Distinct ∧
    (∀ q, ledger.disk.kindAt? q = some .dir → (ledger.run changes).disk.kindAt? q = some .dir) ∧
    ∃ log : UndoLog, (ledger.run changes).undo = ledger.undo ++ log ∧
      (∀ r ∈ log, UndoRecord.Sound r (ledger.run changes).disk) ∧
      ∀ q, (ledger.run changes).disk.kindAt? q ≠ some .dir →
        log.priors (ledger.run changes).disk q = (recordings q ledger changes).map (·.content? q) ∧
        (recordings q ledger changes = [] →
          (ledger.run changes).disk.content? q = ledger.disk.content? q) := by
  induction changes generalizing ledger with
  | nil =>
    exact ⟨hd, fun _ hq => hq, [], (List.append_nil _).symm, fun _ hr => absurd hr List.not_mem_nil,
      fun _ _ => ⟨rfl, fun _ => rfl⟩⟩
  | cons change changes ih =>
    have hstep := advanced_after hd change
    obtain ⟨hdistinct, hkept, log, hundo, hsound, hplaces⟩ := ih hstep.distinct
    have hrun : ledger.run (change :: changes) = (ledger.after change).run changes := rfl
    rw [hrun]
    refine ⟨hdistinct, fun q hq => hkept q (hstep.kept q hq), ?_⟩
    rcases hstep.logged with ⟨hsame, hcontent⟩ | ⟨prior, hrecord, hsound₀, hplace⟩
    · refine ⟨log, by rw [hundo, hsame], hsound, fun q hleaf => ?_⟩
      obtain ⟨hpriors, hunrecorded⟩ := hplaces q hleaf
      rw [recordings, if_neg fun hrecords => hrecords.1 hsame]
      exact ⟨hpriors, fun hnil => (hunrecorded hnil).trans (hcontent q)⟩
    · refine ⟨⟨change.path, prior⟩ :: log, by rw [hundo, hrecord]; simp,
        List.forall_mem_cons.mpr ⟨hsound₀.mono hkept, hsound⟩, fun q hleaf => ?_⟩
      obtain ⟨hpriors, hunrecorded⟩ := hplaces q hleaf
      have hsettled : resolve ((ledger.after change).run changes).disk change.path = .ok q ↔
          resolve (ledger.after change).disk change.path = .ok q :=
        resolve_settled hsound₀ hkept hleaf
      simp only [UndoLog.priors, List.filter_cons, hsettled] at hpriors ⊢
      by_cases hq : resolve (ledger.after change).disk change.path = .ok q
      · have hrecords : ledger.Records change q := ⟨by rw [hrecord]; simp, hq⟩
        rw [recordings, if_pos hrecords, if_pos (decide_eq_true hq), List.map_cons, hpriors,
          (hplace q).1 hq fun hdir => hleaf (hkept q hdir), List.map_cons]
        exact ⟨rfl, nofun⟩
      · have hrecords : ¬ledger.Records change q := fun hrecords => hq hrecords.2
        rw [recordings, if_neg hrecords, if_neg (by simpa using hq)]
        exact ⟨hpriors, fun hnil => (hunrecorded hnil).trans ((hplace q).2 hq)⟩

/-- After any changes of files, by paths of any kind and whether or not they succeed, the log is
replayed. The directories that there were at first are there still, and those that the changes have
created stay as well. Every other place holds what it held before the last change that recorded it,
and what it held at first if none did. -/
theorem replay_run (hd : disk.Distinct) (changes : List FileChange) :
    ((run { disk } changes).undo.replay (run { disk } changes).disk).Distinct ∧
    (∀ q, disk.kindAt? q = some .dir →
      ((run { disk } changes).undo.replay (run { disk } changes).disk).kindAt? q = some .dir) ∧
    ∀ q, ((run { disk } changes).undo.replay (run { disk } changes).disk).kindAt? q =
      if (run { disk } changes).disk.kindAt? q = some .dir then some .dir
      else (((recordings q { disk } changes).getLast?.getD disk).content? q).map .file := by
  obtain ⟨hdistinct, hkept, log, hundo, hsound, hplaces⟩ :=
    run_outcome (show (Ledger.mk disk []).disk.Distinct from hd) changes
  rw [hundo, List.nil_append]
  obtain ⟨hreplayed, hkind⟩ := UndoLog.replay_outcome hdistinct hsound
  refine ⟨hreplayed, fun q hq => (hkind q).trans (if_pos (hkept q hq)),
    fun q => (hkind q).trans ?_⟩
  split
  · rfl
  next hleaf =>
    obtain ⟨hpriors, hunrecorded⟩ := hplaces q hleaf
    rw [hpriors, List.getLast?_map]
    cases hlast : (recordings q { disk } changes).getLast? with
    | none =>
      rw [Option.map_none, Option.getD_none, hunrecorded (List.getLast?_eq_none_iff.mp hlast),
        Option.getD_none]
    | some before => rfl

/-- Two changes of one file, the second on top of the first. -/
def twice : List FileChange := [.write "a" [1], .write "a" [2]]

theorem replay_run_sample :
    (Node.dir []).Distinct ∧
      ((run { disk := .dir [] } twice).undo.replay (run { disk := .dir [] } twice).disk).content?
        ["a"] = some [1] := by
  have hd : (Node.dir []).Distinct := distinct_dir_nil
  have hkind := (replay_run hd twice).2.2 ["a"]
  exact ⟨hd, content?_of_kindAt? (hkind.trans rfl)⟩

/-- A file that is deleted, and a directory that takes its place. -/
def displaced : List FileChange := [.delete "a", .write "a/b" [2]]

/-- What a file held before the first change that recorded it need not come back: another change
recorded it later, or there is a directory now. -/
theorem replay_run_not_first :
    ((recordings ["a"] { disk := .dir [] } twice).head?.map (·.content? ["a"]) = some none ∧
      ((run { disk := .dir [] } twice).undo.replay (run { disk := .dir [] } twice).disk).content?
        ["a"] = some [1]) ∧
    (recordings ["a"] { disk := .dir [("a", .file [0])] } displaced).head?.map (·.content? ["a"])
        = some (some [0]) ∧
      ((run { disk := .dir [("a", .file [0])] } displaced).undo.replay
        (run { disk := .dir [("a", .file [0])] } displaced).disk).content? ["a"] = none := by
  decide

end Ledger

end ConfigStore
