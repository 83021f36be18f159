import ConfigStore.Files.Directory
import ConfigStore.Store.Action
import ConfigStore.Proofs.Disk.Operation

/-!
# Looking at files and directories

* `Files.read?_of_ok`, `Files.read?_of_notFound`, `Files.read?_of_error` are the three outcomes of
  reading a file that may be missing.
* `Files.subdirs_of_ok` lists the directories within a directory, `Files.mem_subdirs_iff` says which
  they are.
* `Files.filesBelow_flat` reads the files of a directory that holds nothing but files.
* `Ends` says where an action leads, and `Looks` that it changes nothing.
-/

namespace ConfigStore

/-! ## Actions that only look -/

/-- An action leads from one state to another, whether it ends with a result or with a failure. -/
def Ends {σ α : Type} (action : EStateM Failure σ α) (state state' : σ) : Prop :=
  (∃ a, action state = .ok a state') ∨ ∃ failure, action state = .error failure state'

/-- An action that changes nothing, whether it ends with a result or with a failure. -/
structure Looks {σ α : Type} (action : EStateM Failure σ α) : Prop where
  outcome : ∀ state, Ends action state state

/-- What only looks at the end of an action does not change where it ends. -/
theorem Ends.after {σ α β : Type} {action : EStateM Failure σ α} {state state' : σ}
    (h : Ends action state state') {next : α → EStateM Failure σ β}
    (hnext : ∀ a, Looks (next a)) : Ends (action >>= next) state state' := by
  rcases h with ⟨a, hok⟩ | ⟨failure, herror⟩
  · rcases (hnext a).outcome state' with ⟨b, hok'⟩ | ⟨failure, herror⟩
    · exact .inl ⟨b, by simp only [Bind.bind, EStateM.bind, hok, hok']⟩
    · exact .inr ⟨failure, by simp only [Bind.bind, EStateM.bind, hok, herror]⟩
  · exact .inr ⟨failure, by simp only [Bind.bind, EStateM.bind, herror]⟩

/-! ## Actions that succeed -/

section Success

variable {σ α β : Type} {action : EStateM Failure σ α} {state state' : σ}

theorem bind_eq_ok_iff {next : α → EStateM Failure σ β} {b : β} :
    (action >>= next) state = .ok b state' ↔
      ∃ a mid, action state = .ok a mid ∧ next a mid = .ok b state' := by
  simp only [Bind.bind, EStateM.bind]
  cases action state with
  | error failure mid => simp
  | ok a mid => simp

theorem require_eq_ok_iff {check : Except Failure α} {a : α} :
    (require check : EStateM Failure σ α) state = .ok a state' ↔
      check = .ok a ∧ state = state' := by
  cases check with
  | error failure => exact iff_of_false (fun h => by cases h) (fun h => by cases h.1)
  | ok a' =>
    constructor
    · intro h
      cases h
      exact ⟨rfl, rfl⟩
    · rintro ⟨h, rfl⟩
      cases h
      rfl

theorem pure_eq_ok_iff {a b : α} :
    (pure a : EStateM Failure σ α) state = .ok b state' ↔ a = b ∧ state = state' := by
  simp [pure, EStateM.pure]

theorem onDisk_eq_ok_iff {action : DiskAction α} {a : α} {state state' : StoreState} :
    StoreAction.onDisk action state = .ok a state' ↔
      action state.disk = .ok a state'.disk ∧ state'.cache = state.cache := by
  simp only [StoreAction.onDisk]
  cases action state.disk with
  | error failure disk => simp
  | ok a' disk =>
    rcases state' with ⟨disk', cache'⟩
    simp only [EStateM.Result.ok.injEq, StoreState.mk.injEq]
    tauto

end Success

namespace Looks

variable {σ α β : Type} {action : EStateM Failure σ α}

theorem pure (a : α) : Looks (Pure.pure a : EStateM Failure σ α) := ⟨fun _ => .inl ⟨a, rfl⟩⟩

theorem throw (failure : Failure) : Looks (throw failure : EStateM Failure σ α) :=
  ⟨fun _ => .inr ⟨failure, rfl⟩⟩

theorem bind {next : α → EStateM Failure σ β} (h : Looks action) (hnext : ∀ a, Looks (next a)) :
    Looks (action >>= next) :=
  ⟨fun state => (h.outcome state).after hnext⟩

/-- A check that may fail comes before something that only looks. -/
theorem guarded {c : Prop} [Decidable c] {failure : Failure} (h : Looks action) :
    Looks (do
      if c then MonadExcept.throw failure
      action) := by
  dsimp only
  split
  · exact (throw _).bind fun _ => h
  · exact h

theorem require (check : Except Failure α) : Looks (require check : EStateM Failure σ α) := by
  cases check with
  | ok a => exact pure a
  | error failure => exact throw failure

theorem mapM {check : β → EStateM Failure σ α} (h : ∀ b, Looks (check b)) (l : List β) :
    Looks (l.mapM check) := by
  induction l with
  | nil => exact pure []
  | cons b l ih =>
    rw [List.mapM_cons]
    exact (h b).bind fun a => ih.bind fun _ => pure _

theorem orIfMissing {action : DiskAction α} (h : Looks action) (default : α) :
    Looks (action.orIfMissing default) := by
  refine ⟨fun disk => ?_⟩
  rcases h.outcome disk with ⟨a, hok⟩ | ⟨failure, herror⟩
  · exact .inl ⟨a, by simp only [DiskAction.orIfMissing, hok]⟩
  · simp only [Ends, DiskAction.orIfMissing, herror]
    split
    · exact .inl ⟨default, rfl⟩
    · exact .inr ⟨failure, rfl⟩

theorem onDisk {action : DiskAction α} (h : Looks action) : Looks (StoreAction.onDisk action) := by
  refine ⟨fun state => ?_⟩
  rcases h.outcome state.disk with ⟨a, hok⟩ | ⟨failure, herror⟩
  · exact .inl ⟨a, by simp only [StoreAction.onDisk, hok]⟩
  · exact .inr ⟨failure, by simp only [StoreAction.onDisk, herror]⟩

end Looks

namespace Files

open Node Disk

variable {disk : Node} {path : Path}

/-! ## One file -/

theorem looks_look (activity : Activity) {α : Type} (f : Node → Except Refusal α) :
    Looks (look activity f) := by
  refine ⟨fun disk => ?_⟩
  simp only [Ends, look]
  cases f disk with
  | ok a => exact .inl ⟨a, rfl⟩
  | error refusal => exact .inr ⟨_, rfl⟩

theorem read?_of_ok {content : Bytes} (h : readFile disk path = .ok content) :
    read? path disk = .ok (some content) disk := by
  simp only [read?, look, h]

theorem read?_of_notFound (h : readFile disk path = .error .notFound) :
    read? path disk = .ok none disk := by
  simp only [read?, look, h]

theorem read?_of_error {refusal : Refusal} (h : readFile disk path = .error refusal)
    (hne : refusal ≠ .notFound) :
    read? path disk = .error (.disk (.read path) refusal) disk := by
  simp only [read?, look, h]

theorem read?_eq_ok_iff {disk disk' : Node} {prior : Option Bytes} :
    read? path disk = .ok prior disk' ↔ disk' = disk ∧
      match prior with
      | some content => readFile disk path = .ok content
      | none => readFile disk path = .error .notFound := by
  cases hread : readFile disk path with
  | ok content =>
    rw [read?_of_ok hread]
    cases prior <;> simp [eq_comm, and_comm]
  | error refusal =>
    by_cases hmissing : refusal = .notFound
    · subst hmissing
      rw [read?_of_notFound hread]
      cases prior <;> simp [eq_comm]
    · rw [read?_of_error hread hmissing]
      cases prior <;> simp [hmissing]

/-! ## A directory -/

theorem entries_of_ok {children : List (String × Node)}
    (h : Disk.entries disk path = .ok children) :
    entries path disk = .ok children disk := by
  simp only [entries, look, h]

theorem entries_of_error {refusal : Refusal} (h : Disk.entries disk path = .error refusal) :
    entries path disk = .error (.disk (.readDir path) refusal) disk := by
  simp only [entries, look, h]

theorem subdirs_of_ok {children : List (String × Node)}
    (h : Disk.entries disk path = .ok children) :
    subdirs path disk
      = .ok (sortBy (· ≤ ·) ((children.filter (·.2.isDir)).map (·.1))) disk := by
  simp only [subdirs, bind, EStateM.bind, entries_of_ok h]
  rfl

theorem subdirs_of_error {refusal : Refusal} (h : Disk.entries disk path = .error refusal) :
    subdirs path disk = .error (.disk (.readDir path) refusal) disk := by
  simp only [subdirs, bind, EStateM.bind, entries_of_error h]

theorem looks_subdirs (path : Path) : Looks (subdirs path) :=
  (looks_look _ _).bind fun _ => .pure _

/-- The directories that are listed are those that stand one name below. -/
theorem mem_subdirs_iff (hd : disk.Distinct) {place : Place} {children : List (String × Node)}
    (h : disk.at? place = some (.dir children)) {name : String} :
    name ∈ sortBy (· ≤ ·) ((children.filter (·.2.isDir)).map (·.1)) ↔
      disk.kindAt? (place ++ [name]) = some .dir := by
  rw [mem_sortBy, List.mem_map, kindAt?_eq_dir_iff]
  constructor
  · rintro ⟨⟨n, node⟩, hmem, rfl⟩
    obtain ⟨hmem, hdir⟩ := List.mem_filter.mp hmem
    obtain ⟨entries, rfl⟩ := kind_eq_dir (isDir_eq_true_iff.mp hdir)
    exact ⟨entries, (mem_entries_iff hd h).mp hmem⟩
  · rintro ⟨entries, hnode⟩
    exact ⟨(name, .dir entries), List.mem_filter.mpr ⟨(mem_entries_iff hd h).mpr hnode, rfl⟩, rfl⟩

/-- No directory is listed twice. -/
theorem nodup_subdirs (hd : disk.Distinct) {place : Place} {children : List (String × Node)}
    (h : disk.at? place = some (.dir children)) :
    (sortBy (· ≤ ·) ((children.filter (·.2.isDir)).map (·.1))).Nodup := by
  refine (sortBy_perm _ _).nodup_iff.mpr ?_
  exact (hd place children h).sublist (List.filter_sublist.map _)

/-- Directories are listed in the order of their names. -/
theorem inOrder_subdirs {names : List String} {disk' : Node}
    (h : (subdirs path).orIfMissing [] disk = .ok names disk') : names.Pairwise (· ≤ ·) := by
  rw [DiskAction.orIfMissing] at h
  cases hentries : Disk.entries disk path with
  | error refusal =>
    rw [subdirs_of_error hentries] at h
    dsimp only at h
    split at h
    · cases h
      exact .nil
    · cases h
  | ok children =>
    rw [subdirs_of_ok hentries] at h
    cases h
    refine (pairwise_sortBy (fun a b => ?_) (fun a b c => ?_) _).imp of_decide_eq_true
    · simpa only [decide_eq_true_eq] using String.le_total a b
    · simpa only [decide_eq_true_eq] using String.le_trans

/-! ## All files -/

/-- A directory that holds nothing but files. -/
def flat (files : List (String × Bytes)) : List (String × Node) :=
  files.map fun file => (file.1, .file file.2)

theorem firstUnlistable_flat (path : Path) (files : List (String × Bytes)) :
    firstUnlistable path (flat files) = none := by
  induction files with
  | nil => rw [flat, List.map_nil, firstUnlistable]
  | cons file files ih =>
    rw [flat] at ih ⊢
    rw [List.map_cons, firstUnlistable, ih]

theorem entryFiles_flat (files : List (String × Bytes)) :
    Node.entryFiles (flat files) = files.map fun file => ([file.1], file.2) := by
  induction files with
  | nil => rfl
  | cons file files ih =>
    rw [flat] at ih ⊢
    rw [List.map_cons, Node.entryFiles, ih]
    rfl

/-- A check of every element of a list ends with the images of all, or changes nothing. -/
theorem mapM_check_outcome {α β : Type} {check : α → DiskAction β} {f : α → β} {good : α → Prop}
    (hgood : ∀ a, good a → check a disk = .ok (f a) disk)
    (hbad : ∀ a, ¬good a → ∃ failure, check a disk = .error failure disk) (l : List α) :
    ((∀ a ∈ l, good a) ∧ l.mapM check disk = .ok (l.map f) disk) ∨
      ¬(∀ a ∈ l, good a) ∧ ∃ failure, l.mapM check disk = .error failure disk := by
  induction l with
  | nil => exact .inl ⟨fun _ h => (List.not_mem_nil h).elim, rfl⟩
  | cons a l ih =>
    rw [List.mapM_cons]
    simp only [bind, EStateM.bind]
    by_cases ha : good a
    · rw [hgood a ha]
      rcases ih with ⟨hall, hok⟩ | ⟨hnot, failure, herror⟩
      · refine .inl ⟨List.forall_mem_cons.mpr ⟨ha, hall⟩, ?_⟩
        simp only [hok]
        rfl
      · refine .inr ⟨fun hall => hnot (List.forall_mem_cons.mp hall).2, failure, ?_⟩
        simp only [herror]
    · obtain ⟨failure, hfailure⟩ := hbad a ha
      refine .inr ⟨fun hall => ha (List.forall_mem_cons.mp hall).1, failure, ?_⟩
      simp only [hfailure]

/-- Gives the file at a place below a directory, unless its path is too long. -/
def readAt (path : Path) (file : Place × Bytes) : DiskAction (Path × Bytes) :=
  if isPathTooLong (file.1.foldl Path.join path) then
    throw (.disk (.read (file.1.foldl Path.join path)) .pathTooLong)
  else pure (file.1.foldl Path.join path, file.2)

theorem filesBelow_of_ok {children : List (String × Node)} (except? : Option String)
    (h : Disk.entries disk path = .ok children) :
    filesBelow path except? disk =
      match firstUnlistable path children with
      | some directory => .error (.disk (.readDir directory) .pathTooLong) disk
      | none =>
        (sortBy (fun a b => Place.le a.1 b.1)
          ((Node.entryFiles children).filter fun file => file.1.getLast? ≠ except?)).mapM
          (readAt path) disk := by
  simp only [filesBelow, bind, EStateM.bind, entries_of_ok h]
  cases firstUnlistable path children <;> rfl

theorem filesBelow_of_error {refusal : Refusal} (except? : Option String)
    (h : Disk.entries disk path = .error refusal) :
    filesBelow path except? disk = .error (.disk (.readDir path) refusal) disk := by
  simp only [filesBelow, bind, EStateM.bind, entries_of_error h]

theorem mapM_readAt_outcome (path : Path) (files : List (Place × Bytes)) (disk : Node) :
    ((∀ file ∈ files, isPathTooLong (file.1.foldl Path.join path) = false) ∧
        files.mapM (readAt path) disk
          = .ok (files.map fun file => (file.1.foldl Path.join path, file.2)) disk) ∨
      ¬(∀ file ∈ files, isPathTooLong (file.1.foldl Path.join path) = false) ∧
        ∃ failure, files.mapM (readAt path) disk = .error failure disk := by
  refine mapM_check_outcome (fun file hgood => ?_) (fun file hbad => ?_) files
  · rw [readAt, hgood]
    rfl
  · rw [readAt, if_pos (by simpa using hbad)]
    exact ⟨_, rfl⟩

/-- Reading all files changes nothing on the disk. -/
theorem looks_filesBelow (path : Path) (except? : Option String) :
    Looks (filesBelow path except?) := by
  refine (looks_look _ _).bind fun children => ?_
  cases firstUnlistable path children with
  | some directory => exact Looks.throw _
  | none =>
    refine Looks.mapM (fun file => ?_) _
    dsimp only
    split
    · exact Looks.throw _
    · exact Looks.pure _

/-- What is read of a directory that holds nothing but files. -/
theorem filesBelow_flat {files : List (String × Bytes)} (except? : Option String)
    (h : Disk.entries disk path = .ok (flat files)) :
    ((∀ file ∈ files, some file.1 ≠ except? → isPathTooLong (path.join file.1) = false) ∧
      ∃ found, filesBelow path except? disk = .ok found disk ∧
        found.Perm ((files.filter (some ·.1 ≠ except?)).map fun file =>
          (path.join file.1, file.2))) ∨
      ¬(∀ file ∈ files, some file.1 ≠ except? → isPathTooLong (path.join file.1) = false) ∧
        ∃ failure, filesBelow path except? disk = .error failure disk := by
  have hwanted : (Node.entryFiles (flat files)).filter (fun file => file.1.getLast? ≠ except?)
      = (files.filter (some ·.1 ≠ except?)).map fun file => ([file.1], file.2) := by
    rw [entryFiles_flat, List.filter_map]
    rfl
  have hgood : (∀ file ∈ sortBy (fun a b : Place × Bytes => Place.le a.1 b.1)
        ((files.filter (some ·.1 ≠ except?)).map fun file => ([file.1], file.2)),
        isPathTooLong (file.1.foldl Path.join path) = false) ↔
      ∀ file ∈ files, some file.1 ≠ except? → isPathTooLong (path.join file.1) = false := by
    simp only [mem_sortBy, List.forall_mem_map, List.mem_filter, decide_eq_true_eq, and_imp,
      List.foldl_cons, List.foldl_nil]
  rw [filesBelow_of_ok except? h, firstUnlistable_flat, hwanted]
  rcases mapM_readAt_outcome path (sortBy (fun a b : Place × Bytes => Place.le a.1 b.1)
      ((files.filter (some ·.1 ≠ except?)).map fun file => ([file.1], file.2))) disk with
    ⟨hall, hok⟩ | ⟨hnot, herror⟩
  · refine .inl ⟨hgood.mp hall, _, hok, ?_⟩
    have hperm := (sortBy_perm (fun a b : Place × Bytes => Place.le a.1 b.1)
      ((files.filter (some ·.1 ≠ except?)).map fun file => ([file.1], file.2))).map
      fun file => (file.1.foldl Path.join path, file.2)
    rwa [List.map_map] at hperm
  · exact .inr ⟨fun hall => hnot (hgood.mpr hall), herror⟩

end Files

end ConfigStore
