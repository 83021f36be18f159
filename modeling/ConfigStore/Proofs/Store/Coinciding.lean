import ConfigStore.Proofs.Files.Site
import ConfigStore.Proofs.Store.Comparing
import ConfigStore.Proofs.Store.Scanning

/-!
# One project in two trees

What is asked about the documents of one project depends on what stands at the directory of that
project and on the way to it, whatever else the trees hold.

* `Disk.findFrom` finds what names lead to from a place on, and `Disk.find_descend` reduces finding
  below the root of a store to it.
* `Disk.Coincides` says that a project is the same in two trees, and `Disk.Coincides.find_eq` that
  whatever is looked up in it is found alike.
* `Store.Parallel` says that an action comes to the same result on two disks, whatever is in the
  cache; `Store.Parallel.bind` and its like follow the shape of an action.
* `Store.Beside` are two such trees of a store, and `Store.Beside.parallel_find`,
  `Store.Beside.parallel_total` the actions on the project.
-/

namespace ConfigStore

open Node Disk Files Deletion

variable {disk disk' : Node} {root : Path} {base here : Place} {names : List String}
  {domain project name : String}

/-! ## Finding from a place on -/

namespace Disk

/-- The place that names lead to from a place on, and the node that stands there. -/
def findFrom (disk : Node) (here : Place) (names : List String) : Except Refusal (Place × Node) :=
  (follow disk here names).bind fun place =>
    match disk.at? place with
    | none => .error .notFound
    | some node => .ok (place, node)

/-- Nothing is found from where nothing is. -/
theorem findFrom_missing (h : disk.kindAt? here = none) (names : List String) :
    findFrom disk here names = .error .notFound := by
  cases names with
  | nil => simp only [findFrom, follow, Except.bind, kindAt?_eq_none_iff.mp h]
  | cons name names =>
    rw [findFrom, follow_missing h]
    rfl

theorem findFrom_file {content : Bytes} (h : disk.kindAt? here = some (.file content))
    (name : String) (names : List String) :
    findFrom disk here (name :: names) = .error .notADirectory := by
  rw [findFrom, follow_cons_eq, h]
  rfl

theorem findFrom_dir (h : disk.kindAt? here = some .dir) (hname : IsPiece name)
    (names : List String) : findFrom disk here (name :: names) =
      if isTooLong name then .error .nameTooLong else findFrom disk (here ++ [name]) names := by
  rw [findFrom, follow_cons_eq, h]
  simp only [hname.isIdle_eq_false, Bool.false_eq_true, if_false, if_neg hname.ne_dotdot]
  cases isTooLong name <;> rfl

/-- What is found from a place on depends only on what stands there. -/
theorem findFrom_congr (hnames : ∀ n ∈ names, IsPiece n) (hsame : disk'.at? here = disk.at? here) :
    findFrom disk' here names = findFrom disk here names := by
  induction names generalizing here with
  | nil => simp only [findFrom, follow, Except.bind, hsame]
  | cons name names ih =>
    obtain ⟨hname, hnames⟩ := List.forall_mem_cons.mp hnames
    have hkind : disk'.kindAt? here = disk.kindAt? here := congrArg (Option.map kind) hsame
    cases h : disk.kindAt? here with
    | none => rw [findFrom_missing h, findFrom_missing (hkind.trans h)]
    | some kind =>
      cases kind with
      | file content => rw [findFrom_file h, findFrom_file (hkind.trans h)]
      | dir =>
        have hnext : disk'.at? (here ++ [name]) = disk.at? (here ++ [name]) := by
          rw [at?_append, at?_append, hsame]
        rw [findFrom_dir h hname, findFrom_dir (hkind.trans h) hname, ih hnames hnext]

/-- What is found below the root of a store. -/
theorem find_descend (hleads : Leads root base disk) (hnames : ∀ n ∈ names, IsPiece n)
    (hne : names ≠ []) : find disk (root.descend names) =
      (checkText (root.descend names)).bind fun _ => findFrom disk base names := by
  cases htext : checkText (root.descend names) with
  | error refusal =>
    rw [find, resolve_eq_reach (isEmpty_of_refused htext), reach, htext]
    rfl
  | ok _ =>
    rw [find, resolve_of_follow (Path.isEmpty_descend root hne hnames) htext
      (Path.pieces_descend root hne hnames) hleads]
    rfl

/-! ## Projects that are the same -/

/-- Both trees have the same at the directory of a project, and the same kind of entry at the
directory of its domain. If the latter was added, the name of the project must be one that can be
looked up in it. -/
structure Coincides (base : Place) (domain project : String) (disk disk' : Node) : Prop where
  same : disk'.at? (base ++ [domain, project]) = disk.at? (base ++ [domain, project])
  way : disk'.kindAt? (base ++ [domain]) = disk.kindAt? (base ++ [domain]) ∨
    disk.kindAt? (base ++ [domain]) = none ∧ disk'.kindAt? (base ++ [domain]) = some .dir ∧
      isTooLong project = false

namespace Coincides

/-- What is looked up in the project is found alike from the directory of the domain on. -/
theorem findFrom_domain (h : Coincides base domain project disk disk')
    (hnames : ∀ n ∈ project :: names, IsPiece n) :
    findFrom disk' (base ++ [domain]) (project :: names)
      = findFrom disk (base ++ [domain]) (project :: names) := by
  obtain ⟨hproject, hnames⟩ := List.forall_mem_cons.mp hnames
  have hsplit : base ++ [domain] ++ [project] = base ++ [domain, project] := by simp
  have hbelow : findFrom disk' (base ++ [domain] ++ [project]) names
      = findFrom disk (base ++ [domain] ++ [project]) names :=
    findFrom_congr hnames (hsplit ▸ h.same)
  rcases h.way with hkind | ⟨hnone, hdir, hshort⟩
  · cases hdomain : disk.kindAt? (base ++ [domain]) with
    | none => rw [findFrom_missing hdomain, findFrom_missing (hkind.trans hdomain)]
    | some kind =>
      cases kind with
      | file content => rw [findFrom_file hdomain, findFrom_file (hkind.trans hdomain)]
      | dir =>
        rw [findFrom_dir hdomain hproject, findFrom_dir (hkind.trans hdomain) hproject, hbelow]
  · have habsent : disk.kindAt? (base ++ [domain] ++ [project]) = none :=
      kindAt?_append_cons_eq_none (by rw [hnone]; simp) project []
    rw [findFrom_dir hdir hproject, hshort, hbelow, findFrom_missing habsent,
      findFrom_missing hnone]
    rfl

/-- What is looked up in the project is found alike. -/
theorem find_eq (h : Coincides base domain project disk disk') (hleads : Leads root base disk)
    (hleads' : Leads root base disk') (hdir : disk.kindAt? base = some .dir)
    (hdir' : disk'.kindAt? base = some .dir)
    (hnames : ∀ n ∈ domain :: project :: names, IsPiece n) :
    find disk' (root.descend (domain :: project :: names))
      = find disk (root.descend (domain :: project :: names)) := by
  obtain ⟨hdomain, hbelow⟩ := List.forall_mem_cons.mp hnames
  rw [find_descend hleads hnames (List.cons_ne_nil _ _),
    find_descend hleads' hnames (List.cons_ne_nil _ _), findFrom_dir hdir hdomain,
    findFrom_dir hdir' hdomain, h.findFrom_domain hbelow]

end Coincides

end Disk

/-! ## Actions on two disks -/

theorem Concurs.orIfMissing {α : Type} {action : DiskAction α} (h : Concurs action disk disk')
    (default : α) : Concurs (action.orIfMissing default) disk disk' := by
  obtain ⟨result, hresult, hresult'⟩ := h
  cases result with
  | ok a =>
    simp only [Store.require_ok] at hresult hresult'
    refine ⟨.ok a, ?_, ?_⟩
    · simp only [DiskAction.orIfMissing, hresult, Store.require_ok]
    · simp only [DiskAction.orIfMissing, hresult', Store.require_ok]
  | error failure =>
    simp only [Store.require_error] at hresult hresult'
    cases hmissing : failure.isMissingOnDisk with
    | true =>
      refine ⟨.ok default, ?_, ?_⟩
      · simp only [DiskAction.orIfMissing, hresult, hmissing, if_true, Store.require_ok]
      · simp only [DiskAction.orIfMissing, hresult', hmissing, if_true, Store.require_ok]
    | false =>
      refine ⟨.error failure, ?_, ?_⟩
      · simp only [DiskAction.orIfMissing, hresult, hmissing, Bool.false_eq_true, if_false,
          Store.require_error]
      · simp only [DiskAction.orIfMissing, hresult', hmissing, Bool.false_eq_true, if_false,
          Store.require_error]

namespace Store

/-- An action comes to the same result on two disks and leaves the same cache, whatever is in the
cache before; it changes neither disk. -/
def Parallel {α : Type} (action : StoreAction α) (disk disk' : Node) : Prop :=
  ∀ cache, ∃ (result : Except Failure α) (cache' : Option Cache),
    action ⟨disk, cache⟩ = require result ⟨disk, cache'⟩ ∧
      action ⟨disk', cache⟩ = require result ⟨disk', cache'⟩

namespace Parallel

variable {α β : Type} {action : StoreAction α}

theorem of_concurs (h : ∀ cache, Concurs action ⟨disk, cache⟩ ⟨disk', cache⟩) :
    Parallel action disk disk' := fun cache =>
  let ⟨result, hresult, hresult'⟩ := h cache
  ⟨result, cache, hresult, hresult'⟩

theorem pure (a : α) : Parallel (Pure.pure a) disk disk' := .of_concurs fun _ => .pure a

theorem throw (failure : Failure) :
    Parallel (MonadExcept.throw failure : StoreAction α) disk disk' :=
  .of_concurs fun _ => .throw failure

theorem onCache (f : Cache → Cache) : Parallel (StoreAction.onCache f) disk disk' :=
  fun cache => ⟨.ok (), cache.map f, rfl, rfl⟩

theorem bind {next : α → StoreAction β} (h : Parallel action disk disk')
    (hnext : ∀ a, Parallel (next a) disk disk') : Parallel (action >>= next) disk disk' := by
  intro cache
  obtain ⟨result, mid, hresult, hresult'⟩ := h cache
  cases result with
  | error failure =>
    refine ⟨.error failure, mid, ?_, ?_⟩
    · simp only [Bind.bind, EStateM.bind, hresult]
      rfl
    · simp only [Bind.bind, EStateM.bind, hresult']
      rfl
  | ok a =>
    obtain ⟨last, cache', hlast, hlast'⟩ := hnext a mid
    refine ⟨last, cache', ?_, ?_⟩
    · simp only [Bind.bind, EStateM.bind, hresult]
      exact hlast
    · simp only [Bind.bind, EStateM.bind, hresult']
      exact hlast'

theorem map (h : Parallel action disk disk') (f : α → β) :
    Parallel (f <$> action) disk disk' := by
  intro cache
  obtain ⟨result, cache', hresult, hresult'⟩ := h cache
  refine ⟨f <$> result, cache', ?_, ?_⟩
  · simp only [Functor.map, EStateM.map, hresult]
    cases result <;> rfl
  · simp only [Functor.map, EStateM.map, hresult']
    cases result <;> rfl

theorem guarded {c : Prop} [Decidable c] {failure : Failure} (h : Parallel action disk disk') :
    Parallel (do
      if c then MonadExcept.throw failure
      action) disk disk' := by
  dsimp only
  split
  · exact (throw _).bind fun _ => h
  · exact h

/-- A check may be used for what follows it. -/
theorem require_bind {check : Except Failure α} {next : α → StoreAction β}
    (hnext : ∀ a, check = .ok a → Parallel (next a) disk disk') :
    Parallel (ConfigStore.require check >>= next) disk disk' := by
  cases check with
  | error failure => exact throw failure
  | ok a => exact hnext a rfl

end Parallel

theorem parallel_searchCache (domain project : String) (query : Query) :
    Parallel (searchCache domain project query) disk disk' := by
  intro cache
  cases cache with
  | none => exact ⟨.ok {}, none, rfl, rfl⟩
  | some cache =>
    exact ⟨.ok (cache.search domain project query).1, some (cache.search domain project query).2,
      rfl, rfl⟩

/-! ## Documents of the project -/

theorem isPiece_scope (hscope : Names.checkScope domain project = .ok ()) :
    ∀ n ∈ [domain, project], IsPiece n := by
  obtain ⟨hdomain, -, hproject⟩ := Names.checkScope_eq_ok_iff.mp hscope
  exact List.forall_mem_cons.mpr ⟨Names.isPiece_of_isPlain hdomain,
    List.forall_mem_singleton.mpr (Names.isPiece_of_isPlain hproject)⟩

/-- Two trees in which a store can work, and in which one project is the same. -/
structure Beside (root : Path) (base : Place) (domain project : String) (disk disk' : Node) :
    Prop where
  before : Site root base disk
  after : Site root base disk'
  coincides : Coincides base domain project disk disk'

namespace Beside

variable (h : Beside root base domain project disk disk')
  (hscope : Names.checkScope domain project = .ok ())
include h hscope

theorem find_eq (path : Path) (hnames : ∀ n ∈ names, IsPiece n)
    (hpath : path = root.descend (domain :: project :: names)) :
    Disk.find disk' path = Disk.find disk path := by
  rw [hpath]
  exact h.coincides.find_eq h.before.grounded.leads h.after.grounded.leads h.before.grounded.isDir
    h.after.grounded.isDir (List.forall_mem_append.mpr ⟨isPiece_scope hscope, hnames⟩)

theorem entries_projectDir : Disk.entries disk' (Layout.projectDir root domain project)
    = Disk.entries disk (Layout.projectDir root domain project) := by
  have hnames : ∀ n ∈ ([] : List String), IsPiece n := fun _ hn => absurd hn List.not_mem_nil
  rw [Disk.entries, Disk.entries,
    h.find_eq hscope (Layout.projectDir root domain project) hnames rfl]

theorem alike {id : String} (hid : IsPiece id) : Alike root domain project id disk disk' := by
  have hdir : ∀ n ∈ [id], IsPiece n := List.forall_mem_singleton.mpr hid
  have hnewest : ∀ n ∈ [id, Layout.newestName], IsPiece n :=
    List.forall_mem_cons.mpr ⟨hid, List.forall_mem_singleton.mpr Layout.isName_newestName.toIsPiece⟩
  constructor
  · rw [readFile, readFile, h.find_eq hscope (Layout.newest root domain project id) hnewest rfl]
  · intro content _
    rw [Disk.entries, Disk.entries,
      h.find_eq hscope (Layout.documentDir root domain project id) hdir rfl]

/-- The directories of a project have proper names. -/
theorem isPiece_of_visits {ids : List String} (hvisits : Visits root disk domain project ids) :
    ∀ id ∈ ids, IsPiece id := by
  intro id hid
  rw [Visits, DiskAction.orIfMissing] at hvisits
  cases hentries : Disk.entries disk (Layout.projectDir root domain project) with
  | error refusal =>
    rw [subdirs_of_error hentries] at hvisits
    dsimp only at hvisits
    split at hvisits
    · cases hvisits
      cases hid
    · cases hvisits
  | ok children =>
    obtain ⟨place, hleads, hplace⟩ := leads_of_entries hentries
    obtain rfl := h.before.grounded.leads.place_eq (isPiece_scope hscope) hleads
    rw [subdirs_of_ok hentries] at hvisits
    cases hvisits
    have hdir := (mem_subdirs_iff h.before.grounded.distinct hplace).mp hid
    exact (h.before.named [domain, project] id (by rw [hdir]; simp)).toIsPiece

theorem concurs_scanIds (query : Query) (skip : List String) {ids : List String}
    (hids : ∀ id ∈ ids, IsPiece id) :
    Concurs (scanIds root domain project query skip ids) disk disk' := by
  induction ids with
  | nil => exact .pure []
  | cons id ids ih =>
    obtain ⟨hid, hids⟩ := List.forall_mem_cons.mp hids
    have hone : Concurs (scanOne root domain project id) disk disk' := by
      refine (concurs_read? (h.alike hscope hid).newest).bind fun content _ => ?_
      cases content with
      | none => exact .pure _
      | some content => exact .pure _
    rw [scanIds]
    split
    · exact ih hids
    · refine hone.bind fun found _ => ?_
      cases found with
      | none => exact ih hids
      | some d =>
        dsimp only
        split
        · exact ih hids
        · split
          · exact .pure _
          · exact (ih hids).bind fun _ _ => .pure _

theorem concurs_scan (query : Query) (skip : List String) :
    Concurs (scan root domain project query skip) disk disk' := by
  have hsubdirs : Concurs (subdirs (Layout.projectDir root domain project)) disk disk' :=
    (concurs_look _ (h.entries_projectDir hscope)).bind fun _ _ => .pure _
  exact (hsubdirs.orIfMissing []).bind fun ids hids =>
    h.concurs_scanIds hscope query skip (h.isPiece_of_visits hscope hids)

end Beside

variable {s : Store}

/-- Whatever a query looks for, it finds the same. -/
theorem Beside.parallel_find (h : Beside s.root base domain project disk disk') (query : Query) :
    Parallel (s.find domain project query) disk disk' := by
  have hscan : Names.checkScope domain project = .ok () → ∀ skip,
      Parallel (.onDisk (scan s.root domain project query skip)) disk disk' :=
    fun hscope skip => .of_concurs fun _ => (h.concurs_scan hscope query skip).onDisk
  refine .require_bind fun _ hscope =>
    Parallel.bind (parallel_searchCache domain project query) fun cached => ?_
  split
  · exact .pure _
  · exact (hscan hscope _).bind fun scanned => (Parallel.onCache _).bind fun _ => .pure _

theorem Beside.parallel_total (h : Beside s.root base domain project disk disk') :
    Parallel (s.total domain project) disk disk' := by
  refine .require_bind fun _ hscope => .of_concurs fun _ => ?_
  have hcount : Concurs (countSubdirs (Layout.projectDir s.root domain project)) disk disk' :=
    ((concurs_look _ (h.entries_projectDir hscope)).bind fun _ _ => .pure _).bind
      fun _ _ => .pure _
  exact (hcount.orIfMissing 0).onDisk

end Store

end ConfigStore
