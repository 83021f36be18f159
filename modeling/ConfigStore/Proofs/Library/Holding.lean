import ConfigStore.Proofs.Files.Writing
import ConfigStore.Proofs.Library.Shelf
import ConfigStore.Proofs.Store.Staging
import ConfigStore.Store.Layout

/-!
# What a store keeps of all documents

A library is what a store keeps, seen without directories and files: a shelf for every document, and
the loose files that stand beside the projects of a domain. Below the root of a store a tree holds a
library, and nothing else but directories.

* `Library` is the type; `Library.put` changes one shelf, and `Library.Valid` is what holds of every
  library of a store.
* `Library.Holds` says that a tree holds a library.
* `Roomy` says of a root that no path below it is too long for a store.
-/

namespace ConfigStore

open Node Disk Deletion

/-! ## Libraries -/

/-- What a store keeps. -/
structure Library where
  /-- The shelf of a document, by domain, project and id. -/
  shelf? : String → String → String → Option Shelf
  /-- The files that stand where the directories of projects stand, by domain and name. -/
  loose? : String → String → Option Bytes

namespace Library

variable {lib : Library} {domain project id : String} {shelf : Shelf}

/-- The library that keeps nothing. -/
def empty : Library := ⟨fun _ _ _ => none, fun _ _ => none⟩

/-- The library with another shelf for one document, or with none. -/
def put (lib : Library) (domain project id : String) (new : Option Shelf) : Library where
  shelf? := fun domain' project' id' =>
    if (domain', project', id') = (domain, project, id) then new
    else lib.shelf? domain' project' id'
  loose? := lib.loose?

/-- The newest copy of a document. -/
def head? (lib : Library) (domain project id : String) : Option Document :=
  (lib.shelf? domain project id).map Shelf.head

@[simp]
theorem shelf?_put_self (lib : Library) (domain project id : String) (new : Option Shelf) :
    (lib.put domain project id new).shelf? domain project id = new := if_pos rfl

theorem shelf?_put_of_ne {domain' project' id' : String} (new : Option Shelf)
    (h : (domain', project', id') ≠ (domain, project, id)) :
    (lib.put domain project id new).shelf? domain' project' id'
      = lib.shelf? domain' project' id' := if_neg h

@[simp]
theorem loose?_put (lib : Library) (domain project id : String) (new : Option Shelf) :
    (lib.put domain project id new).loose? = lib.loose? := rfl

theorem put_eq_self (h : lib.shelf? domain project id = some shelf) :
    lib.put domain project id (some shelf) = lib := by
  unfold put
  congr 1
  funext domain' project' id'
  split
  next heq =>
    cases heq
    exact h.symm
  · rfl

theorem put_put (lib : Library) (domain project id : String) (new new' : Option Shelf) :
    (lib.put domain project id new).put domain project id new' =
      lib.put domain project id new' := by
  unfold put
  congr 1
  funext domain' project' id'
  split
  · rfl
  next h => exact if_neg h

/-- A document of this name can be stored: its names are accepted, and fit into a directory. -/
structure Storable (domain project id : String) : Prop where
  scope : Names.checkScope domain project = .ok ()
  document : Names.checkId id = .ok ()
  names : ∀ name ∈ home domain project id, IsName name

/-- A name that a file system takes: it is not too long, and has no NUL. -/
def Fits (name : String) : Prop := name.utf8ByteSize ≤ 255 ∧ '\x00' ∉ name.toList

instance (name : String) : Decidable (Fits name) := inferInstanceAs (Decidable (_ ∧ _))

theorem isNames_of_fits (hscope : Names.checkScope domain project = .ok ())
    (hfits : ∀ name ∈ [domain, project], Fits name) : ∀ name ∈ [domain, project], IsName name := by
  obtain ⟨hdomain, -, hproject⟩ := Names.checkScope_eq_ok_iff.mp hscope
  simp only [List.forall_mem_cons, List.not_mem_nil, false_implies, implies_true, and_true]
    at hfits ⊢
  exact ⟨⟨Names.isPiece_of_isPlain hdomain, hfits.1.2, hfits.1.1⟩,
    Names.isPiece_of_isPlain hproject, hfits.2.2, hfits.2.1⟩

namespace Storable

theorem of_fits (hscope : Names.checkScope domain project = .ok ())
    (hid : Names.checkId id = .ok ()) (hfits : ∀ name ∈ [domain, project, id], Fits name) :
    Storable domain project id :=
  ⟨hscope, hid, fun name hname =>
    ⟨isPiece_home hscope hid name hname, (hfits name hname).2, (hfits name hname).1⟩⟩

theorem notReserved (h : Storable domain project id) : Names.isReserved domain = false :=
  (Names.checkScope_eq_ok_iff.mp h.scope).2.1

end Storable

/-- Every shelf is that of a document that can be stored, and no loose file has the name of a
snapshot. -/
structure Valid (lib : Library) : Prop where
  storable : ∀ {domain project id shelf}, lib.shelf? domain project id = some shelf →
    Storable domain project id
  shelf : ∀ {domain project id shelf}, lib.shelf? domain project id = some shelf →
    shelf.Valid domain project id
  loose : ∀ {domain name content}, lib.loose? domain name = some content →
    ∀ revision, name ≠ Layout.snapshotName revision

theorem valid_empty : empty.Valid where
  storable := fun h => by cases h
  shelf := fun h => by cases h
  loose := fun h => by cases h

theorem Valid.put (h : lib.Valid) {new : Option Shelf}
    (hnew : ∀ shelf, new = some shelf →
      Storable domain project id ∧ shelf.Valid domain project id) :
    (lib.put domain project id new).Valid where
  storable := by
    intro domain' project' id' shelf hshelf
    by_cases heq : (domain', project', id') = (domain, project, id)
    · cases heq
      rw [shelf?_put_self] at hshelf
      exact (hnew shelf hshelf).1
    · rw [shelf?_put_of_ne new heq] at hshelf
      exact h.storable hshelf
  shelf := by
    intro domain' project' id' shelf hshelf
    by_cases heq : (domain', project', id') = (domain, project, id)
    · cases heq
      rw [shelf?_put_self] at hshelf
      exact (hnew shelf hshelf).2
    · rw [shelf?_put_of_ne new heq] at hshelf
      exact h.shelf hshelf
  loose := h.loose

/-! ## Trees that hold a library -/

/-- What stands at a place in the directory of a document. -/
def kindOf? (shelf? : Option Shelf) : Place → Option Kind
  | [] => shelf?.map fun _ => .dir
  | [name] => (shelf?.bind (·.file? name)).map .file
  | _ :: _ :: _ => none

/-- Below a place a tree holds a library, and otherwise nothing but directories: empty ones for
domains and projects, and for documents that were deleted. -/
structure Holds (base : Place) (lib : Library) (disk : Node) : Prop where
  documents : ∀ domain project id q, Names.isReserved domain = false →
    disk.kindAt? (base ++ home domain project id ++ q) = kindOf? (lib.shelf? domain project id) q
  projects : ∀ domain name content, Names.isReserved domain = false →
    (disk.kindAt? (base ++ [domain, name]) = some (.file content) ↔
      lib.loose? domain name = some content)
  domains : ∀ domain content, disk.kindAt? (base ++ [domain]) ≠ some (.file content)
  waiting : ∀ q content, disk.kindAt? (base ++ Layout.tmpName :: q) ≠ some (.file content)
  vacant : ∀ domain project id name, disk.kindAt? (base ++ aside domain project id ++ [name]) = none

@[simp]
theorem kindOf?_none (q : Place) : kindOf? none q = none := by
  rcases q with - | ⟨_, - | _⟩ <;> rfl

theorem kindOf?_cons_ne_dir (shelf? : Option Shelf) (name : String) (q : Place) :
    kindOf? shelf? (name :: q) ≠ some .dir := by
  cases q with
  | nil =>
    rw [kindOf?]
    cases shelf?.bind (·.file? name) <;> simp
  | cons => simp [kindOf?]

theorem kindOf?_nil_ne_file (shelf? : Option Shelf) (content : Bytes) :
    kindOf? shelf? [] ≠ some (.file content) := by
  rw [kindOf?]
  cases shelf? <;> simp

namespace Holds

variable {base : Place} {disk disk' : Node} {content : Bytes}

/-- An empty directory holds nothing. -/
theorem of_empty (hempty : ∀ name q, disk.kindAt? (base ++ name :: q) = none) :
    Holds base empty disk where
  documents := by
    intro domain project id q _
    rw [List.append_assoc, home, List.cons_append, hempty]
    exact (kindOf?_none q).symm
  projects := by
    intro domain name content _
    rw [hempty]
    exact iff_of_false (by simp) (by simp [empty])
  domains := fun domain content => by rw [hempty]; simp
  waiting := fun q content => by rw [hempty]; simp
  vacant := by
    intro domain project id name
    rw [List.append_assoc, aside, List.cons_append, hempty]

theorem dir_iff (h : lib.Holds base disk) (hdomain : Names.isReserved domain = false) :
    disk.kindAt? (base ++ home domain project id) = some .dir ↔
      (lib.shelf? domain project id).isSome := by
  have hnil := h.documents domain project id [] hdomain
  rw [List.append_nil] at hnil
  rw [hnil, kindOf?]
  cases lib.shelf? domain project id <;> simp

theorem eq_none (h : lib.Holds base disk) (hdomain : Names.isReserved domain = false)
    (hshelf : lib.shelf? domain project id = none) (q : Place) :
    disk.kindAt? (base ++ home domain project id ++ q) = none := by
  rw [h.documents _ _ _ _ hdomain, hshelf, kindOf?_none]

/-- Where a document is there is no loose file. -/
theorem loose?_eq_none (h : lib.Holds base disk) (hdomain : Names.isReserved domain = false)
    (hshelf : (lib.shelf? domain project id).isSome) : lib.loose? domain project = none := by
  cases hloose : lib.loose? domain project with
  | none => rfl
  | some content =>
    have hfile := (h.projects domain project content hdomain).mpr hloose
    have habove : base ++ [domain, project] <+: base ++ home domain project id :=
      (List.prefix_append_right_inj base).mpr ⟨[id], rfl⟩
    rw [kindAt?_eq_dir_above habove ((h.dir_iff hdomain).mpr hshelf)] at hfile
    cases hfile

theorem file (h : lib.Holds base disk) (hdomain : Names.isReserved domain = false)
    (hshelf : lib.shelf? domain project id = some shelf) (name : String) :
    disk.kindAt? (base ++ home domain project id ++ [name]) = (shelf.file? name).map .file := by
  rw [h.documents _ _ _ _ hdomain, hshelf]
  rfl

/-- No file stands on the way to what is in a domain. -/
theorem unblocked_domain (h : lib.Holds base disk) (hbase : disk.kindAt? base = some .dir)
    (domain : String) : Unblocked base [domain] disk := by
  intro p content hp
  rcases List.prefix_cons_iff.mp hp with rfl | ⟨p, rfl, hp'⟩
  · rw [List.append_nil, hbase]
    simp
  · rw [List.prefix_nil.mp hp']
    exact h.domains domain content

/-- No file stands on the way to a document. -/
theorem unblocked (h : lib.Holds base disk) (hbase : disk.kindAt? base = some .dir)
    (hdomain : Names.isReserved domain = false) (hloose : lib.loose? domain project = none) :
    Unblocked base (home domain project id) disk := by
  intro p content hp
  rcases List.prefix_cons_iff.mp hp with rfl | ⟨p₁, rfl, hp₁⟩
  · rw [List.append_nil, hbase]
    simp
  rcases List.prefix_cons_iff.mp hp₁ with rfl | ⟨p₂, rfl, hp₂⟩
  · exact h.domains domain content
  rcases List.prefix_cons_iff.mp hp₂ with rfl | ⟨p₃, rfl, hp₃⟩
  · rw [Ne, h.projects domain project content hdomain, hloose]
    simp
  · obtain rfl : p₃ = [] := List.prefix_nil.mp hp₃
    have hnil := h.documents domain project id [] hdomain
    rw [List.append_nil] at hnil
    rw [hnil]
    exact kindOf?_nil_ne_file _ _

theorem home_ne {domain' project' id' : String}
    (h : (domain', project', id') ≠ (domain, project, id)) (q : Place) :
    ¬home domain project id <+: home domain' project' id' ++ q := by
  intro hprefix
  simp only [home, List.cons_append, List.cons_prefix_cons, List.nil_append] at hprefix
  obtain ⟨rfl, rfl, rfl, -⟩ := hprefix
  exact h rfl

/-- A tree in which one shelf has changed holds the library with that shelf. -/
theorem put (h : lib.Holds base disk) (hdomain : Names.isReserved domain = false)
    (hloose : lib.loose? domain project = none) {new : Option Shelf}
    (hnew : ∀ q, disk'.kindAt? (base ++ home domain project id ++ q) = kindOf? new q)
    (habove : ∀ q, q <+: base ++ home domain project id → q ≠ base ++ home domain project id →
      disk'.kindAt? q = some .dir ∨ disk'.kindAt? q = disk.kindAt? q)
    (hframe : ∀ q, ¬base ++ home domain project id <+: q → ¬q <+: base ++ home domain project id →
      disk'.kindAt? q = disk.kindAt? q) :
    (lib.put domain project id new).Holds base disk' := by
  -- what is not at or below the document stays, or becomes a directory
  have hother : ∀ q, ¬home domain project id <+: q →
      disk'.kindAt? (base ++ q) = some .dir ∧ q <+: home domain project id ∨
        disk'.kindAt? (base ++ q) = disk.kindAt? (base ++ q) := by
    intro q hq
    by_cases hup : q <+: home domain project id
    · have hne : base ++ q ≠ base ++ home domain project id := by
        intro heq
        rw [List.append_cancel_left heq] at hq
        exact hq (List.prefix_refl _)
      exact (habove _ ((List.prefix_append_right_inj base).mpr hup) hne).imp_left fun h => ⟨h, hup⟩
    · exact .inr (hframe _ (mt (List.prefix_append_right_inj base).mp hq)
        (mt (List.prefix_append_right_inj base).mp hup))
  have hnotTmp : domain ≠ Layout.tmpName := Names.ne_tmpName_of_isReserved hdomain
  refine ⟨?_, ?_, ?_, ?_, ?_⟩
  · intro domain' project' id' q hdomain'
    by_cases heq : (domain', project', id') = (domain, project, id)
    · cases heq
      rw [shelf?_put_self, hnew]
    · rw [shelf?_put_of_ne new heq, ← h.documents _ _ _ _ hdomain', List.append_assoc]
      rcases hother _ (home_ne heq q) with ⟨-, hup⟩ | hsame
      · simp only [home, List.cons_append, List.cons_prefix_cons] at hup
        obtain ⟨rfl, rfl, rfl, -⟩ := hup
        exact absurd rfl heq
      · exact hsame
  · intro domain' name content hdomain'
    rw [loose?_put, ← h.projects _ _ _ hdomain']
    rcases hother [domain', name] (by simp [home, List.cons_prefix_cons]) with ⟨hdir, hup⟩ | hsame
    · simp only [home, List.cons_prefix_cons, List.nil_prefix, and_true] at hup
      obtain ⟨rfl, rfl⟩ := hup
      rw [hdir, h.projects _ _ _ hdomain, hloose]
      simp
    · rw [hsame]
  · intro domain' content
    rcases hother [domain'] (by simp [home, List.cons_prefix_cons]) with ⟨hdir, -⟩ | hsame
    · rw [hdir]
      simp
    · rw [hsame]
      exact h.domains domain' content
  · intro q content
    rcases hother (Layout.tmpName :: q) (by simp [home, List.cons_prefix_cons, hnotTmp]) with
      ⟨hdir, -⟩ | hsame
    · rw [hdir]
      simp
    · rw [hsame]
      exact h.waiting q content
  · intro domain' project' id' name
    rw [List.append_assoc]
    rcases hother (aside domain' project' id' ++ [name])
      (by simp [home, List.cons_prefix_cons, hnotTmp]) with ⟨-, hup⟩ | hsame
    · simp [home, List.cons_prefix_cons, Ne.symm hnotTmp] at hup
    · rw [hsame, ← List.append_assoc]
      exact h.vacant domain' project' id' name

end Holds

end Library

/-- What a store relies on between two actions. -/
structure Kept (root : Path) (base : Place) (lib : Library) (disk : Node) : Prop where
  valid : lib.Valid
  grounded : Grounded root base disk
  holds : lib.Holds base disk

/-! ## Room for paths -/

/-- The path of a root is one that a disk takes, and so are all paths below it that a store makes of
names that fit into a directory. -/
structure Roomy (root : Path) : Prop where
  text : checkText root = .ok ()
  short : root.byteLength + 798 ≤ maxPathBytes

namespace Roomy

variable {root : Path} {names : List String} {domain project id name : String}

theorem checkText_descend (h : Roomy root) (hnames : ∀ n ∈ names, IsName n)
    (hwidth : Path.width names ≤ 798) : checkText (root.descend names) = .ok () := by
  have hshort := h.short
  exact checkText_descend_of_le h.text hnames (by omega)

/-- The file of a name that is short enough, in the directory of a document. -/
theorem checkText_home (h : Roomy root) (hhome : ∀ n ∈ home domain project id, IsName n)
    (hname : IsName name) (hshort : name.utf8ByteSize ≤ 25) :
    checkText ((root.descend (home domain project id)).join name) = .ok () := by
  rw [← Path.descend_concat]
  refine h.checkText_descend ?_ ?_
  · intro n hn
    rcases List.mem_append.mp hn with hn | hn
    · exact hhome n hn
    · rwa [List.mem_singleton.mp hn]
  · have hwidth : Path.width (home domain project id) ≤ 768 := Path.width_le_of_isName hhome
    rw [Path.width_append, Path.width_cons name, Path.width_nil]
    omega

end Roomy

end ConfigStore
