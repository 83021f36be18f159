import ConfigStore.Proofs.Library.Writing
import ConfigStore.Proofs.Store.Atomicity

/-!
# Deleting documents from a library

Deleting documents takes their shelves away, all of them or none.

* `Library.clear` is the library without some documents of a project.
* `Library.Holds.of_bench` says what a tree holds after a deletion.
* `Store.deleteOne_kept` and `Store.deleteMany_kept` say what the two deletions do to a library.
-/

namespace ConfigStore

open Node Disk Deletion

namespace Library

variable {root : Path} {base : Place} {lib : Library} {disk disk' : Node}
  {domain project id : String} {shelf : Shelf}

/-- The library without some documents of a project. -/
def clear (lib : Library) (domain project : String) (ids : List String) : Library where
  shelf? := fun domain' project' id' =>
    if domain' = domain ∧ project' = project ∧ id' ∈ ids then none
    else lib.shelf? domain' project' id'
  loose? := lib.loose?

theorem shelf?_clear (lib : Library) (ids : List String) (domain' project' id' : String) :
    (lib.clear domain project ids).shelf? domain' project' id' =
      if domain' = domain ∧ project' = project ∧ id' ∈ ids then none
      else lib.shelf? domain' project' id' := rfl

theorem shelf?_clear_of_mem (lib : Library) {ids : List String} (h : id ∈ ids) :
    (lib.clear domain project ids).shelf? domain project id = none := if_pos ⟨rfl, rfl, h⟩

theorem shelf?_clear_of_not {domain' project' id' : String} {ids : List String}
    (h : ¬(domain' = domain ∧ project' = project ∧ id' ∈ ids)) :
    (lib.clear domain project ids).shelf? domain' project' id' = lib.shelf? domain' project' id' :=
  if_neg h

theorem head?_clear_of_mem (lib : Library) {ids : List String} (h : id ∈ ids) :
    (lib.clear domain project ids).head? domain project id = none := by
  rw [head?, shelf?_clear_of_mem lib h, Option.map_none]

theorem head?_clear_of_not {domain' project' id' : String} {ids : List String}
    (h : ¬(domain' = domain ∧ project' = project ∧ id' ∈ ids)) :
    (lib.clear domain project ids).head? domain' project' id' = lib.head? domain' project' id' := by
  rw [head?, shelf?_clear_of_not h, head?]

@[simp]
theorem clear_nil (lib : Library) (domain project : String) :
    lib.clear domain project [] = lib := by
  unfold clear
  congr 1
  funext domain' project' id'
  exact if_neg fun h => List.not_mem_nil h.2.2

theorem Valid.clear (h : lib.Valid) (domain project : String) (ids : List String) :
    (lib.clear domain project ids).Valid where
  storable := by
    intro domain' project' id' shelf hshelf
    rw [shelf?_clear] at hshelf
    split at hshelf
    · cases hshelf
    · exact h.storable hshelf
  shelf := by
    intro domain' project' id' shelf hshelf
    rw [shelf?_clear] at hshelf
    split at hshelf
    · cases hshelf
    · exact h.shelf hshelf
  loose := h.loose

/-- The directories of documents hold nothing but files with names that an entry can have. -/
theorem Holds.wellNamedIn (h : lib.Holds base disk) (hvalid : lib.Valid)
    (hdomain : Names.isReserved domain = false) : WellNamedIn base domain project disk := by
  intro id name hname
  rw [h.documents _ _ _ _ hdomain] at hname
  cases hshelf : lib.shelf? domain project id with
  | none =>
    rw [hshelf, kindOf?_none] at hname
    exact absurd rfl hname
  | some shelf =>
    refine Shelf.isName_of_file? (hvalid.shelf hshelf) fun hnone => hname ?_
    rw [hshelf, kindOf?, Option.bind_some, hnone, Option.map_none]

/-! ## Trees after a deletion -/

section Bench

variable {phase : String → Phase} {ids : List String} {q : Place}

/-- Apart from the documents of a project, and from where they wait, all is as it was. -/
theorem frame_of_bench (hbench : Bench base domain project disk phase disk')
    (hs : ∀ id, ¬home domain project id <+: q) (ht : ∀ id, ¬aside domain project id <+: q)
    (hw : ¬q <+: Deletion.waiting domain project) :
    disk'.kindAt? (base ++ q) = disk.kindAt? (base ++ q) := by
  refine hbench.frame _ (fun id hle => hs id ?_) (fun id hle => ht id ?_) fun hle => hw ?_
  all_goals exact (List.prefix_append_right_inj base).mp hle

theorem file_iff_of_bench (hbench : Bench base domain project disk phase disk')
    (hs : ∀ id, ¬home domain project id <+: q) (ht : ∀ id, ¬aside domain project id <+: q)
    (content : Bytes) : disk'.kindAt? (base ++ q) = some (.file content) ↔
      disk.kindAt? (base ++ q) = some (.file content) := by
  rw [← content?_eq_some_iff, ← content?_eq_some_iff, hbench.content?_eq_of_not_below]
  · exact fun id _ hle => hs id ((List.prefix_append_right_inj base).mp hle)
  · exact fun id _ hle => ht id ((List.prefix_append_right_inj base).mp hle)

/-- Where a document that was deleted waited nothing is left, for it held no directory. -/
theorem Holds.absent_aside (h : lib.Holds base disk) (hdomain : Names.isReserved domain = false)
    (hbench : Bench base domain project disk phase disk') (hphase : phase id = .removed)
    (q : Place) : disk'.kindAt? (base ++ aside domain project id ++ q) = none := by
  have hflat : ¬∃ n, disk.kindAt? (base ++ home domain project id ++ [n]) = some .dir := by
    rintro ⟨n, hn⟩
    rw [h.documents _ _ _ _ hdomain] at hn
    exact kindOf?_cons_ne_dir _ _ _ hn
  have hremoved := hbench.phases id
  rw [hphase] at hremoved
  exact hremoved.2.2 hflat q

theorem Holds.documents_of_bench (h : lib.Holds base disk)
    (hbench : Bench base domain project disk phase disk') (hin : ∀ id ∈ ids, phase id = .removed)
    (hout : ∀ id ∉ ids, (phase id).AtHome) {domain' : String} (project' id' : String)
    (hdomain' : Names.isReserved domain' = false) :
    disk'.kindAt? (base ++ home domain' project' id' ++ q)
      = kindOf? ((lib.clear domain project ids).shelf? domain' project' id') q := by
  have hnotTmp' := Names.ne_tmpName_of_isReserved hdomain'
  by_cases hscope : domain' = domain ∧ project' = project
  · obtain ⟨rfl, rfl⟩ := hscope
    by_cases hid : id' ∈ ids
    · rw [shelf?_clear_of_mem lib hid, kindOf?_none]
      have hremoved := hbench.phases id'
      rw [hin id' hid] at hremoved
      exact hremoved.1 q
    · rw [shelf?_clear_of_not fun hmem => hid hmem.2.2, ← h.documents _ _ _ _ hdomain']
      exact ((hbench.phases id').returned (hout id' hid)).1 q
  · rw [shelf?_clear_of_not fun hmem => hscope ⟨hmem.1, hmem.2.1⟩,
      ← h.documents _ _ _ _ hdomain', List.append_assoc]
    refine frame_of_bench hbench (fun id hle => hscope ?_) (fun id hle => ?_) fun hle => ?_
    · simp only [home, List.cons_append, List.cons_prefix_cons] at hle
      exact ⟨hle.1.symm, hle.2.1.symm⟩
    · simp only [home, aside, List.cons_append, List.cons_prefix_cons] at hle
      exact hnotTmp' hle.1.symm
    · simp only [home, Deletion.waiting, List.cons_append, List.cons_prefix_cons] at hle
      exact hnotTmp' hle.1

theorem Holds.waiting_of_bench (h : lib.Holds base disk)
    (hdomain : Names.isReserved domain = false)
    (hbench : Bench base domain project disk phase disk') (hin : ∀ id ∈ ids, phase id = .removed)
    (hout : ∀ id ∉ ids, (phase id).AtHome) (content : Bytes) :
    disk'.kindAt? (base ++ Layout.tmpName :: q) ≠ some (.file content) := by
  have hnotTmp := Names.ne_tmpName_of_isReserved hdomain
  by_cases ht : ∃ id, aside domain project id <+: Layout.tmpName :: q
  · obtain ⟨id, rest, hrest⟩ := ht
    have hold := h.waiting q content
    rw [← hrest, ← List.append_assoc] at hold ⊢
    by_cases hid : id ∈ ids
    · rw [h.absent_aside hdomain hbench (hin id hid)]
      simp
    · obtain ⟨-, hsame, hbelow⟩ := (hbench.phases id).returned (hout id hid)
      cases rest with
      | nil =>
        rw [List.append_nil] at hold ⊢
        rwa [← content?_eq_some_iff.ne, hsame, content?_eq_some_iff.ne]
      | cons n rest => rwa [hbelow]
  · refine mt (file_iff_of_bench hbench ?_ (not_exists.mp ht) content).mp (h.waiting q content)
    simp [home, List.cons_prefix_cons, hnotTmp]

theorem Holds.vacant_of_bench (h : lib.Holds base disk)
    (hdomain : Names.isReserved domain = false)
    (hbench : Bench base domain project disk phase disk') (hin : ∀ id ∈ ids, phase id = .removed)
    (hout : ∀ id ∉ ids, (phase id).AtHome) (domain' project' id' name : String) :
    disk'.kindAt? (base ++ aside domain' project' id' ++ [name]) = none := by
  have hnotTmp := Names.ne_tmpName_of_isReserved hdomain
  by_cases hscope : domain' = domain ∧ project' = project
  · obtain ⟨rfl, rfl⟩ := hscope
    by_cases hid : id' ∈ ids
    · exact h.absent_aside hdomain hbench (hin id' hid) [name]
    · rw [← h.vacant domain' project' id' name]
      exact ((hbench.phases id').returned (hout id' hid)).2.2 name []
  · rw [← h.vacant domain' project' id' name, List.append_assoc]
    refine frame_of_bench hbench (fun id hle => ?_) (fun id hle => hscope ?_) fun hle => ?_
    · simp only [home, aside, List.cons_append, List.cons_prefix_cons] at hle
      exact hnotTmp hle.1
    · simp only [aside, List.cons_append, List.cons_prefix_cons, true_and] at hle
      exact ⟨hle.1.symm, hle.2.1.symm⟩
    · simp [Deletion.waiting, aside, List.cons_prefix_cons] at hle

/-- Once documents of a project are deleted and all others are where they were, the tree holds the
library without them. -/
theorem Holds.of_bench (h : lib.Holds base disk) (hdomain : Names.isReserved domain = false)
    (hbench : Bench base domain project disk phase disk') (hin : ∀ id ∈ ids, phase id = .removed)
    (hout : ∀ id ∉ ids, (phase id).AtHome) :
    (lib.clear domain project ids).Holds base disk' where
  documents _ project' id' _ hdomain' :=
    h.documents_of_bench hbench hin hout project' id' hdomain'
  projects := by
    intro domain' name content hdomain'
    refine (file_iff_of_bench hbench ?_ ?_ content).trans (h.projects domain' name content hdomain')
    · simp [home, List.cons_prefix_cons]
    · simp [aside, List.cons_prefix_cons]
  domains := by
    intro domain' content
    refine mt (file_iff_of_bench hbench ?_ ?_ content).mp (h.domains domain' content)
    · simp [home, List.cons_prefix_cons]
    · simp [aside, List.cons_prefix_cons]
  waiting _ content := h.waiting_of_bench hdomain hbench hin hout content
  vacant := h.vacant_of_bench hdomain hbench hin hout

end Bench

/-- A document that can be deleted is the head of its shelf. -/
theorem Holds.head?_of_deletable (h : lib.Holds base disk) {s : Store} {caller : Caller}
    {d : Document} (hdomain : Names.isReserved domain = false)
    (hd : Deletable s caller base domain project disk id d) :
    lib.head? domain project id = some d := by
  obtain ⟨content, hstage, hdecode, -⟩ := hd
  have hnewest := hstage.newest
  cases hshelf : lib.shelf? domain project id with
  | none =>
    rw [h.eq_none hdomain hshelf] at hnewest
    cases hnewest
  | some shelf =>
    rw [h.file hdomain hshelf, Shelf.file?_newestName, Option.map_some] at hnewest
    rw [← Kind.file.inj (Option.some.inj hnewest), Document.decode_encode] at hdecode
    rw [head?, hshelf, Option.map_some, Except.ok.inj hdecode]

end Library

/-! ## The two deletions -/

namespace Kept

variable {root : Path} {base : Place} {lib : Library} {disk disk' : Node}
  {domain project : String}

theorem scene (h : Kept root base lib disk)
    (hscope : Names.checkScope domain project = .ok ()) :
    Scene root base domain project disk := by
  obtain ⟨hdomain, hreserved, hproject⟩ := Names.checkScope_eq_ok_iff.mp hscope
  exact ⟨h.grounded, h.holds.wellNamedIn h.valid hreserved, Names.isPiece_of_isPlain hdomain,
    Names.isPiece_of_isPlain hproject, Names.ne_tmpName_of_isReserved hreserved⟩

theorem clear (h : Kept root base lib disk) {phase : String → Phase} {ids : List String}
    (hdomain : Names.isReserved domain = false)
    (hbench : Bench base domain project disk phase disk') (hin : ∀ id ∈ ids, phase id = .removed)
    (hout : ∀ id ∉ ids, (phase id).AtHome) :
    Kept root base (lib.clear domain project ids) disk' :=
  ⟨h.valid.clear domain project ids, hbench.grounded h.grounded,
    h.holds.of_bench hdomain hbench hin hout⟩

end Kept

namespace Store

variable {s : Store} {base : Place} {lib : Library} {state : StoreState}

/-- A deletion takes the shelf of the document away and gives its head, or fails and leaves the
library as it is. -/
theorem deleteOne_kept (h : Kept s.root base lib state.disk) (caller : Caller)
    (domain project id : String) :
    (∃ d disk', s.deleteOne caller domain project id state
          = .ok d ⟨disk', state.cache.map (·.evict [d])⟩ ∧
        lib.head? domain project id = some d ∧
        authorize s.policy caller .delete d.labels = .ok () ∧
        Kept s.root base (lib.clear domain project [id]) disk') ∨
      ∃ failure disk', s.deleteOne caller domain project id state
          = .error failure ⟨disk', state.cache⟩ ∧ Kept s.root base lib disk' := by
  by_cases hvalid : Names.checkScope domain project = .ok () ∧ Names.checkId id = .ok ()
  · obtain ⟨hscope, hid⟩ := hvalid
    have hdomain := (Names.checkScope_eq_ok_iff.mp hscope).2.1
    rcases deleteOne_outcome caller (Bench.start h.grounded.distinct base domain project)
        (h.scene hscope) hscope hid trivial (h.holds.vacant domain project id) with
      ⟨d, hd, disk', hok, hbench⟩ | ⟨-, failure, disk', herror, hbench⟩
    · refine .inl ⟨d, disk', hok, h.holds.head?_of_deletable hdomain hd, hd.authorized, ?_⟩
      refine h.clear hdomain hbench (fun other hother => ?_) fun other hother => ?_
      · rw [List.mem_singleton.mp hother, Function.update_self]
      · rw [Function.update_of_ne (by simpa using hother)]
        trivial
    · refine .inr ⟨failure, disk', herror, ?_⟩
      have hkept : Kept s.root base (lib.clear domain project []) disk' :=
        h.clear hdomain hbench (fun _ h => absurd h List.not_mem_nil) fun other _ => ?_
      · rwa [Library.clear_nil] at hkept
      · by_cases heq : other = id
        · rw [heq, Function.update_self]
          trivial
        · rw [Function.update_of_ne heq]
          trivial
  · obtain ⟨failure, herror⟩ := deleteOne_invalid caller hvalid
    exact .inr ⟨failure, state.disk, herror, h⟩

/-- The deletion of several documents takes their shelves away and gives their heads, or fails and
leaves the library as it is. -/
theorem deleteMany_kept (h : Kept s.root base lib state.disk) (caller : Caller)
    (domain project : String) (ids : List String) :
    (∃ docs disk', s.deleteMany caller domain project ids state
          = .ok docs ⟨disk', state.cache.map (·.evict docs)⟩ ∧
        List.Forall₂ (fun id d => lib.head? domain project id = some d ∧
          authorize s.policy caller .delete d.labels = .ok ()) ids.eraseDups docs ∧
        Kept s.root base (lib.clear domain project ids) disk') ∨
      ∃ failure disk', s.deleteMany caller domain project ids state
          = .error failure ⟨disk', state.cache⟩ ∧ Kept s.root base lib disk' := by
  by_cases hvalid : Names.checkScope domain project = .ok () ∧
      (∀ id ∈ ids, Names.checkId id = .ok ()) ∧ ids ≠ []
  · obtain ⟨hscope, hids, hne⟩ := hvalid
    have hdomain := (Names.checkScope_eq_ok_iff.mp hscope).2.1
    rcases deleteMany_outcome caller (h.scene hscope) hscope hids hne
        fun id _ => h.holds.vacant domain project id with
      ⟨docs, hdocs, disk', phase, hok, hin, hout, hbench⟩ |
        ⟨-, failure, disk', phase, herror, hhome, hbench⟩
    · refine .inl ⟨docs, disk', hok,
        hdocs.imp fun id d hd => ⟨h.holds.head?_of_deletable hdomain hd, hd.authorized⟩, ?_⟩
      refine h.clear hdomain hbench hin ?_
      intro id hid
      rw [hout id hid]
      trivial
    · refine .inr ⟨failure, disk', herror, ?_⟩
      have hkept : Kept s.root base (lib.clear domain project []) disk' :=
        h.clear hdomain hbench (fun _ h => absurd h List.not_mem_nil) fun id _ => hhome id
      rwa [Library.clear_nil] at hkept
  · obtain ⟨failure, herror⟩ := deleteMany_invalid caller hvalid
    exact .inr ⟨failure, state.disk, herror, h⟩

end Store

end ConfigStore
