import ConfigStore.Proofs.Document.Ordering
import ConfigStore.Proofs.Document.RoundTrip
import ConfigStore.Proofs.Store.Naming
import Mathlib.Data.List.Nodup

/-!
# What a store keeps of one document

The directory of a document holds the newest copy and snapshots of it, each of them in a file that
is named by its revision.

* `Shelf` is what is kept of one document, and `Shelf.file?` the file of a name.
* `Shelf.write` puts a written document on a shelf, and `Shelf.keep` takes away old snapshots.
* `Shelf.Valid` is what holds of every shelf of a store.
-/

namespace ConfigStore

/-- What is kept of one document. -/
structure Shelf where
  /-- The newest copy. -/
  head : Document
  /-- The snapshots, in the order of listings. -/
  past : List Document

namespace Shelf

variable {shelf : Shelf} {d e : Document} {domain project id name : String} {content : Bytes}

/-! ## Definitions -/

/-- The content of the file of a name. -/
def file? (shelf : Shelf) (name : String) : Option Bytes :=
  if name = Layout.newestName then some shelf.head.encode
  else (shelf.past.find? (Layout.snapshotName ·.updateRevision = name)).map Document.encode

/-- The shelf with a document that has just been written, in place of a snapshot of the same
revision. -/
def write (shelf? : Option Shelf) (d : Document) : Shelf where
  head := d
  past := insertBy Document.precedes d
    ((shelf?.elim [] past).filter (·.updateRevision ≠ d.updateRevision))

/-- The shelf with at most `max` snapshots, those that come first; zero keeps all. -/
def keep (max : Nat) (shelf : Shelf) : Shelf where
  head := shelf.head
  past := if max = 0 then shelf.past else shelf.past.take max

/-- A shelf holds documents of one place, the snapshots in order and of different revisions. -/
structure Valid (domain project id : String) (shelf : Shelf) : Prop where
  domain_eq : ∀ d ∈ shelf.head :: shelf.past, d.domain = domain
  project_eq : ∀ d ∈ shelf.head :: shelf.past, d.project = project
  id_eq : ∀ d ∈ shelf.head :: shelf.past, d.id = id
  inOrder : InOrder Document.precedes shelf.past
  revisions : (shelf.past.map (·.updateRevision)).Nodup

@[simp]
theorem head_write (shelf? : Option Shelf) (d : Document) : (write shelf? d).head = d := rfl

/-! ## Snapshots -/

namespace Valid

/-- No two snapshots are of the same revision. -/
theorem eq_of_revision (h : shelf.Valid domain project id) (hd : d ∈ shelf.past)
    (he : e ∈ shelf.past) (heq : d.updateRevision = e.updateRevision) : d = e :=
  List.inj_on_of_nodup_map h.revisions hd he heq

/-- The files of the snapshots have different names. -/
theorem names (h : shelf.Valid domain project id) :
    (shelf.past.map fun d => Layout.snapshotName d.updateRevision).Nodup := by
  have hnames := h.revisions.map fun _ _ => Layout.snapshotName_injective
  rwa [List.map_map] at hnames

theorem ranked (h : shelf.Valid domain project id) : Ranked shelf.past :=
  fun _ ha _ hb _ hrevision _ => h.eq_of_revision ha hb hrevision

/-- A shelf with fewer snapshots is valid. -/
theorem sublist (h : shelf.Valid domain project id) {past : List Document}
    (hsub : past.Sublist shelf.past) : (⟨shelf.head, past⟩ : Shelf).Valid domain project id where
  domain_eq := fun d hd => h.domain_eq d ((hsub.cons_cons _).subset hd)
  project_eq := fun d hd => h.project_eq d ((hsub.cons_cons _).subset hd)
  id_eq := fun d hd => h.id_eq d ((hsub.cons_cons _).subset hd)
  inOrder := h.inOrder.sublist hsub
  revisions := h.revisions.sublist (hsub.map _)

theorem keep (h : shelf.Valid domain project id) (max : Nat) :
    (shelf.keep max).Valid domain project id := by
  refine h.sublist ?_
  split
  · exact List.Sublist.refl _
  · exact List.take_sublist ..

end Valid

theorem mem_past_write {shelf? : Option Shelf} :
    e ∈ (write shelf? d).past ↔
      e = d ∨ e ∈ shelf?.elim [] past ∧ e.updateRevision ≠ d.updateRevision := by
  rw [write, (insertBy_perm _ _ _).mem_iff, List.mem_cons, List.mem_filter, decide_eq_true_eq]

/-- A written document makes a valid shelf. -/
theorem valid_write {shelf? : Option Shelf}
    (h : ∀ shelf, shelf? = some shelf → shelf.Valid d.domain d.project d.id) :
    (write shelf? d).Valid d.domain d.project d.id := by
  have hpast : ∀ e ∈ shelf?.elim [] past,
      e.domain = d.domain ∧ e.project = d.project ∧ e.id = d.id := by
    intro e he
    cases shelf? with
    | none => cases he
    | some shelf =>
      have hshelf := h shelf rfl
      have hmem := List.mem_cons_of_mem shelf.head he
      exact ⟨hshelf.domain_eq e hmem, hshelf.project_eq e hmem, hshelf.id_eq e hmem⟩
  have hall : ∀ e ∈ (write shelf? d).head :: (write shelf? d).past,
      e.domain = d.domain ∧ e.project = d.project ∧ e.id = d.id := by
    intro e he
    rcases List.mem_cons.mp he with rfl | he
    · exact ⟨rfl, rfl, rfl⟩
    · rcases mem_past_write.mp he with rfl | ⟨he, -⟩
      · exact ⟨rfl, rfl, rfl⟩
      · exact hpast e he
  have hold : InOrder Document.precedes (shelf?.elim [] past) ∧
      ((shelf?.elim [] past).map (·.updateRevision)).Nodup := by
    cases shelf? with
    | none => exact ⟨.nil, .nil⟩
    | some shelf => exact ⟨(h shelf rfl).inOrder, (h shelf rfl).revisions⟩
  refine ⟨fun e he => (hall e he).1, fun e he => (hall e he).2.1, fun e he => (hall e he).2.2,
    inOrder_insertBy Document.precedes_total Document.precedes_trans d
      (hold.1.sublist List.filter_sublist), ?_⟩
  refine ((insertBy_perm _ _ _).map _).nodup_iff.mpr ?_
  refine List.nodup_cons.mpr ⟨?_, hold.2.sublist (List.filter_sublist.map _)⟩
  rintro hmem
  obtain ⟨e, he, heq⟩ := List.mem_map.mp hmem
  exact of_decide_eq_true (List.mem_filter.mp he).2 heq

/-! ## Files -/

@[simp]
theorem file?_newestName (shelf : Shelf) :
    shelf.file? Layout.newestName = some shelf.head.encode := by
  rw [file?, if_pos rfl]

/-- The file of a name is the newest copy or a snapshot of that name. -/
theorem file?_eq_some_iff (h : shelf.Valid domain project id) :
    shelf.file? name = some content ↔
      name = Layout.newestName ∧ content = shelf.head.encode ∨
        ∃ e ∈ shelf.past, name = Layout.snapshotName e.updateRevision ∧ content = e.encode := by
  rw [file?]
  split
  next hname =>
    constructor
    · intro heq
      exact .inl ⟨hname, (Option.some.inj heq).symm⟩
    · rintro (⟨-, hcontent⟩ | ⟨e, -, hsnapshot, -⟩)
      · rw [hcontent]
      · exact absurd (hsnapshot.symm.trans hname) (Layout.snapshotName_ne_newestName _)
  next hname =>
    rw [Option.map_eq_some_iff]
    constructor
    · rintro ⟨e, hfind, hcontent⟩
      have hmem := List.mem_of_find?_eq_some hfind
      have hsnapshot : Layout.snapshotName e.updateRevision = name := by
        simpa using List.find?_some hfind
      exact .inr ⟨e, hmem, hsnapshot.symm, hcontent.symm⟩
    · rintro (⟨hnewest, -⟩ | ⟨e, he, hsnapshot, hcontent⟩)
      · exact absurd hnewest hname
      · refine ⟨e, ?_, hcontent.symm⟩
        rw [hsnapshot]
        cases hfind : shelf.past.find? (Layout.snapshotName ·.updateRevision
            = Layout.snapshotName e.updateRevision) with
        | none => exact absurd (List.find?_eq_none.mp hfind e he) (by simp)
        | some e' =>
          have hmem := List.mem_of_find?_eq_some hfind
          have hsnapshot : Layout.snapshotName e'.updateRevision
              = Layout.snapshotName e.updateRevision := by simpa using List.find?_some hfind
          rw [h.eq_of_revision hmem he (Layout.snapshotName_injective hsnapshot)]

/-- A file on a shelf has a name that an entry can have. -/
theorem isName_of_file? (h : shelf.Valid domain project id) (hfile : shelf.file? name ≠ none) :
    Disk.IsName name := by
  obtain ⟨content, hcontent⟩ := Option.ne_none_iff_exists'.mp hfile
  rcases (file?_eq_some_iff h).mp hcontent with ⟨hnewest, -⟩ | ⟨e, -, hsnapshot, -⟩
  · rw [hnewest]
    exact Layout.isName_newestName
  · rw [hsnapshot]
    exact Layout.isName_snapshotName _

/-- What a write puts into the files of a document. -/
theorem file?_write {shelf? : Option Shelf}
    (h : ∀ shelf, shelf? = some shelf → shelf.Valid d.domain d.project d.id) (name : String) :
    (write shelf? d).file? name =
      if name = Layout.newestName ∨ name = Layout.snapshotName d.updateRevision then some d.encode
      else shelf?.bind (file? · name) := by
  apply Option.ext
  intro content
  rw [file?_eq_some_iff (valid_write h), head_write]
  split
  next hname =>
    constructor
    · rintro (⟨-, hcontent⟩ | ⟨e, he, hfile, hcontent⟩)
      · rw [hcontent]
      · rcases mem_past_write.mp he with rfl | ⟨-, hne⟩
        · rw [hcontent]
        · rcases hname with hnewest | hsnapshot
          · exact absurd (hfile.symm.trans hnewest) (Layout.snapshotName_ne_newestName _)
          · exact absurd (Layout.snapshotName_injective (hfile.symm.trans hsnapshot)) hne
    · intro hcontent
      have hcontent := (Option.some.inj hcontent).symm
      rcases hname with hnewest | hsnapshot
      · exact .inl ⟨hnewest, hcontent⟩
      · exact .inr ⟨d, mem_past_write.mpr (.inl rfl), hsnapshot, hcontent⟩
  next hname =>
    obtain ⟨hnewest, hsnapshot⟩ := not_or.mp hname
    cases shelf? with
    | none =>
      refine iff_of_false ?_ (by simp)
      rintro (⟨hname', -⟩ | ⟨e, he, hname', -⟩)
      · exact hnewest hname'
      · rcases mem_past_write.mp he with rfl | ⟨he, -⟩
        · exact hsnapshot hname'
        · cases he
    | some shelf =>
      rw [Option.bind_some, file?_eq_some_iff (h shelf rfl)]
      refine or_congr (iff_of_false (fun h => hnewest h.1) (fun h => hnewest h.1)) ?_
      constructor
      · rintro ⟨e, he, hname', hcontent⟩
        rcases mem_past_write.mp he with rfl | ⟨he, -⟩
        · exact absurd hname' hsnapshot
        · exact ⟨e, he, hname', hcontent⟩
      · rintro ⟨e, he, hname', hcontent⟩
        have hne : e.updateRevision ≠ d.updateRevision := fun heq => hsnapshot (heq ▸ hname')
        exact ⟨e, mem_past_write.mpr (.inr ⟨he, hne⟩), hname', hcontent⟩

/-- The files of a shelf from which snapshots are taken away. -/
theorem file?_filter (h : shelf.Valid domain project id) {keep : Document → Bool} (name : String) :
    (⟨shelf.head, shelf.past.filter keep⟩ : Shelf).file? name =
      if ∃ e ∈ shelf.past, keep e = false ∧ name = Layout.snapshotName e.updateRevision then none
      else shelf.file? name := by
  apply Option.ext
  intro content
  rw [file?_eq_some_iff (h.sublist List.filter_sublist)]
  split
  next hgone =>
    refine iff_of_false ?_ (by simp)
    obtain ⟨e, he, hkeep, hsnapshot⟩ := hgone
    rintro (⟨hnewest, -⟩ | ⟨e', he', hname, -⟩)
    · exact Layout.snapshotName_ne_newestName _ (hsnapshot.symm.trans hnewest)
    · obtain ⟨he', hkeep'⟩ := List.mem_filter.mp he'
      have hrevision := Layout.snapshotName_injective (hsnapshot.symm.trans hname)
      rw [h.eq_of_revision he he' hrevision, hkeep'] at hkeep
      cases hkeep
  next hgone =>
    rw [file?_eq_some_iff h]
    refine or_congr Iff.rfl ?_
    constructor
    · rintro ⟨e, he, hname⟩
      exact ⟨e, (List.mem_filter.mp he).1, hname⟩
    · rintro ⟨e, he, hname, hcontent⟩
      refine ⟨e, List.mem_filter.mpr ⟨he, ?_⟩, hname, hcontent⟩
      by_contra hkeep
      exact hgone ⟨e, he, by simpa using hkeep, hname⟩

end Shelf

end ConfigStore
