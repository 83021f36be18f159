import ConfigStore.Proofs.Library.Holding
import ConfigStore.Store.Writing

/-!
# Documents on the disk

The file of a document is read from its shelf, and writing a document changes its shelf.

* `Library.Holds.readDocument` reads the newest copy of a document.
* `Library.Holds.persist` writes the newest copy of a document and a snapshot.
-/

namespace ConfigStore.Library

open Node Disk Deletion Files

variable {root : Path} {base : Place} {lib : Library} {disk disk' : Node}
  {domain project id name : String} {shelf : Shelf} {d : Document}

theorem newest_eq : Layout.newest root domain project id
    = (root.descend (home domain project id)).join Layout.newestName := rfl

theorem snapshot_eq (revision : Int64) : Layout.snapshot root domain project id revision
    = (root.descend (home domain project id)).join (Layout.snapshotName revision) := rfl

theorem utf8ByteSize_newestName_le : Layout.newestName.utf8ByteSize ≤ 25 := by decide

namespace Holds

/-! ## Reading -/

/-- A file in the directory of a document is read if it is on its shelf. -/
theorem readFile_eq_ok_iff (h : lib.Holds base disk) (hg : Grounded root base disk)
    (hroom : Roomy root) (hstore : Storable domain project id) (hname : IsName name)
    (hshort : name.utf8ByteSize ≤ 25) {content : Bytes} :
    readFile disk ((root.descend (home domain project id)).join name) = .ok content ↔
      (lib.shelf? domain project id).bind (·.file? name) = some content := by
  have hfiles := h.documents domain project id [name] hstore.notReserved
  constructor
  · intro hread
    obtain ⟨-, -, hfile⟩ := readFile_inv hg.leads (fun n hn => (hstore.names n hn).toIsPiece)
      hname.toIsPiece hread
    rw [hfiles, kindOf?, Option.map_eq_some_iff] at hfile
    obtain ⟨content', hcontent, heq⟩ := hfile
    rw [hcontent, Kind.file.inj heq]
  · intro hshelf
    have hsome : (lib.shelf? domain project id).isSome := by
      cases hnone : lib.shelf? domain project id with
      | none =>
        rw [hnone] at hshelf
        cases hshelf
      | some shelf => rfl
    have hdir := (h.dir_iff hstore.notReserved).mpr hsome
    refine readFile_join (hg.leads.descend hstore.names hdir) hdir hname
      (hroom.checkText_home hstore.names hname hshort) ?_
    rw [hfiles, kindOf?, hshelf, Option.map_some]

/-- The newest copy is read if there is one. -/
theorem read?_newest (h : lib.Holds base disk) (hg : Grounded root base disk) (hroom : Roomy root)
    (hstore : Storable domain project id) (hloose : lib.loose? domain project = none) :
    read? (Layout.newest root domain project id) disk
      = .ok ((lib.head? domain project id).map Document.encode) disk := by
  have hdomain := hstore.notReserved
  rw [newest_eq, head?]
  cases hshelf : lib.shelf? domain project id with
  | none =>
    have htext := hroom.checkText_home hstore.names Layout.isName_newestName
      utf8ByteSize_newestName_le
    exact read?_of_notFound (readFile_absent hg.leads hg.isDir hstore.names
      Layout.isName_newestName htext (h.eq_none hdomain hshelf _)
      (h.unblocked hg.isDir hdomain hloose))
  | some shelf =>
    refine read?_of_ok ((h.readFile_eq_ok_iff hg hroom hstore Layout.isName_newestName
      utf8ByteSize_newestName_le).mpr ?_)
    rw [hshelf, Option.bind_some, Shelf.file?_newestName]

/-- The document that is read is the newest copy. -/
theorem readDocument (h : lib.Holds base disk) (hg : Grounded root base disk) (hroom : Roomy root)
    (hstore : Storable domain project id) (hloose : lib.loose? domain project = none) :
    Store.readDocument root domain project id disk =
      match lib.head? domain project id with
      | some d => .ok d disk
      | none => .error (.keyNotFound (domain ++ "/" ++ project ++ "/" ++ id)) disk := by
  simp only [Store.readDocument, bind, EStateM.bind, h.read?_newest hg hroom hstore hloose]
  cases lib.head? domain project id with
  | none => rfl
  | some d =>
    simp only [Option.map_some, Document.decode_encode]
    rfl

/-! ## Writing -/

/-- A document is written: its newest copy and a snapshot. -/
theorem persist (h : lib.Holds base disk) (hvalid : lib.Valid) (hg : Grounded root base disk)
    (hroom : Roomy root) (hstore : Storable d.domain d.project d.id)
    (hloose : lib.loose? d.domain d.project = none) :
    ∃ disk', Store.persist root d disk = .ok () disk' ∧ Grounded root base disk' ∧
      (lib.put d.domain d.project d.id
        (some (Shelf.write (lib.shelf? d.domain d.project d.id) d))).Holds base disk' := by
  have hdomain := hstore.notReserved
  have hsnapshot := Layout.isName_snapshotName d.updateRevision
  have hnewest := Layout.isName_newestName
  have hne := Layout.snapshotName_ne_newestName d.updateRevision
  have hleaf : ∀ name,
      disk.kindAt? (base ++ home d.domain d.project d.id ++ [name]) ≠ some .dir := by
    intro name
    rw [h.documents _ _ _ _ hdomain]
    exact kindOf?_cons_ne_dir _ _ _
  have hbelow : ∀ n q, ¬base ++ home d.domain d.project d.id ++ n :: q
      <+: base ++ home d.domain d.project d.id := fun n q => not_below_above _ n q
  obtain ⟨disk₁, undo₁, hwrite₁, hfirst⟩ := write_descend hg hstore.names (List.cons_ne_nil _ _)
    hsnapshot (hroom.checkText_home hstore.names hsnapshot (Layout.utf8ByteSize_snapshotName_le _))
    (h.unblocked hg.isDir hdomain hloose) (hleaf _) d.encode []
  have hg₁ : Grounded root base disk₁ :=
    hg.mono hfirst.distinct fun q hq _ => hfirst.dir (hleaf _) hq
  have hdir₁ : disk₁.kindAt? (base ++ home d.domain d.project d.id) = some .dir := by
    rw [hfirst.view, if_neg (by simp), if_pos (List.prefix_refl _)]
  have hleaf₁ : disk₁.kindAt? (base ++ home d.domain d.project d.id ++ [Layout.newestName])
      ≠ some .dir := by
    rw [hfirst.view, if_neg (by simpa using Ne.symm hne), if_neg (hbelow _ [])]
    exact hleaf _
  obtain ⟨disk₂, undo₂, hwrite₂, hsecond⟩ := write_descend hg₁ hstore.names (List.cons_ne_nil _ _)
    hnewest (hroom.checkText_home hstore.names hnewest utf8ByteSize_newestName_le)
    (unblocked_of_dir hdir₁) hleaf₁ d.encode undo₁
  refine ⟨disk₂, ?_, hg₁.mono hsecond.distinct fun q hq _ => hsecond.dir hleaf₁ hq,
    h.put hdomain hloose ?_ ?_ ?_⟩
  · simp only [Store.persist, LoggedAction.allOrNothing, bind, EStateM.bind, snapshot_eq, newest_eq,
      hwrite₁, hwrite₂]
  · intro q
    have hshelves : ∀ shelf, lib.shelf? d.domain d.project d.id = some shelf →
        shelf.Valid d.domain d.project d.id := fun _ => hvalid.shelf
    rcases q with - | ⟨name, - | ⟨next, q⟩⟩
    · rw [List.append_nil, hsecond.view, if_neg (by simp), if_pos (List.prefix_refl _)]
      rfl
    · rw [hsecond.view, if_neg (hbelow _ []), hfirst.view, if_neg (hbelow _ []),
        h.documents _ _ _ _ hdomain]
      simp only [kindOf?, List.append_cancel_left_eq, List.cons.injEq, and_true, Option.bind_some,
        Shelf.file?_write hshelves]
      by_cases hname : name = Layout.newestName
      · simp [hname]
      · by_cases hname' : name = Layout.snapshotName d.updateRevision <;> simp [hname, hname']
    · rw [hsecond.view, if_neg (by simp), if_neg (hbelow _ _), hfirst.view, if_neg (by simp),
        if_neg (hbelow _ _), h.documents _ _ _ _ hdomain]
      rfl
  · intro q hq _
    refine .inl ?_
    rw [hsecond.view, if_neg ?_, if_pos hq]
    rintro rfl
    exact hbelow _ [] hq
  · intro q hdown hup
    have hq : ∀ name, q ≠ base ++ home d.domain d.project d.id ++ [name] := by
      rintro name rfl
      exact hdown (List.prefix_append _ _)
    rw [hsecond.view, if_neg (hq _), if_neg hup, hfirst.view, if_neg (hq _), if_neg hup]

end Holds

end ConfigStore.Library
