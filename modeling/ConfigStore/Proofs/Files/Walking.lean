import ConfigStore.Proofs.Disk.Following
import ConfigStore.Proofs.Files.Looking

/-!
# Walking through a directory

All files below a directory are read in the order of their places. The files that are read are those
that stand below the directory, each of them once.

* `Place.Precedes` is the strict order of places.
* `Node.mem_files_iff` and `Node.nodup_files` say which files a tree has.
* `Files.firstUnlistable_eq_none` says when every directory can be listed, and
  `Files.filesBelow_walk` what is read then. `Files.content?_of_filesBelow` says of whatever is read
  that it stands there.
-/

namespace ConfigStore

open Node Disk

/-! ## The order of places -/

namespace Place

variable {a b c : Place}

theorem le_cons (n m : String) (a b : Place) :
    le (n :: a) (m :: b) = if n = m then le a b else decide (n < m) := rfl

theorem le_total (a b : Place) : le a b = true ∨ le b a = true := by
  induction a generalizing b with
  | nil => exact .inl rfl
  | cons n a ih =>
    cases b with
    | nil => exact .inr rfl
    | cons m b =>
      rw [le_cons, le_cons]
      by_cases h : n = m
      · rw [if_pos h, if_pos h.symm]
        exact ih b
      · rw [if_neg h, if_neg (Ne.symm h), decide_eq_true_eq, decide_eq_true_eq]
        by_cases hlt : n < m
        · exact .inl hlt
        · exact .inr (Pairs.lt_of_not_lt_of_ne hlt h)

theorem le_trans (hab : le a b = true) (hbc : le b c = true) : le a c = true := by
  induction a generalizing b c with
  | nil => rfl
  | cons n a ih =>
    cases b with
    | nil => cases hab
    | cons m b =>
      cases c with
      | nil => cases hbc
      | cons k c =>
        rw [le_cons] at hab hbc ⊢
        by_cases hnm : n = m
        · subst hnm
          rw [if_pos rfl] at hab
          by_cases hnk : n = k
          · rw [if_pos hnk] at hbc ⊢
            exact ih hab hbc
          · rwa [if_neg hnk] at hbc ⊢
        · rw [if_neg hnm, decide_eq_true_eq] at hab
          by_cases hmk : m = k
          · subst hmk
            rw [if_neg hnm]
            exact decide_eq_true hab
          · rw [if_neg hmk, decide_eq_true_eq] at hbc
            have hlt := String.lt_trans hab hbc
            have hne : n ≠ k := fun heq => String.lt_irrefl k (heq ▸ hlt)
            rw [if_neg hne]
            exact decide_eq_true hlt

/-- One place comes before another one. -/
def Precedes (a b : Place) : Prop := le a b = true ∧ a ≠ b

theorem le_append (p a b : Place) : le (p ++ a) (p ++ b) = le a b := by
  induction p with
  | nil => rfl
  | cons n p ih => rw [List.cons_append, List.cons_append, le_cons, if_pos rfl, ih]

theorem le_antisymm (hab : le a b = true) (hba : le b a = true) : a = b := by
  induction a generalizing b with
  | nil =>
    cases b with
    | nil => rfl
    | cons m b => cases hba
  | cons n a ih =>
    cases b with
    | nil => cases hab
    | cons m b =>
      rw [le_cons] at hab hba
      by_cases h : n = m
      · subst h
        rw [if_pos rfl] at hab hba
        rw [ih hab hba]
      · rw [if_neg h, decide_eq_true_eq] at hab
        rw [if_neg (Ne.symm h), decide_eq_true_eq] at hba
        exact absurd hba (String.lt_asymm hab)

/-- The order of two places is that of what follows their common part. -/
theorem precedes_append (p : Place) : Precedes (p ++ a) (p ++ b) ↔ Precedes a b := by
  rw [Precedes, Precedes, le_append, Ne, List.append_cancel_left_eq]

end Place

/-! ## The files of a tree -/

namespace Node

variable {node : Node} {entries : List (String × Node)} {place : Place} {content : Bytes}

/-- A file of a directory is a file of one of its entries. -/
theorem mem_entryFiles : (place, content) ∈ entryFiles entries ↔
    ∃ name child q, (name, child) ∈ entries ∧ place = name :: q ∧ (q, content) ∈ child.files := by
  induction entries with
  | nil => simp [entryFiles]
  | cons entry rest ih =>
    obtain ⟨name, child⟩ := entry
    rw [entryFiles, List.mem_append, ih, List.mem_map]
    constructor
    · rintro (⟨⟨q, c⟩, hmem, heq⟩ | ⟨n, other, q, hmem, hplace, hfile⟩)
      · cases heq
        exact ⟨name, child, q, List.mem_cons_self .., rfl, hmem⟩
      · exact ⟨n, other, q, List.mem_cons_of_mem _ hmem, hplace, hfile⟩
    · rintro ⟨n, other, q, hmem, rfl, hfile⟩
      rcases List.mem_cons.mp hmem with heq | hmem
      · cases heq
        exact .inl ⟨(q, content), hfile, rfl⟩
      · exact .inr ⟨n, other, q, hmem, rfl, hfile⟩

/-- The files that are listed are those that stand in the tree. -/
theorem mem_files_iff (hd : node.Distinct) :
    (place, content) ∈ node.files ↔ node.content? place = some content := by
  induction place generalizing node with
  | nil =>
    cases node with
    | file c => simp [files, content?, at?, eq_comm]
    | dir entries => simp [files, mem_entryFiles, content?, at?]
  | cons name place ih =>
    cases node with
    | file c => simp [files, content?, at?, child?]
    | dir entries =>
      obtain ⟨hnames, hchildren⟩ := distinct_dir_iff.mp hd
      rw [files, mem_entryFiles]
      constructor
      · rintro ⟨n, child, q, hmem, heq, hfile⟩
        cases heq
        have hcontent := (ih (hchildren name child hmem)).mp hfile
        rw [content?, at?, child?, (lookup_eq_some_iff hnames).mpr hmem]
        exact hcontent
      · intro hcontent
        rw [content?, at?, child?] at hcontent
        cases hlookup : entries.lookup name with
        | none => rw [hlookup] at hcontent; cases hcontent
        | some child =>
          rw [hlookup] at hcontent
          have hmem := (lookup_eq_some_iff hnames).mp hlookup
          exact ⟨name, child, place, hmem, rfl, (ih (hchildren name child hmem)).mpr hcontent⟩

mutual

/-- No file of a tree is listed twice. -/
theorem nodup_files (node : Node) (hd : node.Distinct) : (node.files.map (·.1)).Nodup := by
  match node with
  | .file content => exact List.pairwise_singleton _ _
  | .dir entries =>
    obtain ⟨hnames, hchildren⟩ := distinct_dir_iff.mp hd
    exact nodup_entryFiles entries hnames hchildren

/-- No file of a directory is listed twice. -/
theorem nodup_entryFiles (entries : List (String × Node)) (hnames : (entries.map (·.1)).Nodup)
    (hchildren : ∀ name child, (name, child) ∈ entries → child.Distinct) :
    ((entryFiles entries).map (·.1)).Nodup := by
  match entries with
  | [] => exact List.nodup_nil
  | (name, child) :: rest =>
    obtain ⟨hname, hrest⟩ := List.nodup_cons.mp hnames
    have hown := nodup_files child (hchildren name child (List.mem_cons_self ..))
    have hothers := nodup_entryFiles rest hrest fun n c hmem =>
      hchildren n c (List.mem_cons_of_mem _ hmem)
    rw [entryFiles, List.map_append, List.map_map]
    have hmap : (child.files.map ((·.1) ∘ fun file : Place × Bytes => (name :: file.1, file.2)))
        = (child.files.map (·.1)).map (name :: ·) := by
      rw [List.map_map]
      rfl
    refine List.nodup_append.mpr ⟨?_, hothers, ?_⟩
    · rw [hmap]
      exact List.pairwise_map.mpr
        (List.Pairwise.imp (fun hne heq => hne (List.cons.inj heq).2) hown)
    · rintro place hplace _ hother rfl
      obtain ⟨file, -, rfl⟩ := List.mem_map.mp hplace
      obtain ⟨⟨q, c⟩, hfile, heq⟩ := List.mem_map.mp hother
      obtain ⟨n, other, r, hmem, hq, -⟩ := mem_entryFiles.mp hfile
      have hn : n = name := (List.cons.inj (hq.symm.trans heq)).1
      exact hname (List.mem_map.mpr ⟨(n, other), hmem, hn⟩)

end

end Node

/-! ## Reading all files -/

theorem toOption_eq_some_iff {ε α : Type} {result : Except ε α} {a : α} :
    result.toOption = some a ↔ result = .ok a := by
  cases result <;> simp [Except.toOption]

namespace Files

variable {disk : Node} {path : Path} {children : List (String × Node)}

/-- What stands in the rest of a directory stands in the directory. -/
theorem kindAt?_dir_cons {entry : String × Node} {rest : List (String × Node)}
    (hname : entry.1 ∉ rest.map (·.1)) {place : Place} (hne : place ≠ [])
    (h : (Node.dir rest).kindAt? place ≠ none) :
    (Node.dir (entry :: rest)).kindAt? place = (Node.dir rest).kindAt? place := by
  obtain ⟨name, q, rfl⟩ := List.exists_cons_of_ne_nil hne
  have hother : (name == entry.1) = false := by
    rw [beq_eq_false_iff_ne]
    rintro rfl
    have hnone : rest.lookup entry.1 = none := List.lookup_eq_none_iff.mpr fun p hp => by
      simpa using fun heq => hname (List.mem_map.mpr ⟨p, hp, heq.symm⟩)
    rw [kindAt?, at?, child?, hnone] at h
    exact h rfl
  rw [kindAt?, kindAt?, at?, at?, child?, child?, List.lookup_cons, hother]

/-- Every directory can be listed if none has a path that is too long. -/
theorem firstUnlistable_eq_none (hd : (Node.dir children).Distinct)
    (hshort : ∀ place, place ≠ [] → (Node.dir children).kindAt? place = some .dir →
      isPathTooLong (path.descend place) = false) : firstUnlistable path children = none := by
  fun_induction firstUnlistable path children with
  | case1 path => rfl
  | case2 path name content rest ih =>
    obtain ⟨hnames, hchildren⟩ := distinct_dir_iff.mp hd
    obtain ⟨hname, hrest⟩ := List.nodup_cons.mp hnames
    refine ih (distinct_dir_iff.mpr ⟨hrest, fun n c hmem => hchildren n c (.tail _ hmem)⟩)
      fun place hne hplace => hshort place hne ?_
    rw [kindAt?_dir_cons hname hne (by rw [hplace]; simp), hplace]
  | case3 path name entries rest ihrest ihentries =>
    obtain ⟨hnames, hchildren⟩ := distinct_dir_iff.mp hd
    obtain ⟨hname, hrest⟩ := List.nodup_cons.mp hnames
    have hlater : firstUnlistable path rest = none := by
      refine ihrest (distinct_dir_iff.mpr ⟨hrest, fun n c hmem => hchildren n c (.tail _ hmem)⟩)
        fun place hne hplace => hshort place hne ?_
      rw [kindAt?_dir_cons hname hne (by rw [hplace]; simp), hplace]
    have hat : ∀ place, (Node.dir ((name, .dir entries) :: rest)).kindAt? (name :: place)
        = (Node.dir entries).kindAt? place := fun place => by
      rw [kindAt?, at?, child?, List.lookup_cons_self]
      rfl
    have hown : isPathTooLong (path.join name) = false :=
      hshort [name] (List.cons_ne_nil _ _) (hat [])
    have hbelow : firstUnlistable (path.join name) entries = none :=
      ihentries (hchildren name _ (List.mem_cons_self ..)) fun place _ hplace =>
        hshort (name :: place) (List.cons_ne_nil _ _) ((hat place).trans hplace)
    rw [hlater, hown, hbelow]
    rfl

/-- The files below a directory, in the order of their places. -/
def sortedFiles (children : List (String × Node)) : List (Place × Bytes) :=
  sortBy (fun a b => Place.le a.1 b.1) (entryFiles children)

theorem mem_sortedFiles (hd : (Node.dir children).Distinct) {place : Place} {content : Bytes} :
    (place, content) ∈ sortedFiles children ↔
      (Node.dir children).content? place = some content := by
  rw [sortedFiles, mem_sortBy]
  exact mem_files_iff hd

/-- Files at different places are sorted by their places. -/
theorem pairwise_sortBy_places {files : List (Place × Bytes)} (h : (files.map (·.1)).Nodup) :
    ((sortBy (fun a b => Place.le a.1 b.1) files).map (·.1)).Pairwise Place.Precedes := by
  have hnodup := ((sortBy_perm (fun a b => Place.le a.1 b.1) files).map (·.1)).nodup_iff.mpr h
  have hle : (sortBy (fun a b : Place × Bytes => Place.le a.1 b.1) files).Pairwise
      fun a b => Place.le a.1 b.1 = true :=
    pairwise_sortBy (fun (a b : Place × Bytes) => Place.le_total a.1 b.1)
      (fun _ _ _ => Place.le_trans) _
  exact (List.pairwise_map.mpr hle).and hnodup

theorem pairwise_sortedFiles (hd : (Node.dir children).Distinct) :
    ((sortedFiles children).map (·.1)).Pairwise Place.Precedes :=
  pairwise_sortBy_places (nodup_files (.dir children) hd)

/-- If no path is too long, all files below a directory are read, in the order of their places. -/
theorem filesBelow_walk (hd : disk.Distinct) (hentries : Disk.entries disk path = .ok children)
    (hshort : ∀ place, place ≠ [] → (Node.dir children).kindAt? place ≠ none →
      isPathTooLong (path.descend place) = false) :
    ∃ files : List (Place × Bytes),
      filesBelow path none disk = .ok (files.map fun file => (path.descend file.1, file.2)) disk ∧
      (∀ place content, (place, content) ∈ files ↔
        (Node.dir children).content? place = some content) ∧
      (files.map (·.1)).Pairwise Place.Precedes := by
  obtain ⟨here, -, hhere⟩ := leads_of_entries hentries
  have hchildren : (Node.dir children).Distinct := hd.child hhere
  refine ⟨sortedFiles children, ?_, fun place content => mem_sortedFiles hchildren,
    pairwise_sortedFiles hchildren⟩
  have hall : (entryFiles children).filter (fun file => decide (file.1.getLast? ≠ none))
      = entryFiles children := by
    refine List.filter_eq_self.mpr fun file hfile => ?_
    obtain ⟨name, child, q, -, hplace, -⟩ := mem_entryFiles.mp hfile
    simp [hplace]
  rw [filesBelow_of_ok none hentries, firstUnlistable_eq_none hchildren fun place hne hplace =>
    hshort place hne (by rw [hplace]; simp), hall]
  rcases mapM_readAt_outcome path (sortedFiles children) disk with ⟨-, hok⟩ | ⟨hnot, -⟩
  · exact hok
  · refine absurd (fun file hfile => ?_) hnot
    have hcontent := (mem_sortedFiles hchildren).mp hfile
    refine hshort file.1 ?_ ?_
    · rintro hnil
      rw [hnil] at hcontent
      cases hcontent
    · rw [content?_eq_some_iff.mp hcontent]
      simp

/-- Whatever is read below a directory is the content of a file there. -/
theorem content?_of_filesBelow {except? : Option String} {here : Place}
    {files : List (Path × Bytes)} (hd : disk.Distinct)
    (hhere : disk.at? here = some (.dir children))
    (hentries : Disk.entries disk path = .ok children)
    (hfiles : filesBelow path except? disk = .ok files disk) :
    ∀ file ∈ files, ∃ place, disk.content? (here ++ place) = some file.2 := by
  rw [filesBelow_of_ok except? hentries] at hfiles
  split at hfiles
  · cases hfiles
  · rcases mapM_readAt_outcome path (sortBy (fun a b : Place × Bytes => Place.le a.1 b.1)
      ((entryFiles children).filter fun file => file.1.getLast? ≠ except?)) disk with
      ⟨-, hok⟩ | ⟨-, failure, herror⟩
    · rw [hok] at hfiles
      cases hfiles
      intro file hfile
      obtain ⟨⟨place, content⟩, hmem, rfl⟩ := List.mem_map.mp hfile
      have hlisted := (List.mem_filter.mp (mem_sortBy.mp hmem)).1
      have hcontent : (Node.dir children).content? place = some content :=
        (mem_files_iff (hd.child hhere)).mp hlisted
      refine ⟨place, ?_⟩
      rwa [content?, at?_append, hhere]
    · rw [herror] at hfiles
      cases hfiles

end Files

end ConfigStore
