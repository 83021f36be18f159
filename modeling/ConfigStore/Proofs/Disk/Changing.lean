import ConfigStore.Proofs.Disk.Operation

/-!
# Changes through paths of any kind

Most paths of a store are made of names that have been checked, but the path of a counter is made of
any text: it may go up, start anew at the top, or name directories in the middle of a document.
Wherever such a path leads, the last name of it is known, and the directories that are created on
the way have the names of its pieces.

* `Disk.resolve_join_inv` says where a path leads that ends in a known name;
  `Disk.readFile_join_inv` says what is read there, `Disk.writeFile_inv` and `Disk.removeFile_inv`
  what changes there.
* `Disk.Sprouted` says that nothing but directories with proper names was added, and
  `Disk.makeDirs_sprouted` that creating directories does no more than this.
-/

namespace ConfigStore

open Node

/-! ## Pieces of a text -/

namespace Path

theorem noSlash_cut (text : List Char) : ∀ piece ∈ cut text, '/' ∉ piece := by
  induction text with
  | nil => simp [cut]
  | cons c text ih =>
    rw [cut_cons]
    split
    · exact List.forall_mem_cons.mpr ⟨List.not_mem_nil, ih⟩
    next hslash =>
      obtain ⟨piece, rest, hcut⟩ := List.exists_cons_of_ne_nil (cut_ne_nil text)
      rw [hcut] at ih ⊢
      obtain ⟨hpiece, hrest⟩ := List.forall_mem_cons.mp ih
      refine List.forall_mem_cons.mpr ⟨fun hmem => ?_, hrest⟩
      rcases List.mem_cons.mp hmem with heq | hmem
      · exact hslash heq.symm
      · exact hpiece hmem

theorem noSlash_ofText (text : String) : ∀ piece ∈ (ofText text).pieces, '/' ∉ piece.toList := by
  intro piece hpiece
  obtain ⟨chars, hchars, rfl⟩ := List.mem_map.mp hpiece
  rw [String.toList_ofList]
  exact noSlash_cut _ chars hchars

/-- The path of a text either starts anew or goes on from where it is joined. -/
theorem pieces_join_text (p : Path) (text : String) :
    (p.join text).pieces = (ofText text).pieces ∨
      (p.join text).pieces = p.stem ++ (ofText text).pieces := by
  rw [join, append, stem]
  split
  · exact .inl rfl
  · split <;> exact .inr rfl

theorem stem_le_pieces (p : Path) : p.stem <+: p.pieces := by
  rw [stem]
  split
  · exact List.dropLast_prefix _
  · exact List.prefix_refl _

theorem pieces_descend (p : Path) {names : List String} (hne : names ≠ [])
    (h : ∀ name ∈ names, Disk.IsPiece name) : (p.descend names).pieces = p.stem ++ names := by
  obtain ⟨front, last, rfl⟩ := (List.eq_nil_or_concat names).resolve_left hne
  rw [List.concat_eq_append] at h ⊢
  rw [descend_concat, pieces_join _ (h last (by simp)).noSlash,
    stem_descend _ fun n hn => h n (by simp [hn]), List.append_assoc]

theorem parent_join_le (p : Path) {name : String} (h : Disk.IsPiece name) :
    (p.join name).parent.pieces <+: p.pieces := by
  rw [parent, pieces_join p h.noSlash, trimIdle_concat h.isIdle_eq_false, List.dropLast_concat]
  exact (List.rdropWhile_prefix isIdle _).trans p.stem_le_pieces

/-- A path with a name at its end is one that is continued by that name. -/
theorem mk_concat {name : String} (front : List String) (h : '/' ∉ name.toList) :
    Path.mk (front ++ [name]) = (Path.mk (front ++ [""])).join name := by
  have hpieces : ((Path.mk (front ++ [""])).join name).pieces = front ++ [name] := by
    rw [pieces_join _ h, stem, if_pos (List.getLast?_concat ..), List.dropLast_concat]
  rw [← hpieces]

/-- Whether a piece at the end of a path can only stand for a directory. -/
def isStay (piece : String) : Bool := isIdle piece || piece == ".."

/-- The path of a text ends in a name, or in a piece that can only stand for a directory. -/
theorem ofText_cases (text : String) :
    (∃ (parent : Path) (name : String), Disk.IsPiece name ∧ ofText text = parent.join name) ∨
      ∃ front last, (ofText text).pieces = front ++ [last] ∧ isStay last = true := by
  have hne : (ofText text).pieces ≠ [] := by simpa [ofText] using cut_ne_nil text.toList
  obtain ⟨front, last, hsplit⟩ := (List.eq_nil_or_concat _).resolve_left hne
  rw [List.concat_eq_append] at hsplit
  have hslash := noSlash_ofText text last (by simp [hsplit])
  cases hstay : isStay last with
  | true => exact .inr ⟨front, last, hsplit, hstay⟩
  | false =>
    simp only [isStay, isIdle, Bool.or_eq_false_iff, beq_eq_false_iff_ne] at hstay
    refine .inl ⟨⟨front ++ [""]⟩, last, ⟨hstay.1.1, hstay.1.2, hstay.2, hslash⟩, ?_⟩
    rw [← mk_concat front hslash, ← hsplit]

end Path

namespace Disk

variable {disk disk' disk'' : Node} {root path : Path} {base place : Place} {name : String}

/-! ## One entry -/

/-- A path that does not end in a name leads to a directory, if anywhere. -/
theorem isDir_of_resolve_stay {front : List String} {last : String}
    (hpieces : path.pieces = front ++ [last]) (hstay : Path.isStay last = true)
    (h : resolve disk path = .ok place) : disk.kindAt? place = some .dir := by
  have hfollow := (follow_of_resolve h).2
  rw [hpieces] at hfollow
  obtain ⟨here, -, hlast⟩ := follow_append_eq_ok_iff.mp hfollow
  have hdir := dir_of_follow hlast
  obtain ⟨entries, hentries⟩ := kindAt?_eq_dir_iff.mp hdir
  rw [follow, hentries] at hlast
  dsimp only at hlast
  split at hlast
  next => cases hlast; exact hdir
  next hidle =>
    have hup : last = ".." := by simpa [Path.isStay, hidle] using hstay
    rw [if_pos hup] at hlast
    cases hlast
    exact kindAt?_eq_dir_above (List.dropLast_prefix here) hdir

/-- A path that ends in a piece leads to an entry of that name in the directory before it. -/
theorem resolve_join_inv (hname : IsPiece name) (h : resolve disk (path.join name) = .ok place) :
    ∃ here, Leads path here disk ∧ disk.kindAt? here = some .dir ∧ IsName name ∧
      place = here ++ [name] := by
  have hpieces := Path.pieces_join path hname.noSlash
  obtain ⟨htext, hfollow⟩ := follow_of_resolve h
  have hnul := noNul_of_checkText htext name (by simp [hpieces])
  rw [hpieces] at hfollow
  obtain ⟨here, hleads, hlast⟩ := follow_append_eq_ok_iff.mp hfollow
  obtain ⟨hplace, hfits⟩ := follow_pieces_inv (List.forall_mem_singleton.mpr hname) hlast
  exact ⟨here, hleads, dir_of_follow hlast,
    ⟨hname, hnul, hfits name (List.mem_singleton_self _)⟩, hplace⟩

theorem readFile_refused {refusal : Refusal} (h : checkText path = .error refusal) (disk : Node) :
    readFile disk path = .error refusal := by
  rw [readFile, find, resolve_eq_reach (isEmpty_of_refused h), reach, h]
  rfl

theorem readFile_join_inv (hname : IsPiece name) {content : Bytes}
    (h : readFile disk (path.join name) = .ok content) :
    ∃ here, Leads path here disk ∧ disk.kindAt? here = some .dir ∧ IsName name ∧
      disk.kindAt? (here ++ [name]) = some (.file content) := by
  obtain ⟨place, hfind⟩ := readFile_eq_ok_iff.mp h
  obtain ⟨hresolve, hnode⟩ := find_eq_ok_iff.mp hfind
  obtain ⟨here, hleads, hdir, hfits, rfl⟩ := resolve_join_inv hname hresolve
  exact ⟨here, hleads, hdir, hfits, kindAt?_eq_file_iff.mpr hnode⟩

theorem writeFile_inv (hname : IsPiece name) {content : Bytes}
    (h : writeFile (path.join name) content disk = .ok disk') :
    ∃ here, Leads path here disk ∧ disk.kindAt? here = some .dir ∧ IsName name ∧
      disk.kindAt? (here ++ [name]) ≠ some .dir ∧
      disk' = disk.put (here ++ [name]) (.file content) := by
  obtain ⟨hempty, -, -, place, hreach, hfree, rfl⟩ := writeFile_eq_ok_iff.mp h
  rw [Path.trimSlash_join path hname.noSlash hname.ne_empty] at hreach
  obtain ⟨here, hleads, hdir, hfits, rfl⟩ :=
    resolve_join_inv hname (resolve_eq_ok_iff.mpr ⟨hempty, hreach⟩)
  exact ⟨here, hleads, hdir, hfits, hfree, rfl⟩

theorem removeFile_inv (hname : IsPiece name) (h : removeFile (path.join name) disk = .ok disk') :
    ∃ here content, Leads path here disk ∧ disk.kindAt? here = some .dir ∧ IsName name ∧
      disk.kindAt? (here ++ [name]) = some (.file content) ∧
      disk' = disk.erase (here ++ [name]) := by
  obtain ⟨place, content, hfind, rfl⟩ := removeFile_eq_ok_iff.mp h
  obtain ⟨hresolve, hnode⟩ := find_eq_ok_iff.mp hfind
  obtain ⟨here, hleads, hdir, hfits, rfl⟩ := resolve_join_inv hname hresolve
  exact ⟨here, content, hleads, hdir, hfits, kindAt?_eq_file_iff.mpr hnode, rfl⟩

/-- Where a path below the root leads, if the root is a directory. -/
theorem Leads.place_eq {names : List String} (hroot : Leads root base disk)
    (hnames : ∀ n ∈ names, IsPiece n) (h : Leads (root.descend names) place disk) :
    place = base ++ names := by
  rw [Leads, Path.stem_descend _ hnames, follow_append, hroot, Except.bind] at h
  exact (follow_pieces_inv hnames h).1

/-! ## Directories -/

/-- Directories that have been created can be followed. -/
theorem follow_of_makeDirsFrom (hd : disk.Distinct) {here : Place}
    (hdir : disk.kindAt? here = some .dir) {pieces : List String}
    (h : makeDirsFrom disk here pieces = (.ok (), disk')) :
    ∃ place, follow disk' here pieces = .ok place ∧ disk'.kindAt? place = some .dir := by
  induction pieces generalizing disk here with
  | nil => cases h; exact ⟨here, rfl, hdir⟩
  | cons piece pieces ih =>
    obtain ⟨entries, hhere⟩ : ∃ entries, disk'.at? here = some (.dir entries) := by
      have hext := makeDirsFrom_extended hd here (piece :: pieces)
      rw [h] at hext
      exact kindAt?_eq_dir_iff.mp (hext.dir hdir)
    rw [makeDirsFrom] at h
    rw [follow, hhere]
    dsimp only
    split at h
    next hidle => rw [if_pos hidle]; exact ih hd hdir h
    next hidle =>
      rw [if_neg hidle]
      split at h
      next hup =>
        rw [if_pos hup]
        exact ih hd (kindAt?_eq_dir_above (List.dropLast_prefix here) hdir) h
      next hup =>
        rw [if_neg hup]
        split at h
        · cases h
        next hlong =>
          rw [if_neg hlong]
          split at h
          · cases h
          next hentries => exact ih hd (kindAt?_eq_dir_iff.mpr ⟨_, hentries⟩) h
          next hnone =>
            have hfree := kindAt?_eq_none_iff.mpr hnone
            refine ih (hd.put distinct_dir_nil _) ?_ h
            rw [kindAt?_put_dir hd hdir (by rw [hfree]; simp), if_pos rfl]

/-- A directory that has been created can be reached. -/
theorem reach_of_makeDirs (hd : disk.Distinct) (htop : disk.kindAt? [] = some .dir)
    (h : makeDirs path disk = (.ok (), disk')) :
    ∃ place, reach disk' path = .ok place ∧ Leads path place disk' := by
  rw [makeDirs] at h
  split at h
  · cases h
  next htext =>
    split at h
    · split at h
      · cases h
      next made _ =>
        cases hentries : entries made path with
        | error refusal => rw [hentries] at h; cases h
        | ok children =>
          obtain ⟨place, hresolve, hleads, -⟩ := resolve_of_entries hentries
          rw [hentries] at h
          cases h
          exact ⟨place, (resolve_eq_ok_iff.mp hresolve).2, hleads⟩
    · obtain ⟨place, hfollow, -⟩ := follow_of_makeDirsFrom hd htop h
      exact ⟨place, reach_eq_ok_iff.mpr ⟨htext, hfollow⟩, leads_of_follow hfollow⟩

/-- Nothing but directories was added, and all of them have names that an entry can have. -/
structure Sprouted (disk disk' : Node) : Prop where
  distinct : disk'.Distinct
  kept : ∀ q, disk.kindAt? q ≠ none → disk'.kindAt? q = disk.kindAt? q
  added : ∀ q, disk.kindAt? q = none → disk'.kindAt? q ≠ none →
    disk'.kindAt? q = some .dir ∧ ∃ front name, q = front ++ [name] ∧ IsName name

namespace Sprouted

theorem refl (hd : disk.Distinct) : Sprouted disk disk :=
  ⟨hd, fun _ _ => rfl, fun _ h h' => absurd h h'⟩

theorem trans (h : Sprouted disk disk') (h' : Sprouted disk' disk'') : Sprouted disk disk'' where
  distinct := h'.distinct
  kept := fun q hq => (h'.kept q (by rwa [h.kept q hq])).trans (h.kept q hq)
  added := by
    intro q hq hq''
    by_cases hq' : disk'.kindAt? q = none
    · exact h'.added q hq' hq''
    · rw [h'.kept q hq']
      exact h.added q hq hq'

theorem extended (h : Sprouted disk disk') : Extended disk disk' :=
  ⟨h.distinct, h.kept, fun q hq hq' => (h.added q hq hq').1⟩

theorem dir (h : Sprouted disk disk') {q : Place} (hq : disk.kindAt? q = some .dir) :
    disk'.kindAt? q = some .dir := h.extended.dir hq

theorem content? (h : Sprouted disk disk') (q : Place) : disk'.content? q = disk.content? q :=
  h.extended.content? q

/-- A new directory with a proper name. -/
theorem put (hd : disk.Distinct) {here : Place} (hdir : disk.kindAt? here = some .dir)
    (hname : IsName name) (hnone : disk.kindAt? (here ++ [name]) = none) :
    Sprouted disk (disk.put (here ++ [name]) (.dir [])) := by
  have hput := kindAt?_put_dir hd hdir (by rw [hnone]; simp)
  refine ⟨hd.put distinct_dir_nil _, fun q hq => ?_, fun q hq hq' => ?_⟩
  · rw [hput, if_neg]
    rintro rfl
    exact hq hnone
  · rw [hput] at hq' ⊢
    split at hq'
    next heq => exact ⟨if_pos heq, here, name, heq, hname⟩
    next => exact absurd hq hq'

end Sprouted

/-- Directories that are created have the names of the pieces that are followed. -/
theorem makeDirsFrom_sprouted (hd : disk.Distinct) {here : Place}
    (hdir : disk.kindAt? here = some .dir) {pieces : List String}
    (hpieces : ∀ piece ∈ pieces, '/' ∉ piece.toList ∧ '\x00' ∉ piece.toList) :
    Sprouted disk (makeDirsFrom disk here pieces).2 := by
  induction pieces generalizing disk here with
  | nil => exact .refl hd
  | cons piece pieces ih =>
    obtain ⟨⟨hslash, hnul⟩, hpieces⟩ := List.forall_mem_cons.mp hpieces
    rw [makeDirsFrom]
    split
    · exact ih hd hdir hpieces
    next hidle =>
      split
      · exact ih hd (kindAt?_eq_dir_above (List.dropLast_prefix here) hdir) hpieces
      next hup =>
        split
        · exact .refl hd
        next hlong =>
          have hname : IsName piece := by
            simp only [Path.isIdle, Bool.or_eq_true, beq_iff_eq, not_or] at hidle
            exact ⟨⟨hidle.1, hidle.2, hup, hslash⟩, hnul, by simpa [isTooLong] using hlong⟩
          split
          · exact .refl hd
          next hentries => exact ih hd (kindAt?_eq_dir_iff.mpr ⟨_, hentries⟩) hpieces
          next hnone =>
            have hput := Sprouted.put hd hdir hname (kindAt?_eq_none_iff.mpr hnone)
            refine hput.trans (ih hput.distinct ?_ hpieces)
            rw [kindAt?_put_dir hd hdir (by rw [kindAt?_eq_none_iff.mpr hnone]; simp), if_pos rfl]

/-- Creating directories on a path that is, or starts like, a text or the root continued by a text
adds only directories with proper names. -/
theorem makeDirs_sprouted (hg : Grounded root base disk) {pieces : List String}
    (hpieces : ∀ piece ∈ pieces, '/' ∉ piece.toList)
    (hpath : path.pieces <+: pieces ∨ path.pieces <+: root.stem ++ pieces) :
    Sprouted disk (makeDirs path disk).2 := by
  rw [makeDirs]
  cases htext : checkText path with
  | error refusal => exact .refl hg.distinct
  | ok text =>
    have hall : ∀ front, front <+: path.pieces → Sprouted disk (makeDirsFrom disk [] front).2 := by
      intro front hfront
      have hnul : ∀ piece ∈ front, '\x00' ∉ piece.toList := fun piece hpiece =>
        noNul_of_checkText htext piece (hfront.subset hpiece)
      rcases hpath with hpath | hpath
      · refine makeDirsFrom_sprouted hg.distinct ?_ fun piece hpiece =>
          ⟨hpieces piece ((hfront.trans hpath).subset hpiece), hnul piece hpiece⟩
        exact kindAt?_eq_dir_above List.nil_prefix hg.isDir
      · rcases List.prefix_or_prefix_of_prefix (hfront.trans hpath)
            (List.prefix_append root.stem pieces) with hle | ⟨back, rfl⟩
        · rw [makeDirsFrom_front hg.leads hg.isDir hle]
          exact .refl hg.distinct
        · rw [makeDirsFrom_of_follow hg.leads hg.isDir]
          have hback := (List.prefix_append_right_inj _).mp (hfront.trans hpath)
          exact makeDirsFrom_sprouted hg.distinct hg.isDir fun piece hpiece =>
            ⟨hpieces piece (hback.subset hpiece), hnul piece (List.mem_append_right _ hpiece)⟩
    dsimp only
    split
    · have hparent := hall _ (parent_pieces_le path)
      split
      next heq => rwa [heq] at hparent
      next heq => rwa [heq] at hparent
    · exact hall _ (List.prefix_refl _)

end Disk

end ConfigStore
