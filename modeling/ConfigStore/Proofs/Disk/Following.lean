import ConfigStore.Disk.Operation
import ConfigStore.Proofs.Disk.View

/-!
# Following paths

A path that is continued by a proper name leads one step further down the tree. The pieces of such a
path are those of the path before it, without the slash it may end in, and the name.

* `Disk.IsName` says that a text can be the name of an entry, `Disk.IsPiece` that it is meant to be
  one.
* `Path.stem` are the pieces to which a continued path adds; `Path.descend` continues by many names.
* `Disk.Leads` says that a path leads to a place; `Disk.Leads.join` takes one step more.
* `Disk.Grounded` says that a path leads to a directory whatever that directory holds, so that it
  goes on doing so while the directory is worked in; `Disk.Anchored` is a way to know it.
-/

namespace ConfigStore

open Node

/-! ## Names -/

namespace Disk

/-- A text that is one piece of a path and leads one step down. -/
structure IsPiece (name : String) : Prop where
  ne_empty : name ≠ ""
  ne_dot : name ≠ "."
  ne_dotdot : name ≠ ".."
  noSlash : '/' ∉ name.toList

/-- A text that can be the name of an entry of a directory. -/
structure IsName (name : String) : Prop extends IsPiece name where
  noNul : '\x00' ∉ name.toList
  fits : name.utf8ByteSize ≤ 255

theorem IsPiece.isIdle_eq_false {name : String} (h : IsPiece name) : Path.isIdle name = false := by
  simp [Path.isIdle, h.ne_empty, h.ne_dot]

theorem IsName.isTooLong_eq_false {name : String} (h : IsName name) : isTooLong name = false := by
  have hfits := h.fits
  simp only [isTooLong, decide_eq_false_iff_not]
  omega

instance (name : String) : Decidable (IsName name) :=
  decidable_of_iff (name ≠ "" ∧ name ≠ "." ∧ name ≠ ".." ∧ '/' ∉ name.toList ∧
      '\x00' ∉ name.toList ∧ name.utf8ByteSize ≤ 255)
    ⟨fun ⟨h₁, h₂, h₃, h₄, h₅, h₆⟩ => ⟨⟨h₁, h₂, h₃, h₄⟩, h₅, h₆⟩,
      fun h => ⟨h.ne_empty, h.ne_dot, h.ne_dotdot, h.noSlash, h.noNul, h.fits⟩⟩

/-- Every entry of a tree has a name that an entry can have. -/
def WellNamed (disk : Node) : Prop :=
  ∀ place name, disk.kindAt? (place ++ [name]) ≠ none → IsName name

theorem wellNamed_file (content : Bytes) : WellNamed (.file content) := by
  intro place name h
  cases place <;> exact absurd rfl h

theorem wellNamed_dir_iff {entries : List (String × Node)} (h : (entries.map (·.1)).Nodup) :
    WellNamed (.dir entries) ↔ ∀ entry ∈ entries, IsName entry.1 ∧ WellNamed entry.2 := by
  have hchild : ∀ name node place, (name, node) ∈ entries →
      (Node.dir entries).kindAt? (name :: place) = node.kindAt? place := by
    intro name node place hmem
    rw [kindAt?, at?, child?, (lookup_eq_some_iff h).mpr hmem]
    rfl
  constructor
  · rintro hnamed ⟨name, node⟩ hmem
    refine ⟨hnamed [] name (by rw [List.nil_append, hchild _ _ _ hmem]; simp [kindAt?, at?]), ?_⟩
    intro place n hn
    exact hnamed (name :: place) n (by rwa [List.cons_append, hchild _ _ _ hmem])
  · intro hall place name hne
    cases place with
    | nil =>
      obtain ⟨node, hmem⟩ : ∃ node, (name, node) ∈ entries := by
        by_contra hnone
        push Not at hnone
        refine hne ?_
        rw [List.nil_append, kindAt?, at?, child?, Option.map_eq_none_iff]
        cases hlookup : entries.lookup name with
        | none => rfl
        | some node => exact absurd ((lookup_eq_some_iff h).mp hlookup) (hnone node)
      exact (hall _ hmem).1
    | cons first rest =>
      rw [List.cons_append] at hne
      cases hlookup : entries.lookup first with
      | none =>
        refine absurd ?_ hne
        rw [kindAt?, at?, child?, hlookup]
        rfl
      | some node =>
        have hmem := (lookup_eq_some_iff h).mp hlookup
        rw [hchild _ _ _ hmem] at hne
        exact (hall _ hmem).2 rest name hne

mutual

/-- Whether no directory of a tree has two entries of one name, and all names are proper. -/
def isProper : Node → Bool
  | .file _ => true
  | .dir entries => decide (entries.map (·.1)).Nodup && areProper entries

/-- Whether all names of entries are proper, and the entries with them. -/
def areProper : List (String × Node) → Bool
  | [] => true
  | (name, node) :: rest => decide (IsName name) && isProper node && areProper rest

end

mutual

theorem isProper_iff (node : Node) : isProper node = true ↔ node.Distinct ∧ WellNamed node := by
  cases node with
  | file content =>
    exact iff_of_true rfl ⟨distinct_file content, wellNamed_file content⟩
  | dir entries =>
    rw [isProper, Bool.and_eq_true, decide_eq_true_eq, areProper_iff entries, distinct_dir_iff,
      and_assoc]
    refine and_congr_right fun hnodup => ?_
    rw [wellNamed_dir_iff hnodup]
    constructor
    · exact fun h => ⟨fun name child hmem => (h _ hmem).2.1,
        fun entry hmem => ⟨(h entry hmem).1, (h entry hmem).2.2⟩⟩
    · exact fun ⟨hdistinct, hnamed⟩ entry hmem =>
        ⟨(hnamed entry hmem).1, hdistinct _ _ hmem, (hnamed entry hmem).2⟩

theorem areProper_iff (entries : List (String × Node)) : areProper entries = true ↔
    ∀ entry ∈ entries, IsName entry.1 ∧ entry.2.Distinct ∧ WellNamed entry.2 := by
  match entries with
  | [] => exact iff_of_true rfl fun _ hmem => absurd hmem List.not_mem_nil
  | (name, node) :: rest =>
    rw [areProper, Bool.and_eq_true, Bool.and_eq_true, decide_eq_true_eq, isProper_iff node,
      areProper_iff rest, List.forall_mem_cons]

end

instance (node : Node) : Decidable (node.Distinct ∧ WellNamed node) :=
  decidable_of_iff (isProper node = true) (isProper_iff node)

end Disk

/-! ## Pieces of continued paths -/

namespace Path

/-- The pieces of a path without the empty one after a slash at the end. -/
def stem (p : Path) : List String :=
  if p.pieces.getLast? = some "" then p.pieces.dropLast else p.pieces

/-- Continues a path by names, one after the other. -/
def descend (p : Path) (names : List String) : Path := names.foldl Path.join p

theorem pieces_join (p : Path) {name : String} (h : '/' ∉ name.toList) :
    (p.join name).pieces = p.stem ++ [name] := by
  rw [join, ofText_of_not_mem h, append, stem]
  split
  next habsolute => exact absurd habsolute (by simp [isAbsolute])
  · split <;> rfl

theorem stem_eq_pieces {p : Path} {pieces : List String} {name : String}
    (h : p.pieces = pieces ++ [name]) (hne : name ≠ "") : p.stem = p.pieces := by
  rw [stem, h, List.getLast?_concat, if_neg (by simpa using hne)]

theorem stem_join (p : Path) {name : String} (h : '/' ∉ name.toList) (hne : name ≠ "") :
    (p.join name).stem = p.stem ++ [name] := by
  rw [stem_eq_pieces (pieces_join p h) hne, pieces_join p h]

theorem stem_descend (p : Path) {names : List String} (h : ∀ name ∈ names, Disk.IsPiece name) :
    (p.descend names).stem = p.stem ++ names := by
  induction names generalizing p with
  | nil => rw [List.append_nil]; rfl
  | cons name names ih =>
    have hname := h name (List.mem_cons_self ..)
    rw [descend, List.foldl_cons, ← descend, ih _ fun n hn => h n (List.mem_cons_of_mem _ hn),
      stem_join p hname.noSlash hname.ne_empty, List.append_assoc, List.singleton_append]

theorem descend_concat (p : Path) (names : List String) (name : String) :
    p.descend (names ++ [name]) = (p.descend names).join name := by
  rw [descend, List.foldl_append]
  rfl

/-! ## Ends of continued paths -/

theorem trimIdle_concat {pieces : List String} {name : String} (h : isIdle name = false) :
    trimIdle (pieces ++ [name]) = pieces ++ [name] := by
  simp [trimIdle, h]

/-- There are two paths without text: that of no piece and that of one empty piece. -/
theorem isEmpty_eq_false_iff {p : Path} : p.isEmpty = false ↔ p ≠ ⟨[]⟩ ∧ p ≠ ⟨[""]⟩ := by
  obtain ⟨pieces⟩ := p
  rw [isEmpty]
  split
  next hnil => simp_all
  next hlast => simp_all
  next hnil hlast => exact iff_of_true rfl ⟨by simpa using hnil, by simpa using hlast⟩

theorem isEmpty_concat {p : Path} {pieces : List String} {name : String}
    (h : p.pieces = pieces ++ [name]) (hne : name ≠ "") : p.isEmpty = false := by
  refine isEmpty_eq_false_iff.mpr ⟨?_, ?_⟩
  · rintro rfl
    simp at h
  · rintro rfl
    obtain ⟨-, hlast⟩ := (List.singleton_eq_append_iff.mp h).resolve_right (by simp)
    exact hne (by simpa using hlast)

theorem isEmpty_join (p : Path) {name : String} (h : Disk.IsPiece name) :
    (p.join name).isEmpty = false :=
  isEmpty_concat (pieces_join p h.noSlash) h.ne_empty

/-- A path that is continued has a text. -/
theorem isEmpty_descend (p : Path) {names : List String} (hne : names ≠ [])
    (h : ∀ name ∈ names, Disk.IsPiece name) : (p.descend names).isEmpty = false := by
  obtain ⟨front, last, rfl⟩ := (List.eq_nil_or_concat names).resolve_left hne
  rw [List.concat_eq_append] at h ⊢
  rw [descend_concat]
  exact isEmpty_join _ (h last (by simp))

theorem isEmpty_of_endsInDot {p : Path} (h : p.endsInDot = true) : p.isEmpty = false := by
  refine isEmpty_eq_false_iff.mpr ⟨?_, ?_⟩
  all_goals
    rintro rfl
    cases h

theorem trimSlash_join (p : Path) {name : String} (h : '/' ∉ name.toList) (hne : name ≠ "") :
    (p.join name).trimSlash = p.join name := by
  have hlast : (name == "") = false := by simpa using hne
  rw [trimSlash, pieces_join p h, List.reverse_concat, List.dropWhile_cons, hlast]
  simp [← pieces_join p h]

theorem endsInSlash_join (p : Path) {name : String} (h : '/' ∉ name.toList) (hne : name ≠ "") :
    (p.join name).endsInSlash = false := by
  simp [endsInSlash, pieces_join p h, hne]

theorem endsInDot_join (p : Path) {name : String} (h : Disk.IsPiece name) :
    (p.join name).endsInDot = false := by
  simp [endsInDot, trimSlash_join p h.noSlash h.ne_empty, pieces_join p h.noSlash, h.ne_dot]

/-- One step up from a name within a directory is the directory. -/
theorem parent_join_join (p : Path) {name : String} (h : Disk.IsPiece name) {file : String}
    (hfile : Disk.IsPiece file) : ((p.join name).join file).parent = p.join name := by
  have hpieces := pieces_join p h.noSlash
  rw [parent, pieces_join _ hfile.noSlash, trimIdle_concat hfile.isIdle_eq_false,
    List.dropLast_concat, stem_join p h.noSlash h.ne_empty, trimIdle_concat h.isIdle_eq_false,
    ← hpieces]

theorem parent_descend_join (p : Path) {names : List String} (hne : names ≠ [])
    (h : ∀ name ∈ names, Disk.IsPiece name) {file : String} (hfile : Disk.IsPiece file) :
    ((p.descend names).join file).parent = p.descend names := by
  obtain ⟨front, last, rfl⟩ := (List.eq_nil_or_concat names).resolve_left hne
  rw [List.concat_eq_append] at h ⊢
  rw [descend_concat]
  exact parent_join_join _ (h last (by simp)) hfile

/-! ## Length of continued paths -/

/-- How many bytes pieces take up, with a slash for each of them. -/
def width (pieces : List String) : Nat :=
  pieces.foldr (fun piece n => piece.utf8ByteSize + 1 + n) 0

theorem byteLength_eq (p : Path) : p.byteLength = width p.pieces - 1 := rfl

@[simp]
theorem width_nil : width [] = 0 := rfl

@[simp]
theorem width_cons (piece : String) (pieces : List String) :
    width (piece :: pieces) = piece.utf8ByteSize + 1 + width pieces := rfl

@[simp]
theorem width_append (xs ys : List String) : width (xs ++ ys) = width xs + width ys := by
  induction xs with
  | nil => simp
  | cons x xs ih =>
    rw [List.cons_append, width_cons, width_cons, ih]
    omega

theorem width_stem_le (p : Path) : width p.stem ≤ width p.pieces := by
  rw [stem]
  split
  next h =>
    have hsplit := List.dropLast_append_getLast? "" h
    calc width p.pieces.dropLast ≤ width (p.pieces.dropLast ++ [""]) := by rw [width_append]; omega
      _ = width p.pieces := by rw [hsplit]
  · exact Nat.le_refl _

theorem byteLength_descend_le (p : Path) {names : List String}
    (h : ∀ name ∈ names, Disk.IsPiece name) :
    (p.descend names).byteLength ≤ p.byteLength + width names := by
  rcases List.eq_nil_or_concat names with rfl | ⟨front, last, rfl⟩
  · exact Nat.le_add_right _ _
  · have hlast := h last (by simp)
    have hfront : ∀ name ∈ front, Disk.IsPiece name := fun name hmem => h name (by simp [hmem])
    rw [List.concat_eq_append, descend_concat, byteLength_eq, pieces_join _ hlast.noSlash,
      stem_descend p hfront, byteLength_eq]
    have := width_stem_le p
    simp only [width_append, width_cons, width_nil]
    omega

theorem width_le_of_isName {names : List String} (h : ∀ name ∈ names, Disk.IsName name) :
    width names ≤ 256 * names.length := by
  induction names with
  | nil => simp
  | cons name names ih =>
    have hfits := (h name (List.mem_cons_self ..)).fits
    have := ih fun n hn => h n (List.mem_cons_of_mem _ hn)
    rw [width_cons, List.length_cons]
    omega

end Path

namespace Disk

/-! ## Following -/

theorem follow_append (disk : Node) (here : Place) (xs ys : List String) :
    follow disk here (xs ++ ys) = (follow disk here xs).bind (follow disk · ys) := by
  induction xs generalizing here with
  | nil => rfl
  | cons piece xs ih =>
    rw [List.cons_append, follow, follow]
    split
    · rfl
    · rfl
    · split
      · exact ih here
      · split
        · exact ih _
        · split
          · rfl
          · exact ih _

/-- Pieces are followed to where the first of them lead, and on from there. -/
theorem follow_append_eq_ok_iff {disk : Node} {here place : Place} {xs ys : List String} :
    follow disk here (xs ++ ys) = .ok place ↔
      ∃ mid, follow disk here xs = .ok mid ∧ follow disk mid ys = .ok place := by
  rw [follow_append]
  cases follow disk here xs with
  | error refusal => simp only [Except.bind, reduceCtorEq, false_and, exists_false]
  | ok mid => simp only [Except.bind, Except.ok.injEq, exists_eq_left']

/-- A piece is followed from a directory only. -/
theorem dir_of_follow {disk : Node} {here place : Place} {piece : String} {rest : List String}
    (h : follow disk here (piece :: rest) = .ok place) : disk.kindAt? here = some .dir := by
  rw [follow] at h
  split at h
  · cases h
  · cases h
  next hentries => exact kindAt?_eq_dir_iff.mpr ⟨_, hentries⟩

/-- Pieces lead to the same place in a tree that has all the directories. -/
theorem follow_mono {disk disk' : Node}
    (h : ∀ q, disk.kindAt? q = some .dir → disk'.kindAt? q = some .dir) {here place : Place}
    {pieces : List String} (hfollow : follow disk here pieces = .ok place) :
    follow disk' here pieces = .ok place := by
  induction pieces generalizing here with
  | nil => exact hfollow
  | cons piece pieces ih =>
    rw [follow] at hfollow
    split at hfollow
    · cases hfollow
    · cases hfollow
    next entries hhere =>
      obtain ⟨entries', hhere'⟩ :=
        kindAt?_eq_dir_iff.mp (h here (kindAt?_eq_dir_iff.mpr ⟨_, hhere⟩))
      rw [follow, hhere']
      simp only
      split at hfollow
      next hidle => rw [if_pos hidle]; exact ih hfollow
      next hidle =>
        rw [if_neg hidle]
        split at hfollow
        next hup => rw [if_pos hup]; exact ih hfollow
        next hup =>
          rw [if_neg hup]
          split at hfollow
          · cases hfollow
          next hlong => rw [if_neg hlong]; exact ih hfollow

/-- A name is followed from a directory to the entry of that name, which need not exist. -/
theorem follow_name {disk : Node} {here : Place} (hdir : disk.kindAt? here = some .dir)
    {name : String} (h : IsName name) (rest : List String) :
    follow disk here (name :: rest) = follow disk (here ++ [name]) rest := by
  obtain ⟨entries, hhere⟩ := kindAt?_eq_dir_iff.mp hdir
  rw [follow, hhere]
  simp [h.isIdle_eq_false, h.ne_dotdot, h.isTooLong_eq_false]

theorem follow_names {disk : Node} {here : Place} {names : List String}
    (h : ∀ name ∈ names, IsName name) (hdir : disk.kindAt? (here ++ names) = some .dir) :
    follow disk here names = .ok (here ++ names) := by
  induction names generalizing here with
  | nil => rw [List.append_nil]; rfl
  | cons name names ih =>
    have hhere := kindAt?_eq_dir_above (List.prefix_append here (name :: names)) hdir
    have hsplit : here ++ name :: names = here ++ [name] ++ names := by simp
    rw [follow_name hhere (h name (List.mem_cons_self ..)), hsplit]
    exact ih (fun n hn => h n (List.mem_cons_of_mem _ hn)) (hsplit ▸ hdir)

/-- Pieces that can be followed lead down by names that fit. -/
theorem follow_pieces_inv {disk : Node} {here place : Place} {pieces : List String}
    (hpieces : ∀ piece ∈ pieces, IsPiece piece) (h : follow disk here pieces = .ok place) :
    place = here ++ pieces ∧ ∀ piece ∈ pieces, piece.utf8ByteSize ≤ 255 := by
  induction pieces generalizing here with
  | nil =>
    cases h
    exact ⟨(List.append_nil _).symm, fun _ hmem => absurd hmem List.not_mem_nil⟩
  | cons piece pieces ih =>
    have hpiece := hpieces piece (List.mem_cons_self ..)
    rw [follow] at h
    split at h
    · cases h
    · cases h
    · rw [if_neg (by simp [hpiece.isIdle_eq_false]), if_neg hpiece.ne_dotdot] at h
      split at h
      · cases h
      next hlong =>
        obtain ⟨rfl, hfits⟩ := ih (fun n hn => hpieces n (List.mem_cons_of_mem _ hn)) h
        refine ⟨by simp, fun n hn => ?_⟩
        rcases List.mem_cons.mp hn with rfl | hn
        · simpa [isTooLong] using hlong
        · exact hfits n hn

/-- Following stops where nothing stands. -/
theorem follow_missing {disk : Node} {here : Place} (h : disk.kindAt? here = none) (name : String)
    (rest : List String) : follow disk here (name :: rest) = .error .notFound := by
  rw [follow, kindAt?_eq_none_iff.mp h]

/-! ## Where a path leads -/

theorem reach_eq_ok_iff {disk : Node} {path : Path} {place : Place} :
    reach disk path = .ok place ↔
      checkText path = .ok () ∧ follow disk [] path.pieces = .ok place := by
  rw [reach]
  cases checkText path with
  | error refusal => simp only [bind, Except.bind, reduceCtorEq, false_and]
  | ok text => simp only [bind, Except.bind, true_and]

theorem resolve_eq_reach {path : Path} (h : path.isEmpty = false) (disk : Node) :
    resolve disk path = reach disk path := by
  rw [resolve, h]
  rfl

/-- Nothing is found under a path without text. -/
theorem resolve_of_isEmpty {path : Path} (h : path.isEmpty = true) (disk : Node) :
    resolve disk path = .error .notFound :=
  if_pos h

theorem resolve_eq_ok_iff {disk : Node} {path : Path} {place : Place} :
    resolve disk path = .ok place ↔ path.isEmpty = false ∧ reach disk path = .ok place := by
  cases h : path.isEmpty with
  | true => simp only [resolve_of_isEmpty h, reduceCtorEq, false_and]
  | false => simp only [resolve_eq_reach h, true_and]

theorem follow_of_resolve {disk : Node} {path : Path} {place : Place}
    (h : resolve disk path = .ok place) :
    checkText path = .ok () ∧ follow disk [] path.pieces = .ok place :=
  reach_eq_ok_iff.mp (resolve_eq_ok_iff.mp h).2

/-- A path leads to the same place in a tree that has all the directories. -/
theorem resolve_mono {disk disk' : Node} {path : Path} {place : Place}
    (hkept : ∀ q, disk.kindAt? q = some .dir → disk'.kindAt? q = some .dir)
    (h : resolve disk path = .ok place) : resolve disk' path = .ok place := by
  obtain ⟨htext, hfollow⟩ := follow_of_resolve h
  exact resolve_eq_ok_iff.mpr ⟨(resolve_eq_ok_iff.mp h).1,
    reach_eq_ok_iff.mpr ⟨htext, follow_mono hkept hfollow⟩⟩

/-- A path whose text is refused has a text. -/
theorem isEmpty_of_refused {path : Path} {refusal : Refusal} (h : checkText path = .error refusal) :
    path.isEmpty = false := by
  refine Path.isEmpty_eq_false_iff.mpr ⟨?_, ?_⟩
  all_goals
    rintro rfl
    cases h

/-- A path leads to a place, which may be continued by a name. -/
def Leads (path : Path) (place : Place) (disk : Node) : Prop :=
  follow disk [] path.stem = .ok place

/-- A path that can be followed to a directory can be continued from there. -/
theorem leads_of_follow {path : Path} {place : Place} {disk : Node}
    (h : follow disk [] path.pieces = .ok place) : Leads path place disk := by
  rw [Leads, Path.stem]
  split
  next hlast =>
    have hsplit := List.dropLast_append_getLast? "" hlast
    rw [← hsplit] at h
    obtain ⟨here, hfront, hend⟩ := follow_append_eq_ok_iff.mp h
    rw [follow] at hend
    split at hend
    · cases hend
    · cases hend
    · cases hend
      exact hfront
  · exact h

/-- A path that leads to a directory can be followed to it. -/
theorem Leads.follow_pieces {path : Path} {place : Place} {disk : Node}
    (h : Leads path place disk) (hdir : disk.kindAt? place = some .dir) :
    follow disk [] path.pieces = .ok place := by
  rw [Leads, Path.stem] at h
  split at h
  next hlast =>
    obtain ⟨entries, hplace⟩ := kindAt?_eq_dir_iff.mp hdir
    have hsplit := List.dropLast_append_getLast? "" hlast
    rw [← hsplit, follow_append, h, Except.bind, follow, hplace]
    simp [Path.isIdle, follow]
  · exact h

theorem Leads.join {path : Path} {place : Place} {disk : Node} (h : Leads path place disk)
    (hdir : disk.kindAt? place = some .dir) {name : String} (hname : IsName name) :
    Leads (path.join name) (place ++ [name]) disk := by
  rw [Leads, Path.stem_join _ hname.noSlash hname.ne_empty, follow_append, h, Except.bind,
    follow_name hdir hname]
  rfl

theorem Leads.descend {path : Path} {place : Place} {disk : Node} (h : Leads path place disk)
    {names : List String} (hnames : ∀ name ∈ names, IsName name)
    (hdir : disk.kindAt? (place ++ names) = some .dir) :
    Leads (path.descend names) (place ++ names) disk := by
  rw [Leads, Path.stem_descend _ fun n hn => (hnames n hn).toIsPiece, follow_append, h, Except.bind]
  exact follow_names hnames hdir

theorem Leads.mono {path : Path} {place : Place} {disk disk' : Node} (h : Leads path place disk)
    (hmono : ∀ q, disk.kindAt? q = some .dir → disk'.kindAt? q = some .dir) :
    Leads path place disk' :=
  follow_mono hmono h

/-- If a continued path has a text that a disk takes, so has the path. -/
theorem checkText_of_join {path : Path} {name : String} (hname : IsPiece name)
    (h : checkText (path.join name) = .ok ()) : checkText path = .ok () := by
  have hstem : path.pieces = path.stem ∨ path.pieces = path.stem ++ [""] := by
    rw [Path.stem]
    split
    next hlast => exact .inr (List.dropLast_append_getLast? "" hlast).symm
    · exact .inl rfl
  rw [checkText] at h ⊢
  split at h
  · cases h
  next hnul =>
    split at h
    · cases h
    next hlong =>
      rw [hasNul, Path.pieces_join _ hname.noSlash] at hnul
      rw [isPathTooLong, Path.byteLength_eq, Path.pieces_join _ hname.noSlash, Path.width_append,
        Path.width_cons, decide_eq_true_eq] at hlong
      rw [if_neg, if_neg]
      · rw [isPathTooLong, Path.byteLength_eq, decide_eq_true_eq]
        rcases hstem with heq | heq <;> rw [heq]
        · omega
        · rw [Path.width_append, Path.width_cons, Path.width_nil, String.utf8ByteSize_empty]
          omega
      · rw [hasNul]
        rcases hstem with heq | heq <;> rw [heq] <;> simp_all

theorem checkText_of_descend {path : Path} {names : List String} (hnames : ∀ n ∈ names, IsPiece n)
    (h : checkText (path.descend names) = .ok ()) : checkText path = .ok () := by
  induction names generalizing path with
  | nil => exact h
  | cons name names ih =>
    refine checkText_of_join (hnames name (List.mem_cons_self ..)) ?_
    exact ih (fun n hn => hnames n (List.mem_cons_of_mem _ hn)) h

theorem hasNul_join {p : Path} (h : hasNul p = false) {name : String} (hname : IsName name) :
    hasNul (p.join name) = false := by
  rw [hasNul, List.any_eq_false] at h ⊢
  rw [Path.pieces_join p hname.noSlash]
  intro piece hpiece
  rcases List.mem_append.mp hpiece with hpiece | hpiece
  · refine h piece ?_
    unfold Path.stem at hpiece
    split at hpiece
    · exact (List.dropLast_sublist _).subset hpiece
    · exact hpiece
  · rw [List.mem_singleton.mp hpiece]
    simpa using hname.noNul

theorem hasNul_descend {p : Path} (h : hasNul p = false) {names : List String}
    (hnames : ∀ n ∈ names, IsName n) : hasNul (p.descend names) = false := by
  induction names generalizing p with
  | nil => exact h
  | cons name names ih =>
    obtain ⟨hname, hnames⟩ := List.forall_mem_cons.mp hnames
    exact ih (hasNul_join h hname) hnames

/-- A path that is continued by names has a text that a disk takes, if there is room for them. -/
theorem checkText_descend_of_le {path : Path} (h : checkText path = .ok ()) {names : List String}
    (hnames : ∀ n ∈ names, IsName n) (hroom : path.byteLength + Path.width names ≤ maxPathBytes) :
    checkText (path.descend names) = .ok () := by
  have hnul : hasNul path = false := by
    rw [checkText] at h
    split at h
    · cases h
    next hnul => simpa using hnul
  have hlength := Path.byteLength_descend_le path fun n hn => (hnames n hn).toIsPiece
  have hlong : isPathTooLong (path.descend names) = false := by
    rw [isPathTooLong, decide_eq_false_iff_not]
    omega
  rw [checkText, hasNul_descend hnul hnames, hlong]
  rfl

/-! ## A directory to work in -/

/-- A path leads to a directory, and goes on doing so whatever happens below that directory, as long
as the directories elsewhere stay. -/
structure Grounded (root : Path) (base : Place) (disk : Node) : Prop where
  distinct : disk.Distinct
  isDir : disk.kindAt? base = some .dir
  leads_of_kept : ∀ disk' : Node,
    (∀ q, disk.kindAt? q = some .dir → (base <+: q → q = base) → disk'.kindAt? q = some .dir) →
      Leads root base disk'

/-- A path leads to the same directory when that directory is emptied: the way to it does not lead
through it. -/
def Anchored (root : Path) (disk : Node) : Prop :=
  ∀ base, reach disk root = .ok base → reach (disk.put base (.dir [])) root = .ok base

/-- A path without `..` never comes back to a directory that it has left. -/
theorem follow_above {disk : Node} {here place : Place} {pieces : List String}
    (hup : ".." ∉ pieces) (h : follow disk here pieces = .ok place) : here <+: place := by
  induction pieces generalizing here with
  | nil =>
    cases h
    exact List.prefix_refl _
  | cons piece pieces ih =>
    rw [List.mem_cons, not_or] at hup
    rw [follow] at h
    split at h
    · cases h
    · cases h
    · rw [if_neg (Ne.symm hup.1)] at h
      split at h
      · exact ih hup.2 h
      · split at h
        · cases h
        · exact (List.prefix_append here [piece]).trans (ih hup.2 h)

theorem kindAt?_put_empty {disk : Node} (hd : disk.Distinct) {here place : Place}
    (hdir : disk.kindAt? here = some .dir) (habove : here <+: place) :
    (disk.put place (.dir [])).kindAt? here = some .dir := by
  by_cases hbelow : place <+: here
  · obtain rfl := habove.eq_of_length_le hbelow.length_le
    rcases List.eq_nil_or_concat here with rfl | ⟨parent, last, rfl⟩
    · rfl
    · rw [List.concat_eq_append] at hdir ⊢
      rw [kindAt?_put_append hd (kindAt?_eq_dir_above (List.prefix_append parent [last]) hdir)]
      rfl
  · rw [kindAt?_put_of_not_below hd hbelow, hdir]

theorem follow_emptied {disk : Node} (hd : disk.Distinct) {here place : Place}
    {pieces : List String} (hup : ".." ∉ pieces) (h : follow disk here pieces = .ok place) :
    follow (disk.put place (.dir [])) here pieces = .ok place := by
  induction pieces generalizing here with
  | nil => exact h
  | cons piece pieces ih =>
    have habove := follow_above hup h
    rw [List.mem_cons, not_or] at hup
    rw [follow] at h ⊢
    split at h
    · cases h
    · cases h
    next hentries =>
      obtain ⟨entries, hput⟩ := kindAt?_eq_dir_iff.mp
        (kindAt?_put_empty hd (kindAt?_eq_dir_iff.mpr ⟨_, hentries⟩) habove)
      simp only [hput]
      rw [if_neg (Ne.symm hup.1)] at h ⊢
      split at h
      next hidle => rw [if_pos hidle]; exact ih hup.2 h
      next hidle =>
        rw [if_neg hidle]
        split at h
        · cases h
        next hlong => rw [if_neg hlong]; exact ih hup.2 h

/-- A root without `..` in its path is anchored, whatever is on the disk. -/
theorem anchored_of_not_mem {root : Path} {disk : Node} (hd : disk.Distinct)
    (hup : ".." ∉ root.pieces) : Anchored root disk := by
  intro base hbase
  obtain ⟨htext, hfollow⟩ := reach_eq_ok_iff.mp hbase
  exact reach_eq_ok_iff.mpr ⟨htext, follow_emptied hd hup hfollow⟩

namespace Grounded

variable {root : Path} {base : Place} {disk disk' : Node}

theorem leads (h : Grounded root base disk) : Leads root base disk :=
  h.leads_of_kept disk fun _ hq _ => hq

theorem mono (h : Grounded root base disk) (hdistinct : disk'.Distinct)
    (hkept : ∀ q, disk.kindAt? q = some .dir → (base <+: q → q = base) →
      disk'.kindAt? q = some .dir) : Grounded root base disk' where
  distinct := hdistinct
  isDir := hkept base h.isDir fun _ => rfl
  leads_of_kept := fun disk'' h'' =>
    h.leads_of_kept disk'' fun q hq hbase => h'' q (hkept q hq hbase) hbase

/-- A path that leads to a directory also when the directory is empty is grounded there. -/
theorem of_emptied (hdistinct : disk.Distinct) (hdir : disk.kindAt? base = some .dir)
    (hfollow : follow (disk.put base (.dir [])) [] root.pieces = .ok base) :
    Grounded root base disk where
  distinct := hdistinct
  isDir := hdir
  leads_of_kept := by
    intro disk' hkept
    refine (leads_of_follow hfollow).mono ?_
    intro q hq
    have hempty : ∀ name rest, (disk.put base (.dir [])).kindAt? (base ++ name :: rest) = none := by
      intro name rest
      rcases List.eq_nil_or_concat base with rfl | ⟨parent, last, rfl⟩
      · rfl
      · have hparent := kindAt?_eq_dir_above (List.prefix_append parent [last])
          (List.concat_eq_append ▸ hdir)
        rw [List.concat_eq_append, List.append_assoc, List.singleton_append,
          kindAt?_put_append hdistinct hparent]
        rfl
    by_cases hbelow : base <+: q
    · obtain ⟨rest, rfl⟩ := hbelow
      cases rest with
      | nil => exact hkept _ (by simpa using hdir) fun _ => by simp
      | cons name rest => rw [hempty] at hq; cases hq
    · rw [kindAt?_put_of_not_below hdistinct hbelow] at hq
      exact hkept q hq fun h => absurd h hbelow

theorem of_anchored (hdistinct : disk.Distinct) (hdir : disk.kindAt? base = some .dir)
    (hanchored : Anchored root disk) (hbase : reach disk root = .ok base) :
    Grounded root base disk :=
  of_emptied hdistinct hdir (reach_eq_ok_iff.mp (hanchored base hbase)).2

end Grounded

end Disk

end ConfigStore
