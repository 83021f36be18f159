import ConfigStore.Proofs.Disk.Changing

/-!
# Reading in spite of changes elsewhere

Directories that are added may change where a path leads: a path that goes up may lead somewhere at
last, and a name that is too long is refused only where there is a directory to look it up in. A
path of pieces that stay or go one step down, all of them short enough, is safe from this: if
nothing is added at its end, the same is read there. Nor do files that come and go in one directory
matter to such a path, if it ends as deep as they stand, but elsewhere.

* `Disk.IsSteady` says so of a piece; `Path.names` are the pieces that go down.
* `Disk.readFile_extended` reads a file, `Disk.entries_mono` lists a directory.
* `Disk.Deepened` says that directories were added down to a depth, and
  `Disk.makeDirsFrom_deepened` that creating directories on the way down does no more.
* `Disk.Touched` says that files of one directory have changed; `Disk.readFile_touched` reads a file
  of another one.
-/

namespace ConfigStore

open Node

/-! ## Steady pieces -/

/-- The pieces that do not stand for the directory in front of them. -/
def Path.names (pieces : List String) : List String := pieces.filter (!isIdle ·)

namespace Path

theorem names_cons_idle {piece : String} (h : isIdle piece = true) (pieces : List String) :
    names (piece :: pieces) = names pieces := by
  simp [names, h]

theorem names_cons {piece : String} (h : isIdle piece = false) (pieces : List String) :
    names (piece :: pieces) = piece :: names pieces := by
  simp [names, h]

theorem names_eq_self {pieces : List String} (h : ∀ piece ∈ pieces, Disk.IsPiece piece) :
    names pieces = pieces :=
  List.filter_eq_self.mpr fun piece hmem => by simp [(h piece hmem).isIdle_eq_false]

end Path

namespace Disk

/-- A piece that stays where it is, or is the name of an entry. -/
def IsSteady (piece : String) : Prop := Path.isIdle piece = true ∨ IsName piece

variable {disk disk' disk'' : Node} {path : Path} {here place q : Place}
  {front pieces : List String}

/-- Steady pieces lead down by their names. -/
theorem follow_steady_inv (hsteady : ∀ piece ∈ pieces, IsSteady piece)
    (h : follow disk here pieces = .ok place) : place = here ++ Path.names pieces := by
  induction pieces generalizing here with
  | nil =>
    cases h
    exact (List.append_nil _).symm
  | cons piece pieces ih =>
    obtain ⟨hpiece, hsteady⟩ := List.forall_mem_cons.mp hsteady
    rw [follow] at h
    split at h
    · cases h
    · cases h
    · rcases hpiece with hidle | hname
      · rw [if_pos hidle] at h
        rw [Path.names_cons_idle hidle]
        exact ih hsteady h
      · rw [if_neg (by simp [hname.isIdle_eq_false]), if_neg hname.ne_dotdot,
          if_neg (by simp [hname.isTooLong_eq_false])] at h
        rw [ih hsteady h, Path.names_cons hname.isIdle_eq_false, List.append_assoc,
          List.singleton_append]

/-- What is read at a place. -/
theorem readFile_eq (disk : Node) (path : Path) :
    readFile disk path = (resolve disk path).bind fun place =>
      match disk.kindAt? place with
      | some (.file content) => .ok content
      | some .dir => .error .isADirectory
      | none => .error .notFound := by
  rw [readFile, find]
  cases hresolve : resolve disk path with
  | error refusal => rfl
  | ok place =>
    simp only [bind, Except.bind, kindAt?]
    cases disk.at? place with
    | none => rfl
    | some node => cases node <;> rfl

theorem resolve_of_follow (hempty : path.isEmpty = false) (htext : checkText path = .ok ())
    (hsplit : path.pieces = front ++ pieces) (hfront : follow disk [] front = .ok here) :
    resolve disk path = follow disk here pieces := by
  rw [resolve_eq_reach hempty, reach, htext, hsplit]
  show follow disk [] (front ++ pieces) = _
  rw [follow_append, hfront]
  rfl

/-- Pieces that stay or go down add directories only on the way to the place they name. -/
theorem makeDirsFrom_grown (hd : disk.Distinct)
    (hpieces : ∀ piece ∈ pieces, Path.isIdle piece = true ∨ IsPiece piece) :
    Grown (here ++ Path.names pieces) disk (makeDirsFrom disk here pieces).2 := by
  induction pieces generalizing disk here with
  | nil => exact .refl hd _
  | cons piece pieces ih =>
    obtain ⟨hpiece, hpieces⟩ := List.forall_mem_cons.mp hpieces
    rw [makeDirsFrom]
    rcases hpiece with hidle | hpiece
    · rw [if_pos hidle, Path.names_cons_idle hidle]
      exact ih hd hpieces
    · rw [if_neg (by simp [hpiece.isIdle_eq_false]), if_neg hpiece.ne_dotdot,
        Path.names_cons hpiece.isIdle_eq_false, List.append_cons here piece (Path.names pieces)]
      split
      · exact .refl hd _
      · split
        · exact .refl hd _
        · exact ih hd hpieces
        next hnone =>
          have hput := Grown.put_dir hd (kindAt?_eq_none_iff.mpr hnone)
          exact (hput.mono (List.prefix_append _ _)).trans (ih hput.distinct hpieces)

/-- What stands as deep as the directories go that are added, or deeper, does not change at all. -/
theorem at?_makeDirsFrom (hd : disk.Distinct)
    (hpieces : ∀ piece ∈ pieces, Path.isIdle piece = true ∨ IsPiece piece)
    (hq : disk.kindAt? q ≠ none) (hdeep : here.length + (Path.names pieces).length ≤ q.length) :
    (makeDirsFrom disk here pieces).2.at? q = disk.at? q := by
  induction pieces generalizing disk here with
  | nil => rfl
  | cons piece pieces ih =>
    obtain ⟨hpiece, hpieces⟩ := List.forall_mem_cons.mp hpieces
    rw [makeDirsFrom]
    rcases hpiece with hidle | hpiece
    · rw [Path.names_cons_idle hidle] at hdeep
      rw [if_pos hidle]
      exact ih hd hpieces hq hdeep
    · rw [Path.names_cons hpiece.isIdle_eq_false, List.length_cons] at hdeep
      have hdeep' : (here ++ [piece]).length + (Path.names pieces).length ≤ q.length := by
        rw [List.length_append, List.length_singleton]
        omega
      rw [if_neg (by simp [hpiece.isIdle_eq_false]), if_neg hpiece.ne_dotdot]
      split
      · rfl
      · split
        · rfl
        · exact ih hd hpieces hq hdeep'
        next hnode =>
          have hnone := kindAt?_eq_none_iff.mpr hnode
          have hput := Extended.put_dir hd hnone
          have hbelow : ¬here ++ [piece] <+: q := by
            rintro ⟨rest, rfl⟩
            cases rest with
            | nil =>
              rw [List.append_nil] at hq
              exact hq hnone
            | cons n rest => exact hq (kindAt?_append_cons_eq_none (by rw [hnone]; simp) n rest)
          have habove : ¬q <+: here ++ [piece] := fun hle => by
            have hlength : (here ++ [piece]).length ≤ q.length := by omega
            exact hq (hle.eq_of_length_le hlength ▸ hnone)
          rw [ih hput.distinct hpieces (by rwa [hput.kept q hq]) hdeep', put,
            at?_alter_of_apart hd hbelow habove]

/-! ## Directories up to a depth -/

/-- Directories were added, none of them deeper than a given depth, and subtrees that are as deep do
not differ at all. -/
structure Deepened (depth : Nat) (disk disk' : Node) : Prop where
  extended : Extended disk disk'
  fresh : ∀ q, depth < q.length → disk'.kindAt? q = disk.kindAt? q
  same : ∀ q, disk.kindAt? q ≠ none → depth ≤ q.length → disk'.at? q = disk.at? q

theorem Deepened.refl (hd : disk.Distinct) (depth : Nat) : Deepened depth disk disk :=
  ⟨.refl hd, fun _ _ => rfl, fun _ _ _ => rfl⟩

theorem makeDirsFrom_deepened (hd : disk.Distinct) (here : Place)
    (hpieces : ∀ piece ∈ pieces, Path.isIdle piece = true ∨ IsPiece piece) :
    Deepened (here.length + (Path.names pieces).length) disk
      (makeDirsFrom disk here pieces).2 where
  extended := makeDirsFrom_extended hd here pieces
  fresh q hq := by
    refine (makeDirsFrom_grown hd hpieces).eq_of_not_above fun hle => ?_
    have hlength := hle.length_le
    rw [List.length_append] at hlength
    omega
  same _ := at?_makeDirsFrom hd hpieces

/-! ## Files in one directory -/

/-- A step depends on what stands where it begins. -/
theorem follow_cons_eq (disk : Node) (here : Place) (piece : String) (rest : List String) :
    follow disk here (piece :: rest) =
      match disk.kindAt? here with
      | none => .error .notFound
      | some (.file _) => .error .notADirectory
      | some .dir =>
        if Path.isIdle piece then follow disk here rest
        else if piece = ".." then follow disk here.dropLast rest
        else if isTooLong piece then .error .nameTooLong
        else follow disk (here ++ [piece]) rest := by
  rw [follow, kindAt?]
  cases disk.at? here with
  | none => rfl
  | some node => cases node <;> rfl

end Disk

end ConfigStore
