/-!
# Paths

A path is kept as it is written: as the list of the pieces between its slashes. Nothing is
normalized, so a path can be written out again exactly; a piece may be empty, `.` or `..`. An
absolute path has an empty first piece, and a path that ends in a slash has an empty last piece.

* `Path.ofText` and `Path.toText` read and write paths; `Path.toText_ofText` says that nothing gets
  lost.
* `Path.byteLength` is the length of the text of a path in bytes.
* `Path.join` continues a path by another one, `Path.parent` goes one step up.
* `Path.isEmpty` says that a path has no text; `Path.isEmpty_iff` is its law.
-/

namespace ConfigStore

/-- The pieces of a path, from the first to the last. -/
structure Path where
  /-- What stands between the slashes. -/
  pieces : List String
  deriving DecidableEq, Repr, Inhabited

namespace Path

/-! ## Reading and writing -/

/-- The pieces of a text between its slashes. -/
def cut (text : List Char) : List (List Char) :=
  text.foldr (fun c pieces => if c = '/' then [] :: pieces else pieces.modifyHead (c :: ·)) [[]]

/-- The text of pieces with a slash between one and the next. -/
def glue (pieces : List (List Char)) : List Char := ['/'].intercalate pieces

/-- Reads a path. -/
def ofText (text : String) : Path := ⟨(cut text.toList).map String.ofList⟩

/-- Writes a path. -/
def toText (p : Path) : String := String.ofList (glue (p.pieces.map String.toList))

theorem cut_cons (c : Char) (text : List Char) :
    cut (c :: text) = if c = '/' then [] :: cut text else (cut text).modifyHead (c :: ·) := rfl

theorem cut_ne_nil (text : List Char) : cut text ≠ [] := by
  induction text with
  | nil => exact List.cons_ne_nil _ _
  | cons c text ih =>
    rw [cut_cons]
    split
    · exact List.cons_ne_nil _ _
    · simpa using ih

theorem glue_cons (piece : List Char) {pieces : List (List Char)} (h : pieces ≠ []) :
    glue (piece :: pieces) = piece ++ '/' :: glue pieces := by
  obtain ⟨next, rest, rfl⟩ := List.exists_cons_of_ne_nil h
  simp [glue, List.intercalate]

theorem glue_modifyHead (c : Char) {pieces : List (List Char)} (h : pieces ≠ []) :
    glue (pieces.modifyHead (c :: ·)) = c :: glue pieces := by
  obtain ⟨piece, rest, rfl⟩ := List.exists_cons_of_ne_nil h
  cases rest <;> simp [glue, List.intercalate]

theorem glue_cut (text : List Char) : glue (cut text) = text := by
  induction text with
  | nil => rfl
  | cons c text ih =>
    rw [cut_cons]
    split
    next h => rw [glue_cons _ (cut_ne_nil text), ih, h, List.nil_append]
    next => rw [glue_modifyHead _ (cut_ne_nil text), ih]

/-- A path is written as it was read. -/
@[simp]
theorem toText_ofText (text : String) : (ofText text).toText = text := by
  simp [ofText, toText, Function.comp_def, glue_cut]

theorem cut_eq_singleton {text : List Char} (h : '/' ∉ text) : cut text = [text] := by
  induction text with
  | nil => rfl
  | cons c text ih =>
    have hc : c ≠ '/' := fun hc => h (hc ▸ List.mem_cons_self ..)
    rw [cut_cons, if_neg hc, ih fun hm => h (List.mem_cons_of_mem _ hm)]
    rfl

/-- A text without a slash is a path of one piece. -/
theorem ofText_of_not_mem {text : String} (h : '/' ∉ text.toList) : ofText text = ⟨[text]⟩ := by
  simp [ofText, cut_eq_singleton h]

/-! ## Length -/

/-- How many bytes the text of a path has: those of its pieces, and one for the slash in front of
every piece but the first. -/
def byteLength (p : Path) : Nat :=
  p.pieces.foldr (fun piece n => piece.utf8ByteSize + 1 + n) 0 - 1

theorem utf8ByteSize_glue_succ {pieces : List String} (h : pieces ≠ []) :
    (String.ofList (glue (pieces.map String.toList))).utf8ByteSize + 1 =
      pieces.foldr (fun piece n => piece.utf8ByteSize + 1 + n) 0 := by
  induction pieces with
  | nil => exact absurd rfl h
  | cons piece pieces ih =>
    cases pieces with
    | nil => simp [glue]
    | cons next rest =>
      have hglue : glue ((piece :: next :: rest).map String.toList) =
          piece.toList ++ '/' :: glue ((next :: rest).map String.toList) :=
        glue_cons _ (List.cons_ne_nil _ _)
      have ih := ih (List.cons_ne_nil _ _)
      rw [hglue]
      generalize glue ((next :: rest).map String.toList) = text at ih ⊢
      rw [List.foldr_cons, ← ih, String.ofList_append, String.ofList_cons,
        String.ofList_toList, String.utf8ByteSize_append, String.utf8ByteSize_append,
        String.utf8ByteSize_singleton]
      have hslash : Char.utf8Size '/' = 1 := rfl
      omega

/-- The length of a path is the length of its text. -/
theorem utf8ByteSize_toText (p : Path) : p.toText.utf8ByteSize = p.byteLength := by
  obtain ⟨pieces⟩ := p
  cases pieces with
  | nil => rfl
  | cons piece pieces =>
    have h := utf8ByteSize_glue_succ (List.cons_ne_nil piece pieces)
    simp only [toText, byteLength]
    omega

/-! ## Steps -/

/-- Whether a path has no text at all. -/
def isEmpty (p : Path) : Bool :=
  match p.pieces with
  | [] | [""] => true
  | _ => false

theorem isEmpty_iff (p : Path) : p.isEmpty = true ↔ p.toText = "" := by
  obtain ⟨pieces⟩ := p
  rw [toText, ← String.ofList_nil, String.ofList_inj]
  match pieces with
  | [] => simp [isEmpty, glue]
  | [piece] =>
    by_cases hpiece : piece = ""
    · subst hpiece; simp [isEmpty, glue]
    · simp [isEmpty, glue, hpiece]
  | piece :: next :: rest =>
    have hglue : glue (piece.toList :: next.toList :: rest.map String.toList) ≠ [] := by
      rw [glue_cons _ (List.cons_ne_nil _ _)]
      simp
    simpa [isEmpty] using hglue

/-- Whether a path begins with a slash. -/
def isAbsolute (p : Path) : Bool :=
  match p.pieces with
  | "" :: _ :: _ => true
  | _ => false

/-- Whether a path ends in a slash. -/
def endsInSlash (p : Path) : Bool := p.pieces.length > 1 && p.pieces.getLast? == some ""

/-- Continues a path by another one. An absolute path replaces what stands before it; otherwise
there is one slash between the two. -/
def append (p q : Path) : Path :=
  if q.isAbsolute then q
  else if p.pieces.getLast? = some "" then ⟨p.pieces.dropLast ++ q.pieces⟩
  else ⟨p.pieces ++ q.pieces⟩

/-- Continues a path by a path that is given as text. -/
def join (p : Path) (text : String) : Path := p.append (ofText text)

/-- Whether a piece stands for the directory in front of it. -/
def isIdle (piece : String) : Bool := piece == "" || piece == "."

/-- The pieces of a path without idle ones at the end. -/
def trimIdle (pieces : List String) : List String := (pieces.reverse.dropWhile isIdle).reverse

/-- The path without the slashes at its end. -/
def trimSlash (p : Path) : Path := ⟨(p.pieces.reverse.dropWhile (· == "")).reverse⟩

/-- Whether a path ends in the piece `.`, slashes at the end aside. -/
def endsInDot (p : Path) : Bool := p.trimSlash.pieces.getLast? == some "."

/-- The path without its last name. -/
def parent (p : Path) : Path := ⟨trimIdle (trimIdle p.pieces).dropLast⟩

end Path

end ConfigStore
