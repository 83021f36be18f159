import ConfigStore.Query.KeyPattern

/-!
# Key patterns as regular expressions

A key pattern is compiled to the text of a regular expression that is anchored at both ends. The
characters that have a meaning of their own in such a text are escaped, and then every escaped star
of a text with gaps becomes `.*`.

* `KeyPattern.expression` is the text that a pattern is compiled to.
* `Expression.ofText?` reads a text of that kind. It knows the flag for letters of either case, the
  anchors, escaped characters, characters that stand for themselves, and `.*`; it refuses whatever
  else a regular expression may hold.
* `Expression.accepts` says which keys are matched.

What an expression may take up when it is compiled is not limited here, as it is in an engine for
regular expressions: there a query is refused if its text is too long for that limit.
-/

namespace ConfigStore

/-- A regular expression of the kind that key patterns are compiled to: between the anchors it has
nothing but characters and gaps. -/
structure Expression where
  /-- Whether characters that differ only in case are taken for one another. -/
  ignoresCase : Bool
  /-- What stands between the anchors. -/
  pieces : List Piece
  deriving DecidableEq, Repr

namespace Expression

/-! ## Writing -/

/-- The characters that have a meaning of their own. -/
def isSpecial (c : Char) : Bool :=
  ['\\', '.', '+', '*', '?', '(', ')', '|', '[', ']', '{', '}', '^', '$', '#', '&', '-',
    '~'].contains c

/-- Puts a backslash in front of every character that has a meaning of its own. -/
def escape : List Char → List Char
  | [] => []
  | c :: cs => if isSpecial c then '\\' :: c :: escape cs else c :: escape cs

/-- Replaces every `\*` by `.*`, from the left to the right. -/
def openStars : List Char → List Char
  | '\\' :: '*' :: cs => '.' :: '*' :: openStars cs
  | c :: cs => c :: openStars cs
  | [] => []

/-! ## Reading -/

/-- Reads what stands between the anchors, up to the closing one. -/
def readPieces : List Char → Option (List Piece)
  | [] => none
  | ['$'] => some []
  | '\\' :: c :: cs => if isSpecial c then (readPieces cs).map (.char c :: ·) else none
  | '.' :: '*' :: cs => (readPieces cs).map (.gap :: ·)
  | c :: cs => if isSpecial c then none else (readPieces cs).map (.char c :: ·)

/-- Reads an expression. -/
def ofText? (text : String) : Option Expression :=
  match text.toList with
  | '(' :: '?' :: 'i' :: ')' :: '^' :: cs => (readPieces cs).map (⟨true, ·⟩)
  | '^' :: cs => (readPieces cs).map (⟨false, ·⟩)
  | _ => none

/-! ## Matching -/

/-- Whether a key is matched from its beginning to its end. -/
def accepts (e : Expression) (key : String) : Bool :=
  if e.ignoresCase then
    Piece.accepts (e.pieces.map (Piece.mapChar CaseFolding.fold)) (key.toList.map CaseFolding.fold)
  else Piece.accepts e.pieces key.toList

end Expression

namespace KeyPattern

/-- What a pattern is compiled to, without the anchors. -/
def body : KeyPattern → List Char
  | .exact text => Expression.escape text.toList
  | .beginWith text => Expression.escape text.toList ++ ['.', '*']
  | .wildcard text => Expression.openStars (Expression.escape text.toList)

/-- The text of the regular expression that a pattern is compiled to. -/
def expression (p : KeyPattern) (caseSensitive : Bool) : String :=
  (if caseSensitive then "" else "(?i)") ++ "^" ++ String.ofList p.body ++ "$"

end KeyPattern

end ConfigStore
