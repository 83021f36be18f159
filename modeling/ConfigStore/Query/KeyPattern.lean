import ConfigStore.Text.CaseFolding

/-!
# Key patterns

A query for keys is a literal key, `beginWith(text)` for the keys that begin with a text, or
`wildcard(text)` where each `*` in the text stands for any characters. Any other character stands
for itself. "Any characters" never cross a line break.

* `KeyPattern.parse` reads a query.
* `KeyPattern.pieces` takes a pattern apart into characters and gaps, and `Piece.accepts` says
  whether a text is made up of such pieces.
* `KeyPattern.describes` tests a key, up to case if asked for.
-/

namespace ConfigStore

/-- What a query for keys asks for. -/
inductive KeyPattern
  /-- The key itself. -/
  | exact (key : String)
  /-- Any key that begins with a text. -/
  | beginWith (text : String)
  /-- Any key that a text with gaps describes. -/
  | wildcard (text : String)
  deriving DecidableEq, Repr

/-- A piece of a pattern. -/
inductive Piece
  /-- One character. -/
  | char (c : Char)
  /-- Any number of characters other than a line break. -/
  | gap
  deriving DecidableEq, Repr

namespace Piece

/-! ## Matching

For a text the verdicts of a pattern are listed for every end of the text: for the whole text, for
the text without its first character, and so on down to the empty text. They are computed from the
verdicts of the pattern without its first piece, so matching takes a number of steps proportional to
the product of both lengths. -/

/-- The verdicts of no piece at all: only the empty text is described. -/
def endVerdicts : List Char → List Bool
  | [] => [true]
  | _ :: xs => false :: endVerdicts xs

/-- The verdicts of a character in front of a pattern. -/
def charVerdicts (c : Char) : List Char → List Bool → List Bool
  | x :: xs, _ :: vs => (x == c && vs.headD false) :: charVerdicts c xs vs
  | _, _ => [false]

/-- The verdicts of a gap in front of a pattern. -/
def gapVerdicts : List Char → List Bool → List Bool
  | x :: xs, v :: vs =>
    let rest := gapVerdicts xs vs
    (v || (x != '\n' && rest.headD false)) :: rest
  | _, vs => vs

/-- The verdicts of a pattern for every end of a text. -/
def verdicts (text : List Char) : List Piece → List Bool
  | [] => endVerdicts text
  | .char c :: ps => charVerdicts c text (verdicts text ps)
  | .gap :: ps => gapVerdicts text (verdicts text ps)

/-- Whether a text is made up of the pieces of a pattern, one after the other. -/
def accepts (pieces : List Piece) (text : List Char) : Bool := (verdicts text pieces).headD false

/-- Applies a function to the character of a piece. -/
def mapChar (f : Char → Char) : Piece → Piece
  | .char c => .char (f c)
  | .gap => .gap

end Piece

namespace KeyPattern

/-- The text between an opening and a closing parenthesis at the very end. -/
def enclosed? (opening : String) (text : String) : Option String :=
  if opening.toList.isPrefixOf text.toList then
    let rest := text.toList.drop opening.length
    if rest.getLast? = some ')' then some (String.ofList rest.dropLast) else none
  else none

/-- Reads a query for keys; whatever is not spelled as one of the two special forms is a literal
key. -/
def parse (query : String) : KeyPattern :=
  match enclosed? "beginWith(" query, enclosed? "wildcard(" query with
  | some text, _ => .beginWith text
  | none, some text => .wildcard text
  | none, none => .exact query

/-- The text within a pattern. -/
def inner : KeyPattern → String
  | .exact text | .beginWith text | .wildcard text => text

/-- The pieces of a pattern. -/
def pieces : KeyPattern → List Piece
  | .exact text => text.toList.map .char
  | .beginWith text => text.toList.map .char ++ [.gap]
  | .wildcard text => text.toList.map fun c => if c = '*' then .gap else .char c

/-- Whether a pattern describes a key. Unless case counts, characters that differ only in case are
taken for one another. -/
def describes (p : KeyPattern) (caseSensitive : Bool) (key : String) : Bool :=
  if caseSensitive then Piece.accepts p.pieces key.toList
  else
    Piece.accepts (p.pieces.map (Piece.mapChar CaseFolding.fold)) (key.toList.map CaseFolding.fold)

end KeyPattern

end ConfigStore
