import ConfigStore.Decimal.Shortest
import ConfigStore.Text.Utf8

/-!
# JSON values and their text

A JSON value, and the one compact text in which this library writes it: no blanks, members in the
order in which they are listed, the fewest escapes.

* `Json.Value` is the type of values.
* `Json.Value.render` is the text of a value and `Json.Value.encode` its bytes.
* `Json.Value.Canonical` says that every object within a value lists its members in strictly
  ascending order of their names.
-/

namespace ConfigStore.Json

/-- A number: an integer is kept exactly, any other number is a double. -/
inductive Number
  | integer (n : Int)
  | double (x : Binary64)
  deriving DecidableEq, Inhabited

/-- A JSON value. -/
inductive Value
  | null
  | bool (b : Bool)
  | number (n : Number)
  | string (s : String)
  | array (items : List Value)
  | object (members : List (String × Value))
  deriving Inhabited

/-! ## Numbers -/

/-- The text of a double: the shortest digits that read back, always with a point or an exponent.
From 0.00001 up to below 10^16 the number is written out; otherwise the first digit stands before
the point and the exponent has a sign. -/
def doubleText (x : Binary64) : List Char :=
  let sign := if x.negative then ['-'] else []
  if x.mantissa = 0 then sign ++ "0.0".toList
  else
    let shortest := Shortest.decimal x
    let digits := Nat.toDigits 10 shortest.digits
    let point := (digits.length : Int) + shortest.power
    let zeros (n : Int) : List Char := List.replicate n.toNat '0'
    sign ++
      if 0 ≤ shortest.power ∧ point ≤ 16 then digits ++ zeros shortest.power ++ ['.', '0']
      else if 0 < point ∧ point ≤ 16 then
        digits.take point.toNat ++ '.' :: digits.drop point.toNat
      else if -5 < point ∧ point ≤ 0 then ['0', '.'] ++ zeros (-point) ++ digits
      else
        let fraction := match digits.drop 1 with
          | [] => []
          | rest => '.' :: rest
        let mark := if point - 1 < 0 then ['e', '-'] else ['e', '+']
        digits.take 1 ++ fraction ++ mark ++ Nat.toDigits 10 (point - 1).natAbs

/-- The text of an integer. -/
def integerText (n : Int) : List Char :=
  if n < 0 then '-' :: Nat.toDigits 10 n.natAbs else Nat.toDigits 10 n.natAbs

/-- The text of a number. -/
def numberText : Number → List Char
  | .integer n => integerText n
  | .double x => doubleText x

/-! ## Strings -/

/-- One character inside a JSON string: quotation mark, backslash and the controls below U+0020 are
escaped, everything else stands as it is. -/
def escapeChar (c : Char) : List Char :=
  match c with
  | '"' => ['\\', '"']
  | '\\' => ['\\', '\\']
  | '\n' => ['\\', 'n']
  | '\r' => ['\\', 'r']
  | '\t' => ['\\', 't']
  | '\x08' => ['\\', 'b']
  | '\x0c' => ['\\', 'f']
  | c =>
    if c.toNat < 0x20 then
      ['\\', 'u', '0', '0', Nat.digitChar (c.toNat / 16), Nat.digitChar (c.toNat % 16)]
    else [c]

/-- A string between quotation marks. -/
def stringText (s : String) : List Char :=
  '"' :: s.toList.flatMap escapeChar ++ ['"']

/-! ## Values -/

namespace Value

mutual

/-- The compact text of a value. -/
def render : Value → List Char
  | .null => ['n', 'u', 'l', 'l']
  | .bool true => ['t', 'r', 'u', 'e']
  | .bool false => ['f', 'a', 'l', 's', 'e']
  | .number n => numberText n
  | .string s => stringText s
  | .array [] => ['[', ']']
  | .array (v :: rest) => '[' :: (render v ++ renderItems rest)
  | .object [] => ['\x7b', '\x7d']
  | .object ((name, v) :: rest) =>
    '\x7b' :: (stringText name ++ ':' :: (render v ++ renderMembers rest))

/-- The items after the first one, and the end of the array. -/
def renderItems : List Value → List Char
  | [] => [']']
  | v :: rest => ',' :: (render v ++ renderItems rest)

/-- The members after the first one, and the end of the object. -/
def renderMembers : List (String × Value) → List Char
  | [] => ['\x7d']
  | (name, v) :: rest => ',' :: (stringText name ++ ':' :: (render v ++ renderMembers rest))

end

/-- The compact text of a value as a string. -/
def text (v : Value) : String := String.ofList v.render

/-- The bytes of the compact text of a value. -/
def encode (v : Value) : Bytes := Utf8.encodeChars v.render

mutual

/-- Every object within the value lists its members in strictly ascending order of their names. -/
def Canonical : Value → Prop
  | .array items => CanonicalItems items
  | .object members => members.Pairwise (·.1 < ·.1) ∧ CanonicalMembers members
  | _ => True

/-- Every item is canonical. -/
def CanonicalItems : List Value → Prop
  | [] => True
  | v :: rest => Canonical v ∧ CanonicalItems rest

/-- The value of every member is canonical. -/
def CanonicalMembers : List (String × Value) → Prop
  | [] => True
  | (_, v) :: rest => Canonical v ∧ CanonicalMembers rest

end

end Value

end ConfigStore.Json
