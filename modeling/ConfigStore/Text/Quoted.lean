import ConfigStore.Text.Visible

/-!
# Names in messages

A message shows a name between quotation marks, with everything that could be misread written as
an escape: the quotation mark and the backslash get a backslash, tab, line feed, carriage return
and NUL their letters, and a character that does not show itself its code point in braces.
-/

namespace ConfigStore.Quoted

/-- The digits of a number in base sixteen, without leading zeros. -/
def hex (n : Nat) : List Char := Nat.toDigits 16 n

/-- One character as a quoted name shows it. -/
def escape (c : Char) : List Char :=
  match c with
  | '\x00' => ['\\', '0']
  | '\t' => ['\\', 't']
  | '\n' => ['\\', 'n']
  | '\r' => ['\\', 'r']
  | '"' => ['\\', '"']
  | '\\' => ['\\', '\\']
  | c =>
    if Visible.isVisible c then [c]
    else ['\\', 'u', '\x7b'] ++ hex c.toNat ++ ['\x7d']

/-- A name between quotation marks. -/
def quote (name : String) : String :=
  String.ofList ('"' :: name.toList.flatMap escape ++ ['"'])

/-- A list of names, each of them quoted. -/
def quoteList (names : List String) : String :=
  "[" ++ ", ".intercalate (names.map quote) ++ "]"

end ConfigStore.Quoted
