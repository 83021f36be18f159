/-!
# Numbers and words read from text

Settings and counters are kept as plain text. This file reads decimal numbers and truth values
from text, and strips blank characters from the ends of a text.

* `Numeral.natural?` reads a number without a minus sign, with the reason of a failure.
* `Numeral.integer?` reads a signed number.
* `Numeral.truth?` reads `true` or `false`.
* `Numeral.trim` drops blanks at both ends.
-/

namespace ConfigStore.Numeral

/-! ## Digits -/

/-- The value of a decimal digit. -/
def digit? (c : Char) : Option Nat :=
  if '0' ≤ c ∧ c ≤ '9' then some (c.toNat - '0'.toNat) else none

/-- Why a text is no number. -/
inductive Flaw
  /-- There is nothing to read. -/
  | empty
  /-- A character is no digit, or a sign stands alone. -/
  | invalidDigit
  /-- The value is above the limit. -/
  | tooLarge
  deriving DecidableEq, Repr

/-- What is wrong, in words. -/
def Flaw.message : Flaw → String
  | .empty => "cannot parse integer from empty string"
  | .invalidDigit => "invalid digit found in string"
  | .tooLarge => "number too large to fit in target type"

/-- Reads digits from left to right onto `acc` and stops at the first that is none or that makes
the value exceed `limit`. -/
def readDigits (limit acc : Nat) : List Char → Except Flaw Nat
  | [] => .ok acc
  | c :: cs =>
    match digit? c with
    | none => .error .invalidDigit
    | some d =>
      if limit < acc * 10 + d then .error .tooLarge else readDigits limit (acc * 10 + d) cs

/-- Reads at least one digit. -/
def magnitude (limit : Nat) : List Char → Except Flaw Nat
  | [] => .error .invalidDigit
  | c :: cs => readDigits limit 0 (c :: cs)

/-- Reads a number of at most `limit`; a plus sign may stand before it. -/
def natural? (limit : Nat) (text : String) : Except Flaw Nat :=
  match text.toList with
  | [] => .error .empty
  | '+' :: cs => magnitude limit cs
  | cs => magnitude limit cs

/-- Reads a number that fits in 64 bits with a sign; a plus or minus sign may stand before it. -/
def integer? (text : String) : Except Flaw Int64 :=
  match text.toList with
  | [] => .error .empty
  | '+' :: cs => (magnitude Int64.maxValue.toInt.toNat cs).map (Int64.ofNat ·)
  | '-' :: cs => (magnitude Int64.minValue.toInt.natAbs cs).map fun n => Int64.ofInt (-(n : Int))
  | cs => (magnitude Int64.maxValue.toInt.toNat cs).map (Int64.ofNat ·)

/-- Reads one of the words `true` and `false`. -/
def truth? (text : String) : Option Bool :=
  if text = "true" then some true else if text = "false" then some false else none

/-! ## Blanks -/

/-- The blank characters of the Unicode standard. -/
def isBlank (c : Char) : Bool :=
  let n := c.toNat
  (0x09 ≤ n && n ≤ 0x0D) || n == 0x20 || n == 0x85 || n == 0xA0 || n == 0x1680
    || (0x2000 ≤ n && n ≤ 0x200A) || n == 0x2028 || n == 0x2029 || n == 0x202F || n == 0x205F
    || n == 0x3000

/-- A text without the blanks at its ends. -/
def trim (text : String) : String :=
  let front := text.toList.dropWhile isBlank
  String.ofList (front.reverse.dropWhile isBlank).reverse

end ConfigStore.Numeral
