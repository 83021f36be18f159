import ConfigStore.Json.Value

/-!
# What a text says, up to where it stops being JSON

Whether a faulty text is reported as malformed, as cut short or as saying the wrong thing depends
on what its reader asks for, and in which order. A `Reading` is therefore a value with the place of
the fault left in it: everything before the first break of the grammar is there, and the fault
stands where the text breaks off. The reader of a record walks through the reading in the order of
the text and reports the first fault that concerns it.

Two faults depend on whether a part is wanted or passed over: the content of a string (lone
surrogates, bytes that are not UTF-8) and the size of a number matter only to a reader that wants
them, and so does the depth of nesting.

* `Reading.ofBytes` reads a text.
* `Quoted.content` is the content of a string, `Numeral.value` the value of a number.
* `Reading.skip?` is the fault that passing over a part meets, if there is one.
-/

namespace ConfigStore.Json

/-- What is wrong with a text. -/
inductive Fault
  /-- The text is not JSON, or holds a string or number that nothing can hold. -/
  | malformed
  /-- The text ends too early. -/
  | truncated
  /-- The text is JSON but says something of the wrong shape. -/
  | mismatched
  deriving DecidableEq, Repr

/-! ## Parts of a reading -/

/-- A piece of a string: a byte, or the number of a `\u` escape. -/
inductive Piece
  | byte (b : UInt8)
  | unit (n : Nat)
  deriving DecidableEq

/-- A string: its pieces up to the closing quotation mark, or up to a fault. -/
structure Quoted where
  /-- The pieces in order. -/
  pieces : List Piece
  /-- The fault at which the string breaks off. -/
  stop : Option Fault
  deriving DecidableEq

/-- A number as it is spelled. -/
structure Numeral where
  /-- Whether a minus sign stands before the number. -/
  negative : Bool
  /-- The digits before the point. -/
  whole : List Nat
  /-- The digits after the point, if there is a point. -/
  fraction : Option (List Nat)
  /-- Whether the exponent is negative and its digits, if there is an exponent. -/
  exponent : Option (Bool × List Nat)
  deriving DecidableEq

/-- A value with the place of a fault left in it. In `array` and `object` a fault `stop` stands
where a comma or the end was due. -/
inductive Reading
  | null
  | bool (b : Bool)
  /-- A number; in place of one that breaks off, the fault that a reader who wants it meets. -/
  | number (spelled : Except Fault Numeral)
  | string (s : Quoted)
  | array (items : List Reading) (stop : Option Fault)
  | object (members : List (Quoted × Reading)) (stop : Option Fault)
  /-- No value begins here. -/
  | broken (fault : Fault)

/-! ## Strings -/

/-- The byte of an ASCII character. -/
abbrev code (c : Char) : UInt8 := c.toUInt8

/-- The byte that an escape of one letter stands for. -/
def escapedByte? (b : UInt8) : Option UInt8 :=
  if b = code '"' ∨ b = code '\\' ∨ b = code '/' then some b
  else if b = code 'b' then some 0x08
  else if b = code 'f' then some 0x0C
  else if b = code 'n' then some 0x0A
  else if b = code 'r' then some 0x0D
  else if b = code 't' then some 0x09
  else none

/-- The value of a hexadecimal digit. -/
def hexDigit? (b : UInt8) : Option Nat :=
  let n := b.toNat
  if 0x30 ≤ n ∧ n ≤ 0x39 then some (n - 0x30)
  else if 0x41 ≤ n ∧ n ≤ 0x46 then some (n - 0x41 + 10)
  else if 0x61 ≤ n ∧ n ≤ 0x66 then some (n - 0x61 + 10)
  else none

/-- The number of four hexadecimal digits. -/
def hexUnit? (a b c d : UInt8) : Option Nat := do
  return (((← hexDigit? a) * 16 + (← hexDigit? b)) * 16 + (← hexDigit? c)) * 16 + (← hexDigit? d)

/-- Puts a piece in front of a string. -/
def Quoted.cons (p : Piece) (s : Quoted) : Quoted := { s with pieces := p :: s.pieces }

/-- Reads a string after its opening quotation mark, and gives what follows it. -/
def readString : Bytes → Quoted × Bytes
  | [] => (⟨[], some .truncated⟩, [])
  | b :: rest =>
    if b = code '"' then (⟨[], none⟩, rest)
    else if b = code '\\' then
      match rest with
      | [] => (⟨[], some .truncated⟩, [])
      | e :: rest =>
        if e = code 'u' then
          match rest with
          | h₁ :: h₂ :: h₃ :: h₄ :: rest =>
            match hexUnit? h₁ h₂ h₃ h₄ with
            | some n => let (s, after) := readString rest; (s.cons (.unit n), after)
            | none => (⟨[], some .malformed⟩, [])
          | _ => (⟨[], some .truncated⟩, [])
        else
          match escapedByte? e with
          | some e => let (s, after) := readString rest; (s.cons (.byte e), after)
          | none => (⟨[], some .malformed⟩, [])
    else if b.toNat < 0x20 then (⟨[], some .malformed⟩, [])
    else let (s, after) := readString rest; (s.cons (.byte b), after)

/-- Whether a number is the first half of a surrogate pair. -/
def isHighSurrogate (n : Nat) : Bool := 0xD800 ≤ n && n ≤ 0xDBFF

/-- Whether a number is the second half of a surrogate pair. -/
def isLowSurrogate (n : Nat) : Bool := 0xDC00 ≤ n && n ≤ 0xDFFF

/-- The character of a surrogate pair. -/
def pairChar (high low : Nat) : Char :=
  Char.ofNat (0x10000 + (high - 0xD800) * 0x400 + (low - 0xDC00))

/-- The bytes that pieces stand for. A half of a surrogate pair must be followed by its other
half. -/
def pieceBytes (stop : Option Fault) : List Piece → Except Fault Bytes
  | [] => match stop with
    | none => .ok []
    | some fault => .error fault
  | .byte b :: rest => (pieceBytes stop rest).map (b :: ·)
  | .unit n :: rest =>
    if isLowSurrogate n then .error .malformed
    else if isHighSurrogate n then
      match rest with
      | .unit m :: rest =>
        if isLowSurrogate m then
          (pieceBytes stop rest).map (String.utf8EncodeChar (pairChar n m) ++ ·)
        else .error .malformed
      | .byte _ :: _ => .error .malformed
      | [] => .error (stop.getD .malformed)
    else (pieceBytes stop rest).map (String.utf8EncodeChar (Char.ofNat n) ++ ·)

/-- The content of a string; its bytes must be UTF-8. -/
def Quoted.content (s : Quoted) : Except Fault String := do
  match Utf8.decode? (← pieceBytes s.stop s.pieces) with
  | some text => .ok text
  | none => .error .malformed

/-! ## Numbers -/

/-- The value of a decimal digit. -/
def digit? (b : UInt8) : Option Nat :=
  if 0x30 ≤ b.toNat ∧ b.toNat ≤ 0x39 then some (b.toNat - 0x30) else none

/-- The digits at the front of a text, and what follows them. -/
def readDigits : Bytes → List Nat × Bytes
  | [] => ([], [])
  | b :: rest =>
    match digit? b with
    | some d => let (ds, after) := readDigits rest; (d :: ds, after)
    | none => ([], b :: rest)

/-- The fault of a number that needs a digit here. -/
def digitFault : Bytes → Fault
  | [] => .truncated
  | _ => .malformed

/-- Reads at least one digit. -/
def readDigits₁ (text : Bytes) : Except Fault (List Nat × Bytes) :=
  match readDigits text with
  | ([], after) => .error (digitFault after)
  | (ds, after) => .ok (ds, after)

/-- Reads the digits before the point: a zero stands alone. -/
def readWhole (text : Bytes) : Except Fault (List Nat × Bytes) := do
  match ← readDigits₁ text with
  | (0 :: _ :: _, _) => .error .malformed
  | whole => .ok whole

/-- Reads the point and the digits after it, if there is a point. -/
def readFraction : Bytes → Except Fault (Option (List Nat) × Bytes)
  | [] => .ok (none, [])
  | b :: rest =>
    if b = code '.' then (readDigits₁ rest).map fun (ds, after) => (some ds, after)
    else .ok (none, b :: rest)

/-- Reads the sign and the digits of an exponent, after its letter. -/
def readPower (text : Bytes) : Except Fault ((Bool × List Nat) × Bytes) :=
  match text with
  | b :: rest =>
    if b = code '+' then (readDigits₁ rest).map fun (ds, after) => ((false, ds), after)
    else if b = code '-' then (readDigits₁ rest).map fun (ds, after) => ((true, ds), after)
    else (readDigits₁ text).map fun (ds, after) => ((false, ds), after)
  | [] => .error .truncated

/-- Reads the exponent, if there is one. -/
def readExponent : Bytes → Except Fault (Option (Bool × List Nat) × Bytes)
  | [] => .ok (none, [])
  | b :: rest =>
    if b = code 'e' ∨ b = code 'E' then (readPower rest).map fun (p, after) => (some p, after)
    else .ok (none, b :: rest)

/-- Reads a number after its sign. -/
def readUnsigned (negative : Bool) (text : Bytes) : Except Fault (Numeral × Bytes) := do
  let (whole, text) ← readWhole text
  let (fraction, text) ← readFraction text
  let (exponent, text) ← readExponent text
  return (⟨negative, whole, fraction, exponent⟩, text)

/-- Reads a number, and gives what follows it. -/
def readNumber (text : Bytes) : Reading × Bytes :=
  let spelled := match text with
    | b :: rest => if b = code '-' then readUnsigned true rest else readUnsigned false text
    | [] => .error .truncated
  match spelled with
  | .ok (numeral, after) => (.number (.ok numeral), after)
  | .error fault => (.number (.error fault), [])

/-- The greatest number that the digits of a number may come to before digits are dropped. -/
def maxDigits : Nat := UInt64.size - 1

/-- Takes digits onto `acc` as long as the value stays within `maxDigits`; gives the value and the
digits left over. -/
def takeDigits (acc : Nat) : List Nat → Nat × List Nat
  | [] => (acc, [])
  | d :: ds => if maxDigits < acc * 10 + d then (acc, d :: ds) else takeDigits (acc * 10 + d) ds

/-- The number that digits spell. -/
def digitsValue (digits : List Nat) : Nat := digits.foldl (fun acc d => acc * 10 + d) 0

/-- The value of a number. An integer that fits in 64 bits (with a sign if it is negative) is kept
exactly, any other number becomes a double; minus zero is a double. Digits beyond the first that
fit in 64 bits do not count. A number beyond the largest double is refused. -/
def Numeral.value (n : Numeral) : Except Fault Number :=
  let (whole, dropped) := takeDigits 0 n.whole
  match n.fraction, n.exponent, dropped with
  | none, none, [] =>
    if !n.negative then .ok (.integer whole)
    else if whole ≠ 0 ∧ Int64.minValue.toInt ≤ -whole then .ok (.integer (-whole))
    else scaled whole 0
  | fraction, exponent, dropped =>
    let digits := fraction.getD []
    let (significand, unread) := takeDigits whole digits
    let shift : Int := match exponent with
      | none => 0
      | some (true, power) => -(digitsValue power : Int)
      | some (false, power) => digitsValue power
    scaled significand ((dropped.length : Int) - (digits.length - unread.length : Nat) + shift)
where
  /-- The double of digits and a power of ten. -/
  scaled (digits : Nat) (power : Int) : Except Fault Number :=
    match Binary64.ofScientific? n.negative digits power with
    | some x => .ok (.double x)
    | none => .error .malformed

/-! ## Values -/

/-- Whether a byte is blank between the tokens of a text. -/
def isBlank (b : UInt8) : Bool := b == 0x20 || b == 0x0A || b == 0x0D || b == 0x09

/-- Drops the blanks at the front of a text. -/
def skipBlanks (text : Bytes) : Bytes := text.dropWhile isBlank

/-- Reads the rest of a word that has one spelling only. -/
def readWord (word : List Char) (meaning : Reading) (text : Bytes) : Reading × Bytes :=
  match word, text with
  | [], text => (meaning, text)
  | _ :: _, [] => (.broken .truncated, [])
  | c :: cs, b :: rest => if b = code c then readWord cs meaning rest else (.broken .malformed, [])

mutual

/-- Reads a value, and gives what follows it. The fuel bounds the number of steps. -/
def readValue (fuel : Nat) (text : Bytes) : Reading × Bytes :=
  match fuel, skipBlanks text with
  | 0, _ => (.broken .truncated, [])
  | _ + 1, [] => (.broken .truncated, [])
  | fuel + 1, b :: rest =>
    if b = code '"' then let (s, after) := readString rest; (.string s, after)
    else if b = code '[' then
      match skipBlanks rest with
      | [] => (.array [] (some .truncated), [])
      | c :: after =>
        if c = code ']' then (.array [] none, after)
        else let (items, stop, after) := readItems fuel (c :: after); (.array items stop, after)
    else if b = code '\x7b' then
      match skipBlanks rest with
      | [] => (.object [] (some .truncated), [])
      | c :: after =>
        if c = code '\x7d' then (.object [] none, after)
        else let (ms, stop, after) := readMembers fuel (c :: after); (.object ms stop, after)
    else if b = code 'n' then readWord ['u', 'l', 'l'] .null rest
    else if b = code 't' then readWord ['r', 'u', 'e'] (.bool true) rest
    else if b = code 'f' then readWord ['a', 'l', 's', 'e'] (.bool false) rest
    else if b = code '-' ∨ (digit? b).isSome then readNumber (b :: rest)
    else (.broken .malformed, [])

/-- Reads an item and the items after it, up to the end of the array. -/
def readItems (fuel : Nat) (text : Bytes) : List Reading × Option Fault × Bytes :=
  match fuel with
  | 0 => ([], some .truncated, [])
  | fuel + 1 =>
    let (item, after) := readValue fuel text
    match skipBlanks after with
    | [] => ([item], some .truncated, [])
    | b :: rest =>
      if b = code ',' then
        let (items, stop, after) := readItems fuel rest
        (item :: items, stop, after)
      else if b = code ']' then ([item], none, rest)
      else ([item], some .malformed, [])

/-- Reads a member and the members after it, up to the end of the object. -/
def readMembers (fuel : Nat) (text : Bytes) :
    List (Quoted × Reading) × Option Fault × Bytes :=
  match fuel with
  | 0 => ([], some .truncated, [])
  | fuel + 1 =>
    match skipBlanks text with
    | [] => ([], some .truncated, [])
    | q :: rest =>
      if q ≠ code '"' then ([], some .malformed, [])
      else
        let (name, after) := readString rest
        match skipBlanks after with
        | [] => ([(name, .broken .truncated)], none, [])
        | colon :: rest =>
          if colon ≠ code ':' then ([(name, .broken .malformed)], none, [])
          else
            let (value, after) := readValue fuel rest
            match skipBlanks after with
            | [] => ([(name, value)], some .truncated, [])
            | b :: rest =>
              if b = code ',' then
                let (members, stop, after) := readMembers fuel rest
                ((name, value) :: members, stop, after)
              else if b = code '\x7d' then ([(name, value)], none, rest)
              else ([(name, value)], some .malformed, [])

end

namespace Reading

/-- Reads the value at the front of a text, and gives what follows it. Every step but the one into
a container uses up a byte, so twice the length of the text is fuel enough. -/
def ofBytes (text : Bytes) : Reading × Bytes := readValue (2 * text.length + 2) text

mutual

/-- The fault that passing over a value meets. -/
def skip? : Reading → Option Fault
  | .null | .bool _ | .number (.ok _) => none
  | .number (.error _) => some .malformed
  | .string s => s.stop
  | .array items stop => (skipItems? items).or stop
  | .object members stop => (skipMembers? members).or stop
  | .broken fault => some fault

/-- The first fault that passing over items meets. -/
def skipItems? : List Reading → Option Fault
  | [] => none
  | item :: rest => (skip? item).or (skipItems? rest)

/-- The first fault that passing over members meets. -/
def skipMembers? : List (Quoted × Reading) → Option Fault
  | [] => none
  | (name, value) :: rest => name.stop.or ((skip? value).or (skipMembers? rest))

end

theorem skipItems?_cons_iff {item : Reading} {rest : List Reading} :
    skipItems? (item :: rest) = none ↔ item.skip? = none ∧ skipItems? rest = none := by
  rw [skipItems?, Option.or_eq_none_iff]

theorem skipMembers?_cons_iff {name : Quoted} {value : Reading} {rest : List (Quoted × Reading)} :
    skipMembers? ((name, value) :: rest) = none ↔
      name.stop = none ∧ value.skip? = none ∧ skipMembers? rest = none := by
  rw [skipMembers?, Option.or_eq_none_iff, Option.or_eq_none_iff]

end Reading

end ConfigStore.Json
