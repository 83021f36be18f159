import ConfigStore.Dict
import ConfigStore.Json.Reading

/-!
# Reading records from JSON

A reader turns a reading into a value of a type, or gives the first fault on its way. Readers are
built from the readers of single values; a record is described by the list of its fields.

A record is written either as an object, whose members may come in any order and may have members
that the record does not know, or as the array of its fields in order, of which the last may be
missing. Unknown members are passed over. A field given twice and a missing field that has no
default are faults.

* `Reader` is the type of readers; `Reader.text`, `Reader.natural`, `Reader.integer64`,
  `Reader.truth`, `Reader.value`, `Reader.list`, `Reader.dict` are readers.
* `RecordField` describes a field and `Reader.record` reads a record.
* `Reader.run` reads a whole text.
-/

namespace ConfigStore.Json

/-- A reader of values of a type. Its first argument says how many levels of nesting are left, the
level of the value itself included; at zero no container can be entered. -/
abbrev Reader (α : Type) := Nat → Reading → Except Fault α

/-- How deep a text may nest arrays and objects that are read. -/
def maxDepth : Nat := 127

namespace Reader

variable {α β σ : Type}

/-- The fault of a value that is of the wrong kind. A string or a number is read all the same, and
a fault of its own comes first. -/
def wrongKind : Reading → Fault
  | .string s => match s.content with
    | .ok _ => .mismatched
    | .error fault => fault
  | .number (.ok n) => match n.value with
    | .ok _ => .mismatched
    | .error fault => fault
  | .number (.error fault) => fault
  | .broken fault => fault
  | .null | .bool _ | .array .. | .object .. => .mismatched

/-- Applies a function to what a reader gives. -/
def map (f : α → β) (read : Reader α) : Reader β := fun depth r => (read depth r).map f

/-! ## Single values -/

/-- Reads a string. -/
def text : Reader String
  | _, .string s => s.content
  | _, r => .error (wrongKind r)

/-- Reads a truth value. -/
def truth : Reader Bool
  | _, .bool b => .ok b
  | _, r => .error (wrongKind r)

/-- Reads an integer that passes a test. -/
def integer (fits : Int → Bool) : Reader Int
  | _, .number (.ok n) => do
    match ← n.value with
    | .integer n => if fits n then .ok n else .error .mismatched
    | .double _ => .error .mismatched
  | _, r => .error (wrongKind r)

/-- Reads an integer from zero to `limit`. -/
def natural (limit : Nat) : Reader Nat :=
  map Int.toNat (integer fun n => 0 ≤ n && n ≤ limit)

/-- Reads an integer of 64 bits with a sign. -/
def integer64 : Reader Int64 :=
  map Int64.ofInt (integer fun n => Int64.minValue.toInt ≤ n && n ≤ Int64.maxValue.toInt)

/-! ## Containers -/

/-- Steps into a container. -/
def enter : Nat → Except Fault Nat
  | 0 => .error .malformed
  | depth + 1 => .ok depth

/-- The end of a container. -/
def finish (stop : Option Fault) (result : α) : Except Fault α :=
  match stop with
  | none => .ok result
  | some fault => .error fault

/-- Reads an array of values. -/
def list (read : Reader α) : Reader (List α)
  | depth, .array items stop => do
    let depth ← enter depth
    let values ← items.mapM (read depth)
    finish stop values
  | _, r => .error (wrongKind r)

/-- Reads members into a map; of two members with one name the later counts. -/
def dictMembers (read : Reading → Except Fault α) (acc : Dict α) :
    List (Quoted × Reading) → Except Fault (Dict α)
  | [] => .ok acc
  | (name, r) :: rest => do
    let name ← name.content
    let value ← read r
    dictMembers read (acc.insert name value) rest

/-- Reads an object as a map. -/
def dict (read : Reader α) : Reader (Dict α)
  | depth, .object members stop => do
    let depth ← enter depth
    let values ← dictMembers (read depth) .empty members
    finish stop values
  | _, r => .error (wrongKind r)

/-- Reads a value, or `null` as the default. -/
def nullAs (default : α) (read : Reader α) : Reader α
  | _, .null => .ok default
  | depth, r => read depth r

mutual

/-- Reads any value. The members of an object are put in the order of their names. -/
def value (depth : Nat) : Reading → Except Fault Value
  | .null => .ok .null
  | .bool b => .ok (.bool b)
  | .number (.ok n) => n.value.map .number
  | .number (.error fault) => .error fault
  | .string s => s.content.map .string
  | .array items stop => do
    let depth ← enter depth
    let values ← valueItems depth items
    finish stop (.array values)
  | .object members stop => do
    let depth ← enter depth
    let values ← valueMembers depth [] members
    finish stop (.object values)
  | .broken fault => .error fault

/-- Reads items of any kind. -/
def valueItems (depth : Nat) : List Reading → Except Fault (List Value)
  | [] => .ok []
  | r :: rest => do
    let v ← value depth r
    let vs ← valueItems depth rest
    return v :: vs

/-- Reads members of any kind onto the pairs `acc`, which are in the order of their names. -/
def valueMembers (depth : Nat) (acc : List (String × Value)) :
    List (Quoted × Reading) → Except Fault (List (String × Value))
  | [] => .ok acc
  | (name, r) :: rest => do
    let name ← name.content
    let v ← value depth r
    valueMembers depth (Pairs.insert name v acc) rest

end

end Reader

/-! ## Records -/

/-- A field of a record of type `σ`. -/
structure RecordField (σ : Type) where
  /-- The name under which the field is written. -/
  name : String
  /-- Whether the field must be there. -/
  required : Bool
  /-- Reads the field; the result puts its value into the record. -/
  read : Reader (σ → σ)

namespace RecordField

variable {α σ : Type}

/-- A field that may be missing. -/
def optional (name : String) (read : Reader α) (set : α → σ → σ) : RecordField σ :=
  ⟨name, false, Reader.map set read⟩

/-- A field that must be there. -/
def mandatory (name : String) (read : Reader α) (set : α → σ → σ) : RecordField σ :=
  ⟨name, true, Reader.map set read⟩

end RecordField

namespace Reader

variable {σ : Type}

/-- Reads the members of a record, given the names already `seen` and the record so far. -/
def recordMembers (fields : List (RecordField σ)) (depth : Nat) (seen : List String) (acc : σ) :
    List (Quoted × Reading) → Except Fault (List String × σ)
  | [] => .ok (seen, acc)
  | (name, r) :: rest => do
    let name ← name.content
    match fields.find? (·.name = name) with
    | none =>
      match r.skip? with
      | some fault => .error fault
      | none => recordMembers fields depth seen acc rest
    | some field =>
      if name ∈ seen then .error .mismatched
      else
        let set ← field.read depth r
        recordMembers fields depth (name :: seen) (set acc) rest

/-- Reads the fields of a record from the items of an array, in order. Items beyond the last field
are a fault, and so is a fault that stands where a field was due. -/
def recordItems (depth : Nat) (stop : Option Fault) (acc : σ) :
    List (RecordField σ) → List Reading → Except Fault σ
  | [], [] => finish stop acc
  | [], _ :: _ => .error .malformed
  | field :: fields, [] =>
    match stop with
    | some fault => .error fault
    | none =>
      if field.required then .error .mismatched else recordItems depth stop acc fields []
  | field :: fields, r :: rest => do
    let set ← field.read depth r
    recordItems depth stop (set acc) fields rest

/-- Reads a record, starting from the record of all defaults. -/
def record (fields : List (RecordField σ)) (default : σ) : Reader σ
  | depth, .object members stop => do
    let depth ← enter depth
    let (seen, result) ← recordMembers fields depth [] default members
    let result ← finish stop result
    if fields.all fun field => !field.required || field.name ∈ seen then .ok result
    else .error .mismatched
  | depth, .array items stop => do
    let depth ← enter depth
    recordItems depth stop default fields items
  | _, r => .error (wrongKind r)

/-! ## Whole texts -/

/-- Reads a whole text; nothing but blanks may follow the value. -/
def run {α : Type} (read : Reader α) (text : Bytes) : Except Fault α := do
  let (r, after) := Reading.ofBytes text
  let result ← read maxDepth r
  if (skipBlanks after).isEmpty then .ok result else .error .malformed

end Reader

end ConfigStore.Json
