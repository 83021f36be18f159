import ConfigStore.Decimal.Binary64

/-!
# The shortest decimal that reads back

Every double has an interval of reals that round to it. The shortest decimal is taken from the
coarsest decimal grid (the multiples of a power of ten) that has a point in this interval, and of
the points of that grid in the interval it is the one nearest to the double.

* `Shortest.decimal` gives the digits as a number and the power of ten that they are multiplied by.
-/

namespace ConfigStore.Shortest

/-- A decimal `digits * 10 ^ power`. -/
structure Decimal where
  /-- The digits, read as one number. -/
  digits : Nat
  /-- The power of ten of the last digit. -/
  power : Int
  deriving DecidableEq, Repr, Inhabited

/-- The reals that round to a double, and the double itself, all over one denominator and divided
by the step of a decimal grid. -/
structure Interval where
  /-- The lower end. -/
  low : Nat
  /-- The double. -/
  value : Nat
  /-- The upper end. -/
  high : Nat
  /-- The common denominator. -/
  den : Nat
  /-- Whether the ends round to the double. -/
  closed : Bool

/-- The interval of a double in steps of `10 ^ power`. Each end lies halfway to the next double; a
power of two has its lower neighbour at half the distance. The ends belong to a double of even
mantissa. -/
def interval (x : Binary64) (power : Int) : Interval :=
  let e := x.exponent - 2
  let up := Nat.pow 10 (-power).toNat <<< e.toNat
  let gap := if x.mantissa = 1 <<< 52 ∧ x.exponent ≠ Binary64.minExponent then 1 else 2
  { low := (4 * x.mantissa - gap) * up
    value := 4 * x.mantissa * up
    high := (4 * x.mantissa + 2) * up
    den := Nat.pow 10 power.toNat <<< (-e).toNat
    closed := x.mantissa % 2 == 0 }

/-- Whether the grid point `n` lies in the interval. -/
def Interval.holds (i : Interval) (n : Nat) : Bool :=
  if i.closed then i.low ≤ n * i.den && n * i.den ≤ i.high
  else i.low < n * i.den && n * i.den < i.high

/-- The grid point in the interval that is nearest to the double. Only the neighbours of the double
need a look: if any grid point lies in the interval, one of them does. -/
def Interval.nearest? (i : Interval) : Option Nat :=
  let below := i.value / i.den
  let above := below + 1
  match below ≠ 0 && i.holds below, i.holds above with
  | true, true =>
    if 2 * (i.value % i.den) < i.den then some below
    else if i.den < 2 * (i.value % i.den) then some above
    else some (below + below % 2)
  | true, false => some below
  | false, true => some above
  | false, false => none

/-- Searches grids from `10 ^ power` on, each ten times finer than the one before. -/
def search (x : Binary64) (power : Int) : Nat → Decimal
  | 0 => ⟨0, power⟩
  | steps + 1 =>
    match (interval x power).nearest? with
    | some digits => ⟨digits, power⟩
    | none => search x (power - 1) steps

/-- The shortest decimal that rounds to a double other than zero. Grids coarser than `10 ^ 309`
hold no double, and the grid `10 ^ (-343)` is fine enough for every one. -/
def decimal (x : Binary64) : Decimal := search x 309 653

end ConfigStore.Shortest
