/-!
# Double-precision numbers

A double is a sign, a mantissa below 2^53 and a binary exponent: its value is
`± mantissa * 2 ^ exponent`. All arithmetic is exact, on natural numbers, and is rounded once at the
end to the nearest double, a tie going to the even mantissa.

* `Binary64.ofRatio?` is the double nearest to a quotient; it is `none` beyond the largest double.
* `Binary64.mul?` and `Binary64.div?` round the exact product and the exact quotient.
* `Binary64.ofScientific?` is the value of digits with a power of ten, in the steps in which this
  library reads such numbers.
-/

namespace ConfigStore

/-- The double `± mantissa * 2 ^ exponent`. -/
structure Binary64 where
  /-- Whether a minus sign stands before the number; zero has both signs. -/
  negative : Bool
  /-- The mantissa, below 2^53. -/
  mantissa : Nat
  /-- The exponent of two; at least -1074 and at most 971. -/
  exponent : Int
  deriving DecidableEq, Repr, Inhabited

namespace Binary64

/-- The least exponent; numbers with this exponent may have a mantissa below 2^52. -/
def minExponent : Int := -1074

/-- The greatest exponent. -/
def maxExponent : Int := 971

/-- Zero without a minus sign. -/
def zero : Binary64 := ⟨false, 0, minExponent⟩

/-- The quotient of two natural numbers rounded to the nearest, a tie to the even one. -/
def roundDiv (num den : Nat) : Nat :=
  let quotient := num / den
  let rest := num % den
  if 2 * rest < den then quotient
  else if den < 2 * rest then quotient + 1
  else quotient + quotient % 2

/-- The quotient of `num` by `den * 2 ^ exponent`, as numerator and denominator. -/
def scaleDown (num den : Nat) (exponent : Int) : Nat × Nat :=
  if 0 ≤ exponent then (num, den <<< exponent.toNat) else (num <<< (-exponent).toNat, den)

/-- The greatest `k` with `2 ^ k ≤ num / den`, for a positive quotient. -/
def floorLog2 (num den : Nat) : Int :=
  let k : Int := (Nat.log2 num : Int) - Nat.log2 den
  let (n, d) := scaleDown num den k
  if n < d then k - 1 else k

/-- The double nearest to `num / den`; none if it is beyond the largest double. -/
def ofRatio? (num den : Nat) : Option Binary64 :=
  if num = 0 then some zero
  else
    let exponent := max minExponent (floorLog2 num den - 52)
    let (n, d) := scaleDown num den exponent
    let mantissa := roundDiv n d
    let (mantissa, exponent) :=
      if mantissa = 1 <<< 53 then (1 <<< 52, exponent + 1) else (mantissa, exponent)
    if maxExponent < exponent then none else some ⟨false, mantissa, exponent⟩

/-- The size of a double, without its sign, as numerator and denominator. -/
def ratio (x : Binary64) : Nat × Nat :=
  if 0 ≤ x.exponent then (x.mantissa <<< x.exponent.toNat, 1)
  else (x.mantissa, 1 <<< (-x.exponent).toNat)

/-- The product of the sizes of two doubles. -/
def mul? (x y : Binary64) : Option Binary64 :=
  ofRatio? (x.ratio.1 * y.ratio.1) (x.ratio.2 * y.ratio.2)

/-- The quotient of the sizes of two doubles. -/
def div? (x y : Binary64) : Option Binary64 :=
  ofRatio? (x.ratio.1 * y.ratio.2) (x.ratio.2 * y.ratio.1)

/-- The same number with another sign. -/
def withSign (negative : Bool) (x : Binary64) : Binary64 := { x with negative }

/-- Multiplies a double by a power of ten. The power is itself a double, so digits and power are
each rounded before their product or quotient is. Powers below the smallest one that is a normal
double are reached in several divisions; a power beyond the largest double is out of range, unless
the number is zero. -/
def scaleByTen? (x : Binary64) (power : Int) : Option Binary64 :=
  if power.natAbs ≤ 308 then do
    let ten ← ofRatio? (Nat.pow 10 power.natAbs) 1
    if 0 ≤ power then x.mul? ten else x.div? ten
  else if x.mantissa = 0 then some x
  else if 0 ≤ power then none
  else do
    let ten ← ofRatio? (Nat.pow 10 308) 1
    (← x.div? ten).scaleByTen? (power + 308)
  termination_by power.natAbs

/-- The double of `digits * 10 ^ power`; none if it is out of range. -/
def ofScientific? (negative : Bool) (digits : Nat) (power : Int) : Option Binary64 := do
  let x ← ofRatio? digits 1
  return (← x.scaleByTen? power).withSign negative

end Binary64

end ConfigStore
