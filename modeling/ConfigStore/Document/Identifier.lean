/-!
# Random identifiers

A new document is named by 122 random bits in the usual notation of universally unique identifiers:
groups of 8, 4, 4, 4 and 12 hexadecimal digits between hyphens, with the digit 4 and one of the
digits 8, 9, a and b at fixed places to say that the bits are random.
-/

namespace ConfigStore.Identifier

/-- The lowest `count` hexadecimal digits of a number. -/
def digits : Nat → Nat → List Char
  | 0, _ => []
  | count + 1, n => digits count (n / 16) ++ [Nat.digitChar (n % 16)]

/-- The identifier of 128 random bits, six of which give way to the fixed digits. -/
def ofBits (high low : UInt64) : String :=
  let h := high.toNat
  let l := low.toNat
  String.ofList
    (digits 8 (h >>> 32) ++ '-' :: digits 4 (h >>> 16) ++ '-' :: '4' :: digits 3 h
      ++ '-' :: digits 4 (0x8000 + (l >>> 48) % 0x4000) ++ '-' :: digits 12 l)

theorem length_digits (count n : Nat) : (digits count n).length = count := by
  induction count generalizing n with
  | zero => rfl
  | succ count ih => simp [digits, ih]

/-- Every identifier is 36 characters long. -/
theorem length_ofBits (high low : UInt64) : (ofBits high low).length = 36 := by
  unfold ofBits
  simp only [String.length_ofList, List.length_append, List.length_cons, length_digits]

end ConfigStore.Identifier
