import ConfigStore.Proofs.Text.Decimal
import ConfigStore.Text.Numeral

/-!
# Numbers that are written and read again

* `Numeral.readDigits_chars` reads the digits of a number that is not too large.
* `Numeral.trim_eq_self` says that nothing is trimmed from a text without blanks.
* `Numeral.integer?_toString` reads a number of 64 bits as it was written.
-/

namespace ConfigStore.Numeral

/-! ## Digits -/

theorem digit?_of_isDigit {c : Char} (h : c.isDigit = true) :
    digit? c = some (c.toNat - '0'.toNat) := by
  obtain ⟨hlow, hhigh⟩ := Char.isDigit_iff_toNat.mp h
  rw [digit?, if_pos]
  exact ⟨Char.le_def.mpr hlow, Char.le_def.mpr hhigh⟩

/-- Digits are read as the number they stand for, if it is not above the limit. -/
theorem readDigits_chars {limit acc : Nat} {cs : List Char} (hcs : ∀ c ∈ cs, c.isDigit = true)
    (hlimit : Nat.ofDigitChars 10 cs acc ≤ limit) :
    readDigits limit acc cs = .ok (Nat.ofDigitChars 10 cs acc) := by
  induction cs generalizing acc with
  | nil => rfl
  | cons c cs ih =>
    obtain ⟨hc, hcs⟩ := List.forall_mem_cons.mp hcs
    rw [Nat.ofDigitChars_cons] at hlimit
    have hsmall := Nat.le_trans (Decimal.le_ofDigitChars cs _) hlimit
    rw [readDigits, digit?_of_isDigit hc]
    dsimp only
    rw [if_neg (by omega), Nat.ofDigitChars_cons, Nat.mul_comm acc 10]
    exact ih hcs hlimit

theorem magnitude_toDigits {limit n : Nat} (h : n ≤ limit) :
    magnitude limit (Nat.toDigits 10 n) = .ok n := by
  have hread : readDigits limit 0 (Nat.toDigits 10 n) = .ok n := by
    rw [readDigits_chars, Nat.ofDigitChars_ten_toDigits]
    · exact fun c hc => Nat.isDigit_of_mem_toDigits (by decide) (by decide) hc
    · rwa [Nat.ofDigitChars_ten_toDigits]
  cases hdigits : Nat.toDigits 10 n with
  | nil => exact absurd hdigits Nat.toDigits_ne_nil
  | cons c cs => rwa [magnitude, ← hdigits]

/-- A number that is not negative is read as it was written. -/
theorem integer?_repr {n : Nat} (h : n ≤ Int64.maxValue.toInt.toNat) :
    integer? n.repr = .ok (Int64.ofNat n) := by
  have hfirst : ∀ c ∈ Nat.toDigits 10 n, c.isDigit = true :=
    fun c hc => Nat.isDigit_of_mem_toDigits (by decide) (by decide) hc
  have hmagnitude := magnitude_toDigits h
  rw [integer?, Nat.toList_repr]
  split
  next hdigits => exact absurd hdigits Nat.toDigits_ne_nil
  next cs hdigits =>
    have hplus := hfirst '+' (hdigits ▸ List.mem_cons_self ..)
    exact absurd hplus (by decide)
  next cs hdigits =>
    have hminus := hfirst '-' (hdigits ▸ List.mem_cons_self ..)
    exact absurd hminus (by decide)
  · rw [hmagnitude]
    rfl

/-- A negative number is read as it was written. -/
theorem integer?_minus {n : Nat} (h : n ≤ Int64.minValue.toInt.natAbs) :
    integer? ("-" ++ n.repr) = .ok (Int64.ofInt (-(n : Int))) := by
  have htext : ("-" ++ n.repr).toList = '-' :: Nat.toDigits 10 n := by
    rw [String.toList_append, Nat.toList_repr]
    rfl
  rw [integer?, htext]
  simp only [magnitude_toDigits h]
  rfl

theorem toString_negSucc (m : Nat) : toString (Int.negSucc m) = "-" ++ (m + 1).repr := rfl

/-- A number of 64 bits is read as it was written. -/
theorem integer?_toString (n : Int64) : integer? (toString n.toInt) = .ok n := by
  have hlow := Int64.minValue_le_toInt n
  have hhigh := Int64.toInt_le n
  have hback := Int64.ofInt_toInt n
  generalize n.toInt = i at hlow hhigh hback ⊢
  subst hback
  have hmin : Int64.minValue.toInt = -9223372036854775808 := rfl
  have hmax : Int64.maxValue.toInt = 9223372036854775807 := rfl
  cases i with
  | ofNat m => exact integer?_repr (by rw [Int.ofNat_eq_natCast] at hhigh; omega)
  | negSucc m =>
    rw [toString_negSucc, integer?_minus (by rw [Int.negSucc_eq] at hlow; omega)]
    rfl

/-! ## Blanks -/

theorem isBlank_of_isDigit {c : Char} (h : c.isDigit = true) : isBlank c = false := by
  obtain ⟨hlow, hhigh⟩ := Char.isDigit_iff_toNat.mp h
  have hzero : '0'.toNat = 48 := rfl
  have hnine : '9'.toNat = 57 := rfl
  simp only [isBlank, Bool.or_eq_false_iff, Bool.and_eq_false_iff, decide_eq_false_iff_not,
    beq_eq_false_iff_ne]
  omega

/-- Nothing is trimmed from a text without blanks. -/
theorem trim_eq_self {text : String} (h : ∀ c ∈ text.toList, isBlank c = false) :
    trim text = text := by
  have hkeep : ∀ {cs : List Char}, (∀ c ∈ cs, isBlank c = false) → cs.dropWhile isBlank = cs := by
    intro cs hcs
    cases cs with
    | nil => rfl
    | cons c cs => rw [List.dropWhile_cons_of_neg (by simp [hcs c (List.mem_cons_self ..)])]
  rw [trim, hkeep h, hkeep fun c hc => h c (List.mem_reverse.mp hc), List.reverse_reverse,
    String.ofList_toList]

theorem trim_repr (n : Nat) : trim n.repr = n.repr :=
  trim_eq_self fun _ hc => isBlank_of_isDigit (Decimal.isDigit_of_mem_repr hc)

theorem trim_toString (n : Int) : trim (toString n) = toString n := by
  cases n with
  | ofNat m => exact trim_repr m
  | negSucc m =>
    refine trim_eq_self fun c hc => ?_
    rw [toString_negSucc, String.toList_append, List.mem_append] at hc
    rcases hc with hc | hc
    · obtain rfl : c = '-' := List.mem_singleton.mp hc
      decide
    · exact isBlank_of_isDigit (Decimal.isDigit_of_mem_repr hc)

theorem toString_ne_empty (n : Int) : toString n ≠ "" := by
  cases n with
  | ofNat m => exact Nat.repr_ne_empty
  | negSucc m =>
    rw [toString_negSucc]
    simp

end ConfigStore.Numeral
