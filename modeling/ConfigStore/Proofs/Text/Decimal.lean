import Mathlib.Data.List.Basic

/-!
# Numbers written in decimal

* `Decimal.toDigits_injective`, `Decimal.repr_injective`: different numbers have different texts.
* `Decimal.repr_chars`: the text of an integer is made of digits and minus signs.
* `Decimal.utf8ByteSize_repr_le`: the text of an integer of 64 bits has at most 20 bytes.
-/

namespace ConfigStore.Decimal

/-! ## Characters -/

theorem lt_of_isDigit {c : Char} (h : c.isDigit = true) : c.toNat < 128 := by
  have := Char.isDigit_iff_toNat.mp h
  have hnine : '9'.toNat = 57 := rfl
  omega

/-- A text of ASCII characters has as many bytes as characters. -/
theorem utf8ByteSize_ofList {cs : List Char} (h : ∀ c ∈ cs, c.toNat < 128) :
    (String.ofList cs).utf8ByteSize = cs.length := by
  induction cs with
  | nil => rfl
  | cons c cs ih =>
    have hc : c.utf8Size = 1 := by
      have hlt := h c (List.mem_cons_self ..)
      have hval : c.val.toNat = c.toNat := rfl
      have hmax : (127 : UInt32).toNat = 127 := rfl
      rw [Char.utf8Size_eq_one_iff, UInt32.le_iff_toNat_le]
      omega
    rw [String.ofList_cons, String.utf8ByteSize_append, String.utf8ByteSize_singleton, hc,
      ih fun c hc => h c (List.mem_cons_of_mem _ hc), List.length_cons, Nat.add_comm]

/-! ## Natural numbers -/

theorem toDigits_injective {m n : Nat} (h : Nat.toDigits 10 m = Nat.toDigits 10 n) : m = n := by
  rw [← @Nat.ofDigitChars_ten_toDigits m, h, Nat.ofDigitChars_ten_toDigits]

/-- Reading more digits never makes a number smaller. -/
theorem le_ofDigitChars (cs : List Char) (acc : Nat) : acc ≤ Nat.ofDigitChars 10 cs acc := by
  rw [Nat.ofDigitChars_eq_ofDigitChars_zero]
  have : 1 * acc ≤ 10 ^ cs.length * acc := Nat.mul_le_mul_right _ (Nat.one_le_pow _ _ (by decide))
  omega

theorem isDigit_of_mem_repr {n : Nat} {c : Char} (h : c ∈ n.repr.toList) : c.isDigit = true := by
  rw [Nat.toList_repr] at h
  exact Nat.isDigit_of_mem_toDigits (by decide) (by decide) h

theorem reprNat_injective {m n : Nat} (h : m.repr = n.repr) : m = n :=
  toDigits_injective (by rw [← Nat.toList_repr, h, Nat.toList_repr])

theorem utf8ByteSize_reprNat_le {n : Nat} (h : n < 10000000000000000000) :
    n.repr.utf8ByteSize ≤ 19 := by
  rw [Nat.repr_eq_ofList_toDigits, utf8ByteSize_ofList]
  · exact (Nat.length_toDigits_le_iff (by decide) (by decide)).mpr (by omega)
  · exact fun c hc => lt_of_isDigit (Nat.isDigit_of_mem_toDigits (by decide) (by decide) hc)

/-! ## Integers -/

theorem repr_chars {a : Int} {c : Char} (h : c ∈ a.repr.toList) : c.isDigit = true ∨ c = '-' := by
  rw [Int.repr_eq_if] at h
  split at h
  · exact .inl (isDigit_of_mem_repr h)
  · rw [String.toList_append, List.mem_append] at h
    rcases h with h | h
    · exact .inr (by simpa using h)
    · exact .inl (isDigit_of_mem_repr h)

theorem repr_injective {a b : Int} (h : a.repr = b.repr) : a = b := by
  have hminus : ∀ n : Nat, '-' ∉ n.repr.toList := by
    intro n hmem
    have := isDigit_of_mem_repr hmem
    revert this
    decide
  rw [Int.repr_eq_if, Int.repr_eq_if] at h
  split at h
  next ha =>
    split at h
    next hb =>
      have := reprNat_injective h
      omega
    next hb =>
      refine absurd ?_ (hminus a.toNat)
      rw [h]
      simp
  next ha =>
    split at h
    next hb =>
      refine absurd ?_ (hminus b.toNat)
      rw [← h]
      simp
    next hb =>
      have := reprNat_injective ((String.append_right_inj _).mp h)
      omega

theorem repr_ne_empty (a : Int) : a.repr ≠ "" := by
  rw [Int.repr_eq_if]
  split
  · exact Nat.repr_ne_empty
  · simp

theorem utf8ByteSize_repr_le (x : Int64) : x.toInt.repr.utf8ByteSize ≤ 20 := by
  have hlow := x.le_toInt
  have hhigh := x.toInt_lt
  rw [Int.repr_eq_if]
  split
  · have := utf8ByteSize_reprNat_le (n := x.toInt.toNat) (by omega)
    omega
  · rw [String.utf8ByteSize_append]
    have hsize : "-".utf8ByteSize = 1 := rfl
    have := utf8ByteSize_reprNat_le (n := (-x.toInt).toNat) (by omega)
    omega

end ConfigStore.Decimal
