import ConfigStore.Proofs.Json.Strings
import ConfigStore.Proofs.Text.Decimal

/-!
# Integers that are written and read back

An integer that fits in 64 bits, with a sign if it is negative, is read as the digits of its text
and its value is the integer again. Where the text of a number ends depends on what follows
(`Json.Ends`).

* `Json.Numeral.ofInt` is what the text of an integer is read as, by
  `Json.encodeChars_integerText`.
* `Json.Numeral.value_ofInt` gives the integer back.
-/

namespace ConfigStore.Json

/-! ## Digits -/

/-- What follows a number does not belong to it. -/
def Ends (rest : Bytes) : Prop :=
  ∀ b ∈ rest.head?, digit? b = none ∧ b ≠ code '.' ∧ b ≠ code 'e' ∧ b ≠ code 'E'

theorem ends_nil : Ends [] := fun _ h => by cases h

/-- The digits of a natural number, from the first to the last. -/
def digits (n : Nat) : List Nat := (Nat.toDigits 10 n).map fun c => c.toNat - 48

theorem toNat_code {c : Char} (h : c.toNat < 0x80) : (code c).toNat = c.toNat := by
  have hval : c.val.toNat = c.toNat := rfl
  rw [code, Char.toUInt8, UInt32.toNat_toUInt8, hval]
  omega

theorem digit?_code {c : Char} (h : c.isDigit = true) :
    digit? (code c) = some (c.toNat - 48) := by
  have hrange := Char.isDigit_iff_toNat.mp h
  have hzero : '0'.toNat = 48 := rfl
  have hnine : '9'.toNat = 57 := rfl
  rw [digit?, toNat_code (by omega), if_pos (by omega)]

theorem readDigits_of_ends {rest : Bytes} (h : Ends rest) : readDigits rest = ([], rest) := by
  cases rest with
  | nil => rfl
  | cons b rest => rw [readDigits, (h b rfl).1]

theorem readDigits_chars {cs : List Char} (hcs : ∀ c ∈ cs, c.isDigit = true) {rest : Bytes}
    (h : Ends rest) :
    readDigits (Utf8.encodeChars cs ++ rest) = (cs.map fun c => c.toNat - 48, rest) := by
  induction cs with
  | nil => exact readDigits_of_ends h
  | cons c cs ih =>
    have hc := hcs c (List.mem_cons_self ..)
    rw [encodeChars_cons_of_lt (Decimal.lt_of_isDigit hc), List.cons_append, readDigits,
      digit?_code hc]
    simp only [ih fun c hc => hcs c (List.mem_cons_of_mem _ hc), List.map_cons]

theorem isDigit_of_mem {n : Nat} {c : Char} (h : c ∈ Nat.toDigits 10 n) : c.isDigit = true :=
  Nat.isDigit_of_mem_toDigits (by decide) (by decide) h

theorem readDigits_toDigits (n : Nat) {rest : Bytes} (h : Ends rest) :
    readDigits (Utf8.encodeChars (Nat.toDigits 10 n) ++ rest) = (digits n, rest) :=
  readDigits_chars (fun _ => isDigit_of_mem) h

/-- A number of several digits does not begin with a zero. -/
theorem digits_ne_zero_cons (n : Nat) (d : Nat) (ds : List Nat) : digits n ≠ 0 :: d :: ds := by
  induction n using Nat.strongRecOn generalizing d ds with
  | _ n ih =>
    intro h
    by_cases hn : n < 10
    · rw [digits, Nat.toDigits_of_lt_base hn] at h
      exact absurd (congrArg List.length h) (by simp)
    · rw [digits, Nat.toDigits_of_base_le (by decide) (by omega), List.map_append] at h
      cases hfront : digits (n / 10) with
      | nil =>
        rw [digits, List.map_eq_nil_iff] at hfront
        exact Nat.toDigits_ne_nil hfront
      | cons first others =>
        rw [digits] at hfront
        rw [hfront, List.cons_append, List.cons.injEq] at h
        obtain ⟨rfl, hothers⟩ := h
        cases others with
        | cons second others => exact ih (n / 10) (by omega) second others hfront
        | nil =>
          -- the only number of one digit that begins with a zero is zero
          have hlast : n / 10 < 10 := by
            by_contra hlarge
            rw [Nat.toDigits_of_base_le (by decide) (by omega), List.map_append] at hfront
            have := congrArg List.length hfront
            have hpos := @Nat.length_toDigits_pos 10 (n / 10 / 10)
            simp only [List.length_append, List.length_map, List.length_cons, List.length_nil]
              at this
            omega
          rw [Nat.toDigits_of_lt_base hlast, List.map_cons, List.map_nil, List.cons.injEq] at hfront
          have := Nat.toNat_digitChar_of_lt_ten hlast
          omega

theorem digits_ne_nil (n : Nat) : digits n ≠ [] := by
  rw [digits, Ne, List.map_eq_nil_iff]
  exact Nat.toDigits_ne_nil

theorem readWhole_toDigits (n : Nat) {rest : Bytes} (h : Ends rest) :
    readWhole (Utf8.encodeChars (Nat.toDigits 10 n) ++ rest) = .ok (digits n, rest) := by
  have hdigits : readDigits₁ (Utf8.encodeChars (Nat.toDigits 10 n) ++ rest)
      = .ok (digits n, rest) := by
    rw [readDigits₁, readDigits_toDigits n h]
    split
    next heq => exact absurd (Prod.mk.inj heq).1 (digits_ne_nil n)
    next heq => rw [← heq]
  rw [readWhole, hdigits]
  simp only [bind, Except.bind]
  split
  next heq => exact absurd (Prod.mk.inj heq).1 (digits_ne_zero_cons n _ _)
  · rfl

/-! ## The value of digits -/

theorem takeDigits_chars {cs : List Char} {acc : Nat}
    (h : Nat.ofDigitChars 10 cs acc ≤ maxDigits) :
    takeDigits acc (cs.map fun c => c.toNat - 48) = (Nat.ofDigitChars 10 cs acc, []) := by
  induction cs generalizing acc with
  | nil => rfl
  | cons c cs ih =>
    have hzero : '0'.toNat = 48 := rfl
    rw [Nat.ofDigitChars_cons, hzero, Nat.mul_comm] at h
    have := Decimal.le_ofDigitChars cs (acc * 10 + (c.toNat - 48))
    rw [List.map_cons, takeDigits, if_neg (by omega), ih h, Nat.ofDigitChars_cons, hzero,
      Nat.mul_comm]

theorem takeDigits_digits {n : Nat} (h : n ≤ maxDigits) : takeDigits 0 (digits n) = (n, []) := by
  have hle : Nat.ofDigitChars 10 (Nat.toDigits 10 n) 0 ≤ maxDigits := by
    rwa [Nat.ofDigitChars_ten_toDigits]
  have htake := takeDigits_chars hle
  rwa [Nat.ofDigitChars_ten_toDigits] at htake

/-! ## Integers -/

/-- What the text of an integer is read as. -/
def Numeral.ofInt (n : Int) : Numeral := ⟨n < 0, digits n.natAbs, none, none⟩

/-- An integer that is kept exactly. -/
def Fits (n : Int) : Prop := Int64.minValue.toInt ≤ n ∧ n ≤ maxDigits

theorem readUnsigned_toDigits (negative : Bool) (n : Nat) {rest : Bytes} (h : Ends rest) :
    readUnsigned negative (Utf8.encodeChars (Nat.toDigits 10 n) ++ rest)
      = .ok (⟨negative, digits n, none, none⟩, rest) := by
  have hfraction : readFraction rest = .ok (none, rest) := by
    cases rest with
    | nil => rfl
    | cons b rest => rw [readFraction, if_neg (h b rfl).2.1]
  have hexponent : readExponent rest = .ok (none, rest) := by
    cases rest with
    | nil => rfl
    | cons b rest =>
      rw [readExponent, if_neg]
      rintro (hb | hb)
      · exact (h b rfl).2.2.1 hb
      · exact (h b rfl).2.2.2 hb
  rw [readUnsigned, readWhole_toDigits n h]
  simp only [bind, Except.bind, hfraction, hexponent]
  rfl

/-- The text of an integer begins like a number and is read as one. -/
theorem encodeChars_integerText (n : Int) {rest : Bytes} (h : Ends rest) :
    ∃ b text, Utf8.encodeChars (integerText n) ++ rest = b :: text ∧
      (b = code '-' ∨ (digit? b).isSome) ∧
      readNumber (b :: text) = (.number (.ok (.ofInt n)), rest) := by
  rw [integerText]
  split
  next hneg =>
    refine ⟨code '-', _, by rw [encodeChars_cons_of_lt (by decide), List.cons_append], .inl rfl, ?_⟩
    simp only [readNumber, if_true, readUnsigned_toDigits true n.natAbs h, Numeral.ofInt, hneg,
      decide_true]
  next hnonneg =>
    obtain ⟨c, cs, hcs⟩ := List.exists_cons_of_ne_nil (@Nat.toDigits_ne_nil n.natAbs 10)
    have hc := isDigit_of_mem (n := n.natAbs) (c := c) (by rw [hcs]; exact List.mem_cons_self ..)
    have htext : Utf8.encodeChars (Nat.toDigits 10 n.natAbs) ++ rest
        = code c :: (Utf8.encodeChars cs ++ rest) := by
      rw [hcs, encodeChars_cons_of_lt (Decimal.lt_of_isDigit hc), List.cons_append]
    have hminus : code c ≠ code '-' := by
      intro hminus
      have := digit?_code hc
      rw [hminus] at this
      cases this
    refine ⟨code c, _, htext, .inr (by rw [digit?_code hc]; rfl), ?_⟩
    simp only [readNumber, if_neg hminus, ← htext, readUnsigned_toDigits false n.natAbs h,
      Numeral.ofInt, hnonneg, decide_false]

/-- An integer that was written is read back. -/
theorem Numeral.value_ofInt {n : Int} (h : Fits n) :
    (Numeral.ofInt n).value = .ok (.integer n) := by
  obtain ⟨hlow, hhigh⟩ := h
  have hmin : Int64.minValue.toInt = -9223372036854775808 := rfl
  have hmax : maxDigits = 18446744073709551615 := rfl
  rw [hmin] at hlow
  rw [Numeral.value, Numeral.ofInt]
  simp only [takeDigits_digits (n := n.natAbs) (by omega)]
  by_cases hneg : n < 0
  · simp only [hneg, decide_true, Bool.not_true, Bool.false_eq_true, if_false]
    rw [if_pos ⟨by omega, by rw [hmin]; omega⟩]
    have hn : -(n.natAbs : Int) = n := by omega
    rw [hn]
  · simp only [hneg, decide_false, Bool.not_false, if_true]
    have hn : (n.natAbs : Int) = n := by omega
    rw [hn]

end ConfigStore.Json
