/-!
# Text as bytes

Files hold bytes. Text is stored in UTF-8; reading bytes back refuses every sequence that is not
well formed: stray or missing continuation bytes, overlong forms, surrogates, and values above
U+10FFFF.

* `Utf8.encode` writes text, `Utf8.decode?` reads it.
* `Utf8.decode?_encode` says that reading undoes writing.
-/

namespace ConfigStore

/-- The content of a file. -/
abbrev Bytes := List UInt8

namespace Utf8

/-- The bytes of a list of characters. -/
def encodeChars (cs : List Char) : Bytes := cs.flatMap String.utf8EncodeChar

/-- The bytes of a text. -/
def encode (s : String) : Bytes := encodeChars s.toList

/-- What a character that has begun still owes: `owed` more bytes, the first of them between `low`
and `high`, and the value `acc` of its bits so far. -/
structure Pending where
  /-- How many bytes are still to come; zero between characters. -/
  owed : Nat
  /-- The bits read so far. -/
  acc : Nat
  /-- The least value of the next byte. -/
  low : Nat
  /-- The greatest value of the next byte. -/
  high : Nat

/-- Between two characters. -/
def Pending.start : Pending := ⟨0, 0, 0, 0⟩

/-- What the first byte of a character asks for; `none` if no character begins with it. A byte
below 0x80 is a character by itself. The bounds on the second byte rule out overlong forms,
surrogates and values above U+10FFFF. -/
def lead? (b : Nat) : Option Pending :=
  if 0xC2 ≤ b ∧ b ≤ 0xDF then some ⟨1, b - 0xC0, 0x80, 0xBF⟩
  else if b = 0xE0 then some ⟨2, 0, 0xA0, 0xBF⟩
  else if b = 0xED then some ⟨2, 0xD, 0x80, 0x9F⟩
  else if 0xE1 ≤ b ∧ b ≤ 0xEF then some ⟨2, b - 0xE0, 0x80, 0xBF⟩
  else if b = 0xF0 then some ⟨3, 0, 0x90, 0xBF⟩
  else if 0xF1 ≤ b ∧ b ≤ 0xF3 then some ⟨3, b - 0xF0, 0x80, 0xBF⟩
  else if b = 0xF4 then some ⟨3, 4, 0x80, 0x8F⟩
  else none

/-- Reads characters from bytes, in the middle of the character `p`. -/
def decodeFrom? (p : Pending) : Bytes → Option (List Char)
  | [] => if p.owed = 0 then some [] else none
  | b :: rest =>
    match p.owed with
    | 0 =>
      if b.toNat < 0x80 then (decodeFrom? .start rest).map (Char.ofNat b.toNat :: ·)
      else
        match lead? b.toNat with
        | some q => decodeFrom? q rest
        | none => none
    | owed + 1 =>
      if p.low ≤ b.toNat ∧ b.toNat ≤ p.high then
        let acc := p.acc * 64 + (b.toNat - 0x80)
        match owed with
        | 0 => (decodeFrom? .start rest).map (Char.ofNat acc :: ·)
        | more + 1 => decodeFrom? ⟨more + 1, acc, 0x80, 0xBF⟩ rest
      else none

/-- The characters of a byte sequence, if it is well-formed UTF-8. -/
def decodeChars? (bytes : Bytes) : Option (List Char) := decodeFrom? .start bytes

/-- The text of a byte sequence, if it is well-formed UTF-8. -/
def decode? (bytes : Bytes) : Option String := (decodeChars? bytes).map String.ofList

/-! ## Reading undoes writing -/

theorem decodeFrom?_encodeChar (c : Char) (rest : Bytes) :
    decodeFrom? .start (String.utf8EncodeChar c ++ rest)
      = (decodeFrom? .start rest).map (c :: ·) := by
  have hv : c.toNat < 0xD800 ∨ 0xDFFF < c.toNat ∧ c.toNat < 0x110000 := by
    have := c.valid
    simpa [UInt32.isValidChar, Nat.isValidChar] using this
  have hc : c.val.toNat = c.toNat := rfl
  have hchar : ∀ n, n = c.toNat → Char.ofNat n = c := fun n h => h ▸ Char.ofNat_toNat c
  unfold String.utf8EncodeChar
  simp only [hc]
  split
  next h =>
    have h1 : c.toNat % 256 = c.toNat := by omega
    simp only [List.cons_append, List.nil_append, decodeFrom?, Pending.start, UInt8.toNat_ofNat',
      Nat.reducePow, h1]
    rw [if_pos (by omega), hchar _ rfl]
  next h =>
    split
    next h2 =>
      have e1 : (c.toNat / 64 % 0x20 + 0xc0) % 256 = c.toNat / 64 + 0xc0 := by omega
      have e2 : (c.toNat % 0x40 + 0x80) % 256 = c.toNat % 64 + 0x80 := by omega
      simp only [List.cons_append, List.nil_append, decodeFrom?, Pending.start,
        UInt8.toNat_ofNat', Nat.reducePow, e1, e2]
      rw [if_neg (by omega)]
      simp only [lead?]
      rw [if_pos (by omega)]
      dsimp only
      rw [if_pos (by omega), hchar _ (by omega)]
    next h2 =>
      split
      next h3 =>
        have e1 : (c.toNat / 4096 % 0x10 + 0xe0) % 256 = c.toNat / 4096 + 0xe0 := by omega
        have e2 : (c.toNat / 64 % 0x40 + 0x80) % 256 = c.toNat / 64 % 64 + 0x80 := by omega
        have e3 : (c.toNat % 0x40 + 0x80) % 256 = c.toNat % 64 + 0x80 := by omega
        simp only [List.cons_append, List.nil_append, decodeFrom?, Pending.start,
          UInt8.toNat_ofNat', Nat.reducePow, e1]
        rw [if_neg (by omega)]
        simp only [lead?]
        rw [if_neg (by omega)]
        by_cases h4 : c.toNat / 4096 = 0
        · rw [if_pos (by omega)]
          dsimp only
          rw [if_pos (by omega), if_pos (by omega), hchar _ (by omega)]
        · rw [if_neg (by omega)]
          by_cases h5 : c.toNat / 4096 = 0xD
          · rw [if_pos (by omega)]
            dsimp only
            rw [if_pos (by omega), if_pos (by omega), hchar _ (by omega)]
          · rw [if_neg (by omega), if_pos (by omega)]
            dsimp only
            rw [if_pos (by omega), if_pos (by omega), hchar _ (by omega)]
      next h3 =>
        have e1 : (c.toNat / 262144 % 0x08 + 0xf0) % 256 = c.toNat / 262144 + 0xf0 := by omega
        have e2 : (c.toNat / 4096 % 0x40 + 0x80) % 256 = c.toNat / 4096 % 64 + 0x80 := by omega
        have e3 : (c.toNat / 64 % 0x40 + 0x80) % 256 = c.toNat / 64 % 64 + 0x80 := by omega
        have e4 : (c.toNat % 0x40 + 0x80) % 256 = c.toNat % 64 + 0x80 := by omega
        simp only [List.cons_append, List.nil_append, decodeFrom?, Pending.start,
          UInt8.toNat_ofNat', Nat.reducePow, e1]
        rw [if_neg (by omega)]
        simp only [lead?]
        rw [if_neg (by omega), if_neg (by omega), if_neg (by omega), if_neg (by omega)]
        by_cases h4 : c.toNat / 262144 = 0
        · rw [if_pos (by omega)]
          dsimp only
          rw [if_pos (by omega), if_pos (by omega), if_pos (by omega), hchar _ (by omega)]
        · rw [if_neg (by omega)]
          by_cases h5 : c.toNat / 262144 = 4
          · rw [if_neg (by omega), if_pos (by omega)]
            dsimp only
            rw [if_pos (by omega), if_pos (by omega), if_pos (by omega), hchar _ (by omega)]
          · rw [if_pos (by omega)]
            dsimp only
            rw [if_pos (by omega), if_pos (by omega), if_pos (by omega), hchar _ (by omega)]

theorem decodeChars?_encodeChars (cs : List Char) : decodeChars? (encodeChars cs) = some cs := by
  induction cs with
  | nil => rfl
  | cons c cs ih =>
    unfold decodeChars? encodeChars at ih ⊢
    rw [List.flatMap_cons, decodeFrom?_encodeChar, ih]
    rfl

/-- Text that has been written is read back. -/
@[simp]
theorem decode?_encode (s : String) : decode? (encode s) = some s := by
  simp [decode?, encode, decodeChars?_encodeChars]

end Utf8

end ConfigStore
