import Mathlib.Data.List.Basic
import ConfigStore.Json.Reading
import ConfigStore.Json.Value

/-!
# Strings that are written and read back

A string is read byte by byte, while it is written character by character. The link between the two
is `Json.charPieces`: the pieces that the text of one character is read as.

* `Json.readString_escapeChar` reads the text of one character.
* `Json.Quoted.ofString` is what the text of a string is read as, by
  `Json.encodeChars_stringText`.
* `Json.Quoted.content_ofString` gives the string back.
-/

namespace ConfigStore.Json

/-! ## Bytes -/

/-- A character of ASCII is one byte. -/
theorem utf8EncodeChar_of_lt {c : Char} (h : c.toNat < 0x80) :
    String.utf8EncodeChar c = [code c] := by
  have hval : c.val.toNat = c.toNat := rfl
  have hcode : UInt8.ofNat c.toNat = code c := by
    rw [← UInt8.toNat_inj, UInt8.toNat_ofNat', code, Char.toUInt8, UInt32.toNat_toUInt8, hval]
  rw [String.utf8EncodeChar]
  simp only [hval]
  rw [if_pos (by omega)]
  exact congrArg (fun b => [b]) hcode

theorem encodeChars_cons_of_lt {c : Char} (h : c.toNat < 0x80) (cs : List Char) :
    Utf8.encodeChars (c :: cs) = code c :: Utf8.encodeChars cs := by
  rw [Utf8.encodeChars, List.flatMap_cons, utf8EncodeChar_of_lt h]
  rfl

theorem encodeChars_append (cs ds : List Char) :
    Utf8.encodeChars (cs ++ ds) = Utf8.encodeChars cs ++ Utf8.encodeChars ds :=
  List.flatMap_append

/-- A byte that stands for itself within a string. -/
def IsPlainByte (b : UInt8) : Prop := b ≠ code '"' ∧ b ≠ code '\\' ∧ 0x20 ≤ b.toNat

instance : DecidablePred IsPlainByte := fun _ => inferInstanceAs (Decidable (_ ∧ _ ∧ _))

theorem isPlainByte_ofNat {n : Nat} (hquote : n % 256 ≠ 34) (hslash : n % 256 ≠ 92)
    (hcontrol : 32 ≤ n % 256) : IsPlainByte (UInt8.ofNat n) := by
  have hn : (UInt8.ofNat n).toNat = n % 256 := UInt8.toNat_ofNat'
  refine ⟨fun h => hquote ?_, fun h => hslash ?_, by rwa [hn]⟩
  · rw [← hn, h]
    rfl
  · rw [← hn, h]
    rfl

/-- Every byte of a character that is not escaped stands for itself. -/
theorem isPlainByte_of_mem {c : Char} (hcontrol : 0x20 ≤ c.toNat) (hquote : c ≠ '"')
    (hslash : c ≠ '\\') {b : UInt8} (hb : b ∈ String.utf8EncodeChar c) : IsPlainByte b := by
  have hne : ∀ d : Char, c ≠ d → c.toNat ≠ d.toNat := fun d h h' =>
    h (by rw [← Char.ofNat_toNat c, h', Char.ofNat_toNat])
  have hquote' : c.toNat ≠ 34 := hne _ hquote
  have hslash' : c.toNat ≠ 92 := hne _ hslash
  have hval : c.val.toNat = c.toNat := rfl
  have hvalid : c.toNat < 0x110000 := by
    have := c.valid
    simp only [UInt32.isValidChar, Nat.isValidChar] at this
    omega
  rw [String.utf8EncodeChar] at hb
  simp only [hval] at hb
  -- all bytes of a character of several bytes are at least 0x80
  split at hb
  · rw [List.mem_singleton] at hb
    subst hb
    exact isPlainByte_ofNat (by omega) (by omega) (by omega)
  · split at hb
    · simp only [List.mem_cons, List.not_mem_nil, or_false] at hb
      rcases hb with rfl | rfl <;> exact isPlainByte_ofNat (by omega) (by omega) (by omega)
    · split at hb <;> simp only [List.mem_cons, List.not_mem_nil, or_false] at hb
      · rcases hb with rfl | rfl | rfl <;>
          exact isPlainByte_ofNat (by omega) (by omega) (by omega)
      · rcases hb with rfl | rfl | rfl | rfl <;>
          exact isPlainByte_ofNat (by omega) (by omega) (by omega)

/-! ## One character -/

/-- Whether a character is written as a `\u` escape. -/
def isNumbered (c : Char) : Bool :=
  c.toNat < 0x20 && c ≠ '\n' && c ≠ '\r' && c ≠ '\t' && c ≠ '\x08' && c ≠ '\x0c'

/-- The pieces that the text of a character is read as. -/
def charPieces (c : Char) : List Piece :=
  if isNumbered c then [.unit c.toNat] else (String.utf8EncodeChar c).map .byte

/-- Puts pieces in front of a string. -/
def Quoted.prepend (pieces : List Piece) (s : Quoted) : Quoted :=
  { s with pieces := pieces ++ s.pieces }

theorem readString_plain {b : UInt8} (h : IsPlainByte b) (rest : Bytes) :
    readString (b :: rest) = ((readString rest).1.cons (.byte b), (readString rest).2) := by
  obtain ⟨hquote, hslash, hcontrol⟩ := h
  rw [readString.eq_def]
  simp only [if_neg hquote, if_neg hslash, if_neg (Nat.not_lt.mpr hcontrol)]

theorem readString_plains {bs : Bytes} (h : ∀ b ∈ bs, IsPlainByte b) (rest : Bytes) :
    readString (bs ++ rest)
      = ((readString rest).1.prepend (bs.map .byte), (readString rest).2) := by
  induction bs with
  | nil => rfl
  | cons b bs ih =>
    rw [List.cons_append, readString_plain (h b (List.mem_cons_self ..)),
      ih fun b hb => h b (List.mem_cons_of_mem _ hb)]
    rfl

theorem readString_escaped {e b : UInt8} (hu : e ≠ code 'u') (he : escapedByte? e = some b)
    (rest : Bytes) :
    readString (code '\\' :: e :: rest)
      = ((readString rest).1.cons (.byte b), (readString rest).2) := by
  have hquote : code '\\' ≠ code '"' := by decide
  rw [readString.eq_def]
  simp only [if_neg hquote, if_true, if_neg hu, he]

theorem readString_numbered {h₁ h₂ h₃ h₄ : UInt8} {n : Nat} (h : hexUnit? h₁ h₂ h₃ h₄ = some n)
    (rest : Bytes) :
    readString (code '\\' :: code 'u' :: h₁ :: h₂ :: h₃ :: h₄ :: rest)
      = ((readString rest).1.cons (.unit n), (readString rest).2) := by
  have hquote : code '\\' ≠ code '"' := by decide
  rw [readString.eq_def]
  simp only [if_neg hquote, if_true, h]

/-- The text of one character is read as the pieces of the character. -/
theorem readString_escapeChar (c : Char) (rest : Bytes) :
    readString (Utf8.encodeChars (escapeChar c) ++ rest)
      = ((readString rest).1.prepend (charPieces c), (readString rest).2) := by
  rw [escapeChar.eq_def]
  split
  case h_8 hquote hslash hn hr ht hb hf =>
    split
    next hcontrol =>
      have hhex : ∀ n < 0x20, hexUnit? (code '0') (code '0') (code (Nat.digitChar (n / 16)))
          (code (Nat.digitChar (n % 16))) = some n := by decide
      have hascii : ∀ n < 16, (Nat.digitChar n).toNat < 0x80 := by decide
      have hnumbered : isNumbered c = true := by
        simp only [isNumbered, Bool.and_eq_true, decide_eq_true_eq]
        exact ⟨⟨⟨⟨⟨hcontrol, hn⟩, hr⟩, ht⟩, hb⟩, hf⟩
      rw [charPieces, if_pos hnumbered]
      iterate 4 rw [encodeChars_cons_of_lt (by decide)]
      rw [encodeChars_cons_of_lt (hascii _ (by omega)),
        encodeChars_cons_of_lt (hascii _ (by omega))]
      exact readString_numbered (hhex _ hcontrol) rest
    next hcontrol =>
      have hnumbered : isNumbered c = false := by
        simp only [isNumbered, decide_eq_false hcontrol, Bool.false_and]
      rw [charPieces, if_neg (by simp [hnumbered]), Utf8.encodeChars, List.flatMap_cons,
        List.flatMap_nil, List.append_nil]
      exact readString_plains (fun b => isPlainByte_of_mem (by omega) hquote hslash) rest
  all_goals exact readString_escaped (by decide) (by decide) rest

/-! ## Strings -/

/-- What the text of a string is read as. -/
def Quoted.ofString (s : String) : Quoted := ⟨s.toList.flatMap charPieces, none⟩

theorem readString_escapeChars (cs : List Char) (rest : Bytes) :
    readString (Utf8.encodeChars (cs.flatMap escapeChar) ++ code '"' :: rest)
      = (⟨cs.flatMap charPieces, none⟩, rest) := by
  induction cs with
  | nil =>
    change readString (code '"' :: rest) = (⟨[], none⟩, rest)
    rw [readString.eq_def]
    simp only [if_true]
  | cons c cs ih =>
    rw [List.flatMap_cons, encodeChars_append, List.append_assoc, readString_escapeChar, ih]
    rfl

/-- The text of a string is its opening quotation mark and what is read as the string. -/
theorem encodeChars_stringText (s : String) (rest : Bytes) :
    ∃ text, Utf8.encodeChars (stringText s) ++ rest = code '"' :: text ∧
      readString text = (.ofString s, rest) := by
  refine ⟨Utf8.encodeChars (s.toList.flatMap escapeChar) ++ code '"' :: rest, ?_,
    readString_escapeChars s.toList rest⟩
  rw [stringText, List.cons_append, encodeChars_cons_of_lt (by decide), encodeChars_append,
    encodeChars_cons_of_lt (by decide)]
  simp [Utf8.encodeChars]

/-! ## The content -/

theorem pieceBytes_bytes (stop : Option Fault) (bs : Bytes) (rest : List Piece) :
    pieceBytes stop (bs.map .byte ++ rest) = (pieceBytes stop rest).map (bs ++ ·) := by
  induction bs with
  | nil =>
    change pieceBytes stop rest = _
    cases pieceBytes stop rest <;> rfl
  | cons b bs ih =>
    rw [List.map_cons, List.cons_append, pieceBytes, ih]
    cases pieceBytes stop rest <;> rfl

theorem pieceBytes_charPieces (stop : Option Fault) (c : Char) (rest : List Piece) :
    pieceBytes stop (charPieces c ++ rest)
      = (pieceBytes stop rest).map (String.utf8EncodeChar c ++ ·) := by
  rw [charPieces]
  split
  next hnumbered =>
    have hcontrol : c.toNat < 0x20 := by
      simp only [isNumbered, Bool.and_eq_true, decide_eq_true_eq] at hnumbered
      exact hnumbered.1.1.1.1.1
    have hlow : isLowSurrogate c.toNat = false := by
      simp only [isLowSurrogate, Bool.and_eq_false_iff, decide_eq_false_iff_not]
      omega
    have hhigh : isHighSurrogate c.toNat = false := by
      simp only [isHighSurrogate, Bool.and_eq_false_iff, decide_eq_false_iff_not]
      omega
    rw [List.cons_append, List.nil_append, pieceBytes.eq_def]
    simp only [hlow, hhigh, Char.ofNat_toNat, Bool.false_eq_true, if_false]
  · exact pieceBytes_bytes stop _ rest

theorem pieceBytes_flatMap (cs : List Char) :
    pieceBytes none (cs.flatMap charPieces) = .ok (Utf8.encodeChars cs) := by
  induction cs with
  | nil => rfl
  | cons c cs ih =>
    rw [List.flatMap_cons, pieceBytes_charPieces, ih]
    rfl

/-- A string that was written is read back. -/
@[simp]
theorem Quoted.content_ofString (s : String) : (Quoted.ofString s).content = .ok s := by
  have hdecode : Utf8.decode? (Utf8.encodeChars s.toList) = some s := Utf8.decode?_encode s
  rw [Quoted.content, Quoted.ofString, pieceBytes_flatMap]
  simp only [bind, Except.bind, hdecode]

end ConfigStore.Json
