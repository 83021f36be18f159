import Mathlib.Data.List.DropRight
import ConfigStore.Proofs.Json.Nesting

/-!
# The tokens of a text

A text spells strings and numbers in many ways: a character of a string may stand for itself or be
escaped, and a number may have a fraction and an exponent. A token is such a spelling. What a token
spells does not depend on what follows it, and whatever is read without a fault was spelled by a
token.

* `Json.Blanks` is what may stand between tokens.
* `Json.Stroke` is one piece of a string as it is spelled; `Json.readString_strokes` reads a
  spelled string, and `Json.strokes_of_readString` finds the spelling of one that was read.
* `Json.NumberToken` is a number as it is spelled, with `Json.readNumber_token` and
  `Json.token_of_readNumber`.
-/

namespace ConfigStore.Json

/-! ## Blanks -/

/-- Blanks between two tokens. -/
abbrev Blanks := {text : Bytes // ∀ b ∈ text, isBlank b = true}

/-- No blanks. -/
def Blanks.none : Blanks := ⟨[], fun _ h => nomatch h⟩

theorem skipBlanks_blanks (blanks : Blanks) (text : Bytes) :
    skipBlanks (blanks.1 ++ text) = skipBlanks text :=
  List.dropWhile_append_of_pos blanks.2

/-- A text begins with the blanks that are skipped. -/
theorem exists_blanks (text : Bytes) : ∃ blanks : Blanks, text = blanks.1 ++ skipBlanks text :=
  ⟨⟨text.takeWhile isBlank, fun _ hb => List.mem_takeWhile_imp hb⟩,
    List.takeWhile_append_dropWhile.symm⟩

theorem ends_blanks (blanks : Blanks) {rest : Bytes} (h : Ends rest) : Ends (blanks.1 ++ rest) := by
  obtain ⟨text, hblank⟩ := blanks
  cases text with
  | nil => exact h
  | cons b text =>
    have hb := hblank b (List.mem_cons_self ..)
    simp only [isBlank, Bool.or_eq_true, beq_iff_eq] at hb
    rcases hb with ((rfl | rfl) | rfl) | rfl <;> exact ends_cons (by decide) _

/-! ## Strings -/

/-- One piece of a string as it is spelled: a byte that stands for itself, an escape of one letter,
or an escape of four hexadecimal digits. -/
inductive Stroke
  | plain (b : UInt8) (h : IsPlainByte b)
  | escaped (letter b : UInt8) (hu : letter ≠ code 'u') (h : escapedByte? letter = some b)
  | numbered (h₁ h₂ h₃ h₄ : UInt8) (n : Nat) (h : hexUnit? h₁ h₂ h₃ h₄ = some n)

namespace Stroke

/-- The text of a stroke. -/
def text : Stroke → Bytes
  | plain b _ => [b]
  | escaped letter _ _ _ => [code '\\', letter]
  | numbered h₁ h₂ h₃ h₄ _ _ => [code '\\', code 'u', h₁, h₂, h₃, h₄]

/-- The piece that a stroke is read as. -/
def piece : Stroke → Piece
  | plain b _ => .byte b
  | escaped _ b _ _ => .byte b
  | numbered _ _ _ _ n _ => .unit n

end Stroke

/-- The text of strokes up to the closing quotation mark. -/
def strokesText (strokes : List Stroke) : Bytes := strokes.flatMap Stroke.text ++ [code '"']

/-- The string that strokes spell. -/
def Quoted.ofStrokes (strokes : List Stroke) : Quoted := ⟨strokes.map Stroke.piece, none⟩

theorem strokesText_cons (stroke : Stroke) (strokes : List Stroke) :
    strokesText (stroke :: strokes) = stroke.text ++ strokesText strokes := by
  rw [strokesText, List.flatMap_cons, List.append_assoc, strokesText]

/-- A stroke is read as its piece. -/
theorem readString_stroke (stroke : Stroke) (rest : Bytes) :
    readString (stroke.text ++ rest)
      = ((readString rest).1.cons stroke.piece, (readString rest).2) := by
  cases stroke with
  | plain b h => exact readString_plain h rest
  | escaped letter b hu h => exact readString_escaped hu h rest
  | numbered h₁ h₂ h₃ h₄ n h => exact readString_numbered h rest

/-- A spelled string is read, whatever follows it. -/
theorem readString_strokes (strokes : List Stroke) (rest : Bytes) :
    readString (strokesText strokes ++ rest) = (.ofStrokes strokes, rest) := by
  induction strokes with
  | nil =>
    rw [readString.eq_def]
    simp only [strokesText, List.flatMap_nil, List.nil_append, List.cons_append, if_true]
    rfl
  | cons stroke strokes ih =>
    rw [strokesText_cons, List.append_assoc, readString_stroke, ih]
    rfl

/-- A text begins with strokes that spell a string. -/
def Spelled (text : Bytes) (s : Quoted) (after : Bytes) : Prop :=
  ∃ strokes, text = strokesText strokes ++ after ∧ Quoted.ofStrokes strokes = s

theorem Spelled.cons {text after : Bytes} {s : Quoted} (h : Spelled text s after)
    (stroke : Stroke) : Spelled (stroke.text ++ text) (s.cons stroke.piece) after := by
  obtain ⟨strokes, rfl, rfl⟩ := h
  exact ⟨stroke :: strokes, by rw [strokesText_cons, List.append_assoc], rfl⟩

/-- Whatever is read up to a closing quotation mark was spelled by strokes. -/
theorem strokes_of_readString {text after : Bytes} {s : Quoted} (h : readString text = (s, after))
    (hstop : s.stop = none) : Spelled text s after := by
  fun_induction readString text generalizing s after with
  | case2 rest =>
    cases h
    exact ⟨[], rfl, rfl⟩
  | case4 h₁ h₂ h₃ h₄ rest n hunit s' after' hrest _ ih =>
    cases h
    exact (ih hrest hstop).cons (.numbered h₁ h₂ h₃ h₄ n hunit)
  | case7 letter rest hu b hletter s' after' hrest _ ih =>
    cases h
    exact (ih hrest hstop).cons (.escaped letter b hu hletter)
  | case10 b rest hquote hslash hcontrol s' after' hrest ih =>
    cases h
    exact (ih hrest hstop).cons (.plain b ⟨hquote, hslash, Nat.not_lt.mp hcontrol⟩)
  | _ =>
    cases h
    cases hstop

/-! ## Digits -/

/-- The byte of a decimal digit. -/
def digitByte (d : Fin 10) : UInt8 := UInt8.ofNat (0x30 + d)

theorem digit?_digitByte (d : Fin 10) : digit? (digitByte d) = some d.val := by
  revert d
  decide

theorem eq_digitByte {b : UInt8} {n : Nat} (h : digit? b = some n) :
    ∃ d : Fin 10, b = digitByte d ∧ n = d := by
  rw [digit?] at h
  split at h
  next hrange =>
    cases h
    refine ⟨⟨b.toNat - 0x30, by omega⟩, ?_, rfl⟩
    rw [digitByte, ← UInt8.toNat_inj, UInt8.toNat_ofNat']
    dsimp only
    omega
  · cases h

/-- At least one digit. -/
abbrev Digits := {digits : List (Fin 10) // digits ≠ []}

namespace Digits

/-- The text of digits. -/
def text (digits : Digits) : Bytes := digits.1.map digitByte

/-- The values of digits. -/
def values (digits : Digits) : List Nat := digits.1.map (·.val)

end Digits

/-- No digit comes next. -/
def NoDigit (rest : Bytes) : Prop := ∀ b ∈ rest.head?, digit? b = none

theorem readDigits_map {rest : Bytes} (h : NoDigit rest) (ds : List (Fin 10)) :
    readDigits (ds.map digitByte ++ rest) = (ds.map (·.val), rest) := by
  induction ds with
  | nil =>
    cases rest with
    | nil => rfl
    | cons b rest => rw [List.map_nil, List.nil_append, readDigits, h b rfl]; rfl
  | cons d ds ih =>
    rw [List.map_cons, List.cons_append, readDigits, digit?_digitByte, ih]
    rfl

theorem map_of_readDigits {text after : Bytes} {values : List Nat}
    (h : readDigits text = (values, after)) :
    ∃ ds : List (Fin 10), text = ds.map digitByte ++ after ∧ ds.map (·.val) = values := by
  induction text generalizing values after with
  | nil =>
    cases h
    exact ⟨[], rfl, rfl⟩
  | cons b rest ih =>
    rw [readDigits] at h
    split at h
    next n hdigit =>
      obtain ⟨d, rfl, rfl⟩ := eq_digitByte hdigit
      cases h
      obtain ⟨ds, htext, hvalues⟩ := ih rfl
      exact ⟨d :: ds, by rw [List.map_cons, List.cons_append, ← htext],
        by rw [List.map_cons, hvalues]⟩
    · cases h
      exact ⟨[], rfl, rfl⟩

theorem readDigits₁_text {rest : Bytes} (h : NoDigit rest) (digits : Digits) :
    readDigits₁ (digits.text ++ rest) = .ok (digits.values, rest) := by
  obtain ⟨ds, hne⟩ := digits
  obtain ⟨d, ds, rfl⟩ := List.exists_cons_of_ne_nil hne
  rw [readDigits₁, Digits.text, readDigits_map h]
  rfl

theorem text_of_readDigits₁ {text after : Bytes} {values : List Nat}
    (h : readDigits₁ text = .ok (values, after)) :
    ∃ digits : Digits, text = digits.text ++ after ∧ digits.values = values := by
  rw [readDigits₁] at h
  split at h
  · cases h
  next hne hread =>
    cases h
    obtain ⟨ds, htext, hvalues⟩ := map_of_readDigits hread
    refine ⟨⟨ds, ?_⟩, htext, hvalues⟩
    rintro rfl
    exact hne hvalues.symm

/-! ## Numbers -/

/-- An exponent as it is spelled. -/
structure Exponent where
  /-- Whether its letter is a capital. -/
  capital : Bool
  /-- Its sign, if there is one: whether it is a minus. -/
  sign : Option Bool
  /-- Its digits. -/
  digits : Digits

namespace Exponent

/-- The text of the sign of an exponent. -/
def signText : Option Bool → Bytes
  | none => []
  | some true => [code '-']
  | some false => [code '+']

/-- The text of an exponent after its letter. -/
def power (e : Exponent) : Bytes := signText e.sign ++ e.digits.text

/-- The text of an exponent. -/
def text (e : Exponent) : Bytes := (if e.capital then code 'E' else code 'e') :: e.power

/-- What an exponent is read as. -/
def spelled (e : Exponent) : Bool × List Nat := (e.sign = some true, e.digits.values)

end Exponent

/-- A number as it is spelled. A zero in front stands alone. -/
structure NumberToken where
  /-- Whether a minus stands before the number. -/
  negative : Bool
  /-- The digits before the point. -/
  whole : Digits
  /-- The digits after the point, if there is a point. -/
  fraction : Option Digits
  /-- The exponent, if there is one. -/
  exponent : Option Exponent
  noZero : ∀ d ds, whole.values ≠ 0 :: d :: ds

namespace NumberToken

/-- The text of a fraction. -/
def fractionText : Option Digits → Bytes
  | none => []
  | some digits => code '.' :: digits.text

/-- The text of an exponent that may be missing. -/
def exponentText : Option Exponent → Bytes
  | none => []
  | some e => e.text

/-- The text of a number after its sign. -/
def unsigned (n : NumberToken) : Bytes :=
  n.whole.text ++ (fractionText n.fraction ++ exponentText n.exponent)

/-- The text of a number. -/
def text (n : NumberToken) : Bytes :=
  if n.negative then code '-' :: n.unsigned else n.unsigned

/-- What a number is read as. -/
def numeral (n : NumberToken) : Numeral :=
  ⟨n.negative, n.whole.values, n.fraction.map Digits.values, n.exponent.map Exponent.spelled⟩

end NumberToken

theorem Ends.noDigit {rest : Bytes} (h : Ends rest) : NoDigit rest := fun b hb => (h b hb).1

theorem noDigit_exponentText (e : Option Exponent) {rest : Bytes} (h : Ends rest) :
    NoDigit (NumberToken.exponentText e ++ rest) := by
  cases e with
  | none => exact h.noDigit
  | some e =>
    rintro b hb
    cases hb
    cases e.capital <;> decide

theorem noDigit_fractionText (fraction : Option Digits) {rest : Bytes} (h : NoDigit rest) :
    NoDigit (NumberToken.fractionText fraction ++ rest) := by
  cases fraction with
  | none => exact h
  | some digits =>
    rintro b hb
    cases hb
    decide

/-- The digits before the point are read up to what is no digit. -/
theorem readWhole_text {digits : Digits} (hzero : ∀ d ds, digits.values ≠ 0 :: d :: ds)
    {rest : Bytes} (h : NoDigit rest) :
    readWhole (digits.text ++ rest) = .ok (digits.values, rest) := by
  rw [readWhole, readDigits₁_text h]
  simp only [bind, Except.bind]
  split
  next heq => exact absurd (Prod.mk.inj heq).1 (hzero _ _)
  · rfl

theorem text_of_readWhole {text after : Bytes} {values : List Nat}
    (h : readWhole text = .ok (values, after)) :
    ∃ digits : Digits, text = digits.text ++ after ∧ digits.values = values ∧
      ∀ d ds, digits.values ≠ 0 :: d :: ds := by
  rw [readWhole] at h
  obtain ⟨⟨ds, rest⟩, hdigits, h⟩ := Reader.ok_of_bind h
  split at h
  · cases h
  next hzero =>
    cases h
    obtain ⟨digits, htext, rfl⟩ := text_of_readDigits₁ hdigits
    exact ⟨digits, htext, rfl, fun d ds heq => hzero d ds after (by rw [heq])⟩

theorem readFraction_text (fraction : Option Digits) {rest : Bytes} (h : NoDigit rest)
    (hpoint : ∀ b ∈ rest.head?, b ≠ code '.') :
    readFraction (NumberToken.fractionText fraction ++ rest)
      = .ok (fraction.map Digits.values, rest) := by
  cases fraction with
  | none =>
    cases rest with
    | nil => rfl
    | cons b rest => exact if_neg (hpoint b rfl)
  | some digits =>
    rw [NumberToken.fractionText, List.cons_append, readFraction, if_pos rfl, readDigits₁_text h]
    rfl

theorem text_of_readFraction {text after : Bytes} {values : Option (List Nat)}
    (h : readFraction text = .ok (values, after)) :
    ∃ fraction : Option Digits, text = NumberToken.fractionText fraction ++ after ∧
      fraction.map Digits.values = values := by
  unfold readFraction at h
  split at h
  · cases h
    exact ⟨none, rfl, rfl⟩
  · split at h
    next hpoint =>
      obtain ⟨⟨ds, rest⟩, hdigits, heq⟩ := Reader.ok_of_map h
      cases heq
      obtain ⟨digits, htext, rfl⟩ := text_of_readDigits₁ hdigits
      exact ⟨some digits, by rw [hpoint, htext]; rfl, rfl⟩
    · cases h
      exact ⟨none, rfl, rfl⟩

theorem readPower_text (e : Exponent) {rest : Bytes} (h : NoDigit rest) :
    readPower (e.power ++ rest) = .ok (e.spelled, rest) := by
  obtain ⟨capital, sign, digits⟩ := e
  have hdigits := readDigits₁_text h digits
  cases sign with
  | none =>
    obtain ⟨d, ds, hds⟩ := List.exists_cons_of_ne_nil digits.2
    have hsigns : ∀ d : Fin 10, digitByte d ≠ code '+' ∧ digitByte d ≠ code '-' := by decide
    have htext : digits.text ++ rest = digitByte d :: (ds.map digitByte ++ rest) := by
      rw [Digits.text, hds]
      rfl
    rw [Exponent.power, Exponent.signText, List.nil_append, htext, readPower,
      if_neg (hsigns d).1, if_neg (hsigns d).2, ← htext, hdigits]
    rfl
  | some minus =>
    cases minus <;> rw [Exponent.power, Exponent.signText, List.append_assoc] <;>
      rw [List.cons_append, readPower]
    · rw [if_pos rfl, List.nil_append, hdigits]
      rfl
    · rw [if_neg (by decide), if_pos rfl, List.nil_append, hdigits]
      rfl

theorem text_of_readPower {text after : Bytes} {spelled : Bool × List Nat}
    (h : readPower text = .ok (spelled, after)) (capital : Bool) :
    ∃ e : Exponent, text = e.power ++ after ∧ e.spelled = spelled ∧ e.capital = capital := by
  unfold readPower at h
  split at h
  next b rest =>
    split at h
    next hplus =>
      obtain ⟨⟨ds, rest⟩, hdigits, heq⟩ := Reader.ok_of_map h
      cases heq
      obtain ⟨digits, htext, rfl⟩ := text_of_readDigits₁ hdigits
      exact ⟨⟨capital, some false, digits⟩, by rw [hplus, htext]; rfl, rfl, rfl⟩
    · split at h
      next hminus =>
        obtain ⟨⟨ds, rest⟩, hdigits, heq⟩ := Reader.ok_of_map h
        cases heq
        obtain ⟨digits, htext, rfl⟩ := text_of_readDigits₁ hdigits
        exact ⟨⟨capital, some true, digits⟩, by rw [hminus, htext]; rfl, rfl, rfl⟩
      · obtain ⟨⟨ds, rest⟩, hdigits, heq⟩ := Reader.ok_of_map h
        cases heq
        obtain ⟨digits, htext, rfl⟩ := text_of_readDigits₁ hdigits
        exact ⟨⟨capital, none, digits⟩, htext, rfl, rfl⟩
  · cases h

theorem readExponent_text (e : Option Exponent) {rest : Bytes} (h : Ends rest) :
    readExponent (NumberToken.exponentText e ++ rest) = .ok (e.map Exponent.spelled, rest) := by
  cases e with
  | none =>
    cases rest with
    | nil => rfl
    | cons b rest =>
      obtain ⟨-, -, hsmall, hcapital⟩ := h b rfl
      exact if_neg (not_or.mpr ⟨hsmall, hcapital⟩)
  | some e =>
    rw [NumberToken.exponentText, Exponent.text, List.cons_append, readExponent,
      if_pos (by cases e.capital <;> simp), readPower_text e h.noDigit]
    rfl

theorem text_of_readExponent {text after : Bytes} {spelled : Option (Bool × List Nat)}
    (h : readExponent text = .ok (spelled, after)) :
    ∃ e : Option Exponent, text = NumberToken.exponentText e ++ after ∧
      e.map Exponent.spelled = spelled := by
  unfold readExponent at h
  split at h
  · cases h
    exact ⟨none, rfl, rfl⟩
  next b rest =>
    split at h
    next hletter =>
      obtain ⟨⟨power, rest⟩, hpower, heq⟩ := Reader.ok_of_map h
      cases heq
      rcases hletter with rfl | rfl
      · obtain ⟨e, htext, rfl, hcapital⟩ := text_of_readPower hpower false
        exact ⟨some e, by rw [htext, NumberToken.exponentText, Exponent.text, hcapital]; rfl, rfl⟩
      · obtain ⟨e, htext, rfl, hcapital⟩ := text_of_readPower hpower true
        exact ⟨some e, by rw [htext, NumberToken.exponentText, Exponent.text, hcapital]; rfl, rfl⟩
    · cases h
      exact ⟨none, rfl, rfl⟩

theorem ne_point_exponentText (e : Option Exponent) {rest : Bytes} (h : Ends rest) :
    ∀ b ∈ (NumberToken.exponentText e ++ rest).head?, b ≠ code '.' := by
  cases e with
  | none => exact fun b hb => (h b hb).2.1
  | some e =>
    rintro b hb
    cases hb
    cases e.capital <;> decide

theorem readUnsigned_text (n : NumberToken) {rest : Bytes} (h : Ends rest) :
    readUnsigned n.negative (n.unsigned ++ rest) = .ok (n.numeral, rest) := by
  have hexponent := noDigit_exponentText n.exponent h
  rw [readUnsigned, NumberToken.unsigned, List.append_assoc, List.append_assoc,
    readWhole_text n.noZero (noDigit_fractionText n.fraction hexponent)]
  simp only [bind, Except.bind, readExponent_text n.exponent h,
    readFraction_text n.fraction hexponent (ne_point_exponentText n.exponent h)]
  rfl

theorem text_of_readUnsigned {negative : Bool} {text after : Bytes} {numeral : Numeral}
    (h : readUnsigned negative text = .ok (numeral, after)) :
    ∃ n : NumberToken, text = n.unsigned ++ after ∧ n.numeral = numeral ∧
      n.negative = negative := by
  rw [readUnsigned] at h
  obtain ⟨⟨whole, text₁⟩, hwhole, h⟩ := Reader.ok_of_bind h
  obtain ⟨⟨fraction, text₂⟩, hfraction, h⟩ := Reader.ok_of_bind h
  obtain ⟨⟨exponent, text₃⟩, hexponent, h⟩ := Reader.ok_of_bind h
  cases h
  obtain ⟨digits, rfl, rfl, hzero⟩ := text_of_readWhole hwhole
  obtain ⟨decimals, rfl, rfl⟩ := text_of_readFraction hfraction
  obtain ⟨e, rfl, rfl⟩ := text_of_readExponent hexponent
  exact ⟨⟨negative, digits, decimals, e, hzero⟩,
    by simp only [NumberToken.unsigned, List.append_assoc], rfl, rfl⟩

/-- A number begins with a digit after its sign. -/
theorem exists_unsigned (n : NumberToken) :
    ∃ (d : Fin 10) (text : Bytes), n.unsigned = digitByte d :: text := by
  obtain ⟨d, ds, hds⟩ := List.exists_cons_of_ne_nil n.whole.2
  exact ⟨d, _, by rw [NumberToken.unsigned, Digits.text, hds, List.map_cons, List.cons_append]⟩

/-- A spelled number is read, if what follows does not belong to it. -/
theorem readNumber_token (n : NumberToken) {rest : Bytes} (h : Ends rest) :
    readNumber (n.text ++ rest) = (.number (.ok n.numeral), rest) := by
  have hread := readUnsigned_text n h
  obtain ⟨d, text, htext⟩ := exists_unsigned n
  have hminus : ∀ d : Fin 10, digitByte d ≠ code '-' := by decide
  rw [readNumber.eq_def, NumberToken.text]
  cases hnegative : n.negative with
  | true =>
    rw [hnegative] at hread
    simp only [if_true, List.cons_append, hread]
  | false =>
    rw [hnegative] at hread
    simp only [Bool.false_eq_true, if_false]
    rw [htext] at hread ⊢
    simp only [List.cons_append, if_neg (hminus d)] at hread ⊢
    simp only [hread]

/-- Whatever is read as a number without a fault was spelled by a token. -/
theorem token_of_readNumber {text after : Bytes} {r : Reading} (h : readNumber text = (r, after))
    (hskip : r.skip? = none) :
    ∃ n : NumberToken, text = n.text ++ after ∧ .number (.ok n.numeral) = r := by
  cases text with
  | nil =>
    cases h
    cases hskip
  | cons b rest =>
    rw [readNumber.eq_def] at h
    dsimp only at h
    generalize hread :
      (if b = code '-' then readUnsigned true rest else readUnsigned false (b :: rest)) = read at h
    cases read with
    | error fault =>
      cases h
      cases hskip
    | ok read =>
      cases h
      split at hread
      next hminus =>
        obtain ⟨n, rfl, hnumeral, hnegative⟩ := text_of_readUnsigned hread
        exact ⟨n, by rw [NumberToken.text, hnegative, hminus]; rfl, by rw [hnumeral]⟩
      · obtain ⟨n, htext, hnumeral, hnegative⟩ := text_of_readUnsigned hread
        exact ⟨n, by rw [NumberToken.text, hnegative, htext]; rfl, by rw [hnumeral]⟩

end ConfigStore.Json
