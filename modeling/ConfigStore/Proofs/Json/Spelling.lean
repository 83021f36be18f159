import ConfigStore.Proofs.Json.Tokens

/-!
# The texts of a value

A text spells a value token by token, with blanks in between. A spelling is such a text with its
structure: it says how each string and number is written and where the blanks are. The reader
agrees with it in both directions: a spelling is read as what it spells, and whatever is read
without a fault was spelled.

* `Json.Spelling` is the type of spellings, `Json.Spelling.text` the text and
  `Json.Spelling.reading` what it is read as.
* `Json.Spelling.bare` drops the blanks; `Json.Spelling.reading_bare` says that they do not count.
* `Json.readValue_text` reads a spelling, and `Json.spelling_of_readValue` finds the spelling of
  what was read.
* `Json.Spaced.text` is a whole text; `Json.Reader.run_text` reads it, and
  `Json.Reader.exists_spaced` finds it in a text that was read.
-/

namespace ConfigStore.Json

/-! ## Spellings -/

/-- Something with the blanks around it. -/
structure Spaced (α : Type) where
  /-- The blanks in front. -/
  before : Blanks
  /-- What stands between them. -/
  inner : α
  /-- The blanks behind. -/
  after : Blanks

/-- A member of an object: its name with the blanks in front, the blanks up to the colon, and its
value with the blanks around it. -/
structure SpelledMember (α : Type) where
  /-- The blanks in front of the name. -/
  before : Blanks
  /-- The name. -/
  name : List Stroke
  /-- The blanks between the name and the colon. -/
  gap : Blanks
  /-- The value. -/
  value : Spaced α

/-- A value as a text spells it. The blanks `inside` follow the opening bracket. -/
inductive Spelling
  | null
  | bool (b : Bool)
  | number (n : NumberToken)
  | string (strokes : List Stroke)
  | array (inside : Blanks) (items : List (Spaced Spelling))
  | object (inside : Blanks) (members : List (SpelledMember Spelling))

namespace Spelling

mutual

/-- The text of a spelling. -/
def text : Spelling → Bytes
  | .null => ['n', 'u', 'l', 'l'].map code
  | .bool true => ['t', 'r', 'u', 'e'].map code
  | .bool false => ['f', 'a', 'l', 's', 'e'].map code
  | .number n => n.text
  | .string strokes => code '"' :: strokesText strokes
  | .array inside [] => code '[' :: (inside.1 ++ [code ']'])
  | .array inside (⟨before, v, after⟩ :: rest) =>
    code '[' :: (inside.1 ++ (before.1 ++ (text v ++ (after.1 ++ textItems rest))))
  | .object inside [] => code '\x7b' :: (inside.1 ++ [code '\x7d'])
  | .object inside (⟨front, name, gap, ⟨before, v, after⟩⟩ :: rest) =>
    code '\x7b' :: (inside.1 ++ (front.1 ++ (code '"' :: (strokesText name ++ (gap.1 ++
      (code ':' :: (before.1 ++ (text v ++ (after.1 ++ textMembers rest)))))))))

/-- The text of the items after the first one, and the end of the array. -/
def textItems : List (Spaced Spelling) → Bytes
  | [] => [code ']']
  | ⟨before, v, after⟩ :: rest =>
    code ',' :: (before.1 ++ (text v ++ (after.1 ++ textItems rest)))

/-- The text of the members after the first one, and the end of the object. -/
def textMembers : List (SpelledMember Spelling) → Bytes
  | [] => [code '\x7d']
  | ⟨front, name, gap, ⟨before, v, after⟩⟩ :: rest =>
    code ',' :: (front.1 ++ (code '"' :: (strokesText name ++ (gap.1 ++
      (code ':' :: (before.1 ++ (text v ++ (after.1 ++ textMembers rest))))))))

end

mutual

/-- What a spelling is read as. -/
def reading : Spelling → Reading
  | .null => .null
  | .bool b => .bool b
  | .number n => .number (.ok n.numeral)
  | .string strokes => .string (.ofStrokes strokes)
  | .array _ items => .array (readingItems items) none
  | .object _ members => .object (readingMembers members) none

/-- What items are read as. -/
def readingItems : List (Spaced Spelling) → List Reading
  | [] => []
  | ⟨_, v, _⟩ :: rest => reading v :: readingItems rest

/-- What members are read as. -/
def readingMembers : List (SpelledMember Spelling) → List (Quoted × Reading)
  | [] => []
  | ⟨_, name, _, ⟨_, v, _⟩⟩ :: rest => (.ofStrokes name, reading v) :: readingMembers rest

end

mutual

/-- The spelling without blanks. -/
def bare : Spelling → Spelling
  | .null => .null
  | .bool b => .bool b
  | .number n => .number n
  | .string strokes => .string strokes
  | .array _ items => .array .none (bareItems items)
  | .object _ members => .object .none (bareMembers members)

/-- Items without blanks. -/
def bareItems : List (Spaced Spelling) → List (Spaced Spelling)
  | [] => []
  | ⟨_, v, _⟩ :: rest => ⟨.none, bare v, .none⟩ :: bareItems rest

/-- Members without blanks. -/
def bareMembers : List (SpelledMember Spelling) → List (SpelledMember Spelling)
  | [] => []
  | ⟨_, name, _, ⟨_, v, _⟩⟩ :: rest =>
    ⟨.none, name, .none, ⟨.none, bare v, .none⟩⟩ :: bareMembers rest

end

mutual

/-- Blanks do not show in what is read. -/
theorem reading_bare (v : Spelling) : v.bare.reading = v.reading := by
  match v with
  | .null => rfl
  | .bool b => rfl
  | .number n => rfl
  | .string strokes => rfl
  | .array inside items => rw [bare, reading, readingItems_bareItems items, reading]
  | .object inside members => rw [bare, reading, readingMembers_bareMembers members, reading]

theorem readingItems_bareItems (items : List (Spaced Spelling)) :
    readingItems (bareItems items) = readingItems items := by
  match items with
  | [] => rfl
  | ⟨before, v, after⟩ :: rest =>
    rw [bareItems, readingItems, reading_bare v, readingItems_bareItems rest, readingItems]

theorem readingMembers_bareMembers (members : List (SpelledMember Spelling)) :
    readingMembers (bareMembers members) = readingMembers members := by
  match members with
  | [] => rfl
  | ⟨front, name, gap, ⟨before, v, after⟩⟩ :: rest =>
    rw [bareMembers, readingMembers, reading_bare v, readingMembers_bareMembers rest,
      readingMembers]

end

mutual

/-- Passing over what is spelled meets no fault. -/
theorem skip?_reading (v : Spelling) : v.reading.skip? = none := by
  match v with
  | .null => rfl
  | .bool b => rfl
  | .number n => rfl
  | .string strokes => rfl
  | .array inside items => rw [reading, Reading.skip?, skipItems?_readingItems items]; rfl
  | .object inside members => rw [reading, Reading.skip?, skipMembers?_readingMembers members]; rfl

theorem skipItems?_readingItems (items : List (Spaced Spelling)) :
    Reading.skipItems? (readingItems items) = none := by
  match items with
  | [] => rfl
  | ⟨before, v, after⟩ :: rest =>
    exact Reading.skipItems?_cons_iff.mpr ⟨skip?_reading v, skipItems?_readingItems rest⟩

theorem skipMembers?_readingMembers (members : List (SpelledMember Spelling)) :
    Reading.skipMembers? (readingMembers members) = none := by
  match members with
  | [] => rfl
  | ⟨front, name, gap, ⟨before, v, after⟩⟩ :: rest =>
    exact Reading.skipMembers?_cons_iff.mpr
      ⟨rfl, skip?_reading v, skipMembers?_readingMembers rest⟩

end

end Spelling

open Spelling

/-! ## Reading what is spelled -/

theorem readValue_blanks (fuel : Nat) (blanks : Blanks) (text : Bytes) :
    readValue fuel (blanks.1 ++ text) = readValue fuel text := by
  rw [readValue.eq_def, readValue.eq_def fuel text, skipBlanks_blanks]

theorem readItems_blanks (fuel : Nat) (blanks : Blanks) (text : Bytes) :
    readItems fuel (blanks.1 ++ text) = readItems fuel text := by
  cases fuel with
  | zero => rfl
  | succ fuel => rw [readItems, readItems, readValue_blanks]

theorem readMembers_blanks (fuel : Nat) (blanks : Blanks) (text : Bytes) :
    readMembers fuel (blanks.1 ++ text) = readMembers fuel text := by
  cases fuel with
  | zero => rfl
  | succ fuel => rw [readMembers, readMembers, skipBlanks_blanks]

theorem readWord_map (word : List Char) (meaning : Reading) (rest : Bytes) :
    readWord word meaning (word.map code ++ rest) = (meaning, rest) := by
  induction word with
  | nil => rfl
  | cons c cs ih =>
    rw [List.map_cons, List.cons_append, readWord, if_pos rfl]
    exact ih

/-- A number begins with a minus or a digit. -/
theorem number_begins (n : NumberToken) :
    ∃ b rest, n.text = b :: rest ∧ (b = code '-' ∨ (digit? b).isSome) := by
  obtain ⟨d, rest, hunsigned⟩ := exists_unsigned n
  cases hnegative : n.negative with
  | true => exact ⟨_, _, by rw [NumberToken.text, hnegative, if_pos rfl], .inl rfl⟩
  | false =>
    refine ⟨digitByte d, rest, ?_, .inr (by rw [digit?_digitByte]; rfl)⟩
    rw [NumberToken.text, hnegative, if_neg (by simp), hunsigned]

/-- A spelling begins like a value. -/
theorem text_begins (v : Spelling) : ∃ b rest, v.text = b :: rest ∧ Begins b := by
  match v with
  | .null => exact ⟨_, _, rfl, .inl (by decide)⟩
  | .bool true => exact ⟨_, _, rfl, .inl (by decide)⟩
  | .bool false => exact ⟨_, _, rfl, .inl (by decide)⟩
  | .number n =>
    obtain ⟨b, rest, htext, hb⟩ := number_begins n
    exact ⟨b, rest, by rw [text, htext], hb.imp_left (by rintro rfl; decide)⟩
  | .string strokes => exact ⟨_, _, by rw [text], .inl (by decide)⟩
  | .array inside [] => exact ⟨_, _, by rw [text], .inl (by decide)⟩
  | .array inside (⟨_, _, _⟩ :: _) => exact ⟨_, _, by rw [text], .inl (by decide)⟩
  | .object inside [] => exact ⟨_, _, by rw [text], .inl (by decide)⟩
  | .object inside (⟨_, _, _, ⟨_, _, _⟩⟩ :: _) => exact ⟨_, _, by rw [text], .inl (by decide)⟩

theorem length_pos_text (v : Spelling) : 0 < v.text.length := by
  obtain ⟨b, rest, htext, -⟩ := text_begins v
  rw [htext, List.length_cons]
  exact Nat.succ_pos _

theorem length_pos_textItems (items : List (Spaced Spelling)) : 0 < (textItems items).length := by
  rcases items with - | ⟨⟨_, _, _⟩, _⟩ <;> simp [textItems]

theorem length_pos_textMembers (members : List (SpelledMember Spelling)) :
    0 < (textMembers members).length := by
  rcases members with - | ⟨⟨_, _, _, ⟨_, _, _⟩⟩, _⟩ <;> simp [textMembers]

/-- What stands after an item does not belong to it. -/
theorem ends_textItems (after : Blanks) (items : List (Spaced Spelling)) (rest : Bytes) :
    Ends (after.1 ++ (textItems items ++ rest)) := by
  refine ends_blanks after ?_
  rcases items with - | ⟨⟨_, _, _⟩, _⟩ <;> rw [textItems, List.cons_append] <;>
    exact ends_cons (by decide) _

/-- What stands after a member does not belong to its value. -/
theorem ends_textMembers (after : Blanks) (members : List (SpelledMember Spelling)) (rest : Bytes) :
    Ends (after.1 ++ (textMembers members ++ rest)) := by
  refine ends_blanks after ?_
  rcases members with - | ⟨⟨_, _, _, ⟨_, _, _⟩⟩, _⟩ <;> rw [textMembers, List.cons_append] <;>
    exact ends_cons (by decide) _

mutual

/-- A spelling is read as what it spells, whatever follows it. -/
theorem readValue_text (v : Spelling) (fuel : Nat) (hfuel : v.text.length ≤ fuel) {rest : Bytes}
    (hrest : Ends rest) : readValue fuel (v.text ++ rest) = (v.reading, rest) := by
  have hpos := length_pos_text v
  obtain ⟨fuel, rfl⟩ : ∃ n, fuel = n + 1 := ⟨fuel - 1, by omega⟩
  match v with
  | .null =>
    rw [text, List.map_cons, List.cons_append, readValue.eq_def, skipBlanks_cons (by decide)]
    exact readWord_map _ .null rest
  | .bool true =>
    rw [text, List.map_cons, List.cons_append, readValue.eq_def, skipBlanks_cons (by decide)]
    exact readWord_map _ (.bool true) rest
  | .bool false =>
    rw [text, List.map_cons, List.cons_append, readValue.eq_def, skipBlanks_cons (by decide)]
    exact readWord_map _ (.bool false) rest
  | .number n =>
    obtain ⟨b, tail, htext, hb⟩ := number_begins n
    have hread := readNumber_token n hrest
    rw [htext, List.cons_append] at hread
    rw [text, htext, List.cons_append, readValue_number hb, hread, reading]
  | .string strokes =>
    rw [text, List.cons_append, readValue.eq_def, skipBlanks_cons (by decide)]
    simp only [if_true, readString_strokes, reading]
  | .array inside [] =>
    rw [text, List.cons_append, readValue.eq_def, skipBlanks_cons (by decide), List.append_assoc]
    simp only [show code '[' ≠ code '"' by decide, if_false, if_true, skipBlanks_blanks]
    rfl
  | .array inside (⟨before, v, after⟩ :: items) =>
    rw [text, List.length_cons, List.length_append, List.length_append] at hfuel
    have hread := readItems_text v after items fuel (by omega) rest
    obtain ⟨b, tail, htext, hb⟩ := text_begins v
    rw [text, List.cons_append, readValue.eq_def, skipBlanks_cons (by decide)]
    simp only [show code '[' ≠ code '"' by decide, if_false, if_true, List.append_assoc,
      skipBlanks_blanks]
    rw [htext, List.cons_append] at hread ⊢
    simp only [skipBlanks_cons hb.not_blank, if_neg hb.ne_close, hread, reading, readingItems]
  | .object inside [] =>
    rw [text, List.cons_append, readValue.eq_def, skipBlanks_cons (by decide), List.append_assoc]
    simp only [show code '\x7b' ≠ code '"' by decide, show code '\x7b' ≠ code '[' by decide,
      if_false, if_true, skipBlanks_blanks]
    rfl
  | .object inside (⟨front, name, gap, ⟨before, v, after⟩⟩ :: members) =>
    rw [text, List.length_cons, List.length_append, List.length_append] at hfuel
    have hread := readMembers_text name gap before v after members fuel (by omega) rest
    rw [text, List.cons_append, readValue.eq_def, skipBlanks_cons (by decide)]
    simp only [show code '\x7b' ≠ code '"' by decide, show code '\x7b' ≠ code '[' by decide,
      if_false, if_true, List.append_assoc, List.cons_append, skipBlanks_blanks,
      skipBlanks_cons (b := code '"') (by decide), show code '"' ≠ code '\x7d' by decide,
      hread, reading, readingMembers]
termination_by fuel

/-- Items are read as what they spell. -/
theorem readItems_text (v : Spelling) (after : Blanks) (items : List (Spaced Spelling)) (fuel : Nat)
    (hfuel : (v.text ++ (after.1 ++ textItems items)).length ≤ fuel) (rest : Bytes) :
    readItems fuel (v.text ++ (after.1 ++ (textItems items ++ rest)))
      = (v.reading :: readingItems items, none, rest) := by
  have hpos := length_pos_textItems items
  rw [List.length_append, List.length_append] at hfuel
  obtain ⟨fuel, rfl⟩ : ∃ n, fuel = n + 1 := ⟨fuel - 1, by omega⟩
  have hread := readValue_text v fuel (by omega) (ends_textItems after items rest)
  rw [readItems, hread]
  match items with
  | [] =>
    rw [textItems]
    simp only [List.cons_append, List.nil_append, skipBlanks_blanks,
      skipBlanks_cons (b := code ']') (by decide), show code ']' ≠ code ',' by decide, if_false,
      if_true, readingItems]
  | ⟨before, next, after'⟩ :: items =>
    rw [textItems, List.length_cons, List.length_append] at hfuel
    have hothers := readItems_text next after' items fuel (by omega) rest
    rw [textItems]
    simp only [List.cons_append, List.append_assoc, skipBlanks_blanks,
      skipBlanks_cons (b := code ',') (by decide), if_true, readItems_blanks, hothers, readingItems]
termination_by fuel

/-- Members are read as what they spell. -/
theorem readMembers_text (name : List Stroke) (gap before : Blanks) (v : Spelling) (after : Blanks)
    (members : List (SpelledMember Spelling)) (fuel : Nat)
    (hfuel : (code '"' :: (strokesText name ++ (gap.1 ++ (code ':' :: (before.1 ++ (v.text ++
      (after.1 ++ textMembers members))))))).length ≤ fuel) (rest : Bytes) :
    readMembers fuel (code '"' :: (strokesText name ++ (gap.1 ++ (code ':' :: (before.1 ++
        (v.text ++ (after.1 ++ (textMembers members ++ rest))))))))
      = ((.ofStrokes name, v.reading) :: readingMembers members, none, rest) := by
  have hpos := length_pos_textMembers members
  simp only [List.length_append, List.length_cons] at hfuel
  obtain ⟨fuel, rfl⟩ : ∃ n, fuel = n + 1 := ⟨fuel - 1, by omega⟩
  have hread := readValue_text v fuel (by omega) (ends_textMembers after members rest)
  rw [readMembers, skipBlanks_cons (by decide)]
  simp only [ne_eq, not_true_eq_false, if_false, readString_strokes, skipBlanks_blanks]
  rw [skipBlanks_cons (by decide)]
  simp only [not_true_eq_false, if_false, readValue_blanks, hread]
  match members with
  | [] =>
    rw [textMembers]
    simp only [List.cons_append, List.nil_append, skipBlanks_blanks,
      skipBlanks_cons (b := code '\x7d') (by decide), show code '\x7d' ≠ code ',' by decide,
      if_false, if_true, readingMembers]
  | ⟨front, next, gap', ⟨before', w, after'⟩⟩ :: members =>
    rw [textMembers, List.length_cons, List.length_append] at hfuel
    have hothers := readMembers_text next gap' before' w after' members fuel (by omega) rest
    rw [textMembers]
    simp only [List.cons_append, List.append_assoc, skipBlanks_blanks,
      skipBlanks_cons (b := code ',') (by decide), if_true, readMembers_blanks, hothers,
      readingMembers]
termination_by fuel

end

/-! ## Finding the spelling of what was read -/

theorem eq_of_readWord {word : List Char} {meaning r : Reading} {text after : Bytes}
    (h : readWord word meaning text = (r, after)) (hskip : r.skip? = none) :
    text = word.map code ++ after ∧ meaning = r := by
  induction word generalizing text with
  | nil =>
    cases h
    exact ⟨rfl, rfl⟩
  | cons c cs ih =>
    cases text with
    | nil =>
      cases h
      cases hskip
    | cons b rest =>
      rw [readWord] at h
      split at h
      next heq =>
        obtain ⟨htext, hr⟩ := ih h
        exact ⟨by rw [heq, htext, List.map_cons, List.cons_append], hr⟩
      · cases h
        cases hskip

/-- What stands before something that is no blank, and the blanks in front of it. -/
theorem exists_blanks_cons {text rest : Bytes} {b : UInt8} (h : skipBlanks text = b :: rest) :
    ∃ blanks : Blanks, text = blanks.1 ++ b :: rest :=
  h ▸ exists_blanks text

/-- What follows an item that is read without a fault: the end of the array, or a comma and the
other items. -/
theorem readItems_inv {fuel : Nat} {text after : Bytes} {items : List Reading}
    (h : readItems (fuel + 1) text = (items, none, after))
    (hskip : Reading.skipItems? items = none) :
    ∃ (r : Reading) (behind : Blanks) (next : Bytes) (others : List Reading),
      readValue fuel text = (r, behind.1 ++ next) ∧ r.skip? = none ∧ items = r :: others ∧
        (next = code ']' :: after ∧ others = [] ∨
          ∃ rest, next = code ',' :: rest ∧ readItems fuel rest = (others, none, after) ∧
            Reading.skipItems? others = none) := by
  rw [readItems] at h
  generalize readValue fuel text = read at h ⊢
  obtain ⟨r, text'⟩ := read
  dsimp only at h
  cases hnext : skipBlanks text' with
  | nil =>
    rw [hnext] at h
    cases h
  | cons b rest =>
    obtain ⟨behind, rfl⟩ := exists_blanks_cons hnext
    rw [hnext] at h
    dsimp only at h
    split at h
    next hcomma =>
      generalize hothers : readItems fuel rest = read at h
      obtain ⟨others, stop, rest'⟩ := read
      cases h
      obtain ⟨hr, hall⟩ := Reading.skipItems?_cons_iff.mp hskip
      exact ⟨r, behind, _, others, rfl, hr, rfl, .inr ⟨rest, by rw [hcomma], hothers, hall⟩⟩
    · split at h
      next hclose =>
        cases h
        obtain ⟨hr, -⟩ := Reading.skipItems?_cons_iff.mp hskip
        exact ⟨r, behind, _, [], rfl, hr, rfl, .inl ⟨by rw [hclose], rfl⟩⟩
      · cases h

/-- What stands before the value of a member that is read without a fault, and what follows it: the
end of the object, or a comma and the other members. -/
theorem readMembers_inv {fuel : Nat} {text after : Bytes} {members : List (Quoted × Reading)}
    (h : readMembers (fuel + 1) text = (members, none, after))
    (hskip : Reading.skipMembers? members = none) :
    ∃ (front : Blanks) (name : List Stroke) (gap : Blanks) (text' : Bytes) (r : Reading)
      (behind : Blanks) (next : Bytes) (others : List (Quoted × Reading)),
      text = front.1 ++ (code '"' :: (strokesText name ++ (gap.1 ++ (code ':' :: text')))) ∧
        readValue fuel text' = (r, behind.1 ++ next) ∧ r.skip? = none ∧
        members = (.ofStrokes name, r) :: others ∧
        (next = code '\x7d' :: after ∧ others = [] ∨
          ∃ rest, next = code ',' :: rest ∧ readMembers fuel rest = (others, none, after) ∧
            Reading.skipMembers? others = none) := by
  rw [readMembers] at h
  cases hfirst : skipBlanks text with
  | nil =>
    rw [hfirst] at h
    cases h
  | cons q rest =>
    obtain ⟨front, rfl⟩ := exists_blanks_cons hfirst
    rw [hfirst] at h
    dsimp only at h
    split at h
    · cases h
    next hquote =>
      generalize hname : readString rest = read at h
      obtain ⟨name, text₁⟩ := read
      dsimp only at h
      cases hcolon : skipBlanks text₁ with
      | nil =>
        rw [hcolon] at h
        cases h
        cases (Reading.skipMembers?_cons_iff.mp hskip).2.1
      | cons colon text₂ =>
        obtain ⟨gap, rfl⟩ := exists_blanks_cons hcolon
        rw [hcolon] at h
        dsimp only at h
        split at h
        · cases h
          cases (Reading.skipMembers?_cons_iff.mp hskip).2.1
        next hsign =>
          -- the value is read whatever stands behind it
          generalize hvalue : readValue fuel text₂ = read at h
          obtain ⟨r, text₃⟩ := read
          dsimp only at h
          cases hnext : skipBlanks text₃ with
          | nil =>
            rw [hnext] at h
            cases h
          | cons b rest =>
            obtain ⟨behind, rfl⟩ := exists_blanks_cons hnext
            rw [hnext] at h
            dsimp only at h
            split at h
            next hcomma =>
              generalize hothers : readMembers fuel rest = read at h
              obtain ⟨others, stop, rest'⟩ := read
              cases h
              obtain ⟨hstop, hr, hall⟩ := Reading.skipMembers?_cons_iff.mp hskip
              obtain ⟨strokes, rfl, rfl⟩ := strokes_of_readString hname hstop
              exact ⟨front, strokes, gap, text₂, r, behind, _, others,
                by rw [not_not.mp hquote, not_not.mp hsign], hvalue, hr, rfl,
                .inr ⟨rest, by rw [hcomma], hothers, hall⟩⟩
            · split at h
              next hclose =>
                cases h
                obtain ⟨hstop, hr, -⟩ := Reading.skipMembers?_cons_iff.mp hskip
                obtain ⟨strokes, rfl, rfl⟩ := strokes_of_readString hname hstop
                exact ⟨front, strokes, gap, text₂, r, behind, _, [],
                  by rw [not_not.mp hquote, not_not.mp hsign], hvalue, hr, rfl,
                  .inl ⟨by rw [hclose], rfl⟩⟩
              · cases h

/-- What a value that is read without a fault begins with: it has nothing in it and is spelled, or
it is a container, and its items or members are read. -/
theorem readValue_inv {fuel : Nat} {text after : Bytes} {r : Reading}
    (h : readValue (fuel + 1) text = (r, after)) (hskip : r.skip? = none) :
    ∃ (before : Blanks) (own : Bytes), text = before.1 ++ own ∧
      ((∃ v : Spelling, own = v.text ++ after ∧ v.reading = r) ∨
        (∃ (inside : Blanks) (inner : Bytes) (items : List Reading),
          own = code '[' :: (inside.1 ++ inner) ∧ r = .array items none ∧
            readItems fuel inner = (items, none, after) ∧ Reading.skipItems? items = none) ∨
        ∃ (inside : Blanks) (inner : Bytes) (members : List (Quoted × Reading)),
          own = code '\x7b' :: (inside.1 ++ inner) ∧ r = .object members none ∧
            readMembers fuel inner = (members, none, after) ∧
            Reading.skipMembers? members = none) := by
  rw [readValue.eq_def] at h
  cases hfirst : skipBlanks text with
  | nil =>
    rw [hfirst] at h
    cases h
    cases hskip
  | cons b rest =>
    obtain ⟨before, rfl⟩ := exists_blanks_cons hfirst
    refine ⟨before, b :: rest, rfl, ?_⟩
    rw [hfirst] at h
    dsimp only at h
    split at h
    next hquote =>
      generalize hread : readString rest = read at h
      obtain ⟨s, rest'⟩ := read
      cases h
      obtain ⟨strokes, rfl, rfl⟩ := strokes_of_readString hread hskip
      exact .inl ⟨.string strokes, by rw [hquote]; rfl, rfl⟩
    split at h
    next hbracket =>
      cases hnext : skipBlanks rest with
      | nil =>
        rw [hnext] at h
        cases h
        cases hskip
      | cons c tail =>
        obtain ⟨inside, rfl⟩ := exists_blanks_cons hnext
        rw [hnext] at h
        dsimp only at h
        split at h
        next hclose =>
          cases h
          refine .inl ⟨.array inside [], ?_, rfl⟩
          rw [hbracket, hclose, Spelling.text, List.cons_append, List.append_assoc]
          rfl
        · generalize hitems : readItems fuel (c :: tail) = read at h
          obtain ⟨items, stop, rest'⟩ := read
          cases h
          obtain ⟨hall, rfl⟩ := Option.or_eq_none_iff.mp hskip
          exact .inr (.inl ⟨inside, c :: tail, items, by rw [hbracket], rfl, hitems, hall⟩)
    split at h
    next hbrace =>
      cases hnext : skipBlanks rest with
      | nil =>
        rw [hnext] at h
        cases h
        cases hskip
      | cons c tail =>
        obtain ⟨inside, rfl⟩ := exists_blanks_cons hnext
        rw [hnext] at h
        dsimp only at h
        split at h
        next hclose =>
          cases h
          refine .inl ⟨.object inside [], ?_, rfl⟩
          rw [hbrace, hclose, Spelling.text, List.cons_append, List.append_assoc]
          rfl
        · generalize hmembers : readMembers fuel (c :: tail) = read at h
          obtain ⟨members, stop, rest'⟩ := read
          cases h
          obtain ⟨hall, rfl⟩ := Option.or_eq_none_iff.mp hskip
          exact .inr (.inr ⟨inside, c :: tail, members, by rw [hbrace], rfl, hmembers, hall⟩)
    split at h
    next hn =>
      obtain ⟨rfl, rfl⟩ := eq_of_readWord h hskip
      exact .inl ⟨.null, by rw [hn]; rfl, rfl⟩
    split at h
    next ht =>
      obtain ⟨rfl, rfl⟩ := eq_of_readWord h hskip
      exact .inl ⟨.bool true, by rw [ht]; rfl, rfl⟩
    split at h
    next hf =>
      obtain ⟨rfl, rfl⟩ := eq_of_readWord h hskip
      exact .inl ⟨.bool false, by rw [hf]; rfl, rfl⟩
    split at h
    · obtain ⟨token, htext, rfl⟩ := token_of_readNumber h hskip
      exact .inl ⟨.number token, htext, rfl⟩
    · cases h
      cases hskip

mutual

/-- Whatever is read without a fault was spelled. -/
theorem spelling_of_readValue (fuel : Nat) {text after : Bytes} {r : Reading}
    (h : readValue fuel text = (r, after)) (hskip : r.skip? = none) :
    ∃ (before : Blanks) (v : Spelling), text = before.1 ++ (v.text ++ after) ∧ v.reading = r := by
  match fuel with
  | 0 =>
    rw [readValue.eq_def] at h
    cases h
    cases hskip
  | fuel + 1 =>
    obtain ⟨before, own, rfl, ⟨v, rfl, hv⟩ | ⟨inside, inner, items, rfl, rfl, hread, hall⟩ |
      ⟨inside, inner, members, rfl, rfl, hread, hall⟩⟩ := readValue_inv h hskip
    · exact ⟨before, v, rfl, hv⟩
    · obtain ⟨front, v, behind, others, rfl, rfl⟩ := items_of_readItems fuel hread hall
      refine ⟨before, .array inside (⟨front, v, behind⟩ :: others), ?_, rfl⟩
      simp only [Spelling.text, List.cons_append, List.append_assoc]
    · obtain ⟨⟨front, name, gap, ⟨between, v, behind⟩⟩, others, rfl, rfl⟩ :=
        members_of_readMembers fuel hread hall
      refine ⟨before, .object inside (⟨front, name, gap, ⟨between, v, behind⟩⟩ :: others), ?_, rfl⟩
      simp only [Spelling.text, List.cons_append, List.append_assoc]
termination_by fuel

/-- Items that are read without a fault were spelled. -/
theorem items_of_readItems (fuel : Nat) {text after : Bytes} {items : List Reading}
    (h : readItems fuel text = (items, none, after)) (hskip : Reading.skipItems? items = none) :
    ∃ (before : Blanks) (v : Spelling) (behind : Blanks) (others : List (Spaced Spelling)),
      text = before.1 ++ (v.text ++ (behind.1 ++ (textItems others ++ after))) ∧
        v.reading :: readingItems others = items := by
  match fuel with
  | 0 => cases h
  | fuel + 1 =>
    obtain ⟨r, behind, next, others, hread, hr, rfl, hnext⟩ := readItems_inv h hskip
    obtain ⟨before, v, rfl, rfl⟩ := spelling_of_readValue fuel hread hr
    rcases hnext with ⟨rfl, rfl⟩ | ⟨rest, rfl, hothers, hall⟩
    · exact ⟨before, v, behind, [], rfl, rfl⟩
    · obtain ⟨front, w, behind', others, rfl, rfl⟩ := items_of_readItems fuel hothers hall
      refine ⟨before, v, behind, ⟨front, w, behind'⟩ :: others, ?_, rfl⟩
      simp only [textItems, List.cons_append, List.append_assoc]
termination_by fuel

/-- Members that are read without a fault were spelled. -/
theorem members_of_readMembers (fuel : Nat) {text after : Bytes}
    {members : List (Quoted × Reading)} (h : readMembers fuel text = (members, none, after))
    (hskip : Reading.skipMembers? members = none) :
    ∃ (m : SpelledMember Spelling) (others : List (SpelledMember Spelling)),
      text = m.before.1 ++ (code '"' :: (strokesText m.name ++ (m.gap.1 ++ (code ':' ::
        (m.value.before.1 ++ (m.value.inner.text ++ (m.value.after.1 ++
          (textMembers others ++ after)))))))) ∧
        readingMembers (m :: others) = members := by
  match fuel with
  | 0 => cases h
  | fuel + 1 =>
    obtain ⟨front, name, gap, text', r, behind, next, others, rfl, hread, hr, rfl, hnext⟩ :=
      readMembers_inv h hskip
    obtain ⟨before, v, rfl, rfl⟩ := spelling_of_readValue fuel hread hr
    rcases hnext with ⟨rfl, rfl⟩ | ⟨rest, rfl, hothers, hall⟩
    · exact ⟨⟨front, name, gap, ⟨before, v, behind⟩⟩, [], rfl, rfl⟩
    · obtain ⟨m, others, rfl, rfl⟩ := members_of_readMembers fuel hothers hall
      refine ⟨⟨front, name, gap, ⟨before, v, behind⟩⟩, m :: others, ?_, rfl⟩
      simp only [textMembers, List.cons_append, List.append_assoc]
termination_by fuel

end

/-! ## Whole texts -/

/-- The text of a value with the blanks around it. -/
def Spaced.text (t : Spaced Spelling) : Bytes := t.before.1 ++ (t.inner.text ++ t.after.1)

/-- A value with the blanks around it is read as what it spells, and the blanks behind it are
left. -/
theorem Reading.ofBytes_text (t : Spaced Spelling) :
    Reading.ofBytes t.text = (t.inner.reading, t.after.1) := by
  have hends := ends_blanks t.after ends_nil
  rw [List.append_nil] at hends
  rw [Reading.ofBytes, Spaced.text, readValue_blanks]
  refine readValue_text t.inner _ ?_ hends
  simp only [List.length_append]
  omega

/-- What is read from a whole text is what is read from the value that the text spells. -/
theorem Reader.run_text {α : Type} (read : Reader α) (t : Spaced Spelling) :
    read.run t.text = read maxDepth t.inner.reading := by
  have hblanks : skipBlanks t.after.1 = [] := by
    have := skipBlanks_blanks t.after []
    rwa [List.append_nil] at this
  rw [run, Reading.ofBytes_text]
  cases hread : read maxDepth t.inner.reading with
  | error fault => simp only [bind, Except.bind, hread]
  | ok a => simp only [bind, Except.bind, hread, hblanks, List.isEmpty_nil, if_true]

/-- A text that is read by a reader who passes over no fault spells a value. -/
theorem Reader.exists_spaced {α : Type} {read : Reader α} {text : Bytes} {a : α}
    (hread : ∀ r, read maxDepth r = .ok a → r.skip? = none) (h : read.run text = .ok a) :
    ∃ t : Spaced Spelling, t.text = text := by
  rw [run] at h
  generalize hfound : Reading.ofBytes text = found at h
  obtain ⟨r, after⟩ := found
  obtain ⟨b, hb, h⟩ := ok_of_bind h
  split at h
  next hempty =>
    cases h
    obtain ⟨before, v, rfl, -⟩ := spelling_of_readValue _ hfound (hread r hb)
    obtain ⟨behind, hbehind⟩ := exists_blanks after
    rw [List.isEmpty_iff.mp hempty, List.append_nil] at hbehind
    exact ⟨⟨before, v, behind⟩, by rw [Spaced.text, hbehind]⟩
  · cases h

end ConfigStore.Json
