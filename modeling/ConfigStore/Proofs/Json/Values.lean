import ConfigStore.Proofs.Json.Numbers

/-!
# Values that are written and read back

The text of a value is read as the reading that spells the value, whatever follows it. Doubles are
left out: every number within the value is an integer of 64 bits.

* `Json.Value.Plain` says which values are meant and `Json.Value.reading` what they are read as.
* `Json.readValue_render` reads the text of a value; the fuel need not be more than its length.
* `Json.Reading.ofBytes_encode` reads a text that holds one value and nothing else.
-/

namespace ConfigStore.Json

/-! ## What is read -/

namespace Value

mutual

/-- Every number within the value is an integer that fits. -/
def Plain : Value → Prop
  | .number (.integer n) => Fits n
  | .number (.double _) => False
  | .array items => PlainItems items
  | .object members => PlainMembers members
  | .null | .bool _ | .string _ => True

/-- Every item is plain. -/
def PlainItems : List Value → Prop
  | [] => True
  | v :: rest => Plain v ∧ PlainItems rest

/-- The value of every member is plain. -/
def PlainMembers : List (String × Value) → Prop
  | [] => True
  | (_, v) :: rest => Plain v ∧ PlainMembers rest

end

mutual

/-- What the text of a plain value is read as. -/
def reading : Value → Reading
  | .null => .null
  | .bool b => .bool b
  | .number (.integer n) => .number (.ok (.ofInt n))
  | .number (.double _) => .broken .malformed
  | .string s => .string (.ofString s)
  | .array items => .array (readingItems items) none
  | .object members => .object (readingMembers members) none

/-- What the texts of items are read as. -/
def readingItems : List Value → List Reading
  | [] => []
  | v :: rest => reading v :: readingItems rest

/-- What the texts of members are read as. -/
def readingMembers : List (String × Value) → List (Quoted × Reading)
  | [] => []
  | (name, v) :: rest => (.ofString name, reading v) :: readingMembers rest

end

end Value

open Value

/-! ## Tokens -/

theorem skipBlanks_cons {b : UInt8} (h : isBlank b = false) (rest : Bytes) :
    skipBlanks (b :: rest) = b :: rest := by
  rw [skipBlanks, List.dropWhile_cons_of_neg (by simp [h])]

theorem ends_cons {b : UInt8} (h : digit? b = none ∧ b ≠ code '.' ∧ b ≠ code 'e' ∧ b ≠ code 'E')
    (rest : Bytes) : Ends (b :: rest) := by
  intro x hx
  obtain rfl := Option.some.inj hx
  exact h

theorem encodeChars_cons_append {c : Char} (h : c.toNat < 0x80) (cs : List Char) (rest : Bytes) :
    Utf8.encodeChars (c :: cs) ++ rest = code c :: (Utf8.encodeChars cs ++ rest) := by
  rw [encodeChars_cons_of_lt h, List.cons_append]

/-- A byte with which a value can begin. -/
def Begins (b : UInt8) : Prop :=
  b ∈ ['"', '[', '\x7b', 'n', 't', 'f', '-'].map code ∨ (digit? b).isSome

theorem Begins.not_blank {b : UInt8} (h : Begins b) : isBlank b = false := by
  rcases h with h | h
  · have hall : (['"', '[', '\x7b', 'n', 't', 'f', '-'].map code).all (!isBlank ·) = true := by
      decide
    simpa using List.all_eq_true.mp hall b h
  · rw [digit?] at h
    split at h
    next hrange =>
      simp only [isBlank, Bool.or_eq_false_iff, beq_eq_false_iff_ne]
      refine ⟨⟨⟨?_, ?_⟩, ?_⟩, ?_⟩ <;> rintro rfl <;> exact absurd hrange (by decide)
    next => cases h

theorem Begins.ne_close {b : UInt8} (h : Begins b) : b ≠ code ']' := by
  rintro rfl
  exact absurd h (by unfold Begins; decide)

/-- The text of a value begins like one. -/
theorem encodeChars_render (v : Value) (h : Plain v) {rest : Bytes} (hrest : Ends rest) :
    ∃ b text, Utf8.encodeChars v.render ++ rest = b :: text ∧ Begins b := by
  match v with
  | .null => exact ⟨_, _, encodeChars_cons_append (by decide) _ _, .inl (by decide)⟩
  | .bool true => exact ⟨_, _, encodeChars_cons_append (by decide) _ _, .inl (by decide)⟩
  | .bool false => exact ⟨_, _, encodeChars_cons_append (by decide) _ _, .inl (by decide)⟩
  | .number (.integer n) =>
    obtain ⟨b, text, htext, hb, -⟩ := encodeChars_integerText n hrest
    refine ⟨b, text, htext, ?_⟩
    rcases hb with rfl | hb
    · exact .inl (by decide)
    · exact .inr hb
  | .string s => exact ⟨_, _, encodeChars_cons_append (by decide) _ _, .inl (by decide)⟩
  | .array [] => exact ⟨_, _, encodeChars_cons_append (by decide) _ _, .inl (by decide)⟩
  | .array (_ :: _) => exact ⟨_, _, encodeChars_cons_append (by decide) _ _, .inl (by decide)⟩
  | .object [] => exact ⟨_, _, encodeChars_cons_append (by decide) _ _, .inl (by decide)⟩
  | .object ((_, _) :: _) =>
    exact ⟨_, _, encodeChars_cons_append (by decide) _ _, .inl (by decide)⟩

/-- What stands after an item does not belong to it. -/
theorem ends_renderItems (items : List Value) (rest : Bytes) :
    Ends (Utf8.encodeChars (renderItems items) ++ rest) := by
  cases items with
  | nil => rw [renderItems, encodeChars_cons_append (by decide)]; exact ends_cons (by decide) _
  | cons v items =>
    rw [renderItems, encodeChars_cons_append (by decide)]
    exact ends_cons (by decide) _

/-- What stands after a member does not belong to its value. -/
theorem ends_renderMembers (members : List (String × Value)) (rest : Bytes) :
    Ends (Utf8.encodeChars (renderMembers members) ++ rest) := by
  cases members with
  | nil => rw [renderMembers, encodeChars_cons_append (by decide)]; exact ends_cons (by decide) _
  | cons m members =>
    obtain ⟨name, v⟩ := m
    rw [renderMembers, encodeChars_cons_append (by decide)]
    exact ends_cons (by decide) _

/-! ## Reading what was written -/

theorem readWord_chars (word : List Char) (hword : word.all (·.toNat < 0x80) = true)
    (meaning : Reading) (rest : Bytes) :
    readWord word meaning (Utf8.encodeChars word ++ rest) = (meaning, rest) := by
  induction word with
  | nil => rfl
  | cons c cs ih =>
    obtain ⟨hc, hcs⟩ := Bool.and_eq_true_iff.mp (List.all_cons ▸ hword)
    rw [encodeChars_cons_append (of_decide_eq_true hc), readWord, if_pos rfl]
    exact ih hcs

theorem readValue_number {b : UInt8} (h : b = code '-' ∨ (digit? b).isSome) (fuel : Nat)
    (text : Bytes) : readValue (fuel + 1) (b :: text) = readNumber (b :: text) := by
  have hbegins : Begins b := h.imp_left (by rintro rfl; decide)
  have hne : ∀ c ∈ ['"', '[', '\x7b', 'n', 't', 'f'], b ≠ code c := by
    intro c hc
    have hall : ['"', '[', '\x7b', 'n', 't', 'f'].all (fun c =>
        code c ≠ code '-' && (digit? (code c)).isNone) = true := by decide
    obtain ⟨hminus, hdigit⟩ := Bool.and_eq_true_iff.mp (List.all_eq_true.mp hall c hc)
    rintro rfl
    rcases h with h | h
    · exact of_decide_eq_true hminus h
    · rw [Option.isNone_iff_eq_none.mp hdigit] at h
      cases h
  rw [readValue.eq_def, skipBlanks_cons hbegins.not_blank]
  simp only [if_neg (hne '"' (by simp)), if_neg (hne '[' (by simp)), if_neg (hne '\x7b' (by simp)),
    if_neg (hne 'n' (by simp)), if_neg (hne 't' (by simp)), if_neg (hne 'f' (by simp)), if_pos h]

theorem readMembers_one (name : String) (fuel : Nat) (text : Bytes) :
    readMembers (fuel + 1) (Utf8.encodeChars (stringText name) ++ code ':' :: text)
      = match skipBlanks (readValue fuel text).2 with
        | [] => ([(.ofString name, (readValue fuel text).1)], some .truncated, [])
        | b :: rest =>
          if b = code ',' then
            let (members, stop, after) := readMembers fuel rest
            ((.ofString name, (readValue fuel text).1) :: members, stop, after)
          else if b = code '\x7d' then ([(.ofString name, (readValue fuel text).1)], none, rest)
          else ([(.ofString name, (readValue fuel text).1)], some .malformed, []) := by
  obtain ⟨quoted, htext, hread⟩ := encodeChars_stringText name (code ':' :: text)
  rw [htext, readMembers, skipBlanks_cons (by decide)]
  simp only [ne_eq, not_true_eq_false, if_false, hread]
  rw [skipBlanks_cons (by decide)]
  exact if_neg (not_not.mpr rfl)

theorem length_pos_renderItems (items : List Value) : 0 < (renderItems items).length := by
  cases items <;> simp [renderItems]

theorem length_pos_renderMembers (members : List (String × Value)) :
    0 < (renderMembers members).length := by
  rcases members with - | ⟨⟨_, _⟩, _⟩ <;> simp [renderMembers]

theorem length_pos_render (v : Value) (h : Plain v) : 0 < v.render.length := by
  obtain ⟨b, text, htext, -⟩ := encodeChars_render v h ends_nil
  rw [List.append_nil] at htext
  refine List.length_pos_iff.mpr ?_
  intro hnil
  rw [hnil] at htext
  cases htext

mutual

/-- The text of a value is read as the value. -/
theorem readValue_render (v : Value) (hv : Plain v) (fuel : Nat) (hfuel : v.render.length ≤ fuel)
    {rest : Bytes} (hrest : Ends rest) :
    readValue fuel (Utf8.encodeChars v.render ++ rest) = (v.reading, rest) := by
  have hpos := length_pos_render v hv
  obtain ⟨fuel, rfl⟩ : ∃ n, fuel = n + 1 := ⟨fuel - 1, by omega⟩
  match v with
  | .null =>
    rw [render, encodeChars_cons_append (by decide), readValue.eq_def, skipBlanks_cons (by decide)]
    exact readWord_chars _ (by decide) .null rest
  | .bool true =>
    rw [render, encodeChars_cons_append (by decide), readValue.eq_def, skipBlanks_cons (by decide)]
    exact readWord_chars _ (by decide) (.bool true) rest
  | .bool false =>
    rw [render, encodeChars_cons_append (by decide), readValue.eq_def, skipBlanks_cons (by decide)]
    exact readWord_chars _ (by decide) (.bool false) rest
  | .number (.integer n) =>
    obtain ⟨b, text, htext, hb, hread⟩ := encodeChars_integerText n hrest
    rw [render, numberText, htext, readValue_number hb, hread, reading]
  | .string s =>
    obtain ⟨text, htext, hread⟩ := encodeChars_stringText s rest
    rw [render, htext, readValue.eq_def, skipBlanks_cons (by decide)]
    simp only [if_true, hread, reading]
  | .array [] =>
    rw [render, encodeChars_cons_append (by decide), readValue.eq_def, skipBlanks_cons (by decide)]
    rfl
  | .array (v :: items) =>
    obtain ⟨hfirst, hitems⟩ := hv
    rw [render, List.length_cons] at hfuel
    have hends := ends_renderItems items rest
    obtain ⟨b, text, htext, hb⟩ := encodeChars_render v hfirst hends
    have hread := readItems_render v items hfirst hitems fuel (by omega) rest
    rw [render, encodeChars_cons_append (by decide), encodeChars_append, List.append_assoc,
      readValue.eq_def, skipBlanks_cons (by decide)]
    rw [htext] at hread ⊢
    simp only [show code '[' ≠ code '"' by decide, if_false, if_true,
      skipBlanks_cons hb.not_blank, if_neg hb.ne_close, hread, reading]
  | .object [] =>
    rw [render, encodeChars_cons_append (by decide), readValue.eq_def, skipBlanks_cons (by decide)]
    rfl
  | .object ((name, v) :: members) =>
    obtain ⟨hfirst, hmembers⟩ := hv
    rw [render, List.length_cons] at hfuel
    obtain ⟨text, htext, -⟩ := encodeChars_stringText name
      (Utf8.encodeChars (':' :: (render v ++ renderMembers members)) ++ rest)
    have hread := readMembers_render name v members hfirst hmembers fuel (by omega) rest
    rw [render, encodeChars_cons_append (by decide), encodeChars_append, List.append_assoc,
      readValue.eq_def, skipBlanks_cons (by decide)]
    rw [encodeChars_append, List.append_assoc] at hread
    rw [htext] at hread ⊢
    simp only [show code '\x7b' ≠ code '"' by decide, show code '\x7b' ≠ code '[' by decide,
      if_false, if_true, skipBlanks_cons (b := code '"') (by decide),
      show code '"' ≠ code '\x7d' by decide, hread, reading]
termination_by fuel

/-- The texts of items are read as the items. -/
theorem readItems_render (v : Value) (items : List Value) (hv : Plain v) (hitems : PlainItems items)
    (fuel : Nat) (hfuel : (render v ++ renderItems items).length ≤ fuel) (rest : Bytes) :
    readItems fuel (Utf8.encodeChars v.render ++ (Utf8.encodeChars (renderItems items) ++ rest))
      = (readingItems (v :: items), none, rest) := by
  have hpos := length_pos_renderItems items
  rw [List.length_append] at hfuel
  obtain ⟨fuel, rfl⟩ : ∃ n, fuel = n + 1 := ⟨fuel - 1, by omega⟩
  have hread := readValue_render v hv fuel (by omega) (ends_renderItems items rest)
  rw [readItems, hread]
  match items with
  | [] =>
    rw [renderItems, encodeChars_cons_append (by decide)]
    simp only [skipBlanks_cons (b := code ']') (by decide), show code ']' ≠ code ',' by decide,
      if_false, if_true, readingItems]
    rfl
  | next :: items =>
    obtain ⟨hnext, hitems⟩ := hitems
    rw [renderItems, List.length_cons] at hfuel
    have hothers := readItems_render next items hnext hitems fuel (by omega) rest
    rw [renderItems, encodeChars_cons_append (by decide), encodeChars_append, List.append_assoc]
    simp only [skipBlanks_cons (b := code ',') (by decide), if_true, hothers, readingItems]
termination_by fuel

/-- The texts of members are read as the members. -/
theorem readMembers_render (name : String) (v : Value) (members : List (String × Value))
    (hv : Plain v) (hmembers : PlainMembers members) (fuel : Nat)
    (hfuel : (stringText name ++ ':' :: (render v ++ renderMembers members)).length ≤ fuel)
    (rest : Bytes) :
    readMembers fuel (Utf8.encodeChars
        (stringText name ++ ':' :: (render v ++ renderMembers members)) ++ rest)
      = (readingMembers ((name, v) :: members), none, rest) := by
  have hpos := length_pos_renderMembers members
  rw [List.length_append, List.length_cons, List.length_append] at hfuel
  obtain ⟨fuel, rfl⟩ : ∃ n, fuel = n + 1 := ⟨fuel - 1, by omega⟩
  have hread := readValue_render v hv fuel (by omega) (ends_renderMembers members rest)
  rw [encodeChars_append, List.append_assoc, encodeChars_cons_append (by decide),
    encodeChars_append, List.append_assoc, readMembers_one, hread]
  match members with
  | [] =>
    rw [renderMembers, encodeChars_cons_append (by decide)]
    simp only [skipBlanks_cons (b := code '\x7d') (by decide),
      show code '\x7d' ≠ code ',' by decide, if_false, if_true, readingMembers]
    rfl
  | (next, w) :: members =>
    obtain ⟨hnext, hmembers⟩ := hmembers
    rw [renderMembers, List.length_cons] at hfuel
    have hothers := readMembers_render next w members hnext hmembers fuel (by omega) rest
    rw [renderMembers, encodeChars_cons_append (by decide)]
    simp only [skipBlanks_cons (b := code ',') (by decide), if_true, hothers, readingMembers]
termination_by fuel

end

theorem length_le_encodeChars (cs : List Char) : cs.length ≤ (Utf8.encodeChars cs).length := by
  induction cs with
  | nil => exact Nat.le_refl 0
  | cons c cs ih =>
    have hpos : 0 < (String.utf8EncodeChar c).length := by
      rw [String.length_utf8EncodeChar]
      exact c.utf8Size_pos
    rw [Utf8.encodeChars, List.flatMap_cons, List.length_append, List.length_cons]
    rw [Utf8.encodeChars] at ih
    omega

/-- A text that holds one value is read as the value, and nothing is left. -/
theorem Reading.ofBytes_encode (v : Value) (hv : Plain v) :
    Reading.ofBytes v.encode = (v.reading, []) := by
  have hread := readValue_render v hv (2 * v.encode.length + 2) ?_ ends_nil
  · rw [List.append_nil] at hread
    exact hread
  · have := length_le_encodeChars v.render
    rw [Value.encode]
    omega

end ConfigStore.Json
