import Mathlib.Data.List.Forall2
import ConfigStore.Query.Expression
import ConfigStore.Query.Filter

/-!
# What key patterns mean

A query for keys is parsed, its text is escaped and rewritten, and what is made of it is read as a
regular expression. Along this way nothing is lost: a star stands for any characters and every
other character for itself, whatever its meaning in regular expressions, and also next to
backslashes and other stars.

* `Piece.accepts_nil`, `Piece.accepts_char` and `Piece.accepts_gap` say what the verdicts of a
  pattern mean, piece by piece.
* `KeyPattern.ofText?_expression` is the way from a pattern to the pieces of its expression.
* `KeyPattern.accepts_eq_describes` and `Query.acceptsKey_eq` say that an expression accepts, among
  all keys, those that its pattern describes.
* `KeyPattern.compiled_accepts` says which keys a query of either form describes, and
  `KeyPattern.beginWith_accepts` which keys are found by the text they begin with.
-/

namespace ConfigStore

/-! ## Matching, piece by piece -/

namespace Piece

variable {pieces : List Piece}

/-- The verdicts for a text go on with those for the rest of the text. -/
theorem verdicts_cons (x : Char) (text : List Char) (pieces : List Piece) :
    ∃ verdict, verdicts (x :: text) pieces = verdict :: verdicts text pieces := by
  induction pieces with
  | nil => exact ⟨false, rfl⟩
  | cons piece pieces ih =>
    obtain ⟨verdict, hverdict⟩ := ih
    cases piece with
    | char c =>
      rw [verdicts, hverdict]
      exact ⟨_, rfl⟩
    | gap =>
      rw [verdicts, hverdict]
      exact ⟨_, rfl⟩

theorem accepts_nil (text : List Char) : accepts [] text = true ↔ text = [] := by
  cases text <;> simp [accepts, verdicts, endVerdicts]

theorem accepts_char (c : Char) (text : List Char) :
    accepts (.char c :: pieces) text = true ↔
      ∃ rest, text = c :: rest ∧ accepts pieces rest = true := by
  cases text with
  | nil => simp [accepts, verdicts, charVerdicts]
  | cons x text =>
    obtain ⟨verdict, hverdict⟩ := verdicts_cons x text pieces
    have hstep : accepts (.char c :: pieces) (x :: text) = (x == c && accepts pieces text) := by
      rw [accepts, verdicts, hverdict, charVerdicts]
      rfl
    rw [hstep, Bool.and_eq_true, beq_iff_eq]
    constructor
    · rintro ⟨rfl, hrest⟩
      exact ⟨text, rfl, hrest⟩
    · rintro ⟨rest, heq, hrest⟩
      obtain ⟨rfl, rfl⟩ := List.cons.inj heq
      exact ⟨rfl, hrest⟩

/-- A gap is closed, or it takes up one more character. -/
theorem accepts_gap_cons (x : Char) (text : List Char) :
    accepts (.gap :: pieces) (x :: text)
      = (accepts pieces (x :: text) || (x != '\n' && accepts (.gap :: pieces) text)) := by
  obtain ⟨verdict, hverdict⟩ := verdicts_cons x text pieces
  rw [accepts, verdicts, accepts, hverdict, gapVerdicts]
  rfl

theorem accepts_gap (text : List Char) :
    accepts (.gap :: pieces) text = true ↔
      ∃ filling rest, text = filling ++ rest ∧ '\n' ∉ filling ∧ accepts pieces rest = true := by
  induction text with
  | nil =>
    have hclosed : accepts (.gap :: pieces) [] = accepts pieces [] := rfl
    simp [hclosed]
  | cons x text ih =>
    rw [accepts_gap_cons, Bool.or_eq_true, Bool.and_eq_true, bne_iff_ne, ih]
    constructor
    · rintro (hclosed | ⟨hx, filling, rest, rfl, hfilling, hrest⟩)
      · exact ⟨[], x :: text, rfl, List.not_mem_nil, hclosed⟩
      · exact ⟨x :: filling, rest, rfl, by simp [hfilling, hx.symm], hrest⟩
    · rintro ⟨- | ⟨y, filling⟩, rest, heq, hfilling, hrest⟩
      · exact .inl (heq ▸ hrest)
      · obtain ⟨rfl, rfl⟩ := List.cons.inj heq
        rw [List.mem_cons, not_or] at hfilling
        exact .inr ⟨Ne.symm hfilling.1, filling, rest, rfl, hfilling.2, hrest⟩

end Piece

/-! ## From a pattern to its expression and back -/

namespace Expression

variable {c : Char} {text rest : List Char} {pieces : List Piece}

/-- A star does not come first after escaping, for its backslash does. -/
theorem escape_ne_star (text rest : List Char) : escape text ≠ '*' :: rest := by
  cases text with
  | nil => exact List.cons_ne_nil _ _ |>.symm
  | cons c text =>
    rw [escape]
    split
    · intro h
      exact absurd (List.cons.inj h).1 (by decide)
    · rename_i hc
      intro h
      obtain ⟨rfl, -⟩ := List.cons.inj h
      exact hc (by decide)

theorem openStars_cons (hc : c ≠ '\\') (text : List Char) :
    openStars (c :: text) = c :: openStars text := by
  rw [openStars]
  intro cs hslash
  exact absurd hslash hc

/-- A backslash that escapes something else than a star stays. -/
theorem openStars_backslash (hc : c ≠ '*') (text : List Char) :
    openStars ('\\' :: c :: text) = '\\' :: openStars (c :: text) := by
  rw [openStars]
  intro cs _ h
  exact hc (List.cons.inj h).1

/-- After escaping, stars are replaced as if each character of the text stood alone. In particular
no backslash of the text goes with a star after it. -/
theorem openStars_escape_cons (c : Char) (text : List Char) :
    openStars (escape (c :: text)) =
      (if c = '*' then ['.', '*'] else if isSpecial c then ['\\', c] else [c])
        ++ openStars (escape text) := by
  rw [escape]
  by_cases hspecial : isSpecial c = true
  · rw [if_pos hspecial]
    by_cases hstar : c = '*'
    · rw [if_pos hstar, hstar]
      rfl
    · rw [if_neg hstar, if_pos hspecial, openStars_backslash hstar]
      by_cases hslash : c = '\\'
      · rw [hslash, openStars]
        · rfl
        · intro cs _ h
          exact escape_ne_star text cs h
      · rw [openStars_cons hslash]
        rfl
  · rw [if_neg hspecial, openStars_cons, if_neg, if_neg hspecial]
    · rfl
    · rintro rfl
      exact hspecial (by decide)
    · rintro rfl
      exact hspecial (by decide)

theorem readPieces_escaped (hc : isSpecial c = true) (rest : List Char) :
    readPieces ('\\' :: c :: rest) = (readPieces rest).map (.char c :: ·) := by
  rw [readPieces, if_pos hc]

theorem readPieces_plain (hc : ¬isSpecial c = true) (rest : List Char) :
    readPieces (c :: rest) = (readPieces rest).map (.char c :: ·) := by
  rw [readPieces, if_neg hc]
  · rintro rfl
    exact absurd (by decide) hc
  · rintro d cs rfl
    exact absurd (by decide) hc
  · rintro cs rfl
    exact absurd (by decide) hc

/-- What was escaped is read as the characters that it was. -/
theorem readPieces_escape (text : List Char) (h : readPieces rest = some pieces) :
    readPieces (escape text ++ rest) = some (text.map .char ++ pieces) := by
  induction text with
  | nil => exact h
  | cons c text ih =>
    rw [escape]
    split
    · rename_i hc
      rw [List.cons_append, List.cons_append, readPieces_escaped hc, ih]
      rfl
    · rename_i hc
      rw [List.cons_append, readPieces_plain hc, ih]
      rfl

/-- The pieces of a text with gaps. -/
theorem readPieces_openStars (text : List Char) (h : readPieces rest = some pieces) :
    readPieces (openStars (escape text) ++ rest)
      = some ((text.map fun c => if c = '*' then .gap else .char c) ++ pieces) := by
  induction text with
  | nil => exact h
  | cons c text ih =>
    rw [openStars_escape_cons, List.append_assoc, List.map_cons]
    by_cases hstar : c = '*'
    · rw [if_pos hstar, if_pos hstar, List.cons_append, List.cons_append, List.nil_append,
        readPieces, ih]
      rfl
    · rw [if_neg hstar, if_neg hstar]
      split
      · rename_i hc
        rw [List.cons_append, List.cons_append, List.nil_append, readPieces_escaped hc, ih]
        rfl
      · rename_i hc
        rw [List.cons_append, List.nil_append, readPieces_plain hc, ih]
        rfl

end Expression

namespace KeyPattern

variable {p : KeyPattern} {query key : String} {caseSensitive : Bool}

theorem readPieces_body (p : KeyPattern) :
    Expression.readPieces (p.body ++ ['$']) = some p.pieces := by
  have hend : Expression.readPieces ['$'] = some [] := rfl
  cases p with
  | exact text =>
    rw [body, Expression.readPieces_escape _ hend, List.append_nil]
    rfl
  | beginWith text =>
    rw [body, List.append_assoc, Expression.readPieces_escape _ rfl]
    rfl
  | wildcard text =>
    rw [body, Expression.readPieces_openStars _ hend, List.append_nil]
    rfl

/-- The expression of a pattern can be read, and what is read has the pieces of the pattern. -/
theorem ofText?_expression (p : KeyPattern) (caseSensitive : Bool) :
    Expression.ofText? (p.expression caseSensitive) = some ⟨!caseSensitive, p.pieces⟩ := by
  have hbody := p.readPieces_body
  cases caseSensitive with
  | false =>
    have htext : (p.expression false).toList
        = '(' :: '?' :: 'i' :: ')' :: '^' :: (p.body ++ ['$']) := by
      simp [expression]
    simp only [Expression.ofText?, htext, hbody]
    rfl
  | true =>
    have htext : (p.expression true).toList = '^' :: (p.body ++ ['$']) := by
      simp [expression]
    simp only [Expression.ofText?, htext, hbody]
    rfl

/-- What an expression is read as accepts the keys that its pattern describes, also those with line
breaks. -/
theorem accepts_eq_describes (p : KeyPattern) (caseSensitive : Bool) (key : String) :
    Expression.accepts ⟨!caseSensitive, p.pieces⟩ key = p.describes caseSensitive key := by
  cases caseSensitive <;> rfl

end KeyPattern

/-- A query is compiled to one expression, which can be read, and the keys that the query accepts
are those that this expression accepts, whatever stands in them. If no key is asked for, nothing is
compiled and every key is accepted. -/
theorem Query.acceptsKey_eq (q : Query) :
    ∃ e, Expression.ofText? ((KeyPattern.parse q.key).expression q.caseSensitive) = some e ∧
      ∀ key, q.acceptsKey key = (decide (q.key = "") || e.accepts key) := by
  refine ⟨_, KeyPattern.ofText?_expression _ q.caseSensitive, fun key => ?_⟩
  rw [KeyPattern.accepts_eq_describes, Query.acceptsKey]

/-! ## What the pieces mean -/

/-- Whether two characters are taken for one another. -/
def Alike (caseSensitive : Bool) (c d : Char) : Prop :=
  if caseSensitive then c = d else CaseFolding.same c d = true

/-- If case counts, no character is taken for another. -/
theorem alike_true : Alike true = Eq := by
  funext c x
  simp [Alike]

/-- A key is got from a text by putting some string in the place of each star, where every other
character stands for itself, or for one that is taken for it. -/
inductive Fills (alike : Char → Char → Prop) : List Char → List Char → Prop
  /-- The empty text gives the empty key. -/
  | nil : Fills alike [] []
  /-- A star gives any string. -/
  | star {text key : List Char} (filling : List Char) (rest : Fills alike text key) :
    Fills alike ('*' :: text) (filling ++ key)
  /-- Any other character gives one character. -/
  | char {c x : Char} {text key : List Char} (plain : c ≠ '*') (same : alike c x)
    (rest : Fills alike text key) : Fills alike (c :: text) (x :: key)

/-- No character but the line break itself is taken for a line break. -/
theorem CaseFolding.eq_newline_of_fold {c : Char} (h : fold c = '\n') : c = '\n' := by
  have htargets : ∀ run ∈ runs, 10 < run.2.2.2 := by decide +kernel
  rw [fold] at h
  split at h
  · rename_i first last step target hfind
    have htarget : 10 < target := htargets _ (List.mem_of_find?_eq_some hfind)
    by_cases hvalid : (target + (c.toNat - first)).isValidChar
    · rw [Char.ofNat, dif_pos hvalid] at h
      have hcode : target + (c.toNat - first) = 10 := congrArg Char.toNat h
      omega
    · rw [Char.ofNat, dif_neg hvalid] at h
      exact absurd h (by decide)
  · exact h

namespace Piece

variable {f : Char → Char} {pieces : List Piece}

/-- Characters in front of a pattern describe themselves. -/
theorem accepts_chars_append (text key : List Char) :
    accepts (text.map .char ++ pieces) key = true ↔
      ∃ rest, key = text ++ rest ∧ accepts pieces rest = true := by
  induction text generalizing key with
  | nil => simp
  | cons c text ih =>
    rw [List.map_cons, List.cons_append, accepts_char]
    constructor
    · rintro ⟨rest, rfl, hrest⟩
      obtain ⟨rest', rfl, hrest'⟩ := (ih rest).mp hrest
      exact ⟨rest', rfl, hrest'⟩
    · rintro ⟨rest, rfl, hrest⟩
      exact ⟨text ++ rest, rfl, (ih _).mpr ⟨rest, rfl, hrest⟩⟩

/-- Characters alone describe the keys that are alike. -/
theorem accepts_chars (f : Char → Char) (text key : List Char) :
    accepts ((text.map .char).map (mapChar f)) (key.map f) = true ↔
      List.Forall₂ (fun c x => f c = f x) text key := by
  have hchars : (text.map .char).map (mapChar f) = (text.map f).map .char ++ [] := by
    rw [List.append_nil, List.map_map, List.map_map]
    rfl
  have halike : List.Forall₂ (fun c x => f c = f x) text key ↔ key.map f = text.map f := by
    rw [eq_comm, ← List.forall₂_eq_eq_eq, List.forall₂_map_left_iff, List.forall₂_map_right_iff]
  rw [hchars, accepts_chars_append, halike]
  simp [accepts_nil]

/-- A text with gaps describes only keys that are got by filling them. -/
theorem fills_of_accepts (text : List Char) {key : List Char}
    (h : accepts ((text.map fun c => if c = '*' then .gap else .char c).map (mapChar f))
      (key.map f) = true) :
    Fills (fun c x => f c = f x) text key := by
  induction text generalizing key with
  | nil =>
    rw [List.map_nil, List.map_nil, accepts_nil, List.map_eq_nil_iff] at h
    rw [h]
    exact .nil
  | cons c text ih =>
    rw [List.map_cons, List.map_cons] at h
    by_cases hstar : c = '*'
    · rw [if_pos hstar, mapChar, accepts_gap] at h
      obtain ⟨filled, rest, heq, -, hrest⟩ := h
      obtain ⟨filling, key', rfl, rfl, rfl⟩ := List.map_eq_append_iff.mp heq
      rw [hstar]
      exact .star filling (ih hrest)
    · rw [if_neg hstar, mapChar, accepts_char] at h
      obtain ⟨rest, heq, hrest⟩ := h
      obtain ⟨x, key', rfl, hx, rfl⟩ := List.map_eq_cons_iff.mp heq
      exact .char hstar hx.symm (ih hrest)

/-- It describes all of them that have no line break. -/
theorem accepts_of_fills (hf : ∀ x, f x = '\n' → x = '\n') {text key : List Char}
    (h : Fills (fun c x => f c = f x) text key) (hkey : '\n' ∉ key) :
    accepts ((text.map fun c => if c = '*' then .gap else .char c).map (mapChar f)) (key.map f)
      = true := by
  induction h with
  | nil => rfl
  | star filling _ ih =>
    rw [List.mem_append, not_or] at hkey
    rw [List.map_cons, List.map_cons, if_pos rfl, mapChar, accepts_gap]
    refine ⟨filling.map f, _, List.map_append, fun hmem => ?_, ih hkey.2⟩
    obtain ⟨x, hx, hline⟩ := List.mem_map.mp hmem
    exact hkey.1 (hf x hline ▸ hx)
  | char hplain hsame _ ih =>
    rw [List.mem_cons, not_or] at hkey
    rw [List.map_cons, List.map_cons, if_neg hplain, mapChar, accepts_char, List.map_cons]
    exact ⟨_, by rw [hsame], ih hkey.2⟩

end Piece

namespace KeyPattern

variable {query key text : String} {caseSensitive : Bool}

/-- One function makes alike characters the same, and takes nothing else for a line break. -/
theorem describes_eq (p : KeyPattern) (caseSensitive : Bool) :
    ∃ f : Char → Char, (∀ x, f x = '\n' → x = '\n') ∧
      (fun c x => f c = f x) = Alike caseSensitive ∧ ∀ key : String, p.describes caseSensitive key
        = Piece.accepts (p.pieces.map (Piece.mapChar f)) (key.toList.map f) := by
  cases caseSensitive with
  | false =>
    refine ⟨CaseFolding.fold, fun _ => CaseFolding.eq_newline_of_fold, ?_, fun _ => rfl⟩
    funext c x
    simp [Alike, CaseFolding.same]
  | true =>
    have hid : Piece.mapChar id = id := by
      funext piece
      cases piece <;> rfl
    refine ⟨id, fun _ h => h, ?_, fun key => ?_⟩
    · rw [alike_true]
      rfl
    · rw [hid, List.map_id, List.map_id]
      rfl

/-- A literal key describes the keys that are alike. -/
theorem describes_exact_iff (text key : String) (caseSensitive : Bool) :
    (exact text).describes caseSensitive key = true ↔
      List.Forall₂ (Alike caseSensitive) text.toList key.toList := by
  obtain ⟨f, -, halike, hdescribes⟩ := describes_eq (exact text) caseSensitive
  rw [hdescribes, ← halike]
  exact Piece.accepts_chars f text.toList key.toList

/-- If case counts, a literal key describes itself and no other key. -/
theorem describes_exact (key other : String) :
    (exact key).describes true other = true ↔ other = key := by
  rw [describes_exact_iff, alike_true, List.forall₂_eq_eq_eq, String.toList_inj, eq_comm]

/-- If case counts, a text describes the keys that begin with it and go on without a line break. -/
theorem describes_beginWith_iff : (beginWith text).describes true key = true ↔
    ∃ rest, key = text ++ rest ∧ '\n' ∉ rest.toList := by
  rw [describes, if_pos rfl, pieces, Piece.accepts_chars_append]
  constructor
  · rintro ⟨rest, hkey, hrest⟩
    obtain ⟨filling, tail, rfl, hline, htail⟩ := (Piece.accepts_gap rest).mp hrest
    obtain rfl := (Piece.accepts_nil tail).mp htail
    refine ⟨String.ofList filling, ?_, by simpa using hline⟩
    rw [← String.toList_inj, hkey, String.toList_append, String.toList_ofList, List.append_nil]
  · rintro ⟨rest, rfl, hline⟩
    refine ⟨rest.toList, String.toList_append, ?_⟩
    exact (Piece.accepts_gap _).mpr ⟨rest.toList, [], (List.append_nil _).symm, hline, rfl⟩

/-- If case counts, a text describes only keys that begin with it. -/
theorem prefix_of_describes (h : (beginWith text).describes true key = true) :
    text.toList <+: key.toList := by
  obtain ⟨rest, rfl, -⟩ := describes_beginWith_iff.mp h
  exact ⟨rest.toList, String.toList_append.symm⟩

/-- A text with gaps describes only keys that are got by filling them. -/
theorem fills_of_describes (h : (wildcard text).describes caseSensitive key = true) :
    Fills (Alike caseSensitive) text.toList key.toList := by
  obtain ⟨f, -, halike, hdescribes⟩ := describes_eq (wildcard text) caseSensitive
  rw [hdescribes] at h
  rw [← halike]
  exact Piece.fills_of_accepts text.toList h

theorem describes_wildcard_iff (hkey : '\n' ∉ key.toList) :
    (wildcard text).describes caseSensitive key = true ↔
      Fills (Alike caseSensitive) text.toList key.toList := by
  refine ⟨fills_of_describes, fun h => ?_⟩
  obtain ⟨f, hf, halike, hdescribes⟩ := describes_eq (wildcard text) caseSensitive
  rw [hdescribes]
  rw [← halike] at h
  exact Piece.accepts_of_fills hf h hkey

/-! ## Reading a query -/

/-- What stands between an opening and a closing parenthesis is found, and nothing else. -/
theorem enclosed?_eq_some_iff {opening : String} :
    enclosed? opening query = some text ↔ query = opening ++ text ++ ")" := by
  rw [enclosed?, ← String.toList_inj]
  constructor
  · intro h
    split at h
    · rename_i hopening
      obtain ⟨rest, hrest⟩ := List.isPrefixOf_iff_prefix.mp hopening
      have hdrop : query.toList.drop opening.length = rest := by
        rw [← hrest, ← String.length_toList, List.drop_left]
      dsimp only at h
      rw [hdrop] at h
      split at h
      · rename_i hlast
        cases h
        rw [← hrest, String.toList_append, String.toList_append, String.toList_ofList,
          List.append_assoc]
        exact congrArg _ (List.dropLast_append_getLast? _ hlast).symm
      · cases h
    · cases h
  · intro h
    have hparts : query.toList = opening.toList ++ (text.toList ++ [')']) := by
      rw [h, String.toList_append, String.toList_append, List.append_assoc]
      rfl
    have hdrop : query.toList.drop opening.length = text.toList ++ [')'] := by
      rw [hparts, ← String.length_toList, List.drop_left]
    rw [if_pos (List.isPrefixOf_iff_prefix.mpr ⟨_, hparts.symm⟩), hdrop]
    simp

/-- A query has one of the two special forms at most. -/
theorem beginWith_ne_wildcard (text other : String) :
    "beginWith(" ++ text ++ ")" ≠ "wildcard(" ++ other ++ ")" := by
  intro h
  have hlists := congrArg String.toList h
  simp at hlists

theorem parse_wildcard (text : String) : parse ("wildcard(" ++ text ++ ")") = .wildcard text := by
  have hwild := enclosed?_eq_some_iff.mpr (rfl : "wildcard(" ++ text ++ ")" = _)
  have hbegin : enclosed? "beginWith(" ("wildcard(" ++ text ++ ")") = none := by
    rw [Option.eq_none_iff_forall_not_mem]
    intro other hother
    exact beginWith_ne_wildcard other text (enclosed?_eq_some_iff.mp hother).symm
  rw [parse, hbegin, hwild]

theorem parse_beginWith (text : String) :
    parse ("beginWith(" ++ text ++ ")") = .beginWith text := by
  rw [parse, enclosed?_eq_some_iff.mpr rfl]

theorem parse_exact (hbegin : ∀ text, query ≠ "beginWith(" ++ text ++ ")")
    (hwild : ∀ text, query ≠ "wildcard(" ++ text ++ ")") : parse query = .exact query := by
  have hnone {opening : String} (h : ∀ text, query ≠ opening ++ text ++ ")") :
      enclosed? opening query = none := by
    rw [Option.eq_none_iff_forall_not_mem]
    exact fun text htext => h text (enclosed?_eq_some_iff.mp htext)
  rw [parse, hnone hbegin, hnone hwild]

/-- **What a query for keys means.** Every query is compiled to an expression that can be read. Of a
query with gaps it matches the keys that are got by putting a string in the place of each star,
where any other character stands for itself, backslashes and characters with a meaning of their own
among them. Of a query in neither of the two special forms it matches the keys that are the same. If
case does not count, two characters with one folding are the same. -/
theorem compiled_accepts (query key : String) (caseSensitive : Bool) (hkey : '\n' ∉ key.toList) :
    ∃ e, Expression.ofText? ((parse query).expression caseSensitive) = some e ∧
      e.accepts key = (parse query).describes caseSensitive key ∧
      (∀ text, query = "wildcard(" ++ text ++ ")" →
        (e.accepts key = true ↔ Fills (Alike caseSensitive) text.toList key.toList)) ∧
      ((∀ text, query ≠ "beginWith(" ++ text ++ ")") →
        (∀ text, query ≠ "wildcard(" ++ text ++ ")") →
          (e.accepts key = true ↔ List.Forall₂ (Alike caseSensitive) query.toList key.toList) ∧
          (caseSensitive = true → (e.accepts key = true ↔ key = query))) := by
  have haccepts := accepts_eq_describes (parse query) caseSensitive key
  refine ⟨_, ofText?_expression _ caseSensitive, haccepts, fun text hquery => ?_,
    fun hbegin hwild => ?_⟩
  · rw [haccepts, hquery, parse_wildcard]
    exact describes_wildcard_iff hkey
  · rw [haccepts, parse_exact hbegin hwild]
    refine ⟨describes_exact_iff query key caseSensitive, ?_⟩
    rintro rfl
    exact describes_exact query key

/-- A backslash before a star and a dot after it stand for themselves. -/
theorem compiled_accepts_backslash :
    '\n' ∉ "a\\xy.b".toList ∧
      ∃ e, Expression.ofText? ((parse "wildcard(a\\*.b)").expression true) = some e ∧
        e.accepts "a\\xy.b" = true := by
  have hline : '\n' ∉ "a\\xy.b".toList := by decide
  have hfills : Fills (Alike true) "a\\*.b".toList "a\\xy.b".toList :=
    .char (by decide) rfl <| .char (by decide) rfl <| .star ['x', 'y'] <|
      .char (by decide) rfl <| .char (by decide) rfl .nil
  obtain ⟨e, hread, -, hwild, -⟩ := compiled_accepts "wildcard(a\\*.b)" "a\\xy.b" true hline
  exact ⟨hline, e, hread, (hwild "a\\*.b" (by decide)).mpr hfills⟩

/-- **Which keys are found by the text they begin with.** If case counts, the expression that a
query of this form is compiled to matches the keys that begin with the text and have no line break
after it. These are all the keys that begin with the text, unless one goes on over a line break. -/
theorem beginWith_accepts (text key : String) :
    ∃ e, Expression.ofText? ((parse ("beginWith(" ++ text ++ ")")).expression true) = some e ∧
      (e.accepts key = true ↔ ∃ rest, key = text ++ rest ∧ '\n' ∉ rest.toList) ∧
      ((∀ rest, key = text ++ rest → '\n' ∉ rest.toList) →
        (e.accepts key = true ↔ text.toList <+: key.toList)) := by
  have haccepts : Expression.accepts ⟨false, (beginWith text).pieces⟩ key = true ↔
      ∃ rest, key = text ++ rest ∧ '\n' ∉ rest.toList := describes_beginWith_iff
  rw [parse_beginWith]
  refine ⟨_, ofText?_expression _ true, haccepts, fun hlines => haccepts.trans ⟨?_, ?_⟩⟩
  · rintro ⟨rest, rfl, -⟩
    exact ⟨rest.toList, String.toList_append.symm⟩
  · rintro ⟨tail, htail⟩
    have hkey : key = text ++ String.ofList tail := by
      rw [← String.toList_inj, ← htail, String.toList_append, String.toList_ofList]
    exact ⟨_, hkey, hlines _ hkey⟩

/-- Line breaks may stand in the text itself, beside characters with a meaning of their own. -/
theorem beginWith_accepts_lines :
    (∀ rest, "a\n(b.c" = "a\n(" ++ rest → '\n' ∉ rest.toList) ∧
      ∃ e, Expression.ofText? ((parse "beginWith(a\n()").expression true) = some e ∧
        e.accepts "a\n(b.c" = true := by
  have hlines : ∀ rest, "a\n(b.c" = "a\n(" ++ rest → '\n' ∉ rest.toList := by
    intro rest hrest
    have hsplit : "a\n(".toList ++ ['b', '.', 'c'] = "a\n(".toList ++ rest.toList := by
      rw [← String.toList_append, ← hrest]
      decide
    rw [← List.append_cancel_left hsplit]
    decide
  obtain ⟨e, hread, -, hbegins⟩ := beginWith_accepts "a\n(" "a\n(b.c"
  exact ⟨hlines, e, hread, (hbegins hlines).mpr (by decide)⟩

/-- A key that begins with the text is not found if it goes on over a line break. -/
theorem beginWith_misses_line :
    "foo".toList <+: "foo\nbar".toList ∧
      ∃ e, Expression.ofText? ((parse "beginWith(foo)").expression true) = some e ∧
        e.accepts "foo\nbar" = false :=
  ⟨by decide, _, ofText?_expression (parse "beginWith(foo)") true, by decide⟩

end KeyPattern

end ConfigStore
