import ConfigStore.Document.Format
import ConfigStore.Proofs.Json.Nesting

/-!
# Records that are written and read back

A record is written as an object. Members that are left out stand for the defaults with which
reading begins, so each member either says what its field holds or is missed by nobody.

* `Json.Reader.text_reading` and its companions read single values, lists and maps back.
* `Json.Reader.Fills` describes how members fill the fields of a record;
  `Json.Reader.record_of_fills` reads the record back and `Json.Reader.run_encode` a whole text.
* `Json.Reader.record_keeps` says what is true of every record that is read, and
  `Json.Reader.record_lacks` that a text without a field that is needed is not read.
-/

namespace ConfigStore

/-! ## Maps -/

namespace Pairs

variable {α : Type}

theorem find?_eq_none_of_lt {key : String} {pairs : List (String × α)}
    (h : ∀ p ∈ pairs, key < p.1) : find? key pairs = none := by
  cases hfind : find? key pairs with
  | none => rfl
  | some v => exact absurd (h _ (mem_of_find?_eq_some hfind)) (String.lt_irrefl key)

end Pairs

namespace Dict

variable {α : Type}

theorem get?_foldl_insert {pairs : List (String × α)} (h : Pairs.Ascending pairs) (acc : Dict α)
    (key : String) :
    (pairs.foldl (fun d p => d.insert p.1 p.2) acc).get? key
      = (Pairs.find? key pairs).or (acc.get? key) := by
  induction pairs generalizing acc with
  | nil => rfl
  | cons p rest ih =>
    obtain ⟨hfirst, hrest⟩ := List.pairwise_cons.mp h
    rw [List.foldl_cons, ih hrest, get?_insert, Pairs.find?]
    split
    next heq => rw [Pairs.find?_eq_none_of_lt (heq ▸ hfirst)]; rfl
    next => rfl

/-- A map is made of its own pairs. -/
theorem ofList_pairs (d : Dict α) : ofList d.pairs = d := by
  apply ext_get?
  intro key
  rw [ofList, get?_foldl_insert d.ascending, get?_empty, Option.or_none]
  rfl

end Dict

namespace Json

open Value

/-! ## Members that may be left out -/

theorem fits_toInt (n : Int64) : Fits n.toInt := by
  have hlow := Int64.minValue_le_toInt n
  have hhigh := Int64.toInt_lt n
  have hmax : maxDigits = 18446744073709551615 := rfl
  exact ⟨hlow, by omega⟩

namespace Value

variable {α : Type}

theorem plainMembers_append {as bs : List (String × Value)} :
    PlainMembers (as ++ bs) ↔ PlainMembers as ∧ PlainMembers bs := by
  simp only [plainMembers_iff, List.mem_append, or_imp, forall_and]

theorem plainMembers_unless {c : Prop} [Decidable c] (name : String) {v : Value} (h : Plain v) :
    PlainMembers (if c then [] else [(name, v)]) := by
  split
  · trivial
  · exact ⟨h, trivial⟩

theorem plainMembers_textMember (name text : String) : PlainMembers (textMember name text) :=
  plainMembers_unless name trivial

theorem plainMembers_numberMember (name : String) (n : Int64) :
    PlainMembers (numberMember name n) :=
  plainMembers_unless name (fits_toInt n)

theorem plainMembers_dictMember (value : α → Value) (name : String) {d : Dict α}
    (h : ∀ p ∈ d.pairs, Plain (value p.2)) : PlainMembers (dictMember name value d) := by
  refine plainMembers_unless name (plainMembers_iff.mpr fun m hm => ?_)
  obtain ⟨p, hp, rfl⟩ := List.mem_map.mp hm
  exact h p hp

theorem names_unless {c : Prop} [Decidable c] (name : String) (v : Value) :
    ((if c then [] else [(name, v)]).map (·.1)).Sublist [name] := by
  split <;> simp

theorem names_textMember (name text : String) :
    ((textMember name text).map (·.1)).Sublist [name] :=
  names_unless name _

theorem names_numberMember (name : String) (n : Int64) :
    ((numberMember name n).map (·.1)).Sublist [name] :=
  names_unless name _

theorem names_dictMember (name : String) (value : α → Value) (d : Dict α) :
    ((dictMember name value d).map (·.1)).Sublist [name] :=
  names_unless name _

end Value

namespace Reader

variable {α σ : Type}

/-! ## Single values, lists and maps -/

theorem text_reading (depth : Nat) (s : String) : text depth (Value.string s).reading = .ok s := by
  rw [reading, text, Quoted.content_ofString]

theorem integer_reading {fits : Int → Bool} (depth : Nat) {n : Int} (h : Fits n)
    (hfits : fits n = true) : integer fits depth (int n).reading = .ok n := by
  rw [int, reading, integer, Numeral.value_ofInt h]
  exact if_pos hfits

theorem integer64_reading (depth : Nat) (n : Int64) :
    integer64 depth (int n.toInt).reading = .ok n := by
  have hlow := Int64.minValue_le_toInt n
  have hhigh := Int64.toInt_le n
  have hfits : (Int64.minValue.toInt ≤ n.toInt && n.toInt ≤ Int64.maxValue.toInt) = true := by
    rw [decide_eq_true hlow, decide_eq_true hhigh]
    rfl
  rw [integer64, map, integer_reading depth (fits_toInt n) hfits, Except.map, Int64.ofInt_toInt]

theorem natural_reading {limit : Nat} (depth : Nat) {n : Nat} (h : n ≤ limit)
    (hlimit : limit ≤ maxDigits) : natural limit depth (int n).reading = .ok n := by
  have hlow : Int64.minValue.toInt ≤ 0 := by decide
  have hfits : Fits n := ⟨by omega, by omega⟩
  rw [natural, map, integer_reading depth hfits (by simp [h])]
  rfl

theorem mapM_reading {read : Reading → Except Fault α} {value : α → Value} {as : List α}
    (h : ∀ a ∈ as, read (value a).reading = .ok a) :
    (readingItems (as.map value)).mapM read = .ok as := by
  induction as with
  | nil => rfl
  | cons a rest ih =>
    rw [List.map_cons, readingItems, List.mapM_cons, h a (List.mem_cons_self ..),
      ih fun b hb => h b (List.mem_cons_of_mem _ hb)]
    rfl

theorem list_reading {read : Reader α} {value : α → Value} {depth : Nat} {as : List α}
    (h : ∀ a ∈ as, read depth (value a).reading = .ok a) :
    list read (depth + 1) (Value.array (as.map value)).reading = .ok as := by
  rw [reading, list]
  simp only [enter, bind, Except.bind, mapM_reading h, finish]

theorem dictMembers_readingMembers {read : Reading → Except Fault α} {value : α → Value}
    {pairs : List (String × α)} (h : ∀ p ∈ pairs, read (value p.2).reading = .ok p.2)
    (acc : Dict α) :
    dictMembers read acc (readingMembers (pairs.map fun p => (p.1, value p.2)))
      = .ok (pairs.foldl (fun d p => d.insert p.1 p.2) acc) := by
  induction pairs generalizing acc with
  | nil => rfl
  | cons p rest ih =>
    rw [List.map_cons, readingMembers, dictMembers, Quoted.content_ofString]
    simp only [bind, Except.bind, h p (List.mem_cons_self ..)]
    exact ih (fun q hq => h q (List.mem_cons_of_mem _ hq)) _

theorem dict_reading {read : Reader α} {value : α → Value} {depth : Nat} {d : Dict α}
    (h : ∀ p ∈ d.pairs, read depth (value p.2).reading = .ok p.2) :
    dict read (depth + 1) (ofDict value d).reading = .ok d := by
  have hread := dictMembers_readingMembers h .empty
  change _ = Except.ok (Dict.ofList d.pairs) at hread
  rw [Dict.ofList_pairs] at hread
  rw [ofDict, reading, dict]
  simp only [enter, bind, Except.bind, hread, finish]

/-! ## Members that fill a record -/

/-- Reading the members turns the record `acc` into the record `result`. -/
inductive Fills (fields : List (RecordField σ)) (depth : Nat) :
    σ → List (String × Value) → σ → Prop
  | nil (acc : σ) : Fills fields depth acc [] acc
  | cons {acc result : σ} {name : String} {v : Value} {rest : List (String × Value)}
      {field : RecordField σ} {set : σ → σ} (found : fields.find? (·.name = name) = some field)
      (reads : field.read depth v.reading = .ok set)
      (others : Fills fields depth (set acc) rest result) :
      Fills fields depth acc ((name, v) :: rest) result

section

variable {fields : List (RecordField σ)} {depth : Nat} {acc : σ} {required : Bool}

theorem Fills.append {a b c : σ} {ms ns : List (String × Value)} (h : Fills fields depth a ms b)
    (h' : Fills fields depth b ns c) : Fills fields depth a (ms ++ ns) c := by
  induction h with
  | nil => exact h'
  | cons found reads _ ih => exact .cons found reads (ih h')

theorem Fills.member {read : Reader α} (name : String) (put : α → σ → σ) {v : Value} {a : α}
    (found : fields.find? (·.name = name) = some ⟨name, required, Reader.map put read⟩)
    (reads : read depth v.reading = .ok a) : Fills fields depth acc [(name, v)] (put a acc) := by
  refine .cons found (?_ : _ = Except.ok (put a)) (.nil _)
  simp only [Reader.map, reads, Except.map]

/-- A member is missed by nobody if it says what the record holds already. -/
theorem Fills.unless {c : Prop} [Decidable c] {name : String} {v : Value} {result : σ}
    (member : Fills fields depth acc [(name, v)] result) (omitted : c → result = acc) :
    Fills fields depth acc (if c then [] else [(name, v)]) result := by
  split
  next hc =>
    rw [omitted hc]
    exact .nil acc
  next => exact member

theorem Fills.text (name : String) (put : String → σ → σ) (text : String)
    (found : fields.find? (·.name = name) = some ⟨name, required, Reader.map put Reader.text⟩) :
    Fills fields depth acc [(name, .string text)] (put text acc) :=
  .member name put found (text_reading depth text)

theorem Fills.textMember (name : String) (put : String → σ → σ) (text : String)
    (found : fields.find? (·.name = name) = some ⟨name, required, Reader.map put Reader.text⟩)
    (omitted : put "" acc = acc) :
    Fills fields depth acc (Value.textMember name text) (put text acc) :=
  .unless (.text name put text found) fun hempty => hempty ▸ omitted

theorem Fills.numberMember (name : String) (put : Int64 → σ → σ) (n : Int64)
    (found : fields.find? (·.name = name) = some ⟨name, required, Reader.map put Reader.integer64⟩)
    (omitted : put 0 acc = acc) :
    Fills fields depth acc (Value.numberMember name n) (put n acc) :=
  .unless (.member name put found (integer64_reading depth n)) fun hzero => hzero ▸ omitted

theorem Fills.dictMember {read : Reader (Dict α)} (name : String) (value : α → Value)
    (put : Dict α → σ → σ) (d : Dict α)
    (found : fields.find? (·.name = name) = some ⟨name, required, Reader.map put read⟩)
    (reads : read depth (ofDict value d).reading = .ok d) (omitted : put .empty acc = acc) :
    Fills fields depth acc (Value.dictMember name value d) (put d acc) := by
  refine .unless (.member name put found reads) fun hempty => ?_
  have hd : d = .empty := by
    cases d with
    | mk pairs ascending =>
      obtain rfl : pairs = [] := List.isEmpty_iff.mp hempty
      rfl
  rw [hd, omitted]

end

/-- Members of different names that fill a record are read into it. -/
theorem recordMembers_of_fills {fields : List (RecordField σ)} {depth : Nat} {acc result : σ}
    {ms : List (String × Value)} (h : Fills fields depth acc ms result) {seen : List String}
    (hseen : (seen ++ ms.map (·.1)).Nodup) :
    ∃ seen', (∀ name, name ∈ seen' ↔ name ∈ seen ∨ name ∈ ms.map (·.1)) ∧
      recordMembers fields depth seen acc (readingMembers ms) = .ok (seen', result) := by
  induction h generalizing seen with
  | nil acc => exact ⟨seen, fun name => by simp, rfl⟩
  | @cons acc result name v rest field set found reads _ ih =>
    rw [List.map_cons] at hseen
    have hnew : name ∉ seen := fun hmem =>
      (List.nodup_append.mp hseen).2.2 name hmem name (List.mem_cons_self ..) rfl
    have hseen' : (name :: seen ++ rest.map (·.1)).Nodup := List.perm_middle.nodup hseen
    obtain ⟨seen', hmem, hread⟩ := ih hseen'
    refine ⟨seen', fun n => ?_, ?_⟩
    · rw [hmem, List.map_cons, List.mem_cons, List.mem_cons]
      tauto
    · rw [readingMembers, recordMembers, Quoted.content_ofString]
      simp only [bind, Except.bind, found, if_neg hnew, reads, hread]

/-- An object that fills a record, and leaves out no field that must be there, is read as it. -/
theorem record_of_fills {fields : List (RecordField σ)} {depth : Nat} {default result : σ}
    {ms : List (String × Value)} (h : Fills fields depth default ms result)
    (hnames : (ms.map (·.1)).Nodup)
    (hrequired : ∀ field ∈ fields, field.required = true → field.name ∈ ms.map (·.1)) :
    record fields default (depth + 1) (Value.object ms).reading = .ok result := by
  have hnone : (([] : List String) ++ ms.map (·.1)).Nodup := hnames
  obtain ⟨seen, hseen, hread⟩ := recordMembers_of_fills h hnone
  have hall : (fields.all fun field => !field.required || field.name ∈ seen) = true := by
    rw [List.all_eq_true]
    intro field hfield
    cases hfr : field.required with
    | false => rfl
    | true => simpa using (hseen _).mpr (.inr (hrequired field hfield hfr))
  rw [reading, record]
  simp only [enter, bind, Except.bind, hread, finish, hall, if_true]

/-- The names that were seen are those of members. -/
theorem mem_of_recordMembers {fields : List (RecordField σ)} {depth : Nat}
    {members : List (String × Value)} {seen seen' : List String} {acc result : σ}
    (h : recordMembers fields depth seen acc (readingMembers members) = .ok (seen', result))
    {name : String} (hname : name ∈ seen') : name ∈ seen ∨ name ∈ members.map (·.1) := by
  induction members generalizing seen acc with
  | nil =>
    rw [readingMembers, recordMembers] at h
    cases h
    exact .inl hname
  | cons m rest ih =>
    obtain ⟨n, v⟩ := m
    rw [readingMembers, recordMembers, Quoted.content_ofString] at h
    simp only [bind, Except.bind] at h
    rw [List.map_cons, List.mem_cons]
    split at h
    · split at h
      · cases h
      · exact (ih h).imp_right .inr
    · split at h
      · cases h
      · split at h
        · cases h
        · rcases ih h with hseen | hrest
          · exact (List.mem_cons.mp hseen).symm.imp_right .inl
          · exact .inr (.inr hrest)

/-- An object without a member that must be there is not read as a record. -/
theorem record_lacks {fields : List (RecordField σ)} {depth : Nat} {default result : σ}
    {members : List (String × Value)} {field : RecordField σ} (hfield : field ∈ fields)
    (hrequired : field.required = true) (hname : field.name ∉ members.map (·.1)) :
    record fields default depth (Value.object members).reading ≠ .ok result := by
  intro h
  rw [reading, record] at h
  obtain ⟨inner, -, h⟩ := ok_of_bind h
  obtain ⟨⟨seen, filled⟩, hmembers, h⟩ := ok_of_bind h
  obtain ⟨ended, -, h⟩ := ok_of_bind h
  split at h
  next hall =>
    have hseen := List.all_eq_true.mp hall field hfield
    rw [hrequired, Bool.not_true, Bool.false_or, decide_eq_true_eq] at hseen
    rcases mem_of_recordMembers hmembers hseen with hnone | hmem
    · cases hnone
    · exact hname hmem
  next => cases h

/-- What is read from the text of a value is read from its reading. -/
theorem reading_of_run_encode {read : Reader α} {v : Value} {a : α} (hplain : v.Plain)
    (h : read.run v.encode = .ok a) : read maxDepth v.reading = .ok a := by
  rw [run, Reading.ofBytes_encode v hplain] at h
  obtain ⟨b, hread, h⟩ := ok_of_bind h
  rw [hread]
  split at h
  · exact h
  · cases h

/-- A value whose reading is read is read from its text. -/
theorem run_encode {read : Reader α} {v : Value} {a : α} (hplain : v.Plain)
    (h : read maxDepth v.reading = .ok a) : read.run v.encode = .ok a := by
  rw [run, Reading.ofBytes_encode v hplain]
  simp only [bind, Except.bind, h]
  rfl

/-! ## Records that were read -/

section

variable {fields : List (RecordField σ)} {P : σ → Prop} {depth : Nat}

theorem recordMembers_keeps
    (hfields : ∀ field ∈ fields, ∀ r set, field.read depth r = .ok set → ∀ s, P s → P (set s))
    {members : List (Quoted × Reading)} {seen seen' : List String} {acc result : σ}
    (h : recordMembers fields depth seen acc members = .ok (seen', result)) (hacc : P acc) :
    P result := by
  induction members generalizing seen acc with
  | nil => cases h; exact hacc
  | cons m rest ih =>
    rw [recordMembers] at h
    obtain ⟨name, -, h⟩ := ok_of_bind h
    cases hfind : fields.find? (·.name = name) with
    | none =>
      rw [hfind] at h
      cases hskip : m.2.skip? with
      | none => rw [hskip] at h; exact ih h hacc
      | some fault => rw [hskip] at h; cases h
    | some field =>
      rw [hfind] at h
      dsimp only at h
      split at h
      · cases h
      · obtain ⟨set, hset, h⟩ := ok_of_bind h
        exact ih h (hfields field (List.mem_of_find?_eq_some hfind) _ set hset acc hacc)

theorem recordItems_keeps
    (hfields : ∀ field ∈ fields, ∀ r set, field.read depth r = .ok set → ∀ s, P s → P (set s))
    {items : List Reading} {stop : Option Fault} {acc result : σ}
    (h : recordItems depth stop acc fields items = .ok result) (hacc : P acc) : P result := by
  induction fields generalizing items acc with
  | nil =>
    cases items with
    | nil => exact eq_of_finish h ▸ hacc
    | cons r rest => cases h
  | cons field fields ih =>
    have hothers := fun f hf => hfields f (List.mem_cons_of_mem _ hf)
    cases items with
    | nil =>
      unfold recordItems at h
      split at h
      · cases h
      · split at h
        · cases h
        · exact ih hothers h hacc
    | cons r rest =>
      rw [recordItems] at h
      obtain ⟨set, hset, h⟩ := ok_of_bind h
      exact ih hothers h (hfields field (List.mem_cons_self ..) r set hset acc hacc)

/-- What is true of the record of all defaults, and stays true whatever is read into a field, is
true of every record that is read. -/
theorem record_keeps
    (hfields : ∀ field ∈ fields, ∀ r set, field.read depth r = .ok set → ∀ s, P s → P (set s))
    {default result : σ} {r : Reading} (h : record fields default (depth + 1) r = .ok result)
    (hdefault : P default) : P result := by
  unfold record at h
  split at h
  next =>
    obtain ⟨inner, henter, h⟩ := ok_of_bind h
    obtain rfl := Nat.succ.inj (eq_of_enter henter)
    obtain ⟨⟨seen, read⟩, hread, h⟩ := ok_of_bind h
    obtain ⟨last, hend, h⟩ := ok_of_bind h
    obtain rfl := eq_of_finish hend
    split at h
    · cases h
      exact recordMembers_keeps hfields hread hdefault
    · cases h
  next =>
    obtain ⟨inner, henter, h⟩ := ok_of_bind h
    obtain rfl := Nat.succ.inj (eq_of_enter henter)
    exact recordItems_keeps hfields h hdefault
  next => cases h

end

theorem dictMembers_keeps {P : α → Prop} {read : Reading → Except Fault α}
    (hread : ∀ r a, read r = .ok a → P a) {members : List (Quoted × Reading)} {acc d : Dict α}
    (h : dictMembers read acc members = .ok d) (hacc : ∀ p ∈ acc.pairs, P p.2) :
    ∀ p ∈ d.pairs, P p.2 := by
  induction members generalizing acc with
  | nil => cases h; exact hacc
  | cons m rest ih =>
    rw [dictMembers] at h
    obtain ⟨name, -, h⟩ := ok_of_bind h
    obtain ⟨a, ha, h⟩ := ok_of_bind h
    refine ih h fun p hp => ?_
    rcases Pairs.mem_insert hp with rfl | hp
    · exact hread _ a ha
    · exact hacc p hp

/-- What is true of everything that is read is true of every value in a map that is read. -/
theorem dict_keeps {P : α → Prop} {read : Reader α} {depth : Nat}
    (hread : ∀ r a, read depth r = .ok a → P a) {r : Reading} {d : Dict α}
    (h : dict read (depth + 1) r = .ok d) : ∀ p ∈ d.pairs, P p.2 := by
  unfold dict at h
  split at h
  next =>
    obtain ⟨inner, henter, h⟩ := ok_of_bind h
    obtain rfl := Nat.succ.inj (eq_of_enter henter)
    obtain ⟨values, hvalues, hend⟩ := ok_of_bind h
    obtain rfl := eq_of_finish hend
    exact dictMembers_keeps hread hvalues fun p hp => nomatch hp
  next => cases h

theorem natural_le {limit depth : Nat} {r : Reading} {n : Nat}
    (h : natural limit depth r = .ok n) : n ≤ limit := by
  obtain ⟨i, hi, rfl⟩ := ok_of_map h
  unfold integer at hi
  split at hi
  next =>
    obtain ⟨number, -, hi⟩ := ok_of_bind hi
    split at hi
    · split at hi
      next hfits =>
        cases hi
        have := (Bool.and_eq_true_iff.mp hfits).2
        have := of_decide_eq_true this
        omega
      next => cases hi
    · cases hi
  next => cases hi

theorem ok_of_run {read : Reader α} {text : Bytes} {a : α} (h : read.run text = .ok a) :
    ∃ r, read maxDepth r = .ok a := by
  rw [run] at h
  generalize Reading.ofBytes text = read at h
  obtain ⟨r, after⟩ := read
  obtain ⟨result, hread, h⟩ := ok_of_bind h
  split at h
  · cases h
    exact ⟨r, hread⟩
  · cases h

end Reader

end Json

end ConfigStore
