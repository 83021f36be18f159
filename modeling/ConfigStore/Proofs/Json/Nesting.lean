import ConfigStore.Json.Record
import ConfigStore.Proofs.Json.Values

/-!
# How deep values nest

Reading a value steps into one container after another, and a reader is told how many it may step
into. What is written nests as deep as the value, so a value can be read back where it may be as
deep as it is, and whatever was read is no deeper than was allowed.

* `Json.Value.nesting` is the number of containers within each other.
* `Json.Reader.value_reading` reads a value back.
* `Json.Reader.sound_of_value` says what any value that was read is like.
-/

namespace ConfigStore

namespace Pairs

variable {α : Type}

/-- A pair whose key is greater than all others goes to the end. -/
theorem insert_append {key : String} {pairs : List (String × α)}
    (h : ∀ p ∈ pairs, p.1 < key) (a : α) : insert key a pairs = pairs ++ [(key, a)] := by
  induction pairs with
  | nil => rfl
  | cons p rest ih =>
    have hp := h p (List.mem_cons_self ..)
    have hne : key ≠ p.1 := fun heq => String.lt_irrefl _ (heq ▸ hp)
    rw [insert, if_neg (String.lt_asymm hp), if_neg hne,
      ih fun q hq => h q (List.mem_cons_of_mem _ hq), List.cons_append]

end Pairs

namespace Json

namespace Value

mutual

/-- How many containers stand within each other; a value that is no container counts nothing. -/
def nesting : Value → Nat
  | .array items => nestingItems items + 1
  | .object members => nestingMembers members + 1
  | .null | .bool _ | .number _ | .string _ => 0

/-- The nesting of the deepest item. -/
def nestingItems : List Value → Nat
  | [] => 0
  | v :: rest => max (nesting v) (nestingItems rest)

/-- The nesting of the deepest member. -/
def nestingMembers : List (String × Value) → Nat
  | [] => 0
  | (_, v) :: rest => max (nesting v) (nestingMembers rest)

end

theorem nestingMembers_le {n : Nat} {members : List (String × Value)} :
    nestingMembers members ≤ n ↔ ∀ m ∈ members, m.2.nesting ≤ n := by
  induction members with
  | nil => simp [nestingMembers]
  | cons m rest ih =>
    obtain ⟨name, v⟩ := m
    rw [nestingMembers, Nat.max_le, ih, List.forall_mem_cons]

theorem canonicalMembers_iff {members : List (String × Value)} :
    CanonicalMembers members ↔ ∀ m ∈ members, m.2.Canonical := by
  induction members with
  | nil => simp [CanonicalMembers]
  | cons m rest ih =>
    obtain ⟨name, v⟩ := m
    simp [CanonicalMembers, ih]

theorem plainMembers_iff {members : List (String × Value)} :
    PlainMembers members ↔ ∀ m ∈ members, m.2.Plain := by
  induction members with
  | nil => simp [PlainMembers]
  | cons m rest ih =>
    obtain ⟨name, v⟩ := m
    simp [PlainMembers, ih]

theorem plainItems_iff {items : List Value} : PlainItems items ↔ ∀ v ∈ items, v.Plain := by
  induction items with
  | nil => simp [PlainItems]
  | cons v rest ih => simp [PlainItems, ih]

end Value

open Value

/-! ## Values that are read back -/

namespace Reader

mutual

/-- A value is read back by whoever may step as deep as it nests. -/
theorem value_reading (v : Value) (hplain : v.Plain) (hcanonical : v.Canonical) {depth : Nat}
    (hdepth : v.nesting ≤ depth) : value depth v.reading = .ok v := by
  match v with
  | .null => rfl
  | .bool _ => rfl
  | .number (.integer n) =>
    rw [reading, value, Numeral.value_ofInt hplain]
    rfl
  | .string s =>
    rw [reading, value, Quoted.content_ofString]
    rfl
  | .array items =>
    rw [nesting] at hdepth
    obtain ⟨depth, rfl⟩ : ∃ n, depth = n + 1 := ⟨depth - 1, by omega⟩
    have hitems := valueItems_reading items hplain hcanonical (Nat.le_of_succ_le_succ hdepth)
    rw [reading, value]
    simp only [enter, bind, Except.bind, hitems, finish]
  | .object members =>
    rw [nesting] at hdepth
    obtain ⟨depth, rfl⟩ : ∃ n, depth = n + 1 := ⟨depth - 1, by omega⟩
    have hmembers := valueMembers_reading members [] hplain hcanonical.2
      (by rw [List.nil_append]; exact hcanonical.1) (Nat.le_of_succ_le_succ hdepth)
    rw [reading, value]
    simp only [enter, bind, Except.bind, hmembers, finish, List.nil_append]

theorem valueItems_reading (items : List Value) (hplain : PlainItems items)
    (hcanonical : CanonicalItems items) {depth : Nat} (hdepth : nestingItems items ≤ depth) :
    valueItems depth (readingItems items) = .ok items := by
  match items with
  | [] => rfl
  | v :: rest =>
    obtain ⟨hv, hothers⟩ := Nat.max_le.mp hdepth
    rw [readingItems, valueItems, value_reading v hplain.1 hcanonical.1 hv,
      valueItems_reading rest hplain.2 hcanonical.2 hothers]
    rfl

/-- Members in the order of their names are read onto those before them as they stand. -/
theorem valueMembers_reading (members acc : List (String × Value)) (hplain : PlainMembers members)
    (hcanonical : CanonicalMembers members) (hascending : Pairs.Ascending (acc ++ members))
    {depth : Nat} (hdepth : nestingMembers members ≤ depth) :
    valueMembers depth acc (readingMembers members) = .ok (acc ++ members) := by
  match members with
  | [] => rw [readingMembers, valueMembers, List.append_nil]
  | (name, v) :: rest =>
    obtain ⟨hv, hothers⟩ := Nat.max_le.mp hdepth
    have hbefore : ∀ p ∈ acc, p.1 < name := fun p hp =>
      (List.pairwise_append.mp hascending).2.2 p hp _ (List.mem_cons_self ..)
    have happend : acc ++ (name, v) :: rest = (acc ++ [(name, v)]) ++ rest := by simp
    rw [happend] at hascending
    have hrest := valueMembers_reading rest _ hplain.2 hcanonical.2 hascending hothers
    rw [readingMembers, valueMembers, Quoted.content_ofString]
    simp only [bind, Except.bind, value_reading v hplain.1 hcanonical.1 hv,
      Pairs.insert_append hbefore, hrest, happend]

end

/-! ## Values that were read -/

theorem ok_of_bind {α β : Type} {x : Except Fault α} {f : α → Except Fault β} {b : β}
    (h : (x >>= f) = .ok b) : ∃ a, x = .ok a ∧ f a = .ok b := by
  cases x with
  | error fault => cases h
  | ok a => exact ⟨a, rfl, h⟩

theorem ok_of_map {α β : Type} {x : Except Fault α} {f : α → β} {b : β}
    (h : x.map f = .ok b) : ∃ a, x = .ok a ∧ f a = b := by
  cases x with
  | error fault => cases h
  | ok a => exact ⟨a, rfl, Except.ok.inj h⟩

theorem eq_of_enter {depth inner : Nat} (h : enter depth = .ok inner) : depth = inner + 1 := by
  cases depth with
  | zero => cases h
  | succ n => exact congrArg (· + 1) (Except.ok.inj h)

theorem eq_of_finish {α : Type} {stop : Option Fault} {a b : α} (h : finish stop a = .ok b) :
    a = b := by
  cases stop with
  | none => exact Except.ok.inj h
  | some fault => cases h

/-- What is true of every value that is read by stepping into no more than `depth` containers. -/
def Sound (depth : Nat) (v : Value) : Prop := v.Canonical ∧ v.nesting ≤ depth

mutual

/-- A value that was read is in order and no deeper than was allowed. -/
theorem sound_of_value {depth : Nat} {r : Reading} {v : Value} (h : value depth r = .ok v) :
    Sound depth v := by
  match r with
  | .null => cases h; exact ⟨trivial, Nat.zero_le _⟩
  | .bool b => cases h; exact ⟨trivial, Nat.zero_le _⟩
  | .number (.ok n) =>
    rw [value] at h
    obtain ⟨number, -, rfl⟩ := ok_of_map h
    exact ⟨trivial, Nat.zero_le _⟩
  | .number (.error fault) => cases h
  | .string s =>
    rw [value] at h
    obtain ⟨text, -, rfl⟩ := ok_of_map h
    exact ⟨trivial, Nat.zero_le _⟩
  | .array items stop =>
    rw [value] at h
    obtain ⟨inner, henter, hinner⟩ := ok_of_bind h
    obtain ⟨values, hread, hend⟩ := ok_of_bind hinner
    obtain ⟨hcanonical, hdepth⟩ := sound_of_valueItems hread
    obtain rfl := eq_of_enter henter
    obtain rfl := eq_of_finish hend
    exact ⟨hcanonical, Nat.succ_le_succ hdepth⟩
  | .object members stop =>
    rw [value] at h
    obtain ⟨inner, henter, hinner⟩ := ok_of_bind h
    obtain ⟨values, hread, hend⟩ := ok_of_bind hinner
    obtain ⟨hascending, hvalues⟩ := sound_of_valueMembers hread .nil (by simp)
    obtain rfl := eq_of_enter henter
    obtain rfl := eq_of_finish hend
    exact ⟨⟨hascending, canonicalMembers_iff.mpr fun m hm => (hvalues m hm).1⟩,
      Nat.succ_le_succ (nestingMembers_le.mpr fun m hm => (hvalues m hm).2)⟩
  | .broken fault => cases h

theorem sound_of_valueItems {depth : Nat} {items : List Reading} {values : List Value}
    (h : valueItems depth items = .ok values) :
    CanonicalItems values ∧ nestingItems values ≤ depth := by
  match items with
  | [] => cases h; exact ⟨trivial, Nat.zero_le _⟩
  | r :: rest =>
    rw [valueItems] at h
    obtain ⟨v, hv, h⟩ := ok_of_bind h
    obtain ⟨others, hothers, h⟩ := ok_of_bind h
    obtain ⟨hcanonical, hdepth⟩ := sound_of_value hv
    obtain ⟨hcanonicals, hdepths⟩ := sound_of_valueItems hothers
    cases h
    exact ⟨⟨hcanonical, hcanonicals⟩, Nat.max_le.mpr ⟨hdepth, hdepths⟩⟩

theorem sound_of_valueMembers {depth : Nat} {members : List (Quoted × Reading)}
    {acc pairs : List (String × Value)} (h : valueMembers depth acc members = .ok pairs)
    (hascending : Pairs.Ascending acc) (hacc : ∀ p ∈ acc, Sound depth p.2) :
    Pairs.Ascending pairs ∧ ∀ p ∈ pairs, Sound depth p.2 := by
  match members with
  | [] => cases h; exact ⟨hascending, hacc⟩
  | (name, r) :: rest =>
    rw [valueMembers] at h
    obtain ⟨key, -, h⟩ := ok_of_bind h
    obtain ⟨v, hv, h⟩ := ok_of_bind h
    have hsound := sound_of_value hv
    refine sound_of_valueMembers h (Pairs.ascending_insert key v hascending) fun p hp => ?_
    rcases Pairs.mem_insert hp with rfl | hp
    · exact hsound
    · exact hacc p hp

end

end Reader

end Json

end ConfigStore
