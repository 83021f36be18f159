import ConfigStore.Proofs.Json.Arranging
import ConfigStore.Proofs.Json.Spelling

/-!
# The same record in other words

Two texts of an object say the same to the reader of a record if one becomes the other by changing
blanks between tokens, by putting members in another order, by adding or leaving out members that
the record does not know, and by adding or leaving out members that say what holds by default.

* `Json.ObjectText` is the text of an object; `Json.Reader.exists_objectText` finds it in a text
  that is read.
* `Json.Restates` is the relation between two such texts.
* `Json.Reader.run_restated` says that a record is read from one if and only if it is read from the
  other.
-/

namespace ConfigStore.Json

/-- The text of an object, with the blanks around it. -/
structure ObjectText where
  /-- The blanks in front. -/
  before : Blanks
  /-- The blanks after the opening brace. -/
  inside : Blanks
  /-- The members, in the order in which they are written. -/
  members : List (SpelledMember Spelling)
  /-- The blanks behind. -/
  after : Blanks

namespace ObjectText

/-- The object. -/
def value (o : ObjectText) : Spelling := .object o.inside o.members

/-- The bytes of the text. -/
def text (o : ObjectText) : Bytes := o.before.1 ++ (o.value.text ++ o.after.1)

end ObjectText

/-- The name of a member as it is read. -/
def SpelledMember.quoted (m : SpelledMember Spelling) : Quoted := .ofStrokes m.name

/-- Two texts of an object that say the same to a record, given the names that the record knows and
what may be left out of it: a member of a certain name with a certain value, blanks aside. -/
inductive Restates (known : List String) (vacant : String → Spelling → Prop) :
    ObjectText → ObjectText → Prop
  /-- Nothing but the blanks between the tokens is different. -/
  | respaced {o o' : ObjectText} (h : o.value.bare = o'.value.bare) : Restates known vacant o o'
  /-- The members are in another order. -/
  | permuted {o : ObjectText} {members : List (SpelledMember Spelling)}
      (h : o.members.Perm members) : Restates known vacant o { o with members := members }
  /-- There is one more member, with a name that the record does not know and any value. -/
  | unknown {o : ObjectText} {m : SpelledMember Spelling} {name : String}
      (hname : m.quoted.content = .ok name) (hunknown : name ∉ known) :
      Restates known vacant o { o with members := m :: o.members }
  /-- There is one more member, which says no more than its absence. -/
  | vacant {o : ObjectText} {m : SpelledMember Spelling} {name : String}
      (hname : m.quoted.content = .ok name) (hvacant : vacant name m.value.inner.bare)
      (habsent : ∀ n ∈ o.members, n.quoted.content ≠ .ok name) :
      Restates known vacant o { o with members := m :: o.members }
  | symm {o o' : ObjectText} (h : Restates known vacant o o') : Restates known vacant o' o
  | trans {o o' o'' : ObjectText} (h : Restates known vacant o o')
      (h' : Restates known vacant o' o'') : Restates known vacant o o''

theorem readingMembers_eq_map (members : List (SpelledMember Spelling)) :
    Spelling.readingMembers members = members.map fun m => (m.quoted, m.value.inner.reading) := by
  induction members with
  | nil => rfl
  | cons m rest ih =>
    rw [List.map_cons, ← ih]
    rfl

/-- A value that begins with a brace is an object. -/
theorem object_of_text {v : Spelling} {rest : Bytes} (h : v.text = code '\x7b' :: rest) :
    ∃ inside members, v = .object inside members := by
  match v with
  | .object inside members => exact ⟨inside, members, rfl⟩
  | .null => exact absurd (List.cons.inj h).1 (by decide)
  | .bool true => exact absurd (List.cons.inj h).1 (by decide)
  | .bool false => exact absurd (List.cons.inj h).1 (by decide)
  | .number n =>
    obtain ⟨b, tail, htext, hb⟩ := number_begins n
    rw [Spelling.text, htext] at h
    rw [(List.cons.inj h).1] at hb
    exact absurd hb (by decide)
  | .string strokes => exact absurd (List.cons.inj h).1 (by decide)
  | .array inside [] => exact absurd (List.cons.inj h).1 (by decide)
  | .array inside (⟨_, _, _⟩ :: _) => exact absurd (List.cons.inj h).1 (by decide)

namespace Reader

/-- A text that begins with a brace and is read by a reader who passes over no fault is the text of
an object. -/
theorem exists_objectText {α : Type} {read : Reader α} {text : Bytes} {a : α}
    (hread : ∀ r, read maxDepth r = .ok a → r.skip? = none) (h : read.run text = .ok a)
    (hbrace : (skipBlanks text).head? = some (code '\x7b')) :
    ∃ o : ObjectText, o.text = text := by
  obtain ⟨⟨before, v, after⟩, rfl⟩ := exists_spaced hread h
  obtain ⟨b, rest, htext, hb⟩ := text_begins v
  rw [Spaced.text, skipBlanks_blanks, htext, List.cons_append, skipBlanks_cons hb.not_blank,
    List.head?_cons] at hbrace
  obtain ⟨inside, members, rfl⟩ := object_of_text (Option.some.inj hbrace ▸ htext)
  exact ⟨⟨before, inside, members, after⟩, rfl⟩

variable {σ : Type} {fields : List (RecordField σ)} {default : σ}
  {vacant : String → Spelling → Prop}

/-- What is read from the text of an object is read from its members. -/
theorem run_objectText {α : Type} (read : Reader α) (o : ObjectText) :
    read.run o.text = read maxDepth
      (.object (o.members.map fun m => (m.quoted, m.value.inner.reading)) none) := by
  have hrun := run_text read ⟨o.before, o.value, o.after⟩
  rw [← readingMembers_eq_map]
  exact hrun

theorem run_respaced {α : Type} (read : Reader α) {o o' : ObjectText}
    (h : o.value.bare = o'.value.bare) : read.run o.text = read.run o'.text := by
  have hreading : o.value.reading = o'.value.reading := by
    rw [← Spelling.reading_bare, h, Spelling.reading_bare]
  exact (run_text read ⟨o.before, o.value, o.after⟩).trans
    ((congrArg _ hreading).trans (run_text read ⟨o'.before, o'.value, o'.after⟩).symm)

/-- What is read of a record does not change when its text is restated. -/
theorem run_restated (hfields : fields.Pairwise RecordField.Commute)
    (hvacant : ∀ name v, vacant name v → ∃ field set,
      fields.find? (·.name = name) = some field ∧
      (∀ f ∈ fields, f.name = name → f.required = false) ∧
      field.read (maxDepth - 1) v.reading = .ok set ∧ set default = default)
    {o o' : ObjectText} (h : Restates (fields.map (·.name)) vacant o o') (result : σ) :
    (record fields default).run o.text = .ok result ↔
      (record fields default).run o'.text = .ok result := by
  induction h with
  | respaced h => rw [run_respaced _ h]
  | permuted h =>
    rw [run_objectText, run_objectText]
    exact ⟨record_perm hfields (h.map _), record_perm hfields (h.symm.map _)⟩
  | unknown hname hunknown =>
    rw [run_objectText, run_objectText]
    exact (record_unknown hname hunknown (Spelling.skip?_reading _)).symm
  | @vacant o m name hname hempty habsent =>
    obtain ⟨field, set, hfind, hoptional, hread, hset⟩ := hvacant _ _ hempty
    rw [Spelling.reading_bare] at hread
    rw [run_objectText, run_objectText]
    refine (record_vacant hname hfind hoptional hread hset fun n hn => ?_).symm
    obtain ⟨other, hother, rfl⟩ := List.mem_map.mp hn
    exact habsent other hother
  | symm _ ih => exact ih.symm
  | trans _ _ ih ih' => exact ih.trans ih'

end Reader

end ConfigStore.Json
