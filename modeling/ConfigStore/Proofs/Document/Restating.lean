import ConfigStore.Proofs.Document.RoundTrip
import ConfigStore.Proofs.Json.Restating

/-!
# The same document in other words

A document is read from many texts. The order of the members, members of other names, blanks, and
members that are empty do not matter.

* `Document.Vacant` says which members may be left out because they are empty.
* `Document.commute_fields` says that the fields of a document can be read in any order.
* `Document.decode_restated` says that a document is read from every restatement of its text.
-/

namespace ConfigStore.Document

open Json

/-- The names of the members that are texts and may be missing. -/
def textNames : List String :=
  ["id", "label_format", "value", "value_type", "check", "project", "status", "domain"]

/-- The names of the members that are numbers and may be missing. -/
def numberNames : List String :=
  ["create_revision", "update_revision", "create_time", "update_time"]

/-- The spelling of zero. -/
def zero : NumberToken where
  negative := false
  whole := ⟨[0], List.cons_ne_nil _ _⟩
  fraction := none
  exponent := none
  noZero := fun d ds h => by cases h

/-- A member that says no more than its absence, by its name and the spelling of its value without
blanks: an empty text, a zero, or labels that are `null` or an empty object. -/
inductive Vacant : String → Spelling → Prop
  | text {name : String} (h : name ∈ textNames) : Vacant name (.string [])
  | number {name : String} (h : name ∈ numberNames) : Vacant name (.number zero)
  | null : Vacant "labels" .null
  | empty : Vacant "labels" (.object .none [])

/-- What a vacant member is read as leaves a new document as it is. -/
theorem Vacant.read {name : String} {v : Spelling} (h : Vacant name v) :
    ∃ field set, fields.find? (·.name = name) = some field ∧
      (∀ f ∈ fields, f.name = name → f.required = false) ∧
      field.read (maxDepth - 1) v.reading = .ok set ∧ set {} = {} := by
  have hoptional : name ≠ "key" → ∀ f ∈ fields, f.name = name → f.required = false := by
    intro hne f hf hname
    rw [Bool.eq_false_iff]
    exact fun hrequired => hne (hname ▸ name_of_required hf hrequired)
  cases h with
  | text h =>
    simp only [textNames, List.mem_cons, List.not_mem_nil, or_false] at h
    rcases h with rfl | rfl | rfl | rfl | rfl | rfl | rfl | rfl <;>
      exact ⟨_, _, rfl, hoptional (by decide), rfl, rfl⟩
  | number h =>
    simp only [numberNames, List.mem_cons, List.not_mem_nil, or_false] at h
    rcases h with rfl | rfl | rfl | rfl <;>
      exact ⟨_, _, rfl, hoptional (by decide), rfl, rfl⟩
  | null => exact ⟨_, _, rfl, hoptional (by decide), rfl, rfl⟩
  | empty => exact ⟨_, _, rfl, hoptional (by decide), rfl, rfl⟩

/-- The fields of a document can be read in any order. -/
theorem commute_fields : fields.Pairwise RecordField.Commute := by
  simp only [fields, List.pairwise_cons, List.forall_mem_cons, List.not_mem_nil, false_implies,
    implies_true, List.Pairwise.nil, and_true]
  repeat' apply And.intro
  all_goals exact .of_set fun _ _ _ => rfl

/-- Nothing that breaks off is read as a document. -/
theorem strict_reader : Reader.Strict reader := by
  have hnumber : Reader.Strict Reader.integer64 := Reader.strict_map _ (Reader.strict_integer _)
  have hlabels : Reader.Strict (Reader.nullAs .empty (Reader.dict Reader.text)) :=
    Reader.strict_nullAs _ (Reader.strict_dict Reader.strict_text)
  refine Reader.strict_record ?_ _
  simp only [fields, List.forall_mem_cons, List.not_mem_nil, false_implies, implies_true, and_true]
  repeat' apply And.intro
  all_goals
    first
    | exact Reader.strict_map _ Reader.strict_text
    | exact Reader.strict_map _ hnumber
    | exact Reader.strict_map _ hlabels

/-- Two texts of an object that say the same to the reader of a document: the order of the members,
members with other names, blanks between tokens and members that are empty do not matter. -/
abbrev Restated : ObjectText → ObjectText → Prop := Restates (fields.map (·.name)) Vacant

/-- Whoever reads a document from the text of an object reads the same document from every
restatement of it. -/
theorem decode_restated {text : Bytes} {d : Document} (hdecode : decode text = .ok d)
    (hobject : (skipBlanks text).head? = some (code '\x7b')) :
    (∃ o : ObjectText, o.text = text) ∧
      ∀ o o' : ObjectText, o.text = text → Restated o o' → decode o'.text = .ok d := by
  refine ⟨Reader.exists_objectText (fun r => strict_reader maxDepth r d) hdecode hobject, ?_⟩
  rintro o o' rfl hrestated
  exact (Reader.run_restated commute_fields (fun _ _ => Vacant.read) hrestated d).mp hdecode

/-- A string spelled by bytes that stand for themselves. -/
def plainly (bytes : Bytes) (h : bytes.all (IsPlainByte ·) = true) : List Stroke :=
  bytes.attach.map fun b => .plain b.1 (of_decide_eq_true (List.all_eq_true.mp h b.1 b.2))

/-- A member with a value that has no blanks around it. -/
def member (name : List Stroke) (v : Spelling) : SpelledMember Spelling :=
  ⟨.none, name, .none, ⟨.none, v, .none⟩⟩

/-- The member that gives the key. -/
def keyMember : SpelledMember Spelling :=
  member (plainly ("key".toList.map code) (by decide)) (.string (plainly [code 'k'] (by decide)))

/-- A member that gives no labels. -/
def labelsMember : SpelledMember Spelling :=
  member (plainly ("labels".toList.map code) (by decide)) .null

/-- A member that no document knows: an array with an object in it. -/
def noteMember (inside : Blanks) : SpelledMember Spelling :=
  member (plainly ("note".toList.map code) (by decide))
    (.array .none [⟨.none, .object inside [], .none⟩])

theorem decode_restated_sample :
    decode ("\x7b\"key\":\"k\",\"labels\":null\x7d".toList.map code) = .ok { key := "k" } ∧
    decode (" \x7b\"note\":[\x7b \x7d],\"key\":\"k\"\x7d".toList.map code)
      = .ok { key := "k" } := by
  let blank : Blanks := ⟨[0x20], fun b hb => List.mem_singleton.mp hb ▸ rfl⟩
  let o : ObjectText := ⟨.none, .none, [keyMember, labelsMember], .none⟩
  let o' : ObjectText := ⟨blank, .none, [noteMember blank, keyMember], .none⟩
  have htext : o.text = "\x7b\"key\":\"k\",\"labels\":null\x7d".toList.map code := by decide
  have htext' : o'.text = " \x7b\"note\":[\x7b \x7d],\"key\":\"k\"\x7d".toList.map code := by
    decide
  have hdecode : decode o.text = .ok { key := "k" } := (Reader.run_objectText reader o).trans rfl
  have hkey : keyMember.quoted.content = .ok "key" := rfl
  have hlabelsName : labelsMember.quoted.content = .ok "labels" := rfl
  have hnoteName : (noteMember .none).quoted.content = .ok "note" := rfl
  have habsent : ∀ n ∈ [keyMember], n.quoted.content ≠ .ok "labels" := by
    rintro n hn heq
    rw [List.mem_singleton.mp hn, hkey] at heq
    exact absurd (Except.ok.inj heq) (by decide)
  -- the members change places, the empty labels go, the note comes, and a blank on either side
  have hlabels : Restated ⟨.none, .none, [keyMember], .none⟩
      ⟨.none, .none, [labelsMember, keyMember], .none⟩ := .vacant hlabelsName .null habsent
  have hnote : Restated ⟨.none, .none, [keyMember], .none⟩
      ⟨.none, .none, [noteMember .none, keyMember], .none⟩ := .unknown hnoteName (by decide)
  have hrestated : Restated o o' :=
    .trans (.permuted (.swap ..)) (.trans (.symm hlabels) (.trans hnote (.respaced rfl)))
  rw [← htext, ← htext']
  exact ⟨hdecode, (decode_restated hdecode (by decide)).2 o o' rfl hrestated⟩

end ConfigStore.Document
