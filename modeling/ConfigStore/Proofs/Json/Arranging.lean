import Mathlib.Data.List.Pairwise
import ConfigStore.Proofs.Json.Nesting

/-!
# Members that do not matter

The members of a record may come in any order, members that the record does not know are passed
over, and a field that is missing has its default. So a record can be written in many ways, and
here is what may be changed about its members without changing what is read.

* `Json.Reader.Strict` says that a reader reads nothing that breaks off.
* `Json.RecordField.Commute` says that it does not matter which of two fields is read first;
  `Json.Reader.record_perm` is the same for all members of a record.
* `Json.Reader.record_unknown` adds a member that the record does not know, and
  `Json.Reader.record_vacant` one that gives a field the value it has by default.
-/

namespace ConfigStore.Json

/-! ## Readers that read nothing that breaks off -/

theorem stop_of_pieceBytes {stop : Option Fault} {pieces : List Piece} {bytes : Bytes}
    (h : pieceBytes stop pieces = .ok bytes) : stop = none := by
  fun_induction pieceBytes stop pieces generalizing bytes with
  | case1 hstop => exact hstop
  | case3 b rest ih =>
    obtain ⟨bytes, hrest, -⟩ := Reader.ok_of_map h
    exact ih hrest
  | case5 n _ _ m rest _ ih =>
    obtain ⟨bytes, hrest, -⟩ := Reader.ok_of_map h
    exact ih hrest
  | case9 n rest _ _ ih =>
    obtain ⟨bytes, hrest, -⟩ := Reader.ok_of_map h
    exact ih hrest
  | _ => cases h

theorem Quoted.stop_of_content {s : Quoted} {text : String} (h : s.content = .ok text) :
    s.stop = none := by
  obtain ⟨bytes, hbytes, -⟩ := Reader.ok_of_bind h
  exact stop_of_pieceBytes hbytes

namespace Reader

variable {α β σ : Type}

theorem none_of_finish {stop : Option Fault} {a b : α} (h : finish stop a = .ok b) :
    stop = none := by
  cases stop with
  | none => rfl
  | some fault => cases h

/-- A reader that reads nothing in which passing over it would meet a fault. -/
def Strict (read : Reader α) : Prop := ∀ depth r a, read depth r = .ok a → r.skip? = none

theorem strict_map (f : α → β) {read : Reader α} (h : Strict read) : Strict (map f read) := by
  intro depth r b hread
  obtain ⟨a, ha, -⟩ := ok_of_map hread
  exact h depth r a ha

theorem strict_text : Strict text := by
  intro depth r s h
  unfold text at h
  split at h
  · exact Quoted.stop_of_content h
  · cases h

theorem strict_integer (fits : Int → Bool) : Strict (integer fits) := by
  intro depth r n h
  unfold integer at h
  split at h
  · rfl
  · cases h

theorem strict_nullAs (default : α) {read : Reader α} (h : Strict read) :
    Strict (nullAs default read) := by
  intro depth r a hread
  unfold nullAs at hread
  split at hread
  · rfl
  · exact h depth r a hread

theorem skip?_of_dictMembers {read : Reading → Except Fault α}
    (h : ∀ r a, read r = .ok a → r.skip? = none) {members : List (Quoted × Reading)}
    {acc d : Dict α} (hread : dictMembers read acc members = .ok d) :
    Reading.skipMembers? members = none := by
  induction members generalizing acc with
  | nil => rfl
  | cons m rest ih =>
    rw [dictMembers] at hread
    obtain ⟨name, hname, hread⟩ := ok_of_bind hread
    obtain ⟨a, ha, hread⟩ := ok_of_bind hread
    exact Reading.skipMembers?_cons_iff.mpr ⟨Quoted.stop_of_content hname, h m.2 a ha, ih hread⟩

theorem strict_dict {read : Reader α} (h : Strict read) : Strict (dict read) := by
  intro depth r d hread
  unfold dict at hread
  split at hread
  next members stop =>
    obtain ⟨inner, -, hread⟩ := ok_of_bind hread
    obtain ⟨values, hvalues, hend⟩ := ok_of_bind hread
    rw [Reading.skip?, skip?_of_dictMembers (h inner) hvalues, none_of_finish hend]
    rfl
  · cases hread

/-! ## One member -/

section

variable (fields : List (RecordField σ)) (depth : Nat)

/-- What reading a member makes of the names seen so far and of the record so far: a member with an
unknown name is passed over, any other one is put into its field. -/
inductive Takes : Quoted × Reading → List String → σ → List String → σ → Prop
  | passed {name : Quoted} {r : Reading} {seen : List String} {acc : σ} {key : String}
      (hname : name.content = .ok key) (hfind : fields.find? (·.name = key) = none)
      (hskip : r.skip? = none) : Takes (name, r) seen acc seen acc
  | filled {name : Quoted} {r : Reading} {seen : List String} {acc : σ} {key : String}
      {field : RecordField σ} {set : σ → σ} (hname : name.content = .ok key)
      (hfind : fields.find? (·.name = key) = some field) (hnew : key ∉ seen)
      (hread : field.read depth r = .ok set) : Takes (name, r) seen acc (key :: seen) (set acc)

end

variable {fields : List (RecordField σ)} {depth : Nat} {seen seen' : List String} {acc acc' : σ}
  {m m' : Quoted × Reading} {members members' : List (Quoted × Reading)}

theorem recordMembers_cons_iff {result : List String × σ} :
    recordMembers fields depth seen acc (m :: members) = .ok result ↔
      ∃ seen' acc', Takes fields depth m seen acc seen' acc' ∧
        recordMembers fields depth seen' acc' members = .ok result := by
  obtain ⟨name, r⟩ := m
  rw [recordMembers]
  constructor
  · intro h
    obtain ⟨key, hname, h⟩ := ok_of_bind h
    split at h
    next hfind =>
      split at h
      · cases h
      next hskip => exact ⟨seen, acc, .passed hname hfind hskip, h⟩
    next field hfind =>
      split at h
      · cases h
      next hnew =>
        obtain ⟨set, hread, h⟩ := ok_of_bind h
        exact ⟨_, _, .filled hname hfind hnew hread, h⟩
  · rintro ⟨seen', acc', htakes, h⟩
    cases htakes with
    | passed hname hfind hskip => simp only [hname, bind, Except.bind, hfind, hskip, h]
    | filled hname hfind hnew hread =>
      simp only [hname, bind, Except.bind, hfind, if_neg hnew, hread, h]

/-- The names seen so far count only as a set. -/
theorem Takes.of_perm (h : Takes fields depth m seen acc seen' acc') {names : List String}
    (hperm : seen.Perm names) :
    ∃ names', Takes fields depth m names acc names' acc' ∧ seen'.Perm names' := by
  cases h with
  | passed hname hfind hskip => exact ⟨names, .passed hname hfind hskip, hperm⟩
  | filled hname hfind hnew hread =>
    exact ⟨_, .filled hname hfind (fun hmem => hnew (hperm.mem_iff.mpr hmem)) hread, hperm.cons _⟩

end Reader

/-- It does not matter which of two fields is read first. -/
def RecordField.Commute {σ : Type} (f g : RecordField σ) : Prop :=
  ∀ depth r r' set set', f.read depth r = .ok set → g.read depth r' = .ok set' →
    ∀ s, set (set' s) = set' (set s)

namespace RecordField

variable {σ α β : Type}

instance : Std.Symm (@Commute σ) where
  symm _ _ h := fun depth r r' set set' hset hset' s => (h depth r' r set' set hset' hset s).symm

/-- Two fields that put their values into different places. -/
theorem Commute.of_set {name name' : String} {required required' : Bool} {read : Reader α}
    {read' : Reader β} {set : α → σ → σ} {set' : β → σ → σ}
    (h : ∀ a b s, set a (set' b s) = set' b (set a s)) :
    Commute ⟨name, required, Reader.map set read⟩ ⟨name', required', Reader.map set' read'⟩ := by
  intro depth r r' f g hf hg s
  obtain ⟨a, -, rfl⟩ := Reader.ok_of_map hf
  obtain ⟨b, -, rfl⟩ := Reader.ok_of_map hg
  exact h a b s

end RecordField

namespace Reader

variable {σ : Type} {fields : List (RecordField σ)} {depth : Nat} {seen : List String} {acc : σ}
  {members members' : List (Quoted × Reading)}

theorem name_of_find? {key : String} {field : RecordField σ}
    (h : fields.find? (·.name = key) = some field) : field.name = key := by
  simpa using List.find?_some h

/-- Two members can be read the other way round. -/
theorem Takes.swap (hfields : fields.Pairwise RecordField.Commute)
    {m m' : Quoted × Reading} {seen₁ seen₂ : List String} {acc₁ acc₂ : σ}
    (h : Takes fields depth m seen acc seen₁ acc₁)
    (h' : Takes fields depth m' seen₁ acc₁ seen₂ acc₂) :
    ∃ seen₁' acc₁' seen₂', Takes fields depth m' seen acc seen₁' acc₁' ∧
      Takes fields depth m seen₁' acc₁' seen₂' acc₂ ∧ seen₂.Perm seen₂' := by
  cases h with
  | passed hname hfind hskip =>
    cases h' with
    | passed hname' hfind' hskip' =>
      exact ⟨_, _, _, .passed hname' hfind' hskip', .passed hname hfind hskip, .refl _⟩
    | filled hname' hfind' hnew' hread' =>
      exact ⟨_, _, _, .filled hname' hfind' hnew' hread', .passed hname hfind hskip, .refl _⟩
  | filled hname hfind hnew hread =>
    cases h' with
    | passed hname' hfind' hskip' =>
      exact ⟨_, _, _, .passed hname' hfind' hskip', .filled hname hfind hnew hread, .refl _⟩
    | @filled _ _ _ _ key' field' set' hname' hfind' hnew' hread' =>
      rw [List.mem_cons, not_or] at hnew'
      have hne := hnew'.1
      rw [← name_of_find? hfind, ← name_of_find? hfind'] at hne
      have hcommute := hfields.forall (List.mem_of_find?_eq_some hfind')
        (List.mem_of_find?_eq_some hfind) (fun heq => hne (congrArg RecordField.name heq))
        _ _ _ _ _ hread' hread acc
      have hnew₂ := List.not_mem_cons_of_ne_of_not_mem (Ne.symm hnew'.1) hnew
      exact ⟨_, _, _, .filled hname' hfind' hnew'.2 hread',
        hcommute ▸ .filled hname hfind hnew₂ hread, .swap ..⟩

/-- In which order the names were seen does not matter for the members that are left. -/
theorem recordMembers_names {names seen' : List String} {result : σ} (hnames : seen.Perm names)
    (h : recordMembers fields depth seen acc members = .ok (seen', result)) :
    ∃ names', recordMembers fields depth names acc members = .ok (names', result) ∧
      seen'.Perm names' := by
  induction members generalizing seen names acc with
  | nil =>
    cases h
    exact ⟨names, rfl, hnames⟩
  | cons m rest ih =>
    obtain ⟨seen₁, acc₁, htakes, hrest⟩ := recordMembers_cons_iff.mp h
    obtain ⟨names₁, htakes', hnames₁⟩ := htakes.of_perm hnames
    obtain ⟨names', hrest', hseen⟩ := ih hnames₁ hrest
    exact ⟨names', recordMembers_cons_iff.mpr ⟨_, _, htakes', hrest'⟩, hseen⟩

/-- The members of a record can be read in any order. -/
theorem recordMembers_perm (hfields : fields.Pairwise RecordField.Commute)
    (hperm : members.Perm members') {seen' : List String} {result : σ}
    (h : recordMembers fields depth seen acc members = .ok (seen', result)) :
    ∃ names', recordMembers fields depth seen acc members' = .ok (names', result) ∧
      seen'.Perm names' := by
  induction hperm generalizing seen acc seen' with
  | nil => exact ⟨seen', h, .refl _⟩
  | cons m _ ih =>
    obtain ⟨seen₁, acc₁, htakes, hrest⟩ := recordMembers_cons_iff.mp h
    obtain ⟨names', hrest', hseen⟩ := ih hrest
    exact ⟨names', recordMembers_cons_iff.mpr ⟨_, _, htakes, hrest'⟩, hseen⟩
  | swap m m' rest =>
    obtain ⟨seen₁, acc₁, htakes, h⟩ := recordMembers_cons_iff.mp h
    obtain ⟨seen₂, acc₂, htakes', hrest⟩ := recordMembers_cons_iff.mp h
    obtain ⟨_, _, names₂, hfirst, hsecond, hnames⟩ := htakes.swap hfields htakes'
    obtain ⟨names', hrest', hseen⟩ := recordMembers_names hnames hrest
    exact ⟨names', recordMembers_cons_iff.mpr
      ⟨_, _, hfirst, recordMembers_cons_iff.mpr ⟨_, _, hsecond, hrest'⟩⟩, hseen⟩
  | trans _ _ ih₁ ih₂ =>
    obtain ⟨names₁, h₁, hseen₁⟩ := ih₁ h
    obtain ⟨names₂, h₂, hseen₂⟩ := ih₂ h₁
    exact ⟨names₂, h₂, hseen₁.trans hseen₂⟩

/-! ## Records -/

variable {default result : σ}

/-- An object is read as a record if its members are and no field is missing that must be there. -/
theorem record_object_iff :
    record fields default (depth + 1) (.object members none) = .ok result ↔
      ∃ seen, recordMembers fields depth [] default members = .ok (seen, result) ∧
        ∀ field ∈ fields, field.required = true → field.name ∈ seen := by
  have hall : ∀ seen : List String,
      (fields.all fun field => !field.required || field.name ∈ seen) = true ↔
        ∀ field ∈ fields, field.required = true → field.name ∈ seen := by
    intro seen
    rw [List.all_eq_true]
    refine forall₂_congr fun field _ => ?_
    cases field.required <;> simp
  rw [record]
  constructor
  · intro h
    obtain ⟨inner, henter, h⟩ := ok_of_bind h
    cases henter
    obtain ⟨⟨seen, read⟩, hmembers, h⟩ := ok_of_bind h
    obtain ⟨last, hend, h⟩ := ok_of_bind h
    cases hend
    split at h
    next hseen =>
      cases h
      exact ⟨seen, hmembers, (hall seen).mp hseen⟩
    · cases h
  · rintro ⟨seen, hmembers, hseen⟩
    simp only [enter, bind, Except.bind, hmembers, finish, (hall seen).mpr hseen, if_true]

/-- The members of an object may come in any order. -/
theorem record_perm (hfields : fields.Pairwise RecordField.Commute)
    (hperm : members.Perm members')
    (h : record fields default (depth + 1) (.object members none) = .ok result) :
    record fields default (depth + 1) (.object members' none) = .ok result := by
  obtain ⟨seen, hmembers, hseen⟩ := record_object_iff.mp h
  obtain ⟨names, hmembers', hnames⟩ := recordMembers_perm hfields hperm hmembers
  exact record_object_iff.mpr ⟨names, hmembers', fun field hfield hrequired =>
    hnames.mem_iff.mp (hseen field hfield hrequired)⟩

/-- A member that the record does not know is passed over. -/
theorem record_unknown {name : Quoted} {r : Reading} {key : String}
    (hname : name.content = .ok key) (hunknown : key ∉ fields.map (·.name))
    (hskip : r.skip? = none) :
    record fields default (depth + 1) (.object ((name, r) :: members) none) = .ok result ↔
      record fields default (depth + 1) (.object members none) = .ok result := by
  have hfind : fields.find? (·.name = key) = none := by
    rw [List.find?_eq_none]
    exact fun field hfield heq =>
      hunknown (List.mem_map.mpr ⟨field, hfield, of_decide_eq_true heq⟩)
  have hmembers : recordMembers fields depth [] default ((name, r) :: members)
      = recordMembers fields depth [] default members := by
    rw [recordMembers]
    simp only [hname, bind, Except.bind, hfind, hskip]
  rw [record_object_iff, record_object_iff, hmembers]

/-- A name that no member has may have been seen or not. -/
theorem recordMembers_unseen {key : String} (habsent : ∀ m ∈ members, m.1.content ≠ .ok key)
    (seen : List String) (acc : σ) :
    recordMembers fields depth (seen ++ [key]) acc members =
      (recordMembers fields depth seen acc members).map fun read => (read.1 ++ [key], read.2) := by
  induction members generalizing seen acc with
  | nil => rfl
  | cons m rest ih =>
    obtain ⟨name, r⟩ := m
    obtain ⟨hm, hrest⟩ := List.forall_mem_cons.mp habsent
    rw [recordMembers, recordMembers]
    cases hname : name.content with
    | error fault => rfl
    | ok other =>
      have hother : other ≠ key := fun heq => hm (heq ▸ hname)
      simp only [bind, Except.bind]
      cases fields.find? (·.name = other) with
      | none =>
        cases r.skip? with
        | none => exact ih hrest seen acc
        | some fault => rfl
      | some field =>
        by_cases hseen : other ∈ seen
        · simp only [hseen, List.mem_append, true_or, if_true]
          rfl
        · simp only [hseen, List.mem_append, List.mem_singleton, hother, or_self, if_false]
          cases field.read depth r with
          | error fault => rfl
          | ok set => exact ih hrest (other :: seen) (set acc)

/-- A member that gives a field the value it has by default can be left out. -/
theorem record_vacant {name : Quoted} {r : Reading} {key : String} {field : RecordField σ}
    {set : σ → σ} (hname : name.content = .ok key)
    (hfind : fields.find? (·.name = key) = some field)
    (hoptional : ∀ f ∈ fields, f.name = key → f.required = false)
    (hread : field.read depth r = .ok set) (hset : set default = default)
    (habsent : ∀ m ∈ members, m.1.content ≠ .ok key) :
    record fields default (depth + 1) (.object ((name, r) :: members) none) = .ok result ↔
      record fields default (depth + 1) (.object members none) = .ok result := by
  have hmembers : recordMembers fields depth [] default ((name, r) :: members)
      = (recordMembers fields depth [] default members).map
        fun read => (read.1 ++ [key], read.2) := by
    rw [← recordMembers_unseen habsent, recordMembers]
    simp only [hname, bind, Except.bind, hfind, List.not_mem_nil, if_false, hread, hset,
      List.nil_append]
  rw [record_object_iff, record_object_iff, hmembers]
  constructor
  · rintro ⟨seen, hall, hseen⟩
    obtain ⟨⟨names, read⟩, hothers, heq⟩ := ok_of_map hall
    cases heq
    refine ⟨names, hothers, fun f hf hrequired => ?_⟩
    rcases List.mem_append.mp (hseen f hf hrequired) with hmem | hmem
    · exact hmem
    · rw [hoptional f hf (List.mem_singleton.mp hmem)] at hrequired
      cases hrequired
  · rintro ⟨seen, hothers, hseen⟩
    exact ⟨seen ++ [key], by rw [hothers]; rfl, fun f hf hrequired =>
      List.mem_append_left _ (hseen f hf hrequired)⟩

theorem skip?_of_recordMembers (hfields : ∀ field ∈ fields, Strict field.read)
    {read : List String × σ} (h : recordMembers fields depth seen acc members = .ok read) :
    Reading.skipMembers? members = none := by
  induction members generalizing seen acc with
  | nil => rfl
  | cons m rest ih =>
    obtain ⟨seen', acc', htakes, hrest⟩ := recordMembers_cons_iff.mp h
    cases htakes with
    | passed hname hfind hskip =>
      exact Reading.skipMembers?_cons_iff.mpr ⟨Quoted.stop_of_content hname, hskip, ih hrest⟩
    | filled hname hfind hnew hread =>
      have hskip := hfields _ (List.mem_of_find?_eq_some hfind) depth _ _ hread
      exact Reading.skipMembers?_cons_iff.mpr ⟨Quoted.stop_of_content hname, hskip, ih hrest⟩

theorem skip?_of_recordItems (hfields : ∀ field ∈ fields, Strict field.read)
    {items : List Reading} {stop : Option Fault}
    (h : recordItems depth stop acc fields items = .ok result) :
    Reading.skipItems? items = none ∧ stop = none := by
  induction fields generalizing items acc with
  | nil =>
    cases items with
    | nil => exact ⟨rfl, none_of_finish h⟩
    | cons r rest => cases h
  | cons field fields ih =>
    obtain ⟨hfield, hothers⟩ := List.forall_mem_cons.mp hfields
    cases items with
    | nil =>
      cases stop with
      | none => exact ⟨rfl, rfl⟩
      | some fault => cases h
    | cons r rest =>
      obtain ⟨set, hset, hrest⟩ := ok_of_bind h
      obtain ⟨hitems, hstop⟩ := ih hothers hrest
      exact ⟨Reading.skipItems?_cons_iff.mpr ⟨hfield depth r set hset, hitems⟩, hstop⟩

/-- A record whose fields are read from nothing that breaks off is itself read so. -/
theorem strict_record (hfields : ∀ field ∈ fields, Strict field.read) (default : σ) :
    Strict (record fields default) := by
  intro depth r result h
  unfold record at h
  split at h
  next members stop =>
    obtain ⟨inner, -, h⟩ := ok_of_bind h
    obtain ⟨⟨seen, read⟩, hmembers, h⟩ := ok_of_bind h
    obtain ⟨last, hend, -⟩ := ok_of_bind h
    rw [Reading.skip?, skip?_of_recordMembers hfields hmembers, none_of_finish hend]
    rfl
  next items stop =>
    obtain ⟨inner, -, h⟩ := ok_of_bind h
    obtain ⟨hitems, rfl⟩ := skip?_of_recordItems hfields h
    rw [Reading.skip?, hitems]
    rfl
  · cases h

end Reader

end ConfigStore.Json
