import Mathlib.Logic.Function.Basic
import ConfigStore.Proofs.Files.Cleaning
import ConfigStore.Proofs.Files.Moving
import ConfigStore.Proofs.Store.Naming
import ConfigStore.Store.Deletion

/-!
# Documents that are moved aside

While documents are being deleted, every one of them is in one of four phases. The tree is then
determined by the tree as it was before and by the phases (`Deletion.Bench`), up to directories that
were created for documents that could not be moved.

* `Deletion.Phase.Holds` says what a phase means for the two directories of a document.
* `Deletion.Bench.step` changes the phase of one document and keeps those of all others.
* `Deletion.Bench.same` says that two trees with the same deletions behind them look the same.
-/

namespace ConfigStore.Deletion

open Node Disk

variable {root : Path} {base : Place} {domain project id : String} {disk disk' disk'' : Node}

/-- The names that lead from the root to a document. -/
abbrev home (domain project id : String) : List String := [domain, project, id]

/-- The names that lead from the root to a document that is being deleted. -/
abbrev aside (domain project id : String) : List String := [Layout.tmpName, domain, project, id]

/-- The names of the directories that all documents of a project need that are being deleted. -/
abbrev waiting (domain project : String) : List String := [Layout.tmpName, domain, project]

theorem documentDir_eq : Layout.documentDir root domain project id
    = root.descend (home domain project id) := rfl

theorem tmpDocumentDir_eq : Layout.tmpDocumentDir root domain project id
    = root.descend (aside domain project id) := rfl

theorem isPiece_home (hscope : Names.checkScope domain project = .ok ())
    (hid : Names.checkId id = .ok ()) : ∀ n ∈ home domain project id, IsPiece n := by
  obtain ⟨hdomain, -, hproject⟩ := Names.checkScope_eq_ok_iff.mp hscope
  simp only [List.mem_cons, List.not_mem_nil, or_false, forall_eq_or_imp, forall_eq]
  exact ⟨Names.isPiece_of_isPlain hdomain, Names.isPiece_of_isPlain hproject,
    Names.isPiece_of_isPlain (Names.checkId_eq_ok_iff.mp hid)⟩

theorem isPiece_aside (h : ∀ n ∈ home domain project id, IsPiece n) :
    ∀ n ∈ aside domain project id, IsPiece n :=
  List.forall_mem_cons.mpr ⟨Layout.isName_tmpName.toIsPiece, h⟩

theorem isName_aside (h : ∀ n ∈ home domain project id, IsName n) :
    ∀ n ∈ aside domain project id, IsName n :=
  List.forall_mem_cons.mpr ⟨Layout.isName_tmpName, h⟩

theorem not_home_le_aside (h : domain ≠ Layout.tmpName) :
    ¬home domain project id <+: aside domain project id :=
  fun hle => h (List.cons_prefix_cons.mp hle).1

theorem not_aside_le_home (h : domain ≠ Layout.tmpName) :
    ¬aside domain project id <+: home domain project id :=
  fun hle => h (List.cons_prefix_cons.mp hle).1.symm

/-! ## Phases -/

/-- Whatever the directories of the documents of a project hold has a name that an entry can
have. -/
def WellNamedIn (base : Place) (domain project : String) (disk : Node) : Prop :=
  ∀ id n, disk.kindAt? (base ++ home domain project id ++ [n]) ≠ none → IsName n

/-- How far the deletion of a document has gone. -/
inductive Phase
  /-- Nothing has been done. -/
  | resting
  /-- The document is where it was, after an attempt to move it. -/
  | returned
  /-- The document has been moved aside. -/
  | staged
  /-- The document has been deleted. -/
  | removed

/-- What a phase means for the directory `s` of a document and the directory `t` for the time it is
being deleted: `disk` is the tree before and `disk'` the tree now. A document with subdirectories
leaves all its files in `t` when it is deleted. -/
def Phase.Holds (s t : Place) (disk disk' : Node) : Phase → Prop
  | .resting =>
    (∀ q, disk'.kindAt? (s ++ q) = disk.kindAt? (s ++ q)) ∧
      ∀ q, disk'.kindAt? (t ++ q) = disk.kindAt? (t ++ q)
  | .returned =>
    (∀ q, disk'.kindAt? (s ++ q) = disk.kindAt? (s ++ q)) ∧
      disk'.content? t = disk.content? t ∧
      ∀ n q, disk'.kindAt? (t ++ n :: q) = disk.kindAt? (t ++ n :: q)
  | .staged =>
    disk'.kindAt? s = some .dir ∧ (∀ n q, disk'.kindAt? (s ++ n :: q) = none) ∧
      disk'.kindAt? t = some .dir ∧
      ∀ n q, disk'.kindAt? (t ++ n :: q) = disk.kindAt? (s ++ n :: q)
  | .removed =>
    (∀ q, disk'.kindAt? (s ++ q) = none) ∧
      ((∃ n, disk.kindAt? (s ++ [n]) = some .dir) →
        ∀ q, disk'.kindAt? (t ++ q) = disk.kindAt? (s ++ q)) ∧
      ((¬∃ n, disk.kindAt? (s ++ [n]) = some .dir) → ∀ q, disk'.kindAt? (t ++ q) = none)

/-- Phases in which the document is where it was. -/
def Phase.AtHome : Phase → Prop
  | .resting | .returned => True
  | .staged | .removed => False

namespace Phase

variable {s t : Place} {phase : Phase}

theorem Holds.congr (h : phase.Holds s t disk disk')
    (hs : ∀ q, disk''.kindAt? (s ++ q) = disk'.kindAt? (s ++ q))
    (ht : ∀ q, disk''.kindAt? (t ++ q) = disk'.kindAt? (t ++ q)) :
    phase.Holds s t disk disk'' := by
  have hs' : disk''.kindAt? s = disk'.kindAt? s := by simpa using hs []
  have ht' : disk''.kindAt? t = disk'.kindAt? t := by simpa using ht []
  cases phase with
  | resting => exact ⟨fun q => (hs q).trans (h.1 q), fun q => (ht q).trans (h.2 q)⟩
  | returned =>
    exact ⟨fun q => (hs q).trans (h.1 q), (content?_congr ht').trans h.2.1,
      fun n q => (ht _).trans (h.2.2 n q)⟩
  | staged =>
    exact ⟨hs'.trans h.1, fun n q => (hs _).trans (h.2.1 n q), ht'.trans h.2.2.1,
      fun n q => (ht _).trans (h.2.2.2 n q)⟩
  | removed =>
    exact ⟨fun q => (hs q).trans (h.1 q), fun hsub q => (ht q).trans (h.2.1 hsub q),
      fun hsub q => (ht q).trans (h.2.2 hsub q)⟩

theorem atHome_update {phase : String → Phase} {id other : String} {new : Phase}
    (hnew : new.AtHome) (hrest : other ≠ id → (phase other).AtHome) :
    (Function.update phase id new other).AtHome := by
  by_cases heq : other = id
  · rw [heq, Function.update_self]
    exact hnew
  · rw [Function.update_of_ne heq]
    exact hrest heq

/-- Nothing that a document holds differs from before if the document is where it was. -/
theorem Holds.returned (h : phase.Holds s t disk disk') (hhome : phase.AtHome) :
    Phase.returned.Holds s t disk disk' := by
  cases phase with
  | resting => exact ⟨h.1, content?_congr (by simpa using h.2 []), fun n q => h.2 (n :: q)⟩
  | returned => exact h
  | staged => exact hhome.elim
  | removed => exact hhome.elim

end Phase

/-! ## The tree -/

/-- What a tree looks like when the documents of a project are in given phases: `disk` is the tree
before. -/
structure Bench (base : Place) (domain project : String) (disk : Node) (phase : String → Phase)
    (disk' : Node) : Prop where
  distinct : disk'.Distinct
  phases : ∀ id, (phase id).Holds (base ++ home domain project id) (base ++ aside domain project id)
    disk disk'
  kept : ∀ q, q <+: base ++ waiting domain project → disk.kindAt? q = some .dir →
    disk'.kindAt? q = some .dir
  files : ∀ q, q <+: base ++ waiting domain project → disk'.content? q = disk.content? q
  busy : (∃ id, ¬(phase id).AtHome) → disk'.kindAt? (base ++ waiting domain project) = some .dir
  frame : ∀ q, (∀ id, ¬base ++ home domain project id <+: q) →
    (∀ id, ¬base ++ aside domain project id <+: q) → ¬q <+: base ++ waiting domain project →
      disk'.kindAt? q = disk.kindAt? q

/-- An attempt to remove a directory below the root removes it, or leaves the tree as it was. -/
theorem attempt_clean {root : Path} {base : Place} {names : List String}
    (hg : Grounded root base disk) (hnames : ∀ n ∈ names, IsName n) (hne : names ≠ [])
    (htext : checkText (root.descend names) = .ok ())
    (hdir : disk.kindAt? (base ++ names) = some .dir)
    (hnamed : ∀ n, disk.kindAt? (base ++ names ++ [n]) ≠ none → IsName n) {disk' : Node}
    (h : (Files.clean (root.descend names)).attempt disk = disk') :
    disk'.Distinct ∧ (∀ q, ¬base ++ names <+: q → disk'.kindAt? q = disk.kindAt? q) ∧
      (Files.Cleanable (root.descend names) (base ++ names) disk →
        Files.Removed (base ++ names) disk disk') ∧
      (¬Files.Cleanable (root.descend names) (base ++ names) disk → Same disk' disk) := by
  rcases Files.clean_descend hg hnames hne htext hdir hnamed with
    ⟨hyes, disk'', hok, hremoved⟩ | ⟨hno, failure, disk'', herror, hdistinct, hsame⟩
  · rw [DiskAction.attempt, hok] at h
    subst h
    exact ⟨hremoved.distinct, hremoved.frame, fun _ => hremoved, fun hno => absurd hyes hno⟩
  · rw [DiskAction.attempt, herror] at h
    subst h
    exact ⟨hdistinct, fun q _ => hsame q, fun hyes => absurd hyes hno, fun _ => hsame⟩

namespace Bench

variable {phase phase' : String → Phase}

/-- Before anything is done, all documents rest. -/
theorem start (hd : disk.Distinct) (base : Place) (domain project : String) :
    Bench base domain project disk (fun _ => .resting) disk where
  distinct := hd
  phases := fun _ => ⟨fun _ => rfl, fun _ => rfl⟩
  kept := fun _ _ h => h
  files := fun _ _ => rfl
  busy := fun ⟨_, h⟩ => absurd trivial h
  frame := fun _ _ _ _ => rfl

theorem dir (h : Bench base domain project disk phase disk') {q : Place}
    (hq : disk.kindAt? q = some .dir) (hbase : base <+: q → q = base) :
    disk'.kindAt? q = some .dir := by
  have hbelow : ∀ n ns, ¬base ++ n :: ns <+: q := by
    intro n ns hle
    have := hbase ((List.prefix_append base _).trans hle)
    exact not_below_above base n ns (this ▸ hle)
  by_cases habove : q <+: base ++ waiting domain project
  · exact h.kept q habove hq
  · rw [h.frame q (fun id => hbelow _ _) (fun id => hbelow _ _) habove, hq]

/-- The root stays where it is. -/
theorem grounded (h : Bench base domain project disk phase disk') (hg : Grounded root base disk) :
    Grounded root base disk' :=
  hg.mono h.distinct fun _ hq hbase => h.dir hq hbase

/-- Phases may be described by less. -/
theorem mono (h : Bench base domain project disk phase disk')
    (hle : ∀ id, phase' id = phase id ∨ (phase id).AtHome ∧ phase' id = .returned) :
    Bench base domain project disk phase' disk' where
  distinct := h.distinct
  phases := by
    intro id
    rcases hle id with heq | ⟨hhome, heq⟩
    · rw [heq]
      exact h.phases id
    · rw [heq]
      exact (h.phases id).returned hhome
  kept := h.kept
  files := h.files
  busy := by
    rintro ⟨id, hid⟩
    refine h.busy ⟨id, fun hhome => hid ?_⟩
    rcases hle id with heq | ⟨-, heq⟩
    · rwa [heq]
    · rw [heq]
      trivial
  frame := h.frame

/-- A change in the two directories of one document changes the phase of that document only. -/
theorem step (h : Bench base domain project disk phase disk') (hdomain : domain ≠ Layout.tmpName)
    {new : Phase} (hd : disk''.Distinct)
    (hlocal : ∀ q, ¬base ++ home domain project id <+: q → ¬base ++ aside domain project id <+: q →
      ¬q <+: base ++ waiting domain project → disk''.kindAt? q = disk'.kindAt? q)
    (hkept : ∀ q, q <+: base ++ waiting domain project → disk'.kindAt? q = some .dir →
      disk''.kindAt? q = some .dir)
    (hfiles : ∀ q, q <+: base ++ waiting domain project → disk''.content? q = disk'.content? q)
    (hbusy : ¬new.AtHome → disk''.kindAt? (base ++ waiting domain project) = some .dir)
    (hnew : new.Holds (base ++ home domain project id) (base ++ aside domain project id)
      disk disk'') :
    Bench base domain project disk (Function.update phase id new) disk'' where
  distinct := hd
  phases := by
    intro other
    by_cases heq : other = id
    · rw [heq, Function.update_self]
      exact hnew
    · rw [Function.update_of_ne heq]
      refine (h.phases other).congr (fun q => hlocal _ ?_ ?_ ?_) fun q => hlocal _ ?_ ?_ ?_
      all_goals
        simp [List.append_assoc, List.prefix_append_right_inj, List.cons_prefix_cons, Ne.symm heq,
          hdomain, hdomain.symm]
  kept := fun q hq hdir => hkept q hq (h.kept q hq hdir)
  files := fun q hq => (hfiles q hq).trans (h.files q hq)
  busy := by
    rintro ⟨other, hother⟩
    by_cases heq : other = id
    · rw [heq, Function.update_self] at hother
      exact hbusy hother
    · rw [Function.update_of_ne heq] at hother
      exact hkept _ (List.prefix_refl _) (h.busy ⟨other, hother⟩)
  frame := fun q hs ht hq => (hlocal q (hs id) (ht id) hq).trans (h.frame q hs ht hq)

/-- A change of the phase alone. -/
theorem rename (h : Bench base domain project disk phase disk') (hhome : (phase id).AtHome) :
    Bench base domain project disk (Function.update phase id .returned) disk' := by
  refine h.mono ?_
  intro other
  by_cases heq : other = id
  · rw [heq, Function.update_self]
    exact .inr ⟨hhome, rfl⟩
  · exact .inl (Function.update_of_ne heq _ _)

end Bench

/-! ## One document -/

/-- A document that can be moved aside; `content` is its newest copy. -/
structure Stageable (root : Path) (base : Place) (domain project id : String) (content : Bytes)
    (disk : Node) : Prop where
  names : ∀ n ∈ home domain project id ++ [Layout.newestName], IsName n
  text : checkText (Layout.newest root domain project id) = .ok ()
  newest : disk.kindAt? (base ++ home domain project id ++ [Layout.newestName])
    = some (.file content)
  movable : Files.Movable root base (home domain project id) (aside domain project id) disk

namespace Stageable

variable {content : Bytes}

theorem home_names (h : Stageable root base domain project id content disk) :
    ∀ n ∈ home domain project id, IsName n :=
  fun n hn => h.names n (List.mem_append_left _ hn)

theorem aside_names (h : Stageable root base domain project id content disk) :
    ∀ n ∈ aside domain project id, IsName n := by
  intro n hn
  rcases List.mem_cons.mp hn with rfl | hn
  · exact Layout.isName_tmpName
  · exact h.home_names n hn

theorem home_text (h : Stageable root base domain project id content disk) :
    checkText (root.descend (home domain project id)) = .ok () :=
  checkText_of_join Layout.isName_newestName.toIsPiece h.text

theorem home_dir (h : Stageable root base domain project id content disk) :
    disk.kindAt? (base ++ home domain project id) = some .dir :=
  kindAt?_eq_dir_of_append (List.cons_ne_nil _ []) (by rw [h.newest]; simp)

end Stageable

theorem not_aside_home (hdomain : domain ≠ Layout.tmpName) (q : Place) :
    ¬aside domain project id <+: home domain project id ++ q := by
  simp [List.cons_prefix_cons, hdomain.symm]

theorem not_home_aside (hdomain : domain ≠ Layout.tmpName) (q : Place) :
    ¬home domain project id <+: aside domain project id ++ q := by
  simp [List.cons_prefix_cons, hdomain]

theorem not_below_home (hdomain : domain ≠ Layout.tmpName) (q : Place) :
    ¬base ++ aside domain project id <+: base ++ home domain project id ++ q := by
  rw [List.append_assoc, List.prefix_append_right_inj]
  exact not_aside_home hdomain q

theorem not_below_aside (hdomain : domain ≠ Layout.tmpName) (q : Place) :
    ¬base ++ home domain project id <+: base ++ aside domain project id ++ q := by
  rw [List.append_assoc, List.prefix_append_right_inj]
  exact not_home_aside hdomain q

theorem not_home_waiting (hdomain : domain ≠ Layout.tmpName) :
    ¬base ++ home domain project id <+: base ++ waiting domain project := by
  simp [List.prefix_append_right_inj, List.cons_prefix_cons, hdomain]

theorem not_aside_waiting :
    ¬base ++ aside domain project id <+: base ++ waiting domain project := by
  simp [List.prefix_append_right_inj, List.cons_prefix_cons]

/-- What leads to the place for a document that is being deleted leads to the place for all of
them. -/
theorem above_waiting {q : Place} (h : q <+: base ++ aside domain project id)
    (hne : ¬base ++ aside domain project id <+: q) : q <+: base ++ waiting domain project := by
  have hsplit : base ++ aside domain project id = base ++ waiting domain project ++ [id] := by simp
  rw [hsplit] at h hne
  rcases List.prefix_concat_iff.mp h with rfl | h
  · exact absurd (List.prefix_refl _) hne
  · exact h

namespace Bench

variable {phase phase' : String → Phase} {content : Bytes}

/-- What surrounds the two directories of a document is not concerned by what happens in them. -/
theorem step_local (h : Bench base domain project disk phase disk')
    (hdomain : domain ≠ Layout.tmpName) {new : Phase} (hd : disk''.Distinct)
    (hlocal : ∀ q, ¬base ++ home domain project id <+: q → ¬base ++ aside domain project id <+: q →
      disk''.kindAt? q = disk'.kindAt? q)
    (hbusy : ¬new.AtHome → disk'.kindAt? (base ++ waiting domain project) = some .dir)
    (hnew : new.Holds (base ++ home domain project id) (base ++ aside domain project id)
      disk disk'') :
    Bench base domain project disk (Function.update phase id new) disk'' := by
  have hwaiting : ∀ q, q <+: base ++ waiting domain project →
      disk''.kindAt? q = disk'.kindAt? q := fun q hq =>
    hlocal q (fun hle => not_home_waiting hdomain (hle.trans hq))
      fun hle => not_aside_waiting (hle.trans hq)
  refine h.step hdomain hd (fun q hs ht _ => hlocal q hs ht) (fun q hq hdir => ?_)
    (fun q hq => content?_congr (hwaiting q hq)) (fun hnot => ?_) hnew
  · rw [hwaiting q hq, hdir]
  · rw [hwaiting _ (List.prefix_refl _), hbusy hnot]

/-- A staged document is moved back. -/
theorem unstage (h : Bench base domain project disk phase disk') (hg : Grounded root base disk)
    (hnamed : WellNamedIn base domain project disk) (hdomain : domain ≠ Layout.tmpName)
    (hphase : phase id = .staged)
    (hstage : Stageable root base domain project id content disk)
    (hclear : ∀ n, disk.kindAt? (base ++ aside domain project id ++ [n]) = none) :
    Bench base domain project disk (Function.update phase id .returned)
      (unstage root domain project id disk') := by
  have hg' := h.grounded hg
  obtain ⟨hs, hsnone, ht, htsome⟩ := hphase ▸ h.phases id
  have hchild : ∀ n, disk'.kindAt? (base ++ aside domain project id ++ [n]) ≠ none →
      disk.kindAt? (base ++ home domain project id ++ [n]) ≠ none := by
    intro n hn
    rwa [htsome] at hn
  rcases Files.moveDir_outcome hg' hstage.aside_names hstage.home_names (List.cons_ne_nil _ _)
      hstage.movable.text ht (not_aside_home hdomain []) (not_home_aside hdomain [])
      (fun n hn => hnamed _ n (hchild n hn)) (fun n => hsnone n []) with
    ⟨-, disk₁, hmove, hmoved⟩ | ⟨hnot, -⟩
  · -- the document is back, and what remains of its directory is removed
    have htdir : disk₁.kindAt? (base ++ aside domain project id) = some .dir :=
      hmoved.dir (fun _ => rfl)
        (by simpa only [List.append_nil] using not_below_aside hdomain []) ht
    have hempty : ∀ n q, disk₁.kindAt? (base ++ aside domain project id ++ n :: q) = none :=
      hmoved.source
    rcases Files.clean_descend (hmoved.grounded hg') hstage.aside_names (List.cons_ne_nil _ _)
        hstage.movable.text htdir (fun n hn => absurd (hempty n []) hn) with
      ⟨-, disk₂, hclean, hremoved⟩ | ⟨hnot, -⟩
    · have hlocal : ∀ q, ¬base ++ home domain project id <+: q →
          ¬base ++ aside domain project id <+: q → disk₂.kindAt? q = disk'.kindAt? q := by
        intro q hqs hqt
        rw [hremoved.frame q hqt]
        by_cases hq : q <+: base ++ home domain project id
        · rw [kindAt?_eq_dir_above hq hmoved.targetDir, kindAt?_eq_dir_above hq hs]
        · exact hmoved.frame q (fun hle => absurd hle hqt) hqs hq
      have hresult : Deletion.unstage root domain project id disk' = disk₂ := by
        rw [Deletion.unstage]
        simp only [documentDir_eq, tmpDocumentDir_eq, hmove, DiskAction.attempt, hclean]
      rw [hresult]
      refine h.step_local hdomain hremoved.distinct hlocal (fun hnot => absurd trivial hnot)
        ⟨fun q => ?_, ?_, fun n q => ?_⟩
      · rw [hremoved.frame _ (not_below_home hdomain q)]
        cases q with
        | nil => rw [List.append_nil, hmoved.targetDir, hstage.home_dir]
        | cons n q => rw [hmoved.target, htsome]
      · have hnone := hremoved.absent []
        rw [List.append_nil] at hnone
        refine Option.ext ?_
        intro c
        rw [content?_eq_some_iff, content?_eq_some_iff, hnone]
        exact iff_of_false (by simp) (hstage.movable.unblocked _ c (List.prefix_refl _))
      · rw [hremoved.absent, kindAt?_cons_eq_none (hclear n)]
    · exact absurd (fun n hn => absurd (hempty n []) hn) hnot
  · refine absurd ⟨hstage.home_text, unblocked_of_dir hs, fun n hn => ?_⟩ hnot
    exact (hstage.movable.carriable n (hchild n hn)).symm

/-- A document that is where it was can be moved aside if it could before. -/
theorem movable_iff (h : Bench base domain project disk phase disk') (hhome : (phase id).AtHome) :
    Files.Movable root base (home domain project id) (aside domain project id) disk' ↔
      Files.Movable root base (home domain project id) (aside domain project id) disk := by
  obtain ⟨hs, hfile, -⟩ := (h.phases id).returned hhome
  have hcontent : ∀ p, p <+: aside domain project id →
      disk'.content? (base ++ p) = disk.content? (base ++ p) := by
    intro p hp
    have hp' := (List.prefix_append_right_inj base).mpr hp
    by_cases heq : base ++ aside domain project id <+: base ++ p
    · rw [hp'.eq_of_length_le heq.length_le]
      exact hfile
    · exact h.files _ (above_waiting hp' heq)
  have hblock : Unblocked base (aside domain project id) disk'
      ↔ Unblocked base (aside domain project id) disk := by
    refine forall_congr' fun p => forall_congr' fun c => imp_congr_right fun hp => ?_
    rw [Ne, Ne, ← content?_eq_some_iff, ← content?_eq_some_iff, hcontent p hp]
  have hchild : ∀ n, disk'.kindAt? (base ++ home domain project id ++ [n])
      = disk.kindAt? (base ++ home domain project id ++ [n]) := fun n => hs [n]
  constructor
  · rintro ⟨htext, hunblocked, hcarry⟩
    exact ⟨htext, hblock.mp hunblocked, fun n hn => hcarry n (by rwa [hchild])⟩
  · rintro ⟨htext, hunblocked, hcarry⟩
    exact ⟨htext, hblock.mpr hunblocked, fun n hn => hcarry n (by rwa [← hchild])⟩

/-- What a move that stopped leaves behind changes the phase of no other document. -/
theorem of_grown (h : Bench base domain project disk phase disk')
    (hdomain : domain ≠ Layout.tmpName) (hhome : (phase id).AtHome)
    (hgrown : Grown (base ++ aside domain project id) disk' disk'') :
    Bench base domain project disk (Function.update phase id .returned) disk'' := by
  obtain ⟨hs, hfile, ht⟩ := (h.phases id).returned hhome
  refine h.step hdomain hgrown.distinct (fun q _ hqt hq => ?_) (fun q _ => hgrown.dir)
    (fun q _ => hgrown.content? q) (fun hnot => absurd trivial hnot)
    ⟨fun q => ?_, ?_, fun n q => ?_⟩
  · exact hgrown.eq_of_not_above fun hle => hq (above_waiting hle hqt)
  · rw [hgrown.eq_of_not_above, hs]
    intro hle
    have := (List.prefix_append _ q).trans hle
    exact not_below_aside hdomain [] (by rwa [List.append_nil])
  · rw [hgrown.content?, hfile]
  · rw [hgrown.eq_of_not_above (not_below_above _ n q), ht]

/-- A document has been moved aside. -/
theorem of_moved (h : Bench base domain project disk phase disk')
    (hdomain : domain ≠ Layout.tmpName) (hhome : (phase id).AtHome)
    (hstage : Stageable root base domain project id content disk)
    (hmoved : Files.Moved (base ++ home domain project id) (base ++ aside domain project id)
      disk' disk'') :
    Bench base domain project disk (Function.update phase id .staged) disk'' := by
  obtain ⟨hs, hfile, ht⟩ := (h.phases id).returned hhome
  have hmovable := (h.movable_iff hhome).mpr hstage.movable
  have hdir : ∀ q, q <+: base ++ waiting domain project → disk''.kindAt? q = some .dir :=
    fun q hq => kindAt?_eq_dir_above (hq.trans ⟨[id], by simp⟩) hmoved.targetDir
  have hsdir : disk'.kindAt? (base ++ home domain project id) = some .dir := by
    have := hs []
    rwa [List.append_nil, hstage.home_dir] at this
  refine h.step hdomain hmoved.distinct (fun q hqs hqt hq => ?_) (fun q hq _ => hdir q hq)
    (fun q hq => ?_) (fun _ => hdir _ (List.prefix_refl _))
    ⟨?_, hmoved.source, hmoved.targetDir, fun n q => ?_⟩
  · exact hmoved.frame q (fun hle => absurd hle hqs) hqt fun hle => hq (above_waiting hle hqt)
  · have hfree : ∀ c, disk'.kindAt? q ≠ some (.file c) := by
      intro c hc
      by_cases hbase : q <+: base
      · have := kindAt?_eq_dir_above (hbase.trans (List.prefix_append base _)) hsdir
        rw [hc] at this
        cases this
      · obtain ⟨p, rfl⟩ : ∃ p, q = base ++ p := by
          rcases List.prefix_or_prefix_of_prefix hq (List.prefix_append base _) with hle | ⟨p, hp⟩
          · exact absurd hle hbase
          · exact ⟨p, hp.symm⟩
        refine hmovable.unblocked p c ?_ hc
        exact ((List.prefix_append_right_inj base).mp hq).trans ⟨[id], rfl⟩
    refine Option.ext ?_
    intro c
    rw [content?_eq_some_iff, content?_eq_some_iff, hdir q hq]
    exact iff_of_false (by simp) (hfree c)
  · refine hmoved.dir (fun _ => rfl) ?_ hsdir
    simpa only [List.append_nil] using not_below_home hdomain []
  · rw [hmoved.target, hs]

/-- A staged document is deleted. -/
theorem commit (h : Bench base domain project disk phase disk') (hg : Grounded root base disk)
    (hnamed : WellNamedIn base domain project disk) (hdomain : domain ≠ Layout.tmpName)
    (hphase : phase id = .staged)
    (hstage : Stageable root base domain project id content disk) :
    Bench base domain project disk (Function.update phase id .removed)
      (commit root domain project id disk') := by
  have hg' := h.grounded hg
  obtain ⟨hs, hsnone, ht, htsome⟩ := hphase ▸ h.phases id
  have hchild : ∀ n, disk'.kindAt? (base ++ aside domain project id ++ [n])
      = disk.kindAt? (base ++ home domain project id ++ [n]) := fun n => htsome n []
  have hcleanable : Files.Cleanable (root.descend (aside domain project id))
      (base ++ aside domain project id) disk' ↔
      ¬∃ n, disk.kindAt? (base ++ home domain project id ++ [n]) = some .dir := by
    constructor
    · rintro hclean ⟨n, hn⟩
      exact (hclean n (by rw [hchild, hn]; simp)).1 (by rw [hchild, hn])
    · intro hflat n hn
      rw [hchild] at hn ⊢
      exact ⟨fun hdir => hflat ⟨n, hdir⟩, (hstage.movable.carriable n hn).target⟩
  -- the files that were moved aside are removed, unless there are directories among them
  obtain ⟨disk₁, hfirst⟩ : ∃ disk₁,
      (Files.clean (root.descend (aside domain project id))).attempt disk' = disk₁ := ⟨_, rfl⟩
  obtain ⟨hdistinct₁, hframe₁, hflat, hsub⟩ := attempt_clean hg' hstage.aside_names
    (List.cons_ne_nil _ _) hstage.movable.text ht (fun n hn => hnamed _ n (by rwa [hchild] at hn))
    hfirst
  rw [hcleanable] at hflat hsub
  have hhome₁ : ∀ q, disk₁.kindAt? (base ++ home domain project id ++ q)
      = disk'.kindAt? (base ++ home domain project id ++ q) := fun q =>
    hframe₁ _ (not_below_home hdomain q)
  have hs₁ : disk₁.kindAt? (base ++ home domain project id) = some .dir := by
    have := hhome₁ []
    rwa [List.append_nil, hs] at this
  have hg₁ : Grounded root base disk₁ := by
    refine hg'.mono hdistinct₁ ?_
    intro q hq hbase
    rw [hframe₁, hq]
    intro hbelow
    exact not_below_above base _ _ (hbase ((List.prefix_append base _).trans hbelow) ▸ hbelow)
  -- the directory that was left empty is removed
  have hempty : ∀ n, disk₁.kindAt? (base ++ home domain project id ++ [n]) = none := by
    intro n
    rw [hhome₁, hsnone]
  rcases Files.clean_descend hg₁ hstage.home_names (List.cons_ne_nil _ _) hstage.home_text hs₁
      (fun n hn => absurd (hempty n) hn) with
    ⟨-, disk₂, hclean, hremoved⟩ | ⟨hno, -⟩
  · have hresult : Deletion.commit root domain project id disk' = disk₂ := by
      rw [Deletion.commit, tmpDocumentDir_eq, hfirst, DiskAction.attempt, documentDir_eq, hclean]
    have hlocal : ∀ q, ¬base ++ home domain project id <+: q →
        ¬base ++ aside domain project id <+: q → disk₂.kindAt? q = disk'.kindAt? q :=
      fun q hqs hqt => (hremoved.frame q hqs).trans (hframe₁ q hqt)
    have haside : ∀ q, disk₂.kindAt? (base ++ aside domain project id ++ q)
        = disk₁.kindAt? (base ++ aside domain project id ++ q) := fun q =>
      hremoved.frame _ (not_below_aside hdomain q)
    rw [hresult]
    refine h.step_local hdomain hremoved.distinct hlocal
      (fun _ => kindAt?_eq_dir_above ⟨[id], by simp⟩ ht)
      ⟨hremoved.absent, fun hyes q => ?_, fun hno q => ?_⟩
    · rw [haside, hsub (not_not.mpr hyes)]
      cases q with
      | nil => rw [List.append_nil, List.append_nil, ht, hstage.home_dir]
      | cons n q => exact htsome n q
    · rw [haside, (hflat hno).absent]
  · exact absurd (fun n hn => absurd (hempty n) hn) hno

/-! ## Comparing trees -/

/-- If every document is where it was, no file has changed. -/
theorem content?_eq (h : Bench base domain project disk phase disk')
    (hhome : ∀ id, (phase id).AtHome) (q : Place) : disk'.content? q = disk.content? q := by
  by_cases hs : ∃ id, base ++ home domain project id <+: q
  · obtain ⟨id, rest, rfl⟩ := hs
    exact content?_congr (((h.phases id).returned (hhome id)).1 rest)
  by_cases ht : ∃ id, base ++ aside domain project id <+: q
  · obtain ⟨id, rest, rfl⟩ := ht
    obtain ⟨-, hfile, hbelow⟩ := (h.phases id).returned (hhome id)
    cases rest with
    | nil => simpa only [List.append_nil] using hfile
    | cons n rest => exact content?_congr (hbelow n rest)
  by_cases hq : q <+: base ++ waiting domain project
  · exact h.files q hq
  · exact content?_congr (h.frame q (not_exists.mp hs) (not_exists.mp ht) hq)

/-- No file outside the directories of documents that were worked on has changed. -/
theorem content?_eq_of_not_below (h : Bench base domain project disk phase disk') {q : Place}
    (hs : ∀ id, phase id ≠ .resting → ¬base ++ home domain project id <+: q)
    (ht : ∀ id, phase id ≠ .resting → ¬base ++ aside domain project id <+: q) :
    disk'.content? q = disk.content? q := by
  by_cases hs' : ∃ id, base ++ home domain project id <+: q
  · obtain ⟨id, hbelow⟩ := hs'
    have hrest := not_not.mp fun hne => hs id hne hbelow
    obtain ⟨rest, rfl⟩ := hbelow
    exact content?_congr ((hrest ▸ h.phases id).1 rest)
  by_cases ht' : ∃ id, base ++ aside domain project id <+: q
  · obtain ⟨id, hbelow⟩ := ht'
    have hrest := not_not.mp fun hne => ht id hne hbelow
    obtain ⟨rest, rfl⟩ := hbelow
    exact content?_congr ((hrest ▸ h.phases id).2 rest)
  by_cases hq : q <+: base ++ waiting domain project
  · exact h.files q hq
  · exact content?_congr (h.frame q (not_exists.mp hs') (not_exists.mp ht') hq)

/-- Two trees look the same if the same documents have been deleted, at least one of them. -/
theorem same {disk₁ disk₂ : Node} (h₁ : Bench base domain project disk phase disk₁)
    (h₂ : Bench base domain project disk phase' disk₂) (hphase : ∀ id, phase id = phase' id)
    (hdone : ∀ id, phase id = .resting ∨ phase id = .removed) (hsome : ∃ id, phase id = .removed) :
    Same disk₁ disk₂ := by
  obtain ⟨gone, hgone⟩ := hsome
  have hbusy₁ := h₁.busy ⟨gone, by rw [hgone]; exact fun h => h⟩
  have hbusy₂ := h₂.busy ⟨gone, by rw [← hphase, hgone]; exact fun h => h⟩
  intro q
  by_cases hs : ∃ id, base ++ home domain project id <+: q
  · obtain ⟨id, rest, rfl⟩ := hs
    have hid₁ := h₁.phases id
    have hid₂ := h₂.phases id
    rw [← hphase] at hid₂
    rcases hdone id with hrest | hremoved
    · rw [hrest] at hid₁ hid₂
      exact (hid₁.1 rest).trans (hid₂.1 rest).symm
    · rw [hremoved] at hid₁ hid₂
      exact (hid₁.1 rest).trans (hid₂.1 rest).symm
  by_cases ht : ∃ id, base ++ aside domain project id <+: q
  · obtain ⟨id, rest, rfl⟩ := ht
    have hid₁ := h₁.phases id
    have hid₂ := h₂.phases id
    rw [← hphase] at hid₂
    rcases hdone id with hrest | hremoved
    · rw [hrest] at hid₁ hid₂
      exact (hid₁.2 rest).trans (hid₂.2 rest).symm
    · rw [hremoved] at hid₁ hid₂
      by_cases hsub : ∃ n, disk.kindAt? (base ++ home domain project id ++ [n]) = some .dir
      · exact (hid₁.2.1 hsub rest).trans (hid₂.2.1 hsub rest).symm
      · exact (hid₁.2.2 hsub rest).trans (hid₂.2.2 hsub rest).symm
  by_cases hq : q <+: base ++ waiting domain project
  · rw [kindAt?_eq_dir_above hq hbusy₁, kindAt?_eq_dir_above hq hbusy₂]
  · rw [h₁.frame q (not_exists.mp hs) (not_exists.mp ht) hq,
      h₂.frame q (not_exists.mp hs) (not_exists.mp ht) hq]

end Bench

end ConfigStore.Deletion
