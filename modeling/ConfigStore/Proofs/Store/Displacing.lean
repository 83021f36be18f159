import ConfigStore.Proofs.Files.Keeping
import ConfigStore.Proofs.Files.Site
import ConfigStore.Proofs.Store.Atomicity

/-!
# Conditions that a deletion keeps

A document is deleted by four actions on two directories: its directory is moved aside, or back, and
each of the two is cleaned. A condition on the tree that these four keep is kept by a deletion,
wherever it stops.

* `Deletion.Upheld` says that a condition is kept by the four actions; `Deletion.Upheld.stage` and
  `Deletion.Upheld.commit` go on to the steps of a deletion.
* `Deletion.Stages` says so of a document if the four actions need not keep the condition until the
  document has been moved aside.
* `Deletion.keeps_deleteOne` and `Deletion.keeps_deleteMany` are the two kinds of deletions.
-/

namespace ConfigStore.Deletion

open Node Disk Files

variable {P : Node → Prop} {s : Store} {root : Path} {domain project id : String}
  {ids : List String} {disk : Node}

theorem route_aside (hdomain : domain ≠ Layout.tmpName)
    (hpieces : ∀ n ∈ home domain project id, IsPiece n) :
    Route (home domain project id) (aside domain project id) where
  pieces := hpieces
  names := isName_aside
  source := List.cons_ne_nil _ _
  target := List.cons_ne_nil _ _
  apart := not_home_le_aside hdomain
  apart' := not_aside_le_home hdomain

theorem route_home (hdomain : domain ≠ Layout.tmpName)
    (hpieces : ∀ n ∈ home domain project id, IsPiece n) :
    Route (aside domain project id) (home domain project id) where
  pieces := isPiece_aside hpieces
  names hnames m hm := hnames m (List.mem_cons_of_mem _ hm)
  source := List.cons_ne_nil _ _
  target := List.cons_ne_nil _ _
  apart := not_aside_le_home hdomain
  apart' := not_home_le_aside hdomain

/-- The moves and the cleaning that delete a document keep a condition. -/
structure Upheld (P : Node → Prop) (root : Path) (domain project id : String) : Prop where
  moveAside : Keeps P (moveDir (root.descend (home domain project id))
    (root.descend (aside domain project id)))
  moveHome : Keeps P (moveDir (root.descend (aside domain project id))
    (root.descend (home domain project id)))
  cleanAside : Keeps P (clean (root.descend (aside domain project id)))
  cleanHome : Keeps P (clean (root.descend (home domain project id)))

theorem looks_readStaged (s : Store) (caller : Caller) (domain project id : String) :
    Looks (readStaged s caller domain project id) := by
  refine (looks_look _ _).bind fun content => ?_
  cases Document.decode content with
  | error fault => exact .throw _
  | ok d => exact (Looks.require _).bind fun _ => .pure _

namespace Upheld

theorem unstage (h : Upheld P root domain project id) (hP : P disk) :
    P (Deletion.unstage root domain project id disk) := by
  obtain ⟨disk', ⟨_, hok⟩ | ⟨_, herror⟩, hdisk'⟩ := h.moveHome.outcome disk hP
  · simp only [Deletion.unstage, documentDir_eq, tmpDocumentDir_eq, hok]
    exact h.cleanAside.attempt hdisk'
  · simp only [Deletion.unstage, documentDir_eq, tmpDocumentDir_eq, herror]
    exact hdisk'

theorem commit (h : Upheld P root domain project id) (hP : P disk) :
    P (Deletion.commit root domain project id disk) :=
  h.cleanHome.attempt (h.cleanAside.attempt hP)

theorem stage (h : Upheld P s.root domain project id) (caller : Caller) :
    Keeps P (Deletion.stage s caller domain project id) := by
  refine ⟨fun disk hP => ?_⟩
  cases hread : readFile disk (Layout.newest s.root domain project id) with
  | error refusal =>
    obtain ⟨failure, herror⟩ := stage_unread caller hread
    exact .of_error failure herror hP
  | ok content =>
    obtain ⟨mid, ⟨_, hok⟩ | ⟨failure, herror⟩, hmid⟩ := h.moveAside.outcome disk hP
    · rcases (looks_readStaged s caller domain project id).outcome mid with
        ⟨d, hstaged⟩ | ⟨failure, hfailed⟩
      · exact .of_ok d (by rw [stage_eq caller hread, hok]; simp only [hstaged]) hmid
      · exact .of_error failure (by rw [stage_eq caller hread, hok]; simp only [hfailed])
          (h.unstage hmid)
    · exact .of_error failure (by rw [stage_eq caller hread, herror]) hmid

end Upheld

/-- Moving a document aside keeps a condition, and once it has been moved aside its deletion does
so too. -/
structure Stages (P : Node → Prop) (s : Store) (caller : Caller) (domain project id : String) :
    Prop where
  keeps : Keeps P (stage s caller domain project id)
  upheld : ∀ disk d disk', P disk → stage s caller domain project id disk = .ok d disk' →
    Upheld P s.root domain project id

theorem Upheld.stages (h : Upheld P s.root domain project id) (caller : Caller) :
    Stages P s caller domain project id :=
  ⟨h.stage caller, fun _ _ _ _ _ => h⟩

/-! ## One document -/

theorem keeps_deleteOne {caller : Caller}
    (hstages : Names.checkScope domain project = .ok () → Names.checkId id = .ok () →
      Stages P s caller domain project id) :
    Keeps (fun state : StoreState => P state.disk) (s.deleteOne caller domain project id) := by
  refine ⟨fun state hP => ?_⟩
  by_cases hvalid : Names.checkScope domain project = .ok () ∧ Names.checkId id = .ok ()
  · obtain ⟨hscope, hid⟩ := hvalid
    have hstage := hstages hscope hid
    obtain ⟨disk, ⟨d, hok⟩ | ⟨failure, herror⟩, hdisk⟩ := hstage.keeps.outcome state.disk hP
    · have hend : s.deleteOne caller domain project id state
          = .ok d ⟨commit s.root domain project id disk, state.cache.map (·.evict [d])⟩ := by
        rw [Store.deleteOne_eq caller hscope hid, hok]
      exact .of_ok d hend ((hstage.upheld _ _ _ hP hok).commit hdisk)
    · have hend : s.deleteOne caller domain project id state
          = .error failure { state with disk } := by
        rw [Store.deleteOne_eq caller hscope hid, herror]
      exact .of_error failure hend hdisk
  · obtain ⟨failure, herror⟩ : ∃ failure, s.deleteOne caller domain project id state
        = .error failure state := Store.deleteOne_invalid caller hvalid
    exact .of_error failure herror hP

/-! ## Several documents -/

theorem unstageEach_keeps (hids : ∀ id ∈ ids, Upheld P root domain project id) (hP : P disk) :
    P (ids.foldl (fun disk id => unstage root domain project id disk) disk) := by
  induction ids generalizing disk with
  | nil => exact hP
  | cons id ids ih =>
    obtain ⟨hid, hids⟩ := List.forall_mem_cons.mp hids
    exact ih hids (hid.unstage hP)

theorem commitEach_keeps (hids : ∀ id ∈ ids, Upheld P root domain project id) (hP : P disk) :
    P (commitEach root domain project ids disk) := by
  induction ids generalizing disk with
  | nil => exact hP
  | cons id ids ih =>
    obtain ⟨hid, hids⟩ := List.forall_mem_cons.mp hids
    exact ih hids (hid.commit hP)

/-- Documents are moved aside one after the other; once all of them have been, their deletion keeps
the condition. -/
theorem keeps_stageEach {caller : Caller} {staged : List String}
    (hstaged : ∀ id ∈ staged, Upheld P s.root domain project id)
    (hstages : ∀ id ∈ ids, Stages P s caller domain project id) (hP : P disk) :
    (∃ docs disk', stageEach s caller domain project staged ids disk = .ok docs disk' ∧
        P disk' ∧ ∀ id ∈ ids, Upheld P s.root domain project id) ∨
      ∃ failure disk', stageEach s caller domain project staged ids disk = .error failure disk' ∧
        P disk' := by
  induction ids generalizing staged disk with
  | nil => exact .inl ⟨[], disk, rfl, hP, fun _ hid => absurd hid List.not_mem_nil⟩
  | cons id ids ih =>
    obtain ⟨hstage, hstages⟩ := List.forall_mem_cons.mp hstages
    rw [stageEach_cons]
    obtain ⟨disk', ⟨d, hok⟩ | ⟨failure, herror⟩, hdisk'⟩ := hstage.keeps.outcome disk hP
    · have hupheld := hstage.upheld _ _ _ hP hok
      have hstaged' : ∀ n ∈ staged ++ [id], Upheld P s.root domain project n := by
        intro n hn
        rcases List.mem_append.mp hn with hn | hn
        · exact hstaged n hn
        · exact List.mem_singleton.mp hn ▸ hupheld
      rw [hok]
      rcases ih hstaged' hstages hdisk' with
        ⟨docs, disk'', hrest, hdisk'', hall⟩ | ⟨failure, disk'', hrest, hdisk''⟩
      · exact .inl ⟨d :: docs, disk'', by simp only [hrest], hdisk'',
          List.forall_mem_cons.mpr ⟨hupheld, hall⟩⟩
      · exact .inr ⟨failure, disk'', by simp only [hrest], hdisk''⟩
    · rw [herror]
      exact .inr ⟨failure, _, rfl, unstageEach_keeps hstaged hdisk'⟩

theorem keeps_deleteMany {caller : Caller}
    (hstages : ∀ id, Names.checkScope domain project = .ok () → Names.checkId id = .ok () →
      Stages P s caller domain project id) :
    Keeps (fun state : StoreState => P state.disk) (s.deleteMany caller domain project ids) := by
  refine ⟨fun state hP => ?_⟩
  by_cases hvalid : Names.checkScope domain project = .ok () ∧
      (∀ id ∈ ids, Names.checkId id = .ok ()) ∧ ids ≠ []
  · obtain ⟨hscope, hids, hne⟩ := hvalid
    have hnone : ∀ id ∈ ([] : List String), Upheld P s.root domain project id :=
      fun _ hid => absurd hid List.not_mem_nil
    rcases keeps_stageEach hnone
        (fun id hid => hstages id hscope (hids id (List.mem_eraseDups.mp hid))) hP with
      ⟨docs, disk, hok, hdisk, hupheld⟩ | ⟨failure, disk, herror, hdisk⟩
    · have hend : s.deleteMany caller domain project ids state
          = .ok docs ⟨commitEach s.root domain project ids.eraseDups disk,
            state.cache.map (·.evict docs)⟩ := by
        rw [Store.deleteMany_eq caller hscope hids hne, hok]
      exact .of_ok docs hend (commitEach_keeps hupheld hdisk)
    · have hend : s.deleteMany caller domain project ids state
          = .error failure { state with disk } := by
        rw [Store.deleteMany_eq caller hscope hids hne, herror]
      exact .of_error failure hend hdisk
  · obtain ⟨failure, herror⟩ : ∃ failure, s.deleteMany caller domain project ids state
        = .error failure state := Store.deleteMany_invalid caller hvalid
    exact .of_error failure herror hP

end ConfigStore.Deletion
