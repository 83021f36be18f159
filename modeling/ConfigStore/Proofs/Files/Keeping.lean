import ConfigStore.Files.Undo
import ConfigStore.Proofs.Files.Looking

/-!
# Actions that keep a condition

A condition that every single change of the disk keeps is kept by every action, however it ends: the
steps of an action keep it, and so does the undo log, as long as restoring any of its records keeps
it.

* `EndsIn` says that an action leads to a state that meets a condition, and `Keeps` that it does so
  from every state that meets it; `Keeps.bind` and its like follow the shape of an action.
* `Ledger.Safe` is the condition for actions that keep an undo log; `Keeps.allOrNothing` and
  `Keeps.forgetful` go back to the disk.
-/

namespace ConfigStore

/-- An action ends in a state that meets a condition, with a result or with a failure. -/
def EndsIn {σ α : Type} (P : σ → Prop) (action : EStateM Failure σ α) (state : σ) : Prop :=
  ∃ state', Ends action state state' ∧ P state'

/-- An action after which a condition is met if it was met before. -/
structure Keeps {σ α : Type} (P : σ → Prop) (action : EStateM Failure σ α) : Prop where
  outcome : ∀ state, P state → EndsIn P action state

section Shape

variable {σ α β : Type} {P : σ → Prop} {action : EStateM Failure σ α} {state : σ}

theorem EndsIn.of_ok (a : α) {state' : σ} (h : action state = .ok a state') (hP : P state') :
    EndsIn P action state := ⟨state', .inl ⟨a, h⟩, hP⟩

theorem EndsIn.of_error (failure : Failure) {state' : σ}
    (h : action state = .error failure state') (hP : P state') : EndsIn P action state :=
  ⟨state', .inr ⟨failure, h⟩, hP⟩

/-- What is known of the result of an action may be used for what follows it. -/
theorem EndsIn.bind {next : α → EStateM Failure σ β} (h : EndsIn P action state)
    (hnext : ∀ a mid, action state = .ok a mid → P mid → EndsIn P (next a) mid) :
    EndsIn P (action >>= next) state := by
  obtain ⟨mid, ⟨a, hok⟩ | ⟨failure, herror⟩, hP⟩ := h
  · obtain ⟨state', ⟨b, hok'⟩ | ⟨failure, herror⟩, hP'⟩ := hnext a mid hok hP
    · exact of_ok b (by simp only [Bind.bind, EStateM.bind, hok, hok']) hP'
    · exact of_error failure (by simp only [Bind.bind, EStateM.bind, hok, herror]) hP'
  · exact of_error failure (by simp only [Bind.bind, EStateM.bind, herror]) hP

/-- What only looks at the start of an action does not change what the action starts from. -/
theorem EndsIn.after_looks {next : α → EStateM Failure σ β} (h : Looks action) (hP : P state)
    (hnext : ∀ a, action state = .ok a state → EndsIn P (next a) state) :
    EndsIn P (action >>= next) state := by
  rcases h.outcome state with ⟨a, hok⟩ | ⟨failure, herror⟩
  · refine EndsIn.bind (.of_ok a hok hP) ?_
    intro b mid hok' _
    rw [hok] at hok'
    cases hok'
    exact hnext a hok
  · exact of_error failure (by simp only [Bind.bind, EStateM.bind, herror]) hP

theorem EndsIn.map (h : EndsIn P action state) (f : α → β) : EndsIn P (f <$> action) state := by
  obtain ⟨state', ⟨a, hok⟩ | ⟨failure, herror⟩, hP'⟩ := h
  · exact .of_ok (f a) (by simp only [Functor.map, EStateM.map, hok]) hP'
  · exact .of_error failure (by simp only [Functor.map, EStateM.map, herror]) hP'

namespace Keeps

theorem of_looks (h : Looks action) : Keeps P action :=
  ⟨fun state hP => ⟨state, h.outcome state, hP⟩⟩

theorem bind {next : α → EStateM Failure σ β} (h : Keeps P action)
    (hnext : ∀ a, Keeps P (next a)) : Keeps P (action >>= next) :=
  ⟨fun state hP => (h.outcome state hP).bind fun a mid _ => (hnext a).outcome mid⟩

theorem map (h : Keeps P action) (f : α → β) : Keeps P (f <$> action) :=
  ⟨fun state hP => (h.outcome state hP).map f⟩

/-- Whatever is left of an action of which nobody asks whether it succeeded. -/
theorem attempt {P : Node → Prop} {action : DiskAction α} (h : Keeps P action) {disk : Node}
    (hP : P disk) : P (action.attempt disk) := by
  obtain ⟨disk', ⟨a, hok⟩ | ⟨failure, herror⟩, hP'⟩ := h.outcome disk hP
  · simpa only [DiskAction.attempt, hok] using hP'
  · simpa only [DiskAction.attempt, herror] using hP'

end Keeps

end Shape

/-! ## Actions with an undo log -/

/-- Restoring a record keeps a condition. -/
def UndoRecord.Restorable (P : Node → Prop) (record : UndoRecord) : Prop :=
  ∀ disk, P disk → P (record.restore disk)

/-- The disk meets a condition, and goes on doing so if what was recorded is restored. -/
structure Ledger.Safe (P : Node → Prop) (ledger : Ledger) : Prop where
  disk : P ledger.disk
  undo : ∀ record ∈ ledger.undo, record.Restorable P

section Logged

variable {α : Type} {P : Node → Prop}

theorem UndoLog.replay_keeps {log : UndoLog} (hlog : ∀ record ∈ log, record.Restorable P)
    {disk : Node} (hP : P disk) : P (log.replay disk) := by
  induction log generalizing disk with
  | nil => exact hP
  | cons record log ih =>
    obtain ⟨hrecord, hlog⟩ := List.forall_mem_cons.mp hlog
    exact ih hlog (hrecord disk hP)

namespace Keeps

variable {action : DiskAction α} {logged : LoggedAction α}

/-- An action without a log keeps whatever is asked of the log. -/
theorem lift {Q : Ledger → Prop}
    (h : ∀ ledger, Q ledger → EndsIn (fun disk => Q { ledger with disk }) action ledger.disk) :
    Keeps Q (LoggedAction.lift action) := by
  refine ⟨fun ledger hQ => ?_⟩
  obtain ⟨disk, ⟨a, hok⟩ | ⟨failure, herror⟩, hQ'⟩ := h ledger hQ
  · exact .of_ok a (by simp only [LoggedAction.lift, hok]) hQ'
  · exact .of_error failure (by simp only [LoggedAction.lift, herror]) hQ'

theorem lift_disk (h : Keeps P action) :
    Keeps (fun ledger => P ledger.disk) (LoggedAction.lift action) :=
  lift fun ledger => h.outcome ledger.disk

theorem lift_safe (h : Keeps P action) : Keeps (Ledger.Safe P) (LoggedAction.lift action) := by
  refine lift fun ledger hsafe => ?_
  obtain ⟨disk, hends, hP⟩ := h.outcome ledger.disk hsafe.disk
  exact ⟨disk, hends, hP, hsafe.undo⟩

theorem forgetful (h : Keeps (fun ledger => P ledger.disk) logged) : Keeps P logged.forgetful := by
  refine ⟨fun disk hP => ?_⟩
  obtain ⟨ledger, ⟨a, hok⟩ | ⟨failure, herror⟩, hP'⟩ := h.outcome { disk } hP
  · exact .of_ok a (by simp only [LoggedAction.forgetful, hok]) hP'
  · exact .of_error failure (by simp only [LoggedAction.forgetful, herror]) hP'

/-- If an action with a log fails, what it has recorded is restored. -/
theorem allOrNothing (h : Keeps (Ledger.Safe P) logged) : Keeps P logged.allOrNothing := by
  refine ⟨fun disk hP => ?_⟩
  have hsafe : Ledger.Safe P { disk } := ⟨hP, fun _ hrecord => absurd hrecord List.not_mem_nil⟩
  obtain ⟨ledger, ⟨a, hok⟩ | ⟨failure, herror⟩, hend⟩ := h.outcome { disk } hsafe
  · exact .of_ok a (by simp only [LoggedAction.allOrNothing, hok]) hend.disk
  · exact .of_error failure (by simp only [LoggedAction.allOrNothing, herror])
      (UndoLog.replay_keeps hend.undo hend.disk)

end Keeps

end Logged

namespace Files

variable {P : Node → Prop} {path : Path} {content : Bytes}

/-- A file is written if its directories can be created; nobody restores what it held. -/
theorem write_keeps (hdirs : Keeps P (ensureDir path.parent))
    (hwrite : Keeps P (overwrite path content)) :
    Keeps (fun ledger => P ledger.disk) (write path content) := by
  refine hdirs.lift_disk.bind fun _ => ?_
  refine (Keeps.lift_disk (.of_looks (looks_look _ _))).bind fun prior => ?_
  refine Keeps.bind ⟨fun ledger hP => .of_ok () rfl hP⟩ fun _ => hwrite.lift_disk

/-- What a file held before it is written can be restored. -/
theorem write_safe (hdirs : Keeps P (ensureDir path.parent))
    (hwrite : Keeps P (overwrite path content))
    (hundo : ∀ disk, P disk → ∀ prior, read? path disk = .ok prior disk →
      (UndoRecord.mk path prior).Restorable P) :
    Keeps (Ledger.Safe P) (write path content) := by
  refine hdirs.lift_safe.bind fun _ => ⟨fun ledger hsafe => ?_⟩
  have hread : Keeps (Ledger.Safe P) (LoggedAction.lift (read? path)) :=
    Keeps.lift_safe (.of_looks (looks_look _ _))
  refine (hread.outcome ledger hsafe).bind fun prior mid hprior hmid => ?_
  have hrecorded : read? path mid.disk = .ok prior mid.disk := by
    simp only [LoggedAction.lift] at hprior
    cases hfound : read? path ledger.disk with
    | error failure disk => rw [hfound] at hprior; cases hprior
    | ok found disk =>
      rw [hfound] at hprior
      cases hprior
      obtain ⟨rfl, -⟩ := read?_eq_ok_iff.mp hfound
      exact hfound
  refine EndsIn.bind (.of_ok () rfl ⟨hmid.disk, fun record hrecord => ?_⟩)
    fun _ last _ => (hwrite.lift_safe).outcome last
  rcases List.mem_append.mp hrecord with hrecord | hrecord
  · exact hmid.undo record hrecord
  · exact List.mem_singleton.mp hrecord ▸ hundo mid.disk hmid.disk prior hrecorded

end Files

/-! ## Actions of a store -/

section Stored

variable {α : Type} {P : Node → Prop}

theorem Keeps.onDisk {action : DiskAction α} (h : Keeps P action) :
    Keeps (fun state => P state.disk) (StoreAction.onDisk action) := by
  refine ⟨fun state hP => ?_⟩
  obtain ⟨disk, ⟨a, hok⟩ | ⟨failure, herror⟩, hP'⟩ := h.outcome state.disk hP
  · have hend : StoreAction.onDisk action state = .ok a { state with disk } := by
      simp only [StoreAction.onDisk, hok]
    exact .of_ok a hend hP'
  · have hend : StoreAction.onDisk action state = .error failure { state with disk } := by
      simp only [StoreAction.onDisk, herror]
    exact .of_error failure hend hP'

theorem Keeps.onCache (f : Cache → Cache) :
    Keeps (fun state : StoreState => P state.disk) (StoreAction.onCache f) :=
  ⟨fun _ hP => .of_ok () rfl hP⟩

theorem Keeps.require {σ : Type} {Q : σ → Prop} (check : Except Failure α) :
    Keeps Q (ConfigStore.require check : EStateM Failure σ α) :=
  .of_looks (.require check)

end Stored

end ConfigStore
