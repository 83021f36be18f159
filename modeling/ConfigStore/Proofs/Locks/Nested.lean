import ConfigStore.Proofs.Locks.Moves

/-!
# Nested uses of a lock table

Locks are taken and given back in nested steps, and in between locks are forgotten. A run of such
steps has a result if no lock is taken while it is held, and then it does just what its moves do,
one after the other. So at every point of a run the table has the entries of the locks that were
taken and not forgotten since, among them all that are held.

* `LockStep.moves` are the moves of a step, and `LockReport.sizes` the sizes in a report.
* `LockStep.Avoids` says that no lock is taken while it is held.
* `LockTable.balanced_moves`: a step gives back what it takes.
* `LockTable.Follows` says that a step does what some moves do, with a lemma for each way in which
  steps are put together; `LockTable.run_follows` says that runs follow their moves.
* `LockTable.run_remembers` is the result.
-/

namespace ConfigStore

/-! ## Steps and reports -/

mutual

/-- The sizes in a report, in the order in which they were seen. -/
def LockReport.sizes : LockReport → List Nat
  | .inside reports last => LockReport.allSizes reports ++ [last]
  | .size last => [last]

/-- The sizes in several reports. -/
def LockReport.allSizes : List LockReport → List Nat
  | [] => []
  | report :: reports => report.sizes ++ LockReport.allSizes reports

end

/-- The moves of taking a lock, making other moves, and giving the lock back. -/
def LockMove.within (key : String) (inner : List LockMove) : List LockMove :=
  .acquire key :: (inner ++ [.release key])

namespace LockStep

mutual

/-- The moves of a step. The table is looked at when the step is done. -/
def moves : LockStep → List LockMove
  | .withLock key steps => LockMove.within key (allMoves steps) ++ [.look]
  | .withLocks keys steps =>
    (LockTable.distinct keys).foldr LockMove.within (allMoves steps) ++ [.look]
  | .forget key => [.forget key, .look]
  | .look => [.look]

/-- The moves of steps one after the other. -/
def allMoves : List LockStep → List LockMove
  | [] => []
  | step :: steps => step.moves ++ allMoves steps

end

mutual

/-- A step takes no lock while it is held, neither by what is around the step nor within it. -/
def Avoids (held : List String) : LockStep → Prop
  | .withLock key steps => key ∉ held ∧ AllAvoid (key :: held) steps
  | .withLocks keys steps => (∀ key ∈ keys, key ∉ held) ∧ AllAvoid (keys ++ held) steps
  | .forget _ | .look => True

/-- None of the steps takes a lock while it is held. -/
def AllAvoid (held : List String) : List LockStep → Prop
  | [] => True
  | step :: steps => step.Avoids held ∧ AllAvoid held steps

end

mutual

instance decidableAvoids (held : List String) : (step : LockStep) → Decidable (step.Avoids held)
  | .withLock key steps =>
    have := decidableAllAvoid (key :: held) steps
    inferInstanceAs (Decidable (key ∉ held ∧ AllAvoid (key :: held) steps))
  | .withLocks keys steps =>
    have := decidableAllAvoid (keys ++ held) steps
    inferInstanceAs (Decidable ((∀ key ∈ keys, key ∉ held) ∧ AllAvoid (keys ++ held) steps))
  | .forget _ | .look => inferInstanceAs (Decidable True)

instance decidableAllAvoid (held : List String) :
    (steps : List LockStep) → Decidable (AllAvoid held steps)
  | [] => inferInstanceAs (Decidable True)
  | step :: steps =>
    have := decidableAvoids held step
    have := decidableAllAvoid held steps
    inferInstanceAs (Decidable (step.Avoids held ∧ AllAvoid held steps))

end

end LockStep

namespace LockTable

variable {α : Type} {step : LockTable → Option (α × LockTable)} {sizes : α → List Nat}
  {held held' keys : List String} {moves inner : List LockMove}

theorem replay_within (t : LockTable) (key : String) (inner : List LockMove) :
    t.replay (LockMove.within key inner) = ((t.acquire key).replay inner).release key :=
  replay_append (t.acquire key) inner [.release key]

theorem observed_within (t : LockTable) (key : String) (inner : List LockMove) :
    t.observed (LockMove.within key inner) = (t.acquire key).observed inner := by
  show (t.acquire key).observed (inner ++ [.release key]) = _
  rw [observed_append]
  exact List.append_nil _

/-! ## What is taken is given back -/

/-- After some moves every lock is counted as before. -/
def Balanced (moves : List LockMove) : Prop :=
  ∀ (t : LockTable) (key : String), (t.replay moves).held key = t.held key

theorem Balanced.append (h : Balanced moves) (h' : Balanced inner) :
    Balanced (moves ++ inner) := by
  intro t key
  rw [replay_append, h', h]

theorem Balanced.within (h : Balanced inner) (key : String) :
    Balanced (LockMove.within key inner) := by
  intro t k
  rw [replay_within, held_release, h, h, held_acquire, held_acquire, if_pos rfl,
    Nat.add_sub_cancel]
  split
  next hkey => rw [hkey]
  · rfl

theorem balanced_look : Balanced [.look] := fun _ _ => rfl

mutual

/-- A step gives back what it takes. -/
theorem balanced_moves (step : LockStep) : Balanced step.moves := by
  match step with
  | .withLock key steps => exact ((balanced_allMoves steps).within key).append balanced_look
  | .withLocks keys steps =>
    refine Balanced.append ?_ balanced_look
    exact List.foldrRecOn _ _ (balanced_allMoves steps) fun _ h key _ => h.within key
  | .forget key => exact fun _ _ => held_forget
  | .look => exact balanced_look

theorem balanced_allMoves (steps : List LockStep) : Balanced (LockStep.allMoves steps) := by
  match steps with
  | [] => exact fun _ _ => rfl
  | step :: steps => exact (balanced_moves step).append (balanced_allMoves steps)

end

/-! ## Runs and their moves -/

/-- In every table in which no others than some locks are held, a step has a result. It does to the
table what some moves do, and tells the sizes that are seen during these moves. -/
def Follows (step : LockTable → Option (α × LockTable)) (held : List String)
    (moves : List LockMove) (sizes : α → List Nat) : Prop :=
  ∀ t : LockTable, (∀ key, key ∉ held → t.held key = 0) →
    ∃ result, step t = some (result, t.replay moves) ∧ sizes result = t.observed moves

namespace Follows

theorem mono (h : Follows step held moves sizes) (hsub : ∀ key ∈ held', key ∈ held) :
    Follows step held' moves sizes :=
  fun t ht => h t fun key hkey => ht key fun hkey' => hkey (hsub key hkey')

theorem withLock {key : String} (h : Follows step (key :: held) inner sizes) (hkey : key ∉ held) :
    Follows (LockTable.withLock key step) held (LockMove.within key inner) sizes := by
  intro t ht
  have hfree : ∀ k, k ∉ key :: held → (t.acquire key).held k = 0 := by
    intro k hk
    rw [List.mem_cons, not_or] at hk
    rw [held_acquire, if_neg hk.1, ht k hk.2]
  obtain ⟨result, hstep, hsizes⟩ := h _ hfree
  refine ⟨result, ?_, hsizes.trans (observed_within t key inner).symm⟩
  rw [LockTable.withLock, if_pos (ht key hkey), hstep, replay_within]
  rfl

/-- Several locks are taken one within the other if none of them comes twice. -/
theorem withEach (hnodup : keys.Nodup) (hfree : ∀ key ∈ keys, key ∉ held)
    (h : Follows step (keys ++ held) inner sizes) :
    Follows (LockTable.withEach keys step) held (keys.foldr LockMove.within inner) sizes := by
  induction keys generalizing held with
  | nil => exact h
  | cons key keys ih =>
    obtain ⟨hkey, hnodup⟩ := List.nodup_cons.mp hnodup
    obtain ⟨hkeyFree, hfree⟩ := List.forall_mem_cons.mp hfree
    refine withLock (ih hnodup ?_ (h.mono ?_)) hkeyFree
    · intro k hk hheld
      rcases List.mem_cons.mp hheld with rfl | hheld
      · exact hkey hk
      · exact hfree k hk hheld
    · intro k hk
      simpa [or_left_comm] using hk

/-- When the steps inside are done, the table is looked at. -/
theorem report {steps : LockTable → Option (List LockReport × LockTable)}
    (h : Follows steps held inner LockReport.allSizes) :
    Follows (fun t => do
        let (reports, t) ← steps t
        return (LockReport.inside reports t.size, t))
      held (inner ++ [.look]) LockReport.sizes := by
  intro t ht
  obtain ⟨reports, hsteps, hsizes⟩ := h t ht
  refine ⟨.inside reports (t.replay inner).size, ?_, ?_⟩
  · simp only [hsteps, replay_append]
    rfl
  · rw [observed_append, LockReport.sizes, hsizes]
    rfl

end Follows

mutual

/-- A step that takes no lock while it is held follows its moves. -/
theorem runStep_follows (step : LockStep) {held : List String} (h : step.Avoids held) :
    Follows (runStep step) held step.moves LockReport.sizes := by
  match step with
  | .withLock key steps => exact ((run_follows steps h.2).withLock h.1).report
  | .withLocks keys steps =>
    refine (Follows.withEach (nodup_distinct keys) (fun key hkey => h.1 key (mem_distinct.mp hkey))
      ((run_follows steps h.2).mono ?_)).report
    intro key hkey
    rwa [List.mem_append, mem_distinct, ← List.mem_append] at hkey
  | .forget key => exact fun t _ => ⟨_, rfl, rfl⟩
  | .look => exact fun t _ => ⟨_, rfl, rfl⟩

theorem run_follows (steps : List LockStep) {held : List String}
    (h : LockStep.AllAvoid held steps) :
    Follows (run steps) held (LockStep.allMoves steps) LockReport.allSizes := by
  match steps with
  | [] => exact fun t _ => ⟨_, rfl, rfl⟩
  | step :: steps =>
    intro t ht
    obtain ⟨report, hstep, hsize⟩ := runStep_follows step h.1 t ht
    have ht' : ∀ key, key ∉ held → (t.replay step.moves).held key = 0 := fun key hkey =>
      (balanced_moves step t key).trans (ht key hkey)
    obtain ⟨reports, hsteps, hsizes⟩ := run_follows steps h.2 _ ht'
    refine ⟨report :: reports, ?_, ?_⟩
    · rw [run, hstep]
      simp only [bind, Option.bind, hsteps, LockStep.allMoves, replay_append]
      rfl
    · rw [LockReport.allSizes, LockStep.allMoves, observed_append, hsize, hsizes]

end

/-- Whoever takes a lock that it holds waits for itself. -/
example : (run [.withLock "a" [.withLocks ["b", "a"] []]] {}).isNone := by decide

/-- **Entries live as long as they are needed.** If no lock is taken while it is held, a run has a
result and follows its moves. Several locks are taken one within the other, each of them once and in
ascending order. At every point of the run, forgetting a lock takes its entry out if and only if
there is one and the lock is not held; the locks with an entry are those that were taken and whose
entry was not taken out since; and every lock that is held has an entry. -/
theorem run_remembers (steps : List LockStep) (h : LockStep.AllAvoid [] steps) :
    (∃ reports, run steps {} = some (reports, replay {} (LockStep.allMoves steps)) ∧
      LockReport.allSizes reports = observed {} (LockStep.allMoves steps)) ∧
    (∀ keys : List String, ∃ each : List String, each.Pairwise (· < ·) ∧
      (∀ key, key ∈ each ↔ key ∈ keys) ∧
      ∀ (α : Type) (step : LockTable → Option (α × LockTable)),
        withLocks keys step = each.foldr withLock step) ∧
    ∀ past, past <+: LockStep.allMoves steps → ∀ key,
      ((replay {} past).Forgets key ↔
        (replay {} past).HasEntry key ∧ key ∉ LockMove.heldAfter past) ∧
      ((replay {} past).HasEntry key ↔ Remembered past key) ∧
      (key ∈ LockMove.heldAfter past → (replay {} past).HasEntry key) := by
  refine ⟨run_follows steps h {} fun _ _ => rfl, fun keys => ?_, fun past _ key => ⟨?_, ?_, ?_⟩⟩
  · exact ⟨distinct keys, ascending_distinct keys, fun _ => mem_distinct,
      fun _ step => withEach_eq_foldr _ step⟩
  · rw [forgets_iff, held_replay_eq_zero_iff]
  · exact hasEntry_replay_iff past key
  · intro hheld
    refine hasEntry_of_held fun hfree => ?_
    exact (held_replay_eq_zero_iff past key).mp hfree hheld

/-- Two locks are taken together, one of them named twice. The one is forgotten while it is held and
keeps its entry; another that was taken inside is forgotten once it is free, and taken anew at the
end. -/
theorem run_remembers_sample :
    let steps : List LockStep := [
      .withLocks ["b", "a", "b"] [.forget "a", .withLock "c" [.forget "b"], .forget "c"],
      .forget "b", .withLock "c" [.look]]
    let past := (LockStep.allMoves steps).take 10
    LockStep.AllAvoid [] steps ∧
      (∃ reports, run steps {} = some (reports, replay {} (LockStep.allMoves steps)) ∧
        LockReport.allSizes reports = [2, 3, 3, 2, 2, 1, 2, 2]) ∧
      LockMove.heldAfter past = ["b", "a"] ∧ ¬(replay {} past).Forgets "a" ∧
      Remembered past "a" ∧ ¬Remembered past "c" := by
  intro steps past
  have havoid : LockStep.AllAvoid [] steps := by decide
  obtain ⟨⟨reports, hrun, hsizes⟩, -, hpoints⟩ := run_remembers steps havoid
  have hpast : past <+: LockStep.allMoves steps := List.take_prefix ..
  obtain ⟨hforgets, ha, -⟩ := hpoints past hpast "a"
  obtain ⟨-, hc, -⟩ := hpoints past hpast "c"
  refine ⟨havoid, ⟨reports, hrun, hsizes.trans (by decide)⟩, by decide, ?_, ?_, ?_⟩
  · exact fun h => (hforgets.mp h).2 (by decide)
  · exact ha.mp (by decide)
  · exact fun h => absurd (hc.mpr h) (by decide)

end LockTable

end ConfigStore
