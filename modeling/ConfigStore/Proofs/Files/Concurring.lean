import ConfigStore.Proofs.Disk.Overlooking
import ConfigStore.Proofs.Files.Looking

/-!
# Looking at two states

An action that only looks may come to the same result in two states, although they differ.

* `Concurs` says so of an action and two states; `Concurs.bind` and its like follow the shape of an
  action.
* `Files.concurs_read?` and `Files.concurs_filesBelow` are the actions on files.
-/

namespace ConfigStore

/-- An action comes to the same result in two states, and changes neither of them. -/
def Concurs {σ α : Type} (action : EStateM Failure σ α) (state state' : σ) : Prop :=
  ∃ result : Except Failure α, action state = require result state ∧
    action state' = require result state'

namespace Concurs

variable {σ α β : Type} {action : EStateM Failure σ α} {state state' : σ}

theorem require (check : Except Failure α) :
    Concurs (ConfigStore.require check) state state' := ⟨check, rfl, rfl⟩

theorem pure (a : α) : Concurs (Pure.pure a) state state' := ⟨.ok a, rfl, rfl⟩

theorem throw (failure : Failure) :
    Concurs (MonadExcept.throw failure : EStateM Failure σ α) state state' :=
  ⟨.error failure, rfl, rfl⟩

/-- What is known of the result of an action may be used for what follows it. -/
theorem bind {next : α → EStateM Failure σ β} (h : Concurs action state state')
    (hnext : ∀ a, action state = .ok a state → Concurs (next a) state state') :
    Concurs (action >>= next) state state' := by
  obtain ⟨result, hresult, hresult'⟩ := h
  cases result with
  | error failure =>
    refine ⟨.error failure, ?_, ?_⟩
    · simp only [Bind.bind, EStateM.bind, hresult]
      rfl
    · simp only [Bind.bind, EStateM.bind, hresult']
      rfl
  | ok a =>
    obtain ⟨last, hlast, hlast'⟩ := hnext a hresult
    refine ⟨last, ?_, ?_⟩
    · simp only [Bind.bind, EStateM.bind, hresult]
      exact hlast
    · simp only [Bind.bind, EStateM.bind, hresult']
      exact hlast'

theorem mapM {check : β → EStateM Failure σ α} (h : ∀ b, Concurs (check b) state state')
    (l : List β) : Concurs (l.mapM check) state state' := by
  induction l with
  | nil => exact pure []
  | cons b l ih =>
    rw [List.mapM_cons]
    exact (h b).bind fun a _ => ih.bind fun _ _ => pure _

theorem onDisk {action : DiskAction α} {state state' : StoreState}
    (h : Concurs action state.disk state'.disk) :
    Concurs (StoreAction.onDisk action) state state' := by
  obtain ⟨result, hresult, hresult'⟩ := h
  refine ⟨result, ?_, ?_⟩
  · simp only [StoreAction.onDisk, hresult]
    cases result <;> rfl
  · simp only [StoreAction.onDisk, hresult']
    cases result <;> rfl

end Concurs

namespace Files

open Disk

variable {disk disk' : Node} {path : Path}

theorem concurs_look (activity : Activity) {α : Type} {f : Node → Except Refusal α}
    (h : f disk' = f disk) : Concurs (look activity f) disk disk' := by
  cases hresult : f disk with
  | ok a => exact ⟨.ok a, by simp only [look, hresult]; rfl, by simp only [look, h, hresult]; rfl⟩
  | error refusal =>
    exact ⟨.error (.disk activity refusal), by simp only [look, hresult]; rfl,
      by simp only [look, h, hresult]; rfl⟩

theorem concurs_read? (h : readFile disk' path = readFile disk path) :
    Concurs (read? path) disk disk' :=
  concurs_look _ (by rw [h])

/-- All files below a directory are read as before if it is listed as before. -/
theorem concurs_filesBelow (h : Disk.entries disk' path = Disk.entries disk path)
    (except? : Option String) : Concurs (filesBelow path except?) disk disk' := by
  refine (concurs_look _ h).bind fun children _ => ?_
  cases firstUnlistable path children with
  | some directory => exact .throw _
  | none =>
    refine .mapM (fun file => ?_) _
    dsimp only
    split
    · exact .throw _
    · exact .pure _

end Files

end ConfigStore
