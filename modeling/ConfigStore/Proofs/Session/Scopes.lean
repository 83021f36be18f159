import ConfigStore.Proofs.Session.Runs

/-!
# What a scope counts for

A policy may answer a check with a scope: the caller may handle only documents that one of its label
sets admits. A listing leaves out what the scope does not admit. A check on the labels of a single
document only asks whether the policy denies it, and whatever scope comes with the answer is
forgotten.

* `Authorizer.unscoped` is a policy with the scopes of such checks taken away.
* `Session.run_unscoped` says that this makes no difference to any run.
* `Session.get_outside_scope` is a document that a caller may read although the scope does not admit
  it.
-/

namespace ConfigStore

/-! ## Checks without scopes -/

/-- A policy in which every check on the labels of a document that is not denied is allowed without
restriction. Checks for listings stay as they are. -/
def Authorizer.unscoped (policy : Authorizer) : Authorizer := fun caller verb labels =>
  match labels with
  | none => policy caller verb none
  | some labels => (policy caller verb (some labels)).map fun _ => .unrestricted

/-- A check on a single document does not depend on scopes. -/
theorem authorize_unscoped (policy : Authorizer) :
    authorize policy.unscoped = authorize policy := by
  funext caller verb labels
  unfold authorize
  cases hcheck : policy caller verb (some labels) <;> simp [Authorizer.unscoped, hcheck]

namespace Store

/-- A store with the scopes of checks on documents taken away. -/
def unscoped (s : Store) : Store := { s with policy := s.policy.unscoped }

variable (s : Store) (caller : Caller) (domain project : String)

theorem root_unscoped : s.unscoped.root = s.root := rfl

/-! ## Actions of a store -/

theorem create_unscoped (d : Document) : s.unscoped.create caller d = s.create caller d := by
  simp only [create, unscoped, authorize_unscoped]
  rfl

theorem update_unscoped (d : Document) : s.unscoped.update caller d = s.update caller d := by
  simp only [update, unscoped, authorize_unscoped]
  rfl

theorem get_unscoped (id : String) :
    s.unscoped.get caller domain project id = s.get caller domain project id := by
  simp only [get, unscoped, authorize_unscoped]

theorem history_unscoped (id : String) (offset limit : Nat) :
    s.unscoped.history caller domain project id offset limit
      = s.history caller domain project id offset limit := by
  simp only [history, get_unscoped]
  rfl

theorem stage_unscoped (id : String) :
    Deletion.stage s.unscoped caller domain project id
      = Deletion.stage s caller domain project id := by
  simp only [Deletion.stage, Deletion.readStaged, unscoped, authorize_unscoped]

theorem stageEach_unscoped (staged ids : List String) :
    Deletion.stageEach s.unscoped caller domain project staged ids
      = Deletion.stageEach s caller domain project staged ids := by
  induction ids generalizing staged with
  | nil => rfl
  | cons id ids ih =>
    funext disk
    rw [Deletion.stageEach_cons, Deletion.stageEach_cons, stage_unscoped, ih, root_unscoped]

theorem deleteOne_unscoped (id : String) :
    s.unscoped.deleteOne caller domain project id = s.deleteOne caller domain project id := by
  simp only [deleteOne, stage_unscoped]
  rfl

theorem deleteMany_unscoped (ids : List String) :
    s.unscoped.deleteMany caller domain project ids = s.deleteMany caller domain project ids := by
  simp only [deleteMany, stageEach_unscoped]
  rfl

/-- No request is answered otherwise if the scopes are taken away. -/
theorem answer_unscoped (request : Request) : s.unscoped.answer request = s.answer request := by
  cases request with
  | create caller doc => simp only [answer, create_unscoped]
  | update caller doc => simp only [answer, update_unscoped]
  | get caller domain project id => simp only [answer, get_unscoped]
  | deleteOne caller domain project id => simp only [answer, deleteOne_unscoped]
  | deleteMany caller domain project ids => simp only [answer, deleteMany_unscoped]
  | history caller domain project id offset limit => simp only [answer, history_unscoped]
  | _ => rfl

end Store

/-! ## Runs -/

/-- A step with the scopes of checks on documents taken away. -/
def Step.unscoped : Step → Step
  | .call request => .call request
  | .reopen settings policy => .reopen settings policy.unscoped

namespace Session

/-- A session with the scopes of checks on documents taken away. -/
def unscoped (session : Session) : Session := { session with store := session.store.unscoped }

variable (session : Session)

theorem step_unscoped (s : Step) :
    session.unscoped.step s.unscoped = ((session.step s).1, (session.step s).2.unscoped) := by
  cases s with
  | call request =>
    simp only [step, Step.unscoped, call, unscoped, Store.answer_unscoped]
    cases session.store.answer request session.state <;> rfl
  | reopen settings policy =>
    simp only [step, Step.unscoped, reopen, start_eq, unscoped]
    rcases Disk.makeDirs settings.root session.state.disk with ⟨refusal | u, disk⟩ <;> rfl

/-- **A scope counts for listings alone.** A run goes as it would if every check on the labels of a
document that is not denied were allowed without restriction. -/
theorem run_unscoped (steps : List Step) :
    session.unscoped.run (steps.map Step.unscoped) =
      ((session.run steps).1.map (Prod.map Step.unscoped id), (session.run steps).2.unscoped) := by
  induction steps generalizing session with
  | nil => rfl
  | cons s steps ih =>
    simp only [List.map_cons, run, step_unscoped, ih]
    rfl

/-! ## A document outside of a scope -/

/-- Labels of a sample scope. -/
def scopeLabels : Labels := Dict.empty.insert "env" "prod"

/-- A policy that allows everything within a scope. -/
def scopedPolicy : Authorizer := .ofRules [{ result := some (.scoped [scopeLabels]) }]

/-- A store with this policy that was opened where nothing was. -/
def scopedSample : Session :=
  { sample with store := { root := sampleSettings.root, policy := scopedPolicy } }

/-- A document that the scope does not admit. -/
def outsider : Document := { sampleDocument with labels := Dict.empty.insert "env" "test" }

theorem scopedSample_fresh : scopedSample.Fresh sampleSettings where
  opened := ⟨scopedPolicy, .dir [], Node.distinct_dir_nil, rfl⟩
  empty := ⟨_, rfl, rfl⟩
  short := by decide

/-- A caller reads a document that the scope of the check does not admit, and that a listing hides
from the caller. -/
theorem get_outside_scope :
    scopedPolicy (.ofAccount "eve" []) .get (some outsider.labels)
        = some (.scoped [scopeLabels]) ∧
      outsider.admittedBy [scopeLabels] = false ∧
      visible scopedPolicy (.ofAccount "eve" []) [outsider] = [] ∧
      ((scopedSample.run [.call (.create .anonymous outsider)]).2.call
          (.get (.ofAccount "eve" []) "shop" "web" "timeout")).1 = .ok (.document outsider) := by
  obtain ⟨base, hsound⟩ := scopedSample_fresh.sound
  obtain ⟨state, hcreate, hsound, -⟩ := call_create hsound .anonymous (d := outsider)
    (.of_fits rfl rfl (by decide)) rfl
  refine ⟨rfl, by decide, by decide, ?_⟩
  rw [run_call_cons hcreate]
  exact congrArg Prod.fst (call_get hsound (.ofAccount "eve" []) (.of_fits rfl rfl (by decide))
    (Library.head?_write ..) rfl)

end Session

end ConfigStore
