import ConfigStore.Document.Labels
import ConfigStore.Failure

/-!
# Who may do what

Before a document is read or changed, an authorizer is asked whether the caller may do it. The store
knows nothing of accounts and roles; it hands them on.

* `Authorizer` is a policy; `Authorizer.allowAll` and `Authorizer.ofRules` are policies.
* `authorize` checks an operation on a single document.
* `visible` cuts a listing down to what the caller may see.
-/

namespace ConfigStore

/-- What is to be done with a document. -/
inductive Verb
  | get
  | create
  | update
  | delete
  deriving DecidableEq, Repr

/-- The word for a verb. -/
def Verb.name : Verb → String
  | get => "get"
  | create => "create"
  | update => "update"
  | delete => "delete"

/-- What an authorizer allows. -/
inductive Permission
  /-- Everything. -/
  | unrestricted
  /-- Documents that one of the label sets admits. -/
  | scoped (permitted : List Labels)
  deriving DecidableEq

/-- Who asks. -/
structure Caller where
  /-- The account of the caller. -/
  account : Option String := none
  /-- The roles of the caller. -/
  roles : List String := []
  /-- Whether permissions count at all. -/
  authEnabled : Bool := false
  deriving DecidableEq

/-- A caller for whom permissions do not count. -/
def Caller.anonymous : Caller := {}

/-- A caller known by an account. -/
def Caller.ofAccount (account : String) (roles : List String) : Caller :=
  { account := some account, roles, authEnabled := true }

/-- A policy: what a caller may do with documents of the given labels, or with a whole listing if
no labels are given; none if nothing. -/
abbrev Authorizer := Caller → Verb → Option Labels → Option Permission

/-! ## Decisions -/

/-- Checks an operation on a document with the given labels. -/
def authorize (policy : Authorizer) (caller : Caller) (verb : Verb) (labels : Labels) :
    Except Failure Unit :=
  if !caller.authEnabled then .ok ()
  else
    match policy caller verb (some labels) with
    | some _ => .ok ()
    | none => .error (.forbidden verb.name)

/-- The documents of a listing that the caller may see. A caller who may see nothing gets an empty
listing; an empty scope does not restrict. -/
def visible (policy : Authorizer) (caller : Caller) (docs : List Document) : List Document :=
  if !caller.authEnabled then docs
  else
    match policy caller .get none with
    | none => []
    | some .unrestricted => docs
    | some (.scoped []) => docs
    | some (.scoped permitted) => admitted permitted docs

/-! ## Policies -/

/-- Everybody may do everything. -/
def Authorizer.allowAll : Authorizer := fun _ _ _ => some .unrestricted

/-- Which checks a rule applies to, by the labels of the check. -/
inductive LabelCondition
  /-- Every check. -/
  | any
  /-- Checks without labels, which stand for listings. -/
  | listing
  /-- Checks with labels that contain these. -/
  | containing (labels : Labels)
  deriving DecidableEq

/-- One rule of a policy. -/
structure Rule where
  /-- The verb the rule is about; none for all. -/
  verb : Option String := none
  /-- The account the rule is about; none for all. -/
  account : Option String := none
  /-- A role the caller must have; none if no role is needed. -/
  role : Option String := none
  /-- The labels the rule is about. -/
  condition : LabelCondition := .any
  /-- What the rule allows; none if it denies. -/
  result : Option Permission := none
  deriving DecidableEq

/-- Whether a rule applies to a check. -/
def Rule.applies (r : Rule) (caller : Caller) (verb : Verb) (labels : Option Labels) : Bool :=
  r.verb.all (· == verb.name)
    && r.account.all (caller.account == some ·)
    && r.role.all (caller.roles.contains ·)
    && match r.condition, labels with
      | .any, _ => true
      | .listing, none => true
      | .listing, some _ => false
      | .containing _, none => false
      | .containing wanted, some labels => labels.contains wanted

/-- The policy in which the first rule that applies decides; what no rule is about is denied. -/
def Authorizer.ofRules (rules : List Rule) : Authorizer := fun caller verb labels =>
  (rules.find? (·.applies caller verb labels)).bind (·.result)

end ConfigStore
