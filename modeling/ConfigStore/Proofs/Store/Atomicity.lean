import Mathlib.Data.List.Forall2
import ConfigStore.Proofs.Document.RoundTrip
import ConfigStore.Proofs.Store.Deletion

/-!
# Deleting documents, seen from outside

A deletion that fails changes no file and nothing in the cache; a deletion that succeeds removes
the documents that were asked for and no others. Deleting several documents at once is the same as
deleting them one by one, except that it fails before anything is deleted.

* `Deletion.Deleted` says what a deletion has done.
* `Store.deleteOne_outcome`, `Store.deleteMany_outcome` describe the two operations of a store.
* `Store.deletion_all_or_nothing` is the result.
-/

namespace ConfigStore

open Node Disk Deletion

theorem nodup_eraseDups (l : List String) : l.eraseDups.Nodup := by
  induction hn : l.length using Nat.strong_induction_on generalizing l with
  | _ n ih =>
    cases l with
    | nil => exact List.nodup_nil
    | cons a l =>
      rw [List.eraseDups_cons, List.nodup_cons, List.mem_eraseDups]
      refine ⟨by simp, ih _ ?_ _ rfl⟩
      have := List.length_filter_le (fun b => !b == a) l
      simp only [List.length_cons] at hn
      omega

namespace Deletion

/-- Nothing is left of an earlier deletion where the documents would be put aside. -/
def Vacant (root : Path) (domain project : String) (ids : List String) (disk : Node) : Prop :=
  ∀ base, reach disk root = .ok base → ∀ id ∈ ids, ∀ name,
    disk.at? (base ++ aside domain project id ++ [name]) = none

/-- What a deletion has done: the directories of the documents are gone, all files elsewhere are as
they were, and the documents that are given back are those of the newest copies. -/
structure Deleted (base : Place) (domain project : String) (ids : List String)
    (docs : List Document) (disk disk' : Node) : Prop where
  gone : ∀ id ∈ ids, disk'.at? (base ++ home domain project id) = none
  others : ∀ place, (∀ id ∈ ids, ¬base ++ home domain project id <+: place ∧
      ¬base ++ aside domain project id <+: place) → disk'.content? place = disk.content? place
  heads : List.Forall₂ (fun id d => ∃ content,
      disk.content? (base ++ home domain project id ++ [Layout.newestName]) = some content ∧
        Document.decode content = .ok d) ids.eraseDups docs

/-- No file has changed, and nothing in the cache. -/
structure Unchanged (state state' : StoreState) : Prop where
  files : ∀ place, state'.disk.content? place = state.disk.content? place
  cache : state'.cache = state.cache

theorem Unchanged.refl (state : StoreState) : Unchanged state state := ⟨fun _ => rfl, rfl⟩

theorem Deleted.of_bench {s : Store} {caller : Caller} {base : Place} {domain project : String}
    {disk disk' : Node} {phase : String → Phase} {ids : List String} {docs : List Document}
    (h : Bench base domain project disk phase disk') (hin : ∀ id ∈ ids, phase id = .removed)
    (hout : ∀ id ∉ ids, phase id = .resting)
    (hdocs : List.Forall₂ (Deletable s caller base domain project disk) ids.eraseDups docs) :
    Deleted base domain project ids docs disk disk' where
  gone := by
    intro id hid
    have hremoved := ((hin id hid) ▸ h.phases id).1 []
    rwa [List.append_nil, kindAt?_eq_none_iff] at hremoved
  others := by
    intro place hplace
    refine h.content?_eq_of_not_below (fun id hid => ?_) fun id hid => ?_
    · exact (hplace id (not_not.mp (mt (hout id) hid))).1
    · exact (hplace id (not_not.mp (mt (hout id) hid))).2
  heads := by
    refine hdocs.imp ?_
    intro id d hd
    obtain ⟨content, hstage, hdecode, -⟩ := hd
    exact ⟨content, content?_eq_some_iff.mpr hstage.newest, hdecode⟩

end Deletion

theorem exists_of_forall₂ {α β : Type} {r : α → β → Prop} {l : List α} {l' : List β}
    (h : List.Forall₂ r l l') {a : α} (ha : a ∈ l) : ∃ b ∈ l', r a b := by
  induction h with
  | nil => cases ha
  | @cons a' b l l' hab _ ih =>
    rcases List.mem_cons.mp ha with rfl | ha
    · exact ⟨b, List.mem_cons_self .., hab⟩
    · obtain ⟨b, hb, hab⟩ := ih ha
      exact ⟨b, List.mem_cons_of_mem _ hb, hab⟩

namespace Store

variable {s : Store} (caller : Caller) {domain project id : String} {state : StoreState}

/-! ## What is checked before -/

theorem require_ok {α σ : Type} (a : α) (state : σ) :
    require (.ok a) state = EStateM.Result.ok a state := rfl

theorem require_error {α σ : Type} (failure : Failure) (state : σ) :
    (require (.error failure) : EStateM Failure σ α) state = .error failure state := rfl

theorem deleteOne_eq (hscope : Names.checkScope domain project = .ok ())
    (hid : Names.checkId id = .ok ()) :
    s.deleteOne caller domain project id state =
      match stage s caller domain project id state.disk with
      | .error failure disk => .error failure { state with disk }
      | .ok d disk =>
        .ok d ⟨commit s.root domain project id disk, state.cache.map (·.evict [d])⟩ := by
  simp only [deleteOne, bind, EStateM.bind, hscope, hid, require_ok, StoreAction.onDisk]
  cases stage s caller domain project id state.disk <;> rfl

theorem deleteOne_invalid (h : ¬(Names.checkScope domain project = .ok () ∧
      Names.checkId id = .ok ())) :
    ∃ failure, s.deleteOne caller domain project id state = .error failure state := by
  cases hscope : Names.checkScope domain project with
  | error failure =>
    exact ⟨failure, by simp only [deleteOne, bind, EStateM.bind, hscope, require_error]⟩
  | ok u =>
    cases hid : Names.checkId id with
    | error failure =>
      exact ⟨failure, by simp only [deleteOne, bind, EStateM.bind, hscope, hid, require_ok,
        require_error]⟩
    | ok u => exact absurd ⟨hscope, hid⟩ h

theorem checkIds_outcome (ids : List String) (state : StoreState) :
    ((∀ id ∈ ids, Names.checkId id = .ok ()) ∧
        (ids.forM fun id => require (Names.checkId id)) state = EStateM.Result.ok () state) ∨
      ¬(∀ id ∈ ids, Names.checkId id = .ok ()) ∧ ∃ failure,
        (ids.forM fun id => require (Names.checkId id)) state
          = EStateM.Result.error failure state := by
  induction ids with
  | nil => exact .inl ⟨fun _ h => absurd h List.not_mem_nil, rfl⟩
  | cons id ids ih =>
    cases hid : Names.checkId id with
    | error failure =>
      refine .inr ⟨fun h => ?_, failure, ?_⟩
      · have := h id (List.mem_cons_self ..)
        rw [hid] at this
        cases this
      · simp only [List.forM_eq_forM, List.forM_cons, bind, EStateM.bind, hid, require_error]
    | ok u =>
      simp only [List.forM_eq_forM, List.forM_cons, bind, EStateM.bind, hid, require_ok,
        List.forall_mem_cons, true_and]
      exact ih

theorem deleteMany_eq {ids : List String} (hscope : Names.checkScope domain project = .ok ())
    (hids : ∀ id ∈ ids, Names.checkId id = .ok ()) (hne : ids ≠ []) :
    s.deleteMany caller domain project ids state =
      match stageEach s caller domain project [] ids.eraseDups state.disk with
      | .error failure disk => .error failure { state with disk }
      | .ok docs disk => .ok docs
        ⟨commitEach s.root domain project ids.eraseDups disk, state.cache.map (·.evict docs)⟩ := by
  have hforM : (ids.eraseDups.forM fun id => require (Names.checkId id)) state
      = EStateM.Result.ok () state := by
    rcases checkIds_outcome ids.eraseDups state with h | ⟨h, -⟩
    · exact h.2
    · exact absurd (fun id hid => hids id (List.mem_eraseDups.mp hid)) h
  have hempty : ids.eraseDups.isEmpty = false := by
    obtain ⟨id, rest, rfl⟩ := List.exists_cons_of_ne_nil hne
    rw [List.eraseDups_cons]
    rfl
  simp only [deleteMany, bind, EStateM.bind, hscope, hforM, require_ok, hempty, StoreAction.onDisk,
    Bool.false_eq_true, if_false]
  cases stageEach s caller domain project [] ids.eraseDups state.disk <;> rfl

theorem deleteMany_invalid {ids : List String} (h : ¬(Names.checkScope domain project = .ok () ∧
      (∀ id ∈ ids, Names.checkId id = .ok ()) ∧ ids ≠ [])) :
    ∃ failure, s.deleteMany caller domain project ids state = .error failure state := by
  cases hscope : Names.checkScope domain project with
  | error failure =>
    exact ⟨failure, by simp only [deleteMany, bind, EStateM.bind, hscope, require_error]⟩
  | ok u =>
    rcases checkIds_outcome ids.eraseDups state with ⟨hids, hforM⟩ | ⟨-, failure, hforM⟩
    · have hnil : ids = [] := by
        by_contra hne
        exact h ⟨hscope, fun id hid => hids id (List.mem_eraseDups.mpr hid), hne⟩
      subst hnil
      refine ⟨.keyNotFound "no kv id given", ?_⟩
      simp only [deleteMany, bind, EStateM.bind, hscope, require_ok]
      rfl
    · exact ⟨failure, by simp only [deleteMany, bind, EStateM.bind, hscope, require_ok, hforM]⟩

/-! ## One document -/

variable {base : Place} {disk : Node} {phase : String → Phase}

/-- A document is deleted if it is deletable; otherwise nothing is. -/
theorem deleteOne_outcome (h : Bench base domain project disk phase state.disk)
    (hscene : Scene s.root base domain project disk)
    (hscope : Names.checkScope domain project = .ok ()) (hid : Names.checkId id = .ok ())
    (hhome : (phase id).AtHome)
    (hclear : ∀ n, disk.kindAt? (base ++ aside domain project id ++ [n]) = none) :
    (∃ d, Deletable s caller base domain project disk id d ∧ ∃ disk',
        s.deleteOne caller domain project id state
          = .ok d ⟨disk', state.cache.map (·.evict [d])⟩ ∧
        Bench base domain project disk (Function.update phase id .removed) disk') ∨
      (¬∃ d, Deletable s caller base domain project disk id d) ∧ ∃ failure disk',
        s.deleteOne caller domain project id state = .error failure ⟨disk', state.cache⟩ ∧
        Bench base domain project disk (Function.update phase id .returned) disk' := by
  have hpiece := Names.isPiece_of_isPlain (Names.checkId_eq_ok_iff.mp hid)
  rw [deleteOne_eq caller hscope hid]
  rcases stage_outcome caller h hscene hpiece hhome hclear with
    ⟨d, hd, disk', hok, hbench⟩ | ⟨hnot, failure, disk', herror, hbench⟩
  · obtain ⟨content, hstage⟩ := hd.stageable
    have hcommit := hbench.commit hscene.grounded hscene.named hscene.notTmp
      (Function.update_self ..) hstage
    rw [Function.update_idem] at hcommit
    exact .inl ⟨d, hd, _, by rw [hok], hcommit⟩
  · exact .inr ⟨hnot, failure, disk', by rw [herror], hbench⟩

/-- Documents that are deletable can be deleted one after the other. -/
theorem deleteInTurn {ids : List String} {docs : List Document}
    (h : Bench base domain project disk phase state.disk)
    (hscene : Scene s.root base domain project disk)
    (hscope : Names.checkScope domain project = .ok ())
    (hids : ∀ id ∈ ids, Names.checkId id = .ok ()) (hnodup : ids.Nodup)
    (hdocs : List.Forall₂ (Deletable s caller base domain project disk) ids docs)
    (hhome : ∀ id ∈ ids, (phase id).AtHome)
    (hclear : ∀ id ∈ ids, ∀ n, disk.kindAt? (base ++ aside domain project id ++ [n]) = none) :
    ∃ state' phase', ids.mapM (s.deleteOne caller domain project) state = .ok docs state' ∧
      (∀ id ∈ ids, phase' id = .removed) ∧ (∀ id ∉ ids, phase' id = phase id) ∧
      Bench base domain project disk phase' state'.disk := by
  induction hdocs generalizing state phase with
  | nil =>
    exact ⟨state, phase, by rw [List.mapM_nil]; rfl, fun _ hid => absurd hid List.not_mem_nil,
      fun _ _ => rfl, h⟩
  | @cons id d ids docs hd hdocs ih =>
    obtain ⟨hfresh, hnodup⟩ := List.nodup_cons.mp hnodup
    have hmem : id ∈ id :: ids := List.mem_cons_self ..
    have hrest : ∀ other ∈ ids, other ∈ id :: ids := fun other => List.mem_cons_of_mem _
    rcases deleteOne_outcome caller h hscene hscope (hids id hmem) (hhome id hmem)
        (hclear id hmem) with ⟨d', hd', disk', hok, hbench⟩ | ⟨hnot, -⟩
    · obtain rfl := hd.unique hd'
      have hnext : Bench base domain project disk (Function.update phase id .removed)
          (StoreState.mk disk' (state.cache.map (·.evict [d]))).disk := hbench
      obtain ⟨state', phase', hok', hin, hout, hbench'⟩ := ih hnext
        (fun other hother => hids other (hrest other hother)) hnodup
        (fun other hother => by
          rw [Function.update_of_ne (ne_of_mem_of_not_mem hother hfresh)]
          exact hhome other (hrest other hother))
        fun other hother => hclear other (hrest other hother)
      refine ⟨state', phase', ?_, fun other hother => ?_, fun other hother => ?_, hbench'⟩
      · simp only [List.mapM_cons, bind, EStateM.bind, hok, hok']
        rfl
      · rcases List.mem_cons.mp hother with rfl | hother
        · rw [hout _ hfresh, Function.update_self]
        · exact hin other hother
      · rw [List.mem_cons, not_or] at hother
        rw [hout other hother.2, Function.update_of_ne hother.1]
    · exact absurd ⟨d, hd⟩ hnot

/-- Several documents are deleted if every one of them is deletable; otherwise none is. -/
theorem deleteMany_outcome {ids : List String}
    (hscene : Scene s.root base domain project state.disk)
    (hscope : Names.checkScope domain project = .ok ())
    (hids : ∀ id ∈ ids, Names.checkId id = .ok ()) (hne : ids ≠ [])
    (hclear : ∀ id ∈ ids, ∀ n, state.disk.kindAt? (base ++ aside domain project id ++ [n]) = none) :
    (∃ docs, List.Forall₂ (Deletable s caller base domain project state.disk) ids.eraseDups docs ∧
        ∃ disk' phase', s.deleteMany caller domain project ids state
            = .ok docs ⟨disk', state.cache.map (·.evict docs)⟩ ∧
          (∀ id ∈ ids, phase' id = .removed) ∧ (∀ id ∉ ids, phase' id = .resting) ∧
          Bench base domain project state.disk phase' disk') ∨
      (∃ id ∈ ids, ¬∃ d, Deletable s caller base domain project state.disk id d) ∧
        ∃ failure disk' phase',
          s.deleteMany caller domain project ids state = .error failure ⟨disk', state.cache⟩ ∧
          (∀ id, (phase' id).AtHome) ∧ Bench base domain project state.disk phase' disk' := by
  have hmem : ∀ {id}, id ∈ ids.eraseDups ↔ id ∈ ids := List.mem_eraseDups
  have hnodup := nodup_eraseDups ids
  rw [deleteMany_eq caller hscope hids hne]
  rcases stageEach_outcome caller
      (Bench.start hscene.grounded.distinct base domain project) hscene
      (fun id hid => Names.isPiece_of_isPlain (Names.checkId_eq_ok_iff.mp (hids id (hmem.mp hid))))
      hnodup (fun _ hid => absurd hid List.not_mem_nil) (fun _ _ => trivial)
      (fun id hid => hclear id (hmem.mp hid)) with
    ⟨docs, disk', phase', hok, hdocs, hin, hout, hbench⟩ |
      ⟨⟨id, hid, hnot⟩, failure, disk', phase', herror, hhome, hbench⟩
  · have hstageable : ∀ id ∈ ids.eraseDups,
        ∃ content, Stageable s.root base domain project id content state.disk := by
      intro id hid
      obtain ⟨d, -, hd⟩ := exists_of_forall₂ hdocs hid
      exact hd.stageable
    obtain ⟨phase'', hin', hout', hbench'⟩ := commitEach_bench hbench hscene hnodup fun id hid =>
      ⟨hin id hid, hstageable id hid⟩
    refine .inl ⟨docs, hdocs, _, phase'', by rw [hok], fun id hid => hin' id (hmem.mpr hid),
      fun id hid => ?_, hbench'⟩
    have hid' := mt hmem.mp hid
    rw [hout' id hid', hout id hid']
  · exact .inr ⟨⟨id, hmem.mp hid, hnot⟩, failure, disk', phase', by rw [herror], hhome, hbench⟩

/-! ## From outside -/

/-- A store whose root is no directory has nothing that could be staged. -/
theorem stage_unrooted (hdomain : IsPiece domain) (hproject : IsPiece project) (hid : IsPiece id)
    (hroot : ¬∃ base, reach disk s.root = .ok base ∧ disk.kindAt? base = some .dir) :
    ∃ failure, stage s caller domain project id disk = .error failure disk := by
  cases hread : readFile disk (Layout.newest s.root domain project id) with
  | error refusal => exact stage_unread caller hread
  | ok content =>
    refine absurd ?_ hroot
    have hpieces : ∀ n ∈ home domain project id, IsPiece n := by
      simp only [List.mem_cons, List.not_mem_nil, or_false, forall_eq_or_imp, forall_eq]
      exact ⟨hdomain, hproject, hid⟩
    exact root_of_readFile hpieces (List.cons_ne_nil _ _) Layout.isName_newestName.toIsPiece hread

theorem scene_of_anchored {base : Place} (hdistinct : disk.Distinct) (hnamed : WellNamed disk)
    (hanchored : Anchored s.root disk) (hbase : reach disk s.root = .ok base)
    (hdir : disk.kindAt? base = some .dir) (hscope : Names.checkScope domain project = .ok ()) :
    Scene s.root base domain project disk := by
  obtain ⟨hdomain, hreserved, hproject⟩ := Names.checkScope_eq_ok_iff.mp hscope
  exact ⟨.of_anchored hdistinct hdir hanchored hbase, fun _ => hnamed _,
    Names.isPiece_of_isPlain hdomain, Names.isPiece_of_isPlain hproject,
    Names.ne_tmpName_of_isReserved hreserved⟩

/-- In a scope that is refused, or below a root that is no directory, nothing is deleted. -/
theorem delete_hopeless (h : ¬(Names.checkScope domain project = .ok () ∧
      ∃ base, reach state.disk s.root = .ok base ∧ state.disk.kindAt? base = some .dir))
    (id : String) (ids : List String) :
    (∃ failure, s.deleteOne caller domain project id state = .error failure state) ∧
      ∃ failure, s.deleteMany caller domain project ids state = .error failure state := by
  by_cases hscope : Names.checkScope domain project = .ok ()
  · have hroot := fun hroot => h ⟨hscope, hroot⟩
    obtain ⟨hdomain, -, hproject⟩ := Names.checkScope_eq_ok_iff.mp hscope
    have hstage : ∀ id, Names.checkId id = .ok () →
        ∃ failure, stage s caller domain project id state.disk = .error failure state.disk :=
      fun id hid => stage_unrooted caller (Names.isPiece_of_isPlain hdomain)
        (Names.isPiece_of_isPlain hproject)
        (Names.isPiece_of_isPlain (Names.checkId_eq_ok_iff.mp hid)) hroot
    constructor
    · by_cases hid : Names.checkId id = .ok ()
      · obtain ⟨failure, herror⟩ := hstage id hid
        exact ⟨failure, by rw [deleteOne_eq caller hscope hid, herror]⟩
      · exact deleteOne_invalid caller fun hvalid => hid hvalid.2
    · by_cases hids : (∀ id ∈ ids, Names.checkId id = .ok ()) ∧ ids ≠ []
      · obtain ⟨first, rest, rfl⟩ := List.exists_cons_of_ne_nil hids.2
        obtain ⟨failure, herror⟩ := hstage first (hids.1 first (List.mem_cons_self ..))
        refine ⟨failure, ?_⟩
        rw [deleteMany_eq caller hscope hids.1 hids.2, List.eraseDups_cons, stageEach_cons, herror]
        rfl
      · exact deleteMany_invalid caller fun hvalid => hids hvalid.2
  · exact ⟨deleteOne_invalid caller fun hvalid => hscope hvalid.1,
      deleteMany_invalid caller fun hvalid => hscope hvalid.1⟩

/-- A document is deleted if its id is accepted and it is deletable, and otherwise no file
changes. -/
theorem deleteOne_spec (hscene : Scene s.root base domain project state.disk)
    (hscope : Names.checkScope domain project = .ok ())
    (hclear : ∀ n, state.disk.kindAt? (base ++ aside domain project id ++ [n]) = none) :
    (Names.checkId id = .ok () ∧ ∃ d state',
        Deletable s caller base domain project state.disk id d ∧
        s.deleteOne caller domain project id state = .ok d state' ∧
        Deleted base domain project [id] [d] state.disk state'.disk) ∨
      ¬(Names.checkId id = .ok () ∧ ∃ d, Deletable s caller base domain project state.disk id d) ∧
        ∃ failure state', s.deleteOne caller domain project id state = .error failure state' ∧
          Unchanged state state' := by
  by_cases hid : Names.checkId id = .ok ()
  · rcases deleteOne_outcome caller
        (Bench.start hscene.grounded.distinct base domain project) hscene hscope hid trivial hclear
      with ⟨d, hd, disk', hok, hbench⟩ | ⟨hnot, failure, disk', herror, hbench⟩
    · refine .inl ⟨hid, d, _, hd, hok, .of_bench hbench (fun other hother => ?_)
        (fun other hother => ?_) (.cons hd .nil)⟩
      · rw [List.mem_singleton.mp hother, Function.update_self]
      · rw [Function.update_of_ne (by simpa using hother)]
    · exact .inr ⟨fun h => hnot h.2, failure, _, herror,
        hbench.content?_eq fun other => Phase.atHome_update trivial fun _ => trivial, rfl⟩
  · obtain ⟨failure, herror⟩ := deleteOne_invalid (s := s) caller
      fun hvalid : Names.checkScope domain project = .ok () ∧ _ => hid hvalid.2
    exact .inr ⟨fun h => hid h.1, failure, state, herror, .refl state⟩

/-- Documents are deleted if all ids are accepted and all of them are deletable, and otherwise no
file changes. -/
theorem deleteMany_spec {ids : List String}
    (hscene : Scene s.root base domain project state.disk)
    (hscope : Names.checkScope domain project = .ok ())
    (hclear : ∀ id ∈ ids, ∀ n,
      state.disk.kindAt? (base ++ aside domain project id ++ [n]) = none) :
    (ids ≠ [] ∧ (∀ id ∈ ids, Names.checkId id = .ok ()) ∧ ∃ docs state',
        List.Forall₂ (Deletable s caller base domain project state.disk) ids.eraseDups docs ∧
        s.deleteMany caller domain project ids state = .ok docs state' ∧
        Deleted base domain project ids docs state.disk state'.disk ∧
        ∃ state'', ids.eraseDups.mapM (s.deleteOne caller domain project) state = .ok docs state'' ∧
          Same state'.disk state''.disk) ∨
      (ids ≠ [] → ∃ id ∈ ids, ¬(Names.checkId id = .ok () ∧
        ∃ d, Deletable s caller base domain project state.disk id d)) ∧
        ∃ failure state', s.deleteMany caller domain project ids state = .error failure state' ∧
          Unchanged state state' := by
  by_cases hids : (∀ id ∈ ids, Names.checkId id = .ok ()) ∧ ids ≠ []
  · have hmem : ∀ {id}, id ∈ ids.eraseDups ↔ id ∈ ids := List.mem_eraseDups
    rcases deleteMany_outcome caller hscene hscope hids.1 hids.2 hclear with
      ⟨docs, hdocs, disk', phase, hok, hin, hout, hbench⟩ |
        ⟨⟨id, hid, hnot⟩, failure, disk', phase, herror, hhome, hbench⟩
    · obtain ⟨state'', phase', hturn, hin', hout', hbench'⟩ := deleteInTurn caller
        (Bench.start hscene.grounded.distinct base domain project) hscene hscope
        (fun id hid => hids.1 id (hmem.mp hid)) (nodup_eraseDups ids) hdocs (fun _ _ => trivial)
        fun id hid => hclear id (hmem.mp hid)
      refine .inl ⟨hids.2, hids.1, docs, _, hdocs, hok, .of_bench hbench hin hout hdocs, state'',
        hturn, hbench.same hbench' (fun id => ?_) (fun id => ?_) ?_⟩
      · by_cases hid : id ∈ ids
        · rw [hin id hid, hin' id (hmem.mpr hid)]
        · rw [hout id hid, hout' id (mt hmem.mp hid)]
      · by_cases hid : id ∈ ids
        · exact .inr (hin id hid)
        · exact .inl (hout id hid)
      · obtain ⟨id, hid⟩ := List.exists_mem_of_ne_nil ids hids.2
        exact ⟨id, hin id hid⟩
    · exact .inr ⟨fun _ => ⟨id, hid, fun h => hnot h.2⟩, failure, _, herror,
        hbench.content?_eq hhome, rfl⟩
  · obtain ⟨failure, herror⟩ := deleteMany_invalid (s := s) caller
      fun hvalid : Names.checkScope domain project = .ok () ∧ _ => hids hvalid.2
    refine .inr ⟨fun hne => ?_, failure, state, herror, .refl state⟩
    rw [not_and_not_right] at hids
    by_contra hall
    push Not at hall
    exact hne (hids fun id hid => (hall id hid).1)

theorem deleteOne_ok_iff (hscene : Scene s.root base domain project state.disk)
    (hscope : Names.checkScope domain project = .ok ())
    (hclear : ∀ n, state.disk.kindAt? (base ++ aside domain project id ++ [n]) = none) :
    (∃ d state', s.deleteOne caller domain project id state = .ok d state') ↔
      Names.checkId id = .ok () ∧
        ∃ d, Deletable s caller base domain project state.disk id d := by
  rcases deleteOne_spec caller hscene hscope hclear with
    ⟨hid, d, state', hd, hok, -⟩ | ⟨hnot, failure, state', herror, -⟩
  · exact iff_of_true ⟨d, state', hok⟩ ⟨hid, d, hd⟩
  · refine iff_of_false ?_ hnot
    rintro ⟨d, state'', hok⟩
    rw [herror] at hok
    cases hok

theorem deleteMany_ok_iff {ids : List String}
    (hscene : Scene s.root base domain project state.disk)
    (hscope : Names.checkScope domain project = .ok ())
    (hclear : ∀ id ∈ ids, ∀ n,
      state.disk.kindAt? (base ++ aside domain project id ++ [n]) = none) (hne : ids ≠ []) :
    (∃ docs state', s.deleteMany caller domain project ids state = .ok docs state') ↔
      ∀ id ∈ ids, Names.checkId id = .ok () ∧
        ∃ d, Deletable s caller base domain project state.disk id d := by
  rcases deleteMany_spec caller hscene hscope hclear with
    ⟨-, hids, docs, state', hdocs, hok, -⟩ | ⟨hnot, failure, state', herror, -⟩
  · refine iff_of_true ⟨docs, state', hok⟩ ?_
    intro id hid
    obtain ⟨d, -, hd⟩ := exists_of_forall₂ hdocs (List.mem_eraseDups.mpr hid)
    exact ⟨hids id hid, d, hd⟩
  · refine iff_of_false ?_ ?_
    · rintro ⟨docs, state'', hok⟩
      rw [herror] at hok
      cases hok
    · intro hall
      obtain ⟨id, hid, hnot⟩ := hnot hne
      exact hnot (hall id hid)

/-- Deletion is all or nothing. For every tree, whatever its documents hold and in whatever order
its directories are listed, a deletion that fails changes no file and nothing in the cache, and one
that succeeds deletes the documents that were asked for and gives them back. Deleting several
documents succeeds if and only if every one of them could be deleted by itself, and leaves the same
tree as deleting them one after the other.

Of the tree it is asked that nothing is left where the documents are put aside (`Vacant`), and of
the path of the root that it is `Disk.Anchored`: a root that leads through one of its own documents
would be lost with that document. By `Disk.anchored_of_not_mem` every path without `..` is
anchored. -/
theorem deletion_all_or_nothing (s : Store) (caller : Caller) (domain project : String)
    (ids : List String) (state : StoreState) (hdistinct : state.disk.Distinct)
    (hnamed : WellNamed state.disk) (hanchored : Anchored s.root state.disk)
    (hvacant : Vacant s.root domain project ids state.disk) :
    (∀ id ∈ ids,
      match s.deleteOne caller domain project id state with
      | .error _ state' => Unchanged state state'
      | .ok d state' => ∃ base, reach state.disk s.root = .ok base ∧
          Deleted base domain project [id] [d] state.disk state'.disk) ∧
    (match s.deleteMany caller domain project ids state with
      | .error _ state' => Unchanged state state'
      | .ok docs state' =>
        (∃ base, reach state.disk s.root = .ok base ∧
          Deleted base domain project ids docs state.disk state'.disk) ∧
        ∃ state'', ids.eraseDups.mapM (s.deleteOne caller domain project) state = .ok docs state'' ∧
          Same state'.disk state''.disk) ∧
    (ids ≠ [] →
      ((∃ docs state', s.deleteMany caller domain project ids state = .ok docs state') ↔
        ∀ id ∈ ids, ∃ d state', s.deleteOne caller domain project id state = .ok d state')) := by
  by_cases hviable : Names.checkScope domain project = .ok () ∧
      ∃ base, reach state.disk s.root = .ok base ∧ state.disk.kindAt? base = some .dir
  · obtain ⟨hscope, base, hbase, hdir⟩ := hviable
    have hscene := scene_of_anchored hdistinct hnamed hanchored hbase hdir hscope
    have hclear : ∀ id ∈ ids, ∀ n,
        state.disk.kindAt? (base ++ aside domain project id ++ [n]) = none := fun id hid n =>
      kindAt?_eq_none_iff.mpr (hvacant base hbase id hid n)
    have hone := fun id hid => deleteOne_spec caller hscene hscope (hclear id hid)
    have hmany := deleteMany_spec caller hscene hscope hclear
    refine ⟨fun id hid => ?_, ?_, fun hne => ?_⟩
    · rcases hone id hid with ⟨-, d, state', -, hok, hdeleted⟩ | ⟨-, failure, state', herror, hsame⟩
      · rw [hok]
        exact ⟨base, hbase, hdeleted⟩
      · rw [herror]
        exact hsame
    · rcases hmany with ⟨-, -, docs, state', -, hok, hdeleted, hturn⟩ |
        ⟨-, failure, state', herror, hsame⟩
      · rw [hok]
        exact ⟨⟨base, hbase, hdeleted⟩, hturn⟩
      · rw [herror]
        exact hsame
    · rw [deleteMany_ok_iff caller hscene hscope hclear hne]
      refine forall₂_congr ?_
      intro id hid
      rw [deleteOne_ok_iff caller hscene hscope (hclear id hid)]
  · have hone := fun id => (delete_hopeless caller hviable id ids).1
    obtain ⟨failure, hmany⟩ := (delete_hopeless caller hviable "" ids).2
    refine ⟨fun id _ => ?_, ?_, fun hne => iff_of_false ?_ fun hall => ?_⟩
    · obtain ⟨failure, herror⟩ := hone id
      rw [herror]
      exact .refl state
    · rw [hmany]
      exact .refl state
    · rintro ⟨docs, state', hok⟩
      rw [hmany] at hok
      cases hok
    · obtain ⟨id, hid⟩ := List.exists_mem_of_ne_nil ids hne
      obtain ⟨d, state', hok⟩ := hall id hid
      obtain ⟨failure, herror⟩ := hone id
      rw [herror] at hok
      cases hok

/-- A document for the trees below. -/
def storedSample : Document :=
  { id := "i", domain := "d", project := "p", key := "k", value := "1", updateRevision := 1 }

/-- A store with two documents, one of which holds nothing. -/
def damagedDisk (held : Bytes) : Node :=
  .dir [("r", .dir [("d", .dir [("p", .dir [("i", .dir [(Layout.newestName, .file held)]),
    ("j", .dir [(Layout.newestName, .file [])])])])])]

/-- The tree while the other document is put aside: what its directory holds, and what the directory
does into which its files are moved. -/
def partedDisk (here there : List (String × Node)) : Node :=
  .dir [("r", .dir [("d", .dir [("p", .dir [("i", .dir here),
      ("j", .dir [(Layout.newestName, .file [])])])]),
    ("tmp", .dir [("d", .dir [("p", .dir [("i", .dir there)])])])])]

/-- The store at these trees. -/
def damaged : Store := ⟨⟨["r"]⟩, .allowAll, 100⟩

theorem stage_damaged {held : Bytes} {d : Document} (hdecode : Document.decode held = .ok d) :
    stage damaged .anonymous "d" "p" "i" (damagedDisk held)
      = .ok d (partedDisk [] [(Layout.newestName, .file held)]) := by
  have hread :
      readFile (damagedDisk held) (Layout.newest damaged.root "d" "p" "i") = .ok held := rfl
  have hentries : Disk.entries (damagedDisk held) (damaged.root.descend (home "d" "p" "i"))
      = .ok [(Layout.newestName, .file held)] := rfl
  have hensure : Files.ensureDir (damaged.root.descend (aside "d" "p" "i")) (damagedDisk held)
      = .ok () (partedDisk [(Layout.newestName, .file held)] []) := rfl
  have hrename : rename ((damaged.root.descend (home "d" "p" "i")).join Layout.newestName)
      ((damaged.root.descend (aside "d" "p" "i")).join Layout.newestName)
      (partedDisk [(Layout.newestName, .file held)] [])
        = .ok (partedDisk [] [(Layout.newestName, .file held)]) := rfl
  have hstaged : Files.read ((Layout.tmpDocumentDir damaged.root "d" "p" "i").join
      Layout.newestName) (partedDisk [] [(Layout.newestName, .file held)])
        = .ok held (partedDisk [] [(Layout.newestName, .file held)]) := rfl
  rw [stage_eq _ hread, Files.moveDir_eq hentries hensure, List.map_cons,
    Files.moveEach_cons hrename]
  simp only [List.map_nil, Files.moveEach, pure, EStateM.pure, readStaged, bind, EStateM.bind,
    hstaged, hdecode]
  rfl

theorem deleteMany_damaged {held : Bytes} {d : Document} (hdecode : Document.decode held = .ok d) :
    ∃ state', damaged.deleteMany .anonymous "d" "p" ["i", "i"] ⟨damagedDisk held, none⟩
      = .ok [d] state' := by
  have hids : ["i", "i"].eraseDups = ["i"] := by decide
  rw [deleteMany_eq .anonymous rfl (by decide) (by decide), hids, stageEach_cons,
    stage_damaged hdecode]
  exact ⟨_, rfl⟩

theorem deletion_all_or_nothing_damaged :
    (damagedDisk storedSample.encode).Distinct ∧ WellNamed (damagedDisk storedSample.encode) ∧
      Anchored damaged.root (damagedDisk storedSample.encode) ∧
      Vacant damaged.root "d" "p" ["i", "j", "i"] (damagedDisk storedSample.encode) ∧
      (∃ state', damaged.deleteMany .anonymous "d" "p" ["i", "i"]
          ⟨damagedDisk storedSample.encode, none⟩ = .ok [storedSample] state' ∧
        ∃ base, reach (damagedDisk storedSample.encode) damaged.root = .ok base ∧
          Deleted base "d" "p" ["i", "i"] [storedSample] (damagedDisk storedSample.encode)
            state'.disk) ∧
      (∃ failure state', damaged.deleteMany .anonymous "d" "p" ["i", "j", "i"]
          ⟨damagedDisk storedSample.encode, none⟩ = .error failure state' ∧
        Unchanged ⟨damagedDisk storedSample.encode, none⟩ state') ∧
      ((∃ docs state', damaged.deleteMany .anonymous "d" "p" ["i", "j", "i"]
          ⟨damagedDisk storedSample.encode, none⟩ = .ok docs state') ↔
        ∀ id ∈ ["i", "j", "i"], ∃ d state', damaged.deleteOne .anonymous "d" "p" id
          ⟨damagedDisk storedSample.encode, none⟩ = .ok d state') := by
  have hdecode := Document.decode_encode storedSample
  generalize storedSample.encode = held at hdecode ⊢
  obtain ⟨hdistinct, hnamed⟩ : (damagedDisk held).Distinct ∧ WellNamed (damagedDisk held) :=
    (isProper_iff _).mp rfl
  have hreach : reach (damagedDisk held) damaged.root = .ok ["r"] := rfl
  have hanchored : Anchored damaged.root (damagedDisk held) :=
    anchored_of_not_mem hdistinct (by decide)
  have hvacant : ∀ ids, Vacant damaged.root "d" "p" ids (damagedDisk held) := by
    intro ids base hbase id hid name
    cases hreach.symm.trans hbase
    rfl
  refine ⟨hdistinct, hnamed, hanchored, hvacant _, ?_, ?_⟩
  · obtain ⟨state', hok⟩ := deleteMany_damaged hdecode
    have hall := (deletion_all_or_nothing damaged .anonymous "d" "p" ["i", "i"]
      ⟨damagedDisk held, none⟩ hdistinct hnamed hanchored (hvacant _)).2.1
    rw [hok] at hall
    exact ⟨state', hok, hall.1⟩
  · obtain ⟨-, hall, hiff⟩ := deletion_all_or_nothing damaged .anonymous "d" "p" ["i", "j", "i"]
      ⟨damagedDisk held, none⟩ hdistinct hnamed hanchored (hvacant _)
    refine ⟨?_, hiff (by decide)⟩
    split at hall
    next failure state' herror => exact ⟨failure, state', herror, hall⟩
    next docs state' hok =>
      -- the second document would have been read
      obtain ⟨⟨base, hbase, hdeleted⟩, -⟩ := hall
      cases hreach.symm.trans hbase
      obtain ⟨d, -, content, hcontent, hd⟩ := exists_of_forall₂ hdeleted.heads
        (show "j" ∈ ["i", "j", "i"].eraseDups by decide)
      cases hcontent
      cases hd

end Store

end ConfigStore
