import ConfigStore.Proofs.Files.Looking
import ConfigStore.Proofs.Store.Staging

/-!
# Deletion is all or nothing

Staging a document succeeds if and only if the document is deletable in the tree as it was before
the first document was staged, so neither the order of the documents nor what has happened to other
documents matters.

* `Deletion.Deletable` says what it takes to delete a document.
* `Deletion.stage_outcome` stages one document, `Deletion.stageEach_outcome` several.
* `Deletion.commitEach_bench` removes what was staged.
-/

namespace ConfigStore.Deletion

open Node Disk

variable {s : Store} (caller : Caller) {base : Place} {domain project id : String}
  {disk disk' : Node} {phase : String → Phase}

/-! ## One document -/

/-- A document that the caller may delete and that can be moved aside; `d` is its newest copy. -/
def Deletable (s : Store) (caller : Caller) (base : Place) (domain project : String) (disk : Node)
    (id : String) (d : Document) : Prop :=
  ∃ content, Stageable s.root base domain project id content disk ∧
    Document.decode content = .ok d ∧ authorize s.policy caller .delete d.labels = .ok ()

theorem Deletable.stageable {caller : Caller} {d : Document}
    (h : Deletable s caller base domain project disk id d) :
    ∃ content, Stageable s.root base domain project id content disk :=
  h.imp fun _ h => h.1

theorem Deletable.authorized {caller : Caller} {d : Document}
    (h : Deletable s caller base domain project disk id d) :
    authorize s.policy caller .delete d.labels = .ok () := by
  obtain ⟨content, -, -, hauthorized⟩ := h
  exact hauthorized

/-- The content of a document that can be moved aside says whether it is deletable. -/
theorem deletable_iff {caller : Caller} {content : Bytes}
    (hstage : Stageable s.root base domain project id content disk) (d : Document) :
    Deletable s caller base domain project disk id d ↔
      Document.decode content = .ok d ∧ authorize s.policy caller .delete d.labels = .ok () := by
  refine ⟨?_, fun h => ⟨content, hstage, h⟩⟩
  rintro ⟨content', hstage', h⟩
  cases hstage'.newest.symm.trans hstage.newest
  exact h

theorem Deletable.unique {caller : Caller} {d d' : Document}
    (h : Deletable s caller base domain project disk id d)
    (h' : Deletable s caller base domain project disk id d') : d = d' := by
  obtain ⟨content, hstage, hdecode, -⟩ := h
  have hdecode' := ((deletable_iff hstage d').mp h').1
  exact Except.ok.inj (hdecode.symm.trans hdecode')

/-- Fixed facts about the scope of a deletion and about the tree before it. -/
structure Scene (root : Path) (base : Place) (domain project : String) (disk : Node) : Prop where
  grounded : Grounded root base disk
  named : WellNamedIn base domain project disk
  domainPiece : IsPiece domain
  projectPiece : IsPiece project
  notTmp : domain ≠ Layout.tmpName

/-- A document that has just been moved aside is read from there. -/
theorem readStaged_eq {content : Bytes} (hg : Grounded s.root base disk')
    (hnames : ∀ n ∈ aside domain project id, IsName n)
    (hdir : disk'.kindAt? (base ++ aside domain project id) = some .dir)
    (htext : checkText ((s.root.descend (aside domain project id)).join Layout.newestName) = .ok ())
    (hfile : disk'.kindAt? (base ++ aside domain project id ++ [Layout.newestName])
      = some (.file content)) :
    readStaged s caller domain project id disk' =
      match Document.decode content with
      | .error _ => .error (.undecodable (domain ++ "/" ++ project ++ "/" ++ id)) disk'
      | .ok d =>
        match authorize s.policy caller .delete d.labels with
        | .error failure => .error failure disk'
        | .ok () => .ok d disk' := by
  have hread := readFile_join (hg.leads.descend hnames hdir) hdir Layout.isName_newestName htext
    hfile
  simp only [readStaged, bind, EStateM.bind, Files.read, Files.look, tmpDocumentDir_eq, hread]
  cases Document.decode content with
  | error fault => rfl
  | ok d =>
    cases hauthorize : authorize s.policy caller .delete d.labels with
    | error failure => simp only [hauthorize, require]; rfl
    | ok u => simp only [hauthorize, require]; rfl

/-- A document whose newest copy cannot be read is not moved. -/
theorem stage_unread {refusal : Refusal}
    (h : readFile disk' (Layout.newest s.root domain project id) = .error refusal) :
    ∃ failure, stage s caller domain project id disk' = .error failure disk' := by
  by_cases hmissing : refusal = .notFound
  · subst hmissing
    exact ⟨_, by simp only [stage, bind, EStateM.bind, Files.read?_of_notFound h]; rfl⟩
  · refine ⟨.disk (.read (Layout.newest s.root domain project id)) refusal, ?_⟩
    simp only [stage, bind, EStateM.bind, Files.read?_of_error h hmissing]

theorem stage_eq {content : Bytes}
    (h : readFile disk' (Layout.newest s.root domain project id) = .ok content) :
    stage s caller domain project id disk' =
      match Files.moveDir (s.root.descend (home domain project id))
        (s.root.descend (aside domain project id)) disk' with
      | .error failure disk => .error failure disk
      | .ok _ disk =>
        match readStaged s caller domain project id disk with
        | .ok d disk => .ok d disk
        | .error failure disk => .error failure (unstage s.root domain project id disk) := by
  simp only [stage, bind, EStateM.bind, Files.read?_of_ok h, documentDir_eq, tmpDocumentDir_eq]
  cases Files.moveDir (s.root.descend (home domain project id))
    (s.root.descend (aside domain project id)) disk' <;> rfl

/-- A document is moved aside if it is deletable; otherwise it stays, or is moved back. -/
theorem stage_outcome (h : Bench base domain project disk phase disk')
    (hscene : Scene s.root base domain project disk) (hid : IsPiece id)
    (hhome : (phase id).AtHome)
    (hclear : ∀ n, disk.kindAt? (base ++ aside domain project id ++ [n]) = none) :
    (∃ d, Deletable s caller base domain project disk id d ∧ ∃ disk'',
        stage s caller domain project id disk' = .ok d disk'' ∧
        Bench base domain project disk (Function.update phase id .staged) disk'') ∨
      (¬∃ d, Deletable s caller base domain project disk id d) ∧ ∃ failure disk'',
        stage s caller domain project id disk' = .error failure disk'' ∧
        Bench base domain project disk (Function.update phase id .returned) disk'' := by
  obtain ⟨hg, hnamed, hdomain, hproject, hnotTmp⟩ := hscene
  have hg' := h.grounded hg
  obtain ⟨hs, hfile, ht⟩ := (h.phases id).returned hhome
  have hpieces : ∀ n ∈ home domain project id, IsPiece n := by
    intro n hn
    simp only [List.mem_cons, List.not_mem_nil, or_false] at hn
    rcases hn with rfl | rfl | rfl
    · exact hdomain
    · exact hproject
    · exact hid
  cases hread : readFile disk' (Layout.newest s.root domain project id) with
  | error refusal =>
    refine .inr ⟨?_, ?_⟩
    · rintro ⟨d, content, hstage, -⟩
      have hdir : disk'.kindAt? (base ++ home domain project id) = some .dir := by
        have := hs []
        rwa [List.append_nil, hstage.home_dir] at this
      have := readFile_join (hg'.leads.descend hstage.home_names hdir) hdir
        Layout.isName_newestName hstage.text ((hs _).trans hstage.newest)
      rw [Layout.newest, documentDir_eq, this] at hread
      cases hread
    · obtain ⟨failure, hfailure⟩ := stage_unread caller hread
      exact ⟨failure, disk', hfailure, h.rename hhome⟩
  | ok content =>
    obtain ⟨hnames, htext, hnewest⟩ := readFile_inv hg'.leads hpieces
      Layout.isName_newestName.toIsPiece hread
    rw [hs] at hnewest
    have hhomeNames : ∀ n ∈ home domain project id, IsName n := fun n hn =>
      hnames n (List.mem_append_left _ hn)
    have hasideNames : ∀ n ∈ aside domain project id, IsName n := by
      intro n hn
      rcases List.mem_cons.mp hn with rfl | hn
      · exact Layout.isName_tmpName
      · exact hhomeNames n hn
    have hsdir : disk'.kindAt? (base ++ home domain project id) = some .dir :=
      kindAt?_eq_dir_of_append (List.cons_ne_nil _ []) (by rw [hs, hnewest]; simp)
    rw [stage_eq caller hread]
    rcases Files.moveDir_outcome hg' hhomeNames hasideNames (List.cons_ne_nil _ _)
        (checkText_of_join Layout.isName_newestName.toIsPiece htext) hsdir
        (by simpa only [List.append_nil] using not_home_aside hnotTmp [])
        (by simpa only [List.append_nil] using not_aside_home hnotTmp [])
        (fun n hn => hnamed _ n (by rwa [hs] at hn)) (fun n => by rw [ht, hclear]) with
      ⟨hmovable, disk₁, hmove, hmoved⟩ | ⟨hnot, failure, disk₁, hmove, hgrown⟩
    · have hstage : Stageable s.root base domain project id content disk :=
        ⟨hnames, htext, hnewest, (h.movable_iff hhome).mp hmovable⟩
      have hbench := h.of_moved hnotTmp hhome hstage hmoved
      have hcarry := hstage.movable.carriable Layout.newestName (by rw [hnewest]; simp)
      have hread := readStaged_eq caller (hbench.grounded hg) hasideNames
        hmoved.targetDir hcarry.target ((hmoved.target _ []).trans ((hs _).trans hnewest))
      have hback := hbench.unstage hg hnamed hnotTmp (Function.update_self ..) hstage hclear
      rw [Function.update_idem] at hback
      simp only [hmove, hread]
      cases hdecode : Document.decode content with
      | error fault =>
        refine .inr ⟨?_, _, _, rfl, hback⟩
        rintro ⟨d, hd⟩
        have hdecode' := ((deletable_iff hstage d).mp hd).1
        rw [hdecode] at hdecode'
        cases hdecode'
      | ok d =>
        cases hauthorize : authorize s.policy caller .delete d.labels with
        | error failure =>
          refine .inr ⟨?_, failure, _, by simp only [hauthorize], hback⟩
          rintro ⟨d', hd⟩
          obtain ⟨hdecode', hauthorize'⟩ := (deletable_iff hstage d').mp hd
          cases hdecode.symm.trans hdecode'
          rw [hauthorize] at hauthorize'
          cases hauthorize'
        | ok u =>
          exact .inl ⟨d, (deletable_iff hstage d).mpr ⟨hdecode, hauthorize⟩, disk₁,
            by simp only [hauthorize], hbench⟩
    · refine .inr ⟨?_, failure, disk₁, by rw [hmove], h.of_grown hnotTmp hhome hgrown⟩
      rintro ⟨d, content', hstage, -⟩
      exact hnot ((h.movable_iff hhome).mpr hstage.movable)

/-! ## Several documents -/

/-- Documents that were staged are all moved back. -/
theorem unstageEach_bench {ids : List String} (h : Bench base domain project disk phase disk')
    (hscene : Scene s.root base domain project disk) (hnodup : ids.Nodup)
    (hstaged : ∀ id ∈ ids, phase id = .staged ∧
      ∃ content, Stageable s.root base domain project id content disk)
    (hrest : ∀ id ∉ ids, (phase id).AtHome)
    (hclear : ∀ id ∈ ids, ∀ n, disk.kindAt? (base ++ aside domain project id ++ [n]) = none) :
    ∃ phase', (∀ id, (phase' id).AtHome) ∧ Bench base domain project disk phase'
      (ids.foldl (fun disk id => unstage s.root domain project id disk) disk') := by
  induction ids generalizing disk' phase with
  | nil => exact ⟨phase, fun id => hrest id List.not_mem_nil, h⟩
  | cons id ids ih =>
    obtain ⟨hid, hnodup⟩ := List.nodup_cons.mp hnodup
    obtain ⟨hphase, content, hstage⟩ := hstaged id (List.mem_cons_self ..)
    have hstep := h.unstage hscene.grounded hscene.named hscene.notTmp hphase hstage
      (hclear id (List.mem_cons_self ..))
    refine ih hstep hnodup (fun other hother => ?_) (fun other hother => ?_) fun other hother =>
      hclear other (List.mem_cons_of_mem _ hother)
    · rw [Function.update_of_ne (ne_of_mem_of_not_mem hother hid)]
      exact hstaged other (List.mem_cons_of_mem _ hother)
    · exact Phase.atHome_update trivial fun heq => hrest other (by simp [heq, hother])

theorem stageEach_cons (staged : List String) (ids : List String) :
    stageEach s caller domain project staged (id :: ids) disk =
      match stage s caller domain project id disk with
      | .error failure disk =>
        .error failure (staged.foldl (fun disk id => unstage s.root domain project id disk) disk)
      | .ok d disk =>
        match stageEach s caller domain project (staged ++ [id]) ids disk with
        | .error failure disk => .error failure disk
        | .ok docs disk => .ok (d :: docs) disk := by
  rfl

/-- All documents are staged, or all are where they were. -/
theorem stageEach_outcome {staged ids : List String}
    (h : Bench base domain project disk phase disk')
    (hscene : Scene s.root base domain project disk) (hids : ∀ id ∈ ids, IsPiece id)
    (hnodup : (staged ++ ids).Nodup)
    (hstaged : ∀ id ∈ staged, phase id = .staged ∧
      ∃ content, Stageable s.root base domain project id content disk)
    (hrest : ∀ id ∉ staged, (phase id).AtHome)
    (hclear : ∀ id ∈ staged ++ ids, ∀ n,
      disk.kindAt? (base ++ aside domain project id ++ [n]) = none) :
    (∃ docs disk'' phase', stageEach s caller domain project staged ids disk' = .ok docs disk'' ∧
        List.Forall₂ (Deletable s caller base domain project disk) ids docs ∧
        (∀ id ∈ ids, phase' id = .staged) ∧ (∀ id ∉ ids, phase' id = phase id) ∧
        Bench base domain project disk phase' disk'') ∨
      (∃ id ∈ ids, ¬∃ d, Deletable s caller base domain project disk id d) ∧
        ∃ failure disk'' phase',
          stageEach s caller domain project staged ids disk' = .error failure disk'' ∧
          (∀ id, (phase' id).AtHome) ∧ Bench base domain project disk phase' disk'' := by
  induction ids generalizing staged disk' phase with
  | nil =>
    exact .inl ⟨[], disk', phase, rfl, .nil, fun _ hid => absurd hid List.not_mem_nil,
      fun _ _ => rfl, h⟩
  | cons id ids ih =>
    obtain ⟨hnodup₁, hnodup₂, hapart⟩ := List.nodup_append.mp hnodup
    have hfresh : id ∉ staged := fun hmem => hapart id hmem id (List.mem_cons_self ..) rfl
    have hrest' : ∀ other ∉ staged,
        (Function.update phase id .returned other).AtHome := fun other hother =>
      Phase.atHome_update trivial fun _ => hrest other hother
    rcases stage_outcome caller h hscene (hids id (List.mem_cons_self ..))
        (hrest id hfresh) (hclear id (by simp)) with
      ⟨d, hd, disk₁, hok, hbench⟩ | ⟨hnot, failure, disk₁, herror, hbench⟩
    · have hsplit : staged ++ id :: ids = staged ++ [id] ++ ids := by simp
      rw [hsplit] at hnodup hclear
      have hids' : ∀ other ∈ ids, IsPiece other :=
        fun other hother => hids other (List.mem_cons_of_mem _ hother)
      have hstep := ih hbench hids' hnodup (fun other hother => ?_) (fun other hother => ?_) hclear
      · rcases hstep with ⟨docs, disk'', phase', hok', hdocs, hin, hout, hbench'⟩ |
          ⟨⟨other, hother, hnot⟩, failure, disk'', phase', herror, hend⟩
        · refine .inl ⟨d :: docs, disk'', phase', ?_, .cons hd hdocs, fun other hother => ?_,
            fun other hother => ?_, hbench'⟩
          · rw [stageEach_cons, hok]
            simp only [hok']
          · rcases List.mem_cons.mp hother with rfl | hother
            · rw [hout _ (List.nodup_cons.mp hnodup₂).1, Function.update_self]
            · exact hin other hother
          · rw [List.mem_cons, not_or] at hother
            rw [hout other hother.2, Function.update_of_ne hother.1]
        · refine .inr ⟨⟨other, List.mem_cons_of_mem _ hother, hnot⟩, failure, disk'', phase', ?_,
            hend⟩
          rw [stageEach_cons, hok]
          simp only [herror]
      · by_cases heq : other = id
        · subst heq
          obtain ⟨content, hstage, -⟩ := hd
          exact ⟨Function.update_self .., content, hstage⟩
        · rw [Function.update_of_ne heq]
          exact hstaged other (by simpa [heq] using hother)
      · rw [List.mem_append, List.mem_singleton, not_or] at hother
        rw [Function.update_of_ne hother.2]
        exact hrest other hother.1
    · obtain ⟨phase', hhome, hback⟩ := unstageEach_bench hbench hscene hnodup₁
        (fun other hother => by
          rw [Function.update_of_ne (ne_of_mem_of_not_mem hother hfresh)]
          exact hstaged other hother)
        hrest' fun other hother => hclear other (List.mem_append_left _ hother)
      refine .inr ⟨⟨id, List.mem_cons_self .., hnot⟩, failure, _, phase', ?_, hhome, hback⟩
      rw [stageEach_cons, herror]

/-- Documents that were staged are all removed. -/
theorem commitEach_bench {ids : List String} (h : Bench base domain project disk phase disk')
    (hscene : Scene s.root base domain project disk) (hnodup : ids.Nodup)
    (hstaged : ∀ id ∈ ids, phase id = .staged ∧
      ∃ content, Stageable s.root base domain project id content disk) :
    ∃ phase', (∀ id ∈ ids, phase' id = .removed) ∧ (∀ id ∉ ids, phase' id = phase id) ∧
      Bench base domain project disk phase' (commitEach s.root domain project ids disk') := by
  induction ids generalizing disk' phase with
  | nil => exact ⟨phase, fun _ hid => absurd hid List.not_mem_nil, fun _ _ => rfl, h⟩
  | cons id ids ih =>
    obtain ⟨hid, hnodup⟩ := List.nodup_cons.mp hnodup
    obtain ⟨hphase, content, hstage⟩ := hstaged id (List.mem_cons_self ..)
    have hstep := h.commit hscene.grounded hscene.named hscene.notTmp hphase hstage
    obtain ⟨phase', hin, hout, hbench⟩ := ih hstep hnodup fun other hother => by
      rw [Function.update_of_ne (ne_of_mem_of_not_mem hother hid)]
      exact hstaged other (List.mem_cons_of_mem _ hother)
    refine ⟨phase', fun other hother => ?_, fun other hother => ?_, hbench⟩
    · rcases List.mem_cons.mp hother with rfl | hother
      · rw [hout _ hid, Function.update_self]
      · exact hin other hother
    · rw [List.mem_cons, not_or] at hother
      rw [hout other hother.2, Function.update_of_ne hother.1]

end ConfigStore.Deletion
