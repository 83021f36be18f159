import ConfigStore.Proofs.Session.FailedWrites
import ConfigStore.Proofs.Store.Coinciding

/-!
# Moving a counter on, seen from the documents

A counter that is moved on is a file in the directory of its domain. If the name of the domain is
one name of a path, nothing else changes but that directory, which may have been added; so whatever
is asked about documents is answered as before, with two exceptions: a project that has the name of
counters, and one whose name no directory takes, which is noticed only where there is a directory.
The name of the domain is not checked, so it may be any path, and then nothing of this is true.

* `Counter.advance_coincides` says which projects are the same before and after.
* `Request.scope?` is the scope of a request that only looks at documents, and
  `Store.Beside.parallel_answer` says that it is answered alike in two trees.
* `Session.run_advance_aside` is the result, and `Session.advance_astray` shows what other names do.
-/

namespace ConfigStore

open Node Disk Files

variable {disk made : Node} {root : Path} {base : Place} {domain project owner name : String}

/-! ## The tree -/

namespace Disk.Coincides

/-- Directories that were added on the way to a domain leave all projects as they are. -/
theorem of_paved (hpaved : Paved root base [owner] disk made)
    (hshort : domain = owner → isTooLong project = false) :
    Coincides base domain project disk made where
  same := by
    by_cases hnone : disk.kindAt? (base ++ [domain, project]) = none
    · have hmade : made.kindAt? (base ++ [domain, project]) = none := by
        rw [hpaved.deepened.fresh _ (by simp), hnone]
      rw [kindAt?_eq_none_iff.mp hnone, kindAt?_eq_none_iff.mp hmade]
    · exact hpaved.deepened.same _ hnone (by simp)
  way := by
    by_cases howner : domain = owner
    · by_cases hnone : disk.kindAt? (base ++ [domain]) = none
      · by_cases hmade : made.kindAt? (base ++ [domain]) = none
        · exact .inl (hmade.trans hnone.symm)
        · exact .inr ⟨hnone, (hpaved.grown.added _ hnone hmade).1, hshort howner⟩
      · exact .inl (hpaved.grown.kept _ hnone)
    · refine .inl (hpaved.grown.eq_of_not_above fun hle => howner ?_)
      have hle' := (List.prefix_append_right_inj base).mp hle
      exact (List.cons_prefix_cons.mp hle').1

/-- A file in the directory of a domain leaves all projects as they are, except one of that name. -/
theorem put_file (h : Coincides base domain project disk made) (hd : made.Distinct)
    (hreceives : Receives root base [owner] name made) (content : Bytes)
    (hne : (domain, project) ≠ (owner, name)) :
    Coincides base domain project disk (made.put (base ++ [owner] ++ [name]) (.file content)) := by
  have hplace : base ++ [owner] ++ [name] ≠ base ++ [domain, project] := by
    simpa [eq_comm] using hne
  have hkind : (made.put (base ++ [owner] ++ [name]) (.file content)).kindAt? (base ++ [domain])
      = made.kindAt? (base ++ [domain]) := by
    rw [hreceives.kindAt?_put hd, if_neg (by simp)]
  constructor
  · rw [← h.same]
    refine at?_alter_of_apart hd (fun hle => hplace ?_) fun hle => hplace ?_
    · exact hle.eq_of_length (by simp)
    · exact (hle.eq_of_length (by simp)).symm
  · rw [hkind]
    exact h.way

end Disk.Coincides

/-- What is not below the directory of a store does not change if something is added below it. -/
theorem Disk.Grown.eq_outside {upto q : Place} (h : Grown upto disk made)
    (hdir : disk.kindAt? base = some .dir) (hupto : base <+: upto) (hq : ¬base <+: q) :
    made.kindAt? q = disk.kindAt? q := by
  by_cases hle : q <+: upto
  · have habove : q <+: base := (List.prefix_or_prefix_of_prefix hle hupto).resolve_right hq
    have hqdir := kindAt?_eq_dir_above habove hdir
    rw [hqdir, h.dir hqdir]
  · exact h.eq_of_not_above hle

/-- When a counter is moved on, whether or not it succeeds, everything outside the directory of the
store stays as it is, and so do all projects but the two that are named above. -/
theorem Counter.advance_coincides (hg : Grounded root base disk) (howner : IsPiece owner) :
    EndsIn (fun disk' => (∀ q, ¬base <+: q → disk'.kindAt? q = disk.kindAt? q) ∧
        ∀ domain project,
          (domain = owner → project ≠ Layout.counterName ∧ isTooLong project = false) →
            Coincides base domain project disk disk')
      (Counter.advance root owner) disk := by
  obtain ⟨made, hpaved, hend⟩ := Counter.advance_outcome hg howner
  have houtside : ∀ q, ¬base <+: q → made.kindAt? q = disk.kindAt? q := fun q hq =>
    hpaved.grown.eq_outside hg.isDir (List.prefix_append _ _) hq
  rcases hend with ⟨failure, herror⟩ | ⟨n, hreceives, hok⟩
  · exact .of_error failure herror
      ⟨houtside, fun domain project hproject => .of_paved hpaved fun h => (hproject h).2⟩
  · refine .of_ok n hok ⟨fun q hq => ?_, fun domain project hproject => ?_⟩
    · rw [hreceives.kindAt?_put hpaved.grown.distinct, if_neg, houtside q hq]
      rintro rfl
      exact hq ((List.prefix_append base [owner]).trans (List.prefix_append _ _))
    · refine Coincides.put_file (.of_paved hpaved fun h => (hproject h).2)
        hpaved.grown.distinct hreceives _ ?_
      rintro ⟨⟩
      exact (hproject rfl).1 rfl

/-! ## Requests -/

/-- The scope of a request that only looks at documents. -/
def Request.scope? : Request → Option (String × String)
  | .get _ domain project _ => some (domain, project)
  | .history _ domain project .. => some (domain, project)
  | .list _ domain project _ => some (domain, project)
  | .holdsKey domain project .. => some (domain, project)
  | .getByKey domain project .. => some (domain, project)
  | .total domain project => some (domain, project)
  | _ => none

namespace Store

variable {s : Store} {disk' : Node} {request : Request}

/-- A request that only looks at documents of a project that is the same in two trees is answered
alike. -/
theorem Beside.parallel_answer (h : Beside s.root base domain project disk disk')
    (hscope : request.scope? = some (domain, project)) :
    Parallel (s.answer request) disk disk' := by
  have halike : ∀ {id : String}, Names.checkScope domain project = .ok () →
      Names.checkId id = .ok () → Alike s.root domain project id disk disk' := fun hscope hid =>
    h.alike hscope (Names.isPiece_of_isPlain (Names.checkId_eq_ok_iff.mp hid))
  cases request with
  | get caller domain' project' id =>
    cases hscope
    have hget : Parallel (s.get caller domain project id) disk disk' :=
      .of_concurs fun _ => concurs_get halike caller
    exact hget.map _
  | history caller domain' project' id offset limit =>
    cases hscope
    have hhistory : Parallel (s.history caller domain project id offset limit) disk disk' :=
      .of_concurs fun _ => concurs_history halike caller offset limit
    exact hhistory.map _
  | list caller domain' project' query =>
    cases hscope
    exact ((h.parallel_find query).bind fun _ => .pure _).map _
  | holdsKey domain' project' key query =>
    cases hscope
    refine Parallel.map ((h.parallel_find (keyQuery key query)).bind fun docs => ?_) _
    split
    · exact .pure _
    · exact .guarded (.pure _)
  | getByKey domain' project' key query =>
    cases hscope
    exact ((h.parallel_find (keyQuery key query)).bind fun docs =>
      .guarded (.guarded (.pure _))).map _
  | total domain' project' =>
    cases hscope
    exact h.parallel_total.map _
  | _ => cases hscope

end Store

namespace Session

variable {session before after : Session} {settings : Settings} {steps : List Step}
  {request : Request}

theorem call_parallel (hstore : after.store = before.store)
    (hcache : after.state.cache = before.state.cache)
    (h : Store.Parallel (before.store.answer request) before.state.disk after.state.disk) :
    (after.call request).1 = (before.call request).1 := by
  obtain ⟨result, cache', hbefore, hafter⟩ := h before.state.cache
  rw [← hcache] at hafter
  have hstate : (⟨after.state.disk, after.state.cache⟩ : StoreState) = after.state := rfl
  have hstate' : (⟨before.state.disk, before.state.cache⟩ : StoreState) = before.state := rfl
  rw [hstate] at hafter
  rw [hstate'] at hbefore
  rw [call, call, hstore, hbefore, hafter]
  cases result <;> rfl

/-- To move a counter on changes the tree and nothing else. -/
theorem call_advance_endsIn {P : Node → Prop}
    (h : EndsIn P (Counter.advance before.store.root owner) before.state.disk) :
    ∃ disk', (before.call (.advance owner)).2
      = { before with state := { before.state with disk := disk' } } ∧ P disk' := by
  obtain ⟨disk', ⟨n, hok⟩ | ⟨failure, herror⟩, hP⟩ := h
  · exact ⟨disk', by rw [call_of_disk_ok rfl hok], hP⟩
  · exact ⟨disk', by rw [call_of_disk_error rfl herror], hP⟩

/-- **A counter stays in its place.** After any run that starts where nothing is, when a counter is
moved on whose domain has one name of a path, nothing changes outside the directory of the store,
and what is asked about documents is answered as before, unless the project is one that has the name
of counters, or a name that no directory takes, in that domain. -/
theorem run_advance_aside (h : session.Fresh settings)
    (hsteps : ∀ step ∈ steps, step.At settings.root) (howner : IsPiece owner)
    (hbefore : (session.run steps).2 = before) (hafter : (before.call (.advance owner)).2 = after) :
    (∃ base, Leads settings.root base before.state.disk ∧
      ∀ q, ¬base <+: q → after.state.disk.kindAt? q = before.state.disk.kindAt? q) ∧
    ∀ domain project,
      (domain = owner → project ≠ Layout.counterName ∧ isTooLong project = false) →
        ∀ request : Request, request.scope? = some (domain, project) →
          (after.call request).1 = (before.call request).1 := by
  obtain ⟨base, htidy⟩ := h.tidy
  have hreached : before.Tidy settings.root base := hbefore ▸ run_tidy htidy hsteps
  have hmoved : after.Tidy settings.root base :=
    hafter ▸ step_tidy (s := .call (.advance owner)) hreached trivial
  obtain ⟨disk', hcall, houtside, hprojects⟩ := call_advance_endsIn
    (Counter.advance_coincides (hreached.root_eq ▸ hreached.holds.grounded) howner)
  rw [hafter] at hcall
  subst hcall
  refine ⟨⟨base, hreached.holds.grounded.leads, houtside⟩,
    fun domain project hproject request hscope => ?_⟩
  have hbeside : Store.Beside before.store.root base domain project before.state.disk disk' := by
    rw [hreached.root_eq]
    exact ⟨⟨hreached.holds.grounded, hreached.holds.named⟩,
      ⟨hmoved.holds.grounded, hmoved.holds.named⟩, hprojects domain project hproject⟩
  exact call_parallel rfl rfl (hbeside.parallel_answer hscope)

/-- The document of the run below is created, and then the counter of its domain is moved on. -/
theorem run_advance_aside_sample :
    sample.Fresh sampleSettings ∧
      (∀ step ∈ [Step.call (.create .anonymous sampleDocument)], step.At sampleSettings.root) ∧
      IsPiece "shop" ∧
      ("shop" = "shop" → "web" ≠ Layout.counterName ∧ isTooLong "web" = false) ∧
      ((((sample.run [.call (.create .anonymous sampleDocument)]).2.call (.advance "shop")).2).call
          (.get .anonymous "shop" "web" "timeout")).1
        = ((sample.run [.call (.create .anonymous sampleDocument)]).2.call
          (.get .anonymous "shop" "web" "timeout")).1 := by
  have hsteps : ∀ step ∈ [Step.call (.create .anonymous sampleDocument)],
      step.At sampleSettings.root := List.forall_mem_singleton.mpr trivial
  have howner : IsPiece "shop" := IsName.toIsPiece (by decide)
  have hproject : "shop" = "shop" → "web" ≠ Layout.counterName ∧ isTooLong "web" = false :=
    fun _ => ⟨by decide, by decide⟩
  exact ⟨sample_fresh, hsteps, howner, hproject,
    (run_advance_aside sample_fresh hsteps howner rfl rfl).2 "shop" "web" hproject
      (.get .anonymous "shop" "web" "timeout") rfl⟩

/-- A name that is a path is not refused: the counter is written outside the directory of the store,
or its directory is counted among the documents of a project. A name that is no path makes two
scopes of its domain fail that were empty before. -/
theorem advance_astray :
    sample.Fresh sampleSettings ∧ Leads sampleSettings.root ["kvs"] sample.state.disk ∧
      sample.state.disk.content? ["shop", "revision"] = none ∧
      (sample.call (.advance "../shop")).2.state.disk.content? ["shop", "revision"]
        = some (Utf8.encode "1") ∧
      (sample.call (.total "shop" "web")).1 = .ok (.count 0) ∧
      ((sample.call (.advance "shop/web/timeout")).2.call (.total "shop" "web")).1
        = .ok (.count 1) ∧
      (sample.call (.total "shop" "revision")).1 = .ok (.count 0) ∧
      (∃ failure, ((sample.call (.advance "shop")).2.call (.total "shop" "revision")).1
        = .error failure) :=
  ⟨sample_fresh, rfl, rfl, rfl, rfl, rfl, rfl, _, rfl⟩

end Session

end ConfigStore
