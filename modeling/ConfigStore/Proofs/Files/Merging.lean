import ConfigStore.Proofs.Files.Moving

/-!
# Moving children onto what is there

The target of a move need not be empty: a child takes the place of a file or of an empty directory
of its name. If all children can be moved, they stand in the target as they stood in the source. If
one of them cannot be moved, the source gets back what it held, but what the target held under the
names of the children that had been moved is lost.

* `Files.Reverted` says that a directory has lost what it held under some names.
* `Files.moveEach_merge` moves all children, or gives them back.
* `Files.moveDir_merge` is the same for whole directories, with the directories that lead to the
  target.
-/

namespace ConfigStore.Files

open Node Disk

variable {source target : Path} {s t : Place} {disk disk' disk'' : Node} {name : String}
  {names : List String}

/-! ## Replacing what is there -/

/-- What may be replaced holds nothing. -/
theorem leaf_of_mayReplace {node : Node} {p : Place} (h : mayReplace node (disk.at? p) = .ok ())
    (next : String) (rest : Place) : disk.kindAt? (p ++ next :: rest) = none := by
  cases hnode : disk.at? p with
  | none => exact kindAt?_append_cons_eq_none (by simp [kindAt?, hnode]) next rest
  | some found =>
    cases found with
    | file content => exact kindAt?_append_cons_eq_none (by simp [kindAt?, hnode, kind]) next rest
    | dir entries =>
      rw [hnode, mayReplace] at h
      split at h
      · cases h
      · split at h
        next hempty =>
          rw [List.isEmpty_iff.mp hempty] at hnode
          rw [kindAt?_append, hnode]
          rfl
        · cases h

/-- A child is moved with all that it holds, or nothing happens. -/
theorem Docked.rename_outcome (hdock : Docked source target s t disk) (hname : IsName name) :
    (Carriable source target name ∧
        ∃ disk', Disk.rename (source.join name) (target.join name) disk = .ok disk' ∧
          Relocated (s ++ [name]) (t ++ [name]) disk disk') ∨
      ∃ refusal, Disk.rename (source.join name) (target.join name) disk = .error refusal := by
  obtain ⟨hleads, hleads'⟩ := hdock.leads_of_kept disk fun q hq _ _ => hq
  have happart : ¬s ++ [name] <+: t ++ [name] := hdock.symm.not_below_target _ _
  have hne : s ++ [name] ≠ t ++ [name] := fun h => happart (h ▸ List.prefix_refl _)
  have hprefix : (s ++ [name]).isPrefixOf (t ++ [name]) = false := by
    rw [← Bool.not_eq_true, List.isPrefixOf_iff_prefix]
    exact happart
  cases hs : checkText (source.join name) with
  | error refusal => exact .inr (rename_refused (.inl hs) disk)
  | ok _ =>
    cases ht : checkText (target.join name) with
    | error refusal => exact .inr (rename_refused (.inr ht) disk)
    | ok _ =>
      rw [Disk.rename, resolve_join hleads hdock.sourceDir hname hs,
        resolve_join hleads' hdock.targetDir hname ht]
      simp only [bind, Except.bind, if_neg hne, hprefix]
      cases hnode : disk.at? (s ++ [name]) with
      | none => exact .inr ⟨_, rfl⟩
      | some node =>
        cases hmay : mayReplace node (disk.at? (t ++ [name])) with
        | error refusal => exact .inr ⟨refusal, by simp [hmay]⟩
        | ok _ =>
          refine .inl ⟨⟨hs, ht⟩, (disk.erase (s ++ [name])).put (t ++ [name]) node,
            by simp [hmay], ?_⟩
          exact relocated_put_erase hdock.distinct hnode (by simp) hdock.targetDir rfl
            (leaf_of_mayReplace hmay) happart

/-! ## Losing what was there -/

/-- Under some names, a directory holds nothing any more; everything else is as it was. -/
structure Reverted (t : Place) (lost : List String) (disk disk' : Node) : Prop where
  distinct : disk'.Distinct
  gone : ∀ n ∈ lost, ∀ q, disk'.kindAt? (t ++ n :: q) = none
  frame : ∀ q, (∀ n ∈ lost, ¬t ++ [n] <+: q) → disk'.kindAt? q = disk.kindAt? q

namespace Reverted

variable {lost : List String}

theorem nil (hd : disk.Distinct) (t : Place) : Reverted t [] disk disk :=
  ⟨hd, fun _ hn => absurd hn List.not_mem_nil, fun _ _ => rfl⟩

/-- A place is lost, or it is as it was. -/
theorem eq_or_gone (h : Reverted t lost disk disk') (q : Place) :
    disk'.kindAt? q = disk.kindAt? q ∨
      disk'.kindAt? q = none ∧ ∃ n ∈ lost, ∃ r, q = t ++ n :: r := by
  by_cases hq : ∃ n ∈ lost, t ++ [n] <+: q
  · obtain ⟨n, hn, r, rfl⟩ := hq
    rw [List.append_assoc, List.singleton_append]
    exact .inr ⟨h.gone n hn r, n, hn, r, rfl⟩
  · exact .inl (h.frame q fun n hn hbelow => hq ⟨n, hn, hbelow⟩)

/-- There is such a tree. -/
theorem exists_of_distinct (hd : disk.Distinct) (t : Place) (lost : List String) :
    ∃ disk', Reverted t lost disk disk' := by
  induction lost with
  | nil => exact ⟨disk, nil hd t⟩
  | cons n lost ih =>
    obtain ⟨mid, hmid⟩ := ih
    refine ⟨mid.erase (t ++ [n]), hmid.distinct.erase _, fun m hm q => ?_, fun q hq => ?_⟩
    · by_cases heq : m = n
      · rw [heq, ← List.singleton_append, ← List.append_assoc]
        exact kindAt?_erase_append hmid.distinct (by simp) q
      · rw [kindAt?_erase_of_not_below hmid.distinct (not_below_sibling (Ne.symm heq) q)]
        exact hmid.gone m ((List.mem_cons.mp hm).resolve_left heq) q
    · obtain ⟨hn, hlost⟩ := List.forall_mem_cons.mp hq
      rw [kindAt?_erase_of_not_below hmid.distinct hn, hmid.frame q hlost]

theorem kept (h : Reverted t lost disk disk') {q : Place} (ht : t <+: q → q = t) :
    disk'.kindAt? q = disk.kindAt? q := by
  refine h.frame q fun n _ hbelow => ?_
  rw [ht ((List.prefix_append t [n]).trans hbelow)] at hbelow
  exact not_below_above t n [] hbelow

theorem docked (h : Reverted t lost disk disk') (hdock : Docked source target s t disk) :
    Docked source target s t disk' :=
  hdock.mono h.distinct fun q hq _ ht => by rw [h.kept ht, hq]

/-- What a move has replaced does not matter for what has been moved. -/
theorem transferred (h : Reverted t lost disk disk') (happart : ¬s <+: t) (happart' : ¬t <+: s)
    (hmoved : Transferred s t lost disk disk'') : Transferred s t lost disk' disk'' where
  distinct := hmoved.distinct
  arrived n hn q := by
    rw [hmoved.arrived n hn, h.frame _ fun m _ => not_below_apart happart' happart [m] (n :: q)]
  left := hmoved.left
  frame q hq := by
    rw [hmoved.frame q hq, h.frame q fun n hn => (hq n hn).2]

/-- A tree that looks the same has lost the same. -/
theorem of_same (h : Reverted t lost disk disk') (hd : disk''.Distinct)
    (hsame : Same disk'' disk') : Reverted t lost disk disk'' where
  distinct := hd
  gone n hn q := (hsame _).trans (h.gone n hn q)
  frame q hq := (hsame q).trans (h.frame q hq)

end Reverted

/-- A place has been left, or what is there has arrived, or it is as it was. -/
theorem Transferred.place_cases (h : Transferred s t names disk disk') (q : Place) :
    disk'.kindAt? q = disk.kindAt? q ∨
      (disk'.kindAt? q = none ∧ ∃ n ∈ names, ∃ r, q = s ++ n :: r) ∨
      ∃ n ∈ names, ∃ r, q = t ++ n :: r ∧ disk'.kindAt? q = disk.kindAt? (s ++ n :: r) := by
  by_cases hs : ∃ n ∈ names, s ++ [n] <+: q
  · obtain ⟨n, hn, r, rfl⟩ := hs
    rw [List.append_assoc, List.singleton_append]
    exact .inr (.inl ⟨h.left n hn r, n, hn, r, rfl⟩)
  · by_cases ht : ∃ n ∈ names, t ++ [n] <+: q
    · obtain ⟨n, hn, r, rfl⟩ := ht
      rw [List.append_assoc, List.singleton_append]
      exact .inr (.inr ⟨n, hn, r, rfl, h.arrived n hn r⟩)
    · exact .inl (h.frame q fun n hn => ⟨fun hbelow => hs ⟨n, hn, hbelow⟩,
        fun hbelow => ht ⟨n, hn, hbelow⟩⟩)

/-! ## Moving on, and moving back -/

/-- Moving back what has been moved restores the source. -/
theorem moveBack_reverted {moved : List String} (hdock : Docked source target s t disk)
    (hmoved : Transferred s t moved disk disk') (hnodup : moved.Nodup)
    (hnames : ∀ n ∈ moved, IsName n) (hcarry : ∀ n ∈ moved, Carriable source target n)
    (hold : ∀ n ∈ moved, disk.kindAt? (s ++ [n]) ≠ none) :
    Reverted t moved disk (moveBack source target moved disk') := by
  -- the tree as it would be if the target had not held the children that were replaced
  obtain ⟨mid, hmid⟩ := Reverted.exists_of_distinct hdock.distinct t moved
  have hsource : ∀ n ∈ moved, mid.kindAt? (s ++ [n]) ≠ none := by
    intro n hn
    rw [hmid.frame _ fun m _ => hdock.not_below_target [m] [n]]
    exact hold n hn
  obtain ⟨hd, hsame⟩ := moveBack_same (hmid.docked hdock)
    (hmid.transferred hdock.apart hdock.apart' hmoved) hnodup hnames hcarry hsource
    fun n hn => hmid.gone n hn []
  exact hmid.of_same hd hsame

/-- All children are moved, or the source holds again what it held. -/
theorem moveEach_merge {moved : List String} (hdock : Docked source target s t disk)
    (hmoved : Transferred s t moved disk disk') (hnodup : (moved ++ names).Nodup)
    (hnames : ∀ n ∈ moved ++ names, IsName n) (hcarry : ∀ n ∈ moved, Carriable source target n)
    (hold : ∀ n ∈ moved ++ names, disk.kindAt? (s ++ [n]) ≠ none) :
    (∃ disk'', moveEach source target moved names disk' = .ok () disk'' ∧
        Transferred s t (moved ++ names) disk disk'') ∨
      ∃ failure disk'' lost, moveEach source target moved names disk' = .error failure disk'' ∧
        lost <+: moved ++ names ∧ Reverted t lost disk disk'' := by
  induction names generalizing moved disk' with
  | nil =>
    rw [List.append_nil]
    exact .inl ⟨disk', rfl, hmoved⟩
  | cons name names ih =>
    have hmem : name ∈ moved ++ name :: names := by simp
    have hfresh : name ∉ moved := fun hn =>
      (List.nodup_append.mp hnodup).2.2 name hn name (List.mem_cons_self ..) rfl
    rcases (hmoved.docked hdock).rename_outcome (hnames name hmem) with
      ⟨hcarriable, disk'', hrename, hstep⟩ | ⟨refusal, hrename⟩
    · have hsplit : moved ++ name :: names = moved ++ [name] ++ names := by simp
      rw [hsplit] at hnodup hnames hold ⊢
      rw [moveEach_cons hrename]
      refine ih (hmoved.concat hdock.apart hdock.apart' hfresh hstep) hnodup hnames ?_ hold
      intro n hn
      rcases List.mem_append.mp hn with hn | hn
      · exact hcarry n hn
      · exact List.mem_singleton.mp hn ▸ hcarriable
    · have hfront : ∀ n ∈ moved, n ∈ moved ++ name :: names := fun n hn => by simp [hn]
      rw [moveEach_refused hrename]
      exact .inr ⟨_, _, moved, rfl, List.prefix_append _ _,
        moveBack_reverted hdock hmoved (List.nodup_append.mp hnodup).1
          (fun n hn => hnames n (hfront n hn)) hcarry fun n hn => hold n (hfront n hn)⟩

/-! ## Whole directories -/

/-- Directories are created on the way to the target; then all children of the source are moved, or
the source holds again what it held. -/
theorem moveDir_merge {root : Path} {base : Place} {ns ms : List String}
    (hg : Grounded root base disk) (hns : ∀ n ∈ ns, IsName n) (hms : ∀ m ∈ ms, IsName m)
    (hne : ms ≠ []) (htext : checkText (root.descend ns) = .ok ())
    (hs : disk.kindAt? (base ++ ns) = some .dir) (happart : ¬ns <+: ms) (happart' : ¬ms <+: ns)
    (hnamed : ∀ n, disk.kindAt? (base ++ ns ++ [n]) ≠ none → IsName n) :
    ∃ disk₁ names, Grown (base ++ ms) disk disk₁ ∧
      (∀ n, n ∈ names ↔ disk.kindAt? (base ++ ns ++ [n]) ≠ none) ∧
      ((∃ disk', moveDir (root.descend ns) (root.descend ms) disk = .ok () disk' ∧
          checkText (root.descend ms) = .ok () ∧ disk₁.kindAt? (base ++ ms) = some .dir ∧
          Transferred (base ++ ns) (base ++ ms) names disk₁ disk') ∨
        ∃ failure disk' lost,
          moveDir (root.descend ns) (root.descend ms) disk = .error failure disk' ∧
          lost <+: names ∧ Reverted (base ++ ms) lost disk₁ disk') := by
  obtain ⟨children, hchildren⟩ := kindAt?_eq_dir_iff.mp hs
  have hentries := entries_descend hg.leads (ne_nil_of_apart happart) hns htext hchildren
  have hmem : ∀ n, n ∈ children.map (·.1) ↔ disk.kindAt? (base ++ ns ++ [n]) ≠ none := fun n =>
    mem_names_iff hg.distinct hchildren
  obtain ⟨disk₁, hgrown, hend⟩ := ensureDir_descend hg hms hne
  refine ⟨disk₁, children.map (·.1), hgrown, hmem, ?_⟩
  rcases hend with ⟨htarget, -, hdir, hensure⟩ | ⟨-, failure, hensure⟩
  · have hg₁ : Grounded root base disk₁ := hg.of_grown hgrown
    have hdock := Docked.of_grounded hg₁ hns hms (hgrown.dir hs) hdir happart happart'
    have hsource : ∀ n ∈ children.map (·.1), disk₁.kindAt? (base ++ ns ++ [n]) ≠ none := by
      intro n hn
      have hn := (hmem n).mp hn
      rwa [hgrown.kept _ hn]
    rw [moveDir_eq hentries hensure]
    rcases moveEach_merge hdock (.nil hgrown.distinct _ _) (hg.distinct _ _ hchildren)
        (fun n hn => hnamed n ((hmem n).mp hn)) (fun _ hn => absurd hn List.not_mem_nil)
        hsource with
      ⟨disk', hok, hmoved⟩ | ⟨failure, disk', lost, herror, hlost, hreverted⟩
    · exact .inl ⟨disk', hok, htarget, hdir, hmoved⟩
    · exact .inr ⟨failure, disk', lost, herror, hlost, hreverted⟩
  · exact .inr ⟨failure, disk₁, [], moveDir_error hentries hensure, List.nil_prefix,
      .nil hgrown.distinct _⟩

end ConfigStore.Files
