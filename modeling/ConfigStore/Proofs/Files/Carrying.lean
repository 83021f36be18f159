import ConfigStore.Proofs.Disk.Changing
import ConfigStore.Proofs.Files.Merging

/-!
# Moving children between any two directories

The two directories are given by paths of any kind, so that a path may lead through what is being
moved. Where a path leads is a matter of its text alone, though, if it leads anywhere: every rename
that succeeds moves the child from the one directory to the other. If some child cannot be moved and
all others can be moved back, the files are as they were, but for those of the target that a moved
file has replaced.

* `Disk.follow_unique` says that a path leads to one place; `Disk.rename_inv` what a rename has
  done.
* `Files.progress` is how far a move gets, and `Files.Returns` says that all of it can be taken
  back.
* `Files.moveDir_moves_or_returns` is the result.
-/

namespace ConfigStore

open Node

namespace Disk

variable {disk disk' : Node} {source target : Path} {here p q : Place} {name : String}
  {pieces : List String}

/-- A path leads to the same place in all trees in which it leads anywhere. -/
theorem follow_unique (h : follow disk here pieces = .ok p)
    (h' : follow disk' here pieces = .ok q) : p = q := by
  induction pieces generalizing here with
  | nil => cases h; cases h'; rfl
  | cons piece pieces ih =>
    rw [follow] at h h'
    split at h
    · cases h
    · cases h
    · split at h'
      · cases h'
      · cases h'
      · split at h
        next hidle =>
          rw [if_pos hidle] at h'
          exact ih h h'
        next hidle =>
          rw [if_neg hidle] at h'
          split at h
          next hup =>
            rw [if_pos hup] at h'
            exact ih h h'
          next hup =>
            rw [if_neg hup] at h'
            split at h
            · cases h
            next hlong =>
              rw [if_neg hlong] at h'
              exact ih h h'

/-- What a child must find at its new place: nothing, a file if it is a file itself, or an empty
directory. -/
structure Yields (old new : Place) (disk : Node) : Prop where
  there : disk.kindAt? old ≠ none
  leaf : ∀ next rest, disk.kindAt? (new ++ next :: rest) = none
  file : disk.content? new ≠ none → disk.content? old ≠ none

/-- A rename that succeeds has moved an entry from one directory to another. -/
theorem rename_inv (hd : disk.Distinct) (hname : IsPiece name)
    (h : rename (source.join name) (target.join name) disk = .ok disk') :
    ∃ s t, Leads source s disk ∧ Leads target t disk ∧
      (s ≠ t → Relocated (s ++ [name]) (t ++ [name]) disk disk' ∧
        Yields (s ++ [name]) (t ++ [name]) disk) := by
  rw [rename] at h
  cases hold : resolve disk (source.join name) with
  | error refusal => rw [hold] at h; cases h
  | ok old =>
    cases hnew : resolve disk (target.join name) with
    | error refusal => rw [hold, hnew] at h; cases h
    | ok new =>
      obtain ⟨s, hsource, -, -, rfl⟩ := resolve_join_inv hname hold
      obtain ⟨t, htarget, hdir, -, rfl⟩ := resolve_join_inv hname hnew
      refine ⟨s, t, hsource, htarget, fun hne => ?_⟩
      simp only [hold, hnew, bind, Except.bind] at h
      cases hnode : disk.at? (s ++ [name]) with
      | none => rw [hnode] at h; cases h
      | some node =>
        rw [hnode] at h
        dsimp only at h
        rw [if_neg (by simpa using hne)] at h
        split at h
        · cases h
        next hprefix =>
          have happart : ¬s ++ [name] <+: t ++ [name] := by
            rwa [List.isPrefixOf_iff_prefix] at hprefix
          cases hmay : mayReplace node (disk.at? (t ++ [name])) with
          | error refusal => rw [hmay] at h; cases h
          | ok _ =>
            rw [hmay] at h
            cases h
            have hleaf := Files.leaf_of_mayReplace hmay
            refine ⟨relocated_put_erase hd hnode (by simp) hdir rfl hleaf happart,
              by simp [kindAt?, hnode], hleaf, fun hfile => ?_⟩
            obtain ⟨content, hcontent⟩ := Option.ne_none_iff_exists'.mp hfile
            rw [kindAt?_eq_file_iff.mp (content?_eq_some_iff.mp hcontent), mayReplace] at hmay
            cases node with
            | dir entries => cases hmay
            | file old => simp [content?, hnode]

end Disk

namespace Files

open Disk

variable {source target : Path} {s t : Place} {disk disk' disk'' made : Node} {name : String}
  {names moved : List String}

/-! ## How far a move gets -/

/-- Moves children until one cannot be moved: those that were moved, and the tree at that point. -/
def carried (source target : Path) : List String → Node → List String × Node
  | [], disk => ([], disk)
  | name :: names, disk =>
    match Disk.rename (source.join name) (target.join name) disk with
    | .error _ => ([], disk)
    | .ok disk =>
      let (moved, disk) := carried source target names disk
      (name :: moved, disk)

/-- How far the move of all children gets. None is moved if the source cannot be listed or the
target cannot be created. -/
def progress (source target : Path) (disk : Node) : List String × Node :=
  match Disk.entries disk source, makeDirs target disk with
  | .ok children, (.ok (), made) => carried source target (children.map (·.1)) made
  | .ok _, (.error _, made) => ([], made)
  | .error _, _ => ([], disk)

/-- All children can be moved back, one after the other. -/
def Returns (source target : Path) : List String → Node → Prop
  | [], _ => True
  | name :: names, disk => ∃ disk',
    Disk.rename (target.join name) (source.join name) disk = .ok disk' ∧
      Returns source target names disk'

theorem carried_cons (h : Disk.rename (source.join name) (target.join name) disk = .ok disk') :
    carried source target (name :: names) disk
      = (name :: (carried source target names disk').1, (carried source target names disk').2) := by
  simp only [carried, h]

theorem carried_refused {refusal : Refusal}
    (h : Disk.rename (source.join name) (target.join name) disk = .error refusal) :
    carried source target (name :: names) disk = ([], disk) := by
  simp only [carried, h]

/-- The children are moved as far as they can be, and moved back if that is not all of them. -/
theorem moveEach_carried (source target : Path) (moved names : List String) (disk : Node) :
    ((carried source target names disk).1 = names ∧
      moveEach source target moved names disk = .ok () (carried source target names disk).2) ∨
    (carried source target names disk).1 ≠ names ∧ ∃ failure,
      moveEach source target moved names disk = .error failure
        (moveBack source target (moved ++ (carried source target names disk).1)
          (carried source target names disk).2) := by
  induction names generalizing moved disk with
  | nil => exact .inl ⟨rfl, rfl⟩
  | cons name names ih =>
    cases hrename : Disk.rename (source.join name) (target.join name) disk with
    | error refusal =>
      rw [moveEach_refused hrename, carried_refused hrename]
      exact .inr ⟨nofun, _, by rw [List.append_nil]⟩
    | ok disk' =>
      rw [moveEach_cons hrename, carried_cons hrename]
      rcases ih (moved ++ [name]) disk' with ⟨hall, hok⟩ | ⟨hsome, failure, herror⟩
      · exact .inl ⟨by rw [hall], hok⟩
      · refine .inr ⟨fun h => hsome (List.cons.inj h).2, failure, ?_⟩
        rw [herror, List.append_assoc, List.singleton_append]

/-! ## Moving on -/

/-- The children that are moved stand in the target as they stood in the source, and each of them
found its place free or fit to be replaced. -/
theorem carried_transferred (happart : ¬s <+: t) (happart' : ¬t <+: s)
    (hsource : ∀ disk p, Leads source p disk → p = s)
    (htarget : ∀ disk p, Leads target p disk → p = t)
    (hmoved : Transferred s t moved made disk) (hnodup : (moved ++ names).Nodup)
    (hnames : ∀ n ∈ names, IsPiece n) :
    (carried source target names disk).1 <+: names ∧
    Transferred s t (moved ++ (carried source target names disk).1) made
      (carried source target names disk).2 ∧
    ∀ n ∈ (carried source target names disk).1, Yields (s ++ [n]) (t ++ [n]) made := by
  induction names generalizing moved disk with
  | nil => exact ⟨List.nil_prefix, by rwa [carried, List.append_nil], nofun⟩
  | cons name names ih =>
    obtain ⟨hname, hnames⟩ := List.forall_mem_cons.mp hnames
    have hfresh : name ∉ moved := fun hn =>
      (List.nodup_append.mp hnodup).2.2 name hn name (List.mem_cons_self ..) rfl
    cases hrename : Disk.rename (source.join name) (target.join name) disk with
    | error refusal =>
      rw [carried_refused hrename, List.append_nil]
      exact ⟨List.nil_prefix, hmoved, nofun⟩
    | ok disk' =>
      rw [carried_cons hrename]
      obtain ⟨s', t', hs, ht, hstep⟩ := rename_inv hmoved.distinct hname hrename
      obtain rfl := hsource disk s' hs
      obtain rfl := htarget disk t' ht
      obtain ⟨hrelocated, hyields⟩ := hstep fun heq => happart (heq ▸ List.prefix_refl _)
      rw [← List.singleton_append, ← List.append_assoc] at hnodup
      obtain ⟨hfront, htransferred, hrest⟩ :=
        ih (hmoved.concat happart happart' hfresh hrelocated) hnodup hnames
      -- no other child has been moved from or to the two places so far
      have hold : ∀ q, disk.kindAt? (s' ++ name :: q) = made.kindAt? (s' ++ name :: q) := fun q =>
        hmoved.frame _ fun m hm => ⟨not_below_sibling (ne_of_mem_of_not_mem hm hfresh) q,
          not_below_apart happart' happart _ _⟩
      have hnew : ∀ q, disk.kindAt? (t' ++ name :: q) = made.kindAt? (t' ++ name :: q) := fun q =>
        hmoved.frame _ fun m hm => ⟨not_below_apart happart happart' _ _,
          not_below_sibling (ne_of_mem_of_not_mem hm hfresh) q⟩
      refine ⟨List.cons_prefix_cons.mpr ⟨rfl, hfront⟩, by simpa using htransferred,
        List.forall_mem_cons.mpr ⟨⟨hold [] ▸ hyields.there, fun next rest => ?_, ?_⟩, hrest⟩⟩
      · have hleaf := hyields.leaf next rest
        rw [List.append_assoc] at hleaf ⊢
        exact (hnew _).symm.trans hleaf
      · rw [← content?_congr (hold []), ← content?_congr (hnew [])]
        exact hyields.file

/-! ## Moving back -/

/-- If all children can be moved back, the tree is as it was, provided that the target held nothing
under their names. -/
theorem moveBack_returned (happart : ¬s <+: t) (happart' : ¬t <+: s)
    (hsource : ∀ disk p, Leads source p disk → p = s)
    (htarget : ∀ disk p, Leads target p disk → p = t)
    (hmoved : Transferred s t moved made disk) (hnodup : moved.Nodup)
    (hnames : ∀ n ∈ moved, IsPiece n) (hfree : ∀ n ∈ moved, made.kindAt? (t ++ [n]) = none)
    (hreturns : Returns source target moved disk) :
    (moveBack source target moved disk).Distinct ∧
      Same (moveBack source target moved disk) made := by
  induction moved generalizing disk with
  | nil => exact ⟨hmoved.distinct, hmoved.same⟩
  | cons name moved ih =>
    obtain ⟨hfresh, hnodup⟩ := List.nodup_cons.mp hnodup
    obtain ⟨hname, hnames⟩ := List.forall_mem_cons.mp hnames
    obtain ⟨hnone, hfree⟩ := List.forall_mem_cons.mp hfree
    obtain ⟨disk', hrename, hrest⟩ := hreturns
    obtain ⟨t', s', ht, hs, hstep⟩ := rename_inv hmoved.distinct hname hrename
    obtain rfl := hsource disk s' hs
    obtain rfl := htarget disk t' ht
    obtain ⟨hrelocated, -⟩ := hstep fun heq => happart' (heq ▸ List.prefix_refl _)
    rw [moveBack_cons hrename]
    exact ih (hmoved.uncons happart happart' hfresh hnone hrelocated) hnodup hnames hfree hrest

/-- If all children can be moved back, every file is as it was, except for the files of the target
that moved files have replaced. -/
theorem content?_moveBack (hd : made.Distinct) (happart : ¬s <+: t) (happart' : ¬t <+: s)
    (hsource : ∀ disk p, Leads source p disk → p = s)
    (htarget : ∀ disk p, Leads target p disk → p = t)
    (hmoved : Transferred s t moved made disk) (hnodup : moved.Nodup)
    (hnames : ∀ n ∈ moved, IsPiece n) (hyields : ∀ n ∈ moved, Yields (s ++ [n]) (t ++ [n]) made)
    (hreturns : Returns source target moved disk) (q : Place) :
    (moveBack source target moved disk).content? q = made.content? q ∨
      (moveBack source target moved disk).content? q = none ∧
        ∃ n ∈ moved, q = t ++ [n] ∧ made.content? (t ++ [n]) ≠ none ∧
          made.content? (s ++ [n]) ≠ none := by
  -- the tree as it would be if the target had not held what was replaced
  obtain ⟨mid, hmid⟩ := Reverted.exists_of_distinct hd t moved
  obtain ⟨-, hsame⟩ := moveBack_returned happart happart' hsource htarget
    (hmid.transferred happart happart' hmoved) hnodup hnames (fun n hn => hmid.gone n hn [])
    hreturns
  rcases hmid.eq_or_gone q with hkept | ⟨hgone, n, hn, r, rfl⟩
  · exact .inl (content?_congr ((hsame q).trans hkept))
  · have hnone : (moveBack source target moved disk).content? (t ++ n :: r) = none :=
      content?_of_kindAt? ((hsame _).trans hgone)
    cases hcontent : made.content? (t ++ n :: r) with
    | none => exact .inl hnone
    | some content =>
      cases r with
      | nil =>
        exact .inr ⟨hnone, n, hn, rfl, by simp [hcontent],
          (hyields n hn).file (by simp [hcontent])⟩
      | cons next rest =>
        have hleaf := (hyields n hn).leaf next rest
        rw [List.append_assoc, List.singleton_append] at hleaf
        rw [content?_eq_some_iff, hleaf] at hcontent
        cases hcontent

/-! ## Whole directories -/

/-- All children can be moved, one after the other. -/
def Completes (source target : Path) (disk : Node) : Prop :=
  ∃ children, Disk.entries disk source = .ok children ∧ (makeDirs target disk).1 = .ok () ∧
    (progress source target disk).1 = children.map (·.1)

/-- Every child of `s` has gone to `t` with all that it held. The directories on the way to `t` were
created before; if none of them is within `s`, nothing is left there. -/
structure Delivered (s t : Place) (disk made disk' : Node) : Prop where
  distinct : disk'.Distinct
  created : Extended disk made
  arrived : ∀ n, disk.kindAt? (s ++ [n]) ≠ none → ∀ q,
    disk'.kindAt? (t ++ n :: q) = made.kindAt? (s ++ n :: q)
  left : ∀ n, disk.kindAt? (s ++ [n]) ≠ none → ∀ q, disk'.kindAt? (s ++ n :: q) = none
  emptied : (∀ q, s <+: q → made.kindAt? q = disk.kindAt? q) → ∀ n q,
    disk'.kindAt? (s ++ n :: q) = none
  frame : ∀ q, (∀ n, disk.kindAt? (s ++ [n]) ≠ none → ¬s ++ [n] <+: q ∧ ¬t ++ [n] <+: q) →
    disk'.kindAt? q = made.kindAt? q

theorem Transferred.delivered (h : Transferred s t names made disk') (hmade : Extended disk made)
    (happart : ¬s <+: t) (happart' : ¬t <+: s)
    (hmem : ∀ n, n ∈ names ↔ disk.kindAt? (s ++ [n]) ≠ none) : Delivered s t disk made disk' where
  distinct := h.distinct
  created := hmade
  arrived n hn := h.arrived n ((hmem n).mpr hn)
  left n hn := h.left n ((hmem n).mpr hn)
  emptied haside := h.emptied happart happart' fun n => by
    rw [haside _ (List.prefix_append s [n])]
    exact hmem n
  frame q hq := h.frame q fun n hn => hq n ((hmem n).mp hn)

/-- Wherever two paths lead that are apart from each other, and in whatever order the children are
listed: either all of them can be moved, and then they are; or there is a failure. If what has been
moved by then can be moved back, every file of the tree is as it was, except for the files of the
target that moved files have replaced, which are gone. -/
theorem moveDir_moves_or_returns (hd : disk.Distinct) (hnamed : WellNamed disk)
    (happart : ∀ s t, resolve disk source = .ok s →
      reach (makeDirs target disk).2 target = .ok t → ¬s <+: t ∧ ¬t <+: s) :
    (Completes source target disk ∧ ∃ s t disk', resolve disk source = .ok s ∧
      reach (makeDirs target disk).2 target = .ok t ∧
      moveDir source target disk = .ok () disk' ∧
      Delivered s t disk (makeDirs target disk).2 disk') ∨
    ¬Completes source target disk ∧ ∃ failure disk',
      moveDir source target disk = .error failure disk' ∧
      (Returns source target (progress source target disk).1 (progress source target disk).2 →
        ∀ q, disk'.content? q = disk.content? q ∨ disk'.content? q = none ∧
          ∃ s t, resolve disk source = .ok s ∧ reach (makeDirs target disk).2 target = .ok t ∧
            ∃ n ∈ (progress source target disk).1, q = t ++ [n] ∧
              disk.content? (t ++ [n]) ≠ none ∧ disk.content? (s ++ [n]) ≠ none) := by
  cases hentries : Disk.entries disk source with
  | error refusal =>
    refine .inr ⟨?_, .disk (.readDir source) refusal, disk, ?_, fun _ q => .inl rfl⟩
    · rintro ⟨children, hok, -⟩
      cases hentries.symm.trans hok
    · simp only [moveDir, Files.entries, look, bind, EStateM.bind, hentries]
  | ok children =>
    obtain ⟨s, hs, hsource, hchildren⟩ := resolve_of_entries hentries
    have hext := makeDirs_extended hd target
    rcases hmade : makeDirs target disk with ⟨refusal | u, made⟩
    · rw [hmade] at hext
      have hensure : ensureDir target disk = .error (.disk (.makeDir target) refusal) made := by
        simp only [ensureDir, hmade]
      refine .inr ⟨?_, _, made, moveDir_error hentries hensure, fun _ q => .inl (hext.content? q)⟩
      rintro ⟨_, -, hok, -⟩
      rw [hmade] at hok
      cases hok
    · rw [hmade] at hext happart
      have htop : disk.kindAt? [] = some .dir :=
        kindAt?_eq_dir_above List.nil_prefix (kindAt?_eq_dir_iff.mpr ⟨children, hchildren⟩)
      obtain ⟨t, ht, htarget⟩ := reach_of_makeDirs hd htop hmade
      obtain ⟨hst, hts⟩ := happart s t hs ht
      have hmem : ∀ n, n ∈ children.map (·.1) ↔ disk.kindAt? (s ++ [n]) ≠ none := fun n =>
        mem_names_iff hd hchildren
      have hpieces : ∀ n ∈ children.map (·.1), IsPiece n := fun n hn =>
        (hnamed s n ((hmem n).mp hn)).toIsPiece
      have hnodup : (children.map (·.1)).Nodup := hd _ _ hchildren
      have hensure : ensureDir target disk = .ok () made := by simp only [ensureDir, hmade]
      have hprogress : progress source target disk
          = carried source target (children.map (·.1)) made := by
        simp only [progress, hentries, hmade]
      have hsource' : ∀ disk p, Leads source p disk → p = s := fun _ _ h => follow_unique h hsource
      have htarget' : ∀ disk p, Leads target p disk → p = t := fun _ _ h => follow_unique h htarget
      obtain ⟨hfront, hmoved, hyields⟩ := carried_transferred hst hts hsource' htarget'
        (.nil hext.distinct s t) (by simpa using hnodup) hpieces
      rw [moveDir_eq hentries hensure]
      rcases moveEach_carried source target [] (children.map (·.1)) made with
        ⟨hall, hok⟩ | ⟨hsome, failure, herror⟩
      · refine .inl ⟨⟨children, hentries, by rw [hmade], by rw [hprogress, hall]⟩, s, t, _, hs, ht,
          hok, ?_⟩
        rw [hall] at hmoved
        exact hmoved.delivered hext hst hts hmem
      · refine .inr ⟨?_, failure, _, herror, fun hreturns q => ?_⟩
        · rintro ⟨children', hchildren', -, hall⟩
          cases hentries.symm.trans hchildren'
          exact hsome (hprogress ▸ hall)
        · rw [hprogress] at hreturns ⊢
          rcases content?_moveBack hext.distinct hst hts hsource' htarget' hmoved
            (hnodup.sublist hfront.sublist) (fun n hn => hpieces n (hfront.subset hn)) hyields
            hreturns q with hsame | ⟨hnone, n, hn, hq, hlost⟩
          · exact .inl (hsame.trans (hext.content? q))
          · rw [hext.content?, hext.content?] at hlost
            exact .inr ⟨hnone, s, t, hs, ht, n, hn, hq, hlost⟩

/-- Two files to be moved, and what the target holds. -/
def stacked (held : List (String × Node)) : Node :=
  .dir [("src", .dir [("a", .file [1]), ("b", .file [2])]), ("dst", .dir held)]

theorem moveDir_moves_or_returns_sample :
    (stacked [("b", .dir [])]).Distinct ∧ WellNamed (stacked [("b", .dir [])]) ∧
    (∀ s t, resolve (stacked [("b", .dir [])]) (.ofText "src") = .ok s →
      reach (makeDirs (.ofText "dst") (stacked [("b", .dir [])])).2 (.ofText "dst") = .ok t →
      ¬s <+: t ∧ ¬t <+: s) ∧
    ∃ failure disk', moveDir (.ofText "src") (.ofText "dst") (stacked [("b", .dir [])])
        = .error failure disk' ∧
      ∀ q, disk'.content? q = (stacked [("b", .dir [])]).content? q := by
  have hproper : (stacked [("b", .dir [])]).Distinct ∧ WellNamed (stacked [("b", .dir [])]) := by
    decide
  have happart : ∀ s t, resolve (stacked [("b", .dir [])]) (.ofText "src") = .ok s →
      reach (makeDirs (.ofText "dst") (stacked [("b", .dir [])])).2 (.ofText "dst") = .ok t →
      ¬s <+: t ∧ ¬t <+: s := by
    intro s t hs ht
    cases hs
    cases ht
    decide
  refine ⟨hproper.1, hproper.2, happart, ?_⟩
  rcases moveDir_moves_or_returns hproper.1 hproper.2 happart with
    ⟨-, s, t, disk', -, -, hok, -⟩ | ⟨-, failure, disk', herror, hfiles⟩
  · cases hok
  · refine ⟨failure, disk', herror, fun q => ?_⟩
    rcases hfiles ⟨_, rfl, trivial⟩ q with hsame | ⟨-, s, t, hs, ht, n, hn, -, hheld, -⟩
    · exact hsame
    · cases ht
      have hn : n ∈ ["a"] := hn
      rw [List.mem_singleton.mp hn] at hheld
      exact absurd rfl hheld

/-- A path that leads through `src/new` to `dst`. -/
def around : Path := ⟨["src", "new", "..", "..", "dst"]⟩

/-- A file of the target is replaced by a child that is moved back later, and it does not come back.
Nor need a source be empty after a move: the way to the target may have led through it. -/
theorem moveDir_replaces :
    (∃ failure disk',
      moveDir (.ofText "src") (.ofText "dst") (stacked [("a", .file [0]), ("b", .dir [])])
        = .error failure disk' ∧
      Returns (.ofText "src") (.ofText "dst")
        (progress (.ofText "src") (.ofText "dst") (stacked [("a", .file [0]), ("b", .dir [])])).1
        (progress (.ofText "src") (.ofText "dst") (stacked [("a", .file [0]), ("b", .dir [])])).2 ∧
      (stacked [("a", .file [0]), ("b", .dir [])]).content? ["dst", "a"] = some [0] ∧
      disk'.content? ["dst", "a"] = none) ∧
    ∃ disk', moveDir (.ofText "src") around (stacked []) = .ok () disk' ∧
      resolve disk' around = .ok ["dst"] ∧
      disk'.kindAt? ["src", "new"] = some .dir :=
  ⟨⟨_, _, rfl, ⟨_, rfl, trivial⟩, rfl, rfl⟩, _, rfl, rfl, rfl⟩

end Files

end ConfigStore
