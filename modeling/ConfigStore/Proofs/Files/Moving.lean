import ConfigStore.Files.Directory
import ConfigStore.Proofs.Disk.Operation

/-!
# Moving the children of a directory

The children of one directory are moved into another one by one. The invariant is
`Files.Transferred`: the children moved so far stand in the target as they stood in the source, and
everything else is where it was. A child that cannot be moved ends the move, and moving the others
back restores the invariant for no child at all.

* `Files.Docked` says that two paths lead to two directories apart from each other, whatever the two
  directories hold.
* `Files.moveBack_same` undoes a partial move.
* `Files.moveEach_outcome` moves all children or none.
-/

namespace ConfigStore.Files

open Node Disk

variable {source target : Path} {s t : Place} {disk disk' disk'' : Node}

/-! ## Two directories -/

/-- Two paths lead to two directories, neither of them within the other, and go on doing so as long
as all directories outside these two stay. -/
structure Docked (source target : Path) (s t : Place) (disk : Node) : Prop where
  distinct : disk.Distinct
  sourceDir : disk.kindAt? s = some .dir
  targetDir : disk.kindAt? t = some .dir
  apart : ¬s <+: t
  apart' : ¬t <+: s
  leads_of_kept : ∀ disk' : Node,
    (∀ q, disk.kindAt? q = some .dir → (s <+: q → q = s) → (t <+: q → q = t) →
      disk'.kindAt? q = some .dir) → Leads source s disk' ∧ Leads target t disk'

namespace Docked

theorem symm (h : Docked source target s t disk) : Docked target source t s disk where
  distinct := h.distinct
  sourceDir := h.targetDir
  targetDir := h.sourceDir
  apart := h.apart'
  apart' := h.apart
  leads_of_kept := fun disk' h' =>
    (h.leads_of_kept disk' fun q hq hs ht => h' q hq ht hs).symm

theorem not_below_target (h : Docked source target s t disk) (p q : Place) :
    ¬t ++ p <+: s ++ q := not_below_apart h.apart' h.apart p q

theorem mono (h : Docked source target s t disk) (hdistinct : disk'.Distinct)
    (hkept : ∀ q, disk.kindAt? q = some .dir → (s <+: q → q = s) → (t <+: q → q = t) →
      disk'.kindAt? q = some .dir) : Docked source target s t disk' where
  distinct := hdistinct
  sourceDir := hkept s h.sourceDir (fun _ => rfl) fun hts => absurd hts h.apart'
  targetDir := hkept t h.targetDir (fun hst => absurd hst h.apart) fun _ => rfl
  apart := h.apart
  apart' := h.apart'
  leads_of_kept := fun disk'' h'' =>
    h.leads_of_kept disk'' fun q hq hs ht => h'' q (hkept q hq hs ht) hs ht

end Docked

/-- Two directories below a directory that is worked in. -/
theorem Docked.of_grounded {root : Path} {base : Place} (h : Grounded root base disk)
    {ns ms : List String} (hns : ∀ n ∈ ns, IsName n) (hms : ∀ m ∈ ms, IsName m)
    (hs : disk.kindAt? (base ++ ns) = some .dir) (ht : disk.kindAt? (base ++ ms) = some .dir)
    (happart : ¬ns <+: ms) (happart' : ¬ms <+: ns) :
    Docked (root.descend ns) (root.descend ms) (base ++ ns) (base ++ ms) disk where
  distinct := h.distinct
  sourceDir := hs
  targetDir := ht
  apart := by rwa [List.prefix_append_right_inj]
  apart' := by rwa [List.prefix_append_right_inj]
  leads_of_kept := by
    intro disk' hkept
    have hbase : Leads root base disk' := by
      refine h.leads_of_kept disk' ?_
      intro q hq hbase
      have houtside : ∀ names : List String, base ++ names <+: q → q = base ++ names := by
        intro names hbelow
        obtain rfl := hbase ((List.prefix_append base names).trans hbelow)
        exact (hbelow.eq_of_length_le (by simp)).symm
      exact hkept q hq (houtside ns) (houtside ms)
    have hs' : disk'.kindAt? (base ++ ns) = some .dir :=
      hkept _ hs (fun _ => rfl) fun hle =>
        absurd ((List.prefix_append_right_inj base).mp hle) happart'
    have ht' : disk'.kindAt? (base ++ ms) = some .dir :=
      hkept _ ht (fun hle => absurd ((List.prefix_append_right_inj base).mp hle) happart)
        fun _ => rfl
    exact ⟨hbase.descend hns hs', hbase.descend hms ht'⟩

/-! ## A partial move -/

/-- Some children have been moved from `s` to `t`; everything else is where it was. -/
structure Transferred (s t : Place) (moved : List String) (disk disk' : Node) : Prop where
  distinct : disk'.Distinct
  arrived : ∀ n ∈ moved, ∀ q, disk'.kindAt? (t ++ n :: q) = disk.kindAt? (s ++ n :: q)
  left : ∀ n ∈ moved, ∀ q, disk'.kindAt? (s ++ n :: q) = none
  frame : ∀ q, (∀ n ∈ moved, ¬s ++ [n] <+: q ∧ ¬t ++ [n] <+: q) →
    disk'.kindAt? q = disk.kindAt? q

namespace Transferred

variable {moved : List String} {name : String}

theorem nil (hd : disk.Distinct) (s t : Place) : Transferred s t [] disk disk :=
  ⟨hd, fun _ h => absurd h List.not_mem_nil, fun _ h => absurd h List.not_mem_nil, fun _ _ => rfl⟩

theorem kept (h : Transferred s t moved disk disk') {q : Place} (hs : s <+: q → q = s)
    (ht : t <+: q → q = t) : disk'.kindAt? q = disk.kindAt? q := by
  have strict : ∀ (p : Place) (n : String), (p <+: q → q = p) → ¬p ++ [n] <+: q := by
    intro p n hp hbelow
    have heq := hp ((List.prefix_append p [n]).trans hbelow)
    have hlength := hbelow.length_le
    rw [heq, List.length_append, List.length_singleton] at hlength
    omega
  exact h.frame q fun n _ => ⟨strict s n hs, strict t n ht⟩

theorem docked (h : Transferred s t moved disk disk') (hdock : Docked source target s t disk) :
    Docked source target s t disk' :=
  hdock.mono h.distinct fun q hq hs ht => by rw [h.kept hs ht, hq]

/-- One more child has been moved. -/
theorem concat (h : Transferred s t moved disk disk') (happart : ¬s <+: t) (happart' : ¬t <+: s)
    (hname : name ∉ moved) (hstep : Relocated (s ++ [name]) (t ++ [name]) disk' disk'') :
    Transferred s t (moved ++ [name]) disk disk'' := by
  have hother : ∀ {p : Place} {n : String} (q : Place), n ∈ moved → ¬p ++ [name] <+: p ++ n :: q :=
    fun q hn => not_below_sibling (ne_of_mem_of_not_mem hn hname).symm q
  have hst : ∀ p q : Place, ¬s ++ p <+: t ++ q := not_below_apart happart happart'
  have hts : ∀ p q : Place, ¬t ++ p <+: s ++ q := not_below_apart happart' happart
  refine ⟨hstep.distinct, fun n hn q => ?_, fun n hn q => ?_, fun q hq => ?_⟩
  · rcases List.mem_append.mp hn with hn | hn
    · rw [hstep.frame _ (hst _ _) (hother q hn), h.arrived n hn]
    · rw [List.mem_singleton.mp hn]
      have harrived := hstep.arrived q
      rw [List.append_assoc, List.append_assoc] at harrived
      refine harrived.trans (h.frame _ fun m hm => ⟨?_, hts _ _⟩)
      exact not_below_sibling (ne_of_mem_of_not_mem hm hname) q
  · rcases List.mem_append.mp hn with hn | hn
    · rw [hstep.frame _ (hother q hn) (hts _ _), h.left n hn]
    · rw [List.mem_singleton.mp hn]
      have hleft := hstep.left q
      rwa [List.append_assoc] at hleft
  · have hq' := hq name (by simp)
    rw [hstep.frame q hq'.1 hq'.2]
    exact h.frame q fun n hn => hq n (by simp [hn])

/-- A child that has been moved back is where it was. -/
theorem uncons (h : Transferred s t (name :: moved) disk disk') (happart : ¬s <+: t)
    (happart' : ¬t <+: s) (hname : name ∉ moved) (hfree : disk.kindAt? (t ++ [name]) = none)
    (hstep : Relocated (t ++ [name]) (s ++ [name]) disk' disk'') :
    Transferred s t moved disk disk'' := by
  have hother : ∀ {p : Place} {n : String} (q : Place), n ∈ moved → ¬p ++ [name] <+: p ++ n :: q :=
    fun q hn => not_below_sibling (ne_of_mem_of_not_mem hn hname).symm q
  have hst : ∀ p q : Place, ¬s ++ p <+: t ++ q := not_below_apart happart happart'
  have hts : ∀ p q : Place, ¬t ++ p <+: s ++ q := not_below_apart happart' happart
  refine ⟨hstep.distinct, fun n hn q => ?_, fun n hn q => ?_, fun q hq => ?_⟩
  · rw [hstep.frame _ (hother q hn) (hst _ _), h.arrived n (List.mem_cons_of_mem _ hn)]
  · rw [hstep.frame _ (hts _ _) (hother q hn), h.left n (List.mem_cons_of_mem _ hn)]
  · by_cases hs : s ++ [name] <+: q
    · obtain ⟨rest, rfl⟩ := hs
      rw [hstep.arrived, List.append_assoc, List.append_assoc, List.singleton_append,
        h.arrived name (List.mem_cons_self ..)]
    · by_cases ht : t ++ [name] <+: q
      · obtain ⟨rest, rfl⟩ := ht
        rw [hstep.left, List.append_assoc, List.singleton_append, kindAt?_cons_eq_none hfree]
      · rw [hstep.frame q ht hs]
        refine h.frame q ?_
        intro n hn
        rcases List.mem_cons.mp hn with rfl | hn
        · exact ⟨hs, ht⟩
        · exact hq n hn

/-- If no child has been moved, everything is where it was. -/
theorem same (h : Transferred s t [] disk disk') : Same disk' disk :=
  fun q => h.frame q fun _ hn => absurd hn List.not_mem_nil

end Transferred

/-! ## Moving back, and moving on -/

/-- A child of this name can be carried from one directory to the other: both texts are paths. -/
structure Carriable (source target : Path) (name : String) : Prop where
  source : checkText (source.join name) = .ok ()
  target : checkText (target.join name) = .ok ()

theorem Carriable.symm {name : String} (h : Carriable source target name) :
    Carriable target source name := ⟨h.target, h.source⟩

/-- A child that is in the source and not in the target can be moved. -/
theorem Docked.rename {name : String} (hdock : Docked source target s t disk) (hname : IsName name)
    (hcarry : Carriable source target name) (hold : disk.kindAt? (s ++ [name]) ≠ none)
    (hfree : disk.kindAt? (t ++ [name]) = none) :
    ∃ disk', Disk.rename (source.join name) (target.join name) disk = .ok disk' ∧
      Relocated (s ++ [name]) (t ++ [name]) disk disk' := by
  obtain ⟨hleads, hleads'⟩ := hdock.leads_of_kept disk fun q hq _ _ => hq
  exact rename_join hdock.distinct hleads hdock.sourceDir hname hcarry.source hleads'
    hdock.targetDir hname hcarry.target hold hfree (hdock.symm.not_below_target _ _)

theorem moveBack_cons {name : String} {moved : List String}
    (h : Disk.rename (target.join name) (source.join name) disk = .ok disk') :
    moveBack source target (name :: moved) disk = moveBack source target moved disk' := by
  rw [moveBack, List.foldl_cons, h]
  rfl

theorem moveEach_cons {name : String} {moved names : List String}
    (h : Disk.rename (source.join name) (target.join name) disk = .ok disk') :
    moveEach source target moved (name :: names) disk
      = moveEach source target (moved ++ [name]) names disk' := by
  simp only [moveEach, h]

theorem moveEach_refused {name : String} {moved names : List String} {refusal : Refusal}
    (h : Disk.rename (source.join name) (target.join name) disk = .error refusal) :
    moveEach source target moved (name :: names) disk
      = .error (.disk (.move (source.join name) (target.join name)) refusal)
          (moveBack source target moved disk) := by
  simp only [moveEach, h]

/-- Moving back what has been moved restores everything. -/
theorem moveBack_same {moved : List String} (hdock : Docked source target s t disk)
    (hmoved : Transferred s t moved disk disk') (hnodup : moved.Nodup)
    (hnames : ∀ n ∈ moved, IsName n) (hcarry : ∀ n ∈ moved, Carriable source target n)
    (hold : ∀ n ∈ moved, disk.kindAt? (s ++ [n]) ≠ none)
    (hfree : ∀ n ∈ moved, disk.kindAt? (t ++ [n]) = none) :
    (moveBack source target moved disk').Distinct ∧
      Same (moveBack source target moved disk') disk := by
  induction moved generalizing disk' with
  | nil => exact ⟨hmoved.distinct, hmoved.same⟩
  | cons name moved ih =>
    obtain ⟨hname, hnodup⟩ := List.nodup_cons.mp hnodup
    have hmem : name ∈ name :: moved := List.mem_cons_self ..
    have hthere : disk'.kindAt? (t ++ [name]) ≠ none := by
      rw [hmoved.arrived name hmem]
      exact hold name hmem
    obtain ⟨disk'', hrename, hstep⟩ := (hmoved.docked hdock).symm.rename (hnames name hmem)
      (hcarry name hmem).symm hthere (hmoved.left name hmem [])
    have hback := hmoved.uncons hdock.apart hdock.apart' hname (hfree name hmem) hstep
    rw [moveBack_cons hrename]
    exact ih hback hnodup (fun n hn => hnames n (List.mem_cons_of_mem _ hn))
      (fun n hn => hcarry n (List.mem_cons_of_mem _ hn))
      (fun n hn => hold n (List.mem_cons_of_mem _ hn))
      fun n hn => hfree n (List.mem_cons_of_mem _ hn)

/-- All children are moved, or none: the only obstacle is a child with a path that is no path. -/
theorem moveEach_outcome {moved names : List String} (hdock : Docked source target s t disk)
    (hmoved : Transferred s t moved disk disk') (hnodup : (moved ++ names).Nodup)
    (hnames : ∀ n ∈ moved ++ names, IsName n) (hcarry : ∀ n ∈ moved, Carriable source target n)
    (hold : ∀ n ∈ moved ++ names, disk.kindAt? (s ++ [n]) ≠ none)
    (hfree : ∀ n ∈ moved ++ names, disk.kindAt? (t ++ [n]) = none) :
    (∃ disk'', moveEach source target moved names disk' = .ok () disk'' ∧
        (∀ n ∈ moved ++ names, Carriable source target n) ∧
        Transferred s t (moved ++ names) disk disk'') ∨
      ∃ failure disk'', moveEach source target moved names disk' = .error failure disk'' ∧
        (∃ n ∈ names, ¬Carriable source target n) ∧ disk''.Distinct ∧ Same disk'' disk := by
  induction names generalizing moved disk' with
  | nil =>
    rw [List.append_nil] at *
    exact .inl ⟨disk', rfl, hcarry, hmoved⟩
  | cons name names ih =>
    have hmem : name ∈ moved ++ name :: names := by simp
    have hfresh : name ∉ moved := fun hn =>
      (List.nodup_append.mp hnodup).2.2 name hn name (List.mem_cons_self ..) rfl
    by_cases hname : Carriable source target name
    · have hhere : disk'.kindAt? (s ++ [name]) ≠ none := by
        rw [hmoved.frame]
        · exact hold name hmem
        · intro n hn
          exact ⟨not_below_sibling (ne_of_mem_of_not_mem hn hfresh) [], hdock.not_below_target _ _⟩
      have hthere : disk'.kindAt? (t ++ [name]) = none := by
        rw [hmoved.frame]
        · exact hfree name hmem
        · intro n hn
          exact ⟨hdock.symm.not_below_target _ _,
            not_below_sibling (ne_of_mem_of_not_mem hn hfresh) []⟩
      obtain ⟨disk'', hrename, hstep⟩ :=
        (hmoved.docked hdock).rename (hnames name hmem) hname hhere hthere
      have hsplit : moved ++ name :: names = moved ++ [name] ++ names := by simp
      rw [hsplit] at hnodup hnames hold hfree ⊢
      have hnext := hmoved.concat hdock.apart hdock.apart' hfresh hstep
      have hcarry' : ∀ n ∈ moved ++ [name], Carriable source target n := by
        intro n hn
        rcases List.mem_append.mp hn with hn | hn
        · exact hcarry n hn
        · exact List.mem_singleton.mp hn ▸ hname
      rw [moveEach_cons hrename]
      refine (ih hnext hnodup hnames hcarry' hold hfree).imp_right ?_
      rintro ⟨failure, disk₃, herror, ⟨n, hn, hnot⟩, hsame⟩
      exact ⟨failure, disk₃, herror, ⟨n, List.mem_cons_of_mem _ hn, hnot⟩, hsame⟩
    · have hrefused : ∃ refusal, checkText (source.join name) = .error refusal ∨
          checkText (target.join name) = .error refusal := by
        cases hs : checkText (source.join name) with
        | error refusal => exact ⟨refusal, .inl rfl⟩
        | ok text =>
          cases ht : checkText (target.join name) with
          | error refusal => exact ⟨refusal, .inr rfl⟩
          | ok text => exact absurd ⟨hs, ht⟩ hname
      obtain ⟨refusal, hrefused⟩ := hrefused
      obtain ⟨refusal', hrename⟩ := rename_refused hrefused disk'
      have hfront : ∀ n ∈ moved, n ∈ moved ++ name :: names := fun n hn => by simp [hn]
      have hback := moveBack_same hdock hmoved (List.nodup_append.mp hnodup).1
        (fun n hn => hnames n (hfront n hn)) hcarry (fun n hn => hold n (hfront n hn))
        fun n hn => hfree n (hfront n hn)
      rw [moveEach_refused hrename]
      exact .inr ⟨_, _, rfl, ⟨name, List.mem_cons_self .., hname⟩, hback⟩

theorem moveAll_outcome {names : List String} (hdock : Docked source target s t disk)
    (hnodup : names.Nodup) (hnames : ∀ n ∈ names, IsName n)
    (hold : ∀ n ∈ names, disk.kindAt? (s ++ [n]) ≠ none)
    (hfree : ∀ n ∈ names, disk.kindAt? (t ++ [n]) = none) :
    (∃ disk', moveEach source target [] names disk = .ok () disk' ∧
        (∀ n ∈ names, Carriable source target n) ∧ Transferred s t names disk disk') ∨
      ∃ failure disk', moveEach source target [] names disk = .error failure disk' ∧
        (∃ n ∈ names, ¬Carriable source target n) ∧ disk'.Distinct ∧ Same disk' disk :=
  moveEach_outcome hdock (.nil hdock.distinct s t) hnodup hnames
    (fun _ hn => absurd hn List.not_mem_nil) hold hfree

/-! ## Whole directories -/

section Grounded

variable {root : Path} {base : Place} {ns ms : List String}

/-- Directories below the root are created from the root on. -/
theorem makeDirs_descend (hg : Grounded root base disk) (hms : ∀ m ∈ ms, IsPiece m) (hne : ms ≠ [])
    (htext : checkText (root.descend ms) = .ok ()) :
    makeDirs (root.descend ms) disk = makeDirsFrom disk base ms := by
  rcases List.eq_nil_or_concat ms with rfl | ⟨front, last, rfl⟩
  · exact absurd rfl hne
  · rw [List.concat_eq_append] at htext hms ⊢
    have hlast := hms last (by simp)
    have hfront : ∀ m ∈ front, IsPiece m := fun m hm => hms m (by simp [hm])
    have hdot := Path.endsInDot_join (root.descend front) hlast
    rw [makeDirs, htext, Path.descend_concat, hdot, Path.pieces_join _ hlast.noSlash,
      Path.stem_descend _ hfront, List.append_assoc]
    exact makeDirsFrom_of_follow hg.leads hg.isDir (front ++ [last])

/-- A directory below the root is created, unless a file stands on the way. -/
theorem ensureDir_descend (hg : Grounded root base disk) (hms : ∀ m ∈ ms, IsName m)
    (hne : ms ≠ []) :
    ∃ disk', Grown (base ++ ms) disk disk' ∧
      ((checkText (root.descend ms) = .ok () ∧ Unblocked base ms disk ∧
          disk'.kindAt? (base ++ ms) = some .dir ∧
          ensureDir (root.descend ms) disk = .ok () disk') ∨
        ¬(checkText (root.descend ms) = .ok () ∧ Unblocked base ms disk) ∧
          ∃ failure, ensureDir (root.descend ms) disk = .error failure disk') := by
  cases htext : checkText (root.descend ms) with
  | error refusal =>
    refine ⟨disk, .refl hg.distinct _, .inr ⟨fun h => ?_, _, by rw [ensureDir, makeDirs, htext]⟩⟩
    cases h.1
  | ok text =>
    obtain ⟨disk', hgrown, hend⟩ := makeDirsFrom_names hg.distinct hg.isDir hms []
    have hmake : makeDirs (root.descend ms) disk = makeDirsFrom disk base (ms ++ []) := by
      rw [List.append_nil]
      exact makeDirs_descend hg (fun m hm => (hms m hm).toIsPiece) hne htext
    refine ⟨disk', hgrown, ?_⟩
    rcases hend with ⟨hdir, hmade⟩ | ⟨hblocked, hmade⟩
    · refine .inl ⟨rfl, fun p content hp hfile => ?_, hdir, by rw [ensureDir, hmake, hmade]; rfl⟩
      exact unblocked_of_dir hdir p content hp (hgrown.file_iff.mpr hfile)
    · exact .inr ⟨fun h => hblocked h.2, _, by rw [ensureDir, hmake, hmade]⟩

/-- Everything below `s` is now below `t`; apart from the directories that lead to `t`, everything
else is where it was. -/
structure Moved (s t : Place) (disk disk' : Node) : Prop where
  distinct : disk'.Distinct
  target : ∀ n q, disk'.kindAt? (t ++ n :: q) = disk.kindAt? (s ++ n :: q)
  source : ∀ n q, disk'.kindAt? (s ++ n :: q) = none
  targetDir : disk'.kindAt? t = some .dir
  frame : ∀ q, (s <+: q → q = s) → ¬t <+: q → ¬q <+: t → disk'.kindAt? q = disk.kindAt? q

/-- Once all children are moved, the source holds nothing any more. -/
theorem Transferred.emptied {names : List String} (h : Transferred s t names disk disk')
    (happart : ¬s <+: t) (happart' : ¬t <+: s)
    (hmem : ∀ n, n ∈ names ↔ disk.kindAt? (s ++ [n]) ≠ none) (n : String) (q : Place) :
    disk'.kindAt? (s ++ n :: q) = none := by
  by_cases hn : n ∈ names
  · exact h.left n hn q
  · rw [h.frame, kindAt?_cons_eq_none (not_not.mp (mt (hmem n).mpr hn))]
    intro m hm
    exact ⟨not_below_sibling (ne_of_mem_of_not_mem hm hn) q, fun hbelow =>
      not_below_append happart' happart _ ((List.prefix_append t [m]).trans hbelow)⟩

/-- Once all children are moved, the whole content of the source is in the target. -/
theorem Transferred.moved {names : List String} (h : Transferred s t names disk disk')
    (hdock : Docked source target s t disk)
    (hmem : ∀ n, n ∈ names ↔ disk.kindAt? (s ++ [n]) ≠ none)
    (hclear : ∀ n q, disk.kindAt? (t ++ n :: q) = none) : Moved s t disk disk' := by
  have habsent : ∀ n, n ∉ names → ∀ q, disk.kindAt? (s ++ n :: q) = none := fun n hn q =>
    kindAt?_cons_eq_none (not_not.mp (mt (hmem n).mpr hn)) q
  have hst : ∀ p q : Place, ¬s ++ p <+: t ++ q := hdock.symm.not_below_target
  refine ⟨h.distinct, fun n q => ?_, h.emptied hdock.apart hdock.apart' hmem, ?_,
    fun q hs ht _ => ?_⟩
  · by_cases hn : n ∈ names
    · exact h.arrived n hn q
    · rw [habsent n hn, h.frame, hclear]
      exact fun m hm => ⟨hst _ _, not_below_sibling (ne_of_mem_of_not_mem hm hn) q⟩
  · rw [h.kept (fun hle => absurd hle hdock.apart) fun _ => rfl, hdock.targetDir]
  · exact h.kept hs fun hle => absurd hle ht

/-- Directories that were created on the way to the target do not matter. -/
theorem Moved.of_grown {disk₁ : Node} (h : Moved s t disk₁ disk') (hgrown : Grown t disk disk₁)
    (hst : ¬s <+: t) : Moved s t disk disk' where
  distinct := h.distinct
  target := fun n q => (h.target n q).trans
    (hgrown.eq_of_not_above fun hle => hst ((List.prefix_append s _).trans hle))
  source := h.source
  targetDir := h.targetDir
  frame := fun q hs ht hq => (h.frame q hs ht hq).trans (hgrown.eq_of_not_above hq)

/-- Apart from the two directories and what is below them, only directories that lead to the target
can be new. -/
theorem Moved.dir (h : Moved s t disk disk') {q : Place} (hs : s <+: q → q = s)
    (ht : ¬t <+: q) (hq : disk.kindAt? q = some .dir) : disk'.kindAt? q = some .dir := by
  by_cases habove : q <+: t
  · exact kindAt?_eq_dir_above habove h.targetDir
  · rw [h.frame q hs ht habove, hq]

/-- The root stays where it is when something is moved below it. -/
theorem Moved.grounded {n m : String} {ns ms : List String}
    (h : Moved (base ++ n :: ns) (base ++ m :: ms) disk disk') (hg : Grounded root base disk) :
    Grounded root base disk' := by
  have hbelow : ∀ (x : String) (xs : List String) (q : Place), (base <+: q → q = base) →
      ¬base ++ x :: xs <+: q := fun x xs q hbase hle =>
    not_below_above base x xs (hbase ((List.prefix_append base _).trans hle) ▸ hle)
  refine hg.mono h.distinct fun q hq hbase => h.dir (fun hle => ?_) (hbelow m ms q hbase) hq
  exact absurd hle (hbelow n ns q hbase)

/-- What it takes to move the children of one directory into another: no file stands on the way to
the target, and all texts are paths. -/
structure Movable (root : Path) (base : Place) (ns ms : List String) (disk : Node) : Prop where
  text : checkText (root.descend ms) = .ok ()
  unblocked : Unblocked base ms disk
  carriable : ∀ n, disk.kindAt? (base ++ ns ++ [n]) ≠ none →
    Carriable (root.descend ns) (root.descend ms) n

theorem moveDir_eq {children : List (String × Node)}
    (hentries : Disk.entries disk source = .ok children)
    (hensure : ensureDir target disk = .ok () disk') :
    moveDir source target disk = moveEach source target [] (children.map (·.1)) disk' := by
  simp only [moveDir, Files.entries, look, bind, EStateM.bind, hentries, hensure]

theorem moveDir_error {children : List (String × Node)} {failure : Failure}
    (hentries : Disk.entries disk source = .ok children)
    (hensure : ensureDir target disk = .error failure disk') :
    moveDir source target disk = .error failure disk' := by
  simp only [moveDir, Files.entries, look, bind, EStateM.bind, hentries, hensure]

/-- The children of a directory are all moved into one that holds nothing, or stay. -/
theorem moveDir_outcome (hg : Grounded root base disk) (hns : ∀ n ∈ ns, IsName n)
    (hms : ∀ m ∈ ms, IsName m) (hne : ms ≠ []) (htext : checkText (root.descend ns) = .ok ())
    (hs : disk.kindAt? (base ++ ns) = some .dir) (happart : ¬ns <+: ms) (happart' : ¬ms <+: ns)
    (hnamed : ∀ n, disk.kindAt? (base ++ ns ++ [n]) ≠ none → IsName n)
    (hclear : ∀ n, disk.kindAt? (base ++ ms ++ [n]) = none) :
    (Movable root base ns ms disk ∧ ∃ disk',
        moveDir (root.descend ns) (root.descend ms) disk = .ok () disk' ∧
        Moved (base ++ ns) (base ++ ms) disk disk') ∨
      ¬Movable root base ns ms disk ∧ ∃ failure disk',
        moveDir (root.descend ns) (root.descend ms) disk = .error failure disk' ∧
        Grown (base ++ ms) disk disk' := by
  obtain ⟨children, hchildren⟩ := kindAt?_eq_dir_iff.mp hs
  have hentries := entries_descend hg.leads (ne_nil_of_apart happart) hns htext hchildren
  have hmem : ∀ n, n ∈ children.map (·.1) ↔ disk.kindAt? (base ++ ns ++ [n]) ≠ none := fun n =>
    mem_names_iff hg.distinct hchildren
  have hnodup := hg.distinct _ _ hchildren
  obtain ⟨disk₁, hgrown, hend⟩ := ensureDir_descend hg hms hne
  rcases hend with ⟨htarget, hfree, hdir, hensure⟩ | ⟨hnot, failure, hensure⟩
  · have hg₁ : Grounded root base disk₁ := hg.of_grown hgrown
    have hdock := Docked.of_grounded hg₁ hns hms (hgrown.dir hs) hdir happart happart'
    have hbelow : ∀ q, ¬base ++ ns ++ q <+: base ++ ms := fun q h =>
      happart ((List.prefix_append_right_inj base).mp ((List.prefix_append _ q).trans h))
    have hsource : ∀ q, disk₁.kindAt? (base ++ ns ++ q) = disk.kindAt? (base ++ ns ++ q) :=
      fun q => hgrown.eq_of_not_above (hbelow q)
    have htarget' : ∀ n q, disk₁.kindAt? (base ++ ms ++ n :: q) = none := by
      intro n q
      have hnone : disk₁.kindAt? (base ++ ms ++ [n]) = none := by
        rw [hgrown.eq_of_not_above, hclear]
        exact not_below_above _ n []
      exact kindAt?_cons_eq_none hnone q
    rw [moveDir_eq hentries hensure]
    rcases moveAll_outcome hdock hnodup (fun n hn => hnamed n ((hmem n).mp hn))
        (fun n hn => by rw [hsource]; exact (hmem n).mp hn) (fun n _ => htarget' n []) with
      ⟨disk', hok, hcarry, hmoved⟩ | ⟨failure, disk', herror, ⟨n, hn, hnot⟩, hdistinct, hsame⟩
    · refine .inl ⟨⟨htarget, hfree, fun n hn => hcarry n ((hmem n).mpr hn)⟩, disk', hok, ?_⟩
      have hmem' : ∀ n, n ∈ children.map (·.1) ↔ disk₁.kindAt? (base ++ ns ++ [n]) ≠ none := by
        intro n
        rw [hmem, hsource]
      exact (hmoved.moved hdock hmem' htarget').of_grown hgrown (by simpa using hbelow [])
    · refine .inr ⟨fun h => hnot (h.carriable n ((hmem n).mp hn)), failure, disk', herror, ?_⟩
      exact ⟨hdistinct, fun q hq => (hsame q).trans (hgrown.kept q hq), fun q hq hq' => by
        rw [hsame] at hq' ⊢
        exact hgrown.added q hq hq'⟩
  · exact .inr ⟨fun h => hnot ⟨h.text, h.unblocked⟩, failure, disk₁, moveDir_error hentries hensure,
      hgrown⟩

end Grounded

end ConfigStore.Files
