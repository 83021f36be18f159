import ConfigStore.Proofs.Disk.Changing
import ConfigStore.Proofs.Files.Cleaning
import ConfigStore.Proofs.Files.Looking
import ConfigStore.Proofs.Files.Merging

/-!
# A directory in which a store works

Whatever files there are below the root of a store, two things must stay true while its documents
are moved about: the root leads to its directory, and everything below that directory has a proper
name. Moving and cleaning directories keeps both, whether or not it succeeds.

* `Disk.Site` is this condition; `Disk.Site.sprouted`, `Disk.Site.changed`, `Disk.Site.transferred`
  and their like say which changes of the tree keep it.
* `Files.Route` says between which directories children can be moved; `Disk.Site.moveDir` and
  `Disk.Site.clean` say what two actions on directories leave behind.
-/

namespace ConfigStore

open Node Disk Files

/-- The root leads to its directory, and all entries below have names that an entry can have. -/
structure Disk.Site (root : Path) (base : Place) (disk : Node) : Prop where
  grounded : Grounded root base disk
  named : ∀ q name, disk.kindAt? (base ++ q ++ [name]) ≠ none → IsName name

/-- The names that lead from a root to two directories, the children of one of which can be moved to
the other: neither directory is within the other one, and if the first has proper names then so has
the second. -/
structure Files.Route (ns ms : List String) : Prop where
  pieces : ∀ n ∈ ns, IsPiece n
  names : (∀ n ∈ ns, IsName n) → ∀ m ∈ ms, IsName m
  source : ns ≠ []
  target : ms ≠ []
  apart : ¬ns <+: ms
  apart' : ¬ms <+: ns

namespace Disk.Site

variable {root : Path} {base here s t : Place} {disk disk' : Node} {name : String}
  {ns ms names gone lost : List String}

/-! ## Changes of the tree -/

theorem same (h : Site root base disk) (hd : disk'.Distinct) (hsame : Same disk' disk) :
    Site root base disk' where
  grounded := h.grounded.mono hd fun q hq _ => (hsame q).trans hq
  named q n hn := h.named q n (hsame _ ▸ hn)

theorem sprouted (h : Site root base disk) (hs : Sprouted disk disk') : Site root base disk' where
  grounded := h.grounded.mono hs.distinct fun q hq _ => hs.dir hq
  named := by
    intro q n hn
    by_cases hnone : disk.kindAt? (base ++ q ++ [n]) = none
    · obtain ⟨-, front, name, hplace, hname⟩ := hs.added _ hnone hn
      rwa [(List.append_inj' hplace rfl).2 |> List.cons.inj |>.1]
    · exact h.named q n hnone

/-- Directories that are created on the way to a place below the base have the names of the way. -/
theorem sprouted_of_grown (h : Site root base disk) (hns : ∀ n ∈ ns, IsName n)
    (hgrown : Grown (base ++ ns) disk disk') : Sprouted disk disk' := by
  refine ⟨hgrown.distinct, hgrown.kept, fun q hq hq' => ?_⟩
  obtain ⟨hdir, hle⟩ := hgrown.added q hq hq'
  refine ⟨hdir, ?_⟩
  rcases List.prefix_or_prefix_of_prefix hle (List.prefix_append base ns) with habove | ⟨r, rfl⟩
  · rw [kindAt?_eq_dir_above habove h.grounded.isDir] at hq
    cases hq
  · rcases List.eq_nil_or_concat r with rfl | ⟨front, last, rfl⟩
    · rw [List.append_nil, h.grounded.isDir] at hq
      cases hq
    · rw [List.concat_eq_append] at hle ⊢
      refine ⟨base ++ front, last, (List.append_assoc ..).symm, hns last ?_⟩
      exact ((List.prefix_append_right_inj base).mp hle).subset (by simp)

theorem grown (h : Site root base disk) (hns : ∀ n ∈ ns, IsName n)
    (hgrown : Grown (base ++ ns) disk disk') : Site root base disk' :=
  h.sprouted (h.sprouted_of_grown hns hgrown)

/-- A file has been written or removed. -/
theorem changed (h : Site root base disk) (hname : IsName name) (hd : disk'.Distinct)
    (hframe : ∀ q, q ≠ here ++ [name] → disk'.kindAt? q = disk.kindAt? q)
    (hdir : disk.kindAt? (here ++ [name]) ≠ some .dir) : Site root base disk' where
  grounded := h.grounded.mono hd fun q hq _ => by
    rw [hframe q, hq]
    rintro rfl
    exact hdir hq
  named := by
    intro q n hn
    by_cases heq : base ++ q ++ [n] = here ++ [name]
    · rwa [(List.append_inj' heq rfl).2 |> List.cons.inj |>.1]
    · exact h.named q n (hframe _ heq ▸ hn)

/-- Files of one directory are gone. -/
theorem cleared (h : Site root base disk)
    (hgone : ∀ n ∈ gone, ∃ content, disk.kindAt? (here ++ [n]) = some (.file content))
    (hcleared : Cleared here gone disk disk') : Site root base disk' where
  grounded := h.grounded.mono hcleared.distinct fun _ hq _ => hcleared.dir hgone hq
  named := by
    intro q n hn
    rcases hcleared.eq_or_absent (base ++ q ++ [n]) with hsame | ⟨hnone, -⟩
    · exact h.named q n (hsame ▸ hn)
    · exact absurd hnone hn

/-- Whatever was below a directory is gone, and the directory as well. -/
theorem removed (h : Site root base disk) (hne : ns ≠ [])
    (hremoved : Removed (base ++ ns) disk disk') : Site root base disk' where
  grounded := h.grounded.mono hremoved.distinct fun q hq hbase => by
    rw [hremoved.frame q, hq]
    intro hbelow
    obtain ⟨n, ns, rfl⟩ := List.exists_cons_of_ne_nil hne
    rw [hbase ((List.prefix_append base _).trans hbelow)] at hbelow
    exact not_below_above base n ns hbelow
  named := by
    intro q n hn
    refine h.named q n ?_
    rwa [hremoved.frame] at hn
    rintro ⟨r, hr⟩
    rw [← hr, hremoved.absent] at hn
    exact hn rfl

/-- The last name of a place below a child is that of the child or of something below it. -/
theorem named_below (h : Site root base disk) {n : String} (hn : IsName n) {front r : Place}
    {last : String} (hplace : front ++ [last] = t ++ n :: r)
    (hkind : disk.kindAt? (base ++ ns ++ n :: r) ≠ none) : IsName last := by
  rcases List.eq_nil_or_concat r with rfl | ⟨r, x, rfl⟩
  · rwa [(List.append_inj' hplace rfl).2 |> List.cons.inj |>.1]
  · rw [List.concat_eq_append] at hplace hkind
    have hsplit : t ++ n :: (r ++ [x]) = (t ++ n :: r) ++ [x] := by simp
    rw [hsplit] at hplace
    rw [(List.append_inj' hplace rfl).2 |> List.cons.inj |>.1]
    refine h.named (ns ++ n :: r) x ?_
    rwa [show base ++ (ns ++ n :: r) ++ [x] = base ++ ns ++ n :: (r ++ [x]) by simp]

/-- A directory on the way to the base is not below a directory within it, unless it is that one. -/
theorem eq_of_below {q : Place} (h : base <+: q → q = base) (hbelow : base ++ ns <+: q) :
    q = base ++ ns := by
  obtain rfl := h ((List.prefix_append base ns).trans hbelow)
  exact (hbelow.eq_of_length_le (by simp)).symm

/-- Children have been moved from one directory to another. -/
theorem transferred (h : Site root base disk) (hnames : ∀ n ∈ names, IsName n)
    (hmoved : Transferred (base ++ ns) (base ++ ms) names disk disk') : Site root base disk' where
  grounded := h.grounded.mono hmoved.distinct fun q hq hbase => by
    rw [hmoved.kept (eq_of_below hbase) (eq_of_below hbase), hq]
  named := by
    intro q last hlast
    rcases hmoved.place_cases (base ++ q ++ [last]) with
      hsame | ⟨hnone, -⟩ | ⟨n, hn, r, hplace, hkind⟩
    · exact h.named q last (hsame ▸ hlast)
    · exact absurd hnone hlast
    · exact h.named_below (hnames n hn) hplace (hkind ▸ hlast)

/-- A directory has lost what it held under some names. -/
theorem reverted (h : Site root base disk) (hreverted : Reverted (base ++ ms) lost disk disk') :
    Site root base disk' where
  grounded := h.grounded.mono hreverted.distinct fun q hq hbase => by
    rw [hreverted.kept (eq_of_below hbase), hq]
  named := by
    intro q last hlast
    rcases hreverted.eq_or_gone (base ++ q ++ [last]) with hsame | ⟨hgone, -⟩
    · exact h.named q last (hsame ▸ hlast)
    · exact absurd hgone hlast

/-! ## Actions on directories -/

/-- Where a directory below the root can be listed, its names are names. -/
theorem dir_of_entries (h : Site root base disk) (hns : ∀ n ∈ ns, IsPiece n) (hne : ns ≠ [])
    {children : List (String × Node)}
    (hentries : Disk.entries disk (root.descend ns) = .ok children) :
    (∀ n ∈ ns, IsName n) ∧ disk.kindAt? (base ++ ns) = some .dir := by
  obtain ⟨front, last, rfl⟩ := (List.eq_nil_or_concat ns).resolve_left hne
  rw [List.concat_eq_append] at *
  rw [Path.descend_concat] at hentries
  obtain ⟨hnames, hchildren⟩ := entries_inv h.grounded.leads
    (fun n hn => hns n (List.mem_append_left _ hn)) (hns last (by simp)) hentries
  rw [List.append_assoc] at hchildren
  exact ⟨hnames, kindAt?_eq_dir_iff.mpr ⟨_, hchildren⟩⟩

/-- Directories are created on the way to the second of two directories, and then the children of
the first are moved into it, or back: then what it held under their names is lost. -/
theorem moveDir (h : Site root base disk) (hroute : Route ns ms) :
    ∃ mid disk', Ends (Files.moveDir (root.descend ns) (root.descend ms)) disk disk' ∧
      Site root base disk' ∧ Sprouted disk mid ∧ Grown (base ++ ms) disk mid ∧
      ((∃ names, Transferred (base ++ ns) (base ++ ms) names mid disk') ∨
        ∃ lost, Reverted (base ++ ms) lost mid disk') := by
  cases hentries : Disk.entries disk (root.descend ns) with
  | error refusal =>
    refine ⟨disk, disk, .inr ⟨.disk (.readDir (root.descend ns)) refusal, ?_⟩, h,
      .refl h.grounded.distinct, .refl h.grounded.distinct _,
      .inr ⟨[], .nil h.grounded.distinct _⟩⟩
    simp only [Files.moveDir, Files.entries, look, bind, EStateM.bind, hentries]
  | ok children =>
    obtain ⟨hnames, hdir⟩ := h.dir_of_entries hroute.pieces hroute.source hentries
    have hnames' := hroute.names hnames
    obtain ⟨mid, names, hgrown, hmem, hend⟩ := moveDir_merge h.grounded hnames hnames'
      hroute.target (checkText_of_entries hentries) hdir hroute.apart hroute.apart'
      fun n hn => h.named ns n hn
    have hmid := h.grown hnames' hgrown
    have hsprouted := h.sprouted_of_grown hnames' hgrown
    rcases hend with ⟨disk', hok, -, -, hmoved⟩ | ⟨failure, disk', lost, herror, -, hreverted⟩
    · refine ⟨mid, disk', .inl ⟨(), hok⟩, hmid.transferred (fun n hn => ?_) hmoved, hsprouted,
        hgrown, .inl ⟨names, hmoved⟩⟩
      exact h.named ns n ((hmem n).mp hn)
    · exact ⟨mid, disk', .inr ⟨failure, herror⟩, hmid.reverted hreverted, hsprouted, hgrown,
        .inr ⟨lost, hreverted⟩⟩

/-- A directory is removed with its files, or stays. -/
theorem clean (h : Site root base disk) (hns : ∀ n ∈ ns, IsPiece n) (hne : ns ≠ []) :
    ∃ disk', Ends (Files.clean (root.descend ns)) disk disk' ∧ Site root base disk' ∧
      (disk'.Distinct ∧ Same disk' disk ∨
        disk.kindAt? (base ++ ns) = some .dir ∧ Removed (base ++ ns) disk disk') := by
  cases hentries : Disk.entries disk (root.descend ns) with
  | error refusal =>
    refine ⟨disk, ?_, h, .inl ⟨h.grounded.distinct, fun _ => rfl⟩⟩
    by_cases hmissing : refusal = .notFound
    · exact .inl ⟨(), by simp only [Files.clean, hentries, hmissing]⟩
    · refine .inr ⟨.disk (.readDir (root.descend ns)) refusal, ?_⟩
      cases refusal <;> first | exact absurd rfl hmissing | simp only [Files.clean, hentries]
  | ok children =>
    obtain ⟨hnames, hdir⟩ := h.dir_of_entries hns hne hentries
    rcases clean_descend h.grounded hnames hne (checkText_of_entries hentries) hdir
        (fun n hn => h.named ns n hn) with
      ⟨-, disk', hok, hremoved⟩ | ⟨-, failure, disk', herror, hd, hsame⟩
    · exact ⟨disk', .inl ⟨(), hok⟩, h.removed hne hremoved, .inr ⟨hdir, hremoved⟩⟩
    · exact ⟨disk', .inr ⟨failure, herror⟩, h.same hd hsame, .inl ⟨hd, hsame⟩⟩

end Disk.Site

end ConfigStore
