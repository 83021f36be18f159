import Mathlib.Data.List.DropRight
import ConfigStore.Proofs.Disk.Extending
import ConfigStore.Proofs.Disk.Following

/-!
# What the operations of a disk do

First it is said of every path when an operation succeeds and what comes of it. Then each operation
is described for a path `path.join name` whose front leads to a directory, since the store only
works on entries of directories: what is there, and what stands where afterwards.

* `Disk.find_eq_ok_iff`, `Disk.readFile_eq_ok_iff`, `Disk.entries_eq_ok_iff`,
  `Disk.writeFile_eq_ok_iff` and `Disk.removeFile_eq_ok_iff` are about all paths.
* `Disk.readFile_join`, `Disk.entries_of_leads` look; `Disk.readFile_absent` is the failure to find.
* `Disk.writeFile_join`, `Disk.removeFile_join`, `Disk.removeDir_outcome` change one entry.
* `Disk.rename_join` moves a whole subtree; `Disk.Relocated` says where everything is afterwards.
* `Disk.makeDirsFrom_names` creates a chain of directories; `Disk.Grown` says that nothing but
  directories was added.
-/

namespace ConfigStore.Disk

open Node

variable {disk disk' : Node} {path target : Path} {place there : Place} {name other : String}

/-! ## Looking -/

theorem resolve_join (hleads : Leads path place disk) (hdir : disk.kindAt? place = some .dir)
    (hname : IsName name) (htext : checkText (path.join name) = .ok ()) :
    resolve disk (path.join name) = .ok (place ++ [name]) := by
  have hjoin := hleads.join hdir hname
  rw [Leads, Path.stem_eq_pieces (Path.pieces_join path hname.noSlash) hname.ne_empty] at hjoin
  exact resolve_eq_ok_iff.mpr ⟨Path.isEmpty_join path hname.toIsPiece,
    reach_eq_ok_iff.mpr ⟨htext, hjoin⟩⟩

theorem find_eq_ok_iff {node : Node} : find disk path = .ok (place, node) ↔
    resolve disk path = .ok place ∧ disk.at? place = some node := by
  rw [find]
  cases resolve disk path with
  | error refusal => simp only [bind, Except.bind, reduceCtorEq, false_and]
  | ok there =>
    simp only [bind, Except.bind, Except.ok.injEq]
    constructor
    · intro h
      split at h
      · cases h
      next hnode =>
        cases h
        exact ⟨rfl, hnode⟩
    · rintro ⟨rfl, hnode⟩
      rw [hnode]

theorem readFile_eq_ok_iff {content : Bytes} :
    readFile disk path = .ok content ↔ ∃ place, find disk path = .ok (place, .file content) := by
  rw [readFile]
  cases find disk path with
  | error refusal => simp only [bind, Except.bind, reduceCtorEq, exists_false]
  | ok found =>
    obtain ⟨there, c | es⟩ := found <;> simp [bind, Except.bind]

theorem entries_eq_ok_iff {children : List (String × Node)} :
    entries disk path = .ok children ↔ ∃ place, find disk path = .ok (place, .dir children) := by
  rw [entries]
  cases find disk path with
  | error refusal => simp only [bind, Except.bind, reduceCtorEq, exists_false]
  | ok found =>
    obtain ⟨there, c | es⟩ := found <;> simp [bind, Except.bind]

theorem find_join (hleads : Leads path place disk) (hdir : disk.kindAt? place = some .dir)
    (hname : IsName name) (htext : checkText (path.join name) = .ok ()) {node : Node}
    (hnode : disk.at? (place ++ [name]) = some node) :
    find disk (path.join name) = .ok (place ++ [name], node) :=
  find_eq_ok_iff.mpr ⟨resolve_join hleads hdir hname htext, hnode⟩

theorem find_join_none (hleads : Leads path place disk) (hdir : disk.kindAt? place = some .dir)
    (hname : IsName name) (htext : checkText (path.join name) = .ok ())
    (hnone : disk.kindAt? (place ++ [name]) = none) :
    find disk (path.join name) = .error .notFound := by
  simp only [find, resolve_join hleads hdir hname htext, bind, Except.bind,
    kindAt?_eq_none_iff.mp hnone]

theorem readFile_join (hleads : Leads path place disk) (hdir : disk.kindAt? place = some .dir)
    (hname : IsName name) (htext : checkText (path.join name) = .ok ()) {content : Bytes}
    (hfile : disk.kindAt? (place ++ [name]) = some (.file content)) :
    readFile disk (path.join name) = .ok content :=
  readFile_eq_ok_iff.mpr ⟨_, find_join hleads hdir hname htext (kindAt?_eq_file_iff.mp hfile)⟩

theorem readFile_join_none (hleads : Leads path place disk) (hdir : disk.kindAt? place = some .dir)
    (hname : IsName name) (htext : checkText (path.join name) = .ok ())
    (hnone : disk.kindAt? (place ++ [name]) = none) :
    readFile disk (path.join name) = .error .notFound := by
  rw [readFile, find_join_none hleads hdir hname htext hnone]
  rfl

theorem find_of_leads (hleads : Leads path place disk) (hempty : path.isEmpty = false)
    (htext : checkText path = .ok ()) {children : List (String × Node)}
    (hchildren : disk.at? place = some (.dir children)) :
    find disk path = .ok (place, .dir children) := by
  have hfollow := hleads.follow_pieces (kindAt?_eq_dir_iff.mpr ⟨_, hchildren⟩)
  have hresolve := resolve_eq_ok_iff.mpr ⟨hempty, reach_eq_ok_iff.mpr ⟨htext, hfollow⟩⟩
  exact find_eq_ok_iff.mpr ⟨hresolve, hchildren⟩

theorem entries_of_leads (hleads : Leads path place disk) (hempty : path.isEmpty = false)
    (htext : checkText path = .ok ()) {children : List (String × Node)}
    (hchildren : disk.at? place = some (.dir children)) : entries disk path = .ok children :=
  entries_eq_ok_iff.mpr ⟨place, find_of_leads hleads hempty htext hchildren⟩

/-- A directory below one that a path leads to is listed. -/
theorem entries_descend (hleads : Leads path place disk) {names : List String} (hne : names ≠ [])
    (hnames : ∀ n ∈ names, IsName n) (htext : checkText (path.descend names) = .ok ())
    {children : List (String × Node)}
    (hchildren : disk.at? (place ++ names) = some (.dir children)) :
    entries disk (path.descend names) = .ok children :=
  entries_of_leads (hleads.descend hnames (kindAt?_eq_dir_iff.mpr ⟨children, hchildren⟩))
    (Path.isEmpty_descend path hne fun n hn => (hnames n hn).toIsPiece) htext hchildren

/-- What is listed is the directory to which the path leads. -/
theorem resolve_of_entries {children : List (String × Node)}
    (h : entries disk path = .ok children) :
    ∃ place, resolve disk path = .ok place ∧ Leads path place disk ∧
      disk.at? place = some (.dir children) := by
  obtain ⟨place, hfind⟩ := entries_eq_ok_iff.mp h
  obtain ⟨hresolve, hchildren⟩ := find_eq_ok_iff.mp hfind
  exact ⟨place, hresolve, leads_of_follow (follow_of_resolve hresolve).2, hchildren⟩

theorem leads_of_entries {children : List (String × Node)} (h : entries disk path = .ok children) :
    ∃ place, Leads path place disk ∧ disk.at? place = some (.dir children) := by
  obtain ⟨place, -, hleads, hchildren⟩ := resolve_of_entries h
  exact ⟨place, hleads, hchildren⟩

theorem isEmpty_of_entries {children : List (String × Node)}
    (h : entries disk path = .ok children) : path.isEmpty = false := by
  obtain ⟨place, hresolve, -⟩ := resolve_of_entries h
  exact (resolve_eq_ok_iff.mp hresolve).1

theorem checkText_of_entries {children : List (String × Node)}
    (h : entries disk path = .ok children) : checkText path = .ok () := by
  obtain ⟨place, hresolve, -⟩ := resolve_of_entries h
  exact (follow_of_resolve hresolve).1

/-- No file stands at a place that is some of the names away, or all of them. -/
def Unblocked (here : Place) (names : List String) (disk : Node) : Prop :=
  ∀ p content, p <+: names → disk.kindAt? (here ++ p) ≠ some (.file content)

theorem unblocked_of_dir {here : Place} {names : List String}
    (h : disk.kindAt? (here ++ names) = some .dir) : Unblocked here names disk := by
  intro p content hp hfile
  have := kindAt?_eq_dir_above ((List.prefix_append_right_inj here).mpr hp) h
  rw [hfile] at this
  cases this

/-- Following stops at the first directory that is missing on the way. -/
theorem follow_absent {here : Place} {names rest : List String}
    (hnames : ∀ n ∈ names, IsName n) (hdir : disk.kindAt? here = some .dir)
    (habsent : disk.kindAt? (here ++ names) = none) (hfree : Unblocked here names disk)
    (hrest : rest ≠ []) : follow disk here (names ++ rest) = .error .notFound := by
  induction names generalizing here with
  | nil =>
    rw [List.append_nil, hdir] at habsent
    cases habsent
  | cons n names ih =>
    rw [List.cons_append, follow_name hdir (hnames n (List.mem_cons_self ..))]
    have hsplit : here ++ n :: names = here ++ [n] ++ names := by simp
    cases hnext : disk.kindAt? (here ++ [n]) with
    | none =>
      obtain ⟨first, others, hcons⟩ : ∃ first others, names ++ rest = first :: others :=
        List.exists_cons_of_ne_nil (by simp [hrest])
      rw [hcons, follow_missing hnext]
    | some kind =>
      cases kind with
      | file content => exact absurd hnext (hfree [n] content ⟨names, rfl⟩)
      | dir =>
        refine ih (fun m hm => hnames m (List.mem_cons_of_mem _ hm)) hnext (hsplit ▸ habsent) ?_
        intro p content hp
        have := hfree (n :: p) content (List.cons_prefix_cons.mpr ⟨rfl, hp⟩)
        rwa [show here ++ n :: p = here ++ [n] ++ p by simp] at this

/-- What is missing is not found, and neither is what lies in a directory that is missing. -/
theorem find_absent (hleads : Leads path place disk) (hdir : disk.kindAt? place = some .dir)
    {names : List String} (hnames : ∀ n ∈ names, IsName n) (hname : IsName name)
    (htext : checkText ((path.descend names).join name) = .ok ())
    (habsent : disk.kindAt? (place ++ names ++ [name]) = none)
    (hfree : Unblocked place names disk) :
    find disk ((path.descend names).join name) = .error .notFound := by
  cases hkind : disk.kindAt? (place ++ names) with
  | none =>
    have hpieces : ((path.descend names).join name).pieces = path.stem ++ (names ++ [name]) := by
      rw [Path.pieces_join _ hname.noSlash, Path.stem_descend _ fun n hn => (hnames n hn).toIsPiece,
        List.append_assoc]
    have hfollow : follow disk [] ((path.descend names).join name).pieces = .error .notFound := by
      rw [hpieces, follow_append, hleads, Except.bind]
      exact follow_absent hnames hdir hkind hfree (by simp)
    rw [find, resolve_eq_reach (Path.isEmpty_join _ hname.toIsPiece), reach, htext]
    simp only [hfollow, bind, Except.bind]
  | some kind =>
    cases kind with
    | file content => exact absurd hkind (hfree names content (List.prefix_refl _))
    | dir => exact find_join_none (hleads.descend hnames hkind) hkind hname htext habsent

theorem readFile_absent (hleads : Leads path place disk) (hdir : disk.kindAt? place = some .dir)
    {names : List String} (hnames : ∀ n ∈ names, IsName n) (hname : IsName name)
    (htext : checkText ((path.descend names).join name) = .ok ())
    (habsent : disk.kindAt? (place ++ names ++ [name]) = none)
    (hfree : Unblocked place names disk) :
    readFile disk ((path.descend names).join name) = .error .notFound := by
  rw [readFile, find_absent hleads hdir hnames hname htext habsent hfree]
  rfl

theorem entries_absent (hleads : Leads path place disk) (hdir : disk.kindAt? place = some .dir)
    {names : List String} (hnames : ∀ n ∈ names, IsName n) (hname : IsName name)
    (htext : checkText ((path.descend names).join name) = .ok ())
    (habsent : disk.kindAt? (place ++ names ++ [name]) = none)
    (hfree : Unblocked place names disk) :
    entries disk ((path.descend names).join name) = .error .notFound := by
  rw [entries, find_absent hleads hdir hnames hname htext habsent hfree]
  rfl

theorem noNul_of_checkText (h : checkText path = .ok ()) :
    ∀ piece ∈ path.pieces, '\x00' ∉ piece.toList := by
  intro piece hpiece hmem
  rw [checkText, if_pos] at h
  · cases h
  · rw [hasNul, List.any_eq_true]
    exact ⟨piece, hpiece, by simpa using hmem⟩

/-- What is found at the end of a chain of pieces stands there, and all pieces are names. -/
theorem find_inv (hleads : Leads path place disk) {names : List String}
    (hnames : ∀ n ∈ names, IsPiece n) (hname : IsPiece name) {node : Node}
    (h : find disk ((path.descend names).join name) = .ok (there, node)) :
    (∀ n ∈ names ++ [name], IsName n) ∧ checkText ((path.descend names).join name) = .ok () ∧
      disk.at? (place ++ names ++ [name]) = some node := by
  have hall : ∀ n ∈ names ++ [name], IsPiece n := by
    intro n hn
    rcases List.mem_append.mp hn with hn | hn
    · exact hnames n hn
    · rwa [List.mem_singleton.mp hn]
  have hpieces : ((path.descend names).join name).pieces = path.stem ++ (names ++ [name]) := by
    rw [Path.pieces_join _ hname.noSlash, Path.stem_descend _ hnames, List.append_assoc]
  obtain ⟨hresolve, hnode⟩ := find_eq_ok_iff.mp h
  obtain ⟨htext, hfollow⟩ := follow_of_resolve hresolve
  have hnul : ∀ n ∈ names ++ [name], '\x00' ∉ n.toList := fun n hn =>
    noNul_of_checkText htext n (hpieces ▸ List.mem_append_right _ hn)
  rw [hpieces, follow_append, hleads, Except.bind] at hfollow
  obtain ⟨rfl, hfits⟩ := follow_pieces_inv hall hfollow
  exact ⟨fun n hn => ⟨hall n hn, hnul n hn, hfits n hn⟩, htext, List.append_assoc .. ▸ hnode⟩

/-- A file that can be read at the end of a chain of pieces stands there, and all pieces are
names. -/
theorem readFile_inv (hleads : Leads path place disk) {names : List String}
    (hnames : ∀ n ∈ names, IsPiece n) (hname : IsPiece name) {content : Bytes}
    (h : readFile disk ((path.descend names).join name) = .ok content) :
    (∀ n ∈ names ++ [name], IsName n) ∧ checkText ((path.descend names).join name) = .ok () ∧
      disk.kindAt? (place ++ names ++ [name]) = some (.file content) := by
  obtain ⟨there, hfind⟩ := readFile_eq_ok_iff.mp h
  obtain ⟨hall, htext, hnode⟩ := find_inv hleads hnames hname hfind
  exact ⟨hall, htext, kindAt?_eq_file_iff.mpr hnode⟩

/-- A directory that can be listed at the end of a chain of pieces stands there, and all pieces are
names. -/
theorem entries_inv (hleads : Leads path place disk) {names : List String}
    (hnames : ∀ n ∈ names, IsPiece n) (hname : IsPiece name) {children : List (String × Node)}
    (h : entries disk ((path.descend names).join name) = .ok children) :
    (∀ n ∈ names ++ [name], IsName n) ∧
      disk.at? (place ++ names ++ [name]) = some (.dir children) := by
  obtain ⟨there, hfind⟩ := entries_eq_ok_iff.mp h
  obtain ⟨hall, -, hnode⟩ := find_inv hleads hnames hname hfind
  exact ⟨hall, hnode⟩

/-- Where a file can be read below a root, the root is a directory. -/
theorem root_of_readFile {names : List String} (hnames : ∀ n ∈ names, IsPiece n) (hne : names ≠ [])
    (hname : IsPiece name) {content : Bytes}
    (h : readFile disk ((path.descend names).join name) = .ok content) :
    ∃ base, reach disk path = .ok base ∧ disk.kindAt? base = some .dir := by
  have hpieces : ((path.descend names).join name).pieces = path.stem ++ (names ++ [name]) := by
    rw [Path.pieces_join _ hname.noSlash, Path.stem_descend _ hnames, List.append_assoc]
  obtain ⟨there, hfind⟩ := readFile_eq_ok_iff.mp h
  obtain ⟨htext, hfollow⟩ := follow_of_resolve (find_eq_ok_iff.mp hfind).1
  rw [hpieces] at hfollow
  obtain ⟨base, hleads, hrest⟩ := follow_append_eq_ok_iff.mp hfollow
  obtain ⟨n, ns, rfl⟩ := List.exists_cons_of_ne_nil hne
  have hdir := dir_of_follow hrest
  exact ⟨base, reach_eq_ok_iff.mpr ⟨checkText_of_descend hnames (checkText_of_join hname htext),
    Leads.follow_pieces hleads hdir⟩, hdir⟩

/-! ## Changing one entry -/

/-- When a file is written, and what comes of it. -/
theorem writeFile_eq_ok_iff {content : Bytes} : writeFile path content disk = .ok disk' ↔
    path.isEmpty = false ∧ checkText path = .ok () ∧ path.endsInSlash = false ∧
      ∃ place, reach disk path.trimSlash = .ok place ∧ disk.kindAt? place ≠ some .dir ∧
        disk' = disk.put place (.file content) := by
  rw [writeFile]
  cases path.isEmpty with
  | true => simp
  | false =>
    cases checkText path with
    | error refusal => simp [bind, Except.bind]
    | ok text =>
      cases reach disk path.trimSlash with
      | error refusal => simp [bind, Except.bind]
      | ok place =>
        cases path.endsInSlash with
        | true => simp [bind, Except.bind]
        | false =>
          simp only [bind, Except.bind, Bool.false_eq_true, if_false, kindAt?, Except.ok.injEq,
            exists_eq_left', true_and]
          rcases disk.at? place with - | c | es <;> simp [kind, eq_comm]

theorem removeFile_eq_ok_iff : removeFile path disk = .ok disk' ↔
    ∃ place content, find disk path = .ok (place, .file content) ∧ disk' = disk.erase place := by
  rw [removeFile]
  cases find disk path with
  | error refusal => simp only [bind, Except.bind, reduceCtorEq, false_and, exists_false]
  | ok found =>
    obtain ⟨there, c | es⟩ := found <;> simp [bind, Except.bind, eq_comm]

theorem writeFile_join (hleads : Leads path place disk) (hdir : disk.kindAt? place = some .dir)
    (hname : IsName name) (htext : checkText (path.join name) = .ok ()) {content : Bytes}
    (hfree : disk.kindAt? (place ++ [name]) ≠ some .dir) :
    writeFile (path.join name) content disk
      = .ok (disk.put (place ++ [name]) (.file content)) := by
  obtain ⟨hempty, hreach⟩ := resolve_eq_ok_iff.mp (resolve_join hleads hdir hname htext)
  refine writeFile_eq_ok_iff.mpr ⟨hempty, htext,
    Path.endsInSlash_join path hname.noSlash hname.ne_empty, _, ?_, hfree, rfl⟩
  rwa [Path.trimSlash_join path hname.noSlash hname.ne_empty]

theorem removeFile_join (hleads : Leads path place disk) (hdir : disk.kindAt? place = some .dir)
    (hname : IsName name) (htext : checkText (path.join name) = .ok ()) {content : Bytes}
    (hfile : disk.kindAt? (place ++ [name]) = some (.file content)) :
    removeFile (path.join name) disk = .ok (disk.erase (place ++ [name])) :=
  removeFile_eq_ok_iff.mpr
    ⟨_, _, find_join hleads hdir hname htext (kindAt?_eq_file_iff.mp hfile), rfl⟩

/-- A directory is removed if it has no entry, unless it is the top of the tree or the path ends in
a dot. -/
theorem removeDir_outcome (hleads : Leads path place disk) (hempty : path.isEmpty = false)
    (htext : checkText path = .ok ()) {children : List (String × Node)}
    (hchildren : disk.at? place = some (.dir children)) :
    (place ≠ [] ∧ path.endsInDot = false ∧ children = [] ∧
        removeDir path disk = .ok (disk.erase place)) ∨
      ¬(place ≠ [] ∧ path.endsInDot = false ∧ children = []) ∧
        ∃ refusal, removeDir path disk = .error refusal := by
  rw [removeDir, find_of_leads hleads hempty htext hchildren]
  cases place with
  | nil => exact .inr ⟨fun h => h.1 rfl, _, rfl⟩
  | cons first rest =>
    cases children with
    | cons entry children => exact .inr ⟨fun h => List.cons_ne_nil _ _ h.2.2, _, rfl⟩
    | nil =>
      cases path.endsInDot with
      | true => exact .inr ⟨fun h => Bool.noConfusion h.2.1, .invalidPath, rfl⟩
      | false => exact .inl ⟨List.cons_ne_nil _ _, rfl, rfl, rfl⟩

/-! ## Moving a subtree -/

/-- What stood at or below `old` is now at or below `new`, and nothing else has changed. -/
structure Relocated (old new : Place) (disk disk' : Node) : Prop where
  distinct : disk'.Distinct
  arrived : ∀ q, disk'.kindAt? (new ++ q) = disk.kindAt? (old ++ q)
  left : ∀ q, disk'.kindAt? (old ++ q) = none
  frame : ∀ q, ¬old <+: q → ¬new <+: q → disk'.kindAt? q = disk.kindAt? q

theorem ne_nil_of_apart {p q : Place} (h : ¬p <+: q) : p ≠ [] := fun hnil =>
  h (hnil ▸ List.nil_prefix)

theorem not_below_append {p q : Place} (h : ¬p <+: q) (h' : ¬q <+: p) (r : Place) :
    ¬p <+: q ++ r := by
  intro hp
  rcases List.prefix_or_prefix_of_prefix hp (List.prefix_append q r) with h'' | h''
  · exact h h''
  · exact h' h''

theorem not_below_apart {p q : Place} (h : ¬p <+: q) (h' : ¬q <+: p) (r r' : Place) :
    ¬p ++ r <+: q ++ r' := fun hbelow =>
  not_below_append h h' r' ((List.prefix_append p r).trans hbelow)

theorem not_below_sibling {p : Place} {n m : String} (h : n ≠ m) (q : Place) :
    ¬p ++ [n] <+: p ++ m :: q := by
  rw [List.prefix_append_right_inj, List.cons_prefix_cons]
  exact fun hbelow => h hbelow.1

theorem not_below_above (p : Place) (n : String) (q : Place) : ¬p ++ n :: q <+: p := by
  intro h
  have hlength := h.length_le
  rw [List.length_append, List.length_cons] at hlength
  omega

/-- A node can be taken away from one place and put at another one that holds nothing. -/
theorem relocated_put_erase (hd : disk.Distinct) {old new : Place} {node : Node}
    (hnode : disk.at? old = some node) (hne : old ≠ [])
    (hparent : disk.kindAt? there = some .dir) (hnew : new = there ++ [other])
    (hleaf : ∀ next rest, disk.kindAt? (new ++ next :: rest) = none) (happart : ¬old <+: new) :
    Relocated old new disk ((disk.erase old).put new node) := by
  have happart' : ¬new <+: old := by
    rintro ⟨rest, hrest⟩
    cases rest with
    | nil => exact happart ⟨[], by rw [← hrest]; simp⟩
    | cons next rest =>
      have := hleaf next rest
      rw [hrest, kindAt?_eq_none_iff, hnode] at this
      cases this
  have hthere : ¬old <+: there := fun h => happart (hnew ▸ h.trans (List.prefix_append there _))
  have herased : (disk.erase old).Distinct := hd.erase old
  have hthere' : (disk.erase old).kindAt? there = some .dir := by
    rw [kindAt?_erase_of_not_below hd hthere, hparent]
  refine ⟨herased.put (hd.child hnode) new, fun q => ?_, fun q => ?_, fun q hq hq' => ?_⟩
  · rw [hnew, List.append_assoc, List.singleton_append, kindAt?_put_append herased hthere',
      kindAt?_append, hnode, Option.bind_some]
  · rw [kindAt?_put_of_not_below herased (not_below_append happart' happart q),
      kindAt?_erase_append hd hne]
  · rw [kindAt?_put_of_not_below herased hq', kindAt?_erase_of_not_below hd hq]

theorem rename_join (hd : disk.Distinct) (hleads : Leads path place disk)
    (hdir : disk.kindAt? place = some .dir) (hname : IsName name)
    (htext : checkText (path.join name) = .ok ()) (hleads' : Leads target there disk)
    (hdir' : disk.kindAt? there = some .dir) (hother : IsName other)
    (htext' : checkText (target.join other) = .ok ())
    (hold : disk.kindAt? (place ++ [name]) ≠ none) (hfree : disk.kindAt? (there ++ [other]) = none)
    (happart : ¬place ++ [name] <+: there ++ [other]) :
    ∃ disk', rename (path.join name) (target.join other) disk = .ok disk' ∧
      Relocated (place ++ [name]) (there ++ [other]) disk disk' := by
  obtain ⟨node, hnode⟩ := Option.ne_none_iff_exists'.mp (mt kindAt?_eq_none_iff.mpr hold)
  have hleaf : ∀ (next : String) (rest : Place),
      disk.kindAt? (there ++ [other] ++ next :: rest) = none :=
    kindAt?_append_cons_eq_none (by rw [hfree]; simp)
  refine ⟨_, ?_, relocated_put_erase hd hnode (by simp) hdir' rfl hleaf happart⟩
  have hne : place ++ [name] ≠ there ++ [other] := fun h => happart (h ▸ List.prefix_refl _)
  have hnotPrefix : (place ++ [name]).isPrefixOf (there ++ [other]) = false := by
    rw [← Bool.not_eq_true, List.isPrefixOf_iff_prefix]
    exact happart
  rw [rename, resolve_join hleads hdir hname htext, resolve_join hleads' hdir' hother htext']
  simp only [bind, Except.bind, hnode, kindAt?_eq_none_iff.mp hfree, mayReplace, if_neg hne,
    hnotPrefix]
  rfl

/-- A path whose text is refused can be moved neither from nor to. -/
theorem rename_refused {refusal : Refusal}
    (h : checkText path = .error refusal ∨ checkText target = .error refusal) (disk : Node) :
    ∃ refusal, rename path target disk = .error refusal := by
  rw [rename]
  cases hpath : resolve disk path with
  | error refusal => exact ⟨refusal, rfl⟩
  | ok old =>
    cases htarget : resolve disk target with
    | error refusal => exact ⟨refusal, rfl⟩
    | ok new =>
      rcases h with h | h
      · cases h.symm.trans (follow_of_resolve hpath).1
      · cases h.symm.trans (follow_of_resolve htarget).1

/-! ## Creating directories -/

/-- Nothing but directories was added, and those only on the way to a place. -/
structure Grown (upto : Place) (disk disk' : Node) : Prop where
  distinct : disk'.Distinct
  kept : ∀ q, disk.kindAt? q ≠ none → disk'.kindAt? q = disk.kindAt? q
  added : ∀ q, disk.kindAt? q = none → disk'.kindAt? q ≠ none →
    disk'.kindAt? q = some .dir ∧ q <+: upto

namespace Grown

variable {upto : Place} {disk'' : Node}

theorem refl (hd : disk.Distinct) (upto : Place) : Grown upto disk disk :=
  ⟨hd, fun _ _ => rfl, fun _ h h' => absurd h h'⟩

theorem trans (h : Grown upto disk disk') (h' : Grown upto disk' disk'') :
    Grown upto disk disk'' where
  distinct := h'.distinct
  kept := fun q hq => (h'.kept q (by rwa [h.kept q hq])).trans (h.kept q hq)
  added := by
    intro q hq hq''
    by_cases hq' : disk'.kindAt? q = none
    · exact h'.added q hq' hq''
    · rw [h'.kept q hq']
      exact h.added q hq hq'

theorem mono {further : Place} (h : Grown upto disk disk') (hle : upto <+: further) :
    Grown further disk disk' :=
  ⟨h.distinct, h.kept, fun q hq hq' => (h.added q hq hq').imp_right (·.trans hle)⟩

theorem extended (h : Grown upto disk disk') : Extended disk disk' :=
  ⟨h.distinct, h.kept, fun q hq hq' => (h.added q hq hq').1⟩

theorem dir (h : Grown upto disk disk') {q : Place} (hq : disk.kindAt? q = some .dir) :
    disk'.kindAt? q = some .dir := h.extended.dir hq

theorem eq_of_not_above (h : Grown upto disk disk') {q : Place} (hq : ¬q <+: upto) :
    disk'.kindAt? q = disk.kindAt? q := by
  by_cases hnone : disk.kindAt? q = none
  · by_contra hne
    exact hq (h.added q hnone (by rwa [hnone] at hne)).2
  · exact h.kept q hnone

theorem file_iff (h : Grown upto disk disk') {q : Place} {content : Bytes} :
    disk'.kindAt? q = some (.file content) ↔ disk.kindAt? q = some (.file content) :=
  h.extended.file_iff

/-- Directories that are added change the content of no file. -/
theorem content? (h : Grown upto disk disk') (q : Place) : disk'.content? q = disk.content? q :=
  h.extended.content? q

/-- A new directory, or none if there is no directory for it. -/
theorem put_dir (hd : disk.Distinct) (hnone : disk.kindAt? (place ++ [name]) = none) :
    Grown (place ++ [name]) disk (disk.put (place ++ [name]) (.dir [])) := by
  have hext := Extended.put_dir hd hnone
  refine ⟨hext.distinct, hext.kept, fun q hq hq' => ⟨hext.added q hq hq', ?_⟩⟩
  by_cases hdir : disk.kindAt? place = some .dir
  · rw [kindAt?_put_dir hd hdir (by rw [hnone]; simp)] at hq'
    split at hq'
    next heq => exact heq ▸ List.prefix_refl _
    next => exact absurd hq hq'
  · rw [put_of_not_dir hdir] at hq'
    exact absurd hq hq'

end Grown

theorem Grounded.of_grown {root : Path} {base upto : Place} (h : Grounded root base disk)
    (hgrown : Grown upto disk disk') : Grounded root base disk' :=
  h.mono hgrown.distinct fun _ hq _ => hgrown.dir hq

theorem Grounded.put_file {root : Path} {base : Place} (h : Grounded root base disk)
    (hdir : disk.kindAt? place = some .dir) (hleaf : disk.kindAt? (place ++ [name]) ≠ some .dir)
    (content : Bytes) : Grounded root base (disk.put (place ++ [name]) (.file content)) := by
  refine h.mono (h.distinct.put (distinct_file content) _) fun q hq _ => ?_
  rw [kindAt?_put_file h.distinct hdir hleaf, if_neg, hq]
  rintro rfl
  exact hleaf hq

theorem makeDirsFrom_file (hname : IsName name) {content : Bytes}
    (h : disk.at? (place ++ [name]) = some (.file content)) (rest : List String) :
    makeDirsFrom disk place (name :: rest) = (.error .notADirectory, disk) := by
  rw [makeDirsFrom]
  simp [hname.isIdle_eq_false, hname.ne_dotdot, hname.isTooLong_eq_false, h]

theorem makeDirsFrom_dir (hname : IsName name) {children : List (String × Node)}
    (h : disk.at? (place ++ [name]) = some (.dir children)) (rest : List String) :
    makeDirsFrom disk place (name :: rest) = makeDirsFrom disk (place ++ [name]) rest := by
  rw [makeDirsFrom]
  simp [hname.isIdle_eq_false, hname.ne_dotdot, hname.isTooLong_eq_false, h]

theorem makeDirsFrom_missing (hname : IsName name) (h : disk.at? (place ++ [name]) = none)
    (rest : List String) : makeDirsFrom disk place (name :: rest) =
      makeDirsFrom (disk.put (place ++ [name]) (.dir [])) (place ++ [name]) rest := by
  rw [makeDirsFrom]
  simp [hname.isIdle_eq_false, hname.ne_dotdot, hname.isTooLong_eq_false, h]

/-- A chain of directories is created name by name; a file on the way is the only obstacle. -/
theorem makeDirsFrom_names (hd : disk.Distinct) (hdir : disk.kindAt? place = some .dir)
    {names : List String} (hnames : ∀ n ∈ names, IsName n) (rest : List String) :
    ∃ disk', Grown (place ++ names) disk disk' ∧
      ((disk'.kindAt? (place ++ names) = some .dir ∧
          makeDirsFrom disk place (names ++ rest) = makeDirsFrom disk' (place ++ names) rest) ∨
        ¬Unblocked place names disk ∧
          makeDirsFrom disk place (names ++ rest) = (.error .notADirectory, disk')) := by
  induction names generalizing disk place with
  | nil =>
    rw [List.append_nil]
    exact ⟨disk, .refl hd _, .inl ⟨hdir, rfl⟩⟩
  | cons n names ih =>
    have hname := hnames n (List.mem_cons_self ..)
    have hothers : ∀ m ∈ names, IsName m := fun m hm => hnames m (List.mem_cons_of_mem _ hm)
    have hsplit : ∀ p : Place, place ++ n :: p = place ++ [n] ++ p := fun p => by simp
    rw [List.cons_append, hsplit]
    cases hnext : disk.at? (place ++ [n]) with
    | none =>
      rw [makeDirsFrom_missing hname hnext]
      have hnone := kindAt?_eq_none_iff.mpr hnext
      have hput := kindAt?_put_dir hd hdir (by rw [hnone]; simp)
      have hmade := Grown.put_dir hd hnone
      obtain ⟨disk', hgrown, hend⟩ :=
        ih hmade.distinct (by rw [hput, if_pos rfl]) hothers
      refine ⟨disk', (hmade.mono (List.prefix_append _ _)).trans hgrown, hend.imp_right ?_⟩
      rintro ⟨hblocked, herror⟩
      refine ⟨fun hfree => hblocked fun p content hp hfile => ?_, herror⟩
      refine hfree (n :: p) content (List.cons_prefix_cons.mpr ⟨rfl, hp⟩) ?_
      rwa [hsplit, ← hmade.file_iff]
    | some node =>
      cases node with
      | file content =>
        refine ⟨disk, .refl hd _, .inr ⟨fun hfree => ?_, makeDirsFrom_file hname hnext _⟩⟩
        exact hfree [n] content ⟨names, rfl⟩ (kindAt?_eq_file_iff.mpr hnext)
      | dir children =>
        rw [makeDirsFrom_dir hname hnext]
        obtain ⟨disk', hgrown, hend⟩ := ih hd (kindAt?_eq_dir_iff.mpr ⟨_, hnext⟩) hothers
        refine ⟨disk', hgrown, hend.imp_right ?_⟩
        rintro ⟨hblocked, herror⟩
        refine ⟨fun hfree => hblocked fun p content hp hfile => ?_, herror⟩
        exact hfree (n :: p) content (List.cons_prefix_cons.mpr ⟨rfl, hp⟩) (by rwa [hsplit])

theorem parent_pieces_le (path : Path) : path.parent.pieces <+: path.pieces :=
  (List.rdropWhile_prefix Path.isIdle _).trans
    ((List.dropLast_prefix _).trans (List.rdropWhile_prefix Path.isIdle _))

/-- Nothing needs to be created on a way that can be followed. -/
theorem makeDirsFrom_of_follow {here : Place} {pieces : List String}
    (h : follow disk here pieces = .ok place) (hdir : disk.kindAt? place = some .dir)
    (rest : List String) :
    makeDirsFrom disk here (pieces ++ rest) = makeDirsFrom disk place rest := by
  induction pieces generalizing here with
  | nil => cases h; rfl
  | cons piece pieces ih =>
    rw [follow] at h
    split at h
    · cases h
    · cases h
    · rw [List.cons_append, makeDirsFrom]
      split at h
      next hidle => rw [if_pos hidle]; exact ih h
      next hidle =>
        rw [if_neg hidle]
        split at h
        next hup => rw [if_pos hup]; exact ih h
        next hup =>
          rw [if_neg hup]
          split at h
          · cases h
          next hlong =>
            rw [if_neg hlong]
            have hnext : disk.kindAt? (here ++ [piece]) = some .dir := by
              cases pieces with
              | nil => cases h; exact hdir
              | cons next pieces => exact dir_of_follow h
            obtain ⟨children, hchildren⟩ := kindAt?_eq_dir_iff.mp hnext
            rw [hchildren]
            exact ih h

/-- A way that can be followed to a directory leads through directories. -/
theorem follow_front {here : Place} {front back : List String}
    (h : follow disk here (front ++ back) = .ok place) (hdir : disk.kindAt? place = some .dir) :
    ∃ mid, follow disk here front = .ok mid ∧ disk.kindAt? mid = some .dir := by
  obtain ⟨mid, hmid, hback⟩ := follow_append_eq_ok_iff.mp h
  refine ⟨mid, hmid, ?_⟩
  cases back with
  | nil => cases hback; exact hdir
  | cons piece back => exact dir_of_follow hback

/-- Nothing is created on a part of a way that can be followed. -/
theorem makeDirsFrom_front {here : Place} {pieces front : List String}
    (h : follow disk here pieces = .ok place) (hdir : disk.kindAt? place = some .dir)
    (hfront : front <+: pieces) : makeDirsFrom disk here front = (.ok (), disk) := by
  obtain ⟨back, rfl⟩ := hfront
  obtain ⟨mid, hmid, hdir'⟩ := follow_front h hdir
  have hmade := makeDirsFrom_of_follow hmid hdir' []
  rwa [List.append_nil] at hmade

/-- A directory that exists need not be created. -/
theorem makeDirs_of_leads (hleads : Leads path place disk) (htext : checkText path = .ok ())
    (hdir : disk.kindAt? place = some .dir) : makeDirs path disk = (.ok (), disk) := by
  have hfront : ∀ front, front <+: path.pieces → makeDirsFrom disk [] front = (.ok (), disk) :=
    fun front => makeDirsFrom_front (hleads.follow_pieces hdir) hdir
  obtain ⟨children, hchildren⟩ := kindAt?_eq_dir_iff.mp hdir
  rw [makeDirs, htext]
  simp only
  split
  next hdot =>
    rw [hfront _ (parent_pieces_le path)]
    simp only [entries_of_leads hleads (Path.isEmpty_of_endsInDot hdot) htext hchildren]
    rfl
  · exact hfront _ (List.prefix_refl _)

end ConfigStore.Disk
