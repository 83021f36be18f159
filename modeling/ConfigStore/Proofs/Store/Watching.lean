import ConfigStore.Proofs.Files.Keeping
import ConfigStore.Proofs.Files.Site
import ConfigStore.Proofs.Store.Staging

/-!
# Watching newest copies

The tree of a store may hold more than documents: counters are kept under any names, so there may be
directories within documents, and files where documents are moved aside. Whatever is there, a watch
says what the newest copies of documents may hold, at home and aside, and every change of the tree
is measured against it.

* `Watch` is a condition on newest copies, and on nothing else; `Watch.Holds` says that a tree meets
  it, that the root leads to its directory, and that everything below it has a proper name.
* `Watch.Holds.sprouted`, `Watch.Holds.changed`, `Watch.Holds.transferred` and their like say which
  changes of the tree are allowed.
* `Watch.keeps_write`, `Watch.keeps_moveDir` and `Watch.keeps_clean` are the actions on files.
-/

namespace ConfigStore

open Node Disk Files Deletion

/-! ## Newest copies -/

/-- The place below the root of the newest copy of a document, at home or aside. -/
def IsNewestOf (domain project id : String) (q : Place) : Prop :=
  (domain ≠ Layout.tmpName ∧ q = home domain project id ++ [Layout.newestName]) ∨
    q = aside domain project id ++ [Layout.newestName]

/-- The place below the root of a newest copy. -/
def IsNewest (q : Place) : Prop := ∃ domain project id, IsNewestOf domain project id q

theorem IsNewest.getLast? {q : Place} (h : IsNewest q) : q.getLast? = some Layout.newestName := by
  obtain ⟨domain, project, id, ⟨-, rfl⟩ | rfl⟩ := h
  · rfl
  · rfl

variable {domain project id domain' project' id' name : String}

theorem isNewestOf_home_iff (hdomain : domain ≠ Layout.tmpName) {q : Place} :
    IsNewestOf domain' project' id' (home domain project id ++ name :: q) ↔
      (domain' = domain ∧ project' = project ∧ id' = id) ∧ name = Layout.newestName ∧ q = [] := by
  constructor
  · rintro (⟨-, h⟩ | h)
    · simp only [List.cons_append, List.nil_append, List.cons.injEq] at h
      exact ⟨⟨h.1.symm, h.2.1.symm, h.2.2.1.symm⟩, h.2.2.2⟩
    · exact absurd (List.cons.inj h).1 hdomain
  · rintro ⟨⟨rfl, rfl, rfl⟩, rfl, rfl⟩
    exact .inl ⟨hdomain, rfl⟩

theorem isNewestOf_aside_iff {q : Place} :
    IsNewestOf domain' project' id' (aside domain project id ++ name :: q) ↔
      (domain' = domain ∧ project' = project ∧ id' = id) ∧ name = Layout.newestName ∧ q = [] := by
  constructor
  · rintro (⟨-, h⟩ | h)
    · have hlength := congrArg List.length h
      simp at hlength
    · simp only [List.cons_append, List.nil_append, List.cons.injEq] at h
      exact ⟨⟨h.2.1.symm, h.2.2.1.symm, h.2.2.2.1.symm⟩, h.2.2.2.2⟩
  · rintro ⟨⟨rfl, rfl, rfl⟩, rfl, rfl⟩
    exact .inr rfl

theorem isNewest_home_iff (hdomain : domain ≠ Layout.tmpName) {q : Place} :
    IsNewest (home domain project id ++ name :: q) ↔ name = Layout.newestName ∧ q = [] := by
  simp only [IsNewest, isNewestOf_home_iff hdomain]
  exact ⟨fun ⟨_, _, _, _, h⟩ => h, fun h => ⟨domain, project, id, ⟨rfl, rfl, rfl⟩, h⟩⟩

theorem isNewest_aside_iff {q : Place} :
    IsNewest (aside domain project id ++ name :: q) ↔ name = Layout.newestName ∧ q = [] := by
  simp only [IsNewest, isNewestOf_aside_iff]
  exact ⟨fun ⟨_, _, _, _, h⟩ => h, fun h => ⟨domain, project, id, ⟨rfl, rfl, rfl⟩, h⟩⟩

theorem not_isNewest_home : ¬IsNewest (home domain project id) := by
  rintro ⟨domain', project', id', ⟨-, h⟩ | h⟩ <;>
  · have hlength := congrArg List.length h
    simp at hlength

theorem not_isNewest_aside : ¬IsNewest (aside domain project id) := by
  rintro ⟨domain', project', id', ⟨hdomain, h⟩ | h⟩
  · exact hdomain (List.cons.inj h).1.symm
  · have hlength := congrArg List.length h
    simp at hlength

/-- Polling records are no newest copies, whatever their names. -/
theorem not_isNewest_track {revision : String} :
    ¬IsNewest ([Layout.trackName, domain, project, revision] ++ [name]) := by
  rintro ⟨domain', project', id', ⟨-, h⟩ | h⟩
  · have hlength := congrArg List.length h
    simp at hlength
  · exact absurd (List.cons.inj h).1 (by decide)

/-! ## Watches -/

/-- What the newest copies of documents may hold, by their places below the root. -/
structure Watch where
  /-- Whether a file at a place may have a content, and whether there may be none. -/
  allows : Place → Option Bytes → Prop
  /-- All other places are free. -/
  free : ∀ q content?, ¬IsNewest q → allows q content?
  /-- What can be read from a newest copy is the document of that place. -/
  truthful : ∀ domain project id content d, domain ≠ Layout.tmpName →
    allows (home domain project id ++ [Layout.newestName]) (some content) →
      Document.decode content = .ok d → d.domain = domain ∧ d.project = project ∧ d.id = id

/-- A tree in which newest copies hold what a watch allows. -/
structure Watch.Holds (w : Watch) (root : Path) (base : Place) (disk : Node) : Prop where
  grounded : Grounded root base disk
  named : ∀ q name, disk.kindAt? (base ++ q ++ [name]) ≠ none → IsName name
  allowed : ∀ q, w.allows q (disk.content? (base ++ q))

namespace Watch

variable {w : Watch} {root path : Path} {base place s t : Place} {disk disk' disk'' : Node}
  {ns ms names : List String} {content : Bytes}

theorem allows_of_getLast? (w : Watch) {q : Place} (h : q.getLast? ≠ some Layout.newestName)
    (content? : Option Bytes) : w.allows q content? :=
  w.free q content? fun hnewest => h hnewest.getLast?

theorem allows_of_concat (w : Watch) (hname : name ≠ Layout.newestName) {here q : Place}
    (h : here ++ [name] = base ++ q) (content? : Option Bytes) : w.allows q content? := by
  refine w.allows_of_getLast? (fun hlast => hname ?_) content?
  have hend := congrArg List.getLast? h
  rw [List.getLast?_concat, List.getLast?_append, hlast] at hend
  simpa using hend

/-- The newest copy of a document may come and go, and may be moved aside and back. -/
structure Frees (w : Watch) (domain project id : String) : Prop where
  home : w.allows (home domain project id ++ [Layout.newestName]) none
  aside : w.allows (aside domain project id ++ [Layout.newestName]) none
  moves : ∀ content?, w.allows (Deletion.home domain project id ++ [Layout.newestName]) content? ↔
    w.allows (Deletion.aside domain project id ++ [Layout.newestName]) content?

/-- What is below one directory may be missing, or be below another one. -/
structure Admits (w : Watch) (ns ms : List String) : Prop where
  source : ∀ n q, w.allows (ns ++ n :: q) none
  target : ∀ n q, w.allows (ms ++ n :: q) none
  move : ∀ n q content?, w.allows (ns ++ n :: q) content? → w.allows (ms ++ n :: q) content?

theorem Frees.allows_home (h : w.Frees domain project id) (hdomain : domain ≠ Layout.tmpName)
    (n : String) (q : Place) : w.allows (Deletion.home domain project id ++ n :: q) none := by
  by_cases hnewest : IsNewest (Deletion.home domain project id ++ n :: q)
  · obtain ⟨rfl, rfl⟩ := (isNewest_home_iff hdomain).mp hnewest
    exact h.home
  · exact w.free _ _ hnewest

theorem Frees.allows_aside (h : w.Frees domain project id) (n : String) (q : Place) :
    w.allows (Deletion.aside domain project id ++ n :: q) none := by
  by_cases hnewest : IsNewest (Deletion.aside domain project id ++ n :: q)
  · obtain ⟨rfl, rfl⟩ := isNewest_aside_iff.mp hnewest
    exact h.aside
  · exact w.free _ _ hnewest

theorem Frees.admits_aside (h : w.Frees domain project id) (hdomain : domain ≠ Layout.tmpName) :
    w.Admits (Deletion.home domain project id) (Deletion.aside domain project id) where
  source := h.allows_home hdomain
  target := h.allows_aside
  move := by
    intro n q content? hallowed
    by_cases hnewest : IsNewest (Deletion.aside domain project id ++ n :: q)
    · obtain ⟨rfl, rfl⟩ := isNewest_aside_iff.mp hnewest
      exact (h.moves content?).mp hallowed
    · exact w.free _ _ hnewest

theorem Frees.admits_home (h : w.Frees domain project id) (hdomain : domain ≠ Layout.tmpName) :
    w.Admits (Deletion.aside domain project id) (Deletion.home domain project id) where
  source := h.allows_aside
  target := h.allows_home hdomain
  move := by
    intro n q content? hallowed
    by_cases hnewest : IsNewest (Deletion.home domain project id ++ n :: q)
    · obtain ⟨rfl, rfl⟩ := (isNewest_home_iff hdomain).mp hnewest
      exact (h.moves content?).mpr hallowed
    · exact w.free _ _ hnewest

/-! ## Changes of the tree -/

namespace Holds

theorem site (h : w.Holds root base disk) : Site root base disk := ⟨h.grounded, h.named⟩

theorem same (h : w.Holds root base disk) (hd : disk'.Distinct) (hsame : Same disk' disk) :
    w.Holds root base disk' where
  grounded := (h.site.same hd hsame).grounded
  named := (h.site.same hd hsame).named
  allowed q := content?_congr (hsame (base ++ q)) ▸ h.allowed q

theorem sprouted (h : w.Holds root base disk) (hs : Sprouted disk disk') :
    w.Holds root base disk' where
  grounded := (h.site.sprouted hs).grounded
  named := (h.site.sprouted hs).named
  allowed q := hs.content? (base ++ q) ▸ h.allowed q

theorem grown (h : w.Holds root base disk) (hns : ∀ n ∈ ns, IsName n)
    (hgrown : Grown (base ++ ns) disk disk') : w.Holds root base disk' :=
  h.sprouted (h.site.sprouted_of_grown hns hgrown)

/-- A file has been written or removed. -/
theorem changed (h : w.Holds root base disk) {here : Place} (hname : IsName name)
    (hd : disk'.Distinct) (hframe : ∀ q, q ≠ here ++ [name] → disk'.kindAt? q = disk.kindAt? q)
    (hdir : disk.kindAt? (here ++ [name]) ≠ some .dir)
    (hallowed : ∀ q, here ++ [name] = base ++ q → w.allows q (disk'.content? (here ++ [name]))) :
    w.Holds root base disk' where
  grounded := (h.site.changed hname hd hframe hdir).grounded
  named := (h.site.changed hname hd hframe hdir).named
  allowed := by
    intro q
    by_cases heq : base ++ q = here ++ [name]
    · rw [heq]
      exact hallowed q heq.symm
    · rw [content?_congr (hframe _ heq)]
      exact h.allowed q

theorem put_file (h : w.Holds root base disk) {here : Place} (hhere : disk.kindAt? here = some .dir)
    (hname : IsName name) (hdir : disk.kindAt? (here ++ [name]) ≠ some .dir)
    (hallowed : ∀ q, here ++ [name] = base ++ q → w.allows q (some content)) :
    w.Holds root base (disk.put (here ++ [name]) (.file content)) := by
  have hput := kindAt?_put_file h.grounded.distinct hhere hdir content
  refine h.changed hname (h.grounded.distinct.put (distinct_file content) _) (fun q hq => ?_) hdir
    fun q hq => ?_
  · rw [hput, if_neg hq]
  · rw [content?_eq_some_iff.mpr ((hput _).trans (if_pos rfl))]
    exact hallowed q hq

theorem erase_file (h : w.Holds root base disk) {here : Place} (hname : IsName name)
    (hfile : disk.kindAt? (here ++ [name]) = some (.file content))
    (hallowed : ∀ q, here ++ [name] = base ++ q → w.allows q none) :
    w.Holds root base (disk.erase (here ++ [name])) := by
  have herase := kindAt?_erase_leaf h.grounded.distinct (p := here ++ [name]) (by simp)
    (kindAt?_append_cons_eq_none (by rw [hfile]; simp))
  refine h.changed hname (h.grounded.distinct.erase _) (fun q hq => ?_) (by rw [hfile]; simp)
    fun q hq => ?_
  · rw [herase, if_neg hq]
  · have hnone : (disk.erase (here ++ [name])).content? (here ++ [name]) = none := by
      have hkind := (herase (here ++ [name])).trans (if_pos rfl)
      rw [Node.content?, kindAt?_eq_none_iff.mp hkind]
    rw [hnone]
    exact hallowed q hq

/-- Files of one directory are gone, none of them a newest copy. -/
theorem cleared (h : w.Holds root base disk) {here : Place} {gone : List String}
    (hgone : ∀ n ∈ gone, n ≠ Layout.newestName ∧
      ∃ content, disk.kindAt? (here ++ [n]) = some (.file content))
    (hcleared : Cleared here gone disk disk') : w.Holds root base disk' where
  grounded := (h.site.cleared (fun n hn => (hgone n hn).2) hcleared).grounded
  named := (h.site.cleared (fun n hn => (hgone n hn).2) hcleared).named
  allowed := by
    intro q
    rcases hcleared.eq_or_absent (base ++ q) with hsame | ⟨-, n, hn, hplace⟩
    · rw [content?_congr hsame]
      exact h.allowed q
    · exact w.allows_of_concat (hgone n hn).1 hplace.symm _

/-- Whatever was below a directory is gone, and the directory as well. -/
theorem removed (h : w.Holds root base disk) (hne : ns ≠ [])
    (hnone : ∀ n q, w.allows (ns ++ n :: q) none) (hself : w.allows ns none)
    (hremoved : Removed (base ++ ns) disk disk') : w.Holds root base disk' where
  grounded := (h.site.removed hne hremoved).grounded
  named := (h.site.removed hne hremoved).named
  allowed := by
    intro q
    by_cases hbelow : base ++ ns <+: base ++ q
    · obtain ⟨r, rfl⟩ := (List.prefix_append_right_inj base).mp hbelow
      have hcontent : disk'.content? (base ++ (ns ++ r)) = none := by
        rw [← List.append_assoc, Node.content?, kindAt?_eq_none_iff.mp (hremoved.absent r)]
      rw [hcontent]
      cases r with
      | nil => rwa [List.append_nil]
      | cons n r => exact hnone n r
    · rw [content?_congr (hremoved.frame _ hbelow)]
      exact h.allowed q

/-- Children have been moved from one directory to another. -/
theorem transferred (h : w.Holds root base disk) (hadmits : w.Admits ns ms)
    (hsite : Site root base disk')
    (hmoved : Transferred (base ++ ns) (base ++ ms) names disk disk') :
    w.Holds root base disk' where
  grounded := hsite.grounded
  named := hsite.named
  allowed := by
    intro q
    rcases hmoved.place_cases (base ++ q) with
      hsame | ⟨hnone, n, -, r, hplace⟩ | ⟨n, -, r, hplace, hkind⟩
    · rw [content?_congr hsame]
      exact h.allowed q
    · obtain rfl : q = ns ++ n :: r := by simpa using hplace
      rw [Node.content?, kindAt?_eq_none_iff.mp hnone]
      exact hadmits.source n r
    · obtain rfl : q = ms ++ n :: r := by simpa using hplace
      rw [content?_congr hkind, List.append_assoc]
      exact hadmits.move n r _ (h.allowed (ns ++ n :: r))

/-- A directory has lost what it held under some names. -/
theorem reverted (h : w.Holds root base disk) (hnone : ∀ n q, w.allows (ms ++ n :: q) none)
    {lost : List String} (hreverted : Reverted (base ++ ms) lost disk disk') :
    w.Holds root base disk' where
  grounded := (h.site.reverted hreverted).grounded
  named := (h.site.reverted hreverted).named
  allowed := by
    intro q
    rcases hreverted.eq_or_gone (base ++ q) with hsame | ⟨hgone, n, -, r, hplace⟩
    · rw [content?_congr hsame]
      exact h.allowed q
    · obtain rfl : q = ms ++ n :: r := by simpa using hplace
      rw [Node.content?, kindAt?_eq_none_iff.mp hgone]
      exact hnone n r

end Holds

/-! ## Actions on files -/

/-- Directories on a path that is, or starts like, a text or the root continued by a text. -/
theorem keeps_ensureDir {pieces : List String} (hpieces : ∀ piece ∈ pieces, '/' ∉ piece.toList)
    (hpath : path.pieces <+: pieces ∨ path.pieces <+: root.stem ++ pieces) :
    Keeps (w.Holds root base) (ensureDir path) := by
  refine ⟨fun disk h => ?_⟩
  have hsprouted := h.sprouted (makeDirs_sprouted h.grounded hpieces hpath)
  rcases hmade : makeDirs path disk with ⟨refusal | u, disk'⟩
  · rw [hmade] at hsprouted
    exact .of_error (.disk (.makeDir path) refusal) (by rw [ensureDir, hmade]) hsprouted
  · rw [hmade] at hsprouted
    exact .of_ok () (by rw [ensureDir, hmade]) hsprouted

/-- A file that a path names may hold this content wherever the path leads. -/
def Aims (w : Watch) (root : Path) (base : Place) (path : Path) (name : String)
    (content? : Option Bytes) : Prop :=
  ∀ disk here, w.Holds root base disk → Leads path here disk →
    ∀ q, here ++ [name] = base ++ q → w.allows q content?

theorem aims_of_ne (hname : name ≠ Layout.newestName) (content? : Option Bytes) :
    w.Aims root base path name content? :=
  fun _ _ _ _ _ hplace => w.allows_of_concat hname hplace content?

theorem aims_of_allows (hns : ∀ n ∈ ns, IsPiece n) {content? : Option Bytes}
    (hallowed : w.allows (ns ++ [name]) content?) :
    w.Aims root base (root.descend ns) name content? := by
  intro disk here h hleads q hplace
  rw [h.grounded.leads.place_eq hns hleads, List.append_assoc, List.append_cancel_left_eq] at hplace
  exact hplace ▸ hallowed

theorem keeps_overwrite (hname : IsPiece name) (haims : w.Aims root base path name (some content)) :
    Keeps (w.Holds root base) (overwrite (path.join name) content) := by
  refine ⟨fun disk h => ?_⟩
  cases hwrite : writeFile (path.join name) content disk with
  | error refusal =>
    exact .of_error (.disk (.write (path.join name)) refusal)
      (by simp only [overwrite, change, hwrite]) h
  | ok disk' =>
    have hok : overwrite (path.join name) content disk = .ok () disk' := by
      simp only [overwrite, change, hwrite]
    refine .of_ok () hok ?_
    obtain ⟨here, hleads, hhere, hfits, hdir, rfl⟩ := writeFile_inv hname hwrite
    exact h.put_file hhere hfits hdir (haims disk here h hleads)

/-- What a file held, or that there was none, can be restored. -/
theorem restorable (hname : IsPiece name) {prior : Option Bytes}
    (hdirs : Keeps (w.Holds root base) (ensureDir (path.join name).parent))
    (haims : w.Aims root base path name prior) :
    (UndoRecord.mk (path.join name) prior).Restorable (w.Holds root base) := by
  intro disk h
  cases prior with
  | none =>
    rw [UndoRecord.restore]
    cases hremove : removeFile (path.join name) disk with
    | error refusal => exact h
    | ok disk' =>
      obtain ⟨here, content, hleads, -, hfits, hfile, rfl⟩ := removeFile_inv hname hremove
      exact h.erase_file hfits hfile (haims disk here h hleads)
  | some content =>
    obtain ⟨mid, hends, hmid⟩ := hdirs.outcome disk h
    rw [UndoRecord.restore]
    rcases hmade : makeDirs (path.join name).parent disk with ⟨refusal | u, disk'⟩
    · simp only [Ends, ensureDir, hmade] at hends
      obtain ⟨_, hend⟩ | ⟨_, hend⟩ := hends
      · cases hend
      · cases hend
        exact hmid
    · simp only [Ends, ensureDir, hmade] at hends
      obtain ⟨_, hend⟩ | ⟨_, hend⟩ := hends
      · cases hend
        dsimp only
        cases hwrite : writeFile (path.join name) content mid with
        | error refusal => exact hmid
        | ok disk'' =>
          obtain ⟨here, hleads, hhere, hfits, hdir, rfl⟩ := writeFile_inv hname hwrite
          exact hmid.put_file hhere hfits hdir (haims mid here hmid hleads)
      · cases hend

theorem keeps_parent (hne : ns ≠ []) (hns : ∀ n ∈ ns, IsPiece n) (hname : IsPiece name) :
    Keeps (w.Holds root base) (ensureDir ((root.descend ns).join name).parent) := by
  refine keeps_ensureDir (fun n hn => (hns n hn).noSlash) (.inr ?_)
  rw [← Path.pieces_descend root hne hns]
  exact Path.parent_join_le _ hname

/-- A file below the root is written, and can be restored. -/
theorem keeps_write (hne : ns ≠ []) (hns : ∀ n ∈ ns, IsPiece n) (hname : IsPiece name)
    (hnone : w.allows (ns ++ [name]) none) (hsome : w.allows (ns ++ [name]) (some content)) :
    Keeps (Ledger.Safe (w.Holds root base)) (write ((root.descend ns).join name) content) := by
  have hdirs : Keeps (w.Holds root base) (ensureDir ((root.descend ns).join name).parent) :=
    keeps_parent hne hns hname
  refine write_safe hdirs (keeps_overwrite hname (aims_of_allows hns hsome)) ?_
  intro disk h prior hread
  refine restorable hname hdirs (aims_of_allows hns ?_)
  cases prior with
  | none => exact hnone
  | some content =>
    obtain ⟨-, -, hfile⟩ :=
      readFile_inv h.grounded.leads hns hname (read?_eq_ok_iff.mp hread).2
    have hallowed := h.allowed (ns ++ [name])
    rwa [← List.append_assoc, content?_eq_some_iff.mpr hfile] at hallowed

/-- The children of one directory are moved into another, or back. -/
theorem keeps_moveDir (hadmits : w.Admits ns ms) (hroute : Route ns ms) :
    Keeps (w.Holds root base) (moveDir (root.descend ns) (root.descend ms)) := by
  refine ⟨fun disk h => ?_⟩
  obtain ⟨mid, disk', hends, hsite, hsprouted, -, ⟨names, hmoved⟩ | ⟨lost, hreverted⟩⟩ :=
    h.site.moveDir hroute
  · exact ⟨disk', hends, (h.sprouted hsprouted).transferred hadmits hsite hmoved⟩
  · exact ⟨disk', hends, (h.sprouted hsprouted).reverted hadmits.target hreverted⟩

/-- A directory is removed with its files, or stays. -/
theorem keeps_clean (hns : ∀ n ∈ ns, IsPiece n) (hne : ns ≠ [])
    (hnone : ∀ n q, w.allows (ns ++ n :: q) none) (hself : w.allows ns none) :
    Keeps (w.Holds root base) (clean (root.descend ns)) := by
  refine ⟨fun disk h => ?_⟩
  obtain ⟨disk', hends, -, ⟨hd, hsame⟩ | ⟨-, hremoved⟩⟩ := h.site.clean hns hne
  · exact ⟨disk', hends, h.same hd hsame⟩
  · exact ⟨disk', hends, h.removed hne hnone hself hremoved⟩

end Watch

end ConfigStore
