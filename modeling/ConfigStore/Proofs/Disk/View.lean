import Mathlib.Data.List.Basic
import ConfigStore.Disk.Node

/-!
# Directory trees as seen place by place

A tree is looked at through `Node.kindAt?`, which tells what stands at a place: nothing, a
directory, or a file with its content. The order in which a directory lists its entries does not
show in this view, so two trees that agree everywhere (`Node.Same`) are the same up to listing
order.

* `Node.at?_alter_append` and `Node.kindAt?_alter_of_not_below` say what changing one place does:
  everything at or below the place is replaced, and everything else looks as before.
* `Node.Distinct.alter` says that a change keeps the names within every directory apart.
* `Node.mem_entries_iff` connects the entries of a directory with the view.
-/

namespace ConfigStore

namespace Node

/-- What stands at a place: a file with its content, or a directory. -/
inductive Kind
  | file (content : Bytes)
  | dir
  deriving DecidableEq

/-- What a node is, whatever a directory holds. -/
def kind : Node → Kind
  | .file content => .file content
  | .dir _ => .dir

/-- What stands at a place; none if nothing does. -/
def kindAt? (place : Place) (node : Node) : Option Kind := (node.at? place).map kind

/-- Two trees have the same files and directories; the order of listing does not count. -/
def Same (a b : Node) : Prop := ∀ place, a.kindAt? place = b.kindAt? place

/-! ## Finding -/

theorem kind_eq_dir {node : Node} (h : node.kind = .dir) : ∃ entries, node = .dir entries := by
  cases node with
  | file content => cases h
  | dir entries => exact ⟨entries, rfl⟩

theorem kind_eq_file {node : Node} {content : Bytes} (h : node.kind = .file content) :
    node = .file content := by
  cases node with
  | file c => cases h; rfl
  | dir entries => cases h

@[simp]
theorem isDir_eq_true_iff {node : Node} : node.isDir = true ↔ node.kind = .dir := by
  cases node <;> simp [isDir, kind]

theorem at?_append (node : Node) (p q : Place) :
    node.at? (p ++ q) = (node.at? p).bind (at? q) := by
  induction p generalizing node with
  | nil => rfl
  | cons name p ih =>
    rw [List.cons_append, at?, at?]
    cases node.child? name with
    | none => rfl
    | some child => exact ih child

theorem kindAt?_append (node : Node) (p q : Place) :
    node.kindAt? (p ++ q) = (node.at? p).bind (kindAt? q) := by
  rw [kindAt?, at?_append]
  cases node.at? p <;> rfl

theorem kindAt?_eq_dir_iff {node : Node} {p : Place} :
    node.kindAt? p = some .dir ↔ ∃ entries, node.at? p = some (.dir entries) := by
  rw [kindAt?, Option.map_eq_some_iff]
  constructor
  · rintro ⟨found, hfound, hkind⟩
    obtain ⟨entries, rfl⟩ := kind_eq_dir hkind
    exact ⟨entries, hfound⟩
  · rintro ⟨entries, h⟩
    exact ⟨_, h, rfl⟩

theorem kindAt?_eq_file_iff {node : Node} {p : Place} {content : Bytes} :
    node.kindAt? p = some (.file content) ↔ node.at? p = some (.file content) := by
  rw [kindAt?, Option.map_eq_some_iff]
  constructor
  · rintro ⟨found, hfound, hkind⟩
    rwa [kind_eq_file hkind] at hfound
  · exact fun h => ⟨_, h, rfl⟩

theorem kindAt?_eq_none_iff {node : Node} {p : Place} :
    node.kindAt? p = none ↔ node.at? p = none :=
  Option.map_eq_none_iff

theorem content?_eq_some_iff {node : Node} {p : Place} {content : Bytes} :
    node.content? p = some content ↔ node.kindAt? p = some (.file content) := by
  rw [kindAt?_eq_file_iff, content?]
  rcases node.at? p with _ | (c | entries) <;> simp

/-- Trees that agree on what stands at a place agree on the content of a file there. -/
theorem content?_congr {a b : Node} {p q : Place} (h : a.kindAt? p = b.kindAt? q) :
    a.content? p = b.content? q := by
  refine Option.ext ?_
  intro content
  rw [content?_eq_some_iff, content?_eq_some_iff, h]

theorem kindAt?_of_leaf {node : Node} {p : Place} (h : node.kindAt? p ≠ some .dir) :
    node.kindAt? p = (node.content? p).map .file := by
  rw [kindAt?] at h ⊢
  rw [content?]
  rcases hnode : node.at? p with _ | (content | entries)
  · rfl
  · rfl
  · exact absurd (by rw [hnode]; rfl) h

theorem content?_of_kindAt? {node : Node} {p : Place} {content? : Option Bytes}
    (h : node.kindAt? p = content?.map .file) : node.content? p = content? := by
  refine Option.ext fun content => ?_
  rw [content?_eq_some_iff, h]
  cases content? <;> simp

/-- Nothing stands below a place at which there is no directory. -/
theorem kindAt?_append_cons_eq_none {node : Node} {p : Place} (h : node.kindAt? p ≠ some .dir)
    (name : String) (q : Place) : node.kindAt? (p ++ name :: q) = none := by
  rw [kindAt?_append]
  cases hp : node.at? p with
  | none => rfl
  | some found =>
    cases found with
    | file content => rfl
    | dir entries => exact absurd (kindAt?_eq_dir_iff.mpr ⟨entries, hp⟩) h

theorem kindAt?_cons_eq_none {node : Node} {p : Place} {name : String}
    (h : node.kindAt? (p ++ [name]) = none) (q : Place) : node.kindAt? (p ++ name :: q) = none := by
  cases q with
  | nil => exact h
  | cons next q =>
    have := kindAt?_append_cons_eq_none (by rw [h]; simp) next q
    rwa [List.append_assoc, List.singleton_append] at this

/-- Whatever leads to a place is a directory. -/
theorem kindAt?_eq_dir_of_append {node : Node} {p q : Place} (hq : q ≠ [])
    (h : node.kindAt? (p ++ q) ≠ none) : node.kindAt? p = some .dir := by
  obtain ⟨name, rest, rfl⟩ := List.exists_cons_of_ne_nil hq
  by_contra hp
  exact h (kindAt?_append_cons_eq_none hp name rest)

theorem kindAt?_eq_dir_above {node : Node} {p q : Place} (hpq : p <+: q)
    (h : node.kindAt? q = some .dir) : node.kindAt? p = some .dir := by
  obtain ⟨rest, rfl⟩ := hpq
  cases rest with
  | nil => rwa [List.append_nil] at h
  | cons name rest => exact kindAt?_eq_dir_of_append (List.cons_ne_nil _ _) (by rw [h]; simp)

/-! ## Entries -/

theorem lookup_eq_some_iff {entries : List (String × Node)}
    (h : (entries.map (·.1)).Nodup) {name : String} {child : Node} :
    entries.lookup name = some child ↔ (name, child) ∈ entries := by
  induction entries with
  | nil => simp
  | cons entry rest ih =>
    obtain ⟨n, node⟩ := entry
    obtain ⟨hn, hrest⟩ := List.nodup_cons.mp h
    by_cases heq : name = n
    · subst heq
      have habsent : ∀ node, (name, node) ∉ rest := fun node hmem =>
        hn (List.mem_map.mpr ⟨_, hmem, rfl⟩)
      simp [habsent, eq_comm]
    · have hne : (name == n) = false := by simpa using heq
      rw [List.lookup_cons, hne, List.mem_cons]
      simp [heq, ih hrest]

/-- The entries of a directory are what stands one name below it. -/
theorem mem_entries_iff {node : Node} (hd : node.Distinct) {p : Place}
    {entries : List (String × Node)} (h : node.at? p = some (.dir entries))
    {name : String} {child : Node} :
    (name, child) ∈ entries ↔ node.at? (p ++ [name]) = some child := by
  rw [← lookup_eq_some_iff (hd p entries h), at?_append, h]
  simp only [Option.bind_some, at?, child?]
  cases entries.lookup name <;> simp

theorem mem_names_iff {node : Node} (hd : node.Distinct) {p : Place}
    {entries : List (String × Node)} (h : node.at? p = some (.dir entries)) {name : String} :
    name ∈ entries.map (·.1) ↔ node.kindAt? (p ++ [name]) ≠ none := by
  rw [Ne, kindAt?_eq_none_iff, List.mem_map]
  constructor
  · rintro ⟨⟨n, child⟩, hmem, rfl⟩
    rw [(mem_entries_iff hd h).mp hmem]
    simp
  · intro hne
    obtain ⟨child, hchild⟩ := Option.ne_none_iff_exists'.mp hne
    exact ⟨(name, child), (mem_entries_iff hd h).mpr hchild, rfl⟩

/-- The order in which the entries of a directory are listed does not show at any place. -/
theorem same_of_perm {entries entries' : List (String × Node)} (hperm : entries.Perm entries')
    (hnames : (entries.map (·.1)).Nodup) : Same (.dir entries) (.dir entries') := by
  rintro (- | ⟨name, place⟩)
  · rfl
  · have hlookup : entries.lookup name = entries'.lookup name := by
      ext child
      rw [lookup_eq_some_iff hnames, lookup_eq_some_iff ((hperm.map _).nodup_iff.mp hnames),
        hperm.mem_iff]
    rw [kindAt?, kindAt?, at?, at?, child?, child?, hlookup]

/-- Nor does the order within the directories of a directory. -/
theorem same_dir_cons {a b : Node} (name : String) (h : Same a b)
    (rest : List (String × Node)) : Same (.dir ((name, a) :: rest)) (.dir ((name, b) :: rest)) := by
  rintro (- | ⟨first, place⟩)
  · rfl
  · simp only [kindAt?, at?, child?, List.lookup_cons]
    cases hfirst : first == name with
    | true => exact h place
    | false => rfl

/-! ## Distinct names -/

theorem distinct_file (content : Bytes) : (Node.file content).Distinct := by
  intro p entries h
  cases p with
  | nil => cases h
  | cons name p => cases h

theorem distinct_dir_iff {entries : List (String × Node)} :
    (Node.dir entries).Distinct ↔
      (entries.map (·.1)).Nodup ∧ ∀ name child, (name, child) ∈ entries → child.Distinct := by
  constructor
  · intro h
    have hnames := h [] entries rfl
    refine ⟨hnames, fun name child hmem p es hp => h (name :: p) es ?_⟩
    rw [at?, child?, (lookup_eq_some_iff hnames).mpr hmem]
    exact hp
  · rintro ⟨hnames, hchildren⟩ p es hp
    cases p with
    | nil => cases hp; exact hnames
    | cons name p =>
      rw [at?, child?] at hp
      cases hlookup : entries.lookup name with
      | none => rw [hlookup] at hp; cases hp
      | some child =>
        rw [hlookup] at hp
        exact hchildren name child ((lookup_eq_some_iff hnames).mp hlookup) p es hp

theorem Distinct.child {node : Node} (h : node.Distinct) {p : Place} {found : Node}
    (hp : node.at? p = some found) : found.Distinct := by
  intro q entries hq
  refine h (p ++ q) entries ?_
  rw [at?_append, hp]
  exact hq

/-! ## Changing one entry -/

theorem mem_alterEntry {name : String} {f : Option Node → Option Node}
    {entries : List (String × Node)} {entry : String × Node}
    (h : entry ∈ alterEntry name f entries) :
    entry ∈ entries ∨ entry.1 = name ∧ f (entries.lookup name) = some entry.2 := by
  induction entries with
  | nil =>
    unfold alterEntry at h
    split at h
    · cases h
    next node hf => cases List.mem_singleton.mp h; exact .inr ⟨rfl, hf⟩
  | cons first rest ih =>
    obtain ⟨n, node⟩ := first
    unfold alterEntry at h
    by_cases heq : n = name
    · subst heq
      rw [if_pos rfl] at h
      split at h
      · exact .inl (List.mem_cons_of_mem _ h)
      next new hf =>
        rcases List.mem_cons.mp h with rfl | h
        · exact .inr ⟨rfl, by rw [List.lookup_cons_self]; exact hf⟩
        · exact .inl (List.mem_cons_of_mem _ h)
    · rw [if_neg heq] at h
      have hne : (name == n) = false := by simpa using Ne.symm heq
      rcases List.mem_cons.mp h with rfl | h
      · exact .inl (List.mem_cons_self ..)
      · rcases ih h with h | h
        · exact .inl (List.mem_cons_of_mem _ h)
        · rw [List.lookup_cons, hne]
          exact .inr h

theorem nodup_alterEntry (name : String) (f : Option Node → Option Node)
    {entries : List (String × Node)} (h : (entries.map (·.1)).Nodup) :
    ((alterEntry name f entries).map (·.1)).Nodup := by
  induction entries with
  | nil =>
    unfold alterEntry
    split
    · exact .nil
    · exact List.pairwise_singleton _ _
  | cons first rest ih =>
    obtain ⟨n, node⟩ := first
    obtain ⟨hn, hrest⟩ := List.nodup_cons.mp h
    unfold alterEntry
    split
    · split
      · exact hrest
      · exact List.nodup_cons.mpr ⟨hn, hrest⟩
    next hne =>
      refine List.nodup_cons.mpr ⟨fun hmem => ?_, ih hrest⟩
      obtain ⟨entry, hentry, hname⟩ := List.mem_map.mp hmem
      rcases mem_alterEntry hentry with h | ⟨h, -⟩
      · exact hn (List.mem_map.mpr ⟨entry, h, hname⟩)
      · exact hne (hname.symm.trans h)

theorem lookup_alterEntry_self (name : String) (f : Option Node → Option Node)
    {entries : List (String × Node)} (h : (entries.map (·.1)).Nodup) :
    (alterEntry name f entries).lookup name = f (entries.lookup name) := by
  induction entries with
  | nil =>
    unfold alterEntry
    split
    next hf => simp [hf]
    next node hf => simp [hf]
  | cons first rest ih =>
    obtain ⟨n, node⟩ := first
    obtain ⟨hn, hrest⟩ := List.nodup_cons.mp h
    unfold alterEntry
    by_cases heq : n = name
    · subst heq
      rw [if_pos rfl, List.lookup_cons_self]
      split
      next hf =>
        rw [hf, List.lookup_eq_none_iff]
        intro entry hentry
        have hne : n ≠ entry.1 := fun hname => hn (List.mem_map.mpr ⟨entry, hentry, hname.symm⟩)
        simpa using hne
      next new hf => rw [List.lookup_cons_self, hf]
    · have hne : (name == n) = false := by simpa using Ne.symm heq
      rw [if_neg heq, List.lookup_cons, hne, List.lookup_cons, hne]
      exact ih hrest

theorem lookup_alterEntry_of_ne {name other : String} (f : Option Node → Option Node)
    (hne : other ≠ name) (entries : List (String × Node)) :
    (alterEntry name f entries).lookup other = entries.lookup other := by
  have hother : (other == name) = false := by simpa using hne
  induction entries with
  | nil =>
    unfold alterEntry
    split
    · rfl
    · rw [List.lookup_cons, hother]
  | cons first rest ih =>
    obtain ⟨n, node⟩ := first
    unfold alterEntry
    by_cases heq : n = name
    · subst heq
      rw [if_pos rfl, List.lookup_cons, hother]
      split
      · rfl
      · rw [List.lookup_cons, hother]
    · rw [if_neg heq, List.lookup_cons, List.lookup_cons, ih]

/-! ## Changing one place -/

theorem alter_cons_dir {f : Option Node → Option Node} {name : String} {place : Place}
    (h : place ≠ []) (entries : List (String × Node)) :
    alter f (name :: place) (.dir entries)
      = .dir (alterEntry name (Option.map (alter f place)) entries) := by
  obtain ⟨next, rest, rfl⟩ := List.exists_cons_of_ne_nil h
  rfl

/-- What a change of one place leaves there and below. The directory of the place must exist. -/
theorem at?_alter_append {f : Option Node → Option Node} {node : Node} (hd : node.Distinct)
    {p : Place} {name : String} (hp : node.kindAt? p = some .dir) (q : Place) :
    (alter f (p ++ [name]) node).at? (p ++ name :: q)
      = (f (node.at? (p ++ [name]))).bind (at? q) := by
  induction p generalizing node with
  | nil =>
    obtain ⟨entries, rfl⟩ := kind_eq_dir (by simpa [kindAt?, at?] using hp)
    have hnames := (distinct_dir_iff.mp hd).1
    simp only [List.nil_append, alter, at?, child?, lookup_alterEntry_self name f hnames]
    cases entries.lookup name <;> rfl
  | cons first p ih =>
    cases node with
    | file content => cases hp
    | dir entries =>
      obtain ⟨hnames, hchildren⟩ := distinct_dir_iff.mp hd
      have hne : p ++ [name] ≠ [] := by simp
      rw [List.cons_append, List.cons_append, alter_cons_dir hne, at?, child?,
        lookup_alterEntry_self _ _ hnames, at?, child?]
      cases hchild : entries.lookup first with
      | none => rw [kindAt?, at?, child?, hchild] at hp; cases hp
      | some child =>
        have hmem := (lookup_eq_some_iff hnames).mp hchild
        refine ih (hchildren first child hmem) ?_
        rw [kindAt?, at?, child?, hchild] at hp
        exact hp

/-- Everything that is not at or below the place of a change looks as before. -/
theorem kindAt?_alter_of_not_below {f : Option Node → Option Node} {node : Node}
    (hd : node.Distinct) {p q : Place} (h : ¬p <+: q) :
    (alter f p node).kindAt? q = node.kindAt? q := by
  induction p generalizing node q with
  | nil => exact absurd List.nil_prefix h
  | cons name p ih =>
    cases node with
    | file content => cases p <;> rfl
    | dir entries =>
      have hdir : ∃ g, alter f (name :: p) (.dir entries) = .dir (alterEntry name g entries) := by
        cases p with
        | nil => exact ⟨f, rfl⟩
        | cons next rest => exact ⟨_, rfl⟩
      cases q with
      | nil => obtain ⟨g, hg⟩ := hdir; rw [hg]; rfl
      | cons first q =>
        by_cases hfirst : first = name
        · subst hfirst
          have hp : ¬p <+: q := fun hp => h (by simpa using hp)
          have hne : p ≠ [] := fun hp' => hp (hp' ▸ List.nil_prefix)
          obtain ⟨hnames, hchildren⟩ := distinct_dir_iff.mp hd
          rw [alter_cons_dir hne, kindAt?, at?, child?, lookup_alterEntry_self _ _ hnames,
            kindAt?, at?, child?]
          cases hchild : entries.lookup first with
          | none => rfl
          | some child =>
            exact ih (hchildren first child ((lookup_eq_some_iff hnames).mp hchild)) hp
        · obtain ⟨g, hg⟩ := hdir
          rw [hg, kindAt?, at?, child?, lookup_alterEntry_of_ne g hfirst, kindAt?, at?, child?]

/-- A change keeps the names within every directory apart. -/
theorem Distinct.alter {f : Option Node → Option Node}
    (hf : ∀ old new, f old = some new → (∀ node, old = some node → node.Distinct) → new.Distinct)
    {node : Node} (hd : node.Distinct) (p : Place) : (alter f p node).Distinct := by
  induction p generalizing node with
  | nil =>
    rw [Node.alter]
    cases hnode : f (some node) with
    | none => exact hd
    | some new => exact hf _ _ hnode fun _ h => Option.some.inj h ▸ hd
  | cons name p ih =>
    cases node with
    | file content => cases p <;> exact distinct_file content
    | dir entries =>
      obtain ⟨hnames, hchildren⟩ := distinct_dir_iff.mp hd
      cases p with
      | nil =>
        refine distinct_dir_iff.mpr ⟨nodup_alterEntry name f hnames, fun n child hmem => ?_⟩
        rcases mem_alterEntry hmem with hmem | ⟨-, hchild⟩
        · exact hchildren n child hmem
        · exact hf _ _ hchild fun old hold =>
            hchildren name old ((lookup_eq_some_iff hnames).mp hold)
      | cons next rest =>
        refine distinct_dir_iff.mpr ⟨nodup_alterEntry name _ hnames, fun n child hmem => ?_⟩
        rcases mem_alterEntry hmem with hmem | ⟨-, hchild⟩
        · exact hchildren n child hmem
        · obtain ⟨old, hold, rfl⟩ := Option.map_eq_some_iff.mp hchild
          exact ih (hchildren name old ((lookup_eq_some_iff hnames).mp hold))

/-! ## Putting and taking away -/

theorem distinct_dir_nil : (Node.dir []).Distinct :=
  distinct_dir_iff.mpr ⟨List.nodup_nil, fun _ _ h => absurd h List.not_mem_nil⟩

theorem Distinct.put {node new : Node} (hd : node.Distinct) (hnew : new.Distinct) (p : Place) :
    (node.put p new).Distinct :=
  hd.alter (fun _ _ h _ => Option.some.inj h ▸ hnew) p

theorem Distinct.erase {node : Node} (hd : node.Distinct) (p : Place) : (node.erase p).Distinct :=
  hd.alter (fun _ _ h _ => absurd h (by simp)) p

theorem kindAt?_put_append {node : Node} (hd : node.Distinct) {p : Place} {name : String}
    (hp : node.kindAt? p = some .dir) (new : Node) (q : Place) :
    (node.put (p ++ [name]) new).kindAt? (p ++ name :: q) = new.kindAt? q := by
  rw [kindAt?, put, at?_alter_append hd hp]
  rfl

theorem kindAt?_put_of_not_below {node : Node} (hd : node.Distinct) {p q : Place}
    (h : ¬p <+: q) (new : Node) : (node.put p new).kindAt? q = node.kindAt? q :=
  kindAt?_alter_of_not_below hd h

theorem kindAt?_erase_append {node : Node} (hd : node.Distinct) {p : Place} (hp : p ≠ [])
    (q : Place) : (node.erase p).kindAt? (p ++ q) = none := by
  obtain ⟨parent, name, rfl⟩ : ∃ parent name, p = parent ++ [name] :=
    ⟨p.dropLast, p.getLast hp, (List.dropLast_append_getLast hp).symm⟩
  rw [List.append_assoc, List.singleton_append]
  by_cases hparent : node.kindAt? parent = some .dir
  · rw [kindAt?, erase, at?_alter_append hd hparent]
    rfl
  · refine kindAt?_append_cons_eq_none ?_ name q
    rw [erase, kindAt?_alter_of_not_below hd]
    · exact hparent
    · intro hbelow
      have hlength := hbelow.length_le
      rw [List.length_append, List.length_singleton] at hlength
      omega

theorem kindAt?_erase_of_not_below {node : Node} (hd : node.Distinct) {p q : Place}
    (h : ¬p <+: q) : (node.erase p).kindAt? q = node.kindAt? q :=
  kindAt?_alter_of_not_below hd h

/-- Putting a file, or an empty directory, where no directory stands changes one place only. -/
theorem kindAt?_put_leaf {node : Node} (hd : node.Distinct) {p : Place} {name : String}
    (hp : node.kindAt? p = some .dir) (hleaf : node.kindAt? (p ++ [name]) ≠ some .dir) {new : Node}
    (hnew : ∀ next rest, new.kindAt? (next :: rest) = none) (q : Place) :
    (node.put (p ++ [name]) new).kindAt? q
      = if q = p ++ [name] then some new.kind else node.kindAt? q := by
  by_cases hbelow : p ++ [name] <+: q
  · obtain ⟨rest, rfl⟩ := hbelow
    rw [List.append_assoc, List.singleton_append, kindAt?_put_append hd hp]
    cases rest with
    | nil => simp [kindAt?, at?]
    | cons next rest =>
      rw [hnew, if_neg (by simp)]
      have := kindAt?_append_cons_eq_none hleaf next rest
      rw [List.append_assoc, List.singleton_append] at this
      exact this.symm
  · rw [kindAt?_put_of_not_below hd hbelow, if_neg]
    rintro rfl
    exact hbelow (List.prefix_refl _)

theorem kindAt?_put_file {node : Node} (hd : node.Distinct) {p : Place} {name : String}
    (hp : node.kindAt? p = some .dir) (hleaf : node.kindAt? (p ++ [name]) ≠ some .dir)
    (content : Bytes) (q : Place) :
    (node.put (p ++ [name]) (.file content)).kindAt? q
      = if q = p ++ [name] then some (.file content) else node.kindAt? q :=
  kindAt?_put_leaf hd hp hleaf (fun _ _ => rfl) q

theorem kindAt?_put_dir {node : Node} (hd : node.Distinct) {p : Place} {name : String}
    (hp : node.kindAt? p = some .dir) (hleaf : node.kindAt? (p ++ [name]) ≠ some .dir) (q : Place) :
    (node.put (p ++ [name]) (.dir [])).kindAt? q
      = if q = p ++ [name] then some .dir else node.kindAt? q :=
  kindAt?_put_leaf hd hp hleaf (fun _ _ => rfl) q

/-- Taking away what has nothing below it changes one place only. -/
theorem kindAt?_erase_leaf {node : Node} (hd : node.Distinct) {p : Place} (hp : p ≠ [])
    (hleaf : ∀ name rest, node.kindAt? (p ++ name :: rest) = none) (q : Place) :
    (node.erase p).kindAt? q = if q = p then none else node.kindAt? q := by
  by_cases hbelow : p <+: q
  · obtain ⟨rest, rfl⟩ := hbelow
    rw [kindAt?_erase_append hd hp]
    cases rest with
    | nil => simp
    | cons name rest => simp [hleaf]
  · rw [kindAt?_erase_of_not_below hd hbelow, if_neg]
    rintro rfl
    exact hbelow (List.prefix_refl _)

end Node

end ConfigStore
