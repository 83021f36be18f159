import ConfigStore.Proofs.Disk.View

/-!
# Changes that cancel each other

A change that is taken back leaves the tree exactly as it was, the listing order of its directories
included. The view through `Node.kindAt?` does not show that order, so these statements are about
the tree itself.

* `Node.alter_eq_self` and `Node.put_of_not_dir` say when a change changes nothing.
* `Node.alter_put` makes one change of two; `Node.erase_put` and `Node.put_back` take back what was
  put.
* `Node.at?_alter_of_apart` says which subtrees a change leaves exactly as they are.
-/

namespace ConfigStore.Node

/-! ## Changing nothing -/

theorem alterEntry_eq_self {name : String} {f : Option Node → Option Node}
    {entries : List (String × Node)} (h : f (entries.lookup name) = entries.lookup name) :
    alterEntry name f entries = entries := by
  induction entries with
  | nil =>
    rw [List.lookup_nil] at h
    rw [alterEntry, h]
  | cons entry rest ih =>
    obtain ⟨n, node⟩ := entry
    rw [alterEntry]
    split
    next heq =>
      subst heq
      rw [List.lookup_cons_self] at h
      rw [h]
    next hne =>
      have hother : (name == n) = false := by simpa using Ne.symm hne
      rw [List.lookup_cons, hother] at h
      rw [ih h]

/-- A change that finds what it would leave changes nothing, listing order included. -/
theorem alter_eq_self {f : Option Node → Option Node} {p : Place} {node : Node}
    (h : f (node.at? p) = node.at? p) : alter f p node = node := by
  induction p generalizing node with
  | nil =>
    have hf : f (some node) = some node := h
    rw [alter, hf, Option.getD_some]
  | cons name p ih =>
    cases node with
    | file content => cases p <;> rfl
    | dir entries =>
      cases p with
      | nil =>
        have hlookup : (dir entries).at? [name] = entries.lookup name := by simp [at?, child?]
        rw [hlookup] at h
        rw [alter, alterEntry_eq_self h]
      | cons next rest =>
        rw [alter, alterEntry_eq_self]
        cases hchild : entries.lookup name with
        | none => rfl
        | some child =>
          rw [at?, child?, hchild] at h
          rw [Option.map_some, ih h]

/-- Nothing can be put where there is no directory for it. -/
theorem put_of_not_dir {p : Place} {node : Node} (h : node.kindAt? p ≠ some .dir) (name : String)
    (new : Node) : node.put (p ++ [name]) new = node := by
  induction p generalizing node with
  | nil =>
    cases node with
    | file content => rfl
    | dir entries => exact absurd rfl h
  | cons first p ih =>
    cases node with
    | file content => cases p <;> rfl
    | dir entries =>
      rw [put, List.cons_append, alter_cons_dir (by simp), alterEntry_eq_self]
      cases hchild : entries.lookup first with
      | none => rfl
      | some child =>
        rw [kindAt?, at?, child?, hchild] at h
        rw [Option.map_some]
        exact congrArg some (ih h)

/-! ## Changing twice -/

theorem alterEntry_alterEntry {f g : Option Node → Option Node} (hg : ∀ node, g (some node) ≠ none)
    (name : String) (entries : List (String × Node)) :
    alterEntry name f (alterEntry name g entries) = alterEntry name (f ∘ g) entries := by
  induction entries with
  | nil =>
    cases hnew : g none with
    | none => simp [alterEntry, hnew]
    | some node => simp [alterEntry, hnew]
  | cons entry rest ih =>
    obtain ⟨n, node⟩ := entry
    by_cases heq : n = name
    · obtain ⟨new, hnew⟩ := Option.ne_none_iff_exists'.mp (hg node)
      simp [alterEntry, heq, hnew]
    · simp [alterEntry, heq, ih]

/-- What stood at a place before something was put there does not matter for a second change. -/
theorem alter_put {p : Place} (hp : p ≠ []) (f : Option Node → Option Node) (node new : Node) :
    alter f p (node.put p new) = alter (fun _ => f (some new)) p node := by
  induction p generalizing node with
  | nil => exact absurd rfl hp
  | cons name p ih =>
    cases node with
    | file content => cases p <;> rfl
    | dir entries =>
      cases p with
      | nil =>
        have htwice :=
          alterEntry_alterEntry (f := f) (g := fun _ => some new) (by simp) name entries
        rw [put, alter, alter, htwice]
        rfl
      | cons next rest =>
        have hsome : ∀ child, Option.map (alter (fun _ => some new) (next :: rest)) (some child)
            ≠ none := by simp
        rw [put, alter, alter, alterEntry_alterEntry hsome, alter]
        congr 2
        funext child?
        cases child? with
        | none => rfl
        | some child => exact congrArg some (ih (List.cons_ne_nil _ _) child)

/-- Something that was put where nothing stood can be taken away again. -/
theorem erase_put {p : Place} (hp : p ≠ []) {node : Node} (h : node.kindAt? p = none) (new : Node) :
    (node.put p new).erase p = node := by
  rw [erase, alter_put hp]
  exact alter_eq_self (kindAt?_eq_none_iff.mp h).symm

/-- What something was put in place of can be put there again. -/
theorem put_back {p : Place} (hp : p ≠ []) {node old : Node} (h : node.at? p = some old)
    (new : Node) : (node.put p new).put p old = node := by
  rw [put, alter_put hp]
  exact alter_eq_self h.symm

/-- A change is not seen where it is neither at, nor above, nor below a place. -/
theorem at?_alter_of_apart {f : Option Node → Option Node} {node : Node} (hd : node.Distinct)
    {p q : Place} (hpq : ¬p <+: q) (hqp : ¬q <+: p) : (alter f p node).at? q = node.at? q := by
  induction p generalizing node q with
  | nil => exact absurd List.nil_prefix hpq
  | cons name p ih =>
    obtain ⟨first, q, rfl⟩ : ∃ first rest, q = first :: rest :=
      List.exists_cons_of_ne_nil fun h => hqp (h ▸ List.nil_prefix)
    cases node with
    | file content => cases p <;> rfl
    | dir entries =>
      by_cases hne : first = name
      · subst hne
        rw [List.cons_prefix_cons, not_and] at hpq hqp
        have hp : p ≠ [] := by
          rintro rfl
          exact hpq rfl List.nil_prefix
        obtain ⟨hnames, hchildren⟩ := distinct_dir_iff.mp hd
        rw [alter_cons_dir hp, at?, child?, lookup_alterEntry_self _ _ hnames, at?, child?]
        cases hchild : entries.lookup first with
        | none => rfl
        | some child =>
          exact ih (hchildren first child ((lookup_eq_some_iff hnames).mp hchild)) (hpq rfl)
            (hqp rfl)
      · cases p with
        | nil => rw [alter, at?, child?, lookup_alterEntry_of_ne f hne, at?, child?]
        | cons next rest => rw [alter, at?, child?, lookup_alterEntry_of_ne _ hne, at?, child?]

/-- A change in a directory is not seen apart from that directory. -/
theorem at?_alter_in_apart {f : Option Node → Option Node} {node : Node} (hd : node.Distinct)
    {here q : Place} {name : String} (hpq : ¬here <+: q) (hqp : ¬q <+: here) :
    (alter f (here ++ [name]) node).at? q = node.at? q := by
  refine at?_alter_of_apart hd (fun hle => hpq ((List.prefix_append ..).trans hle)) fun hle => ?_
  rcases List.prefix_concat_iff.mp hle with rfl | hle
  · exact hpq (List.prefix_append ..)
  · exact hqp hle

end ConfigStore.Node
