import ConfigStore.Query.Filter
import Mathlib.Data.List.Nodup
import Mathlib.Data.List.Perm.Subperm

/-!
# Queries for labels

Labels contain others if they carry every pair of them. The comparison of sizes that comes first
when this is tested changes nothing, for a map that carries every pair of another one has no fewer
pairs. Containing is an order, and what a query finds follows it: a query for more labels finds no
more documents, and neither does one for exactly its labels.

* `Labels.contains_iff` says what labels contain.
* `Labels.contains_self`, `Labels.contains_trans`, `Labels.equivalent_iff` are the laws of the
  order, and `Labels.compatible_of_contains` compares it with what permissions ask for.
* `Query.accepts_mono` says that a query with a weaker demand on labels accepts more documents.
* `label_queries_ordered` is all of it together.
-/

namespace ConfigStore

/-! ## The order of labels -/

namespace Labels

variable {x y z : Labels}

/-- A map that carries every pair of another one has no fewer pairs. -/
theorem size_le_of_pairs (h : ∀ name value, y.get? name = some value → x.get? name = some value) :
    y.size ≤ x.size := by
  have hsubset : y.pairs ⊆ x.pairs := fun p hp =>
    (x.mem_pairs_iff p.1 p.2).mpr (h p.1 p.2 ((y.mem_pairs_iff p.1 p.2).mp hp))
  have hnodup : y.pairs.Nodup :=
    y.ascending.imp fun {p q} hlt (heq : p = q) => String.lt_irrefl _ (heq ▸ hlt)
  exact (hnodup.subperm hsubset).length_le

/-- Labels contain others if they carry every pair of them. -/
theorem contains_iff : x.contains y = true ↔
    ∀ name value, y.get? name = some value → x.get? name = some value := by
  rw [contains, Bool.and_eq_true, decide_eq_true_eq, List.all_eq_true]
  constructor
  · rintro ⟨-, hall⟩ name value hvalue
    simpa using hall (name, value) ((y.mem_pairs_iff name value).mpr hvalue)
  · intro h
    refine ⟨size_le_of_pairs h, fun p hp => ?_⟩
    simpa using h p.1 p.2 ((y.mem_pairs_iff p.1 p.2).mp hp)

theorem contains_self (x : Labels) : x.contains x = true :=
  contains_iff.mpr fun _ _ h => h

theorem contains_trans (hxy : x.contains y = true) (hyz : y.contains z = true) :
    x.contains z = true :=
  contains_iff.mpr fun name value h =>
    contains_iff.mp hxy name value (contains_iff.mp hyz name value h)

/-- Labels that contain each other are the same. -/
theorem equivalent_iff :
    x.contains y = true ∧ y.contains x = true ↔ x.equivalent y = true := by
  rw [equivalent, beq_iff_eq]
  constructor
  · rintro ⟨hxy, hyx⟩
    refine Dict.ext_get? fun name => Option.ext fun value => ?_
    exact ⟨contains_iff.mp hyx name value, contains_iff.mp hxy name value⟩
  · rintro rfl
    exact ⟨contains_self x, contains_self x⟩

/-- Labels that contain others give no name another value. -/
theorem compatible_of_contains (h : x.contains y = true) : x.compatible y = true := by
  rw [compatible, List.all_eq_true]
  rintro ⟨name, value⟩ hp
  simp [contains_iff.mp h name value ((y.mem_pairs_iff name value).mp hp)]

/-- A label under a new name is one more that must be contained. -/
theorem contains_of_insert {name value : String} (hnew : y.get? name = none)
    (h : x.contains (y.insert name value) = true) : x.contains y = true := by
  refine contains_iff.mpr fun n v hv => contains_iff.mp h n v ?_
  have hne : n ≠ name := by
    rintro rfl
    rw [hnew] at hv
    cases hv
  rwa [Dict.get?_insert, if_neg hne]

end Labels

/-! ## The order of queries -/

namespace Query

/-- If the labels that one query asks for are all that another one asks for, and it agrees with it
in everything else, it accepts what the other one accepts. -/
theorem accepts_mono {q : Query} (labels labels' : Labels) (exact exact' : Bool) {d : Document}
    (hlabels : acceptsLabels { q with labels, exactLabels := exact } d.labels = true →
      acceptsLabels { q with labels := labels', exactLabels := exact' } d.labels = true)
    (h : accepts { q with labels, exactLabels := exact } d = true) :
    accepts { q with labels := labels', exactLabels := exact' } d = true := by
  unfold accepts at h ⊢
  simp only [Bool.and_eq_true] at h ⊢
  obtain ⟨⟨⟨⟨hstatus, hkey⟩, hown⟩, hformat⟩, hvalue⟩ := h
  exact ⟨⟨⟨⟨hstatus, hkey⟩, hlabels hown⟩, hformat⟩, hvalue⟩

/-- Asking for one more label finds no document that was not found before. -/
theorem accepts_of_insert {q : Query} {d : Document} {name value : String}
    (hcontained : q.exactLabels = false) (hnew : q.labels.get? name = none)
    (h : accepts { q with labels := q.labels.insert name value } d = true) :
    q.accepts d = true := by
  refine accepts_mono (q.labels.insert name value) q.labels q.exactLabels q.exactLabels
    (fun hlabels => ?_) h
  rw [acceptsLabels, hcontained, if_neg (by simp)] at hlabels ⊢
  exact Labels.contains_of_insert hnew hlabels

/-- A document that has exactly the labels asked for is found as well if it need only contain
them. -/
theorem accepts_of_exact {q : Query} {d : Document}
    (h : accepts { q with exactLabels := true } d = true) :
    accepts { q with exactLabels := false } d = true := by
  refine accepts_mono q.labels q.labels true false (fun hlabels => ?_) h
  rw [acceptsLabels, if_pos rfl] at hlabels
  rw [acceptsLabels, if_neg (by simp)]
  exact (Labels.equivalent_iff.mpr hlabels).2

end Query

/-- Containing is an order on labels, and queries for labels follow it. -/
theorem label_queries_ordered :
    (∀ x y : Labels, x.contains y = true ↔
      ∀ name value, y.get? name = some value → x.get? name = some value) ∧
    (∀ x : Labels, x.contains x = true) ∧
    (∀ x y z : Labels, x.contains y = true → y.contains z = true → x.contains z = true) ∧
    (∀ x y : Labels, x.contains y = true ∧ y.contains x = true ↔ x.equivalent y = true) ∧
    (∀ x y : Labels, x.contains y = true → x.compatible y = true) ∧
    (∀ (q : Query) (d : Document) (name value : String), q.exactLabels = false →
      q.labels.get? name = none →
      Query.accepts { q with labels := q.labels.insert name value } d = true →
        q.accepts d = true) ∧
    (∀ (q : Query) (d : Document), Query.accepts { q with exactLabels := true } d = true →
      Query.accepts { q with exactLabels := false } d = true) :=
  ⟨fun _ _ => Labels.contains_iff, Labels.contains_self, fun _ _ _ => Labels.contains_trans,
    fun _ _ => Labels.equivalent_iff, fun _ _ => Labels.compatible_of_contains,
    fun _ _ _ _ => Query.accepts_of_insert, fun _ _ => Query.accepts_of_exact⟩

theorem label_queries_ordered_sample :
    let prod : Labels := .ofList [("env", "prod")]
    let here : Labels := prod.insert "zone" "eu"
    let d : Document := { key := "timeout", labels := here }
    (here.contains prod = true ∧ prod.contains .empty = true ∧ here.contains .empty = true) ∧
    here.compatible prod = true ∧
    (Query.accepts { labels := here } d = true ∧ Query.accepts { labels := prod } d = true) ∧
    Query.accepts { labels := here, exactLabels := true } d = true ∧
    Query.accepts { labels := here, exactLabels := false } d = true := by
  intro prod here d
  obtain ⟨-, -, htrans, -, hcompatible, hinsert, hexact⟩ := label_queries_ordered
  have hprod : here.contains prod = true := by decide
  have hempty : prod.contains .empty = true := by decide
  have hmore : Query.accepts { labels := here } d = true := by decide
  have hsame : Query.accepts { labels := here, exactLabels := true } d = true := by decide
  exact ⟨⟨hprod, hempty, htrans here prod .empty hprod hempty⟩, hcompatible here prod hprod,
    ⟨hmore, hinsert { labels := prod } d "zone" "eu" rfl (by decide) hmore⟩,
    hsame, hexact { labels := here } d hsame⟩

end ConfigStore
