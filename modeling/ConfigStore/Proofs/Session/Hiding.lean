import ConfigStore.Proofs.Session.Lookup
import ConfigStore.Proofs.Session.Scopes

/-!
# Listings of what a caller may see

A caller whose listings are restricted to a scope gets the same listing from two stores that hold
the same documents within the scope, whatever else they hold. The exception are queries for a unique
document: the scan stops at the first document that such a query accepts, and only then is the
listing cut down to the scope. A document outside of the scope can so take the place of one within.

* `byId` has documents in the order of a scan, and `Query.scans` says what the scan takes of them.
* `Session.list_bare` says what a store without a cache lists.
* `Session.run_list_within` is the result about two stores, and `Session.list_behind_hidden` an
  example of the exception.
-/

namespace ConfigStore

open Node Disk Files Library Catalogue

/-! ## The order of a scan -/

/-- The documents in the order of their ids. -/
def byId (docs : List Document) : List Document := sortBy (fun a b => a.id ≤ b.id) docs

/-- What a scan takes of the documents that it comes across: those that the query accepts, or only
the first of them if the query is for a unique document. -/
def Query.scans (q : Query) (docs : List Document) : List Document :=
  if q.isUnique then (docs.filter q.accepts).take 1 else docs.filter q.accepts

theorem byId_perm (docs : List Document) : (byId docs).Perm docs := sortBy_perm _ docs

theorem pairwise_byId (docs : List Document) : (byId docs).Pairwise (·.id ≤ ·.id) := by
  refine (pairwise_sortBy (fun a b => ?_) (fun a b c => ?_) docs).imp of_decide_eq_true
  · simpa only [decide_eq_true_eq] using String.le_total a.id b.id
  · simpa only [decide_eq_true_eq] using String.le_trans

/-- Two lists in the order of the ids are the same if they have the same documents, no two of which
have one id. -/
theorem eq_of_mem_iff_of_byId {docs docs' : List Document} (hnodup : docs.Nodup)
    (hnodup' : docs'.Nodup) (hmem : ∀ d, d ∈ docs ↔ d ∈ docs')
    (hids : ∀ a ∈ docs, ∀ b ∈ docs, a.id = b.id → a = b)
    (hsorted : docs.Pairwise (·.id ≤ ·.id)) (hsorted' : docs'.Pairwise (·.id ≤ ·.id)) :
    docs = docs' := by
  have hperm : docs.Perm docs' := (List.perm_ext_iff_of_nodup hnodup hnodup').mpr hmem
  refine hperm.eq_of_pairwise (fun a b ha hb hab hba => ?_) hsorted hsorted'
  exact hids a ha b ((hmem b).mpr hb) (String.le_antisymm hab hba)

/-- If a query for a unique document accepts only documents that are kept by a filter, it makes no
difference whether the filter comes after the scan or before it. -/
theorem Query.filter_scans {q : Query} {p : Document → Bool} {docs : List Document}
    (h : q.isUnique = true → ∀ d ∈ docs, q.accepts d = true → p d = true) :
    (q.scans docs).filter p = q.scans (docs.filter p) := by
  have hcomm : (docs.filter p).filter q.accepts = (docs.filter q.accepts).filter p := by
    rw [List.filter_filter, List.filter_filter]
    simp only [Bool.and_comm]
  rw [scans, scans, hcomm]
  split
  next hunique =>
    have hkept : ∀ d ∈ docs.filter q.accepts, p d = true := by
      intro d hd
      obtain ⟨hd, haccepts⟩ := List.mem_filter.mp hd
      exact h hunique d hd haccepts
    rw [List.filter_eq_self.mpr hkept]
    exact List.filter_eq_self.mpr fun d hd => hkept d (List.mem_of_mem_take hd)
  · rfl

/-- The documents of a project in the order of their ids are those that a scan comes across. -/
theorem Catalogue.Mirrors.byId_inScope {c : Catalogue} {lib : Library} {domain project : String}
    {ids : List String} (h : c.Mirrors lib) (hvalid : lib.Valid)
    (hids : lib.Lists domain project ids) (hsorted : ids.Pairwise (· ≤ ·)) :
    byId (c.inScope domain project) = ids.filterMap (lib.head? domain project) := by
  have hperm := h.inScope_perm hvalid hids
  have hnodup : (c.inScope domain project).Nodup := h.nodup.sublist List.filter_sublist
  have hbyId := byId_perm (c.inScope domain project)
  refine eq_of_mem_iff_of_byId (hbyId.nodup_iff.mpr hnodup) (hperm.nodup_iff.mp hnodup)
    (fun d => (hbyId.trans hperm).mem_iff) (fun a ha b hb hid => ?_) (pairwise_byId _) ?_
  · have hheadA := (h.mem_inScope_iff hvalid).mp (hbyId.mem_iff.mp ha)
    have hheadB := (h.mem_inScope_iff hvalid).mp (hbyId.mem_iff.mp hb)
    rw [hid, hheadB] at hheadA
    exact (Option.some.inj hheadA).symm
  · refine List.Pairwise.filterMap _ (fun id id' hle d hd d' hd' => ?_) hsorted
    rw [(hvalid.place hd).2.2, (hvalid.place hd').2.2]
    exact hle

/-- Of two stores that hold the same documents that a filter keeps, a scan comes across these in the
same order. -/
theorem Catalogue.Mirrors.filter_byId_eq {c c' : Catalogue} {lib lib' : Library}
    {domain project : String} {p : Document → Bool} (h : c.Mirrors lib) (h' : c'.Mirrors lib')
    (hvalid : lib.Valid) (hsame : ∀ d : Document, p d = true →
      (d ∈ c.inScope domain project ↔ d ∈ c'.inScope domain project)) :
    (byId (c.inScope domain project)).filter p = (byId (c'.inScope domain project)).filter p := by
  have hnodup : ∀ {c : Catalogue}, c.Nodup →
      ((byId (c.inScope domain project)).filter p).Nodup := fun hc =>
    ((byId_perm _).nodup_iff.mpr (hc.sublist List.filter_sublist)).sublist List.filter_sublist
  refine eq_of_mem_iff_of_byId (hnodup h.nodup) (hnodup h'.nodup) (fun d => ?_)
    (fun a ha b hb hid => ?_) ((pairwise_byId _).sublist List.filter_sublist)
    ((pairwise_byId _).sublist List.filter_sublist)
  · rw [List.mem_filter, List.mem_filter, (byId_perm _).mem_iff, (byId_perm _).mem_iff]
    exact and_congr_left fun hp => hsame d hp
  · have hheadA := (h.mem_inScope_iff hvalid).mp
      ((byId_perm _).mem_iff.mp (List.mem_filter.mp ha).1)
    have hheadB := (h.mem_inScope_iff hvalid).mp
      ((byId_perm _).mem_iff.mp (List.mem_filter.mp hb).1)
    rw [hid, hheadB] at hheadA
    exact (Option.some.inj hheadA).symm

/-! ## Listings without a cache -/

/-- What a caller sees whose listings are restricted to a scope. -/
theorem visible_scoped {policy : Authorizer} {caller : Caller} {permitted : List Labels}
    (hauth : caller.authEnabled = true)
    (hcheck : policy caller .get none = some (.scoped permitted)) (hpermitted : permitted ≠ [])
    (docs : List Document) :
    visible policy caller docs = docs.filter (·.admittedBy permitted) := by
  rw [visible, hauth, hcheck]
  cases permitted with
  | nil => exact absurd rfl hpermitted
  | cons labels rest => rfl

namespace Session

variable {session : Session} {root : Path} {base : Place} {lib : Library} {c : Catalogue}
  {domain project : String}

/-- A store without a cache lists what a scan takes of its documents and the caller may see. -/
theorem list_bare (h : session.Stocked root base lib) (hc : c.Mirrors lib)
    (hloose : lib.loose? domain project = none) (hbare : session.state.cache = none)
    (hscope : Names.checkScope domain project = .ok ())
    (hfits : ∀ name ∈ [domain, project], Fits name) (caller : Caller) (query : Query) :
    (session.call (.list caller domain project query)).1 = .ok (.listing
      (.ofFound (visible session.store.policy caller
        (query.scans (byId (c.inScope domain project)))) query.offset query.limit)) := by
  have hready := h.ready
  obtain ⟨ids, hids, hlists⟩ :=
    hready.kept.ids hready.room hscope (isNames_of_fits hscope hfits) hloose
  have hscan : Store.scan session.store.root domain project query [] session.state.disk
      = .ok (query.scans (byId (c.inScope domain project))) session.state.disk := by
    have hpick := hready.kept.scanIds hready.room query [] fun id => (hlists.mem_iff id).mp
    rw [List.filter_eq_self.mpr (by simp)] at hpick
    simp only [Store.scan, bind, EStateM.bind, hids, hpick]
    rw [hc.byId_inScope hready.kept.valid hlists (inOrder_subdirs hids)]
    rfl
  have hfind : session.store.find domain project query session.state
      = .ok (query.scans (byId (c.inScope domain project))) session.state := by
    rw [Store.find_eq hscope (Store.searchCache_none hbare query), hscan, hbare]
    obtain ⟨store, disk, cache⟩ := session
    cases hbare
    simp
  rw [call_list_of_ok hfind]

/-- A session without a cache in which a caller gets listings of a scope only. -/
structure Restricts (session : Session) (caller : Caller) (permitted : List Labels) : Prop where
  bare : session.state.cache = none
  authEnabled : caller.authEnabled = true
  check : session.store.policy caller .get none = some (.scoped permitted)
  nonempty : permitted ≠ []

/-- A restricted caller gets what a scan takes of the documents within the scope, if a query for a
unique document accepts no other documents. -/
theorem list_within (h : session.Stocked root base lib) (hc : c.Mirrors lib)
    (hloose : lib.loose? domain project = none) {caller : Caller} {permitted : List Labels}
    (hrestricts : session.Restricts caller permitted)
    (hscope : Names.checkScope domain project = .ok ())
    (hfits : ∀ name ∈ [domain, project], Fits name) {query : Query}
    (hquery : query.isUnique = true → ∀ d ∈ c.inScope domain project, query.accepts d = true →
      d.admittedBy permitted = true) :
    (session.call (.list caller domain project query)).1 = .ok (.listing
      (.ofFound (query.scans ((byId (c.inScope domain project)).filter (·.admittedBy permitted)))
        query.offset query.limit)) := by
  rw [list_bare h hc hloose hrestricts.bare hscope hfits,
    visible_scoped hrestricts.authEnabled hrestricts.check hrestricts.nonempty,
    Query.filter_scans]
  intro hunique d hd
  exact hquery hunique d ((byId_perm _).mem_iff.mp hd)

/-- **Documents outside of a scope make no difference to listings within it**, except that a query
for a unique document must not accept any of them. Two stores without a cache that hold the same
documents within the scope of a caller give the caller the same listing. -/
theorem run_list_within {session₁ session₂ : Session} {settings₁ settings₂ : Settings}
    (hfresh₁ : session₁.Fresh settings₁) (hfresh₂ : session₂.Fresh settings₂)
    {steps₁ steps₂ : List Step} (hsteps₁ : ∀ step ∈ steps₁, step.Accepted settings₁.root)
    (hsteps₂ : ∀ step ∈ steps₂, step.Accepted settings₂.root)
    (hproject : project = Layout.counterName → .call (.advance domain) ∉ steps₁ ++ steps₂)
    {caller : Caller} {permitted : List Labels}
    (hrestricts₁ : (session₁.run steps₁).2.Restricts caller permitted)
    (hrestricts₂ : (session₂.run steps₂).2.Restricts caller permitted)
    (hscope : Names.checkScope domain project = .ok ())
    (hfits : ∀ name ∈ [domain, project], Fits name)
    (hsame : ∀ d : Document, d.admittedBy permitted = true →
      (d ∈ inScope (ofTrace (session₁.run steps₁).1) domain project ↔
        d ∈ inScope (ofTrace (session₂.run steps₂).1) domain project))
    {query : Query} (hquery : query.isUnique = true →
      ∀ d ∈ inScope (ofTrace (session₁.run steps₁).1) domain project
        ++ inScope (ofTrace (session₂.run steps₂).1) domain project,
      query.accepts d = true → d.admittedBy permitted = true) :
    ∃ listing,
      ((session₁.run steps₁).2.call (.list caller domain project query)).1
        = .ok (.listing listing) ∧
      ((session₂.run steps₂).2.call (.list caller domain project query)).1
        = .ok (.listing listing) := by
  obtain ⟨base₁, hsound₁⟩ := hfresh₁.sound
  obtain ⟨lib₁, hlast₁, hmirrors₁, hloose₁⟩ := run_catalogued hsound₁.toStocked mirrors_empty
    hsteps₁ (fun hname hmem => hproject hname (List.mem_append_left _ hmem)) rfl
  obtain ⟨base₂, hsound₂⟩ := hfresh₂.sound
  obtain ⟨lib₂, hlast₂, hmirrors₂, hloose₂⟩ := run_catalogued hsound₂.toStocked mirrors_empty
    hsteps₂ (fun hname hmem => hproject hname (List.mem_append_right _ hmem)) rfl
  refine ⟨_, list_within hlast₁ hmirrors₁ hloose₁ hrestricts₁ hscope hfits fun hunique d hd =>
    hquery hunique d (List.mem_append_left _ hd), ?_⟩
  rw [hmirrors₁.filter_byId_eq hmirrors₂ hlast₁.ready.kept.valid hsame]
  exact list_within hlast₂ hmirrors₂ hloose₂ hrestricts₂ hscope hfits fun hunique d hd =>
    hquery hunique d (List.mem_append_right _ hd)

/-! ## Two stores -/

/-- A caller whose listings are restricted. -/
def eve : Caller := .ofAccount "eve" []

/-- A store without a cache and with a scope for listings that was opened where nothing was. -/
def bareScoped : Session :=
  { bare with store := { root := bareSettings.root, policy := scopedPolicy } }

/-- A document within the scope. -/
def insider : Document := { twin with labels := scopeLabels }

/-- A document outside of the scope that agrees with the other in its key and its label format. A
scan comes across it first. -/
def hidden : Document := { outsider with id := "hidden", labelFormat := "env" }

theorem bareScoped_fresh : bareScoped.Fresh bareSettings where
  opened := ⟨scopedPolicy, .dir [], Node.distinct_dir_nil, rfl⟩
  empty := ⟨_, rfl, rfl⟩
  short := by decide

/-- A store in which some of the two documents were created. -/
def bareScopedWith (docs : List Document) : List Event × Session :=
  bareScoped.run (docs.map fun d => .call (.create .anonymous d))

theorem bareScopedWith_outcome (docs : List Document) (hdocs : docs ⊆ [insider, hidden]) :
    ∃ base lib, (bareScopedWith docs).2.Sound bareSettings.root base lib ∧
      ofTrace (bareScopedWith docs).1 = docs.foldl put [] ∧
      (docs.foldl put []).Mirrors lib ∧
      (bareScopedWith docs).2.Restricts eve [scopeLabels] := by
  obtain ⟨base, hsound⟩ := bareScoped_fresh.sound
  have hstore : ∀ d ∈ docs, Storable d.domain d.project d.id := by
    intro d hd
    have hd := hdocs hd
    simp only [List.mem_cons, List.not_mem_nil, or_false] at hd
    rcases hd with rfl | rfl
    · exact .of_fits rfl rfl (by decide)
    · exact .of_fits rfl rfl (by decide)
  obtain ⟨state, lib, hrun, hlast, hmirrors, hbare⟩ :=
    run_creates hsound mirrors_empty .anonymous hstore fun _ _ => rfl
  rw [bareScopedWith, hrun]
  refine ⟨base, lib, hlast, ?_, hmirrors, hbare rfl, rfl, rfl, List.cons_ne_nil _ _⟩
  rw [ofTrace, List.foldl_map]
  rfl

/-- A query for a key and a label format. -/
def keyAndFormat : Query := { key := "timeout", labelFormat := "env" }

theorem run_list_within_sample :
    ({ key := "timeout" } : Query).isUnique = false ∧ ∃ listing,
      ((bareScopedWith [insider]).2.call (.list eve "shop" "web" { key := "timeout" })).1
        = .ok (.listing listing) ∧
      ((bareScopedWith [insider, hidden]).2.call (.list eve "shop" "web" { key := "timeout" })).1
        = .ok (.listing listing) := by
  obtain ⟨-, -, -, htrace₁, -, hrestricts₁⟩ :=
    bareScopedWith_outcome [insider] (by simp)
  obtain ⟨-, -, -, htrace₂, -, hrestricts₂⟩ :=
    bareScopedWith_outcome [insider, hidden] (by simp)
  have hsteps : ∀ docs : List Document, ∀ step ∈ docs.map fun d => Step.call (.create .anonymous d),
      step.Accepted bareSettings.root := by
    intro docs step hstep
    obtain ⟨d, -, rfl⟩ := List.mem_map.mp hstep
    exact trivial
  refine ⟨rfl, run_list_within bareScoped_fresh bareScoped_fresh (hsteps [insider])
    (hsteps [insider, hidden]) (fun hname => absurd hname (by decide)) hrestricts₁ hrestricts₂
    rfl (by decide) (fun d hadmitted => ?_) (fun hunique => absurd hunique (by decide))⟩
  rw [← bareScopedWith, ← bareScopedWith, htrace₁, htrace₂]
  have hscoped₁ : inScope ([insider].foldl put []) "shop" "web" = [insider] := by decide
  have hscoped₂ : inScope ([insider, hidden].foldl put []) "shop" "web" = [hidden, insider] := by
    decide
  rw [hscoped₁, hscoped₂, List.mem_cons (b := hidden)]
  refine (or_iff_right ?_).symm
  rintro rfl
  exact absurd hadmitted (by decide)

/-- A document outside of the scope takes the place of one within. -/
theorem list_behind_hidden :
    insider.admittedBy [scopeLabels] = true ∧ hidden.admittedBy [scopeLabels] = false ∧
      ofTrace (bareScopedWith [insider]).1 = [insider] ∧
      ofTrace (bareScopedWith [insider, hidden]).1 = [hidden, insider] ∧
      ((bareScopedWith [insider]).2.call (.list eve "shop" "web" keyAndFormat)).1
        = .ok (.listing ⟨1, [insider]⟩) ∧
      ((bareScopedWith [insider, hidden]).2.call (.list eve "shop" "web" keyAndFormat)).1
        = .ok (.listing ⟨0, []⟩) := by
  obtain ⟨base₁, lib₁, hsound₁, htrace₁, hmirrors₁, hrestricts₁⟩ :=
    bareScopedWith_outcome [insider] (by simp)
  obtain ⟨base₂, lib₂, hsound₂, htrace₂, hmirrors₂, hrestricts₂⟩ :=
    bareScopedWith_outcome [insider, hidden] (by simp)
  refine ⟨by decide, by decide, htrace₁.trans (by decide), htrace₂.trans (by decide), ?_, ?_⟩
  · rw [list_bare hsound₁.toStocked hmirrors₁ (hsound₁.noLoose _ _) hrestricts₁.bare rfl
        (by decide),
      visible_scoped hrestricts₁.authEnabled hrestricts₁.check hrestricts₁.nonempty]
    rfl
  · rw [list_bare hsound₂.toStocked hmirrors₂ (hsound₂.noLoose _ _) hrestricts₂.bare rfl
        (by decide),
      visible_scoped hrestricts₂.authEnabled hrestricts₂.check hrestricts₂.nonempty]
    rfl

end Session

end ConfigStore
