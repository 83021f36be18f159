import ConfigStore.Proofs.Session.Lookup

/-!
# Listings for a pattern

A pattern may describe the keys of many documents. A listing for it gives all of them, unless a
label format is asked for: then the query is taken for one for a unique document, as it would be if
the key were literal.

* `Query.HasPattern` says of a query that it asks for a pattern.
* `Session.find_of_mirrors` says what any query finds, and `Session.list_of_mirrors_off` what it
  lists if there is no authorization.
* `Session.run_pattern` is the result, and `Session.list_one_of_two` a run after which one of two
  documents is left out.
-/

namespace ConfigStore

open Node Disk Library Catalogue

/-- The key that a query asks for is a pattern. -/
def Query.HasPattern (q : Query) : Prop :=
  ∃ text, q.key = "beginWith(" ++ text ++ ")" ∨ q.key = "wildcard(" ++ text ++ ")"

/-- A query for a pattern passes for one for a unique document if it asks for a label format. -/
theorem Query.HasPattern.isUnique_iff {q : Query} (h : q.HasPattern) :
    q.isUnique = true ↔ q.labelFormat ≠ "" := by
  have hkey : q.key ≠ "" := by
    obtain ⟨text, hkey | hkey⟩ := h
    · rw [hkey]
      simp
    · rw [hkey]
      simp
  simp [Query.isUnique, hkey]

namespace Session

variable {session : Session} {root : Path} {base : Place} {lib : Library} {c : Catalogue}
  {domain project : String} {caller : Caller}

theorem visible_off (policy : Authorizer) (hauth : caller.authEnabled = false)
    (docs : List Document) : visible policy caller docs = docs := by
  rw [visible, hauth]
  rfl

/-- A query finds some of the documents that it accepts, and none only if there is none. Unless it
is for a unique document it finds all of them; otherwise it finds one at most if there is no
cache. -/
theorem find_of_mirrors (h : session.Stocked root base lib) (hc : c.Mirrors lib)
    (hloose : lib.loose? domain project = none)
    (hscope : Names.checkScope domain project = .ok ())
    (hfits : ∀ name ∈ [domain, project], Fits name) (query : Query) :
    ∃ found state', session.store.find domain project query session.state = .ok found state' ∧
      found.Nodup ∧ (∀ d ∈ found, d ∈ (c.inScope domain project).filter query.accepts) ∧
      (found = [] → (c.inScope domain project).filter query.accepts = []) ∧
      (query.isUnique = false → found.Perm ((c.inScope domain project).filter query.accepts)) ∧
      (query.isUnique = true → session.state.cache = none → found.length ≤ 1) := by
  have hvalid := h.ready.kept.valid
  have hnames := isNames_of_fits hscope hfits
  cases hquery : query.isUnique with
  | false =>
    obtain ⟨ids, found, state', hids, hfind, hperm⟩ :=
      Store.find_kept h.ready hscope hnames hloose hquery
    have hall : found.Perm ((c.inScope domain project).filter query.accepts) :=
      hperm.trans ((hc.inScope_perm hvalid hids).symm.filter _)
    have hnodup : found.Nodup :=
      hall.nodup_iff.mpr ((hc.nodup.sublist List.filter_sublist).sublist List.filter_sublist)
    refine ⟨found, state', hfind, hnodup, fun d => hall.mem_iff.mp, ?_, fun _ => hall,
      (absurd · Bool.false_ne_true)⟩
    rintro rfl
    exact List.perm_nil.mp hall.symm
  | true =>
    obtain ⟨found, state', hfind, hnodup, hfound, hnone, hshort⟩ :=
      Store.find_unique h.ready hscope hnames hloose hquery
    refine ⟨found, state', hfind, hnodup, fun d hd => ?_, fun hempty => ?_,
      (absurd · (by decide)), fun _ => hshort⟩
    · obtain ⟨hhead, haccepts⟩ := hfound d hd
      exact List.mem_filter.mpr ⟨(hc.mem_inScope_iff hvalid).mpr hhead, haccepts⟩
    · refine List.filter_eq_nil_iff.mpr fun d hd => ?_
      rw [hnone hempty d.id d ((hc.mem_inScope_iff hvalid).mp hd)]
      exact Bool.false_ne_true

/-- Without authorization a listing gives what the query finds, in order. -/
theorem list_of_mirrors_off (h : session.Stocked root base lib) (hc : c.Mirrors lib)
    (hloose : lib.loose? domain project = none) (hauth : caller.authEnabled = false)
    (hscope : Names.checkScope domain project = .ok ())
    (hfits : ∀ name ∈ [domain, project], Fits name) (query : Query) :
    ∃ docs : List Document,
      docs.Subperm ((c.inScope domain project).filter query.accepts) ∧
      (docs = [] → (c.inScope domain project).filter query.accepts = []) ∧
      (query.isUnique = false → docs.Perm ((c.inScope domain project).filter query.accepts)) ∧
      (query.isUnique = true → session.state.cache = none → docs.length ≤ 1) ∧
      docs.Pairwise Document.Before ∧
      (session.call (.list caller domain project query)).1
        = .ok (.listing ⟨docs.length, page docs query.offset query.limit⟩) := by
  obtain ⟨found, state', hfind, hnodup, hsub, hnone, hall, hone⟩ :=
    find_of_mirrors h hc hloose hscope hfits query
  have hsorted := byPriority_perm found
  have hheads : ∀ d ∈ found, lib.head? domain project d.id = some d := fun d hd =>
    (hc.mem_inScope_iff h.ready.kept.valid).mp (List.mem_filter.mp (hsub d hd)).1
  refine ⟨byPriority found, hsorted.subperm.trans (List.subperm_of_subset hnodup hsub),
    fun hempty => hnone (List.perm_nil.mp (hempty ▸ hsorted.symm)),
    fun hmany => hsorted.trans (hall hmany), fun hunique hbare => ?_,
    pairwise_before hnodup hheads, ?_⟩
  · rw [hsorted.length_eq]
    exact hone hunique hbare
  · rw [call_list_of_ok hfind, visible_off _ hauth, Listing.ofFound, hsorted.length_eq]

/-- **What a listing for a pattern gives.** If no label format is asked for, it gives all stored
documents that the query accepts, each once and in order. Otherwise it gives some of them: none only
if there is none, and at most one if there is no cache. -/
theorem run_pattern {settings : Settings} (hfresh : session.Fresh settings) {steps : List Step}
    (hsteps : ∀ step ∈ steps, step.Accepted settings.root)
    (hproject : project = Layout.counterName → .call (.advance domain) ∉ steps)
    (hauth : caller.authEnabled = false) (hscope : Names.checkScope domain project = .ok ())
    (hfits : ∀ name ∈ [domain, project], Fits name) {query : Query} (hquery : query.HasPattern) :
    let stored := (inScope (ofTrace (session.run steps).1) domain project).filter query.accepts
    ∃ docs : List Document, docs.Subperm stored ∧ (docs = [] → stored = []) ∧
      (query.labelFormat = "" → docs.Perm stored) ∧
      (query.labelFormat ≠ "" → (session.run steps).2.state.cache = none → docs.length ≤ 1) ∧
      docs.Pairwise Document.Before ∧
      ((session.run steps).2.call (.list caller domain project query)).1
        = .ok (.listing ⟨docs.length, page docs query.offset query.limit⟩) := by
  obtain ⟨base, hsound⟩ := hfresh.sound
  obtain ⟨lib, hlast, hmirrors, hloose⟩ :=
    run_catalogued hsound.toStocked mirrors_empty hsteps hproject rfl
  obtain ⟨docs, hsub, hnone, hall, hone, hordered, hlist⟩ :=
    list_of_mirrors_off hlast hmirrors hloose hauth hscope hfits query
  refine ⟨docs, hsub, hnone, fun hformat => hall ?_, fun hformat => hone ?_, hordered, hlist⟩
  · rw [← Bool.not_eq_true, hquery.isUnique_iff, not_not]
    exact hformat
  · exact hquery.isUnique_iff.mpr hformat

/-- A query for the keys that begin with a text. -/
def timeQuery : Query := { key := "beginWith(time)" }

theorem timeQuery_hasPattern (labelFormat : String) :
    { timeQuery with labelFormat }.HasPattern := ⟨"time", .inl rfl⟩

theorem run_pattern_sample :
    let stored := (inScope (ofTrace (sample.run sampleSteps).1) "shop" "web").filter
      timeQuery.accepts
    ∃ docs : List Document, docs.Perm stored ∧ docs.Pairwise Document.Before ∧
      ((sample.run sampleSteps).2.call (.list .anonymous "shop" "web" timeQuery)).1
        = .ok (.listing ⟨docs.length, page docs 0 0⟩) := by
  have hsteps : ∀ step ∈ sampleSteps, step.Accepted sampleSettings.root := by
    simp only [sampleSteps, List.forall_mem_cons, List.not_mem_nil, false_implies, implies_true,
      and_true, Step.Accepted, Request.CountsDomain]
  have hproject : "web" = Layout.counterName → .call (.advance "shop") ∉ sampleSteps := by
    intro h
    exact absurd h (by decide)
  obtain ⟨docs, -, -, hall, -, hordered, hlist⟩ := run_pattern sample_fresh hsteps hproject
    (rfl : Caller.anonymous.authEnabled = false) (rfl : Names.checkScope "shop" "web" = .ok ())
    (by decide) (timeQuery_hasPattern "")
  exact ⟨docs, hall rfl, hordered, hlist⟩

/-- A document with another key that begins in the same way. -/
def timezone : Document := { twin with id := "timezone", key := "timezone", value := "utc" }

/-- Without a cache, and if a label format is asked for, a listing for a pattern gives one of the
two documents that the query accepts. -/
theorem list_one_of_two :
    let query : Query := { timeQuery with labelFormat := "env" }
    let run := bare.run ([twin, timezone].map fun d => .call (.create .anonymous d))
    query.HasPattern ∧
      (inScope (ofTrace run.1) "shop" "web").filter query.accepts = [timezone, twin] ∧
      ∃ d, (run.2.call (.list .anonymous "shop" "web" query)).1
        = .ok (.listing ⟨1, [d]⟩) := by
  intro query run
  obtain ⟨base, hsound⟩ := bare_fresh.sound
  have hstore : ∀ d ∈ [twin, timezone], Storable d.domain d.project d.id := by
    simpa using ⟨.of_fits rfl rfl (by decide), .of_fits rfl rfl (by decide)⟩
  obtain ⟨state, lib, hrun, hlast, hmirrors, hbare⟩ :=
    run_creates hsound mirrors_empty .anonymous hstore fun _ _ => rfl
  have hstored : (inScope ([twin, timezone].foldl put []) "shop" "web").filter query.accepts
      = [timezone, twin] := by decide
  obtain ⟨docs, -, hnone, -, hone, -, hlist⟩ := list_of_mirrors_off hlast.toStocked hmirrors
    (hlast.noLoose _ _) (rfl : Caller.anonymous.authEnabled = false)
    (rfl : Names.checkScope "shop" "web" = .ok ()) (by decide) query
  have hshort : docs.length ≤ 1 := hone rfl (hbare rfl)
  refine ⟨timeQuery_hasPattern "env", ?_, ?_⟩
  · rw [show run = _ from hrun]
    exact hstored
  · rw [show run = _ from hrun]
    rcases docs with - | ⟨d, - | ⟨e, rest⟩⟩
    · rw [hstored] at hnone
      exact absurd (hnone rfl) (List.cons_ne_nil _ _)
    · exact ⟨d, hlist⟩
    · simp at hshort

end Session

end ConfigStore
