import ConfigStore.Proofs.Session.Catalogue

/-!
# Listings of a session

A listing gives a page of the documents that the store holds, that a query accepts and that the
caller may see, the most specific first. What the cache has seen before makes no difference.

* `visible_perm` says that what a caller may see does not depend on the order of finding.
* `Session.run_list` is the result.
-/

namespace ConfigStore

open Node Disk Library Catalogue

/-! ## What a caller sees -/

theorem visible_sublist (policy : Authorizer) (caller : Caller) (docs : List Document) :
    (visible policy caller docs).Sublist docs := by
  unfold visible
  split
  · exact List.Sublist.refl _
  · split
    · exact List.nil_sublist _
    · exact List.Sublist.refl _
    · exact List.Sublist.refl _
    · exact List.filter_sublist

/-- What a caller sees does not depend on the order in which the documents are found. -/
theorem visible_perm (policy : Authorizer) (caller : Caller) {docs docs' : List Document}
    (h : docs.Perm docs') : (visible policy caller docs).Perm (visible policy caller docs') := by
  unfold visible
  split
  · exact h
  · split
    · exact List.Perm.refl _
    · exact h
    · exact h
    · exact h.filter _

/-- Newest copies of one project are listed one strictly before the other. -/
theorem Library.pairwise_before {lib : Library} {domain project : String} {docs : List Document}
    (hnodup : docs.Nodup) (hheads : ∀ d ∈ docs, lib.head? domain project d.id = some d) :
    (byPriority docs).Pairwise Document.Before := by
  have hsorted := byPriority_perm docs
  refine ((pairwise_byPriority docs).and (hsorted.nodup_iff.mpr hnodup)).imp_of_mem ?_
  intro a b ha hb hab
  -- in one project, documents of one id are one document
  refine Document.before_of_precedes hab.1 fun hid => hab.2 ?_
  have hheadA := hheads a (hsorted.mem_iff.mp ha)
  have hheadB := hheads b (hsorted.mem_iff.mp hb)
  rw [hid, hheadB] at hheadA
  exact (Option.some.inj hheadA).symm

namespace Session

variable {session : Session} {root : Path} {base : Place} {lib : Library} {c : Catalogue}
  {domain project : String}

/-- A store that keeps a library lists what its catalogue holds. -/
theorem list_of_mirrors (h : session.Sound root base lib) (hc : c.Mirrors lib) (caller : Caller)
    (hscope : Names.checkScope domain project = .ok ())
    (hfits : ∀ name ∈ [domain, project], Fits name) {query : Query}
    (hquery : query.isUnique = false) :
    ∃ docs, docs.Perm (visible session.store.policy caller
        ((c.inScope domain project).filter query.accepts)) ∧
      docs.Pairwise Document.Before ∧
      (session.call (.list caller domain project query)).1
        = .ok (.listing ⟨docs.length, page docs query.offset query.limit⟩) := by
  obtain ⟨ids, found, state', hids, hperm, hlist⟩ := Store.list_kept h.ready hscope
    (isNames_of_fits hscope hfits) (h.noLoose _ _) caller hquery
  have hscoped := hc.inScope_perm h.ready.kept.valid hids
  have hfound : found.Perm ((c.inScope domain project).filter query.accepts) :=
    hperm.trans (hscoped.symm.filter _)
  have hnodup : found.Nodup :=
    hfound.nodup_iff.mpr ((hc.nodup.sublist List.filter_sublist).sublist List.filter_sublist)
  have hheads : ∀ d ∈ found, lib.head? domain project d.id = some d := by
    intro d hd
    obtain ⟨hmem, -⟩ := List.mem_filter.mp (hfound.mem_iff.mp hd)
    obtain ⟨hin, rfl, rfl⟩ := mem_inScope.mp hmem
    exact (hc.mem_iff d).mp hin
  have hsub := visible_sublist session.store.policy caller found
  have hsorted := byPriority_perm (visible session.store.policy caller found)
  refine ⟨byPriority (visible session.store.policy caller found),
    hsorted.trans (visible_perm _ _ hfound), ?_, ?_⟩
  · exact pairwise_before (hnodup.sublist hsub) fun d hd => hheads d (hsub.subset hd)
  · rw [call_of_ok rfl hlist, Listing.ofFound, hsorted.length_eq]

/-- **A listing is a page of what the store holds**, whatever was asked before and whatever the
cache has a copy of. As in all results about runs, the path of the directory that the store was
opened on leaves room for any names below it (`Session.Fresh.short`). -/
theorem run_list {settings : Settings} (hfresh : session.Fresh settings) {steps : List Step}
    (hsteps : ∀ step ∈ steps, step.Ordinary settings.root) (caller : Caller)
    (hscope : Names.checkScope domain project = .ok ())
    (hfits : ∀ name ∈ [domain, project], Fits name) {query : Query}
    (hquery : query.isUnique = false) :
    ∃ docs, docs.Perm (visible (session.run steps).2.store.policy caller
        ((inScope (ofTrace (session.run steps).1) domain project).filter query.accepts)) ∧
      docs.Pairwise Document.Before ∧
      ((session.run steps).2.call (.list caller domain project query)).1
        = .ok (.listing ⟨docs.length, page docs query.offset query.limit⟩) := by
  obtain ⟨base, hsound⟩ := hfresh.sound
  obtain ⟨lib, hlast, hmirrors⟩ := run_mirrors hsound mirrors_empty hsteps
  exact list_of_mirrors hlast hmirrors caller hscope hfits hquery

theorem run_list_sample :
    (∃ docs, docs.Perm (visible (sample.run sampleSteps).2.store.policy .anonymous
        ((inScope (ofTrace (sample.run sampleSteps).1) "shop" "web").filter
          ({ key := "timeout" } : Query).accepts)) ∧
      docs.Pairwise Document.Before ∧
      ((sample.run sampleSteps).2.call (.list .anonymous "shop" "web" { key := "timeout" })).1
        = .ok (.listing ⟨docs.length, page docs 0 0⟩)) ∧
    (sample.run createSteps).1
      = [(.call (.create .anonymous sampleDocument), .ok (.document sampleDocument))] ∧
    ((sample.run createSteps).2.call (.list .anonymous "shop" "web" { key := "timeout" })).1
      = .ok (.listing ⟨1, [sampleDocument]⟩) := by
  have hlisted := run_list sample_fresh createSteps_ordinary .anonymous
    (rfl : Names.checkScope "shop" "web" = .ok ()) (by decide)
    (rfl : Query.isUnique { key := "timeout" } = false)
  obtain ⟨state, hrun⟩ := run_createSteps
  rw [hrun] at hlisted ⊢
  obtain ⟨docs, hperm, -, hanswer⟩ := hlisted
  obtain rfl : docs = [sampleDocument] := List.perm_singleton.mp hperm
  exact ⟨run_list sample_fresh sampleSteps_ordinary .anonymous rfl (by decide) rfl, rfl, hanswer⟩

end Session

end ConfigStore
