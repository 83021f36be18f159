import Mathlib.Data.List.Perm.Subperm
import ConfigStore.Proofs.Query.Matching
import ConfigStore.Proofs.Session.Listing

/-!
# Looking a document up by its key

A key, labels and a label format together are meant to name one document, but nothing keeps a
project from having several. What is found then depends on what the cache has copies of: all that it
has, or, if it has none, the first on the disk.

* `Query.accepts_keyQuery` says which documents a look-up is for, if its key is literal.
* `Store.find_unique` says what is found.
* `Session.run_lookup` says what the two look-ups answer, and `Session.run_lookup_twins` is a run
  after which one of two documents is taken for the only one.
-/

namespace ConfigStore

open Node Disk Library Catalogue

/-! ## Documents of a key -/

/-- A document has a key, and exactly the labels and the label format that a query asks for. -/
def Document.hasKey (d : Document) (key : String) (query : Query) : Bool :=
  d.key = key && d.labels = query.labels && d.labelFormat = query.labelFormat

theorem Query.accepts_keyQuery {key : String} (hliteral : KeyPattern.parse key = .exact key)
    (hkey : key ≠ "") {query : Query} (hformat : query.labelFormat ≠ "") (d : Document) :
    (Store.keyQuery key query).accepts d = d.hasKey key query := by
  rw [Bool.eq_iff_iff]
  simp [Query.accepts, Query.acceptsKey, Query.acceptsLabels, Store.keyQuery, Document.hasKey,
    hliteral, hkey, hformat, KeyPattern.describes_exact, Labels.equivalent,
    eq_comm (a := query.labels)]

theorem Query.isUnique_keyQuery {key : String} (hkey : key ≠ "") {query : Query}
    (hformat : query.labelFormat ≠ "") : (Store.keyQuery key query).isUnique = true := by
  simp [Query.isUnique, Store.keyQuery, hkey, hformat]

/-! ## What is found -/

namespace Store

variable {s : Store} {base : Place} {lib : Library} {state : StoreState}
  {domain project : String} {query : Query}

theorem pick_eq_nil {ids : List String} (h : lib.pick domain project query ids = []) :
    ∀ id ∈ ids, ∀ d, lib.head? domain project id = some d → query.accepts d = false := by
  have hnone : (ids.filterMap (lib.head? domain project)).filter query.accepts = [] := by
    rw [pick] at h
    split at h
    · exact (List.take_eq_nil_iff.mp h).resolve_left (by decide)
    · exact h
  intro id hid d hhead
  have hnot := List.filter_eq_nil_iff.mp hnone d (List.mem_filterMap.mpr ⟨id, hid, hhead⟩)
  simpa using hnot

/-- A query for a unique document finds some of the documents that it accepts, and none only if
there is none. Without a cache it finds one at most. -/
theorem find_unique (h : s.Ready base lib state) (hscope : Names.checkScope domain project = .ok ())
    (hnames : ∀ n ∈ [domain, project], IsName n) (hloose : lib.loose? domain project = none)
    (hquery : query.isUnique = true) :
    ∃ docs state', s.find domain project query state = .ok docs state' ∧ docs.Nodup ∧
      (∀ d ∈ docs, lib.head? domain project d.id = some d ∧ query.accepts d = true) ∧
      (docs = [] → ∀ id d, lib.head? domain project id = some d → query.accepts d = false) ∧
      (state.cache = none → docs.length ≤ 1) := by
  obtain ⟨found, mid, hsearch, hready, -, hnodup, hheld, hdocs⟩ := searchCache_ready h hscope query
  by_cases hcached : found.docs = []
  · obtain ⟨ids, hlists, hscan⟩ :=
      hready.kept.scan h.room hscope hnames hloose query found.cachedIds
    have hfind : s.find domain project query state
        = .ok (lib.pick domain project query (ids.filter (· ∉ found.cachedIds)))
          ⟨mid.disk, mid.cache.map fun cache => (cache.backfill
            (lib.pick domain project query (ids.filter (· ∉ found.cachedIds)))).2⟩ := by
      rw [find_eq hscope hsearch, hcached, hscan]
      simp
    have hshort :
        (lib.pick domain project query (ids.filter (· ∉ found.cachedIds))).length ≤ 1 := by
      rw [pick, if_pos hquery]
      exact List.length_take_le ..
    refine ⟨_, _, hfind, ?_, find_sound h hfind, fun hnone => ?_,
      fun _ => hshort⟩
    · generalize lib.pick domain project query _ = docs at hshort
      rcases docs with - | ⟨d, - | ⟨e, docs⟩⟩
      · exact List.nodup_nil
      · exact List.nodup_singleton d
      · simp at hshort
    · -- what is not found on the disk would have been found in the cache
      intro id d hhead
      by_cases hid : id ∈ found.cachedIds
      · rw [hdocs, List.filter_eq_nil_iff] at hcached
        simpa using hcached d (List.mem_filterMap.mpr ⟨id, hid, hhead⟩)
      · refine pick_eq_nil hnone id (List.mem_filter.mpr ⟨?_, by simpa using hid⟩) d hhead
        rw [hlists.mem_iff, ← head?_isSome, hhead]
        rfl
  · have hfind : s.find domain project query state = .ok found.docs mid := by
      rw [find_eq hscope hsearch, hquery, if_pos]
      simpa using hcached
    refine ⟨_, _, hfind, ?_, find_sound h hfind, fun hnone => absurd hnone hcached, fun hnone => ?_⟩
    · rw [hdocs]
      refine (hnodup.filterMap fun id id' d hd hd' => ?_).filter _
      rw [← (hready.kept.valid.place hd).2.2, ← (hready.kept.valid.place hd').2.2]
    · rw [searchCache_none hnone] at hsearch
      cases hsearch
      exact absurd rfl hcached

end Store

/-! ## What is answered -/

/-- Whether there is one document, by those that were found. -/
def Answer.whetherOne : List Document → Except Failure Answer
  | [] => .ok (.truth false)
  | [_] => .ok (.truth true)
  | docs => .error (.tooMany docs.length)

/-- The one document, if one was found for a key. -/
def Answer.theOne (key : String) : List Document → Except Failure Answer
  | [] => .error (.keyNotFound key)
  | [d] => .ok (.documents [d])
  | docs => .error (.tooMany docs.length)

namespace Session

variable {session : Session} {domain project key : String} {query : Query} {docs : List Document}
  {state' : StoreState}

theorem call_holdsKey (hunique : (Store.keyQuery key query).isUnique = true)
    (hfind : session.store.find domain project (Store.keyQuery key query) session.state
      = .ok docs state') :
    (session.call (.holdsKey domain project key query)).1 = Answer.whetherOne docs := by
  rcases docs with - | ⟨d, - | ⟨e, docs⟩⟩
  · have hnone : session.store.holdsKey domain project key query session.state
        = .ok false state' := by
      simp only [Store.holdsKey, bind, EStateM.bind, hfind, hunique]
      rfl
    rw [call_of_ok rfl hnone]
    rfl
  · have hone : session.store.holdsKey domain project key query session.state
        = .ok true state' := by
      simp only [Store.holdsKey, bind, EStateM.bind, hfind, hunique]
      rfl
    rw [call_of_ok rfl hone]
    rfl
  · have hmany : session.store.holdsKey domain project key query session.state
        = .error (.tooMany (d :: e :: docs).length) state' := by
      simp only [Store.holdsKey, bind, EStateM.bind, hfind, hunique]
      rfl
    rw [call_of_error rfl hmany]
    rfl

theorem call_getByKey (hunique : (Store.keyQuery key query).isUnique = true)
    (hfind : session.store.find domain project (Store.keyQuery key query) session.state
      = .ok docs state') :
    (session.call (.getByKey domain project key query)).1 = Answer.theOne key docs := by
  rcases docs with - | ⟨d, - | ⟨e, docs⟩⟩
  · have hnone : session.store.getByKey domain project key query session.state
        = .error (.keyNotFound key) state' := by
      simp only [Store.getByKey, bind, EStateM.bind, hfind, hunique]
      rfl
    rw [call_of_error rfl hnone]
    rfl
  · have hone : session.store.getByKey domain project key query session.state
        = .ok [d] state' := by
      simp only [Store.getByKey, bind, EStateM.bind, hfind, hunique]
      rfl
    rw [call_of_ok rfl hone]
    rfl
  · have hmany : session.store.getByKey domain project key query session.state
        = .error (.tooMany (d :: e :: docs).length) state' := by
      simp only [Store.getByKey, bind, EStateM.bind, hfind, hunique]
      rfl
    rw [call_of_error rfl hmany]
    rfl

/-- A look-up by key in a store that keeps a library is answered by some of the documents of its
catalogue. -/
theorem lookup_of_mirrors {root : Path} {base : Place} {lib : Library} {c : Catalogue}
    (h : session.Sound root base lib) (hc : c.Mirrors lib)
    (hscope : Names.checkScope domain project = .ok ())
    (hfits : ∀ name ∈ [domain, project], Fits name)
    (hliteral : KeyPattern.parse key = .exact key) (hkey : key ≠ "")
    (hformat : query.labelFormat ≠ "") :
    ∃ found : List Document,
      found.Subperm ((c.inScope domain project).filter (·.hasKey key query)) ∧
      (found = [] → (c.inScope domain project).filter (·.hasKey key query) = []) ∧
      (session.state.cache = none → found.length ≤ 1) ∧
      (session.call (.holdsKey domain project key query)).1 = Answer.whetherOne found ∧
      (session.call (.getByKey domain project key query)).1 = Answer.theOne key found := by
  have hunique := Query.isUnique_keyQuery hkey hformat
  have haccepts := Query.accepts_keyQuery hliteral hkey hformat
  obtain ⟨found, state', hfind, hnodup, hfound, hnone, hshort⟩ := Store.find_unique h.ready hscope
    (isNames_of_fits hscope hfits) (h.noLoose _ _) hunique
  refine ⟨found, List.subperm_of_subset hnodup fun d hd => ?_, fun hempty => ?_, hshort,
    call_holdsKey hunique hfind, call_getByKey hunique hfind⟩
  · obtain ⟨hhead, haccepted⟩ := hfound d hd
    obtain ⟨hdomain, hproject, -⟩ := h.ready.kept.valid.place hhead
    rw [haccepts] at haccepted
    refine List.mem_filter.mpr ⟨mem_inScope.mpr ⟨(hc.mem_iff d).mpr ?_, hdomain, hproject⟩,
      haccepted⟩
    rw [hdomain, hproject, hhead]
  · refine List.filter_eq_nil_iff.mpr fun d hd => ?_
    obtain ⟨hmem, rfl, rfl⟩ := mem_inScope.mp hd
    have hnot := hnone hempty d.id d ((hc.mem_iff d).mp hmem)
    rw [haccepts] at hnot
    simp [hnot]

/-- **What a look-up by key finds.** It is answered by some of the stored documents with the key,
the labels and the label format; by none only if there is none, and by at most one if there is no
cache. -/
theorem run_lookup {settings : Settings} (hfresh : session.Fresh settings) {steps : List Step}
    (hsteps : ∀ step ∈ steps, step.OnDocuments settings.root)
    (hscope : Names.checkScope domain project = .ok ())
    (hfits : ∀ name ∈ [domain, project], Fits name)
    (hliteral : KeyPattern.parse key = .exact key) (hkey : key ≠ "")
    (hformat : query.labelFormat ≠ "") :
    let stored := (inScope (ofTrace (session.run steps).1) domain project).filter
      (·.hasKey key query)
    ∃ found : List Document, found.Subperm stored ∧ (found = [] → stored = []) ∧
      ((session.run steps).2.state.cache = none → found.length ≤ 1) ∧
      ((session.run steps).2.call (.holdsKey domain project key query)).1
        = Answer.whetherOne found ∧
      ((session.run steps).2.call (.getByKey domain project key query)).1
        = Answer.theOne key found := by
  obtain ⟨base, hsound⟩ := hfresh.sound
  obtain ⟨lib, hlast, hmirrors⟩ := run_kept hsound mirrors_empty hsteps
  exact lookup_of_mirrors hlast hmirrors hscope hfits hliteral hkey hformat

/-! ## Two documents of one key -/

/-- Settings for a store without a cache. -/
def bareSettings : Settings := { sampleSettings with cache := .disabled }

/-- A store without a cache that was opened where nothing was. -/
def bare : Session where
  store := { root := bareSettings.root }
  state := ⟨.dir [("kvs", .dir [])], none⟩

/-- A document with a label format. -/
def twin : Document := { sampleDocument with labelFormat := "env" }

/-- Another document with the same key, label format and labels. -/
def otherTwin : Document := { twin with id := "other", value := "60" }

/-- Both documents are created. -/
def twinSteps : List Step := [
  .call (.create .anonymous twin),
  .call (.create .anonymous otherTwin)]

theorem bare_fresh : bare.Fresh bareSettings where
  opened := ⟨.allowAll, .dir [], distinct_dir_nil, rfl⟩
  empty := ⟨_, rfl, rfl⟩
  short := by decide

theorem run_lookup_sample :
    ∃ found : List Document,
      found.Subperm ((inScope (ofTrace (bare.run twinSteps).1) "shop" "web").filter
        (·.hasKey "timeout" { labelFormat := "env" })) ∧
      ((bare.run twinSteps).2.call
          (.getByKey "shop" "web" "timeout" { labelFormat := "env" })).1
        = Answer.theOne "timeout" found := by
  have hsteps : ∀ step ∈ twinSteps, step.OnDocuments bareSettings.root := by
    simp [twinSteps, Step.OnDocuments, Request.OnDocuments]
  obtain ⟨found, hsub, -, -, -, hget⟩ := run_lookup bare_fresh hsteps
    (rfl : Names.checkScope "shop" "web" = .ok ()) (by decide)
    (rfl : KeyPattern.parse "timeout" = .exact "timeout") (by decide)
    (by decide : ({ labelFormat := "env" } : Query).labelFormat ≠ "")
  exact ⟨found, hsub, hget⟩

/-- Without a cache, one of two documents is taken for the only one. -/
theorem run_lookup_twins :
    ((inScope (ofTrace (bare.run twinSteps).1) "shop" "web").filter
        (·.hasKey "timeout" { labelFormat := "env" })).length = 2 ∧
      ((bare.run twinSteps).2.call
          (.holdsKey "shop" "web" "timeout" { labelFormat := "env" })).1 = .ok (.truth true) := by
  obtain ⟨base, hsound⟩ := bare_fresh.sound
  obtain ⟨state₁, hfirst, hsound₁, hcache₁⟩ := call_create hsound .anonymous (d := twin)
    (.of_fits rfl rfl (by decide)) rfl
  obtain ⟨state₂, hsecond, hsound₂, hcache₂⟩ := call_create hsound₁ .anonymous
    (d := otherTwin) (.of_fits rfl rfl (by decide)) rfl
  have hrun : bare.run twinSteps =
      ([(.call (.create .anonymous twin), .ok (.document twin)),
        (.call (.create .anonymous otherTwin), .ok (.document otherTwin))],
        { bare with state := state₂ }) := by
    rw [twinSteps, run_call_cons hfirst, run_call_cons hsecond]
    rfl
  have hstored : ((inScope (put (put [] twin) otherTwin) "shop" "web").filter
      (·.hasKey "timeout" { labelFormat := "env" })) = [otherTwin, twin] := by decide
  obtain ⟨found, -, hnone, hshort, hholds, -⟩ := lookup_of_mirrors hsound₂
    ((mirrors_empty.write _ twin).write _ otherTwin)
    (rfl : Names.checkScope "shop" "web" = .ok ()) (by decide)
    (rfl : KeyPattern.parse "timeout" = .exact "timeout") (by decide)
    (by decide : ({ labelFormat := "env" } : Query).labelFormat ≠ "")
  have hbare : found.length ≤ 1 := hshort (by rw [hcache₂, hcache₁]; rfl)
  rw [hrun, ofTrace, List.foldl_cons, List.foldl_cons, List.foldl_nil]
  refine ⟨congrArg List.length hstored, hholds.trans ?_⟩
  rcases found with - | ⟨d, - | ⟨e, rest⟩⟩
  · rw [hstored] at hnone
    exact absurd (hnone rfl) (List.cons_ne_nil _ _)
  · rfl
  · simp at hbare

end Session

end ConfigStore
