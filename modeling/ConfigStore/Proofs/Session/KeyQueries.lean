import ConfigStore.Proofs.Session.Patterns

/-!
# Look-ups by any string

A look-up by key is a query for keys in which case counts. So the string that is looked up is not
always a key: the empty string stands for any key, and a string that is spelled as one of the
special forms for all keys that the form describes. Labels on the other hand are always compared as
they are.

* `AsksFor` says which keys a string asks for, `AsksFor.of_accepts` that no document with another
  key is accepted.
* `Store.find_of_getByKey` and `Store.find_of_holdsKey` lead from an answer to what was found.
* `Session.run_lookup_asked` is the result for the two look-ups, and `Session.lookup_not_literal` a
  run after which a document is found by a string that is not its key.
-/

namespace ConfigStore

open Node Disk Library Catalogue

/-! ## What a string asks for -/

/-- A string, taken as a query for keys in which case counts, asks for a key. -/
structure AsksFor (requested key : String) : Prop where
  /-- One special form asks for the keys that begin with a text. -/
  begins : ∀ text, requested = "beginWith(" ++ text ++ ")" → text.toList <+: key.toList
  /-- The other asks for the keys that are got from a text with gaps. -/
  fills : ∀ text, requested = "wildcard(" ++ text ++ ")" → Fills Eq text.toList key.toList
  /-- Any other string but the empty one asks for itself. -/
  same : requested ≠ "" → (∀ text, requested ≠ "beginWith(" ++ text ++ ")") →
    (∀ text, requested ≠ "wildcard(" ++ text ++ ")") → key = requested

theorem AsksFor.of_accepts {query : Query} {requested : String} {d : Document}
    (h : (Store.keyQuery requested query).accepts d = true) : AsksFor requested d.key := by
  have hkey : (Store.keyQuery requested query).acceptsKey d.key = true := by
    simp only [Query.accepts, Bool.and_eq_true] at h
    exact h.1.1.1.2
  have hdescribes : requested ≠ "" → (KeyPattern.parse requested).describes true d.key = true := by
    intro hne
    simpa [Query.acceptsKey, Store.keyQuery, hne] using hkey
  refine ⟨?_, ?_, fun hne hbegin hwild => ?_⟩
  · rintro text rfl
    have hdescribed := hdescribes (by simp)
    rw [KeyPattern.parse_beginWith] at hdescribed
    exact KeyPattern.prefix_of_describes hdescribed
  · rintro text rfl
    have hdescribed := hdescribes (by simp)
    rw [KeyPattern.parse_wildcard] at hdescribed
    exact alike_true ▸ KeyPattern.fills_of_describes hdescribed
  · have hdescribed := hdescribes hne
    rw [KeyPattern.parse_exact hbegin hwild] at hdescribed
    exact (KeyPattern.describes_exact requested d.key).mp hdescribed

theorem Query.labels_of_accepts_keyQuery {query : Query} {requested : String} {d : Document}
    (h : (Store.keyQuery requested query).accepts d = true) : d.labels = query.labels := by
  simp only [Query.accepts, Bool.and_eq_true] at h
  have hlabels : query.labels.equivalent d.labels = true := h.1.1.2
  exact (eq_of_beq hlabels).symm

/-! ## What is found -/

namespace Store

variable {s : Store} {base : Place} {lib : Library} {state state' : StoreState}
  {domain project key : String} {query : Query} {docs : List Document}

/-- A look-up that succeeds gives what the query finds. -/
theorem find_of_getByKey (h : s.getByKey domain project key query state = .ok docs state') :
    s.find domain project (keyQuery key query) state = .ok docs state' := by
  cases hfind : s.find domain project (keyQuery key query) state with
  | error failure mid =>
    simp only [getByKey, bind, EStateM.bind, hfind] at h
    cases h
  | ok found mid =>
    simp only [getByKey, bind, EStateM.bind, hfind] at h
    split at h
    · cases h
    · split at h
      · cases h
      · cases h
        rfl

/-- If there is said to be a document, the query finds one. -/
theorem find_of_holdsKey (h : s.holdsKey domain project key query state = .ok true state') :
    ∃ d, s.find domain project (keyQuery key query) state = .ok [d] state' := by
  cases hfind : s.find domain project (keyQuery key query) state with
  | error failure mid =>
    simp only [holdsKey, bind, EStateM.bind, hfind] at h
    cases h
  | ok found mid =>
    simp only [holdsKey, bind, EStateM.bind, hfind] at h
    split at h
    · cases h
    · split at h
      · cases h
      · rename_i hone
        obtain ⟨d, rfl⟩ := List.length_eq_one_iff.mp (not_not.mp hone)
        cases h
        exact ⟨d, rfl⟩

end Store

/-! ## What is answered -/

namespace Session

variable {session : Session} {root : Path} {base : Place} {lib : Library} {c : Catalogue}
  {domain project key : String} {query : Query} {docs : List Document} {found : List Document}
  {state' : StoreState}

/-- What a query for a key finds are documents of the catalogue that are asked for. -/
theorem asked_of_find (h : session.Stocked root base lib) (hc : c.Mirrors lib)
    (hfind : session.store.find domain project (Store.keyQuery key query) session.state
      = .ok found state') :
    ∀ d ∈ found, d ∈ c.inScope domain project ∧ AsksFor key d.key ∧ d.labels = query.labels := by
  intro d hd
  obtain ⟨hhead, haccepts⟩ := Store.find_sound h.ready hfind d hd
  exact ⟨(hc.mem_inScope_iff h.ready.kept.valid).mpr hhead, .of_accepts haccepts,
    Query.labels_of_accepts_keyQuery haccepts⟩

theorem find_of_call_getByKey
    (h : (session.call (.getByKey domain project key query)).1 = .ok (.documents docs)) :
    ∃ state', session.store.find domain project (Store.keyQuery key query) session.state
      = .ok docs state' := by
  cases hget : session.store.getByKey domain project key query session.state with
  | error failure state' =>
    rw [call_of_error rfl hget] at h
    cases h
  | ok found state' =>
    rw [call_of_ok rfl hget] at h
    cases h
    exact ⟨state', Store.find_of_getByKey hget⟩

theorem find_of_call_holdsKey
    (h : (session.call (.holdsKey domain project key query)).1 = .ok (.truth true)) :
    ∃ d state', session.store.find domain project (Store.keyQuery key query) session.state
      = .ok [d] state' := by
  cases hholds : session.store.holdsKey domain project key query session.state with
  | error failure state' =>
    rw [call_of_error rfl hholds] at h
    cases h
  | ok b state' =>
    rw [call_of_ok rfl hholds] at h
    cases h
    obtain ⟨d, hfind⟩ := Store.find_of_holdsKey hholds
    exact ⟨d, state', hfind⟩

/-- **What a look-up gives is asked for.** Whatever string is looked up, all documents that are
given are stored in the scope, have a key that the string asks for and exactly the labels that are
wanted. If there is said to be a document, such a document is stored. -/
theorem run_lookup_asked {settings : Settings} (hfresh : session.Fresh settings)
    {steps : List Step} (hsteps : ∀ step ∈ steps, step.Accepted settings.root)
    (domain project key : String) (query : Query) :
    let stored := inScope (ofTrace (session.run steps).1) domain project
    (∀ docs, ((session.run steps).2.call (.getByKey domain project key query)).1
        = .ok (.documents docs) →
      ∀ d ∈ docs, d ∈ stored ∧ AsksFor key d.key ∧ d.labels = query.labels) ∧
    (((session.run steps).2.call (.holdsKey domain project key query)).1 = .ok (.truth true) →
      ∃ d ∈ stored, AsksFor key d.key ∧ d.labels = query.labels) := by
  obtain ⟨base, hsound⟩ := hfresh.sound
  have hcounter : "" = Layout.counterName → .call (.advance "") ∉ steps :=
    fun h => absurd h (by decide)
  obtain ⟨lib, hlast, hmirrors, -⟩ :=
    run_catalogued hsound.toStocked mirrors_empty hsteps hcounter rfl
  refine ⟨fun docs hget => ?_, fun hholds => ?_⟩
  · obtain ⟨state', hfind⟩ := find_of_call_getByKey hget
    exact asked_of_find hlast hmirrors hfind
  · obtain ⟨d, state', hfind⟩ := find_of_call_holdsKey hholds
    obtain ⟨hstored, hasked⟩ := asked_of_find hlast hmirrors hfind d (List.mem_singleton_self d)
    exact ⟨d, hstored, hasked⟩

/-! ## A string that is not a key -/

/-- The only document is created. -/
def oneStep : List Step := [.call (.create .anonymous twin)]

/-- A string that is the key of no document. -/
def timeKey : String := "beginWith(time)"

/-- The string is looked up, and the document is found. -/
theorem lookup_oneStep :
    ofTrace (bare.run oneStep).1 = [twin] ∧
      ((bare.run oneStep).2.call
          (.getByKey "shop" "web" timeKey { labelFormat := "env" })).1 = .ok (.documents [twin]) ∧
      ((bare.run oneStep).2.call
          (.holdsKey "shop" "web" timeKey { labelFormat := "env" })).1 = .ok (.truth true) := by
  obtain ⟨base, hsound⟩ := bare_fresh.sound
  have hstore : ∀ d ∈ [twin], Storable d.domain d.project d.id :=
    List.forall_mem_singleton.mpr (.of_fits rfl rfl (by decide))
  obtain ⟨state, lib, hrun, hlast, hmirrors, -⟩ :=
    run_creates hsound mirrors_empty .anonymous hstore fun _ _ => rfl
  obtain ⟨found, state', hfind, hnodup, hsub, hnone, -⟩ := find_of_mirrors hlast.toStocked hmirrors
    (hlast.noLoose "shop" "web") rfl (by decide) (Store.keyQuery timeKey { labelFormat := "env" })
  have hstored : (inScope ([twin].foldl put []) "shop" "web").filter
      (Store.keyQuery timeKey { labelFormat := "env" }).accepts = [twin] := by decide
  rw [hstored] at hsub hnone
  have hfound : found = [twin] := by
    rcases found with - | ⟨d, - | ⟨e, rest⟩⟩
    · exact absurd (hnone rfl) (List.cons_ne_nil _ _)
    · rw [List.mem_singleton.mp (hsub d (List.mem_singleton_self d))]
    · have hd := List.mem_singleton.mp (hsub d (by simp))
      have he := List.mem_singleton.mp (hsub e (by simp))
      simp [hd, he] at hnodup
  rw [hfound] at hfind
  rw [show bare.run oneStep = _ from hrun]
  exact ⟨rfl, call_getByKey rfl hfind, call_holdsKey rfl hfind⟩

theorem run_lookup_asked_sample :
    ((bare.run oneStep).2.call
        (.getByKey "shop" "web" timeKey { labelFormat := "env" })).1 = .ok (.documents [twin]) ∧
      AsksFor timeKey twin.key ∧
      ∃ d ∈ inScope (ofTrace (bare.run oneStep).1) "shop" "web",
        AsksFor timeKey d.key ∧ d.labels = .empty := by
  have hsteps : ∀ step ∈ oneStep, step.Accepted bareSettings.root :=
    List.forall_mem_singleton.mpr trivial
  obtain ⟨-, hget, hholds⟩ := lookup_oneStep
  obtain ⟨hgiven, hexists⟩ :=
    run_lookup_asked bare_fresh hsteps "shop" "web" timeKey { labelFormat := "env" }
  obtain ⟨-, hasked, -⟩ := hgiven [twin] hget twin (List.mem_singleton_self _)
  exact ⟨hget, hasked, hexists hholds⟩

/-- A document is given for a string that is not its key, and is said to be there although no
document has the string for its key. -/
theorem lookup_not_literal :
    bare.Fresh bareSettings ∧
      ((bare.run oneStep).2.call
          (.getByKey "shop" "web" timeKey { labelFormat := "env" })).1 = .ok (.documents [twin]) ∧
      ((bare.run oneStep).2.call
          (.holdsKey "shop" "web" timeKey { labelFormat := "env" })).1 = .ok (.truth true) ∧
      ∀ d ∈ inScope (ofTrace (bare.run oneStep).1) "shop" "web", d.key ≠ timeKey := by
  obtain ⟨hstored, hget, hholds⟩ := lookup_oneStep
  refine ⟨bare_fresh, hget, hholds, ?_⟩
  rw [hstored]
  decide

end Session

end ConfigStore
