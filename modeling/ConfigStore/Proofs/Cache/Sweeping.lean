import ConfigStore.Proofs.Cache.Markers

/-!
# Sweeping

The refresher of a cache sweeps it from time to time: it drops the copies and the markers whose time
is over. Where copies do not expire a sweep does nothing. Where they expire at once none is found,
swept or not; but as long as they are not swept, copies and markers of later revisions make the
cache refuse what a scan brings in, and a refused document leaves no id behind. So sweeps cannot be
noticed as long as nothing is refused, and otherwise they show in how many documents a scan has
brought in and which ids are missing.

* `Cache.answers` is what calls give, sweeps left out, and `Reply.copies` what they give of copies.
  `Cache.answers_simulated` compares two caches of which one is swept.
* `Cache.Remains` says that a cache is what sweeps have left of another; every call keeps this.
* `Cache.run_unswept` is the result, for two sequences of calls that differ in their sweeps.
  `Cache.run_swept_marker` is a sweep that shows.
-/

namespace ConfigStore.Cache

variable {a b c : Cache} {d : Document} {calls calls' : List Call}

/-! ## Sequences without their sweeps -/

/-- Whether the call is a sweep. -/
def Call.isSweep : Call → Bool
  | .sweep => true
  | _ => false

/-- Whether the reply is that of a sweep. -/
def Reply.isDropped : Reply → Bool
  | .dropped _ => true
  | _ => false

/-- The calls of a sequence that are no sweeps. -/
def unswept (calls : List Call) : List Call := calls.filter (!·.isSweep)

/-- What the calls of a sequence give, sweeps left out. -/
def answers (c : Cache) (calls : List Call) : List Reply := (c.run calls).1.filter (!·.isDropped)

theorem answers_cons (c : Cache) {call : Call} (hcall : call.isSweep = false)
    (calls : List Call) :
    c.answers (call :: calls) = (c.call call).1 :: (c.call call).2.answers calls := by
  cases call with
  | sweep => cases hcall
  | _ => rfl

theorem unswept_cons {call : Call} (hcall : call.isSweep = false) (calls : List Call) :
    unswept (call :: calls) = call :: unswept calls := by
  rw [unswept, List.filter_cons_of_pos (by rw [hcall]; rfl)]
  rfl

/-- The lifetime of copies stays what it is. -/
theorem ttl_call (c : Cache) (call : Call) : (c.call call).2.ttl = c.ttl := by
  refine call_keeps (P := fun b => b.ttl = c.ttl) (fun _ _ _ hb => hb)
    (fun b d hb => (evicted_backfillOne b d).2.trans hb) (fun _ _ _ hb => hb) (fun _ _ hb => hb)
    (fun b hb => ?_) rfl
  rw [← hb]
  unfold Cache.sweep
  split <;> rfl

theorem expiresAtOnce_call (c : Cache) (call : Call) :
    (c.call call).2.expiresAtOnce = c.expiresAtOnce := by
  rw [expiresAtOnce, expiresAtOnce, ttl_call]

/-- Two caches give the same, seen through `f`, sweeps left out of one sequence of calls and not of
the other, if they are in a relation that a sweep on one side keeps, and any other call on both. -/
theorem answers_simulated {R : List Call → Cache → Cache → Prop} {f : Reply → Reply}
    (hsweep : ∀ calls a b, R (.sweep :: calls) a b → R calls a.sweep.2 b)
    (hcall : ∀ call calls a b, call.isSweep = false → R (call :: calls) a b →
      f (a.call call).1 = f (b.call call).1 ∧ R calls (a.call call).2 (b.call call).2)
    (h : R calls a b) : (a.answers calls).map f = (b.answers (unswept calls)).map f := by
  induction calls generalizing a b with
  | nil => rfl
  | cons call calls ih =>
    cases hkind : call.isSweep with
    | true =>
      -- a sweep is a step on the left that nothing answers on the right
      cases call with
      | sweep => exact ih (hsweep calls a b h)
      | _ => cases hkind
    | false =>
      obtain ⟨hreply, hnext⟩ := hcall call calls a b hkind h
      rw [unswept_cons hkind, answers_cons a hkind, answers_cons b hkind, List.map_cons,
        List.map_cons, hreply, ih hnext]

/-! ## Copies that do not expire -/

/-- Where copies do not expire, sweeps do nothing. -/
theorem answers_lasting (hlasting : c.expiresAtOnce = false) (calls : List Call) :
    c.answers calls = c.answers (unswept calls) := by
  have hanswers : (c.answers calls).map id = (c.answers (unswept calls)).map id := by
    refine answers_simulated (R := fun _ a b => a = b ∧ a.expiresAtOnce = false)
      (fun calls a b hab => ?_) (fun call calls a b _ hab => ?_) ⟨rfl, hlasting⟩
    · obtain ⟨rfl, ha⟩ := hab
      have hsame : a.sweep.2 = a := by
        rw [Cache.sweep, if_neg (by rw [ha]; exact Bool.false_ne_true)]
      rw [hsame]
      exact ⟨rfl, ha⟩
    · obtain ⟨rfl, ha⟩ := hab
      exact ⟨rfl, rfl, (expiresAtOnce_call a call).trans ha⟩
  simpa only [List.map_id] using hanswers

/-! ## Copies that expire at once -/

/-- What a reply gives of copies. It leaves out how many documents were kept and of which ids there
is no copy. -/
def Reply.copies : Reply → Reply
  | .kept _ => .done
  | .found result => .found { result with missingIds := [] }
  | reply => reply

/-- Where copies expire at once none is found. -/
theorem get_expired (hexpired : c.expiresAtOnce = true) (domain project id : String) :
    c.get domain project id = (none, c.drop (documentKey domain project id)) := by
  rw [Cache.get, if_pos hexpired]

theorem search_expired (hexpired : c.expiresAtOnce = true) (domain project : String)
    (query : Query) : (c.search domain project query).1
      = { usedCache := true, missingIds := (c.idsIn (scopeKey domain project)).keys } := by
  rw [search, searchIds_eq]
  simp [get_expired hexpired]

/-- What calls give of copies does not hang on what the cache has, if copies expire at once. -/
theorem copies_expired (ha : a.expiresAtOnce = true) (hb : b.expiresAtOnce = true) {call : Call}
    (hcall : call.isSweep = false) : (a.call call).1.copies = (b.call call).1.copies := by
  cases call with
  | get domain project id => simp only [Cache.call, get_expired ha, get_expired hb]
  | search domain project query =>
    simp only [Cache.call, search_expired ha, search_expired hb, Reply.copies]
  | sweep => cases hcall
  | _ => rfl

theorem answers_copies_expired (ha : a.expiresAtOnce = true) (hb : b.expiresAtOnce = true)
    (calls : List Call) :
    (a.answers calls).map Reply.copies = (b.answers (unswept calls)).map Reply.copies := by
  refine answers_simulated (R := fun _ a b => a.expiresAtOnce = true ∧ b.expiresAtOnce = true)
    (fun calls a b hab => ⟨(expiresAtOnce_call a .sweep).trans hab.1, hab.2⟩)
    (fun call calls a b hcall hab => ⟨copies_expired hab.1 hab.2 hcall, ?_⟩) ⟨ha, hb⟩
  exact ⟨(expiresAtOnce_call a call).trans hab.1, (expiresAtOnce_call b call).trans hab.2⟩

/-! ## What sweeps leave -/

/-- A cache is what sweeps have left of another. -/
structure Remains (a b : Cache) : Prop where
  expired : a.expiresAtOnce = true
  ttl : a.ttl = b.ttl
  ids : a.ids = b.ids
  bodies : ∀ key copy, a.bodies.get? key = some copy → b.bodies.get? key = some copy
  evicted : ∀ key revision, a.evicted.get? key = some revision →
    b.evicted.get? key = some revision

namespace Remains

theorem refl (hexpired : c.expiresAtOnce = true) : Remains c c :=
  ⟨hexpired, rfl, rfl, fun _ _ h => h, fun _ _ h => h⟩

theorem expired_right (h : Remains a b) : b.expiresAtOnce = true := by
  rw [expiresAtOnce, ← h.ttl]
  exact h.expired

/-- One more sweep leaves nothing but the ids. -/
theorem sweep (h : Remains a b) : Remains a.sweep.2 b := by
  rw [Cache.sweep, if_pos h.expired]
  exact ⟨h.expired, h.ttl, h.ids, fun _ _ hcopy => (by cases hcopy),
    fun _ _ hmarker => (by cases hmarker)⟩

theorem drop (h : Remains a b) (key : String) : Remains (a.drop key) (b.drop key) :=
  ⟨h.expired, h.ttl, h.ids, Dict.get?_erase_mono h.bodies key, h.evicted⟩

theorem store_index (h : Remains a b) (d : Document) :
    Remains ((a.store d).index d) ((b.store d).index d) := by
  refine ⟨h.expired, h.ttl, ?_, Dict.get?_insert_mono h.bodies (keyOf d) d, h.evicted⟩
  simp only [index, store, idsIn, h.ids]

theorem putOne (h : Remains a b) (d : Document) : Remains (a.putOne d) (b.putOne d) :=
  store_index (a := { a with evicted := a.evicted.erase (keyOf d) })
    (b := { b with evicted := b.evicted.erase (keyOf d) })
    ⟨h.expired, h.ttl, h.ids, h.bodies, Dict.get?_erase_mono h.evicted (keyOf d)⟩ d

theorem evictOne (h : Remains a b) (d : Document) : Remains (a.evictOne d) (b.evictOne d) := by
  refine ⟨h.expired, h.ttl, ?_, Dict.get?_erase_mono h.bodies (keyOf d),
    Dict.get?_insert_mono h.evicted (keyOf d) d.updateRevision⟩
  simp only [Cache.evictOne, unindex, Cache.drop, idsIn, h.ids]

/-- A document that is kept is also kept by what sweeps have left. -/
theorem backfillOne (h : Remains a b) (hkept : (b.backfillOne d).1 = true) :
    (a.backfillOne d).1 = true ∧ Remains (a.backfillOne d).2 (b.backfillOne d).2 := by
  unfold Cache.backfillOne at hkept ⊢
  split at hkept
  · cases hkept
  next hnewer =>
    split at hkept
    · cases hkept
    next hmarked =>
      have hnewer' : a.hasNewer d = false := by
        cases hcopy : a.bodies.get? (keyOf d) with
        | none => rw [hasNewer, hcopy]
        | some copy =>
          rw [hasNewer, h.bodies _ copy hcopy] at hnewer
          rw [hasNewer, hcopy]
          exact Bool.not_eq_true _ ▸ hnewer
      have hmarked' : a.isMarked d = false := by
        cases hmarker : a.evicted.get? (keyOf d) with
        | none => rw [isMarked, hmarker]
        | some revision =>
          rw [isMarked, h.evicted _ revision hmarker] at hmarked
          rw [isMarked, hmarker]
          exact Bool.not_eq_true _ ▸ hmarked
      simp only [hnewer, hmarked, hnewer', hmarked', Bool.false_eq_true, if_false, true_and]
      exact h.store_index d

end Remains

/-! ## Documents that are refused -/

/-- No more documents are kept than a scan brings in. -/
theorem backfill_le (c : Cache) (docs : List Document) : (c.backfill docs).1 ≤ docs.length := by
  induction docs generalizing c with
  | nil => exact Nat.le_refl 0
  | cons d docs ih =>
    have hrest := ih (c.backfillOne d).2
    show ((c.backfillOne d).2.backfill docs).1 + (c.backfillOne d).1.toNat ≤ docs.length + 1
    have hone := Bool.toNat_le (c.backfillOne d).1
    omega

/-- Whether a call refuses a document that a scan brings in. -/
def refuses (c : Cache) : Call → Bool
  | .backfill docs => (c.backfill docs).1 != docs.length
  | _ => false

/-- Whether one of some calls does. -/
def refusesAny (c : Cache) : List Call → Bool
  | [] => false
  | call :: calls => c.refuses call || (c.call call).2.refusesAny calls

namespace Remains

/-- If all documents are kept, they are also kept by what sweeps have left. -/
theorem backfill {docs : List Document} (h : Remains a b)
    (hkept : (b.backfill docs).1 = docs.length) :
    (a.backfill docs).1 = docs.length ∧ Remains (a.backfill docs).2 (b.backfill docs).2 := by
  induction docs generalizing a b with
  | nil => exact ⟨rfl, h⟩
  | cons d docs ih =>
    have hsum : ((b.backfillOne d).2.backfill docs).1 + (b.backfillOne d).1.toNat
      = docs.length + 1 := hkept
    have hrest := backfill_le (b.backfillOne d).2 docs
    have hone := Bool.toNat_le (b.backfillOne d).1
    -- a document adds at most one to the count, so the first was kept too
    have hfirst : (b.backfillOne d).1 = true := by
      rw [← Bool.toNat_eq_one]
      omega
    obtain ⟨hfirst', hremains⟩ := h.backfillOne hfirst
    obtain ⟨hcount, hlast⟩ := ih hremains (by omega)
    refine ⟨?_, hlast⟩
    show ((a.backfillOne d).2.backfill docs).1 + (a.backfillOne d).1.toNat = docs.length + 1
    rw [hcount, hfirst']
    rfl

theorem get (h : Remains a b) (domain project id : String) :
    Remains (a.get domain project id).2 (b.get domain project id).2 := by
  rw [get_expired h.expired, get_expired h.expired_right]
  exact h.drop _

theorem searchIds (h : Remains a b) (domain project : String) (query : Query)
    (ids : List String) : Remains (a.searchIds domain project query ids).2
      (b.searchIds domain project query ids).2 := by
  induction ids generalizing a b with
  | nil => exact h
  | cons id ids ih =>
    rw [searchIds_cons, searchIds_cons]
    exact ih (h.get domain project id)

/-- What sweeps have left gives the same replies, as long as nothing is refused. -/
theorem call (h : Remains a b) {call : Call} (hsweep : call.isSweep = false)
    (hrefuses : b.refuses call = false) :
    (a.call call).1 = (b.call call).1 ∧ Remains (a.call call).2 (b.call call).2 := by
  cases call with
  | put docs =>
    exact ⟨rfl, List.foldl_rel h fun d _ _ _ h => h.putOne d⟩
  | backfill docs =>
    rw [refuses, bne_eq_false_iff_eq] at hrefuses
    obtain ⟨hcount, hremains⟩ := h.backfill hrefuses
    refine ⟨?_, hremains⟩
    show Reply.kept (a.backfill docs).1 = Reply.kept (b.backfill docs).1
    rw [hcount, hrefuses]
  | evict docs =>
    exact ⟨rfl, List.foldl_rel h fun d _ _ _ h => h.evictOne d⟩
  | get domain project id =>
    refine ⟨?_, h.get domain project id⟩
    simp only [Cache.call, get_expired h.expired, get_expired h.expired_right]
  | search domain project query =>
    have hids : a.idsIn (scopeKey domain project) = b.idsIn (scopeKey domain project) := by
      rw [idsIn, idsIn, h.ids]
    simp only [Cache.call]
    refine ⟨?_, ?_⟩
    · rw [search_expired h.expired, search_expired h.expired_right, hids]
    · rw [search, search, hids]
      exact h.searchIds domain project query _
  | sweep => cases hsweep

theorem answers (h : Remains a b) {calls : List Call}
    (hrefuses : b.refusesAny (unswept calls) = false) :
    a.answers calls = b.answers (unswept calls) := by
  have hanswers : (a.answers calls).map id = (b.answers (unswept calls)).map id := by
    refine answers_simulated
      (R := fun calls a b => Remains a b ∧ b.refusesAny (unswept calls) = false)
      (fun calls a b hab => ⟨hab.1.sweep, hab.2⟩) (fun call calls a b hcall hab => ?_)
      ⟨h, hrefuses⟩
    obtain ⟨hremains, hkept⟩ := hab
    rw [unswept_cons hcall, refusesAny, Bool.or_eq_false_iff] at hkept
    obtain ⟨hreply, hnext⟩ := hremains.call hcall hkept.1
    exact ⟨hreply, hnext, hkept.2⟩
  simpa only [List.map_id] using hanswers

end Remains

/-! ## Two sequences of calls -/

/-- **What sweeps show.** Two sequences of calls that differ only in their sweeps find the same
copies. If copies do not expire, or if nothing would be refused without any sweep, all they give is
the same: the copies, the ids of which there are some and the ids of which there are none, and how
many documents of a scan were kept. -/
theorem run_unswept (ttl : Nat) (hsame : unswept calls = unswept calls') :
    (answers { ttl } calls).map Reply.copies = (answers { ttl } calls').map Reply.copies ∧
      (ttl ≠ 0 ∨ refusesAny { ttl } (unswept calls) = false →
        answers { ttl } calls = answers { ttl } calls') := by
  cases hexpired : expiresAtOnce { ttl } with
  | false =>
    have hanswers : answers { ttl } calls = answers { ttl } calls' := by
      rw [answers_lasting hexpired calls, answers_lasting hexpired calls', hsame]
    exact ⟨by rw [hanswers], fun _ => hanswers⟩
  | true =>
    refine ⟨?_, fun hkept => ?_⟩
    · rw [answers_copies_expired hexpired hexpired calls,
        answers_copies_expired hexpired hexpired calls', hsame]
    · have hzero : ttl = 0 := of_decide_eq_true hexpired
      have hrefuses := hkept.resolve_left fun httl => httl hzero
      have hanswers := (Remains.refl hexpired).answers hrefuses
      rw [hsame] at hanswers hrefuses
      rw [hanswers, (Remains.refl hexpired).answers hrefuses]

/-- A scan brings in later revisions than the cache has seen, with sweeps in between and without. -/
theorem run_unswept_sample :
    let swept : List Call := [.put [copyOf "web" "1" 3], .sweep, .evict [copyOf "web" "1" 3],
      .sweep, .backfill [copyOf "web" "1" 4, copyOf "web" "2" 1], .search "shop" "web" {}]
    unswept swept = unswept (unswept swept) ∧ refusesAny { ttl := 0 } (unswept swept) = false ∧
      answers { ttl := 0 } swept = answers { ttl := 0 } (unswept swept) := by
  intro swept
  have hsame : unswept swept = unswept (unswept swept) := rfl
  have hrefuses : refusesAny { ttl := 0 } (unswept swept) = false := by decide
  exact ⟨hsame, hrefuses, (run_unswept 0 hsame).2 (.inr hrefuses)⟩

/-- Copies expire at once. The marker of a deleted document stops a scan, until it is swept. -/
theorem run_swept_marker :
    let calls : List Call := [.evict [copyOf "web" "1" 5], .backfill [copyOf "web" "1" 3]]
    let swept : List Call :=
      [.evict [copyOf "web" "1" 5], .sweep, .backfill [copyOf "web" "1" 3]]
    unswept swept = unswept calls ∧ answers { ttl := 0 } calls = [.done, .kept 0] ∧
      answers { ttl := 0 } swept = [.done, .kept 1] := by
  intro calls swept
  exact ⟨rfl, rfl, rfl⟩

end ConfigStore.Cache
