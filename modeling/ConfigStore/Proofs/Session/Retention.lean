import ConfigStore.Proofs.Session.Newest

/-!
# The snapshots that a write leaves

A write puts a snapshot beside the others, in place of one of the same revision, and keeps those
that come first in the order of listings. This order looks at the number of labels before it looks
at revisions. So the snapshot that goes need not be the oldest, and it can be that of the write
itself.

* `Session.HasSnapshots` says which snapshots of a document there are, by their files.
* `snapshotsWith` are the snapshots after a write, all of them; `mem_take_snapshotsWith` says when
  that of the write is kept, and `newer_of_kept` which ones are kept before which.
* `Session.Retains` is what a write leaves, and `Session.run_retains` says so of every run.
* `Session.create_discards` creates a document of which no snapshot is left.
-/

namespace ConfigStore

open Node Disk Library

variable {domain project id : String} {max : Nat} {d e : Document} {old : List Document}

/-! ## The order of snapshots -/

/-- The snapshots that are not replaced by a write. -/
def otherSnapshots (d : Document) (old : List Document) : List Document :=
  old.filter (·.updateRevision ≠ d.updateRevision)

/-- The snapshots of a document after a write, in the order of listings. -/
def snapshotsWith (d : Document) (old : List Document) : List Document :=
  insertBy Document.precedes d (otherSnapshots d old)

theorem past_write (shelf? : Option Shelf) (d : Document) :
    (Shelf.write shelf? d).past = snapshotsWith d (shelf?.elim [] Shelf.past) := rfl

theorem past_keep_write (shelf? : Option Shelf) (d : Document) (hmax : 1 ≤ max) :
    ((Shelf.write shelf? d).keep max).past
      = (snapshotsWith d (shelf?.elim [] Shelf.past)).take max := by
  rw [Shelf.keep, if_neg (Nat.one_le_iff_ne_zero.mp hmax), past_write]

theorem mem_snapshotsWith : e ∈ snapshotsWith d old ↔ e = d ∨ e ∈ otherSnapshots d old := by
  rw [snapshotsWith, (insertBy_perm _ _ _).mem_iff, List.mem_cons]

theorem revision_ne_of_mem (h : e ∈ otherSnapshots d old) :
    e.updateRevision ≠ d.updateRevision := of_decide_eq_true (List.mem_filter.mp h).2

/-- Of two documents of different revisions one comes first. -/
theorem Document.not_precedes_iff (h : e.updateRevision ≠ d.updateRevision) :
    (!d.precedes e) = e.precedes d := by
  cases hed : e.precedes d with
  | true =>
    cases hde : d.precedes e with
    | true => exact absurd (Document.precedes_antisymm hed hde).2.1 h
    | false => rfl
  | false =>
    have hde := (Document.precedes_total e d).resolve_left (by rw [hed]; exact Bool.false_ne_true)
    rw [hde]
    rfl

/-- Among snapshots in order, those that come before a written document are counted. -/
theorem length_takeWhile_precedes (h : InOrder Document.precedes (otherSnapshots d old)) :
    ((otherSnapshots d old).takeWhile (!d.precedes ·)).length
      = (otherSnapshots d old).countP (·.precedes d) := by
  have hcount : (otherSnapshots d old).countP (·.precedes d)
      = (otherSnapshots d old).countP (!d.precedes ·) :=
    List.countP_congr fun e he => by
      rw [Document.not_precedes_iff (revision_ne_of_mem he)]
  rw [hcount]
  conv_rhs => rw [← List.takeWhile_append_dropWhile (p := (!d.precedes ·))
    (l := otherSnapshots d old)]
  rw [List.countP_append]
  have hbefore : ((otherSnapshots d old).takeWhile (!d.precedes ·)).countP (!d.precedes ·)
      = ((otherSnapshots d old).takeWhile (!d.precedes ·)).length :=
    List.countP_eq_length.mpr (List.all_eq_true.mp List.all_takeWhile)
  have hafter : ((otherSnapshots d old).dropWhile (!d.precedes ·)).countP (!d.precedes ·) = 0 := by
    refine List.countP_eq_zero.mpr fun e he => ?_
    rw [le_of_mem_dropWhile Document.precedes_trans h he]
    exact Bool.false_ne_true
  rw [hbefore, hafter, Nat.add_zero]

/-- The snapshot of a write is kept if fewer than the bound come before it. -/
theorem mem_take_snapshotsWith (h : InOrder Document.precedes (otherSnapshots d old)) (max : Nat) :
    d ∈ (snapshotsWith d old).take max ↔ (otherSnapshots d old).countP (·.precedes d) < max := by
  rw [← length_takeWhile_precedes h, snapshotsWith, insertBy, List.take_append, List.mem_append]
  constructor
  · rintro (hmem | hmem)
    · have hother := (List.takeWhile_sublist _).subset (List.mem_of_mem_take hmem)
      exact absurd rfl (revision_ne_of_mem hother)
    · by_contra hle
      rw [Nat.sub_eq_zero_of_le (Nat.le_of_not_lt hle), List.take_zero] at hmem
      cases hmem
  · intro hlt
    obtain ⟨n, hn⟩ := Nat.exists_eq_succ_of_ne_zero (Nat.sub_ne_zero_of_lt hlt)
    rw [hn, List.take_succ_cons]
    exact .inr (List.mem_cons_self ..)

/-- A snapshot that is kept has more labels than one that is not, or as many and a later
revision. -/
theorem newer_of_kept {docs : List Document} (horder : InOrder Document.precedes docs)
    (hrevisions : (docs.map (·.updateRevision)).Nodup) {kept gone : Document}
    (hkept : kept ∈ docs.take max) (hgone : gone ∈ docs.drop max) :
    gone.labels.size < kept.labels.size ∨
      gone.labels.size = kept.labels.size ∧ gone.updateRevision < kept.updateRevision := by
  rw [InOrder, ← List.take_append_drop max docs] at horder
  rw [← List.take_append_drop max docs, List.map_append] at hrevisions
  have hprecedes := (List.pairwise_append.mp horder).2.2 kept hkept gone hgone
  have hne : kept.updateRevision ≠ gone.updateRevision :=
    (List.nodup_append.mp hrevisions).2.2 _ (List.mem_map_of_mem hkept) _
      (List.mem_map_of_mem hgone)
  refine (Document.precedes_iff.mp hprecedes).imp_right fun hsame => ⟨hsame.1.symm, ?_⟩
  exact hsame.2.resolve_right fun h => hne h.1

/-! ## Snapshots and their files -/

namespace Session

variable {session : Session} {root : Path} {base : Place} {lib : Library}

/-- The snapshots of a document are those of a list, which is in the order of listings: there is a
file for each of them, and no other file of such a name. -/
structure HasSnapshots (session : Session) (domain project id : String) (docs : List Document) :
    Prop where
  inOrder : InOrder Document.precedes docs
  revisions : (docs.map (·.updateRevision)).Nodup
  files : ∀ revision content, readFile session.state.disk
      (Layout.snapshot session.store.root domain project id revision) = .ok content ↔
    ∃ e ∈ docs, e.updateRevision = revision ∧ content = e.encode

/-- The snapshots of a document are those on its shelf. -/
theorem Stocked.hasSnapshots (h : session.Stocked root base lib)
    (hstore : Storable domain project id) : session.HasSnapshots domain project id
      ((lib.shelf? domain project id).elim [] Shelf.past) := by
  have hfiles : ∀ revision content, readFile session.state.disk
        ((session.store.root.descend (Deletion.home domain project id)).join
          (Layout.snapshotName revision)) = .ok content ↔
      (lib.shelf? domain project id).bind (·.file? (Layout.snapshotName revision))
        = some content :=
    fun revision content => h.ready.kept.holds.readFile_eq_ok_iff h.ready.kept.grounded
      h.ready.room hstore (Layout.isName_snapshotName revision)
      (Layout.utf8ByteSize_snapshotName_le revision)
  cases hshelf : lib.shelf? domain project id with
  | none =>
    refine ⟨.nil, .nil, fun revision content => ?_⟩
    rw [snapshot_eq, hfiles, hshelf]
    simp
  | some shelf =>
    have hvalid := h.ready.kept.valid.shelf hshelf
    refine ⟨hvalid.inOrder, hvalid.revisions, fun revision content => ?_⟩
    rw [snapshot_eq, hfiles, hshelf, Option.bind_some, Shelf.file?_eq_some_iff hvalid]
    constructor
    · rintro (⟨hname, -⟩ | ⟨e, he, hname, hcontent⟩)
      · exact absurd hname (Layout.snapshotName_ne_newestName revision)
      · exact ⟨e, he, (Layout.snapshotName_injective hname).symm, hcontent⟩
    · rintro ⟨e, he, hrevision, hcontent⟩
      exact .inr ⟨e, he, by rw [hrevision], hcontent⟩

theorem Stocked.readFile_newest (h : session.Stocked root base lib) {shelf : Shelf}
    (hshelf : lib.shelf? domain project id = some shelf) :
    readFile session.state.disk (Layout.newest session.store.root domain project id)
      = .ok shelf.head.encode := by
  refine (h.ready.kept.holds.readFile_eq_ok_iff h.ready.kept.grounded h.ready.room
    (h.ready.kept.valid.storable hshelf) Layout.isName_newestName utf8ByteSize_newestName_le).mpr ?_
  rw [hshelf, Option.bind_some, Shelf.file?_newestName]

/-! ## What a write leaves -/

/-- What a write of a document leaves of its snapshots. -/
structure Retains (before after : Session) (d : Document) (old : List Document) : Prop where
  given : before.HasSnapshots d.domain d.project d.id old
  left : after.HasSnapshots d.domain d.project d.id
    ((snapshotsWith d old).take before.store.maxHistory)
  newest : readFile after.state.disk (Layout.newest after.store.root d.domain d.project d.id)
    = .ok d.encode
  /-- The snapshot of the write is there if not too many others come before it. -/
  own : readFile after.state.disk
      (Layout.snapshot after.store.root d.domain d.project d.id d.updateRevision) = .ok d.encode ↔
    (otherSnapshots d old).countP (·.precedes d) < before.store.maxHistory
  /-- A snapshot of a lower revision is kept only if it has more labels. -/
  inOrder : ∀ kept ∈ (snapshotsWith d old).take before.store.maxHistory,
    ∀ gone ∈ (snapshotsWith d old).drop before.store.maxHistory,
      gone.labels.size < kept.labels.size ∨
        gone.labels.size = kept.labels.size ∧ gone.updateRevision < kept.updateRevision

/-- The snapshots that a write leaves are the first ones. -/
theorem Stocked.retains {before after : Session} (h : before.Stocked root base lib)
    (h' : after.Stocked root base (lib.write before.store.maxHistory d))
    (hmax : 1 ≤ before.store.maxHistory) :
    before.Retains after d ((lib.shelf? d.domain d.project d.id).elim [] Shelf.past) := by
  have hwritten : (lib.write before.store.maxHistory d).shelf? d.domain d.project d.id
      = some ((Shelf.write (lib.shelf? d.domain d.project d.id) d).keep before.store.maxHistory) :=
    shelf?_put_self ..
  have hstore := h'.ready.kept.valid.storable hwritten
  have hbefore := h.hasSnapshots hstore
  have hafter := h'.hasSnapshots hstore
  have hall : (Shelf.write (lib.shelf? d.domain d.project d.id) d).Valid d.domain d.project d.id :=
    Shelf.valid_write fun shelf hshelf => h.ready.kept.valid.shelf hshelf
  rw [hwritten, Option.elim_some, past_keep_write _ d hmax] at hafter
  have hnewest := h'.readFile_newest hwritten
  refine ⟨hbefore, hafter, hnewest, ?_, fun kept hkept gone hgone =>
    newer_of_kept hall.inOrder hall.revisions hkept hgone⟩
  rw [hafter.files, ← mem_take_snapshotsWith (hbefore.inOrder.sublist List.filter_sublist)]
  constructor
  · rintro ⟨e, he, hrevision, -⟩
    rcases mem_snapshotsWith.mp (List.mem_of_mem_take he) with rfl | hother
    · exact he
    · exact absurd hrevision (revision_ne_of_mem hother)
  · intro hmem
    exact ⟨d, hmem, rfl, rfl⟩

/-- Among snapshots with as many labels as a written document, those that are kept are the latest,
and that of the write is kept if not too many are later. -/
theorem Retains.latest {before after : Session} (h : before.Retains after d old)
    (hlabels : ∀ e ∈ otherSnapshots d old, e.labels.size = d.labels.size) :
    (∀ kept ∈ (snapshotsWith d old).take before.store.maxHistory,
        ∀ gone ∈ (snapshotsWith d old).drop before.store.maxHistory,
          gone.updateRevision < kept.updateRevision) ∧
      ((otherSnapshots d old).countP (d.updateRevision < ·.updateRevision)
          < before.store.maxHistory →
        readFile after.state.disk
          (Layout.snapshot after.store.root d.domain d.project d.id d.updateRevision)
            = .ok d.encode) := by
  have hsize : ∀ e ∈ snapshotsWith d old, e.labels.size = d.labels.size := by
    intro e he
    rcases mem_snapshotsWith.mp he with rfl | hother
    · rfl
    · exact hlabels e hother
  refine ⟨fun kept hkept gone hgone => ?_, fun hcount => h.own.mpr ?_⟩
  · have hkept' := hsize kept (List.mem_of_mem_take hkept)
    have hgone' := hsize gone (List.mem_of_mem_drop hgone)
    rcases h.inOrder kept hkept gone hgone with hless | ⟨-, hnewer⟩
    · omega
    · exact hnewer
  · have hsame : (otherSnapshots d old).countP (·.precedes d)
        = (otherSnapshots d old).countP (d.updateRevision < ·.updateRevision) := by
      refine List.countP_congr fun e he => ?_
      rw [Document.precedes_iff, hlabels e he, decide_eq_true_eq]
      simp [revision_ne_of_mem he]
    rwa [hsame]

/-- **What a write leaves of the snapshots of a document**: the first ones in the order of
listings. If all have as many labels as the document, these are the latest ones, and that of the
write is among them unless too many are later. -/
theorem run_retains {settings : Settings} (hfresh : session.Fresh settings) {steps : List Step}
    (hsteps : ∀ step ∈ steps, step.Accepted settings.root) {before after : Session}
    (hbefore : (session.run steps).2 = before) (hmax : 1 ≤ before.store.maxHistory)
    {request : Request} {result : Except Failure Answer} {w : Write}
    (hcall : before.call request = (result, after))
    (hwrite : Event.write? (.call request, result) = some w) :
    ∃ old, before.Retains after w.document old ∧
      ((∀ e ∈ otherSnapshots w.document old, e.labels.size = w.document.labels.size) →
        (∀ kept ∈ (snapshotsWith w.document old).take before.store.maxHistory,
          ∀ gone ∈ (snapshotsWith w.document old).drop before.store.maxHistory,
            gone.updateRevision < kept.updateRevision) ∧
        ((otherSnapshots w.document old).countP
            (w.document.updateRevision < ·.updateRevision) < before.store.maxHistory →
          readFile after.state.disk (Layout.snapshot after.store.root w.document.domain
            w.document.project w.document.id w.document.updateRevision)
              = .ok w.document.encode)) := by
  obtain ⟨base, hsound⟩ := hfresh.sound
  obtain ⟨lib, hstocked⟩ := run_stocked hsound.toStocked hsteps
  rw [hbefore] at hstocked
  have haccepted : (Step.call request).Accepted settings.root := by
    cases request with
    | advance domain => cases hwrite
    | _ => trivial
  obtain ⟨result', next, lib', hstep, hnext, hdone, -⟩ := step_stocked hstocked haccepted
  obtain ⟨rfl, rfl⟩ := Prod.mk.inj (hcall.symm.trans hstep)
  rw [hdone.written hwrite] at hnext
  have hretains := hstocked.retains hnext hmax
  exact ⟨_, hretains, hretains.latest⟩

/-! ## A write whose snapshot goes -/

/-- Settings for a store that keeps one snapshot. -/
def scantSettings : Settings := { sampleSettings with maxHistory := 1 }

/-- A store that keeps one snapshot and was opened where nothing was. -/
def scant : Session where
  store := { root := scantSettings.root, maxHistory := 1 }
  state := ⟨.dir [("kvs", .dir [])], some { ttl := scantSettings.cache.ttlSecs }⟩

/-- A document with two labels. -/
def labelled : Document :=
  { sampleDocument with labels := (Dict.empty.insert "env" "prod").insert "zone" "eu" }

/-- A later revision of it without labels. -/
def unlabelled : Document := { sampleDocument with value := "60", updateRevision := 2 }

/-- What the store keeps of the document with labels. -/
def scantKept : Session := (scant.run [.call (.create .anonymous labelled)]).2

theorem scant_fresh : scant.Fresh scantSettings where
  opened := ⟨.allowAll, .dir [], distinct_dir_nil, rfl⟩
  empty := ⟨_, rfl, rfl⟩
  short := by decide

theorem storable_sample : Storable "shop" "web" "timeout" := .of_fits rfl rfl (by decide)

theorem scantKept_sound : scantKept.store = scant.store ∧
    (scant.run [.call (.create .anonymous labelled)]).1
      = [(.call (.create .anonymous labelled), .ok (.document labelled))] ∧
    ∃ base, scantKept.Sound scantSettings.root base (Library.empty.write 1 labelled) := by
  obtain ⟨base, hsound⟩ := scant_fresh.sound
  obtain ⟨state, hcreate, hsound, -⟩ := call_create hsound .anonymous (d := labelled)
    storable_sample rfl
  rw [scantKept, run_call_cons hcreate]
  exact ⟨rfl, rfl, base, hsound⟩

theorem run_retains_sample : 1 ≤ scantKept.store.maxHistory ∧
    ∃ after, scantKept.call (.create .anonymous unlabelled) = (.ok (.document unlabelled), after) ∧
      ∃ old, scantKept.Retains after unlabelled old := by
  obtain ⟨hstore, -, base, hsound⟩ := scantKept_sound
  have hmax : 1 ≤ scantKept.store.maxHistory := by
    rw [hstore]
    exact Nat.le_refl 1
  have hsteps : ∀ step ∈ [Step.call (.create .anonymous labelled)],
      step.Accepted scantSettings.root := List.forall_mem_singleton.mpr trivial
  obtain ⟨state, hcreate, -, -⟩ := call_create hsound .anonymous (d := unlabelled)
    storable_sample (by rw [hstore]; rfl)
  obtain ⟨old, hretains, -⟩ := run_retains scant_fresh hsteps (rfl : _ = scantKept) hmax hcreate rfl
  exact ⟨hmax, _, hcreate, old, hretains⟩

/-- A document is created again with fewer labels. Its own snapshot goes, and that of the earlier
revision stays. -/
theorem create_discards :
    let run := scant.run
      [.call (.create .anonymous labelled), .call (.create .anonymous unlabelled)]
    let disk := run.2.state.disk
    let snapshot := Layout.snapshot scantSettings.root "shop" "web" "timeout"
    run.1.map Prod.snd = [.ok (.document labelled), .ok (.document unlabelled)] ∧
      readFile disk (Layout.newest scantSettings.root "shop" "web" "timeout")
        = .ok unlabelled.encode ∧
      (∀ content, readFile disk (snapshot unlabelled.updateRevision) ≠ .ok content) ∧
      readFile disk (snapshot labelled.updateRevision) = .ok labelled.encode ∧
      labelled.updateRevision < unlabelled.updateRevision := by
  intro run disk snapshot
  obtain ⟨base, hsound⟩ := scant_fresh.sound
  obtain ⟨state, hfirst, hsound, -⟩ := call_create hsound .anonymous (d := labelled)
    storable_sample rfl
  obtain ⟨state', hsecond, hsound, -⟩ := call_create hsound .anonymous (d := unlabelled)
    storable_sample rfl
  have hrun : run = _ := (run_call_cons hfirst _).trans (by rw [run_call_cons hsecond])
  have hshelf : ((Library.empty.write 1 labelled).write 1 unlabelled).shelf?
      "shop" "web" "timeout" = some ⟨unlabelled, [labelled]⟩ := rfl
  have hnewest := hsound.toStocked.readFile_newest hshelf
  have hafter := hsound.toStocked.hasSnapshots storable_sample
  rw [show scant.store.maxHistory = 1 from rfl, hshelf, Option.elim_some] at hafter
  subst disk snapshot
  rw [hrun]
  refine ⟨rfl, hnewest, fun content hread => ?_,
    (hafter.files _ _).mpr ⟨labelled, List.mem_singleton_self _, rfl, rfl⟩, by decide⟩
  obtain ⟨e, he, hrevision, -⟩ := (hafter.files _ _).mp hread
  rw [List.mem_singleton.mp he] at hrevision
  exact absurd hrevision (by decide)

end Session

end ConfigStore
