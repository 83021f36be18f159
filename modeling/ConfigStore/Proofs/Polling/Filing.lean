import ConfigStore.Proofs.Polling.RoundTrip
import ConfigStore.Proofs.Store.Fencing

/-!
# The files of polling records

The log keeps a record in a file whose place is made of the domain, the project, the revision and
the session. Nothing else has a file in the directory of the log, so what is found there is what has
been put there.

* `PollingRecord.place` is the place of a record; it says which records take the place of another.
* `PollingLog.fence` says that the directory of the log has the files of the records that are kept,
  and no others.
* `PollingLog.put_fenced` says what is kept when a record is put, and `PollingLog.find_fenced` what
  is found.
-/

namespace ConfigStore

open Node Disk Deletion Files

/-! ## Records -/

namespace PollingRecord

/-- What a client may send: numbers are integers of 64 bits, objects are in the order of their
names, and every value is nested less than 100 deep. -/
structure Modest (r : PollingRecord) : Prop where
  integral : r.Integral
  canonical : ∀ p ∈ r.pollingData.pairs, p.2.Canonical
  nesting_lt : ∀ p ∈ r.pollingData.pairs, p.2.nesting < 100

theorem Modest.decode_encode {r : PollingRecord} (h : r.Modest) : decode r.encode = .ok r := by
  refine decode_encode_of_legible h.integral fun p hp => ⟨h.canonical p hp, ?_⟩
  have hnesting := h.nesting_lt p hp
  have hdepth : Json.maxDepth = 127 := rfl
  omega

/-- Nothing counts but what the client sent. -/
theorem Modest.of_pollingData {r r' : PollingRecord} (h : r.Modest)
    (hdata : r'.pollingData = r.pollingData) : r'.Modest := by
  constructor
  · rw [Integral, hdata]
    exact h.integral
  · rw [hdata]
    exact h.canonical
  · rw [hdata]
    exact h.nesting_lt

theorem modest_sample : sample.Modest :=
  ⟨writable_sample.integral, writable_sample.canonical, by decide⟩

/-- The record belongs to the project of what is looked for, and has every text that this has. -/
structure Suits (r wanted : PollingRecord) : Prop where
  domain : r.domain = wanted.domain
  project : r.project = wanted.project
  sessionId : wanted.sessionId = "" ∨ r.sessionId = wanted.sessionId
  ip : wanted.ip = "" ∨ r.ip = wanted.ip
  userAgent : wanted.userAgent = "" ∨ r.userAgent = wanted.userAgent
  urlPath : wanted.urlPath = "" ∨ r.urlPath = wanted.urlPath
  revision : wanted.revision = "" ∨ r.revision = wanted.revision

theorem suits_iff {r wanted : PollingRecord} : r.Suits wanted ↔
    (r.domain = wanted.domain ∧ r.project = wanted.project) ∧ r.answers wanted = true := by
  simp only [answers, Bool.and_eq_true, Bool.or_eq_true, beq_iff_eq]
  constructor
  · rintro ⟨hdomain, hproject, hsession, hip, hagent, hpath, hrevision⟩
    exact ⟨⟨hdomain, hproject⟩, ⟨⟨⟨hsession.imp_right Eq.symm, hip.imp_right Eq.symm⟩,
      hagent.imp_right Eq.symm⟩, hpath.imp_right Eq.symm⟩, hrevision.imp_right Eq.symm⟩
  · rintro ⟨⟨hdomain, hproject⟩, ⟨⟨⟨hsession, hip⟩, hagent⟩, hpath⟩, hrevision⟩
    exact ⟨hdomain, hproject, hsession.imp_right Eq.symm, hip.imp_right Eq.symm,
      hagent.imp_right Eq.symm, hpath.imp_right Eq.symm, hrevision.imp_right Eq.symm⟩

/-- What tells records apart. -/
def key (r : PollingRecord) : String × String × String × String :=
  (r.domain, r.project, PollingLog.revisionName r, r.sessionId)

/-- The place of a record below the root of a store. -/
def place (r : PollingRecord) : Place :=
  [Layout.trackName, r.domain, r.project, PollingLog.revisionName r] ++ [r.sessionId ++ ".json"]

theorem length_place (r : PollingRecord) : r.place.length = 5 := rfl

/-- Every key has a place of its own. -/
theorem place_eq_iff {r r' : PollingRecord} : r.place = r'.place ↔ r.key = r'.key := by
  have hsession :
      r.sessionId ++ ".json" = r'.sessionId ++ ".json" ↔ r.sessionId = r'.sessionId := by
    rw [← String.toList_inj, String.toList_append, String.toList_append,
      List.append_cancel_right_eq, String.toList_inj]
  simp only [place, key, List.cons_append, List.nil_append, List.cons.injEq, Prod.mk.injEq,
    and_true, true_and, hsession]

end PollingRecord

/-! ## The directory of the log -/

namespace PollingLog

/-- The directory of the log has the files of the records that are kept, and no others. Whatever is
in it can be reached by its path. -/
def fence (root : Path) (kept : PollingRecord → Prop) : Fence := fun q kind =>
  [Layout.trackName] <+: q →
    (∀ content, kind = some (.file content) ↔ ∃ r, kept r ∧ r.place = q ∧ r.encode = content) ∧
      (kind ≠ none → isPathTooLong (root.descend q) = false)

variable {root : Path} {base : Place} {disk made : Node} {kept : PollingRecord → Prop}
  {domain project id : String} {record wanted : PollingRecord}

theorem not_track_le {q : Place} (h : domain ≠ Layout.trackName) :
    ¬[Layout.trackName] <+: domain :: q := fun hle => h (List.cons_prefix_cons.mp hle).1.symm

/-- The directory of a document is apart from the log. -/
theorem free_home (h : Names.isReserved domain = false) (project id : String) :
    Free (fence root kept) (home domain project id) := by
  have hdomain : domain ≠ Layout.trackName := by
    rintro rfl
    cases h
  constructor
  · rintro q hle htrack
    exact absurd (htrack.trans hle) (not_track_le hdomain)
  · rintro q kind ⟨rest, rfl⟩ htrack
    exact absurd htrack (not_track_le hdomain)

/-- Documents are put aside apart from the log. -/
theorem free_aside (domain project id : String) :
    Free (fence root kept) (aside domain project id) := by
  have htmp : Layout.tmpName ≠ Layout.trackName := by decide
  constructor
  · rintro q hle htrack
    exact absurd (htrack.trans hle) (not_track_le htmp)
  · rintro q kind ⟨rest, rfl⟩ htrack
    exact absurd htrack (not_track_le htmp)

/-- No snapshot is deleted from the log, for it has no documents. -/
theorem lax (hkept : ∀ r, kept r → r.Integral) : Lax (fence root kept) := by
  intro here name content hfile
  by_cases htrack : [Layout.trackName] <+: here
  · refine .inr fun q stored d hstored => ?_
    obtain ⟨r, hr, -, rfl⟩ :=
      ((hstored (htrack.trans (List.prefix_append _ _))).1 stored).mp rfl
    exact PollingRecord.decode_ne_document (hkept r hr) d
  · refine .inl fun hle => ?_
    -- Only the directory of the log itself is left, which no record has for its place.
    obtain ⟨r, -, hplace, -⟩ := ((hfile hle).1 content).mp rfl
    have hlength := congrArg List.length hplace
    rcases List.prefix_concat_iff.mp hle with heq | habove
    · rw [← heq, PollingRecord.length_place] at hlength
      simp at hlength
    · exact absurd habove htrack

/-! ## Putting records -/

/-- If a path is not too long, the paths on the way are not. -/
theorem isPathTooLong_of_le {names q : List String} (hnames : ∀ n ∈ names, IsPiece n)
    (htext : checkText (root.descend names) = .ok ()) (hle : q <+: names) :
    isPathTooLong (root.descend q) = false := by
  obtain ⟨rest, rfl⟩ := hle
  have hfront : checkText (root.descend q) = .ok () := by
    refine checkText_of_descend (fun n hn => hnames n (List.mem_append_right _ hn)) ?_
    rwa [Path.descend, List.foldl_append] at htext
  rw [checkText] at hfront
  split at hfront
  · cases hfront
  · split at hfront
    · cases hfront
    next hlong => simpa using hlong

/-- Directories that were added on the way to a record change no record. -/
theorem fenced_of_paved (h : Fenced (fence root kept) root base disk)
    {names : List String} (hnames : ∀ n ∈ names, IsPiece n) (hlength : names.length < 5)
    (hpaved : Paved root base names disk made) : Fenced (fence root kept) root base made := by
  rcases hpaved.text with rfl | htext
  · exact h
  · refine h.grown (h.toSite.sprouted hpaved.sprouted) (fun q hle _ => ⟨fun content => ?_, ?_⟩)
      hpaved.grown
    · refine iff_of_false (by simp) ?_
      rintro ⟨r, -, rfl, -⟩
      have hplace := hle.length_le
      rw [PollingRecord.length_place] at hplace
      omega
    · exact fun _ => isPathTooLong_of_le hnames htext hle

/-- What may stand at a place when a record has been put: at its own place its text, and elsewhere
what might stand there before. -/
theorem fence_put {q : Place} {kind : Option Kind} (hallowed : fence root kept q kind)
    (hshort : isPathTooLong (root.descend record.place) = false) :
    fence root (fun r => r = record ∨ kept r ∧ r.key ≠ record.key) q
      (if q = record.place then some (.file record.encode) else kind) := by
  intro htrack
  split
  next hown =>
    refine ⟨fun content => ⟨fun hfile => ?_, ?_⟩, fun _ => hown ▸ hshort⟩
    · exact ⟨record, .inl rfl, hown.symm, Kind.file.inj (Option.some.inj hfile)⟩
    · rintro ⟨r, rfl | ⟨-, hne⟩, hr, rfl⟩
      · rfl
      · exact absurd (PollingRecord.place_eq_iff.mp (hr.trans hown)) hne
  next hother =>
    obtain ⟨hfiles, hlong⟩ := hallowed htrack
    refine ⟨fun content => (hfiles content).trans ⟨?_, ?_⟩, hlong⟩
    · rintro ⟨r, hr, rfl, hcontent⟩
      exact ⟨r, .inr ⟨hr, mt PollingRecord.place_eq_iff.mpr hother⟩, rfl, hcontent⟩
    · rintro ⟨r, rfl | ⟨hr, -⟩, hq, hcontent⟩
      · exact absurd hq.symm hother
      · exact ⟨r, hr, hq, hcontent⟩

/-- A record that is put takes the place of any other of its key, and is kept. If it cannot be put,
no file changes. -/
theorem put_fenced (h : Fenced (fence root kept) root base disk) (record : PollingRecord) :
    (∃ disk', put root record disk = .ok record disk' ∧
        Fenced (fence root fun r => r = record ∨ kept r ∧ r.key ≠ record.key) root base disk') ∨
      ∃ failure disk', put root record disk = .error failure disk' ∧
        Fenced (fence root kept) root base disk' ∧ ∀ q, disk'.content? q = disk.content? q := by
  rcases put_cases root record disk with ⟨failure, herror⟩ | ⟨hpieces, hsession, hput⟩
  · exact .inr ⟨failure, disk, herror, h, fun _ => rfl⟩
  obtain ⟨made, hpaved, ⟨failure, hwrite⟩ | ⟨hreceives, hwrite⟩⟩ :=
    write_below h.grounded hpieces (List.cons_ne_nil _ _) hsession record.encode
  · refine .inr ⟨failure, made, ?_, fenced_of_paved h hpieces (by simp) hpaved, fun q =>
      hpaved.grown.content? q⟩
    rw [hput]
    simp only [bind, EStateM.bind, hwrite]
  · have hmade := fenced_of_paved h hpieces (by simp) hpaved
    have hview := hreceives.kindAt?_put hmade.grounded.distinct record.encode
    have hshort : isPathTooLong (root.descend record.place) = false :=
      isPathTooLong_of_le (List.forall_mem_append.mpr
        ⟨hpieces, List.forall_mem_singleton.mpr hsession⟩) hreceives.text (List.prefix_refl _)
    refine .inl ⟨_, ?_, hmade.toSite.changed hreceives.isName
      (hmade.grounded.distinct.put (distinct_file _) _)
      (fun q hq => (hview q).trans (if_neg hq)) hreceives.leaf, fun q => ?_⟩
    · rw [hput]
      simp only [bind, EStateM.bind, hwrite]
      rfl
    · have hplace : base ++ q = base ++ [Layout.trackName, record.domain, record.project,
          revisionName record] ++ [record.sessionId ++ ".json"] ↔ q = record.place := by
        rw [List.append_assoc, List.append_cancel_left_eq, PollingRecord.place]
      simp only [hview, hplace]
      exact fence_put (hmade.allowed q) hshort

/-! ## Finding records -/

/-- The names that lead to the records of a project. -/
abbrev shelf (domain project : String) : Place := [Layout.trackName, domain, project]

theorem place_in_shelf_iff {r : PollingRecord} :
    (∃ q, r.place = shelf domain project ++ q) ↔ r.domain = domain ∧ r.project = project := by
  constructor
  · rintro ⟨q, hq⟩
    simp only [PollingRecord.place, shelf, List.cons_append, List.nil_append, List.cons.injEq,
      true_and] at hq
    exact ⟨hq.1, hq.2.1⟩
  · rintro ⟨rfl, rfl⟩
    exact ⟨_, rfl⟩

/-- No file stands on the way to the records of a project. -/
theorem kindAt?_ne_file (h : Fenced (fence root kept) root base disk) {q : Place}
    (hle : q <+: shelf domain project) (content : Bytes) :
    disk.kindAt? (base ++ q) ≠ some (.file content) := by
  intro hfile
  rcases List.prefix_cons_iff.mp hle with rfl | ⟨rest, rfl, -⟩
  · rw [List.append_nil, h.grounded.isDir] at hfile
    cases hfile
  · obtain ⟨r, -, hplace, -⟩ :=
      ((h.allowed (Layout.trackName :: rest) ⟨rest, rfl⟩).1 content).mp hfile
    have hshort := hle.length_le
    rw [← hplace, PollingRecord.length_place] at hshort
    simp at hshort

/-- The records of a project are in its directory, unless there is none. -/
theorem entries_shelf (h : Fenced (fence root kept) root base disk) (hroom : Roomy root)
    (hnames : ∀ n ∈ [domain, project], IsName n) :
    (disk.kindAt? (base ++ shelf domain project) = none ∧
        Disk.entries disk (Layout.trackDir root domain project) = .error .notFound) ∨
      ∃ children, disk.at? (base ++ shelf domain project) = some (.dir children) ∧
        Disk.entries disk (Layout.trackDir root domain project) = .ok children := by
  have hall : ∀ n ∈ shelf domain project, IsName n :=
    List.forall_mem_cons.mpr ⟨Layout.isName_trackName, hnames⟩
  have htext : checkText (root.descend (shelf domain project)) = .ok () := by
    refine hroom.checkText_descend hall ((Path.width_le_of_isName hall).trans ?_)
    simp
  cases hkind : disk.kindAt? (base ++ shelf domain project) with
  | none =>
    refine .inl ⟨rfl, ?_⟩
    have hentries : Disk.entries disk ((root.descend [Layout.trackName, domain]).join project)
        = .error .notFound := by
      refine entries_absent h.grounded.leads h.grounded.isDir
        (fun n hn => hall n (List.mem_append_left [project] hn)) (hall project (by simp)) htext
        (by rwa [List.append_assoc]) fun q content hle => ?_
      exact kindAt?_ne_file h (hle.trans (List.prefix_append _ [project])) content
    exact hentries
  | some kind =>
    cases kind with
    | file content => exact absurd hkind (kindAt?_ne_file h (List.prefix_refl _) content)
    | dir =>
      obtain ⟨children, hchildren⟩ := kindAt?_eq_dir_iff.mp hkind
      exact .inr ⟨children, hchildren,
        entries_descend h.grounded.leads (List.cons_ne_nil _ _) hall htext hchildren⟩

/-- The files of the records of a project are read in the order of their places. -/
theorem files_fenced (h : Fenced (fence root kept) root base disk) (hroom : Roomy root)
    (hnames : ∀ n ∈ [domain, project], IsName n) :
    ∃ files : List (Place × Bytes),
      (filesBelow (Layout.trackDir root domain project) none).orIfMissing [] disk
        = .ok (files.map fun file =>
            ((Layout.trackDir root domain project).descend file.1, file.2)) disk ∧
      (∀ q content, (q, content) ∈ files ↔
        ∃ r, kept r ∧ r.place = shelf domain project ++ q ∧ r.encode = content) ∧
      (files.map (·.1)).Pairwise Place.Precedes := by
  have hallowed (q : Place) := h.allowed (shelf domain project ++ q) ⟨domain :: project :: q, rfl⟩
  rcases entries_shelf h hroom hnames with ⟨hnone, hentries⟩ | ⟨children, hchildren, hentries⟩
  · refine ⟨[], ?_, fun q content => iff_of_false List.not_mem_nil ?_, List.Pairwise.nil⟩
    · rw [DiskAction.orIfMissing, filesBelow_of_error none hentries]
      rfl
    · rw [← (hallowed q).1, ← List.append_assoc, kindAt?_append, kindAt?_eq_none_iff.mp hnone]
      exact Option.some_ne_none _ |>.symm
  · have hat (q : Place) : (Node.dir children).kindAt? q
        = disk.kindAt? (base ++ (shelf domain project ++ q)) := by
      rw [← List.append_assoc, kindAt?_append, hchildren]
      rfl
    obtain ⟨files, hfiles, hmem, hordered⟩ :=
      filesBelow_walk h.grounded.distinct hentries fun place _ hplace => by
        have hshort := (hallowed place).2 (by rwa [← hat])
        rwa [Path.descend, List.foldl_append] at hshort
    refine ⟨files, ?_, fun q content => ?_, hordered⟩
    · rw [DiskAction.orIfMissing, hfiles]
    · rw [hmem, content?_eq_some_iff, hat]
      exact (hallowed q).1 content

/-- Only one record is kept of each place. -/
theorem eq_of_place (h : Fenced (fence root kept) root base disk)
    (hkept : ∀ r, kept r → r.Modest) {r r' : PollingRecord} (hr : kept r) (hr' : kept r')
    (hplace : r.place = r'.place) : r = r' := by
  have hfile {r₀ : PollingRecord} (hr₀ : kept r₀) :
      disk.kindAt? (base ++ r₀.place) = some (.file r₀.encode) :=
    ((h.allowed r₀.place ⟨_, rfl⟩).1 r₀.encode).mpr ⟨r₀, hr₀, rfl, rfl⟩
  have hencode : r.encode = r'.encode := by
    have hsame := hfile hr
    rw [hplace, hfile hr'] at hsame
    exact (Kind.file.inj (Option.some.inj hsame)).symm
  have hdecode := (hkept r hr).decode_encode
  rw [hencode, (hkept r' hr').decode_encode] at hdecode
  exact (Except.ok.inj hdecode).symm

/-- What is found are the records that are kept and suit what is looked for, in the order of their
places; if there is none, that is the failure. -/
theorem find_fenced (h : Fenced (fence root kept) root base disk) (hroom : Roomy root)
    (hkept : ∀ r, kept r → r.Modest) (hdomain : Names.isPlain wanted.domain = true)
    (hproject : Names.isPlain wanted.project = true)
    (hnames : ∀ n ∈ [wanted.domain, wanted.project], IsName n) :
    ∃ found : List PollingRecord, (∀ r, r ∈ found ↔ kept r ∧ r.Suits wanted) ∧
      found.Pairwise (fun a b => a.place.Precedes b.place) ∧
      find root wanted disk
        = if found.isEmpty then .error .recordNotFound disk else .ok found disk := by
  obtain ⟨files, hfiles, hmem, hordered⟩ := files_fenced h hroom hnames
  have hdecode : ∀ file ∈ files, ∀ r, (PollingRecord.decode file.2).toOption = some r ↔
      kept r ∧ r.place = shelf wanted.domain wanted.project ++ file.1 := by
    intro file hfile r
    obtain ⟨r', hr', hplace, hcontent⟩ := (hmem file.1 file.2).mp hfile
    rw [toOption_eq_some_iff, ← hcontent, (hkept r' hr').decode_encode]
    constructor
    · rintro ⟨⟩
      exact ⟨hr', hplace⟩
    · rintro ⟨hr, hsame⟩
      rw [eq_of_place h hkept hr' hr (hplace.trans hsame.symm)]
  refine ⟨(files.filterMap fun file => (PollingRecord.decode file.2).toOption).filter
    (·.answers wanted), fun r => ?_, ?_, ?_⟩
  · rw [List.mem_filter, List.mem_filterMap, PollingRecord.suits_iff, ← place_in_shelf_iff]
    constructor
    · rintro ⟨⟨file, hfile, hr⟩, hanswers⟩
      obtain ⟨hr, hplace⟩ := (hdecode file hfile r).mp hr
      exact ⟨hr, ⟨_, hplace⟩, hanswers⟩
    · rintro ⟨hr, ⟨q, hq⟩, hanswers⟩
      have hfile := (hmem q r.encode).mpr ⟨r, hr, hq, rfl⟩
      exact ⟨⟨_, hfile, (hdecode _ hfile r).mpr ⟨hr, hq⟩⟩, hanswers⟩
  · refine (List.pairwise_filterMap.mpr ?_).filter _
    refine (List.pairwise_map.mp hordered).imp_of_mem fun ha hb hprecedes r hr r' hr' => ?_
    rw [((hdecode _ ha r).mp hr).2, ((hdecode _ hb r').mp hr').2]
    exact (Place.precedes_append _).mpr hprecedes
  · simp only [find, bind, EStateM.bind, check, hdomain, hproject, if_true, Store.require_ok,
      hfiles, List.filterMap_map, Function.comp_def]
    split <;> rfl

end PollingLog

end ConfigStore
