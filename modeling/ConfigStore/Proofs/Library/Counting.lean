import ConfigStore.Proofs.Disk.Overlooking
import ConfigStore.Proofs.Files.Keeping
import ConfigStore.Proofs.Files.Restoring
import ConfigStore.Proofs.Library.Refusing
import ConfigStore.Proofs.Text.Numbers
import ConfigStore.Polling.Log
import ConfigStore.Store.Counter

/-!
# Counters and polling records beside the documents

The revision counter of a domain is a loose file beside the projects of that domain, and polling
records are kept in a directory that no domain has. To move a counter on and to put a polling record
leaves all documents where they are.

* `Library.putLoose` is a library with another loose file; `Library.Holds.putLoose` says when a tree
  holds it.
* `Library.count?` is the value of a counter. `Kept.current_eq` and `Kept.advance_eq` say that it is
  given and moved on where no directory has the place of the counter; `Kept.advance` says what a
  move does that may fail, and `Kept.putPolling` puts a polling record.
* `Library.Served` says what any request does to a library, and `Session.call_served` that it does
  so, if the counters are those of domains that are accepted.
-/

namespace ConfigStore

open Node Disk Deletion Files

/-! ## Loose files -/

/-- The library with another loose file. -/
def Library.putLoose (lib : Library) (domain name : String) (content : Bytes) : Library where
  shelf? := lib.shelf?
  loose? := fun domain' name' =>
    if (domain', name') = (domain, name) then some content else lib.loose? domain' name'

/-- The name of the revision counter of a domain. -/
def Layout.counterName : String := "revision"

theorem Layout.isName_counterName : IsName Layout.counterName := by decide

/-- A counter has not the name of a snapshot. -/
theorem Layout.counterName_ne_snapshotName (revision : Int64) :
    Layout.counterName ≠ Layout.snapshotName revision := by
  intro h
  have hsuffix : ".json".toList <:+ Layout.counterName.toList := by
    rw [h, Layout.snapshotName_eq, String.toList_append]
    exact List.suffix_append _ _
  revert hsuffix
  decide

variable {root : Path} {base : Place} {lib : Library} {disk disk' : Node} {names : List String}
  {domain name : String} {content : Bytes}

namespace Library

theorem loose?_putLoose_self (lib : Library) (domain name : String) (content : Bytes) :
    (lib.putLoose domain name content).loose? domain name = some content := if_pos rfl

theorem loose?_putLoose_of_ne {domain' name' : String} (content : Bytes)
    (h : (domain', name') ≠ (domain, name)) :
    (lib.putLoose domain name content).loose? domain' name' = lib.loose? domain' name' := if_neg h

theorem Valid.putLoose (h : lib.Valid) (hname : ∀ revision, name ≠ Layout.snapshotName revision)
    (domain : String) (content : Bytes) : (lib.putLoose domain name content).Valid where
  storable := h.storable
  shelf := h.shelf
  loose := by
    intro domain' name' content' hloose
    by_cases heq : (domain', name') = (domain, name)
    · cases heq
      exact hname
    · rw [loose?_putLoose_of_ne content heq] at hloose
      exact h.loose hloose

theorem Holds.putLoose (h : lib.Holds base disk) (hdomain : Names.isReserved domain = false)
    (hview : ∀ q, disk'.kindAt? q =
      if q = base ++ [domain] ++ [name] then some (.file content) else disk.kindAt? q) :
    (lib.putLoose domain name content).Holds base disk' := by
  have hother : ∀ q, q ≠ [domain, name] → disk'.kindAt? (base ++ q) = disk.kindAt? (base ++ q) := by
    intro q hq
    rw [hview, if_neg]
    rw [List.append_assoc, List.append_cancel_left_eq]
    exact hq
  have htmp : domain ≠ Layout.tmpName := Names.ne_tmpName_of_isReserved hdomain
  refine ⟨fun domain' project id q hdomain' => ?_, fun domain' name' content' hdomain' => ?_,
    fun domain' content' => ?_, fun q content' => ?_, fun domain' project id name' => ?_⟩
  · rw [List.append_assoc, hother _ (by simp [home]), ← List.append_assoc]
    exact h.documents domain' project id q hdomain'
  · by_cases heq : (domain', name') = (domain, name)
    · cases heq
      rw [hview, if_pos (by simp), loose?_putLoose_self]
      simp
    · rw [hother _ (by simpa using heq), loose?_putLoose_of_ne content heq]
      exact h.projects domain' name' content' hdomain'
  · rw [hother _ (by simp)]
    exact h.domains domain' content'
  · rw [hother _ (by simp [htmp.symm])]
    exact h.waiting q content'
  · rw [List.append_assoc, hother _ (by simp [aside]), ← List.append_assoc]
    exact h.vacant domain' project id name'

/-- What changes in the directory for polling records does not count. -/
theorem Holds.of_track (h : lib.Holds base disk)
    (hsame : ∀ q : Place, ¬[Layout.trackName] <+: q →
      disk'.kindAt? (base ++ q) = disk.kindAt? (base ++ q))
    (htrack : ∀ content, disk'.kindAt? (base ++ [Layout.trackName]) ≠ some (.file content)) :
    lib.Holds base disk' := by
  have hfree : ∀ {domain : String}, Names.isReserved domain = false → ∀ q : Place,
      ¬[Layout.trackName] <+: domain :: q := by
    intro domain hdomain q hle
    obtain ⟨heq, -⟩ := List.cons_prefix_cons.mp hle
    rw [← heq] at hdomain
    cases hdomain
  have htmp : ∀ q : Place, ¬[Layout.trackName] <+: Layout.tmpName :: q := fun q hle => by
    exact absurd (List.cons_prefix_cons.mp hle).1 (by decide)
  refine ⟨fun domain project id q hdomain => ?_, fun domain name content hdomain => ?_,
    fun domain content => ?_, fun q content => ?_, fun domain project id name => ?_⟩
  · rw [List.append_assoc, hsame (home domain project id ++ q) (hfree hdomain _),
      ← List.append_assoc]
    exact h.documents domain project id q hdomain
  · rw [hsame _ (hfree hdomain _)]
    exact h.projects domain name content hdomain
  · by_cases heq : domain = Layout.trackName
    · exact heq ▸ htrack content
    · rw [hsame _ (by simpa using Ne.symm heq)]
      exact h.domains domain content
  · rw [hsame _ (htmp _)]
    exact h.waiting q content
  · rw [List.append_assoc, hsame (aside domain project id ++ [name]) (htmp _), ← List.append_assoc]
    exact h.vacant domain project id name

end Library

open Library

/-! ## One file -/

namespace Files

/-- Directories below the root are added on the way to the last of them, all of them or some. -/
theorem makeDirs_grown (hg : Grounded root base disk) (hpieces : ∀ n ∈ names, IsPiece n)
    (hne : names ≠ []) : Grown (base ++ names) disk (makeDirs (root.descend names) disk).2 := by
  cases htext : checkText (root.descend names) with
  | error refusal =>
    rw [makeDirs, htext]
    exact .refl hg.distinct _
  | ok _ =>
    have hmade : Grown (base ++ Path.names names) disk (makeDirsFrom disk base names).2 :=
      makeDirsFrom_grown hg.distinct fun n hn => .inr (hpieces n hn)
    rwa [Path.names_eq_self hpieces, ← makeDirs_descend hg hpieces hne htext] at hmade

/-- Directories may have been added on the way to one below the root, if its path has a text that a
disk takes. -/
structure Paved (root : Path) (base : Place) (names : List String) (disk made : Node) : Prop where
  sprouted : Sprouted disk made
  grown : Grown (base ++ names) disk made
  deepened : Deepened (base.length + names.length) disk made
  text : made = disk ∨ checkText (root.descend names) = .ok ()

theorem Paved.refl (hd : disk.Distinct) : Paved root base names disk disk :=
  ⟨.refl hd, .refl hd _, .refl hd _, .inl rfl⟩

theorem makeDirs_paved (hg : Grounded root base disk) (hpieces : ∀ n ∈ names, IsPiece n)
    (hne : names ≠ []) : Paved root base names disk (makeDirs (root.descend names) disk).2 := by
  cases htext : checkText (root.descend names) with
  | error refusal =>
    rw [makeDirs, htext]
    exact .refl hg.distinct
  | ok _ =>
    have hmade : Deepened (base.length + (Path.names names).length) disk
        (makeDirsFrom disk base names).2 :=
      makeDirsFrom_deepened hg.distinct base fun n hn => .inr (hpieces n hn)
    rw [Path.names_eq_self hpieces, ← makeDirs_descend hg hpieces hne htext] at hmade
    have hpath : (root.descend names).pieces <+: root.stem ++ names :=
      Path.pieces_descend root hne hpieces ▸ List.prefix_refl _
    have hsprouted := makeDirs_sprouted hg (fun n hn => (hpieces n hn).noSlash) (.inr hpath)
    exact ⟨hsprouted, makeDirs_grown hg hpieces hne, hmade, .inr htext⟩

/-- A directory below the root can take a file. -/
structure Receives (root : Path) (base : Place) (names : List String) (name : String)
    (disk : Node) : Prop where
  dir : disk.kindAt? (base ++ names) = some .dir
  leaf : disk.kindAt? (base ++ names ++ [name]) ≠ some .dir
  isName : IsName name
  text : checkText ((root.descend names).join name) = .ok ()

/-- The file is put there, and nothing else changes. -/
theorem Receives.kindAt?_put (h : Receives root base names name disk) (hd : disk.Distinct)
    (content : Bytes) (q : Place) :
    (disk.put (base ++ names ++ [name]) (.file content)).kindAt? q
      = if q = base ++ names ++ [name] then some (.file content) else disk.kindAt? q :=
  kindAt?_put_file hd h.dir h.leaf content q

/-- A file below the root is written or not; either way directories may have been added on the way
to it. -/
theorem write_below (hg : Grounded root base disk) (hpieces : ∀ n ∈ names, IsPiece n)
    (hne : names ≠ []) (hname : IsPiece name) (content : Bytes) :
    ∃ made, Paved root base names disk made ∧
      ((∃ failure, (write ((root.descend names).join name) content).forgetful disk
          = .error failure made) ∨
        Receives root base names name made ∧
          (write ((root.descend names).join name) content).forgetful disk
            = .ok () (made.put (base ++ names ++ [name]) (.file content))) := by
  have hparent := Path.parent_descend_join root hne hpieces hname
  have hpaved := makeDirs_paved hg hpieces hne
  have houtcome := write_outcome ((root.descend names).join name) content disk []
  rw [hparent] at houtcome
  refine ⟨_, hpaved, ?_⟩
  rcases houtcome with ⟨failure, undo, herror, -⟩ | ⟨prior, disk', hok, -, hwrite⟩
  · refine .inl ⟨failure, ?_⟩
    simp only [LoggedAction.forgetful, herror]
  · have htext := (writeFile_eq_ok_iff.mp hwrite).2.1
    obtain ⟨here, hleads, hdir, hfits, hleaf, rfl⟩ := writeFile_inv hname hwrite
    obtain rfl := Leads.place_eq (hg.leads.mono fun _ => hpaved.grown.dir) hpieces hleads
    refine .inr ⟨⟨hdir, hleaf, hfits, htext⟩, ?_⟩
    simp only [LoggedAction.forgetful, hok]

end Files

/-! ## Counters -/

/-- What is written for a number stands for that number. -/
theorem Counter.value?_encode (n : Int64) : value? (Utf8.encode (toString n.toInt)) = some n := by
  rw [value?, Utf8.decode?_encode]
  simp only [Numeral.trim_toString, Numeral.toString_ne_empty, Numeral.integer?_toString, bind,
    Option.bind, if_false, Except.toOption]

/-- The value of the counter of a domain; none if its file holds no number. -/
def Library.count? (lib : Library) (domain : String) : Option Int64 :=
  match lib.loose? domain Layout.counterName with
  | none => some 0
  | some content => Counter.value? content

/-- A domain with a counter: its name is accepted, and a file system takes it. -/
structure Counter.IsDomain (domain : String) : Prop where
  plain : Names.isPlain domain = true
  notReserved : Names.isReserved domain = false
  fits : Fits domain

theorem Counter.IsDomain.isName (h : IsDomain domain) : ∀ n ∈ [domain], IsName n :=
  List.forall_mem_singleton.mpr ⟨Names.isPiece_of_isPlain h.plain, h.fits.2, h.fits.1⟩

theorem Counter.checkText_path (hroom : Roomy root) (h : IsDomain domain) :
    checkText ((root.descend [domain]).join Layout.counterName) = .ok () := by
  rw [← Path.descend_concat]
  refine hroom.checkText_descend ?_ ?_
  · exact List.forall_mem_append.mpr
      ⟨h.isName, List.forall_mem_singleton.mpr Layout.isName_counterName⟩
  · have hfits := h.fits.1
    have hlength : Layout.counterName.utf8ByteSize = 8 := by decide
    simp only [List.cons_append, List.nil_append, Path.width_cons, Path.width_nil]
    omega

/-- A counter that is moved on is written into the directory of its domain, which is added if there
is none; if it cannot be moved on, that directory is all that may have been added. -/
theorem Counter.advance_outcome (hg : Grounded root base disk) (hdomain : IsPiece domain) :
    ∃ made, Paved root base [domain] disk made ∧
      ((∃ failure, Counter.advance root domain disk = .error failure made) ∨
        ∃ n, Receives root base [domain] Layout.counterName made ∧
          Counter.advance root domain disk =
            .ok n (made.put (base ++ [domain] ++ [Layout.counterName])
              (.file (Utf8.encode (toString n.toInt))))) := by
  rcases (looks_current root domain).outcome disk with ⟨n, hcurrent⟩ | ⟨failure, hcurrent⟩
  · have hpath : Layout.counter root domain = (root.descend [domain]).join Layout.counterName := rfl
    obtain ⟨made, hpaved, ⟨failure, hwrite⟩ | ⟨hreceives, hwrite⟩⟩ :=
      write_below hg (List.forall_mem_singleton.mpr hdomain) (List.cons_ne_nil _ _)
        Layout.isName_counterName.toIsPiece (Utf8.encode (toString (n + 1).toInt))
    · refine ⟨made, hpaved, .inl ⟨failure, ?_⟩⟩
      simp only [Counter.advance, bind, EStateM.bind, hcurrent, hpath, hwrite]
    · refine ⟨made, hpaved, .inr ⟨n + 1, hreceives, ?_⟩⟩
      simp only [Counter.advance, bind, EStateM.bind, hcurrent, hpath, hwrite]
      rfl
  · refine ⟨disk, .refl hg.distinct, .inl ⟨failure, ?_⟩⟩
    simp only [Counter.advance, bind, EStateM.bind, hcurrent]

namespace Kept

/-- A counter is given if no directory has its place. -/
theorem current_eq (h : Kept root base lib disk) (hroom : Roomy root)
    (hdomain : Counter.IsDomain domain)
    (hbare : disk.kindAt? (base ++ [domain, Layout.counterName]) ≠ some .dir) {n : Int64}
    (hcount : lib.count? domain = some n) : Counter.current root domain disk = .ok n disk := by
  have htext := Counter.checkText_path hroom hdomain
  have hsplit :
      base ++ [domain, Layout.counterName] = base ++ [domain] ++ [Layout.counterName] := by simp
  have hpath : Layout.counter root domain = (root.descend [domain]).join Layout.counterName := rfl
  cases hkind : disk.kindAt? (base ++ [domain, Layout.counterName]) with
  | none =>
    have hnone : lib.loose? domain Layout.counterName = none := by
      refine Option.eq_none_iff_forall_ne_some.mpr fun content hloose => ?_
      rw [← h.holds.projects _ _ _ hdomain.notReserved, hkind] at hloose
      cases hloose
    have hread := readFile_absent h.grounded.leads h.grounded.isDir hdomain.isName
      Layout.isName_counterName htext (hsplit ▸ hkind)
      (h.holds.unblocked_domain h.grounded.isDir domain)
    rw [Library.count?, hnone] at hcount
    simp only [Counter.current, bind, EStateM.bind, hpath, read?_of_notFound hread]
    cases hcount
    rfl
  | some kind =>
    cases kind with
    | dir => exact absurd hkind hbare
    | file content =>
      have hdir : disk.kindAt? (base ++ [domain]) = some .dir :=
        kindAt?_eq_dir_of_append (List.cons_ne_nil Layout.counterName [])
          (by rw [← hsplit, hkind]; simp)
      have hread := readFile_join (h.grounded.leads.descend hdomain.isName hdir) hdir
        Layout.isName_counterName htext (hsplit ▸ hkind)
      rw [Library.count?, (h.holds.projects _ _ _ hdomain.notReserved).mp hkind] at hcount
      simp only [Counter.current, bind, EStateM.bind, hpath, read?_of_ok hread]
      simp only [hcount]
      rfl

theorem of_grown (h : Kept root base lib disk) {front : List String}
    (hgrown : Grown (base ++ front) disk disk') (hshort : front.length < 3) :
    Kept root base lib disk' :=
  ⟨h.valid, h.grounded.of_grown hgrown, h.holds.of_grown hgrown hshort⟩

/-- The counter of a domain is moved on, or nothing that counts changes. -/
theorem advance (h : Kept root base lib disk) (hplain : Names.isPlain domain = true)
    (hdomain : Names.isReserved domain = false) :
    ∃ disk', (∃ n, Counter.advance root domain disk = .ok n disk' ∧ Kept root base
        (lib.putLoose domain Layout.counterName (Utf8.encode (toString n.toInt))) disk') ∨
      (∃ failure, Counter.advance root domain disk = .error failure disk') ∧
        Kept root base lib disk' := by
  obtain ⟨made, hpaved, ⟨failure, herror⟩ | ⟨n, hreceives, hok⟩⟩ :=
    Counter.advance_outcome h.grounded (Names.isPiece_of_isPlain hplain)
  · exact ⟨made, .inr ⟨⟨failure, herror⟩, h.of_grown hpaved.grown (by simp)⟩⟩
  · have hmade := h.of_grown hpaved.grown (by simp)
    have hput := hreceives.kindAt?_put hmade.grounded.distinct (Utf8.encode (toString n.toInt))
    exact ⟨_, .inl ⟨n, hok, hmade.valid.putLoose Layout.counterName_ne_snapshotName _ _,
      hmade.grounded.put_file hreceives.dir hreceives.leaf _, hmade.holds.putLoose hdomain hput⟩⟩

/-- A counter is moved on if no directory has its place. -/
theorem advance_eq (h : Kept root base lib disk) (hroom : Roomy root)
    (hdomain : Counter.IsDomain domain)
    (hbare : disk.kindAt? (base ++ [domain, Layout.counterName]) ≠ some .dir) {n : Int64}
    (hcount : lib.count? domain = some n) :
    ∃ disk', Counter.advance root domain disk = .ok (n + 1) disk' ∧ Kept root base
      (lib.putLoose domain Layout.counterName (Utf8.encode (toString (n + 1).toInt))) disk' := by
  have hcurrent := h.current_eq hroom hdomain hbare hcount
  have hpath : Layout.counter root domain = (root.descend [domain]).join Layout.counterName := rfl
  obtain ⟨disk', undo, hwrite, -⟩ := write_descend h.grounded hdomain.isName (List.cons_ne_nil _ _)
    Layout.isName_counterName (Counter.checkText_path hroom hdomain)
    (h.holds.unblocked_domain h.grounded.isDir domain)
    (by rwa [List.append_assoc]) (Utf8.encode (toString (n + 1).toInt)) []
  have hok : Counter.advance root domain disk = .ok (n + 1) disk' := by
    simp only [Counter.advance, bind, EStateM.bind, hcurrent, hpath, LoggedAction.forgetful,
      hwrite]
    rfl
  obtain ⟨last, ⟨m, hend, hkept⟩ | ⟨⟨failure, hend⟩, -⟩⟩ :=
    h.advance hdomain.plain hdomain.notReserved
  · cases hok.symm.trans hend
    exact ⟨disk', hok, hkept⟩
  · cases hok.symm.trans hend

end Kept

/-! ## Polling records -/

theorem PollingLog.isPiece_of_check {what name : String} (h : check what name = .ok ()) :
    IsPiece name := by
  rw [check] at h
  split at h
  next hplain => exact Names.isPiece_of_isPlain hplain
  · cases h

/-- A polling record is refused for one of its names, or its file is written; all names on the way
to it are pieces. -/
theorem PollingLog.put_cases (root : Path) (record : PollingRecord) (disk : Node) :
    (∃ failure, put root record disk = .error failure disk) ∨
      (∀ n ∈ [Layout.trackName, record.domain, record.project, revisionName record], IsPiece n) ∧
        IsPiece (record.sessionId ++ ".json") ∧
        put root record disk = (do
          (Files.write ((root.descend [Layout.trackName, record.domain, record.project,
            revisionName record]).join (record.sessionId ++ ".json")) record.encode).forgetful
          return record) disk := by
  rcases hdomain : check "domain" record.domain with failure | ⟨⟩
  · exact .inl ⟨failure, by simp only [put, bind, EStateM.bind, hdomain, Store.require_error]⟩
  rcases hproject : check "project" record.project with failure | ⟨⟩
  · exact .inl ⟨failure, by simp only [put, bind, EStateM.bind, hdomain, hproject, Store.require_ok,
      Store.require_error]⟩
  rcases hrevision : check "revision" (revisionName record) with failure | ⟨⟩
  · exact .inl ⟨failure, by simp only [put, bind, EStateM.bind, hdomain, hproject, hrevision,
      Store.require_ok, Store.require_error]⟩
  rcases hsession : check "session id" record.sessionId with failure | ⟨⟩
  · exact .inl ⟨failure, by simp only [put, bind, EStateM.bind, hdomain, hproject, hrevision,
      hsession, Store.require_ok, Store.require_error]⟩
  refine .inr ⟨?_, Names.isPiece_json (isPiece_of_check hsession), ?_⟩
  · simp only [List.mem_cons, List.not_mem_nil, or_false, forall_eq_or_imp, forall_eq]
    exact ⟨Layout.isName_trackName.toIsPiece, isPiece_of_check hdomain, isPiece_of_check hproject,
      isPiece_of_check hrevision⟩
  · have hpath : Layout.track root record.domain record.project (revisionName record)
        record.sessionId = (root.descend [Layout.trackName, record.domain, record.project,
          revisionName record]).join (record.sessionId ++ ".json") := rfl
    simp only [put, bind, EStateM.bind, hdomain, hproject, hrevision, hsession, Store.require_ok,
      hpath]

theorem PollingLog.endsIn_put {P : Node → Prop} {record : PollingRecord} (hP : P disk)
    (hwrite : (∀ n ∈ [Layout.trackName, record.domain, record.project, revisionName record],
        IsPiece n) → IsPiece (record.sessionId ++ ".json") →
      EndsIn P (Files.write (Layout.track root record.domain record.project (revisionName record)
        record.sessionId) record.encode).forgetful disk) :
    EndsIn P (PollingLog.put root record) disk := by
  rcases put_cases root record disk with ⟨failure, herror⟩ | ⟨hpieces, hsession, hput⟩
  · exact .of_error failure herror hP
  · obtain ⟨disk', hends, hP'⟩ :=
      (hwrite hpieces hsession).bind fun _ _ _ hend => .of_ok record rfl hend
    refine ⟨disk', ?_, hP'⟩
    rw [Ends, hput]
    exact hends

/-- A polling record is put beside the documents. -/
theorem Kept.putPolling (h : Kept root base lib disk) (record : PollingRecord) :
    EndsIn (Kept root base lib) (PollingLog.put root record) disk := by
  refine PollingLog.endsIn_put h fun hpieces hsession => ?_
  have hpath : Layout.track root record.domain record.project (PollingLog.revisionName record)
      record.sessionId = (root.descend [Layout.trackName, record.domain, record.project,
        PollingLog.revisionName record]).join (record.sessionId ++ ".json") := rfl
  obtain ⟨made, hpaved, hend⟩ := write_below h.grounded hpieces (List.cons_ne_nil _ _) hsession
    record.encode
  have hgrown := hpaved.grown
  have hg := h.grounded.of_grown hgrown
  have hsame : ∀ q : Place, ¬[Layout.trackName] <+: q →
      made.kindAt? (base ++ q) = disk.kindAt? (base ++ q) := by
    intro q hq
    cases q with
    | nil => rw [List.append_nil, hg.isDir, h.grounded.isDir]
    | cons n q =>
      refine hgrown.eq_of_not_above fun hle => hq ?_
      have hle' := (List.prefix_append_right_inj base).mp hle
      rw [(List.cons_prefix_cons.mp hle').1]
      exact ⟨q, rfl⟩
  have hkept : Kept root base lib made := ⟨h.valid, hg, h.holds.of_track hsame fun content => by
    rw [Ne, hgrown.file_iff]
    exact h.holds.domains _ content⟩
  rw [hpath]
  rcases hend with ⟨failure, hwrite⟩ | ⟨hreceives, hwrite⟩
  · exact .of_error failure hwrite hkept
  · have hput := hreceives.kindAt?_put hgrown.distinct record.encode
    refine .of_ok () hwrite ⟨h.valid, hg.put_file hreceives.dir hreceives.leaf _,
      hkept.holds.of_track (fun q hq => ?_) fun content => ?_⟩
    · rw [hput, if_neg]
      rw [List.append_assoc, List.append_cancel_left_eq]
      rintro rfl
      exact hq ⟨_, rfl⟩
    · rw [hput, if_neg (by simp)]
      exact hkept.holds.domains _ content

/-! ## Requests -/

/-- The counter in a request is that of a domain that is accepted. -/
def Request.CountsDomain : Request → Prop
  | .advance domain => Names.isPlain domain = true ∧ Names.isReserved domain = false
  | _ => True

/-- What a request with this result has done to the library: a counter may have been moved on, and
otherwise it is what a request about documents does. -/
def Library.Served (max : Nat) (lib : Library) :
    Request → Except Failure Answer → Library → Prop
  | .advance domain, result, lib' => (∃ n, result = .ok (.revision n) ∧
      lib' = lib.putLoose domain Layout.counterName (Utf8.encode (toString n.toInt))) ∨ lib' = lib
  | request, result, lib' => lib.After max request result lib'

/-- A request does to the library what it says and keeps the invariant, whatever it is about. -/
theorem Session.call_served {session : Session} (h : session.store.Ready base lib session.state)
    {request : Request} (hcounts : request.CountsDomain) :
    ∃ result lib' state', session.call request = (result, { session with state := state' }) ∧
      session.store.Ready base lib' state' ∧
      lib.Served session.store.maxHistory request result lib' := by
  cases request with
  | advance domain =>
    obtain ⟨disk', ⟨n, hok, hkept⟩ | ⟨⟨failure, herror⟩, hkept⟩⟩ :=
      h.kept.advance hcounts.1 hcounts.2
    · refine ⟨_, _, _, call_of_disk_ok rfl hok, ⟨h.room, hkept, fun cache hcache => ?_⟩,
        .inl ⟨n, rfl, rfl⟩⟩
      exact (h.agrees cache hcache).of_head?_eq fun _ _ _ => rfl
    · exact ⟨_, lib, _, call_of_disk_error rfl herror, ⟨h.room, hkept, h.agrees⟩, .inr rfl⟩
  | putPolling record =>
    obtain ⟨disk', ⟨answer, hok⟩ | ⟨failure, herror⟩, hkept⟩ := h.kept.putPolling record
    · exact ⟨_, lib, _, call_of_disk_ok rfl hok, ⟨h.room, hkept, h.agrees⟩, rfl⟩
    · exact ⟨_, lib, _, call_of_disk_error rfl herror, ⟨h.room, hkept, h.agrees⟩, rfl⟩
  | _ => exact call_kept h trivial

end ConfigStore
