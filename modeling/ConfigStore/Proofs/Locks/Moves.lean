import ConfigStore.Locks
import Mathlib.Data.List.Induction

/-!
# What moves a lock table

Everything that a caller does to a lock table comes down to single moves: a lock is taken, given
back or forgotten, or the table is looked at. Whatever moves were made, the count of a lock says
whether it is held, and the entries say which locks were taken and not forgotten since.

* `LockTable.ascending_distinct` and `LockTable.mem_distinct` describe the names that several locks
  are taken by.
* `LockTable.HasEntry` says that a lock has an entry, and `LockTable.Forgets` that forgetting it
  takes the entry out. Each change of a table has one lemma about entries and one about counts.
* `LockMove` lists the moves; `LockTable.replay` makes them.
* `LockMove.heldAfter` are the locks that are held after some moves, and
  `LockTable.held_replay_eq_zero_iff` says that the counts agree with it.
* `LockTable.Remembered` says that a lock was taken and not forgotten since, and
  `LockTable.hasEntry_replay_iff` that these are the locks with an entry.
-/

namespace ConfigStore

namespace LockTable

variable {t : LockTable} {key k : String} {keys : List String}

/-! ## Distinct names -/

theorem ascending_distinct (keys : List String) : (distinct keys).Pairwise (· < ·) :=
  Dict.ascending_keys _

theorem nodup_distinct (keys : List String) : (distinct keys).Nodup :=
  Dict.nodup_keys _

theorem mem_distinct : key ∈ distinct keys ↔ key ∈ keys := by
  have hinsert : ∀ d : Dict Unit,
      key ∈ ((keys.map (·, ())).foldl (fun d p => d.insert p.1 p.2) d).keys
        ↔ key ∈ d.keys ∨ key ∈ keys := by
    induction keys with
    | nil => simp
    | cons k keys ih =>
      intro d
      rw [List.map_cons, List.foldl_cons, ih, Dict.mem_keys_iff, Dict.mem_keys_iff,
        Dict.get?_insert, List.mem_cons]
      by_cases hkey : key = k <;> simp [hkey]
  rw [distinct, Dict.ofList, hinsert]
  exact or_iff_right List.not_mem_nil

theorem withEach_eq_foldr {α : Type} (keys : List String)
    (step : LockTable → Option (α × LockTable)) :
    withEach keys step = keys.foldr withLock step := by
  induction keys with
  | nil => rfl
  | cons key keys ih => rw [withEach, ih, List.foldr_cons]

/-! ## Entries and counts -/

/-- The table has an entry for a lock. -/
def HasEntry (t : LockTable) (key : String) : Prop := key ∈ t.holders.keys

instance (t : LockTable) (key : String) : Decidable (t.HasEntry key) :=
  inferInstanceAs (Decidable (_ ∈ _))

theorem hasEntry_iff : t.HasEntry key ↔ ∃ count, t.holders.get? key = some count :=
  Dict.mem_keys_iff

/-- Only a lock with an entry is held. -/
theorem hasEntry_of_held (h : t.held key ≠ 0) : t.HasEntry key := by
  rw [hasEntry_iff]
  cases hget : t.holders.get? key with
  | none => rw [held, hget] at h; exact absurd rfl h
  | some count => exact ⟨count, rfl⟩

theorem hasEntry_acquire : (t.acquire key).HasEntry k ↔ k = key ∨ t.HasEntry k := by
  rw [hasEntry_iff, hasEntry_iff, acquire, Dict.get?_insert]
  by_cases hkey : k = key <;> simp [hkey]

theorem held_acquire : (t.acquire key).held k = if k = key then t.held key + 1 else t.held k := by
  rw [held, acquire, Dict.get?_insert]
  split <;> rfl

theorem hasEntry_release : (t.release key).HasEntry k ↔ t.HasEntry k := by
  unfold release
  split
  next count hget =>
    rw [hasEntry_iff, hasEntry_iff, Dict.get?_insert]
    by_cases hkey : k = key <;> simp [hkey, hget]
  · exact Iff.rfl

theorem held_release : (t.release key).held k = if k = key then t.held key - 1 else t.held k := by
  unfold release
  split
  next count hget =>
    rw [held, Dict.get?_insert]
    split
    · simp [held, hget]
    · rfl
  next hget =>
    split
    next hkey => simp [held, hkey, hget]
    · rfl

theorem hasEntry_forget :
    (t.forget key).HasEntry k ↔ t.HasEntry k ∧ ¬(k = key ∧ t.held key = 0) := by
  unfold forget
  split
  next hfree =>
    rw [hasEntry_iff, hasEntry_iff, Dict.get?_erase]
    by_cases hkey : k = key <;> simp [hkey, hfree]
  next hheld => simp [hheld]

theorem held_forget : (t.forget key).held k = t.held k := by
  unfold forget
  split
  next hfree =>
    rw [held, Dict.get?_erase]
    split
    next hkey => rw [hkey, hfree]; rfl
    · rfl
  · rfl

/-- Forgetting a lock takes its entry out. -/
def Forgets (t : LockTable) (key : String) : Prop :=
  t.HasEntry key ∧ ¬(t.forget key).HasEntry key

theorem forgets_iff : t.Forgets key ↔ t.HasEntry key ∧ t.held key = 0 := by
  rw [Forgets, hasEntry_forget]
  by_cases hheld : t.held key = 0 <;> simp [hheld]

end LockTable

/-! ## Moves -/

/-- What a caller does to a lock table, one thing at a time. -/
inductive LockMove
  | acquire (key : String)
  | release (key : String)
  | forget (key : String)
  | look

namespace LockMove

/-- Makes a move. -/
def apply (t : LockTable) : LockMove → LockTable
  | .acquire key => t.acquire key
  | .release key => t.release key
  | .forget key => t.forget key
  | .look => t

/-- The size of the table, if the move looks at it. -/
def seen (t : LockTable) : LockMove → List Nat
  | .look => [t.size]
  | .acquire _ | .release _ | .forget _ => []

/-- What is held after a move. -/
def hold (held : List String) : LockMove → List String
  | .acquire key => key :: held
  | .release key => held.erase key
  | .forget _ | .look => held

/-- The locks that are held after some moves: taken, and not given back. -/
def heldAfter (moves : List LockMove) : List String := moves.foldl hold []

end LockMove

namespace LockTable

variable {t : LockTable} {key : String} {held : List String} {move : LockMove}
  {past : List LockMove}

/-- Makes one move after the other. -/
def replay (t : LockTable) (moves : List LockMove) : LockTable := moves.foldl LockMove.apply t

/-- The sizes that are seen during some moves. -/
def observed (t : LockTable) : List LockMove → List Nat
  | [] => []
  | move :: moves => move.seen t ++ observed (move.apply t) moves

theorem replay_append (t : LockTable) (moves moves' : List LockMove) :
    t.replay (moves ++ moves') = (t.replay moves).replay moves' :=
  List.foldl_append ..

theorem observed_append (t : LockTable) (moves moves' : List LockMove) :
    t.observed (moves ++ moves') = t.observed moves ++ (t.replay moves).observed moves' := by
  induction moves generalizing t with
  | nil => rfl
  | cons move moves ih =>
    rw [List.cons_append, observed, observed, ih, List.append_assoc]
    rfl

/-! ### Which locks are held -/

/-- A lock is counted as often as it is held. -/
def Agrees (t : LockTable) (held : List String) : Prop := ∀ key, t.held key = held.count key

theorem Agrees.apply (h : t.Agrees held) (move : LockMove) :
    (move.apply t).Agrees (move.hold held) := by
  intro k
  cases move with
  | acquire key =>
    show (t.acquire key).held k = (key :: held).count k
    rw [held_acquire, List.count_cons, h, h]
    by_cases hkey : k = key
    · simp [hkey]
    · simp [hkey, Ne.symm hkey]
  | release key =>
    show (t.release key).held k = (held.erase key).count k
    rw [held_release, List.count_erase, h, h]
    by_cases hkey : k = key
    · simp [hkey]
    · simp [hkey, Ne.symm hkey]
  | forget key => exact held_forget.trans (h k)
  | look => exact h k

theorem Agrees.replay (h : t.Agrees held) (moves : List LockMove) :
    (t.replay moves).Agrees (moves.foldl LockMove.hold held) := by
  induction moves generalizing t held with
  | nil => exact h
  | cons move moves ih => exact ih (h.apply move)

/-- The count of a lock says whether it is held. -/
theorem held_replay_eq_zero_iff (past : List LockMove) (key : String) :
    (replay {} past).held key = 0 ↔ key ∉ LockMove.heldAfter past := by
  have hagrees : (replay {} past).Agrees (LockMove.heldAfter past) :=
    Agrees.replay (fun _ => rfl) past
  rw [hagrees, List.count_eq_zero]

/-! ### Which locks have entries -/

/-- A lock was taken, and whenever it was forgotten since then, its entry was not taken out. -/
def Remembered (past : List LockMove) (key : String) : Prop :=
  ∃ before, before ++ [.acquire key] <+: past ∧
    ∀ later, before ++ [.acquire key] <+: later → later ++ [.forget key] <+: past →
      ¬(replay {} later).Forgets key

theorem not_remembered_nil (key : String) : ¬Remembered [] key := by
  rintro ⟨before, htaken, -⟩
  simp at htaken

/-- One more move takes the lock; or the lock was remembered, and is not forgotten by the move. -/
theorem remembered_concat : Remembered (past ++ [move]) key ↔
    move = .acquire key ∨
      Remembered past key ∧ ¬(move = .forget key ∧ (replay {} past).Forgets key) := by
  constructor
  · rintro ⟨before, htaken, hlater⟩
    rcases List.prefix_concat_iff.mp htaken with heq | hbefore
    · obtain ⟨-, hmove⟩ := List.append_inj' heq rfl
      exact .inl (List.singleton_inj.mp hmove).symm
    · refine .inr ⟨⟨before, hbefore, fun later hle hforget => ?_⟩, ?_⟩
      · exact hlater later hle (hforget.trans (List.prefix_append ..))
      · rintro ⟨rfl, hforgets⟩
        exact hlater past hbefore List.prefix_rfl hforgets
  · rintro (rfl | ⟨⟨before, htaken, hlater⟩, hmove⟩)
    · refine ⟨past, List.prefix_rfl, fun later hle hforget => ?_⟩
      -- nothing comes after the last move
      have htakenLength := hle.length_le
      have hforgetLength := hforget.length_le
      simp only [List.length_append, List.length_singleton] at htakenLength hforgetLength
      omega
    · refine ⟨before, htaken.trans (List.prefix_append ..), fun later hle hforget => ?_⟩
      rcases List.prefix_concat_iff.mp hforget with heq | hforget
      · obtain ⟨rfl, hlast⟩ := List.append_inj' heq rfl
        exact fun hforgets => hmove ⟨(List.singleton_inj.mp hlast).symm, hforgets⟩
      · exact hlater later hle hforget

/-- A lock has an entry as long as it is remembered. -/
theorem hasEntry_replay_iff (past : List LockMove) (key : String) :
    (replay {} past).HasEntry key ↔ Remembered past key := by
  induction past using List.reverseRecOn with
  | nil => exact iff_of_false List.not_mem_nil (not_remembered_nil key)
  | append_singleton past move ih =>
    rw [replay_append, remembered_concat, ← ih]
    cases move with
    | acquire key' =>
      show ((replay {} past).acquire key').HasEntry key ↔ _
      rw [hasEntry_acquire]
      simp [eq_comm]
    | release key' =>
      show ((replay {} past).release key').HasEntry key ↔ _
      rw [hasEntry_release]
      simp
    | forget key' =>
      show ((replay {} past).forget key').HasEntry key ↔ _
      rw [hasEntry_forget, forgets_iff, or_iff_right (by simp)]
      refine and_congr_right fun hentry => not_congr ?_
      constructor
      · rintro ⟨rfl, hfree⟩
        exact ⟨rfl, hentry, hfree⟩
      · rintro ⟨hmove, -, hfree⟩
        cases hmove
        exact ⟨rfl, hfree⟩
    | look => simp [replay, LockMove.apply]

end LockTable

end ConfigStore
