/-
PsyNode.Lib.WriteLog
**A LOG OF WRITES THAT CAN BE UNDONE.**

The abstract meaning of a key-value store with commit and rollback: a list of
writes made permanent, followed by a list of writes that can still be undone.
The value of a key is the last write to it that is still in the log; a write of
the value that the key has leaves no trace.  A position in the pending part is a
snapshot.

  * `undoTo_of_keeps` — a snapshot is restored exactly, as long as no commit
    came after it and nothing was undone BELOW it in between.
  * `valueAt_of_keeps` — under the same condition its values stay readable.
  * `undoTo_zero_of_no_commit` — undoing everything leads back to the state
    right after the last commit.

The condition on undoing is necessary: once the log has been cut below a
position, later writes fill that position with other contents.
-/
import Mathlib.Tactic

namespace PsyNode.Lib.WriteLog

open List Function

/-- Writes made permanent, then writes that can still be undone, each in order. -/
structure Log (K V : Type) where
  permanent : List (K × V)
  pending : List (K × V)

/-- What can happen to a log. -/
inductive Event (K V : Type)
  | record (writes : List (K × V))
  | undoTo (position : Nat)
  | commit

variable {K V : Type} [DecidableEq K]

/-- The last of the writes to a key. -/
def lastWrite (writes : List (K × V)) (k : K) : Option V :=
  (writes.reverse.find? (fun w => w.1 = k)).map (·.2)

variable (log : Log K V)

/-- The value of a key: the last write to it in the log, else `base`. -/
def Log.value (base : K → V) (k : K) : V :=
  (lastWrite (log.permanent ++ log.pending) k).getD (base k)

/-- The values when the pending part had length `position`. -/
def Log.valueAt (base : K → V) (position : Nat) (k : K) : V :=
  (lastWrite (log.permanent ++ log.pending.take position) k).getD (base k)

namespace Log

/-- Nothing written. -/
def empty : Log K V := ⟨[], []⟩

/-- Drops the pending writes from `position` on. -/
def undoTo (position : Nat) : Log K V :=
  { log with pending := log.pending.take position }

/-- Makes the pending writes permanent. -/
def commit : Log K V := ⟨log.permanent ++ log.pending, []⟩

variable [DecidableEq V] (base : K → V)

/-- One write; if it changes nothing it is not recorded. -/
def write (w : K × V) : Log K V :=
  if log.value base w.1 = w.2 then log else { log with pending := log.pending ++ [w] }

/-- A list of writes. -/
def record (writes : List (K × V)) : Log K V :=
  writes.foldl (fun log w => log.write base w) log

def apply : Event K V → Log K V
  | .record writes => log.record base writes
  | .undoTo position => log.undoTo position
  | .commit => log.commit

/-- A run of events. -/
def applyAll (events : List (Event K V)) : Log K V :=
  events.foldl (fun log event => log.apply base event) log

end Log

/-! ## §1. Snapshots. -/

/-- The events that leave the snapshot at `position` alone: writes, and undoing
down to it or to a later position. -/
def Event.Keeps (position : Nat) : Event K V → Prop
  | .record _ => True
  | .undoTo p => position ≤ p
  | .commit => False

section
variable [DecidableEq V] (base : K → V) {position : Nat}

/-- The part of the log below a snapshot. -/
def Log.SameBelow (position : Nat) (log log' : Log K V) : Prop :=
  log'.permanent = log.permanent ∧ position ≤ log'.pending.length ∧
    log'.pending.take position = log.pending.take position

theorem Log.record_keeps (writes : List (K × V)) {log : Log K V}
    (hpos : position ≤ log.pending.length) : SameBelow position log (log.record base writes) := by
  induction writes generalizing log with
  | nil => exact ⟨rfl, hpos, rfl⟩
  | cons w writes ih =>
    show SameBelow position log ((log.write base w).record base writes)
    rw [write]
    split
    next => exact ih hpos
    next =>
      have hlen : position ≤ (log.pending ++ [w]).length := by
        rw [length_append]
        omega
      obtain ⟨hperm, hle, htake⟩ := @ih { log with pending := log.pending ++ [w] } hlen
      exact ⟨hperm, hle, htake.trans (take_append_of_le_length hpos)⟩

/-- One event that keeps the snapshot changes neither the permanent part nor
the pending part below the position. -/
theorem Log.apply_keeps {log : Log K V} {e : Event K V}
    (hpos : position ≤ log.pending.length) (he : e.Keeps position) :
    SameBelow position log (log.apply base e) := by
  cases e with
  | record writes => exact record_keeps base writes hpos
  | undoTo p =>
    have hp : position ≤ p := he
    refine ⟨rfl, ?_, ?_⟩
    · simp only [apply, undoTo, length_take]; omega
    · simp only [apply, undoTo, take_take, Nat.min_eq_left hp]
  | commit => exact absurd he (by simp [Event.Keeps])

/-- The same for a whole run of such events. -/
theorem Log.applyAll_keeps (events : List (Event K V)) (log : Log K V)
    (hpos : position ≤ log.pending.length) (hes : ∀ e ∈ events, e.Keeps position) :
    SameBelow position log (log.applyAll base events) := by
  induction events generalizing log with
  | nil => exact ⟨rfl, hpos, rfl⟩
  | cons e es ih =>
    obtain ⟨hperm, hlen, htake⟩ := apply_keeps base hpos (hes e (by simp))
    obtain ⟨hperm', hlen', htake'⟩ := ih (log.apply base e) hlen (fun x hx => hes x (by simp [hx]))
    exact ⟨hperm'.trans hperm, hlen', htake'.trans htake⟩

/-- **A SNAPSHOT IS RESTORED EXACTLY.** -/
theorem Log.undoTo_of_keeps (log : Log K V) (events : List (Event K V))
    (hes : ∀ e ∈ events, e.Keeps log.pending.length) :
    (log.applyAll base events).undoTo log.pending.length = log := by
  obtain ⟨hperm, _, htake⟩ := applyAll_keeps base events log (le_refl _) hes
  unfold undoTo
  rw [hperm, htake, take_length]

/-- **UNDOING EVERYTHING** leads back to the last commit. -/
theorem Log.undoTo_zero_of_no_commit (log : Log K V) (hlog : log.pending = [])
    (events : List (Event K V)) (hes : ∀ e ∈ events, e.Keeps 0) :
    (log.applyAll base events).undoTo 0 = log := by
  have h := log.undoTo_of_keeps base events
  rw [hlog] at h
  exact h hes

/-- **A SNAPSHOT STAYS READABLE.** -/
theorem Log.valueAt_of_keeps (log : Log K V) (events : List (Event K V))
    (hes : ∀ e ∈ events, e.Keeps log.pending.length) :
    (log.applyAll base events).valueAt base log.pending.length = log.value base := by
  obtain ⟨hperm, _, htake⟩ := applyAll_keeps base events log (le_refl _) hes
  unfold valueAt value
  rw [hperm, htake, take_length]

end

/-! ## §2. Values. -/

variable (base : K → V)

/-- The values after a list of writes, in order. -/
def replay (writes : List (K × V)) : K → V :=
  writes.foldl (fun f w => update f w.1 w.2) base

theorem replay_append (ws ws' : List (K × V)) :
    replay base (ws ++ ws') = replay (replay base ws) ws' := by
  simp [replay, foldl_append]

theorem replay_concat (ws : List (K × V)) (w : K × V) :
    replay base (ws ++ [w]) = update (replay base ws) w.1 w.2 := by
  simp [replay, foldl_append]

/-- `replay` gives the last write to the key. -/
theorem replay_eq_last (ws : List (K × V)) (k : K) :
    replay base ws k = (lastWrite ws k).getD (base k) := by
  induction ws using List.reverseRecOn with
  | nil => rfl
  | append_singleton ws w ih =>
    rw [replay_concat]
    unfold lastWrite at ih ⊢
    by_cases hk : w.1 = k
    · subst hk
      simp
    · rw [update_of_ne (Ne.symm hk), ih]
      simp [hk]

variable {ws : List (K × V)} {base : K → V}

/-- A key that is not written keeps its value. -/
theorem replay_of_not_written {k : K} (h : ∀ w ∈ ws, w.1 ≠ k) : replay base ws k = base k := by
  rw [replay_eq_last, lastWrite, find?_eq_none.mpr (by simpa using h)]
  rfl

/-- A key whose writes all agree has their value. -/
theorem replay_of_written {k : K} {v : V}
    (hwritten : ∃ w ∈ ws, w.1 = k) (h : ∀ w ∈ ws, w.1 = k → w.2 = v) : replay base ws k = v := by
  -- the last write of `k` is one of them
  have hsome : (ws.reverse.find? (fun w => w.1 = k)).isSome := by simpa using hwritten
  obtain ⟨w, hw⟩ := Option.isSome_iff_exists.mp hsome
  rw [replay_eq_last, lastWrite, hw]
  exact h w (mem_reverse.mp (mem_of_find?_eq_some hw)) (by simpa using find?_some hw)

/-- Writes to keys that are written again later leave nothing behind. -/
theorem replay_overwritten {news olds : List (K × V)}
    (hkeys : ∀ w ∈ news, ∃ old ∈ olds, old.1 = w.1) :
    replay (replay base news) olds = replay base olds := by
  funext k
  by_cases hk : ∃ old ∈ olds, old.1 = k
  · have hsome : (olds.reverse.find? (fun w => w.1 = k)).isSome := by simpa using hk
    obtain ⟨old, hold⟩ := Option.isSome_iff_exists.mp hsome
    rw [replay_eq_last (replay base news), replay_eq_last base olds, lastWrite, hold]
    rfl
  · have hnot : ∀ old ∈ olds, old.1 ≠ k := fun old hold hold' => hk ⟨old, hold, hold'⟩
    rw [replay_of_not_written hnot, replay_of_not_written hnot]
    refine replay_of_not_written fun w hw hw' => hk ?_
    obtain ⟨old, hold, hold'⟩ := hkeys w hw
    exact ⟨old, hold, hold'.trans hw'⟩

variable (base : K → V)

theorem Log.value_eq_replay : log.value base = replay base (log.permanent ++ log.pending) :=
  funext fun k => (replay_eq_last base _ k).symm

theorem Log.valueAt_eq_replay (position : Nat) :
    log.valueAt base position = replay base (log.permanent ++ log.pending.take position) :=
  funext fun k => (replay_eq_last base _ k).symm

theorem Log.value_commit : log.commit.value base = log.value base := by
  funext k
  simp [value, commit]

end PsyNode.Lib.WriteLog
