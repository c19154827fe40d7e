/-
PsyNode.Rollback.Recovery
**CRASHES AND RESTARTS.**  A rollback that is interrupted anywhere, and any
number of times, is started again from the plan as it was last persisted.

  * the marker stands at the target only where every data phase has had its
    effect;
  * a run that returns leaves what one run without interruptions leaves.

Each piece of the program comes with two lemmas: where it may be interrupted
(`_safe`), and what it does when it is not (`_run`).
-/
import PsyNode.Rollback.Progress

namespace PsyNode.Rollback

open Lib RollbackPlan RollbackExecutionStore ExecutableRollbackPhase List
open Prog hiding pure

section
variable {σ : Type} {store : RollbackExecutionStore σ} {plan : RollbackPlan}
  {data phases : List ExecutableRollbackPhase} {s₀ : σ}

/-! ## §1. Reconciling. -/

variable (store plan data s₀) in
/-- The program keeps the invariant where it is interrupted, and is done when it returns. -/
abbrev Recovering {α : Type} (program : RollbackProg α) (w : World σ) : Prop :=
  Safe store.device (Progress store plan data s₀) (fun _ w => Done store plan data s₀ w)
    program w

variable {k : Nat} {w : World σ} {crash : World σ → Prop}

theorem reconcilePending_safe {phase : ExecutableRollbackPhase} (hcrash : crash w) :
    Safe store.device crash (fun _ w' => w' = w)
      (reconcilePending phases (plan.upTo k) phase) w := by
  unfold reconcilePending
  split
  next => exact Safe.mono (requireMarker_safe hcrash) (fun _ _ h => h.1)
  next =>
    split
    next => exact Safe.mono (verifyComplete_safe hcrash) (fun _ _ h => h.1)
    next => exact Safe.mono (verifyData_safe hcrash) (fun _ _ h => h.1)

variable {s : σ} {message : String → String}

namespace FirstRun

variable (F : FirstRun store plan data phases s₀)
include F

theorem present_backups (h : Present store plan data s) :
    Present store plan data (store.deletePostTargetBackups plan s) :=
  fun phase hphase hdata => F.lawful.backups_effect phase s hdata (h phase hphase hdata)

/-- Backups may be deleted in any world from which the deletion leads to the same store. -/
theorem deleteBackups_safe {post : Unit → World σ → Prop} (hbefore : crash ⟨s, plan.upTo k⟩)
    (hafter : crash ⟨store.deletePostTargetBackups plan s, plan.upTo k⟩)
    (htorn : ∀ s', store.torn (.deletePostTargetBackups (plan.upTo k)) s s' →
      crash ⟨s', plan.upTo k⟩)
    (hpost : post () ⟨store.deletePostTargetBackups plan s, plan.upTo k⟩) :
    Safe store.device crash post
      (attempt (.deletePostTargetBackups (plan.upTo k)) message) ⟨s, plan.upTo k⟩ := by
  rw [← F.lawful.backups_upTo k] at hafter hpost
  exact write_safe rfl hbefore hafter (fun _ => htorn) hpost

/-- The loop of reconciliation completes the phases one by one. -/
theorem reconcileLoop_safe (hk : k ≤ data.length + 2)
    (hcrash : ∀ j, k ≤ j → j ≤ data.length + 2 → crash ⟨s, plan.upTo j⟩) :
    Safe store.device crash (fun plan' w => plan' = plan.upTo (data.length + 2) ∧
        w = ⟨s, plan.upTo (data.length + 2)⟩)
      (phases.zipIdx.foldlM (reconcilePhase phases) (plan.upTo k)) ⟨s, plan.upTo k⟩ := by
  refine Safe.mono (Safe.foldlM
    (I := fun i plan' w => ∃ j, i ≤ j ∧ k ≤ j ∧ j ≤ data.length + 2 ∧ plan' = plan.upTo j ∧
      w = ⟨s, plan.upTo j⟩) ?_ ?_) ?_
  · rintro i phase _ _ hphase ⟨j, hij, hkj, hle, rfl, rfl⟩
    have hi := F.lt_of_phase hphase
    unfold reconcilePhase
    rw [isCompleted_upTo (F.length_plan ▸ hi)]
    split
    next hlt => exact ⟨j, of_decide_eq_true hlt, hkj, hle, rfl, rfl⟩
    next hlt =>
      have hge : ¬ i < j := fun h => hlt (decide_eq_true h)
      obtain rfl : i = j := by omega
      refine Safe.bind (reconcilePending_safe (hcrash i hkj hle)) ?_
      rintro _ _ rfl
      dsimp only
      rw [completePhase_upTo]
      refine Safe.bind (Q := fun _ w' => w' = ⟨s, plan.upTo (i + 1)⟩)
        (persist_safe (hcrash i hkj hle) (hcrash (i + 1) (by omega) (by omega)) rfl) ?_
      rintro _ _ rfl
      exact ⟨i + 1, by omega, by omega, by omega, rfl, rfl⟩
  · exact ⟨k, Nat.zero_le k, le_rfl, hk, rfl, rfl⟩
  · rintro plan' w ⟨j, hj, _, hle, rfl, rfl⟩
    rw [F.length_phases] at hj
    obtain rfl : j = data.length + 2 := by omega
    exact ⟨rfl, rfl⟩

/-- **RECONCILIATION** of a committed rollback. -/
theorem reconcileTarget_safe {final : σ} (hbackups : store.deletePostTargetBackups plan s = final)
    (hmarker : store.latestCheckpointMarker s = plan.targetCheckpointId)
    (hpresent : Present store plan data s) (hk : k ≤ data.length + 2)
    (hlatest : plan.latestCheckpointId = plan.targetCheckpointId → k = data.length + 2)
    (hrun : store.pendingCounterHighWater final = plan.latestPendingId →
      Uninterrupted store plan s₀ ⟨final, plan.upTo (data.length + 2)⟩) :
    Recovering store plan data s₀ (reconcileTarget (plan.upTo k) phases) ⟨s, plan.upTo k⟩ := by
  subst hbackups
  -- once the backups are deleted only the persisted plan changes
  have hcrash : ∀ j, k ≤ j → j ≤ data.length + 2 →
      Progress store plan data s₀ ⟨store.deletePostTargetBackups plan s, plan.upTo j⟩ := by
    intro j hkj hj
    exact Progress.committed (F.lawful.backups_backups s)
      ((F.lawful.backups_marker s).trans hmarker) (F.present_backups hpresent) hj
      (fun h => by have := hlatest h; omega) hrun
  refine Safe.bind (Q := fun _ w =>
    w = ⟨store.deletePostTargetBackups plan s, plan.upTo k⟩) (F.deleteBackups_safe
      (.committed rfl hmarker hpresent hk hlatest hrun) (hcrash k le_rfl hk) ?_ rfl) ?_
  · intro s' htorn
    obtain ⟨hsame, hmarker', hpresent'⟩ := F.lawful.backups_torn k s s' htorn
    exact .committed hsame (hmarker'.trans hmarker)
      (fun phase hphase hdata => hpresent' phase hdata (hpresent phase hphase hdata)) hk hlatest
      hrun
  rintro _ _ rfl
  refine Safe.bind (verifyComplete_safe (hcrash k le_rfl hk)) ?_
  rintro _ _ ⟨rfl, _⟩
  refine Safe.bind (F.reconcileLoop_safe hk hcrash) ?_
  rintro _ _ ⟨rfl, rfl⟩
  refine Safe.mono (requireCounter_safe (hcrash _ hk le_rfl)) ?_
  rintro _ _ ⟨rfl, hcounter⟩
  exact ⟨hcrash _ hk le_rfl, rfl, hrun hcounter⟩

end FirstRun

/-! ## §2. Runs without interruptions. -/

variable (store plan data s₀) in
/-- What a rollback without interruptions checks on its way, the last counter apart. -/
structure Passes : Prop where
  marker : store.latestCheckpointMarker s₀ = plan.latestCheckpointId
  counter : store.pendingCounterHighWater s₀ = plan.latestPendingId
  present : Present store plan data (stage store plan data s₀ data.length)
  counter_rolled : store.pendingCounterHighWater (stage store plan data s₀ data.length) =
    plan.latestPendingId
  present_backups : Present store plan data
    (store.deletePostTargetBackups plan (stage store plan data s₀ data.length))

namespace FirstRun

variable (F : FirstRun store plan data phases s₀)
include F

theorem deleteBackups_run :
    (attempt (.deletePostTargetBackups (plan.upTo k)) message).run store.device
      ⟨s, plan.upTo k⟩ = (.ok (), ⟨store.deletePostTargetBackups plan s, plan.upTo k⟩) := by
  rw [← F.lawful.backups_upTo k]
  exact run_attempt rfl

theorem marker_rolled (hmarker : store.latestCheckpointMarker s₀ = plan.latestCheckpointId) :
    store.latestCheckpointMarker
      (store.deletePostTargetBackups plan (stage store plan data s₀ data.length)) =
      plan.latestCheckpointId := by
  rw [F.lawful.backups_marker, F.marker_stage, hmarker]

theorem marker_final (hmarker : store.latestCheckpointMarker s₀ = plan.latestCheckpointId) :
    store.latestCheckpointMarker (finalStore store plan data s₀) = plan.targetCheckpointId := by
  by_cases h : plan.latestCheckpointId = plan.targetCheckpointId
  · rw [finalStore_of_eq h, F.marker_rolled hmarker, h]
  · rw [finalStore_of_ne h]
    exact F.lawful.write_marker _ _

omit F in
theorem writeMarker_of_eq (h : plan.latestCheckpointId = plan.targetCheckpointId) :
    writeMarker (plan.upTo k) = pure () := if_neg (not_not.mpr h)

omit F in
theorem writeMarker_of_ne (h : plan.latestCheckpointId ≠ plan.targetCheckpointId) :
    writeMarker (plan.upTo k) = attempt (.writeLatestCheckpointMarker plan.targetCheckpointId)
      (fun _ => "failed to write rollback commit marker") := if_pos h

omit F in
theorem writeMarker_run : (writeMarker (plan.upTo k)).run store.device
      ⟨store.deletePostTargetBackups plan (stage store plan data s₀ data.length), plan.upTo k⟩ =
      (.ok (), ⟨finalStore store plan data s₀, plan.upTo k⟩) := by
  by_cases h : plan.latestCheckpointId = plan.targetCheckpointId
  · rw [writeMarker_of_eq h, finalStore_of_eq h]
    rfl
  · rw [writeMarker_of_ne h, finalStore_of_ne h]
    exact run_attempt rfl

theorem commitMarker_run (h : Passes store plan data s₀) :
    (commitMarker (plan.upTo k) phases).run store.device
      ⟨stage store plan data s₀ data.length, plan.upTo k⟩ =
      (.ok (), ⟨finalStore store plan data s₀, plan.upTo k⟩) := by
  unfold commitMarker
  rw [run_bind (requireCounter_run h.counter_rolled), run_bind F.deleteBackups_run,
    run_bind (verifyComplete_run (F.marker_rolled h.marker)
      (F.checks_iff.mpr h.present_backups)), run_bind writeMarker_run]
  exact requireMarker_run (F.marker_final h.marker)

variable {phase : ExecutableRollbackPhase} {i : Nat}

/-- The worlds between the phases of a run without interruptions. -/
theorem runPhase_run (h : Passes store plan data s₀) (hphase : phases[i]? = some phase) :
    (runPhase phases (plan.upTo i) (phase, i)).run store.device
      ⟨if i = data.length + 2 then finalStore store plan data s₀ else stage store plan data s₀ i,
        plan.upTo i⟩ =
      (.ok (plan.upTo (i + 1)), ⟨if i + 1 = data.length + 2 then finalStore store plan data s₀
          else stage store plan data s₀ (i + 1), plan.upTo (i + 1)⟩) := by
  have hi := F.lt_of_phase hphase
  have hmarker : store.latestCheckpointMarker (stage store plan data s₀ i) =
      plan.latestCheckpointId := (F.marker_stage i).trans h.marker
  -- what the phase itself does
  have hpending : (runPending phases (plan.upTo i) phase).run store.device
      ⟨stage store plan data s₀ i, plan.upTo i⟩ =
      (.ok (), ⟨if i + 1 = data.length + 2 then finalStore store plan data s₀
        else stage store plan data s₀ (i + 1), plan.upTo i⟩) := by
    unfold runPending
    rcases F.phase_cases hphase with ⟨hdata, hisData⟩ | ⟨rfl, hverify, hnot⟩ | ⟨rfl, hlast⟩
    · have hlt := (List.getElem?_eq_some_iff.mp hdata).1
      rw [if_neg hisData.1, if_neg hisData.2, if_neg (by omega), run_bind executeData_run,
        F.lawful.effect_upTo, ← stage_succ hdata]
      exact requireMarker_run ((F.marker_stage _).trans h.marker)
    · rw [if_neg hnot, if_pos hverify, if_neg (by omega), stage_of_le (Nat.le_succ _)]
      exact verifyComplete_run hmarker (F.checks_iff.mpr h.present)
    · rw [if_pos hlast, if_pos rfl, stage_of_le (Nat.le_succ _)]
      exact F.commitMarker_run h
  unfold runPhase
  rw [isCompleted_upTo (F.length_plan ▸ hi), if_neg (by simp), if_neg (by omega),
    run_bind (requireMarker_run hmarker), run_bind hpending]
  dsimp only
  rw [completePhase_upTo, run_bind (run_attempt rfl)]
  rfl

theorem committed_upTo {marker : Nat} : (plan.upTo k).committed marker ↔
    marker = plan.targetCheckpointId ∧
      (plan.latestCheckpointId ≠ plan.targetCheckpointId ∨ data.length + 2 ≤ k) := by
  unfold committed
  rw [decide_eq_true_iff, all_completed_upTo, F.length_plan]
  rfl

/-- Before the branch: the plan is valid, the marker is one of the two, the counter is right. -/
theorem executeRollbackPlan_run
    (hmarker : store.latestCheckpointMarker s₀ = plan.latestCheckpointId ∨
      store.latestCheckpointMarker s₀ = plan.targetCheckpointId)
    (hcounter : store.pendingCounterHighWater s₀ = plan.latestPendingId) :
    (executeRollbackPlan plan).run store.device ⟨s₀, plan⟩ =
      (if plan.committed (store.latestCheckpointMarker s₀) then
        reconcileTarget plan phases >>= fun _ => pure .reconciled
      else rollBack plan phases >>= fun _ => pure .completed : RollbackProg _).run
        store.device ⟨s₀, plan⟩ := by
  unfold executeRollbackPlan
  rw [F.valid, run_bind (a := ()) rfl, F.decodes, run_bind (a := phases) rfl,
    run_bind (run_attempt (r := store.latestCheckpointMarker s₀) rfl),
    if_neg (by tauto), run_bind (requireCounter_run hcounter)]

/-- **A ROLLBACK WITHOUT INTERRUPTIONS.** -/
theorem uninterrupted_rolling (h : Passes store plan data s₀)
    (hcounter : store.pendingCounterHighWater (finalStore store plan data s₀) =
      plan.latestPendingId) : Uninterrupted store plan s₀
      ⟨finalStore store plan data s₀, plan.upTo (data.length + 2)⟩ := by
  refine ⟨.completed, ?_⟩
  have hopen : ¬ plan.committed (store.latestCheckpointMarker s₀) := by
    rw [← F.upTo_zero, F.committed_upTo, h.marker]
    omega
  have hloop : (phases.zipIdx.foldlM (runPhase phases) plan).run store.device ⟨s₀, plan⟩ =
      (.ok (plan.upTo (data.length + 2)),
        ⟨finalStore store plan data s₀, plan.upTo (data.length + 2)⟩) := by
    have hrun := run_foldlM (fun i phase hphase => F.runPhase_run h hphase)
    rw [F.length_phases, if_pos rfl, if_neg (by omega), F.upTo_zero] at hrun
    exact hrun
  rw [F.executeRollbackPlan_run (Or.inl h.marker) h.counter, if_neg hopen]
  have hafter : (rollBack plan phases).run store.device ⟨s₀, plan⟩ =
      (.ok (), ⟨finalStore store plan data s₀, plan.upTo (data.length + 2)⟩) := by
    unfold rollBack
    rw [run_bind hloop, run_bind (requireMarker_run (F.marker_final h.marker))]
    exact requireCounter_run hcounter
  exact run_bind hafter

theorem reconcilePhase_run (hpresent : Present store plan data s)
    (hmarker : store.latestCheckpointMarker s = plan.targetCheckpointId)
    (hphase : phases[i]? = some phase) :
    (reconcilePhase phases (plan.upTo i) (phase, i)).run store.device ⟨s, plan.upTo i⟩ =
      (.ok (plan.upTo (i + 1)), ⟨s, plan.upTo (i + 1)⟩) := by
  have hi := F.lt_of_phase hphase
  have hpending : (reconcilePending phases (plan.upTo i) phase).run store.device
      ⟨s, plan.upTo i⟩ = (.ok (), ⟨s, plan.upTo i⟩) := by
    unfold reconcilePending
    rcases F.phase_cases hphase with ⟨hdata, hisData⟩ | ⟨_, hverify, hnot⟩ | ⟨_, hlast⟩
    · have hcheck := F.checks_iff (k := i).mpr hpresent phase (mem_of_getElem? hphase)
        (F.order.isData phase (mem_of_getElem? hdata))
      rw [if_neg hisData.1, if_neg hisData.2]
      exact verifyData_run hcheck
    · rw [if_neg hnot, if_pos hverify]
      exact verifyComplete_run hmarker (F.checks_iff.mpr hpresent)
    · rw [if_pos hlast]
      exact requireMarker_run hmarker
  unfold reconcilePhase
  rw [isCompleted_upTo (F.length_plan ▸ hi), if_neg (by simp), run_bind hpending]
  dsimp only
  rw [completePhase_upTo, run_bind (run_attempt rfl)]
  rfl

/-- **A RECONCILIATION WITHOUT INTERRUPTIONS**, of a plan that was committed before its first
run. -/
theorem uninterrupted_reconciling
    (hmarker : store.latestCheckpointMarker s₀ = plan.targetCheckpointId)
    (hne : plan.latestCheckpointId ≠ plan.targetCheckpointId)
    (hcounter : store.pendingCounterHighWater s₀ = plan.latestPendingId)
    (hpresent : Present store plan data s₀)
    (hfinal : store.pendingCounterHighWater (store.deletePostTargetBackups plan s₀) =
      plan.latestPendingId) : Uninterrupted store plan s₀
      ⟨store.deletePostTargetBackups plan s₀, plan.upTo (data.length + 2)⟩ := by
  refine ⟨.reconciled, ?_⟩
  have hcommitted : plan.committed (store.latestCheckpointMarker s₀) := by
    rw [← F.upTo_zero, F.committed_upTo]
    exact ⟨hmarker, Or.inl hne⟩
  have hmarker' := (F.lawful.backups_marker s₀).trans hmarker
  have hpresent' := F.present_backups hpresent
  have hloop := run_foldlM (fun i (phase : ExecutableRollbackPhase)
    (hphase : phases[i]? = some phase) => F.reconcilePhase_run hpresent' hmarker' hphase)
  rw [F.length_phases] at hloop
  have hreconcile : (reconcileTarget (plan.upTo 0) phases).run store.device ⟨s₀, plan.upTo 0⟩ =
      (.ok (), ⟨store.deletePostTargetBackups plan s₀, plan.upTo (data.length + 2)⟩) := by
    unfold reconcileTarget
    rw [run_bind F.deleteBackups_run,
      run_bind (verifyComplete_run hmarker' (F.checks_iff.mpr hpresent')), run_bind hloop]
    exact requireCounter_run hfinal
  rw [F.upTo_zero] at hreconcile
  rw [F.executeRollbackPlan_run (Or.inr hmarker) hcounter, if_pos hcommitted]
  exact run_bind hreconcile

/-! ## §3. Rolling back. -/

variable (hcounter : store.pendingCounterHighWater s₀ = plan.latestPendingId)
  (hstart : store.latestCheckpointMarker s₀ = plan.latestCheckpointId)

include hcounter in
/-- The effect of data phase `k`, from any world in which the rollback may be at that phase. -/
theorem dataPhase_safe (hphase : data[k]? = some phase)
    (heffect : store.effect plan phase s = store.effect plan phase (stage store plan data s₀ k))
    (hmarker : store.latestCheckpointMarker s = plan.latestCheckpointId) :
    Safe store.device (Progress store plan data s₀)
      (fun _ w => w = ⟨stage store plan data s₀ (k + 1), plan.upTo k⟩)
      (executeData (plan.upTo k) phase) ⟨s, plan.upTo k⟩ := by
  have hdata := F.order.isData phase (mem_of_getElem? hphase)
  refine executeData_safe (.rolling hcounter (.data hphase heffect hmarker)) ?_ ?_ ?_
  · -- the effect is there, the completion is not persisted
    rw [F.lawful.effect_upTo]
    refine .rolling hcounter (.data hphase ?_ ?_)
    · rw [F.lawful.effect_effect _ _ hdata, heffect]
    · rw [F.lawful.effect_marker _ _ hdata, hmarker]
  · intro s' htorn
    obtain ⟨hsame, hmarker'⟩ := F.lawful.effect_torn k phase s s' hdata htorn
    exact .rolling hcounter (.data hphase (hsame.trans heffect) (hmarker'.trans hmarker))
  · rw [F.lawful.effect_upTo, heffect, ← stage_succ hphase]

section
variable (h : Passes store plan data s₀)
include h

/-- What was committed is there, whether or not its completion is persisted. -/
theorem progress_final (hk : k ≤ data.length + 2)
    (hlatest : plan.latestCheckpointId = plan.targetCheckpointId → k = data.length + 2) :
    Progress store plan data s₀ ⟨finalStore store plan data s₀, plan.upTo k⟩ := by
  refine .committed ?_ (F.marker_final h.marker) ?_ hk hlatest (F.uninterrupted_rolling h)
  · by_cases heq : plan.latestCheckpointId = plan.targetCheckpointId
    · rw [finalStore_of_eq heq]
      exact F.lawful.backups_backups _
    · rw [finalStore_of_ne heq]
      exact F.lawful.write_backups _ _ (F.lawful.backups_backups _)
  · intro phase hphase hdata
    have hpresent := h.present_backups phase hphase hdata
    by_cases heq : plan.latestCheckpointId = plan.targetCheckpointId
    · rw [finalStore_of_eq heq]
      exact hpresent
    · rw [finalStore_of_ne heq]
      exact F.lawful.write_effect _ _ _ hdata hpresent

/-- The store is ready for the marker, after the backups are deleted. -/
theorem at_backups : At store plan data s₀ (data.length + 1)
      ⟨store.deletePostTargetBackups plan (stage store plan data s₀ data.length),
        plan.upTo (data.length + 1)⟩ :=
  .marker (F.lawful.backups_backups _) (F.marker_rolled h.marker) h.present
    (Or.inr h.counter_rolled)

theorem progress_before_persist : Progress store plan data s₀
      ⟨finalStore store plan data s₀, plan.upTo (data.length + 1)⟩ := by
  by_cases heq : plan.latestCheckpointId = plan.targetCheckpointId
  · rw [finalStore_of_eq heq]
    exact .rolling h.counter (F.at_backups h)
  · exact F.progress_final h (Nat.le_succ _) (fun h => absurd h heq)

theorem writeMarker_safe : Safe store.device (Progress store plan data s₀)
      (fun _ w => w = ⟨finalStore store plan data s₀, plan.upTo (data.length + 1)⟩)
      (writeMarker (plan.upTo (data.length + 1)))
      ⟨store.deletePostTargetBackups plan (stage store plan data s₀ data.length),
        plan.upTo (data.length + 1)⟩ := by
  have hafter := F.progress_before_persist h
  by_cases heq : plan.latestCheckpointId = plan.targetCheckpointId
  · rw [writeMarker_of_eq heq, finalStore_of_eq heq]
    rfl
  · rw [finalStore_of_ne heq] at hafter ⊢
    rw [writeMarker_of_ne heq]
    exact write_safe rfl (.rolling h.counter (F.at_backups h)) hafter
      (fun htear => absurd htear Bool.false_ne_true) rfl

end

include hcounter hstart in
/-- **THE COMMIT**: the backups go, everything is checked again, the marker is written. -/
theorem commitMarker_safe (hbackups : store.deletePostTargetBackups plan s =
      store.deletePostTargetBackups plan (stage store plan data s₀ data.length))
    (hmarker : store.latestCheckpointMarker s = plan.latestCheckpointId)
    (hpresent : Present store plan data (stage store plan data s₀ data.length))
    (hrolled : s = stage store plan data s₀ data.length ∨
      store.pendingCounterHighWater (stage store plan data s₀ data.length) =
        plan.latestPendingId) :
    Safe store.device (Progress store plan data s₀) (fun _ w => Passes store plan data s₀ ∧
        w = ⟨finalStore store plan data s₀, plan.upTo (data.length + 1)⟩)
      (commitMarker (plan.upTo (data.length + 1)) phases) ⟨s, plan.upTo (data.length + 1)⟩ := by
  have hat : Progress store plan data s₀ ⟨s, plan.upTo (data.length + 1)⟩ :=
    .rolling hcounter (.marker hbackups hmarker hpresent hrolled)
  refine Safe.bind (requireCounter_safe hat) ?_
  rintro _ _ ⟨rfl, hs⟩
  have hrolled' : store.pendingCounterHighWater (stage store plan data s₀ data.length) =
      plan.latestPendingId := by
    rcases hrolled with rfl | hrolled
    · exact hs
    · exact hrolled
  have hbefore : Progress store plan data s₀ ⟨store.deletePostTargetBackups plan
      (stage store plan data s₀ data.length), plan.upTo (data.length + 1)⟩ :=
    .rolling hcounter (.marker (F.lawful.backups_backups _) (F.marker_rolled hstart) hpresent
      (Or.inr hrolled'))
  refine Safe.bind (Q := fun _ w => w = ⟨store.deletePostTargetBackups plan s,
    plan.upTo (data.length + 1)⟩) (F.deleteBackups_safe hat ?_ ?_ rfl) ?_
  · rw [hbackups]
    exact hbefore
  · intro s' htorn
    obtain ⟨hsame, hmarker', _⟩ := F.lawful.backups_torn _ s s' htorn
    exact .rolling hcounter
      (.marker (hsame.trans hbackups) (hmarker'.trans hmarker) hpresent (Or.inr hrolled'))
  rintro _ _ rfl
  rw [hbackups]
  refine Safe.bind (verifyComplete_safe hbefore) ?_
  rintro _ _ ⟨rfl, hchecks⟩
  have hpasses : Passes store plan data s₀ :=
    ⟨hstart, hcounter, hpresent, hrolled', F.checks_iff.mp hchecks⟩
  refine Safe.bind (F.writeMarker_safe hpasses) ?_
  rintro _ _ rfl
  refine Safe.mono (requireMarker_safe (F.progress_before_persist hpasses)) ?_
  rintro _ _ ⟨rfl, _⟩
  exact ⟨hpasses, rfl⟩

/-- Where the loop is before round `i`: at phase `i` or at a later one. -/
def LoopAt (store : RollbackExecutionStore σ) (plan : RollbackPlan)
    (data : List ExecutableRollbackPhase) (s₀ : σ) (i : Nat) (plan' : RollbackPlan)
    (w : World σ) : Prop :=
  plan' = w.persisted ∧ ((∃ k, i ≤ k ∧ At store plan data s₀ k w) ∨ Passes store plan data s₀ ∧
    w = ⟨finalStore store plan data s₀, plan.upTo (data.length + 2)⟩)

include hcounter hstart in
/-- **ONE PHASE**, from any world in which the rollback may be at it. -/
theorem runPending_safe (hphase : phases[k]? = some phase) (hat : At store plan data s₀ k w) :
    Safe store.device (Progress store plan data s₀)
      (fun _ w' => Progress store plan data s₀ w' ∧
        LoopAt store plan data s₀ (k + 1) (plan.upTo (k + 1)) ⟨w'.store, plan.upTo (k + 1)⟩)
      (runPending phases (plan.upTo k) phase) w := by
  have hprogress := Progress.rolling hcounter hat
  unfold runPending
  cases hat with
  | @data k d s hdata heffect hmarker =>
    have hlt := (List.getElem?_eq_some_iff.mp hdata).1
    rcases F.phase_cases hphase with ⟨hdata', hisData⟩ | ⟨rfl, _⟩ | ⟨rfl, _⟩
    · obtain rfl : d = phase := Option.some.inj (hdata.symm.trans hdata')
      rw [if_neg hisData.1, if_neg hisData.2]
      refine Safe.bind (F.dataPhase_safe hcounter hdata heffect hmarker) ?_
      rintro _ _ rfl
      have hnext := F.at_stage (Nat.succ_le_of_lt hlt) hstart
      have hdone : Progress store plan data s₀
          ⟨stage store plan data s₀ (k + 1), plan.upTo k⟩ := by
        rw [stage_succ hdata]
        have hisData := F.order.isData d (mem_of_getElem? hdata)
        refine .rolling hcounter (.data hdata (F.lawful.effect_effect _ _ hisData) ?_)
        rw [F.lawful.effect_marker _ _ hisData, F.marker_stage, hstart]
      refine Safe.mono (requireMarker_safe hdone) ?_
      rintro _ _ ⟨rfl, _⟩
      exact ⟨hdone, rfl, Or.inl ⟨k + 1, le_rfl, hnext⟩⟩
    · exact absurd hlt (by omega)
    · exact absurd hlt (by omega)
  | check hmarker =>
    rcases F.phase_cases hphase with ⟨hdata, _⟩ | ⟨_, hverify, hnot⟩ | ⟨habsurd, _⟩
    · have hlt := (List.getElem?_eq_some_iff.mp hdata).1
      exact absurd hlt (by omega)
    · rw [if_neg hnot, if_pos hverify]
      refine Safe.mono (verifyComplete_safe hprogress) ?_
      rintro _ _ ⟨rfl, hchecks⟩
      exact ⟨hprogress, rfl, Or.inl ⟨_, le_rfl,
        .marker rfl hmarker (F.checks_iff.mp hchecks) (Or.inl rfl)⟩⟩
    · exact absurd habsurd (by omega)
  | @marker s hbackups hmarker hpresent hrolled =>
    rcases F.phase_cases hphase with ⟨hdata, _⟩ | ⟨habsurd, _⟩ | ⟨_, hlast⟩
    · have hlt := (List.getElem?_eq_some_iff.mp hdata).1
      exact absurd hlt (by omega)
    · exact absurd habsurd (by omega)
    · rw [if_pos hlast]
      refine Safe.mono
        (F.commitMarker_safe hcounter hstart hbackups hmarker hpresent hrolled) ?_
      rintro _ _ ⟨hpasses, rfl⟩
      exact ⟨F.progress_before_persist hpasses, rfl, Or.inr ⟨hpasses, rfl⟩⟩

variable {plan' : RollbackPlan}

include hcounter in
theorem loopAt_progress (h : LoopAt store plan data s₀ i plan' w) :
    Progress store plan data s₀ w := by
  rcases h with ⟨_, ⟨k, _, hat⟩ | ⟨hpasses, rfl⟩⟩
  · exact .rolling hcounter hat
  · exact F.progress_final hpasses le_rfl (fun _ => rfl)

include hcounter hstart in
/-- **ONE ROUND** of the loop. -/
theorem runPhase_safe (hphase : phases[i]? = some phase) (h : LoopAt store plan data s₀ i plan' w) :
    Safe store.device (Progress store plan data s₀) (LoopAt store plan data s₀ (i + 1))
      (runPhase phases plan' (phase, i)) w := by
  have hi := F.lt_of_phase hphase
  have hprogress := F.loopAt_progress hcounter h
  -- a completed phase is skipped
  have hskip : ∀ k, i < k → w.persisted = plan.upTo k →
      runPhase phases w.persisted (phase, i) = pure w.persisted := by
    intro k hk hpersisted
    unfold runPhase
    rw [hpersisted, isCompleted_upTo (F.length_plan ▸ hi), if_pos (decide_eq_true hk)]
  obtain ⟨rfl, ⟨k, hik, hat⟩ | ⟨hpasses, rfl⟩⟩ := h
  · obtain ⟨hmarker, _, hpersisted⟩ := hat.facts
    rcases Nat.lt_or_eq_of_le hik with hlt | rfl
    · rw [hskip k hlt hpersisted]
      exact ⟨rfl, Or.inl ⟨k, hlt, hat⟩⟩
    · unfold runPhase
      rw [hpersisted, isCompleted_upTo (F.length_plan ▸ hi), if_neg (by simp)]
      refine Safe.bind (requireMarker_safe hprogress) ?_
      rintro _ _ ⟨rfl, _⟩
      refine Safe.bind (F.runPending_safe hcounter hstart hphase hat) ?_
      rintro _ w' ⟨hbefore, hafter⟩
      dsimp only
      rw [completePhase_upTo]
      refine Safe.bind (Q := fun _ w => w = ⟨w'.store, plan.upTo (i + 1)⟩)
        (persist_safe hbefore (F.loopAt_progress hcounter hafter) rfl) ?_
      rintro _ _ rfl
      exact hafter
  · rw [hskip _ hi rfl]
    exact ⟨rfl, Or.inr ⟨hpasses, rfl⟩⟩

include hcounter hstart in
/-- **ROLLING BACK**, from any phase on. -/
theorem rollBack_safe (hat : At store plan data s₀ k w) :
    Recovering store plan data s₀ (rollBack w.persisted phases) w := by
  refine Safe.bind (Safe.foldlM
    (fun i phase plan' w hphase h => F.runPhase_safe hcounter hstart hphase h)
    ⟨rfl, Or.inl ⟨k, Nat.zero_le k, hat⟩⟩) ?_
  rintro _ w' ⟨rfl, ⟨j, hj, hat'⟩ | ⟨hpasses, rfl⟩⟩
  · have hle := hat'.facts.2.1
    rw [F.length_phases] at hj
    exact absurd hj (by omega)
  · have hfinal := F.progress_final hpasses le_rfl (fun _ => rfl)
    refine Safe.bind (requireMarker_safe hfinal) ?_
    rintro _ _ ⟨rfl, _⟩
    refine Safe.mono (requireCounter_safe hfinal) ?_
    rintro _ _ ⟨rfl, hcounter'⟩
    exact ⟨hfinal, rfl, F.uninterrupted_rolling hpasses hcounter'⟩

/-! ## §4. Restarts. -/

/-- The marker of the first store, as every phase leaves it. -/
theorem marker_start (h : At store plan data s₀ k w) :
    store.latestCheckpointMarker s₀ = plan.latestCheckpointId := by
  cases h with
  | @data k phase s hphase heffect hmarker =>
    have hdata := F.order.isData phase (mem_of_getElem? hphase)
    have hsame := congrArg store.latestCheckpointMarker heffect
    rw [F.lawful.effect_marker _ _ hdata, F.lawful.effect_marker _ _ hdata, hmarker,
      F.marker_stage] at hsame
    exact hsame.symm
  | check hmarker => exact (F.marker_stage _).symm.trans hmarker
  | marker hbackups hmarker =>
    have hsame := congrArg store.latestCheckpointMarker hbackups
    rw [F.lawful.backups_marker, F.lawful.backups_marker, hmarker, F.marker_stage] at hsame
    exact hsame.symm

/-- A restart reads the plan and the marker, and then reconciles or rolls back. -/
theorem recover_safe_of_branches (hpersisted : w.persisted = plan.upTo k)
    (hprogress : Progress store plan data s₀ w)
    (hreconcile : store.latestCheckpointMarker w.store = plan.targetCheckpointId →
      plan.latestCheckpointId ≠ plan.targetCheckpointId ∨ data.length + 2 ≤ k →
      store.pendingCounterHighWater w.store = plan.latestPendingId →
      Recovering store plan data s₀ (reconcileTarget w.persisted phases) w)
    (hroll : store.latestCheckpointMarker w.store = plan.latestCheckpointId →
      store.pendingCounterHighWater w.store = plan.latestPendingId →
      ¬ (plan.latestCheckpointId = plan.targetCheckpointId ∧ data.length + 2 ≤ k) →
      Recovering store plan data s₀ (rollBack w.persisted phases) w) :
    Recovering store plan data s₀ (recover w) w := by
  unfold recover executeRollbackPlan
  refine Safe.bind (Q := fun _ w' => w' = w) (ofExcept_safe hprogress (fun _ _ => rfl)) ?_
  rintro _ w rfl
  have hdecode : decodeAllPhases w.persisted = .ok phases := by
    rw [hpersisted, decodeAllPhases_upTo, F.decodes]
  rw [hdecode]
  refine Safe.bind (Q := fun phases' w' => phases' = phases ∧ w' = w)
    (ofExcept_safe hprogress (fun _ h => ⟨(Except.ok.inj h).symm, rfl⟩)) ?_
  rintro _ w ⟨rfl, rfl⟩
  refine Safe.bind (Q := fun marker w' =>
    marker = store.latestCheckpointMarker w.store ∧ w' = w) (read_safe rfl hprogress ?_) ?_
  · rintro r w' ⟨⟩
    exact ⟨rfl, rfl, rfl⟩
  rintro _ w ⟨rfl, rfl⟩
  split
  next => exact hprogress
  next hmarker =>
    refine Safe.bind (requireCounter_safe hprogress) ?_
    rintro _ w ⟨rfl, hcounter⟩
    rw [hpersisted] at hmarker hcounter ⊢
    rw [hpersisted] at hreconcile hroll
    split
    next hcommitted =>
      rw [F.committed_upTo] at hcommitted
      exact Safe.bind (hreconcile hcommitted.1 hcommitted.2 hcounter) (fun _ _ h => h)
    next hopen =>
      rw [F.committed_upTo, not_and_or, not_or, not_not] at hopen
      have hmarker : ¬ (store.latestCheckpointMarker w.store ≠ plan.latestCheckpointId ∧
        store.latestCheckpointMarker w.store ≠ plan.targetCheckpointId) := hmarker
      exact Safe.bind (hroll (by omega) hcounter (by omega)) (fun _ _ h => h)

/-- **A RESTART** from any world of the invariant. -/
theorem recover_safe (h : Progress store plan data s₀ w) :
    Recovering store plan data s₀ (recover w) w := by
  cases h with
  | start =>
    refine F.recover_safe_of_branches F.upTo_zero.symm .start ?_ ?_
    · intro hmarker hne hcounter
      have hne' : plan.latestCheckpointId ≠ plan.targetCheckpointId := by omega
      have hpresent : Present store plan data s₀ := by
        obtain ⟨check, marker, hphases, _⟩ := F.order.split
        intro phase hphase
        exact F.honest hmarker hne'.symm phase (hphases ▸ mem_append_left _ hphase)
      have hsafe := F.reconcileTarget_safe (k := 0) rfl hmarker hpresent (Nat.zero_le _)
        (fun h => absurd h hne')
        (F.uninterrupted_reconciling hmarker hne' hcounter hpresent)
      rw [F.upTo_zero] at hsafe
      exact hsafe
    · intro hmarker hcounter _
      have hat := F.at_stage (Nat.zero_le _) hmarker
      have hsafe := F.rollBack_safe hcounter hmarker hat
      rw [F.upTo_zero] at hsafe
      exact hsafe
  | @rolling k w hcounter hat =>
    obtain ⟨hmarker, hk, hpersisted⟩ := hat.facts
    refine F.recover_safe_of_branches hpersisted (.rolling hcounter hat) ?_ ?_
    · intro htarget hcommitted _
      omega
    · intro _ _ _
      exact F.rollBack_safe hcounter (F.marker_start hat) hat
  | @committed k s final hbackups hmarker hpresent hk hlatest hrun =>
    refine F.recover_safe_of_branches rfl
      (.committed hbackups hmarker hpresent hk hlatest hrun) ?_ ?_
    · intro _ _ _
      exact F.reconcileTarget_safe hbackups hmarker hpresent hk hlatest hrun
    · intro hmarker' _ hopen
      have heq := hmarker'.symm.trans hmarker
      exact absurd ⟨heq, (hlatest heq).ge⟩ hopen

end FirstRun

/-- Every data phase of the plan has had its effect. -/
def EffectsPresent (store : RollbackExecutionStore σ) (plan : RollbackPlan) (s : σ) : Prop :=
  ∀ phase ∈ plan.phases, ∀ decoded, decodeRollbackPhase phase = .ok decoded → decoded.isData →
    store.effect plan decoded s = s

theorem effectsPresent_iff (hdecodes : decodeAllPhases plan = .ok phases) :
    EffectsPresent store plan s ↔ Present store plan phases s := by
  constructor
  · intro h decoded hdecoded
    obtain ⟨phase, hphase, hok⟩ := exists_of_mapM_eq_ok hdecodes decoded hdecoded
    exact h phase hphase decoded hok
  · intro h phase hphase decoded hok
    obtain ⟨decoded', hdecoded', hok'⟩ := mem_of_mapM_eq_ok hdecodes phase hphase
    obtain rfl : decoded' = decoded := Except.ok.inj (hok'.symm.trans hok)
    exact h decoded' hdecoded'

theorem FirstRun.effectsPresent (F : FirstRun store plan data phases s₀)
    (h : Progress store plan data s₀ w)
    (hmarker : store.latestCheckpointMarker w.store = plan.targetCheckpointId)
    (hne : plan.targetCheckpointId ≠ plan.latestCheckpointId) :
    EffectsPresent store plan w.store := by
  rw [effectsPresent_iff F.decodes]
  cases h with
  | start => exact F.honest hmarker hne
  | rolling _ hat => exact absurd (hmarker.symm.trans hat.facts.1) hne
  | committed _ _ hpresent =>
    intro phase hphase hdata
    have hchecks := F.checks_iff (k := 0).mpr hpresent phase hphase hdata
    rw [F.lawful.check_upTo] at hchecks
    exact (F.lawful.check_iff phase _ hdata).mp hchecks

/-- A plan that does not decode never leaves its first world. -/
theorem recover_safe_of_not_decodes {message : String}
    (hdecodes : decodeAllPhases plan = .error message) :
    Safe store.device (fun w => w = ⟨s₀, plan⟩) (fun _ _ => False)
      (recover (⟨s₀, plan⟩ : World σ)) ⟨s₀, plan⟩ := by
  refine Safe.bind (Q := fun _ w' => w' = ⟨s₀, plan⟩)
    (ofExcept_safe rfl (fun _ _ => rfl)) ?_
  rintro _ _ rfl
  rw [hdecodes]
  exact Safe.bind (Q := fun _ _ => False) (ofExcept_safe rfl (fun _ h => absurd h (by simp)))
    (fun _ _ h => absurd h id)

end

/-- **ROLLBACK SURVIVES INTERRUPTIONS.**  However often the rollback of a validated plan is
interrupted and started again: the marker stands at the target only where every data phase has had
its effect, and a run that returns leaves the store and the plan as one run without interruptions
leaves them, with every phase completed. -/
theorem rollback_recovers {σ : Type} (store : RollbackExecutionStore σ) (plan : RollbackPlan)
    (hlawful : Lawful store plan) (hvalid : validateRollbackPlan plan = .ok ())
    (hpending : ∀ phase ∈ plan.phases, phase.status = .pending) (s₀ : σ)
    (hhonest : store.latestCheckpointMarker s₀ = plan.targetCheckpointId →
      plan.targetCheckpointId ≠ plan.latestCheckpointId → EffectsPresent store plan s₀)
    (w : World σ) (hw : Recovers store.device recover ⟨s₀, plan⟩ w) :
    (store.latestCheckpointMarker w.store = plan.targetCheckpointId →
      plan.targetCheckpointId ≠ plan.latestCheckpointId → EffectsPresent store plan w.store) ∧
    ∀ outcome w', Exec store.device (recover w) w (some (.ok outcome)) w' →
      (∃ outcome', (executeRollbackPlan plan).run store.device ⟨s₀, plan⟩ = (.ok outcome', w')) ∧
        ∀ phase ∈ w'.persisted.phases, phase.status = .completed := by
  cases hdecodes : decodeAllPhases plan with
  | error message =>
    have hinit : w = ⟨s₀, plan⟩ := by
      refine hw.invariant (I := fun w => w = ⟨s₀, plan⟩) rfl ?_
      rintro _ rfl
      exact Safe.mono (recover_safe_of_not_decodes hdecodes) (fun _ _ h => absurd h id)
    subst hinit
    refine ⟨hhonest, ?_⟩
    intro outcome w' hexec
    exact absurd ((recover_safe_of_not_decodes hdecodes).sound hexec) id
  | ok phases =>
    obtain ⟨data, horder⟩ := markerLast_of_decode (validated_of_ok hvalid) hdecodes
    have F : FirstRun store plan data phases s₀ :=
      ⟨hlawful, hvalid, hpending, hdecodes, horder,
        fun hmarker hne => (effectsPresent_iff hdecodes).mp (hhonest hmarker hne)⟩
    have hprogress := hw.invariant .start (fun w h =>
      Safe.mono (F.recover_safe h) (fun _ _ h => h.1))
    refine ⟨F.effectsPresent hprogress, ?_⟩
    intro outcome w' hexec
    obtain ⟨_, hpersisted, hrun⟩ := (F.recover_safe hprogress).sound hexec
    refine ⟨hrun, ?_⟩
    intro phase hphase
    rw [hpersisted] at hphase
    have hall := all_completed_upTo.mpr F.length_plan.le
    exact of_decide_eq_true (all_eq_true.mp hall phase hphase)

/-! ## §5. A store that is interrupted. -/

/-- The marker, and the rows that are deleted; every table has two. -/
abbrev DeletedRows : Type := Nat × List (String × Bool)

/-- Deleting the first row of a table. -/
def halfDeleted (table : String) (s : DeletedRows) : DeletedRows :=
  (s.1, s.2.insert (table, false))

/-- Deleting both rows. -/
def deleteRows (table : String) (s : DeletedRows) : DeletedRows :=
  (s.1, (s.2.insert (table, false)).insert (table, true))

/-- Whether both rows are deleted. -/
def checkRows (table : String) (s : DeletedRows) : Except String Unit :=
  if (table, false) ∈ s.2 ∧ (table, true) ∈ s.2 then .ok () else .error "rows remain"

/-- A store of such tables, one for each phase; a phase may be interrupted between its two rows. -/
def rowStore : RollbackExecutionStore DeletedRows where
  latestCheckpointMarker := Prod.fst
  pendingCounterHighWater := fun _ => 6
  deleteNatsConsumers := fun _ _ => deleteRows "nats consumers"
  verifyNatsConsumersAbsent := fun _ _ => checkRows "nats consumers"
  executePhase := fun _ phase => deleteRows phase.table
  verifyPhase := fun _ phase => checkRows phase.table
  deletePostTargetBackups := fun _ s => s
  writeLatestCheckpointMarker := fun id s => (id, s.2)
  torn := fun call s s' => match call with
    | .executePhase _ phase => s' = halfDeleted phase.table s
    | _ => False

section
variable {table : String} {s : DeletedRows}

theorem deleteRows_eq_self :
    deleteRows table s = s ↔ (table, false) ∈ s.2 ∧ (table, true) ∈ s.2 := by
  constructor
  · intro h
    rw [← h]
    exact ⟨mem_insert_of_mem mem_insert_self, mem_insert_self⟩
  · rintro ⟨hfirst, hsecond⟩
    rw [deleteRows, insert_of_mem hfirst, insert_of_mem hsecond]

theorem deleteRows_deleteRows : deleteRows table (deleteRows table s) = deleteRows table s :=
  deleteRows_eq_self.mpr ⟨mem_insert_of_mem mem_insert_self, mem_insert_self⟩

theorem deleteRows_halfDeleted : deleteRows table (halfDeleted table s) = deleteRows table s := by
  rw [deleteRows, halfDeleted, insert_of_mem mem_insert_self, deleteRows]

theorem checkRows_eq_ok : checkRows table s = .ok () ↔ deleteRows table s = s := by
  rw [deleteRows_eq_self, checkRows]
  split
  next h => exact iff_of_true rfl h
  next h => exact iff_of_false (by simp) h

end

variable (plan : RollbackPlan)

/-- A phase deletes and checks the rows of one table, whatever the plan. -/
theorem rowStore_phase (phase : ExecutableRollbackPhase) : ∃ table, ∀ plan,
    rowStore.effect plan phase = deleteRows table ∧ rowStore.check plan phase = checkRows table ∧
    ∀ s s', rowStore.tornEffect plan phase s s' → s' = halfDeleted table s := by
  unfold effect check tornEffect
  cases phase.operation
  case natsConsumers => exact ⟨"nats consumers", fun _ => ⟨rfl, rfl, fun _ _ h => absurd h id⟩⟩
  all_goals exact ⟨phase.table, fun _ => ⟨rfl, rfl, fun _ _ h => h⟩⟩

theorem rowStore_lawful : Lawful rowStore plan where
  effect_upTo := by
    intro k phase
    obtain ⟨table, h⟩ := rowStore_phase phase
    rw [(h _).1, (h _).1]
  check_upTo := by
    intro k phase
    obtain ⟨table, h⟩ := rowStore_phase phase
    rw [(h _).2.1, (h _).2.1]
  backups_upTo := fun _ => rfl
  effect_effect := by
    intro phase s _
    obtain ⟨table, h⟩ := rowStore_phase phase
    rw [(h plan).1, deleteRows_deleteRows]
  effect_torn := by
    intro k phase s s' _ htorn
    obtain ⟨table, h⟩ := rowStore_phase phase
    rw [(h _).2.2 s s' htorn, (h plan).1, deleteRows_halfDeleted]
    exact ⟨rfl, rfl⟩
  effect_marker := by
    intro phase s _
    obtain ⟨table, h⟩ := rowStore_phase phase
    rw [(h plan).1]
    rfl
  check_iff := by
    intro phase s _
    obtain ⟨table, h⟩ := rowStore_phase phase
    rw [(h plan).1, (h plan).2.1, checkRows_eq_ok]
  backups_backups := fun _ => rfl
  backups_marker := fun _ => rfl
  backups_effect := fun _ _ _ h => h
  backups_torn := fun _ _ _ h => absurd h id
  write_marker := fun _ _ => rfl
  write_effect := by
    intro phase id s _ hpresent
    obtain ⟨table, h⟩ := rowStore_phase phase
    rw [(h plan).1, deleteRows_eq_self] at hpresent ⊢
    exact hpresent
  write_backups := fun _ _ _ => rfl

/-- What an interrupted call leaves: half of a phase's rows, and otherwise what there was. -/
def leftHalfDeleted (call : RollbackCall) (w : World DeletedRows) : World DeletedRows :=
  match call with
  | .executePhase _ phase => ⟨halfDeleted phase.table w.store, w.persisted⟩
  | _ => w

theorem leaves_leftHalfDeleted (call : RollbackCall) (w : World DeletedRows) :
    rowStore.device.leaves call w (leftHalfDeleted call w) := by
  cases call
  case executePhase => exact .inr (.inr ⟨rfl, rfl, rfl⟩)
  all_goals exact .inl rfl

/-- The world in which the rollback of the sample plan starts. -/
def beforeRollback : World DeletedRows := ⟨(2, []), samplePlan⟩

/-- Where the run from a world ends if it dies in call number `n`. -/
def diesAt (n : Nat) (w : World DeletedRows) : World DeletedRows :=
  ((recover w).runUntil rowStore.device leftHalfDeleted n w).getD w

theorem exec_diesAt {n : Nat} {w : World DeletedRows}
    (h : ((recover w).runUntil rowStore.device leftHalfDeleted n w).isSome = true) :
    Exec rowStore.device (recover w) w none (diesAt n w) := by
  obtain ⟨w', hw'⟩ := Option.isSome_iff_exists.mp h
  rw [diesAt, hw', Option.getD_some]
  exact exec_runUntil leaves_leftHalfDeleted hw'

/-- **TWO INTERRUPTIONS**: the first run dies between the two rows of its second phase, the second
run after the effect of its fourth phase, when it should persist it; the third run returns, with
what a single run leaves. -/
theorem rollback_recovers_interrupted :
    let halfWay := diesAt 7 beforeRollback
    let notPersisted := diesAt 13 halfWay
    Exec rowStore.device (recover beforeRollback) beforeRollback none halfWay ∧
    (halfWay.store.2 = [("TMPPSV1-proof-buckets", false), ("TKVSV1", true), ("TKVSV1", false)] ∧
      halfWay.persisted.phases.countP (fun phase => phase.status = .completed) = 1) ∧
    Exec rowStore.device (recover halfWay) halfWay none notPersisted ∧
    (notPersisted.store.2.head? = some ("checkpoint_leaf_table", true) ∧
      notPersisted.store.2.length = 8 ∧
      notPersisted.persisted.phases.countP (fun phase => phase.status = .completed) = 3) ∧
    ∃ outcome w', Exec rowStore.device (recover notPersisted) notPersisted (some (.ok outcome)) w' ∧
      (∃ outcome', (executeRollbackPlan samplePlan).run rowStore.device beforeRollback =
        (.ok outcome', w')) ∧
      ∀ phase ∈ w'.persisted.phases, phase.status = .completed := by
  intro halfWay notPersisted
  have hruns : ((recover beforeRollback).runUntil rowStore.device leftHalfDeleted 7
        beforeRollback).isSome = true ∧
      (halfWay.store.2 = [("TMPPSV1-proof-buckets", false), ("TKVSV1", true), ("TKVSV1", false)] ∧
        halfWay.persisted.phases.countP (fun phase => phase.status = .completed) = 1) ∧
      ((recover halfWay).runUntil rowStore.device leftHalfDeleted 13 halfWay).isSome = true ∧
      (notPersisted.store.2.head? = some ("checkpoint_leaf_table", true) ∧
        notPersisted.store.2.length = 8 ∧
        notPersisted.persisted.phases.countP (fun phase => phase.status = .completed) = 3) ∧
      ((recover notPersisted).run rowStore.device notPersisted).1.isOk = true := by
    decide +kernel
  obtain ⟨hfirst, hhalf, hsecond, hnot, hok⟩ := hruns
  obtain ⟨outcome, hrun⟩ := exists_of_isOk hok
  have hthird := exec_run (D := rowStore.device) (recover notPersisted) notPersisted
  rw [hrun] at hthird
  have hrecovers := rollback_recovers rowStore samplePlan (rowStore_lawful samplePlan)
    samplePlan_valid (by simp [samplePlan]) (2, []) (fun h => absurd h (by decide)) notPersisted
    (.restart (.restart .start (exec_diesAt hfirst)) (exec_diesAt hsecond))
  exact ⟨exec_diesAt hfirst, hhalf, exec_diesAt hsecond, hnot, outcome, _, hthird,
    hrecovers.2 outcome _ hthird⟩

end PsyNode.Rollback
