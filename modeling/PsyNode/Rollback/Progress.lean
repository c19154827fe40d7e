/-
PsyNode.Rollback.Progress
**WHERE A ROLLBACK CAN BE** when it is interrupted.

The persisted plan is always the first plan with some number of phases
completed (`upTo`), and the store is at the phase after them: before its effect,
after it, or half way (`At`).  Once the marker is written, everything that is
left to do is to check (`Progress.committed`).

What is asked of the store stands in `Lawful`.
-/
import PsyNode.Rollback.Execute

namespace PsyNode.Rollback

open Lib List ExecutableRollbackPhase

/-! ## §1. Plans in progress. -/

variable {k : Nat}

namespace RollbackPlan

/-- The plan after its first `k` phases. -/
def upTo (plan : RollbackPlan) (k : Nat) : RollbackPlan :=
  { plan with phases := plan.phases.mapIdx (fun i phase =>
      { phase with status := if i < k then .completed else .pending }) }

variable {plan : RollbackPlan}

theorem upTo_zero (h : ∀ phase ∈ plan.phases, phase.status = .pending) : plan.upTo 0 = plan := by
  have hphases : plan.phases.mapIdx (fun i phase =>
      { phase with status := if i < 0 then .completed else .pending }) = plan.phases := by
    refine ext_getElem? (fun i => ?_)
    rw [getElem?_mapIdx]
    cases hi : plan.phases[i]? with
    | none => rfl
    | some phase =>
      have hpending := h phase (mem_of_getElem? hi)
      rw [Option.map_some, if_neg (Nat.not_lt_zero i), ← hpending]
  unfold upTo
  rw [hphases]

theorem completePhase_upTo (k : Nat) : (plan.upTo k).completePhase k = plan.upTo (k + 1) := by
  unfold completePhase upTo
  congr 1
  refine ext_getElem? (fun i => ?_)
  rw [getElem?_modify, getElem?_mapIdx, getElem?_mapIdx]
  cases plan.phases[i]? with
  | none => rfl
  | some phase =>
    by_cases hi : k = i
    · simp [hi]
    · have hiff : i < k ↔ i < k + 1 := by omega
      simp [hi, hiff]

theorem isCompleted_upTo {i : Nat} (hi : i < plan.phases.length) :
    (plan.upTo k).isCompleted i = decide (i < k) := by
  unfold isCompleted upTo
  rw [getElem?_mapIdx, getElem?_eq_getElem hi]
  by_cases hk : i < k
  · simp [hk]
  · simp [hk]

/-- All phases are completed when as many are. -/
theorem all_completed_upTo : (plan.upTo k).phases.all (fun phase => phase.status = .completed) ↔
      plan.phases.length ≤ k := by
  rw [all_eq_true]
  constructor
  · intro h
    by_contra hk
    have hlt : k < plan.phases.length := not_le.mp hk
    have hmem : (plan.upTo k).phases[k]? = some { plan.phases[k] with status := .pending } := by
      unfold upTo
      rw [getElem?_mapIdx, getElem?_eq_getElem hlt, Option.map_some, if_neg (Nat.lt_irrefl k)]
    have hstatus := h _ (mem_of_getElem? hmem)
    cases hstatus
  · intro hk phase hphase
    obtain ⟨i, hi⟩ := mem_iff_getElem?.mp hphase
    unfold upTo at hi
    rw [getElem?_mapIdx] at hi
    obtain ⟨before, hbefore, rfl⟩ := Option.map_eq_some_iff.mp hi
    have hlt : i < plan.phases.length := (List.getElem?_eq_some_iff.mp hbefore).1
    simp [Nat.lt_of_lt_of_le hlt hk]

theorem decodeAllPhases_upTo (k : Nat) : decodeAllPhases (plan.upTo k) = decodeAllPhases plan := by
  have hdecode (phases : List RollbackPhase) (j : Nat) :
      (phases.mapIdx (fun i phase =>
        { phase with status := if i + j < k then .completed else .pending })).mapM
          decodeRollbackPhase = phases.mapM decodeRollbackPhase := by
    induction phases generalizing j with
    | nil => rfl
    | cons phase phases ih =>
      have hrest := ih (j + 1)
      rw [mapIdx_cons, mapM_cons, mapM_cons]
      simp only [Nat.add_right_comm _ 1 j]
      simp only [← Nat.add_assoc] at hrest
      rw [hrest]
      rfl
  exact hdecode plan.phases 0

end RollbackPlan

/-! ## §2. The order of the phases. -/

theorem decodeOperation_kind {table api : String} {keys : JsonValue} {operation : RollbackOperation}
    (h : decodeOperation table api keys = .ok operation) : (operation = .verify ↔ api = "verify") ∧
      (operation = .setMarker ↔ api = "set_latest_checkpoint_id") := by
  have hmap : ∀ {α : Type} {c : Prop} [Decidable c] {ctor : α → RollbackOperation}
      {x : Except String α} {e : String}, (if c then ctor <$> x else .error e) = .ok operation →
      (∀ a, ctor a ≠ .verify ∧ ctor a ≠ .setMarker) →
      operation ≠ .verify ∧ operation ≠ .setMarker := by
    intro α c _ ctor x e hok hne
    obtain ⟨_, a, _, rfl⟩ := ite_map_eq_ok.mp hok
    exact hne a
  unfold decodeOperation at h
  dsimp only at h
  split at h
  case h_15 | h_17 | h_18 | h_19 =>
    rw [ite_else_error_eq_ok, Except.ok.injEq] at h
    rw [← h.2]
    decide
  case h_20 => cases h
  all_goals
    have hoperation := hmap h (fun _ => ⟨(by simp), (by simp)⟩)
    exact ⟨iff_of_false hoperation.1 (by decide), iff_of_false hoperation.2 (by decide)⟩

theorem not_isData {phase : ExecutableRollbackPhase} (h : phase.isData) :
    ¬ phase.isMarker ∧ ¬ phase.isVerify :=
  not_or.mp (of_decide_eq_true h)

/-- **MARKER LAST**: data phases, then the check of everything, then the marker. -/
structure MarkerLast (data phases : List ExecutableRollbackPhase) : Prop where
  isData : ∀ phase ∈ data, phase.isData
  split : ∃ check marker, phases = data ++ [check, marker] ∧ check.isVerify ∧ ¬ check.isMarker ∧
    marker.isMarker

/-- The store functions of the data phases. -/
def dataApis : List String := (expectedTables.map expectedApi).take (expectedTables.length - 2)

theorem markerLast_of_decode {plan : RollbackPlan} (h : Validated plan)
    {phases : List ExecutableRollbackPhase} (hdecode : decodeAllPhases plan = .ok phases) :
    ∃ data, MarkerLast data phases := by
  have hkind : ∀ phase ∈ phases, (phase.isVerify ↔ phase.api = "verify") ∧
      (phase.isMarker ↔ phase.api = "set_latest_checkpoint_id") := by
    intro phase hphase
    obtain ⟨source, _, hsource⟩ := exists_of_mapM_eq_ok hdecode phase hphase
    unfold decodeRollbackPhase at hsource
    simp only [bind_eq_ok, Except.ok.injEq] at hsource
    obtain ⟨operation, hoperation, rfl⟩ := hsource
    unfold isVerify isMarker
    rw [decide_eq_true_iff, decide_eq_true_iff]
    exact decodeOperation_kind hoperation
  have hapis : phases.map (fun phase => phase.api) =
      dataApis ++ ["verify", "set_latest_checkpoint_id"] := by
    calc phases.map (fun phase => phase.api)
        = plan.phases.map (fun phase => phase.api) := by
          refine map_of_mapM_eq_ok hdecode ?_
          intro source phase hsource
          unfold decodeRollbackPhase at hsource
          simp only [bind_eq_ok, Except.ok.injEq] at hsource
          obtain ⟨operation, _, rfl⟩ := hsource
          rfl
      _ = (plan.phases.map (fun phase => phase.table)).map expectedApi := by
          rw [map_map]
          exact map_congr_left h.apis
      _ = expectedTables.map expectedApi := by rw [h.tables]
      _ = dataApis ++ ["verify", "set_latest_checkpoint_id"] := by decide +kernel
  obtain ⟨data, rest, rfl, hdata, hrest⟩ := map_eq_append_iff.mp hapis
  obtain ⟨check, rest', rfl, hcheck, hrest'⟩ := map_eq_cons_iff.mp hrest
  obtain ⟨marker, rest'', rfl, hmarker, hnil⟩ := map_eq_cons_iff.mp hrest'
  obtain rfl := map_eq_nil_iff.mp hnil
  refine ⟨data, ?_, check, marker, rfl, ?_, ?_, ?_⟩
  · intro phase hphase
    have hapi : phase.api ∈ dataApis := hdata ▸ mem_map_of_mem hphase
    have hphase' := hkind phase (mem_append_left _ hphase)
    have hneither : ∀ api ∈ dataApis, api ≠ "verify" ∧ api ≠ "set_latest_checkpoint_id" := by
      decide +kernel
    unfold isData
    rw [decide_eq_true_iff, hphase'.1, hphase'.2, not_or]
    exact ⟨(hneither _ hapi).2, (hneither _ hapi).1⟩
  · exact (hkind check (by simp)).1.mpr hcheck
  · rw [(hkind check (by simp)).2, hcheck]
    decide
  · exact (hkind marker (by simp)).2.mpr hmarker

/-! ## §3. Stores. -/

/-- **A LAWFUL STORE**, for the phases of one plan.

  * The effect of a data phase is idempotent, also when it was interrupted half way, and its
    check succeeds exactly where the effect would change nothing.
  * So is the deletion of backups.
  * The marker is a row of its own: effects do not touch it, and writing it undoes none.
  * The functions do not read the status of the phases. -/
structure Lawful {σ : Type} (store : RollbackExecutionStore σ) (plan : RollbackPlan) : Prop where
  effect_upTo : ∀ k phase, store.effect (plan.upTo k) phase = store.effect plan phase
  check_upTo : ∀ k phase, store.check (plan.upTo k) phase = store.check plan phase
  backups_upTo : ∀ k,
    store.deletePostTargetBackups (plan.upTo k) = store.deletePostTargetBackups plan
  effect_effect : ∀ phase s, phase.isData →
    store.effect plan phase (store.effect plan phase s) = store.effect plan phase s
  effect_torn : ∀ k phase s s', phase.isData → store.tornEffect (plan.upTo k) phase s s' →
    store.effect plan phase s' = store.effect plan phase s ∧
      store.latestCheckpointMarker s' = store.latestCheckpointMarker s
  effect_marker : ∀ phase s, phase.isData →
    store.latestCheckpointMarker (store.effect plan phase s) = store.latestCheckpointMarker s
  check_iff : ∀ phase s, phase.isData →
    (store.check plan phase s = .ok () ↔ store.effect plan phase s = s)
  backups_backups : ∀ s, store.deletePostTargetBackups plan (store.deletePostTargetBackups plan s) =
    store.deletePostTargetBackups plan s
  backups_marker : ∀ s, store.latestCheckpointMarker (store.deletePostTargetBackups plan s) =
    store.latestCheckpointMarker s
  backups_effect : ∀ phase s, phase.isData → store.effect plan phase s = s →
    store.effect plan phase (store.deletePostTargetBackups plan s) =
      store.deletePostTargetBackups plan s
  backups_torn : ∀ k s s', store.torn (.deletePostTargetBackups (plan.upTo k)) s s' →
    store.deletePostTargetBackups plan s' = store.deletePostTargetBackups plan s ∧
      store.latestCheckpointMarker s' = store.latestCheckpointMarker s ∧
      ∀ phase, phase.isData → store.effect plan phase s = s → store.effect plan phase s' = s'
  write_marker : ∀ id s, store.latestCheckpointMarker (store.writeLatestCheckpointMarker id s) = id
  write_effect : ∀ phase id s, phase.isData → store.effect plan phase s = s →
    store.effect plan phase (store.writeLatestCheckpointMarker id s) =
      store.writeLatestCheckpointMarker id s
  write_backups : ∀ id s, store.deletePostTargetBackups plan s = s →
    store.deletePostTargetBackups plan (store.writeLatestCheckpointMarker id s) =
      store.writeLatestCheckpointMarker id s

/-- Every data phase has had its effect. -/
def Present {σ : Type} (store : RollbackExecutionStore σ) (plan : RollbackPlan)
    (phases : List ExecutableRollbackPhase) (s : σ) : Prop :=
  ∀ phase ∈ phases, phase.isData → store.effect plan phase s = s

/-- **A FIRST RUN**: a validated plan with nothing done yet, and a store in which the marker does
not claim more than there is. -/
structure FirstRun {σ : Type} (store : RollbackExecutionStore σ) (plan : RollbackPlan)
    (data phases : List ExecutableRollbackPhase) (s₀ : σ) : Prop where
  lawful : Lawful store plan
  valid : validateRollbackPlan plan = .ok ()
  pending : ∀ phase ∈ plan.phases, phase.status = .pending
  decodes : decodeAllPhases plan = .ok phases
  order : MarkerLast data phases
  honest : store.latestCheckpointMarker s₀ = plan.targetCheckpointId →
    plan.targetCheckpointId ≠ plan.latestCheckpointId → Present store plan phases s₀

section
variable {σ : Type} {store : RollbackExecutionStore σ} {plan : RollbackPlan}
  {data phases : List ExecutableRollbackPhase} {s₀ : σ} {phase : ExecutableRollbackPhase}

namespace FirstRun

variable (F : FirstRun store plan data phases s₀)
include F

theorem length_phases : phases.length = data.length + 2 := by
  obtain ⟨check, marker, rfl, _⟩ := F.order.split
  simp

theorem length_plan : plan.phases.length = data.length + 2 := by
  have hlength := congrArg length (map_of_mapM_eq_ok (g := fun _ => ()) (k := fun _ => ())
    F.decodes (fun _ _ _ => rfl))
  rw [length_map, length_map] at hlength
  rw [← hlength, F.length_phases]

theorem upTo_zero : plan.upTo 0 = plan := RollbackPlan.upTo_zero F.pending

theorem lt_of_phase {i : Nat} (h : phases[i]? = some phase) : i < data.length + 2 :=
  F.length_phases ▸ (List.getElem?_eq_some_iff.mp h).1

/-- Which phase stands where. -/
theorem phase_cases {i : Nat} (h : phases[i]? = some phase) :
      data[i]? = some phase ∧ ¬ phase.isMarker ∧ ¬ phase.isVerify ∨
      i = data.length ∧ phase.isVerify ∧ ¬ phase.isMarker ∨
      i = data.length + 1 ∧ phase.isMarker := by
  obtain ⟨check, marker, rfl, hcheck, hmarker, hlast⟩ := F.order.split
  by_cases hi : i < data.length
  · rw [getElem?_append_left hi] at h
    exact Or.inl ⟨h, not_isData (F.order.isData phase (mem_of_getElem? h))⟩
  · rw [getElem?_append_right (not_lt.mp hi)] at h
    obtain hzero | hone | hmore : i - data.length = 0 ∨ i - data.length = 1 ∨
        2 ≤ i - data.length := by omega
    · rw [hzero, getElem?_cons_zero, Option.some.injEq] at h
      exact Or.inr (Or.inl ⟨by omega, h ▸ hcheck, h ▸ hmarker⟩)
    · rw [hone, getElem?_cons_succ, getElem?_cons_zero, Option.some.injEq] at h
      exact Or.inr (Or.inr ⟨by omega, h ▸ hlast⟩)
    · rw [getElem?_eq_none (by simpa using hmore)] at h
      cases h

end FirstRun

/-! ## §4. Where a rollback can be. -/

variable (store plan data s₀)

/-- The store after the first `k` data phases. -/
def stage (k : Nat) : σ := (data.take k).foldl (fun s phase => store.effect plan phase s) s₀

/-- The store that is committed. -/
def finalStore : σ :=
  let rolled := store.deletePostTargetBackups plan (stage store plan data s₀ data.length)
  if plan.latestCheckpointId ≠ plan.targetCheckpointId then
    store.writeLatestCheckpointMarker plan.targetCheckpointId rolled
  else rolled

/-- The run without interruptions ends there. -/
def Uninterrupted (w : World σ) : Prop :=
  ∃ outcome, (executeRollbackPlan plan).run store.device ⟨s₀, plan⟩ = (.ok outcome, w)

/-- **AT PHASE `k`**, with the phases before it completed. -/
inductive At : Nat → World σ → Prop
  | data {k : Nat} {phase : ExecutableRollbackPhase} {s : σ} (hphase : data[k]? = some phase)
      (heffect : store.effect plan phase s =
        store.effect plan phase (stage store plan data s₀ k))
      (hmarker : store.latestCheckpointMarker s = plan.latestCheckpointId) :
      At k ⟨s, plan.upTo k⟩
  | check (hmarker : store.latestCheckpointMarker (stage store plan data s₀ data.length) =
      plan.latestCheckpointId) :
      At data.length ⟨stage store plan data s₀ data.length, plan.upTo data.length⟩
  | marker {s : σ}
      (hbackups : store.deletePostTargetBackups plan s =
        store.deletePostTargetBackups plan (stage store plan data s₀ data.length))
      (hmarker : store.latestCheckpointMarker s = plan.latestCheckpointId)
      (hpresent : Present store plan data (stage store plan data s₀ data.length))
      (hcounter : s = stage store plan data s₀ data.length ∨
        store.pendingCounterHighWater (stage store plan data s₀ data.length) =
          plan.latestPendingId) :
      At (data.length + 1) ⟨s, plan.upTo (data.length + 1)⟩

/-- **THE RECOVERY INVARIANT**: nothing has happened, some data phases are done, or the marker is
written and what is left is to delete backups and to check. -/
inductive Progress : World σ → Prop
  | start : Progress ⟨s₀, plan⟩
  | rolling {k : Nat} {w : World σ}
      (hcounter : store.pendingCounterHighWater s₀ = plan.latestPendingId)
      (hat : At store plan data s₀ k w) : Progress w
  | committed {k : Nat} {s final : σ}
      (hbackups : store.deletePostTargetBackups plan s = final)
      (hmarker : store.latestCheckpointMarker s = plan.targetCheckpointId)
      (hpresent : Present store plan data s) (hk : k ≤ data.length + 2)
      (hlatest : plan.latestCheckpointId = plan.targetCheckpointId → k = data.length + 2)
      (hrun : store.pendingCounterHighWater final = plan.latestPendingId →
        Uninterrupted store plan s₀ ⟨final, plan.upTo (data.length + 2)⟩) :
      Progress ⟨s, plan.upTo k⟩

/-- What a run returns with. -/
def Done (w : World σ) : Prop :=
  Progress store plan data s₀ w ∧ w.persisted = plan.upTo (data.length + 2) ∧
    Uninterrupted store plan s₀ w

variable {store plan data s₀}

theorem finalStore_of_ne (h : plan.latestCheckpointId ≠ plan.targetCheckpointId) :
    finalStore store plan data s₀ = store.writeLatestCheckpointMarker plan.targetCheckpointId
      (store.deletePostTargetBackups plan (stage store plan data s₀ data.length)) :=
  if_pos h

theorem finalStore_of_eq (h : plan.latestCheckpointId = plan.targetCheckpointId) :
    finalStore store plan data s₀ =
      store.deletePostTargetBackups plan (stage store plan data s₀ data.length) :=
  if_neg (not_not.mpr h)

theorem stage_succ (h : data[k]? = some phase) : stage store plan data s₀ (k + 1) =
      store.effect plan phase (stage store plan data s₀ k) := by
  unfold stage
  rw [take_add_one, h, foldl_append]
  rfl

theorem stage_of_le (h : data.length ≤ k) :
    stage store plan data s₀ k = stage store plan data s₀ data.length := by
  unfold stage
  rw [take_of_length_le h, take_length]

theorem At.facts {w : World σ} (h : At store plan data s₀ k w) :
    store.latestCheckpointMarker w.store = plan.latestCheckpointId ∧ k ≤ data.length + 1 ∧
      w.persisted = plan.upTo k := by
  cases h with
  | data hphase _ hmarker =>
    have hlt := (List.getElem?_eq_some_iff.mp hphase).1
    exact ⟨hmarker, by omega, rfl⟩
  | check hmarker => exact ⟨hmarker, by omega, rfl⟩
  | marker _ hmarker => exact ⟨hmarker, le_rfl, rfl⟩

namespace FirstRun

variable (F : FirstRun store plan data phases s₀)
include F

/-- The check of everything finds every effect. -/
theorem checks_iff {s : σ} :
    (∀ phase ∈ phases, phase.isData → store.check (plan.upTo k) phase s = .ok ()) ↔
      Present store plan data s := by
  have hiff : ∀ phase, phase.isData →
      (store.check (plan.upTo k) phase s = .ok () ↔ store.effect plan phase s = s) := by
    intro phase hdata
    rw [F.lawful.check_upTo, F.lawful.check_iff phase s hdata]
  obtain ⟨check, marker, rfl, hcheck, _, hmarker⟩ := F.order.split
  constructor
  · intro h phase hphase hdata
    exact (hiff phase hdata).mp (h phase (mem_append_left _ hphase) hdata)
  · intro h phase hphase hdata
    rcases mem_append.mp hphase with hphase | hphase
    · exact (hiff phase hdata).mpr (h phase hphase hdata)
    · simp only [mem_cons, not_mem_nil, or_false] at hphase
      rcases hphase with rfl | rfl
      · exact absurd hcheck (not_isData hdata).2
      · exact absurd hmarker (not_isData hdata).1

theorem marker_stage (k : Nat) : store.latestCheckpointMarker (stage store plan data s₀ k) =
    store.latestCheckpointMarker s₀ := by
  induction k with
  | zero => rfl
  | succ k ih =>
    cases hphase : data[k]? with
    | none =>
      have hle : data.length ≤ k := getElem?_eq_none_iff.mp hphase
      rw [stage_of_le (Nat.le_succ_of_le hle), ← stage_of_le hle, ih]
    | some phase =>
      rw [stage_succ hphase,
        F.lawful.effect_marker _ _ (F.order.isData phase (mem_of_getElem? hphase)), ih]

/-- The store is at a phase when the effects before it are there, and nothing else. -/
theorem at_stage (hk : k ≤ data.length)
    (hmarker : store.latestCheckpointMarker s₀ = plan.latestCheckpointId) :
    At store plan data s₀ k ⟨stage store plan data s₀ k, plan.upTo k⟩ := by
  have hstage := (F.marker_stage k).trans hmarker
  rcases Nat.lt_or_eq_of_le hk with hlt | rfl
  · exact At.data (getElem?_eq_getElem hlt) rfl hstage
  · exact At.check hstage

end FirstRun

end

end PsyNode.Rollback
