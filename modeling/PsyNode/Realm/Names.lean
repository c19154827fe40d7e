/-
PsyNode.Realm.Names
**JOB IDS OF A REALM.**

The id of a planned job holds its level in 8 bits and its slot in 64 bits; a
checkpoint upgrade holds its level in another field.  With at most 32 levels
there are less than `2 ^ 32` jobs, so an id determines its job
(`reached_jobId_nodup`).
-/
import PsyNode.Realm.Plan

namespace PsyNode.Realm

open Merkle Guta Recorder Store Lib.Agg Lib

variable {F Hash : Type} [QFelt64 F] [MerkleZeroHasher Hash] [DecidableEq Hash]
  [HashTo4Felts F Hash] [FieldQHasher F Hash]

/-- Level and slot, as an id holds them. -/
def idPosition (id : QProvingJobDataID) : Nat × Nat :=
  if id.circuitType = .gutaVerifyToCapWithCheckpointUpgrade then (id.subGroupId, id.taskIndex)
  else (id.groupId, id.subGroupId * 2 ^ 32 + id.taskIndex)

/-- What the id of a planned job says. -/
structure Named (j : PlannedJob F Hash) : Prop where
  position : j.level < 2 ^ 8 → j.slot < 2 ^ 64 → idPosition j.metadata.jobId = (j.level, j.slot)
  not_endCap : j.metadata.jobId.circuitType ≠ .userEndCap
  not_finalize : j.metadata.jobId.circuitType ≠ .realmFinalizeGUTA

/-- A 64-bit index survives being split. -/
theorem split_eq {n : Nat} (h : n < 2 ^ 64) : n / 2 ^ 32 % 2 ^ 32 * 2 ^ 32 + n % 2 ^ 32 = n := by
  omega

variable {config : RealmPlannerConfig Hash} {O : RecorderStore Hash → RecorderStore Hash → Prop}
  {start s : RecorderStore Hash} {ts : List (PlanTree F Hash)} {s' : RecorderStore Hash}
  {j : PlannedJob F Hash}

theorem Pairs.named {l r : PlanTree F Hash} (h : Pairs config s l r j s') : Named j := by
  cases h with
  | twoEndCap checkpointTree slot =>
    refine ⟨?_, nofun, nofun⟩
    intro _ hslot
    exact congrArg (Prod.mk 0) (split_eq hslot)
  | linear | leftGutaRightEndCap =>
    refine ⟨?_, nofun, nofun⟩
    intro hlevel hslot
    exact congrArg₂ Prod.mk (Nat.mod_eq_of_lt hlevel) (split_eq hslot)

variable {t : PlanTree F Hash}

theorem Wraps.named (h : Wraps config s t j s') : Named j := by
  cases h with
  | singleEndCap =>
    refine ⟨fun _ _ => ?_, nofun, nofun⟩
    show (0, 0 * 2 ^ 32 + 0) = (0, 0)
    rw [Nat.zero_mul]
  | upgrade => exact ⟨fun _ _ => rfl, nofun, nofun⟩

theorem reached_named (h : (machine config O).Reached start ts s) :
    ∀ t ∈ ts, ∀ j ∈ t.jobs, Named j := by
  intro t ht
  refine AggTree.Each.forall_jobs ?_
  refine Machine.Reached.each ?_ ?_ h t ht
  · intro ts s t j s' hstep _
    exact hstep.2.named
  · intro ts s l r j s' hstep _ _
    exact hstep.2.2.named

/-- There are less than `2 ^ 32` jobs in a tree. -/
theorem reached_jobs_length_lt
    (h : (machine config O).Reached start [t] s) : t.jobs.length < 2 ^ 32 := by
  have hmem : t ∈ [t] := List.mem_singleton_self t
  have hheight : t.height ≤ 32 :=
    (reached_leveled h t hmem).height_le (reached_level_lt h t hmem)
  exact t.jobs_length_lt.trans_le (Nat.pow_le_pow_right (by omega) hheight)

/-- **DISTINCT IDS.** -/
theorem reached_jobId_nodup
    (h : (machine config O).Reached start [t] s) : (t.jobs.map labels.jobId).Nodup := by
  have hmem : t ∈ [t] := List.mem_singleton_self t
  have hslotted : Slotted labels.level PlannedJob.slot t.jobs := by
    have := reached_slotted h
    rwa [stackJobs, List.flatMap_singleton] at this
  have hposition : ∀ j ∈ t.jobs, idPosition (labels.jobId j) = (j.level, j.slot) := by
    intro j hj
    have hlevel : j.level < 32 := reached_level_lt h t hmem j hj
    have hslot := (hslotted.slot_lt hj).trans (reached_jobs_length_lt h)
    exact (reached_named h t hmem j hj).position (by omega) (by omega)
  have hslots := hslotted.nodup
  rw [List.Nodup, List.pairwise_map] at hslots ⊢
  refine hslots.imp_of_mem ?_
  intro j k hj hk hne heq
  refine hne ?_
  exact (hposition j hj).symm.trans ((congrArg idPosition heq).trans (hposition k hk))

end PsyNode.Realm
