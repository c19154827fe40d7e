/-
PsyNode.Realm.RewardKeys
**THE REWARD KEYS OF BOTH PLANNERS** — a successful finalization gives the planned
jobs distinct positions of the reward tree, the final job the position it was
called with, and every dependency the position of its place below its job
(`planners_give_reward_keys`).
-/
import PsyNode.Coordinator.RewardKeys
import PsyNode.Realm.Schedule

namespace PsyNode.Realm

open Merkle Guta Recorder Store Lib.Agg Lib
open RealmGUTAPlanner
open Coordinator (RealmJobCall FinalizeCall planBlock BlockKeyed coordinator_keyed
  sampleCheckpointTree sampleRoot sampleCalls sampleFinalize)
open Coordinator.CoordinatorGUTAPlanner (FinalizeOutput)

variable {F Hash : Type} [QFelt64 F] [MerkleZeroHasher Hash] [DecidableEq Hash]
  [HashTo4Felts F Hash] [FieldQHasher F Hash]

/-! ## §1. The realm's keys. -/

section
variable {config : RealmPlannerConfig Hash}
  {O : RecorderStore Hash → RecorderStore Hash → Prop}
  {start s s' : RecorderStore Hash} {accepted : List (EndCap F Hash)}
  {t : PlanTree F Hash} {fin : PlannedJob F Hash} {out : RealmFinalizeOutput F Hash}
  {planner' : RealmGUTAPlanner F Hash}

/-- The keys of a finalized tree. -/
theorem Finalized.rewardKeyed (h : Finalized config O start accepted s t fin out planner' s')
    (hids : EndCapIds accepted) {rewardLevel rewardIndex : Nat} (hlevel : rewardLevel < 2 ^ 8)
    (hindex : rewardIndex < 2 ^ 64) (hkeyed : Keyed rewardLevel rewardIndex t fin out) :
    RewardKeyed out.jobIds.flatten out.gutaHeader.jobId rewardLevel rewardIndex := by
  have hroot : out.gutaHeader.jobId = (AggTree.wrap fin t).rootId labels := by
    rw [h.header]
    rfl
  have hheight : (AggTree.wrap fin t).height ≤ 32 := h.leveled.height_le h.level_lt
  rw [hkeyed, hroot]
  refine .of_visits hlevel hindex hheight ?_ (h.pays.jobId_nodup h.reached) h.wired ?_ ?_
  · have hperm := (levelTable_flatten_perm labels.level PlannedJob.metadata h.level_lt).map
      (fun job => (job.jobId, job.metadata.dependencies))
    rwa [List.map_map] at hperm
  · exact List.mem_map_of_mem (f := labels.jobId) (by simp [AggTree.jobs])
  · intro item hitem
    have hnot := h.endCap_not_job hids (h.inputs ▸ hitem)
    rwa [h.lists.jobId_perm.mem_iff] at hnot

end

/-! ## §2. Both planners. -/

/-- **REWARD KEYS FOLLOW THE SCHEDULE**, for both planners. -/
theorem planners_give_reward_keys (rewardLevel rewardIndex : Nat) (hlevel : rewardLevel < 2 ^ 8)
    (hindex : rewardIndex < 2 ^ 64) : (∀ (ext : Externals) (calls : List (RealmCall F Hash))
      (planner planner₁ planner₂ : RealmGUTAPlanner F Hash)
      (tree tree₁ tree₂ : SimpleMemoryMerkleRecorderStore Hash) (accepted : List (EndCap F Hash))
      (checkpointTree : PsyDashMemoryAppendOnlyMerkleStore Hash) (out : RealmFinalizeOutput F Hash),
      Created planner → runCalls ext calls planner tree = some (accepted, planner₁, tree₁) →
      EndCapIds accepted → accepted.length < 2 ^ 30 →
      finalizeWithRewardIds ext checkpointTree rewardLevel rewardIndex planner₁ tree₁ =
        .ok (some out, planner₂, tree₂) →
      RewardKeyed out.jobIds.flatten out.gutaHeader.jobId rewardLevel rewardIndex) ∧
    (∀ (syncedRoot : Hash) (calls : List (RealmJobCall F Hash)) (fin : FinalizeCall F Hash)
      (s s' : SimpleMemoryMerkleRecorderStore Hash) (out : FinalizeOutput F Hash),
      planBlock syncedRoot calls fin s = .ok (out, s') →
      fin.args.rewardTreeRootLevel = rewardLevel → fin.args.rewardTreeRootIndex = rewardIndex →
      calls.length ≤ 2 ^ 32 →
      (∀ call ∈ calls, call.job.jobId ∉ out.jobLevels.flatten.map (·.jobId)) →
      BlockKeyed calls fin.args out) := by
  refine ⟨?_, ?_⟩
  · intro ext calls planner planner₁ planner₂ tree tree₁ tree₂ accepted checkpointTree out hcreated
      hrun hids hbound hfinal
    obtain ⟨s₁, t, fin, hfinalized, hkeyed⟩ :=
      (hcreated.runCalls hrun hbound).exists_finalized hfinal
    exact hfinalized.rewardKeyed hids hlevel hindex (hkeyed hids)
  · intro syncedRoot calls fin s s' out hok hargsLevel hargsIndex hn hids
    exact coordinator_keyed hok (hargsLevel ▸ hlevel) (hargsIndex ▸ hindex) hn hids

/-- The sample realm and the sample block, from the position `(0, 0)`. -/
theorem planners_give_reward_keys_samples :
    (∃ planner₁ tree₁ out planner₂ tree₂,
      runCalls sampleExternals sampleRealmCalls (samplePlanner [0, 1, 3])
          (sampleUserTree [0, 1, 3]) =
        some ([sampleEndCap 0 0 1, sampleEndCap 1 0 1, sampleEndCap 0 1 2], planner₁, tree₁) ∧
      finalizeWithRewardIds sampleExternals (sampleCheckpointTree [.leaf 1]) 0 0 planner₁ tree₁ =
        .ok (some out, planner₂, tree₂) ∧
      out.jobIds.flatten.map (·.rewardKey) = [(2, 0), (1, 0), (0, 0)] ∧
      RewardKeyed out.jobIds.flatten out.gutaHeader.jobId 0 0) ∧
    ∃ out s', planBlock (sampleRoot [.leaf 1]) sampleCalls (sampleFinalize [.leaf 1, .leaf 2])
        (.new 2) = .ok (out, s') ∧
      BlockKeyed sampleCalls (sampleFinalize [.leaf 1, .leaf 2]).args out := by
  obtain ⟨hrealm, hcoordinator⟩ :=
    @planners_give_reward_keys Nat SymHash _ _ _ _ _ 0 0 (by decide) (by decide)
  refine ⟨?_, ?_⟩
  · have hkeys : (sampleOutput sampleRealmCalls [0, 1, 3]).map
        (fun res => (res.1, res.2.map (fun out => out.jobIds.flatten.map (·.rewardKey)))) =
        some ([sampleEndCap 0 0 1, sampleEndCap 1 0 1, sampleEndCap 0 1 2],
          some [(2, 0), (1, 0), (0, 0)]) := by
      decide +kernel
    obtain ⟨planner₁, tree₁, out, planner₂, tree₂, hrun, hfinal, hout⟩ :=
      exists_of_sampleOutput hkeys
    refine ⟨planner₁, tree₁, out, planner₂, tree₂, hrun, hfinal, hout, ?_⟩
    exact hrealm _ _ _ _ _ _ _ _ _ _ out (created_samplePlanner _) hrun
      (by simp [EndCapIds, sampleEndCap]) (by decide) hfinal
  · obtain ⟨out, s', hok, _⟩ := Coordinator.planBlock_sample
    refine ⟨out, s', hok, ?_⟩
    have hids : (planBlock (sampleRoot [.leaf 1]) sampleCalls (sampleFinalize [.leaf 1, .leaf 2])
        (.new 2)).toOption.map (fun res => decide (∀ call ∈ sampleCalls,
          call.job.jobId ∉ res.1.jobLevels.flatten.map (·.jobId))) = some true := by
      decide +kernel
    rw [hok] at hids
    exact hcoordinator _ _ _ _ _ _ hok rfl rfl (by decide)
      (of_decide_eq_true (Option.some.inj hids))

end PsyNode.Realm
