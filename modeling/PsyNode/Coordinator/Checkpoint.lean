/-
PsyNode.Coordinator.Checkpoint
**CHECKPOINT ROOTS OF A BLOCK.**

A leaf is brought to the current checkpoint root by a historical proof when it is
aggregated; an aggregate keeps the root of the call that built it.  So all inputs
of a job stand at one root exactly as long as the root does not move after the
first nodes were added.
-/
import PsyNode.Coordinator.Run

namespace PsyNode.Coordinator

open Merkle Guta Recorder Store Lib.Agg Lib List
open CoordinatorGUTAPlanner PsyDashMemoryAppendOnlyMerkleStore

/-! ## §1. The roots a job combines. -/

/-- The two inputs of an aggregation stand at one checkpoint root, after the historical
proofs of those that have one. -/
def GutaWitness.SameCheckpointRoot {F Hash : Type} : GutaWitness F Hash → Prop
  | .twoGUTAUpgradeCheckpoint input => input.leftHistoricalCheckpointMerkleProof.root =
      input.rightHistoricalCheckpointMerkleProof.root
  | .twoGUTA input => input.leftHeader.checkpointTreeRoot = input.rightHeader.checkpointTreeRoot
  | .twoGUTALinear input =>
    input.leftHeader.checkpointTreeRoot = input.rightHeader.checkpointTreeRoot
  | .leftLinearRightLeafUpgradeCheckpoint input =>
    input.leftHeader.checkpointTreeRoot = input.rightHistoricalCheckpointProof.root
  -- one input only
  | .toCap _ => True
  | .toCapUpgradeCheckpoint _ => True
  | .noChange _ => True

instance {F Hash : Type} [DecidableEq Hash] (w : GutaWitness F Hash) :
    Decidable w.SameCheckpointRoot := by
  cases w <;> (unfold GutaWitness.SameCheckpointRoot; infer_instance)

variable {F Hash : Type} [QFelt64 F] [MerkleZeroHasher Hash] [DecidableEq Hash]
  [HashTo4Felts F Hash] [FieldQHasher F Hash]

/-- The checkpoint tree a call gets was built by appending. -/
def BuiltByAppends (ctx : CallContext Hash) : Prop :=
  ∃ height leaves, appendLeaves 0 leaves (.new height) = .ok ctx.checkpointTree

/-- **UPGRADE PROOFS** at the index of the current root end in the current root. -/
theorem historicalCheckpointProof_root {ctx : CallContext Hash} (hbuilt : BuiltByAppends ctx)
    {index : Nat} (hindex : currentCheckpointIndex ctx = .ok index) {root : Hash}
    {proof : MerkleProofCore Hash} (hproof : historicalCheckpointProof ctx root index = .ok proof) :
    proof.root = ctx.currentCheckpointRoot := by
  obtain ⟨height, leaves, happend⟩ := hbuilt
  have hholds : Holds height leaves ctx.checkpointTree := (holds_new height).appendLeaves _ happend
  -- the current root is recorded for `index`
  have hroots : ctx.checkpointTree.roots ctx.currentCheckpointRoot = some index := by
    unfold currentCheckpointIndex getLeafIndexForRoot at hindex
    split at hindex
    next i hi =>
      injection hindex with hindex
      rw [hi, hindex]
    next => cases hindex
  -- and the proven root for some leaf `k`
  unfold historicalCheckpointProof getHistoricalIndexAppendOnlyMerkleProofForRoot at hproof
  split at hproof
  next k hk =>
    injection hproof with hproof
    obtain ⟨hklt, _⟩ := hholds.roots_sound _ _ hk
    rw [← hproof, hholds.historicalProof_root (appendLeaves_fits happend hklt).2]
    exact (hholds.roots_sound _ _ hroots).2
  next => exact absurd hproof (by simp [Except.mapError])

/-! ## §2. One root along a run. -/

/-- The contexts of a planner whose checkpoint root is `R`. -/
def AtRoot (R : Hash) (ctx : CallContext Hash) : Prop :=
  ctx.currentCheckpointRoot = R ∧ BuiltByAppends ctx

/-- A job at checkpoint root `R`. -/
def JobAtRoot (R : Hash) (j : PlannedJob F Hash) : Prop :=
  j.node.header.checkpointTreeRoot = R ∧ j.witness.SameCheckpointRoot

variable {R : Hash} {O : RecorderStore Hash → RecorderStore Hash → Prop}
  {start s : RecorderStore Hash} {ts : List (PlanTree F Hash)} {t : PlanTree F Hash}

omit [QFelt64 F] [MerkleZeroHasher Hash] [DecidableEq Hash] [HashTo4Felts F Hash]
  [FieldQHasher F Hash] in
/-- An aggregate stands at the root of its topmost job. -/
theorem aggregate_root (h : t.Each (fun j _ => JobAtRoot R j) (fun j _ _ => JobAtRoot R j))
    (htype : (nodeOf t).nodeType = .linearAggregated) :
    (nodeOf t).header.checkpointTreeRoot = R := by
  cases t with
  | input i => exact absurd htype (by simp [nodeOf, leafNode])
  | wrap j c => exact h.1.1
  | pair j l r => exact h.1.1

theorem reached_atRoot (h : (machine (AtRoot R) O).Reached start ts s) :
    ∀ t ∈ ts, t.Each (fun j _ => JobAtRoot R j) (fun j _ _ => JobAtRoot R j) := by
  refine Machine.Reached.each ?_ ?_ h
  · intro ts s t j s' hstep _
    exact absurd hstep id
  · intro ts s l r j s' hstep hl hr
    obtain ⟨_, ctx, w, hd, ct, ⟨hroot, hbuilt⟩, hok, hj⟩ := hstep
    subst hj
    cases aggregateCircuit_eq_ok hok with
    | leavesUpgrade _ _ _ _ _ _ hindex hleftProof hrightProof =>
      have hleft := historicalCheckpointProof_root hbuilt hindex hleftProof
      have hright := historicalCheckpointProof_root hbuilt hindex hrightProof
      exact ⟨hleft.trans hroot, hleft.trans hright.symm⟩
    | leaves _ _ _ _ _ _ hleftCp hrightCp =>
      exact ⟨hleftCp.trans hroot, hleftCp.trans hrightCp.symm⟩
    | linear hleftType hrightType =>
      have hleft := aggregate_root hl hleftType
      have hright := aggregate_root hr hrightType
      exact ⟨hleft, hleft.trans hright.symm⟩
    | mixed hleftType _ _ _ hindex hrightProof =>
      have hleft := aggregate_root hl hleftType
      have hright := historicalCheckpointProof_root hbuilt hindex hrightProof
      exact ⟨hleft, hleft.trans (hright.trans hroot).symm⟩

/-- **THE ROOT OF A BLOCK** stands at `R`, and so do the inputs of all its jobs. -/
theorem Rooted.atRoot (h : Rooted (AtRoot R) O start t s) :
    (nodeOf t).header.checkpointTreeRoot = R ∧ ∀ j ∈ t.jobs, JobAtRoot R j := by
  cases h with
  | joined hreached =>
    have heach := reached_atRoot hreached _ (mem_singleton_self _)
    exact ⟨heach.1.1, heach.forall_jobs⟩
  | @promoted i ctx w hd ct _ _ hreached hctx hok =>
    obtain ⟨hroot, hbuilt⟩ := hctx
    have hjob : JobAtRoot R (promotionJob ctx (leafNode i) w hd ct) := by
      cases promotionCircuit_eq_ok hok with
      | toCap _ _ _ hcp => exact ⟨hcp.trans hroot, trivial⟩
      | toCapUpgrade _ _ _ hindex hproof =>
        exact ⟨(historicalCheckpointProof_root hbuilt hindex hproof).trans hroot, trivial⟩
    exact ⟨hjob.1, forall_mem_singleton.mpr hjob⟩

/-- **A BLOCK WITHOUT SUBMISSIONS** is the no-change job at the current checkpoint root, and
leaves the tree alone. -/
structure NoChangeBlock (fin : FinalizeCall F Hash) (s : RecorderStore Hash)
    (out : FinalizeOutput F Hash) (s' : RecorderStore Hash)
    (input : GUTANoChangeFullInput Hash) : Prop where
  proof : ∃ index, currentCheckpointIndex fin.ctx = .ok index ∧
    historicalCheckpointProof fin.ctx fin.ctx.currentCheckpointRoot index =
      .ok input.checkpointTreeProof
  stateRoots : input.checkpointLeaf.globalStateRoots =
    fin.args.mostRecentCheckpointGlobalStateRoots
  header : out.rootGutaHeader = input.header fin.args.gutaCircuitWhitelist
  witness : ∃ id, out.savedWitnesses = [(id, .noChange input)]
  job : ∃ job, out.jobLevels = [[job]] ∧
    job.rewardKey = (fin.args.rewardTreeRootLevel, fin.args.rewardTreeRootIndex) ∧
    job.metadata.dependencies = []
  tree : s' = fin.others s

theorem planBlock_nil {syncedRoot : Hash} {fin : FinalizeCall F Hash} {out : FinalizeOutput F Hash}
    {s' : RecorderStore Hash} (hok : planBlock syncedRoot [] fin s = .ok (out, s')) :
    ∃ input, NoChangeBlock fin s out s' input := by
  -- a block without a realm job is finalized without a change
  change (finalizeNoChange fin.ctx fin.args _ >>= _) >>= _ = _ at hok
  obtain ⟨res, hres, hok⟩ := bind_eq_ok.mp hok
  obtain ⟨⟨header, planner⟩, hno, hres⟩ := bind_eq_ok.mp hres
  unfold finalizeNoChange at hno
  simp only [bind_eq_ok] at hno
  obtain ⟨index, hindex, proof, hproof, hno⟩ := hno
  cases hno
  cases hres
  dsimp only at hok
  rw [if_pos (by simp), bind_eq_ok] at hok
  obtain ⟨_, _, hok⟩ := hok
  cases hok
  exact ⟨_, ⟨index, hindex, hproof⟩, rfl, rfl, ⟨_, rfl⟩, ⟨_, rfl, rfl, rfl⟩, rfl⟩

/-- **ONE CHECKPOINT ROOT.**  If from the first committing call on every call, finalization
included, is given the same current checkpoint root, then every aggregation combines inputs
at one root and the block's header stands at the current root. -/
theorem coordinator_single_checkpoint_root {syncedRoot : Hash} {calls : List (RealmJobCall F Hash)}
    {fin : FinalizeCall F Hash} {out : FinalizeOutput F Hash}
    {s' : SimpleMemoryMerkleRecorderStore Hash} (hbuilt : ∀ call ∈ calls, BuiltByAppends call.ctx)
    (hfin : BuiltByAppends fin.ctx) (hsteady : ∀ call ∈ committing syncedRoot calls,
      call.ctx.currentCheckpointRoot = fin.ctx.currentCheckpointRoot)
    (hok : planBlock syncedRoot calls fin s = .ok (out, s')) :
    (∀ w ∈ out.savedWitnesses, w.2.SameCheckpointRoot) ∧
      out.rootGutaHeader.checkpointTreeRoot = fin.ctx.currentCheckpointRoot := by
  by_cases hcalls : calls = []
  · subst hcalls
    obtain ⟨input, hblock⟩ := planBlock_nil hok
    obtain ⟨index, hindex, hproof⟩ := hblock.proof
    obtain ⟨id, hsaved⟩ := hblock.witness
    refine ⟨?_, ?_⟩
    · rw [hsaved, forall_mem_singleton]
      trivial
    · rw [hblock.header]
      exact historicalCheckpointProof_root hfin hindex hproof
  · have hends := planBlock_ends (E := AtRoot fin.ctx.currentCheckpointRoot)
      (O := fun _ _ => True) syncedRoot calls fin s
      (fun call hcall => ⟨hsteady call hcall, hbuilt call (dropWhile_sublist _ |>.mem hcall)⟩)
      ⟨rfl, hfin⟩ (fun _ _ _ => trivial) (fun _ => trivial)
    obtain ⟨root, houtcome, _⟩ := hends.of_ok hok hcalls
    obtain ⟨hheader, hjobs⟩ := houtcome.rooted.atRoot
    refine ⟨?_, by rw [houtcome.header, hheader]⟩
    intro w hw
    rw [houtcome.witnesses] at hw
    obtain ⟨j, hj, rfl⟩ := mem_map.mp hw
    exact (hjobs j hj).2

/-- The sample block commits and finalizes at the root of two checkpoints. -/
theorem coordinator_single_checkpoint_root_three_submissions :
    ∃ out s', planBlock (sampleRoot [.leaf 1]) sampleCalls
        (sampleFinalize [.leaf 1, .leaf 2]) (.new 2) = .ok (out, s') ∧
      (∀ w ∈ out.savedWitnesses, w.2.SameCheckpointRoot) ∧
      out.rootGutaHeader.checkpointTreeRoot = sampleRoot [.leaf 1, .leaf 2] := by
  have hsample : ∀ leaves : List SymHash, leaves.length ≤ 4 →
      BuiltByAppends (sampleContext leaves) := by
    intro leaves hlen
    obtain ⟨st, hst⟩ := appendLeaves_succeeds (by decide) leaves (holds_new 2) (by simpa using hlen)
    refine ⟨2, leaves, ?_⟩
    simp only [length_nil] at hst
    simp only [sampleContext, sampleCheckpointTree, hst, Except.toOption, Option.getD_some]
  obtain ⟨out, s', hok, _⟩ := planBlock_sample
  refine ⟨out, s', hok, coordinator_single_checkpoint_root ?_ (hsample _ (by decide)) ?_ hok⟩
  · intro call hcall
    simp only [sampleCalls, mem_cons, not_mem_nil, or_false] at hcall
    rcases hcall with rfl | rfl | rfl
    all_goals exact hsample _ (by decide)
  · decide

/-- The checkpoint root moves when the second realm submits and again before the third:
the first two submissions are aggregated at the second root, the third one is upgraded to
the third root and joined with them, and the block's header is not at the current root. -/
theorem coordinator_mixes_checkpoint_roots :
    ∃ out s', planBlock (sampleRoot [.leaf 1])
        [sampleCall [.leaf 1] (sampleSubmission (sampleRoot [.leaf 1]) 0 .zero (.leaf 10)),
          sampleCall [.leaf 1, .leaf 2]
            (sampleSubmission (sampleRoot [.leaf 1, .leaf 2]) 1 .zero (.leaf 11)),
          sampleCall [.leaf 1, .leaf 2, .leaf 3]
            (sampleSubmission (sampleRoot [.leaf 1, .leaf 2, .leaf 3]) 2 .zero (.leaf 12))]
        (sampleFinalize [.leaf 1, .leaf 2, .leaf 3]) (.new 2) = .ok (out, s') ∧
      (∃ w ∈ out.savedWitnesses, ¬ w.2.SameCheckpointRoot) ∧
      out.rootGutaHeader.checkpointTreeRoot = sampleRoot [.leaf 1, .leaf 2] ∧
      out.rootGutaHeader.checkpointTreeRoot ≠ sampleRoot [.leaf 1, .leaf 2, .leaf 3] :=
  ⟨_, _, rfl, by decide, by decide, by decide⟩

end PsyNode.Coordinator
