/-
PsyNode.Coordinator.Plan
**WHAT THE COORDINATOR'S PLANNER BUILDS** — the planner refines a machine over a
stack of aggregation trees.

The pending nodes of the planner are the roots of trees that it never stores.
Here they are made explicit: `machine` is the stack machine whose inputs are the
realms' submissions and whose joins are the calls of `create_aggregate_job`.
-/
import PsyNode.Lib.StackMachine
import PsyNode.Coordinator.Planner

namespace PsyNode.Coordinator

open Merkle Guta Recorder Lib.Agg Lib List
open CoordinatorGUTAPlanner

/-! ## §1. Planned jobs and their trees. -/

/-- A realm's submission. -/
abbrev Submission (F Hash : Type) := GlobalUserTreeAggregatorHeaderWithTagValueAndJobID F Hash

/-- A job the planner created, with everything it recorded about it. -/
structure PlannedJob (F Hash : Type) where
  node : PlannerNode F Hash
  metadata : ProvingJob Hash
  witness : GutaWitness F Hash
  slot : Nat

/-- Aggregation trees of the coordinator. -/
abbrev PlanTree (F Hash : Type) := AggTree (Submission F Hash) (PlannedJob F Hash)

section
variable {F Hash : Type}

/-- The planner's node of a tree. -/
def nodeOf : PlanTree F Hash → PlannerNode F Hash
  | .input job => leafNode job
  | .wrap j _ => j.node
  | .pair j _ _ => j.node

/-- How the planner names submissions and jobs. -/
def labels : Labels (Submission F Hash) (PlannedJob F Hash) QProvingJobDataID where
  inputId := fun job => job.jobId
  jobId := fun j => j.metadata.jobId
  deps := fun j => j.metadata.metadata.dependencies
  level := fun j => j.node.logicalLevel - 1

/-- The planner has recorded exactly these jobs. -/
structure Planned (planner : CoordinatorGUTAPlanner F Hash) (js : List (PlannedJob F Hash)) :
    Prop where
  jobLevels : planner.jobLevels =
    levelTable labels.level PlannedJob.metadata (levelCount labels.level js) js
  jobWitnesses : planner.jobWitnesses = js.map (fun j => (j.metadata.jobId, j.witness))

variable (planner : CoordinatorGUTAPlanner F Hash)

/-- The part of the planner that adding nodes to the counter leaves alone. -/
def config : List (PlannerNode F Hash) × Bool × Hash × (QProvingJobDataID → Option Nat) :=
  (planner.queuedUpdates, planner.hasCommittedUpdates, planner.currentSyncedCheckpointRoot,
    planner.inputJobToRealm)

/-- Record one more job. -/
def record (job : PlannedJob F Hash) : CoordinatorGUTAPlanner F Hash :=
  { planner with
    jobWitnesses := planner.jobWitnesses ++ [(job.metadata.jobId, job.witness)]
    jobLevels := (planner.jobLevels ++
      List.replicate (labels.level job + 1 - planner.jobLevels.length) []).modify
        (labels.level job) (· ++ [job.metadata]) }

theorem Planned.record {planner : CoordinatorGUTAPlanner F Hash} {js : List (PlannedJob F Hash)}
    (h : Planned planner js) (job : PlannedJob F Hash) :
    Planned (record planner job) (js ++ [job]) := by
  refine ⟨?_, ?_⟩
  · show (planner.jobLevels ++ replicate _ []).modify _ _ = _
    rw [levelCount_concat, levelTable_concat, ← levelTable_resize, h.jobLevels, levelTable_length]
  · show planner.jobWitnesses ++ _ = _
    rw [h.jobWitnesses, map_append, map_singleton]

variable [QFelt64 F] [HashTo4Felts F Hash] [FieldQHasher F Hash]

/-- The job `create_aggregate_job` plans once the circuit is chosen. -/
def aggregateJob (ctx : CallContext Hash) (left right : PlannerNode F Hash) (slot : Nat)
    (witness : GutaWitness F Hash) (header : GutaHeader F Hash)
    (circuitType : ProvingJobCircuitType) : PlannedJob F Hash :=
  let level := max left.logicalLevel right.logicalLevel
  let jobId := QProvingJobDataID.newProofJobId ctx.uniquePendingId (level % 2 ^ 32) circuitType 0
    (slot % 2 ^ 32)
  { node := ⟨jobId, header, .linearAggregated, level + 1⟩
    metadata := GlobalUserTreeAggregatorHeaderWithJobId.toMetadataWithJobStandardChildren
      ⟨header, jobId⟩ [left.jobId, right.jobId]
    witness := witness
    slot := slot }

/-- The job `create_singlet_root_promotion_job` plans. -/
def promotionJob (ctx : CallContext Hash) (node : PlannerNode F Hash)
    (witness : GutaWitness F Hash) (header : GutaHeader F Hash)
    (circuitType : ProvingJobCircuitType) : PlannedJob F Hash :=
  let jobId := QProvingJobDataID.newProofJobId ctx.uniquePendingId 0 circuitType 0 0
  { node := ⟨jobId, header, .linearAggregated, 1⟩
    metadata :=
      { jobId := jobId
        metadata :=
          { expectedPublicInputsHash := header.qfhash
            rewardTreeHashMode := .liftChild
            rewardTreeNodeIndex := 0
            rewardTreeNodeLevel := 0
            rewardTreeNodeChildren := 1
            dependencies := [node.jobId] } }
    witness := witness
    slot := 0 }

/-- Every join of the tree is a job of `create_aggregate_job` for its two children. -/
def Joined : PlanTree F Hash → Prop :=
  AggTree.Each (fun _ _ => False)
    (fun j l r => ∃ ctx slot w h ct, j = aggregateJob ctx (nodeOf l) (nodeOf r) slot w h ct)

variable {t : PlanTree F Hash}

theorem Joined.logicalLevel (h : Joined t) : (nodeOf t).logicalLevel = t.height := by
  induction t with
  | input i => rfl
  | wrap j c _ => exact absurd h.1 id
  | pair j l r ihl ihr =>
    obtain ⟨⟨ctx, slot, w, hd, ct, rfl⟩, hl, hr⟩ := h
    show max (nodeOf l).logicalLevel (nodeOf r).logicalLevel + 1 = max l.height r.height + 1
    rw [ihl hl, ihr hr]

theorem Joined.nodeType (h : Joined t) :
    (nodeOf t).nodeType = if t.height = 0 then .inputLeaf else .linearAggregated := by
  cases t with
  | input i => rfl
  | wrap j c => exact absurd h.1 id
  | pair j l r =>
    obtain ⟨⟨ctx, slot, w, hd, ct, rfl⟩, _⟩ := h
    rfl

theorem Joined.eq_input (h : Joined t) (htype : (nodeOf t).nodeType = .inputLeaf) :
    ∃ i, t = .input i := by
  cases t with
  | input i => exact ⟨i, rfl⟩
  | wrap j c => exact absurd h.1 id
  | pair j l r =>
    rw [h.nodeType, if_neg (by simp [AggTree.height])] at htype
    cases htype

theorem Joined.height_pos (h : Joined t) (htype : (nodeOf t).nodeType = .linearAggregated) :
    0 < t.height := by
  by_contra hzero
  rw [h.nodeType, if_pos (by omega)] at htype
  cases htype

theorem Joined.jobId (h : Joined t) : (nodeOf t).jobId = t.rootId labels := by
  cases t with
  | input i => rfl
  | wrap j c => exact absurd h.1 id
  | pair j l r =>
    obtain ⟨⟨ctx, slot, w, hd, ct, rfl⟩, _⟩ := h
    rfl

theorem Joined.wired (h : Joined t) : t.Wired labels := by
  induction t with
  | input i => trivial
  | wrap j c _ => exact absurd h.1 id
  | pair j l r ihl ihr =>
    obtain ⟨⟨ctx, slot, w, hd, ct, rfl⟩, hl, hr⟩ := h
    refine ⟨?_, ihl hl, ihr hr⟩
    show [(nodeOf l).jobId, (nodeOf r).jobId] = _
    rw [Joined.jobId hl, Joined.jobId hr]

theorem Joined.levelIsHeight (h : Joined t) : t.LevelIsHeight labels := by
  induction t with
  | input i => trivial
  | wrap j c _ => exact absurd h.1 id
  | pair j l r ihl ihr =>
    obtain ⟨⟨ctx, slot, w, hd, ct, rfl⟩, hl, hr⟩ := h
    refine ⟨?_, ihl hl, ihr hr⟩
    show max (nodeOf l).logicalLevel (nodeOf r).logicalLevel = _
    rw [Joined.logicalLevel hl, Joined.logicalLevel hr]

end

/-! ## §2. The pair the planner refuses. -/

section
variable {F Hash : Type} [QFelt64 F] [MerkleZeroHasher Hash] [DecidableEq Hash]

theorem ensureInputLeaf_ends (tree : RecorderStore Hash)
    (header : GutaHeader F Hash) (pending : List (Nat × Hash)) :
    Ends (fun _ => True) (· ≠ .invalidPair)
      (ensureInputLeafMatchesGlobalTree tree header pending) := by
  unfold ensureInputLeafMatchesGlobalTree
  by_cases h : getLeafValueAfterPendingUpdates tree pending
      (toU64Value header.stateTransition.nodeIndex) = header.stateTransition.oldNodeValue
  · simp [h, Ends]
  · simp [h, Ends]

variable (ctx : CallContext Hash)

omit [DecidableEq Hash] [MerkleZeroHasher Hash] in
theorem currentCheckpointIndex_ends :
    Ends (fun _ => True) (· ≠ .invalidPair) (currentCheckpointIndex ctx) := by
  unfold currentCheckpointIndex
  split
  next => trivial
  next => simp [Ends]

omit [DecidableEq Hash] in
theorem historicalCheckpointProof_ends (root : Hash) (index : Nat) :
    Ends (fun _ => True) (· ≠ .invalidPair) (historicalCheckpointProof ctx root index) := by
  unfold historicalCheckpointProof
  cases ctx.checkpointTree.getHistoricalIndexAppendOnlyMerkleProofForRoot root index with
  | error e => simp [Ends, Except.mapError]
  | ok proof => trivial

/-- Only a leaf left of an aggregate is refused. -/
theorem aggregateCircuit_ends {left right : PlannerNode F Hash}
    (h : left.nodeType = .inputLeaf → right.nodeType = .inputLeaf) (s : RecorderStore Hash) :
    Ends (fun _ => True) (· ≠ .invalidPair) (aggregateCircuit ctx left right s) := by
  unfold aggregateCircuit
  cases hl : left.nodeType with
  | inputLeaf =>
    rw [h hl]
    refine (ensureInputLeaf_ends _ _ _).bind fun _ _ => ?_
    refine (ensureInputLeaf_ends _ _ _).bind fun _ _ => ?_
    dsimp only
    split
    next =>
      refine (currentCheckpointIndex_ends ctx).bind fun _ _ => ?_
      refine (historicalCheckpointProof_ends ctx _ _).bind fun _ _ => ?_
      refine (historicalCheckpointProof_ends ctx _ _).bind fun _ _ => ?_
      trivial
    next => trivial
  | linearAggregated =>
    cases hr : right.nodeType with
    | linearAggregated => trivial
    | inputLeaf =>
      refine (ensureInputLeaf_ends _ _ _).bind fun _ _ => ?_
      refine (currentCheckpointIndex_ends ctx).bind fun _ _ => ?_
      refine (historicalCheckpointProof_ends ctx _ _).bind fun _ _ => ?_
      trivial

theorem promotionCircuit_ends (node : PlannerNode F Hash) (s : RecorderStore Hash) :
    Ends (fun _ => True) (· ≠ .invalidPair) (promotionCircuit ctx node s) := by
  refine (ensureInputLeaf_ends _ _ _).bind fun _ _ => ?_
  dsimp only
  split
  next => simp [Ends]
  next =>
    split
    next => trivial
    next =>
      refine (currentCheckpointIndex_ends ctx).bind fun _ _ => ?_
      refine (historicalCheckpointProof_ends ctx _ _).bind fun _ _ => ?_
      trivial

/-! ## §3. What a chosen circuit says. -/

/-- The header starts from its leaf, after the pending updates. -/
abbrev UpToDate (tree : RecorderStore Hash) (pending : List (Nat × Hash))
    (header : GlobalUserTreeAggregatorHeader F Hash) : Prop :=
  getLeafValueAfterPendingUpdates tree pending (toU64Value header.stateTransition.nodeIndex) =
    header.stateTransition.oldNodeValue

theorem ensureInputLeaf_eq_ok {tree : RecorderStore Hash}
    {header : GutaHeader F Hash} {pending : List (Nat × Hash)} {u : Unit} :
    ensureInputLeafMatchesGlobalTree tree header pending = .ok u ↔
      UpToDate tree pending header := by
  unfold ensureInputLeafMatchesGlobalTree
  rw [ite_error_eq_ok, not_not, and_iff_left rfl]

/-- The four ways `create_aggregate_job` can go, with everything it checked.  The leaves
are written left before right, and the delta proofs are those of the writes. -/
inductive Aggregates (ctx : CallContext Hash) (left right : PlannerNode F Hash)
    (s : RecorderStore Hash) : GutaWitness F Hash → GutaHeader F Hash → RecorderStore Hash → Prop
  | leavesUpgrade {index : Nat} {leftProof rightProof : MerkleProofCore Hash}
      {s₁ s₂ : RecorderStore Hash} {leftDmp rightDmp : DeltaMerkleProofCore Hash}
      (hleftType : left.nodeType = .inputLeaf) (hrightType : right.nodeType = .inputLeaf)
      (hleft : UpToDate s [] left.header)
      (hright : UpToDate s [(toU64Value left.header.stateTransition.nodeIndex,
        left.header.stateTransition.newNodeValue)] right.header)
      (hleftDmp : applyInputLeafUpdateToGlobalTree s left.header = (s₁, leftDmp))
      (hrightDmp : applyInputLeafUpdateToGlobalTree s₁ right.header = (s₂, rightDmp))
      (hindex : currentCheckpointIndex ctx = .ok index)
      (hleftProof : historicalCheckpointProof ctx left.header.checkpointTreeRoot index =
        .ok leftProof)
      (hrightProof : historicalCheckpointProof ctx right.header.checkpointTreeRoot index =
        .ok rightProof) :
      Aggregates ctx left right s
        (.twoGUTAUpgradeCheckpoint ⟨left.header, leftDmp, leftProof, right.header, rightDmp,
          rightProof⟩)
        (twoGutaHeader leftProof.root left.header right.header leftDmp rightDmp) s₂
  | leaves {s₁ s₂ : RecorderStore Hash}
      {leftDmp rightDmp : DeltaMerkleProofCore Hash}
      (hleftType : left.nodeType = .inputLeaf) (hrightType : right.nodeType = .inputLeaf)
      (hleft : UpToDate s [] left.header)
      (hright : UpToDate s [(toU64Value left.header.stateTransition.nodeIndex,
        left.header.stateTransition.newNodeValue)] right.header)
      (hleftDmp : applyInputLeafUpdateToGlobalTree s left.header = (s₁, leftDmp))
      (hrightDmp : applyInputLeafUpdateToGlobalTree s₁ right.header = (s₂, rightDmp))
      (hleftCp : left.header.checkpointTreeRoot = ctx.currentCheckpointRoot)
      (hrightCp : right.header.checkpointTreeRoot = ctx.currentCheckpointRoot) :
      Aggregates ctx left right s (.twoGUTA ⟨left.header, leftDmp, right.header, rightDmp⟩)
        (twoGutaHeader left.header.checkpointTreeRoot left.header right.header leftDmp rightDmp) s₂
  | linear (hleftType : left.nodeType = .linearAggregated)
      (hrightType : right.nodeType = .linearAggregated) :
      Aggregates ctx left right s (.twoGUTALinear ⟨left.header, right.header⟩)
        (linearHeader left.header right.header.stateTransition.newNodeValue right.header.stats
          right.header.totalAggregationProofsGenerated) s
  | mixed {index : Nat} {rightProof : MerkleProofCore Hash}
      {s₁ : RecorderStore Hash} {rightDmp : DeltaMerkleProofCore Hash}
      (hleftType : left.nodeType = .linearAggregated) (hrightType : right.nodeType = .inputLeaf)
      (hright : UpToDate s [] right.header)
      (hrightDmp : applyInputLeafUpdateToGlobalTree s right.header = (s₁, rightDmp))
      (hindex : currentCheckpointIndex ctx = .ok index)
      (hrightProof : historicalCheckpointProof ctx right.header.checkpointTreeRoot index =
        .ok rightProof) :
      Aggregates ctx left right s
        (.leftLinearRightLeafUpgradeCheckpoint ⟨left.header, right.header, rightDmp, rightProof⟩)
        (linearHeader left.header rightDmp.newRoot right.header.stats
          right.header.totalAggregationProofsGenerated) s₁

variable {h : GutaHeader F Hash} {ct : ProvingJobCircuitType}
  {w : GutaWitness F Hash}

/-- **INVERSION** of the choice of the circuit. -/
theorem aggregateCircuit_eq_ok {ctx : CallContext Hash} {left right : PlannerNode F Hash}
    {s s' : RecorderStore Hash} (hok : aggregateCircuit ctx left right s = .ok (w, h, ct, s')) :
    Aggregates ctx left right s w h s' := by
  unfold aggregateCircuit at hok
  cases hl : left.nodeType with
  | inputLeaf =>
    cases hr : right.nodeType with
    | linearAggregated =>
      rw [hl, hr] at hok
      cases hok
    | inputLeaf =>
      rw [hl, hr] at hok
      simp only [bind_eq_ok, ensureInputLeaf_eq_ok] at hok
      obtain ⟨_, hleft, _, hright, hok⟩ := hok
      split at hok
      next =>
        simp only [bind_eq_ok] at hok
        obtain ⟨index, hindex, leftProof, hleftProof, rightProof, hrightProof, hok⟩ := hok
        cases hok
        exact .leavesUpgrade hl hr hleft hright rfl rfl hindex hleftProof hrightProof
      next hcp =>
        obtain ⟨hleftCp, hrightCp⟩ := not_or.mp hcp
        rw [not_not] at hleftCp hrightCp
        cases hok
        exact .leaves hl hr hleft hright rfl rfl hleftCp hrightCp
  | linearAggregated =>
    cases hr : right.nodeType with
    | linearAggregated =>
      rw [hl, hr] at hok
      cases hok
      exact .linear hl hr
    | inputLeaf =>
      rw [hl, hr] at hok
      simp only [bind_eq_ok, ensureInputLeaf_eq_ok] at hok
      obtain ⟨_, hright, index, hindex, rightProof, hrightProof, hok⟩ := hok
      cases hok
      exact .mixed hl hr hright rfl hindex hrightProof

/-- The two ways `create_singlet_root_promotion_job` can go. -/
inductive Promotes (ctx : CallContext Hash) (node : PlannerNode F Hash)
    (s : RecorderStore Hash) : GutaWitness F Hash → GutaHeader F Hash → RecorderStore Hash → Prop
  | toCap {s₁ : RecorderStore Hash} {dmp : DeltaMerkleProofCore Hash}
      (hold : UpToDate s [] node.header)
      (hlevel : s.effectiveHeight ≤ toU64Value node.header.stateTransition.nodeLevel)
      (hdmp : applyInputLeafUpdateToGlobalTree s node.header = (s₁, dmp))
      (hcp : node.header.checkpointTreeRoot = ctx.currentCheckpointRoot) :
      Promotes ctx node s (.toCap ⟨node.header, dmp.siblings⟩)
        (VerifyGUTAToCapCircuitInputSimple.getNewGutaHeader ⟨node.header, dmp.siblings⟩) s₁
  | toCapUpgrade {index : Nat} {proof : MerkleProofCore Hash}
      {s₁ : RecorderStore Hash} {dmp : DeltaMerkleProofCore Hash}
      (hold : UpToDate s [] node.header)
      (hlevel : s.effectiveHeight ≤ toU64Value node.header.stateTransition.nodeLevel)
      (hdmp : applyInputLeafUpdateToGlobalTree s node.header = (s₁, dmp))
      (hindex : currentCheckpointIndex ctx = .ok index)
      (hproof : historicalCheckpointProof ctx node.header.checkpointTreeRoot index = .ok proof) :
      Promotes ctx node s
        (.toCapUpgradeCheckpoint ⟨node.header, dmp.siblings, proof,
          node.header.totalAggregationProofsGenerated⟩)
        (VerifyGUTAToCapUpgradeCheckpointCircuitInputSimple.getNewGutaHeader
          ⟨node.header, dmp.siblings, proof, node.header.totalAggregationProofsGenerated⟩) s₁

theorem promotionCircuit_eq_ok {ctx : CallContext Hash} {node : PlannerNode F Hash}
    {s s' : RecorderStore Hash}
    (hok : promotionCircuit ctx node s = .ok (w, h, ct, s')) : Promotes ctx node s w h s' := by
  unfold promotionCircuit at hok
  simp only [bind_eq_ok, ensureInputLeaf_eq_ok, ite_error_eq_ok, not_lt] at hok
  obtain ⟨_, hold, hlevel, hok⟩ := hok
  split at hok
  next hcp =>
    cases hok
    exact .toCap hold hlevel rfl hcp
  next =>
    simp only [bind_eq_ok] at hok
    obtain ⟨index, hindex, proof, hproof, hok⟩ := hok
    cases hok
    exact .toCapUpgrade hold hlevel rfl hindex hproof

end

/-! ## §4. The machine. -/

section
variable {F Hash : Type} [QFelt64 F] [MerkleZeroHasher Hash] [DecidableEq Hash]
  [HashTo4Felts F Hash] [FieldQHasher F Hash]

/-- **THE COORDINATOR'S MACHINE.**  A submission is pushed without touching the user tree;
a join is a successful `create_aggregate_job` in a context of `E`, with no leaf waiting
below it.  Between the planner's calls other code may change the tree as `O` allows. -/
def machine (E : CallContext Hash → Prop) (O : RecorderStore Hash → RecorderStore Hash → Prop) :
    Machine (RecorderStore Hash) (Submission F Hash) (PlannedJob F Hash) where
  idle := O
  shift := fun s _ s' => s' = s
  wrap := fun _ _ _ _ _ => False
  pair := fun ts s l r j s' =>
    (∀ t ∈ ts, 0 < t.height) ∧ ∃ ctx w h ct, E ctx ∧
      aggregateCircuit ctx (nodeOf l) (nodeOf r) s = .ok (w, h, ct, s') ∧
      j = aggregateJob ctx (nodeOf l) (nodeOf r)
        ((stackJobs (ts ++ [l, r])).filter (fun k => labels.level k =
          max (nodeOf l).logicalLevel (nodeOf r).logicalLevel)).length w h ct

variable {E : CallContext Hash → Prop}
  {O : RecorderStore Hash → RecorderStore Hash → Prop}
  {start s : RecorderStore Hash} {ts : List (PlanTree F Hash)}

theorem reached_joined (h : (machine E O).Reached start ts s) : ∀ t ∈ ts, Joined t := by
  refine Machine.Reached.each ?_ ?_ h
  · intro ts s t j s' hstep _
    exact hstep
  · intro ts s l r j s' hstep _ _
    obtain ⟨_, ctx, w, hd, ct, _, _, hj⟩ := hstep
    exact ⟨ctx, _, w, hd, ct, hj⟩

theorem reached_slotted (h : (machine E O).Reached start ts s) :
    Slotted labels.level PlannedJob.slot (stackJobs ts) := by
  refine Machine.Reached.slotted ?_ ?_ h
  · intro ts s t j s' hstep
    exact absurd hstep id
  · intro ts s l r j s' hstep
    obtain ⟨_, ctx, w, hd, ct, _, _, hj⟩ := hstep
    rw [hj]
    rfl

variable {planner : CoordinatorGUTAPlanner F Hash} {ctx : CallContext Hash}

/-- **`create_aggregate_job`** chooses the circuit and records the job. -/
theorem createAggregateJob_eq {js : List (PlannedJob F Hash)} (h : Planned planner js)
    {left right : PlannerNode F Hash} : createAggregateJob ctx planner s left right =
      (aggregateCircuit ctx left right s >>= fun (w, hd, ct, s') =>
        let job := aggregateJob ctx left right ((js.filter (fun k => labels.level k =
          max left.logicalLevel right.logicalLevel)).length) w hd ct
        .ok (job.node, record planner job, s')) := by
  have hslot (level : Nat) : ((planner.jobLevels ++ replicate
      (level + 1 - planner.jobLevels.length) []).getD level []).length =
      (js.filter (fun k => labels.level k = level)).length := by
    rw [h.jobLevels, levelTable_length, levelTable_resize, getD_eq_getElem?_getD,
      levelTable_getElem? _ _ _ (by omega), Option.getD_some, length_map]
  unfold createAggregateJob
  simp only [Nat.add_sub_cancel, hslot]
  rfl

variable (E O start) in
/-- The planner has joined these submissions into the trees of a stack. -/
structure Stacked (added : List (Submission F Hash)) (ts : List (PlanTree F Hash))
    (planner : CoordinatorGUTAPlanner F Hash) (s : RecorderStore Hash) : Prop where
  inputs : stackInputs ts = added
  planned : Planned planner (stackJobs ts)
  reached : (machine E O).Reached start ts s

/-- **ONE JOIN.**  With aggregates below and not a leaf left of an aggregate,
`create_aggregate_job` is a step of the machine and records its job. -/
theorem createAggregateJob_ends (hctx : E ctx) {l r : PlanTree F Hash}
    {added : List (Submission F Hash)} (h : Stacked E O start added (ts ++ [l, r]) planner s)
    (hts : ∀ t ∈ ts, 0 < t.height) (hleaf : l.height = 0 → r.height = 0) :
    Ends (fun res => ∃ j, res.1 = nodeOf (.pair j l r) ∧
        Stacked E O start added (ts ++ [.pair j l r]) res.2.1 res.2.2 ∧
        config res.2.1 = config planner)
      (· ≠ .invalidPair) (createAggregateJob ctx planner s (nodeOf l) (nodeOf r)) := by
  have hl : Joined l := reached_joined h.reached l (by simp)
  have hr : Joined r := reached_joined h.reached r (by simp)
  have htype : (nodeOf l).nodeType = .inputLeaf → (nodeOf r).nodeType = .inputLeaf := by
    rw [hl.nodeType, hr.nodeType]
    intro h
    rw [if_pos (hleaf (by by_contra h0; simp [h0] at h))]
  rw [createAggregateJob_eq h.planned]
  refine (aggregateCircuit_ends ctx htype s).eq_ok.bind ?_
  intro res hres
  obtain ⟨w, hd, ct, s'⟩ := res
  refine ⟨_, rfl, ⟨?_, ?_, h.reached.pair ⟨hts, ctx, w, hd, ct, hctx, hres.1, rfl⟩⟩, rfl⟩
  · rw [← h.inputs]
    simp [stackInputs, AggTree.inputs]
  · have hrecord := h.planned.record (aggregateJob ctx (nodeOf l) (nodeOf r)
      ((stackJobs (ts ++ [l, r])).filter (fun k => labels.level k =
        max (nodeOf l).logicalLevel (nodeOf r).logicalLevel)).length w hd ct)
    simpa [stackJobs, AggTree.jobs] using hrecord

end

end PsyNode.Coordinator
