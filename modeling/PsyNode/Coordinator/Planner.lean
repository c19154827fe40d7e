/-
PsyNode.Coordinator.Planner
**THE COORDINATOR'S GUTA PLANNER** — `CoordinatorGUTAPlanner` of
`coordinator_guta_planner.rs`.

Realm submissions are queued until the checkpoint root moves; from then on they
go straight into a binary counter of pending sub-trees, whose carries plan the
aggregation jobs.  Finalization folds what is left from right to left, promotes
a lone leaf, or plans a no-change proof.

  * A call gets the planner and the global user tree and returns both.
  * A witness is kept as the circuit input that the source serialises.
  * The maps from jobs to realms and from realms to reward keys are functions to
    `Option`.
  * What the temporary store answers when the witnesses are saved is an argument.
-/
import PsyNode.Guta.Header
import PsyNode.Recorder.Tree
import PsyNode.Store.AppendOnly

namespace PsyNode.Coordinator

open Merkle Guta Recorder Store

/-! ## §1. State. -/

/-- A submission or an aggregate. -/
inductive PlannerNodeType
  /-- A raw input proof from a realm. -/
  | inputLeaf
  /-- A proof of a transition of the root. -/
  | linearAggregated
deriving DecidableEq

/-- `PlannerNode`: a node of the aggregation tree being built. -/
structure PlannerNode (F Hash : Type) where
  jobId : QProvingJobDataID
  header : GlobalUserTreeAggregatorHeader F Hash
  nodeType : PlannerNodeType
  logicalLevel : Nat

/-- The circuit input whose bytes a witness holds. -/
inductive GutaWitness (F Hash : Type)
  | twoGUTAUpgradeCheckpoint (input : GUTAVerifyTwoGUTAUpgradeCheckpointCircuitInputV2 F Hash)
  | twoGUTA (input : GUTAVerifyTwoGUTACircuitInputV2 F Hash)
  | twoGUTALinear (input : GUTAVerifyTwoGUTALinearCircuitInput F Hash)
  | leftLinearRightLeafUpgradeCheckpoint
      (input : GUTAVerifyLeftLinearRightLeafUpgradeCheckpointCircuitInput F Hash)
  | toCap (input : VerifyGUTAToCapCircuitInputSimple F Hash)
  | toCapUpgradeCheckpoint (input : VerifyGUTAToCapUpgradeCheckpointCircuitInputSimple F Hash)
  | noChange (input : GUTANoChangeFullInput Hash)

/-- What is planned, and the sub-trees that wait. -/
structure CoordinatorGUTAPlanner (F Hash : Type) where
  jobWitnesses : List (QProvingJobDataID × GutaWitness F Hash)
  jobLevels : List (List (PsyProvingJobMetadataWithJobId Hash))
  waitingNodes : List (Option (PlannerNode F Hash))
  queuedUpdates : List (PlannerNode F Hash)
  hasCommittedUpdates : Bool
  currentSyncedCheckpointRoot : Hash
  inputJobToRealm : QProvingJobDataID → Option Nat
  inputRealmRewardKeys : Nat → Option NodeKey

/-- What makes a planner call fail. -/
inductive PlannerError (Hash : Type)
  | staleUpdate (nodeIndex : Nat) (expectedOldValue actualOldValue newValue checkpointRoot : Hash)
  | currentRootNotFound (root : Hash)
  | checkpointTree (message : String)
  | invalidPair
  | promotionHeight (effectiveHeight nodeLevel : Nat)
  | emptyJobList
  /-- The recursion over dependencies does not end. -/
  | stackOverflow
  | tempStore (message : String)

/-- What a caller hands to every planner call. -/
structure CallContext (Hash : Type) where
  uniquePendingId : Nat
  currentCheckpointRoot : Hash
  checkpointTree : AppendOnlyStore Hash

/-- The planner's node of a realm's submission. -/
def leafNode {F Hash : Type} (job : GlobalUserTreeAggregatorHeaderWithTagValueAndJobID F Hash) :
    PlannerNode F Hash where
  jobId := job.jobId
  header := job.header.header
  nodeType := .inputLeaf
  logicalLevel := 0

namespace CoordinatorGUTAPlanner

/-- Nothing planned yet. -/
def new {F Hash : Type} (currentSyncedCheckpointRoot : Hash) : CoordinatorGUTAPlanner F Hash where
  jobWitnesses := []
  jobLevels := []
  waitingNodes := []
  queuedUpdates := []
  hasCommittedUpdates := false
  currentSyncedCheckpointRoot := currentSyncedCheckpointRoot
  inputJobToRealm := fun _ => none
  inputRealmRewardKeys := fun _ => none

variable {F Hash : Type} [QFelt64 F] [MerkleZeroHasher Hash] [DecidableEq Hash]

/-! ## §2. The user tree. -/

variable (globalUserTree : RecorderStore Hash)

/-- A leaf, the updates applied. -/
def getLeafValueAfterPendingUpdates (pendingUpdates : List (Nat × Hash)) (index : Nat) : Hash :=
  (pendingUpdates.reverse.findSome?
    (fun update => if update.1 = index then some update.2 else none)).getD
      (globalUserTree.getELeafValue index)

variable (header : GlobalUserTreeAggregatorHeader F Hash)

/-- Refuses a header that does not start from its leaf. -/
def ensureInputLeafMatchesGlobalTree
    (pendingUpdates : List (Nat × Hash)) : Except (PlannerError Hash) Unit :=
  let nodeIndex := toU64Value header.stateTransition.nodeIndex
  let expectedOldValue := header.stateTransition.oldNodeValue
  let actualOldValue := getLeafValueAfterPendingUpdates globalUserTree pendingUpdates nodeIndex
  if actualOldValue ≠ expectedOldValue then
    .error (.staleUpdate nodeIndex expectedOldValue actualOldValue
      header.stateTransition.newNodeValue header.checkpointTreeRoot)
  else .ok ()

/-- Writes the new leaf. -/
def applyInputLeafUpdateToGlobalTree : RecorderStore Hash × DeltaMerkleProofCore Hash :=
  globalUserTree.setELeaf (toU64Value header.stateTransition.nodeIndex)
    header.stateTransition.newNodeValue

variable (ctx : CallContext Hash)

/-- The index of the current root in the checkpoint tree, or the error of the source. -/
def currentCheckpointIndex : Except (PlannerError Hash) Nat :=
  match ctx.checkpointTree.getLeafIndexForRoot ctx.currentCheckpointRoot with
  | some index => .ok index
  | none => .error (.currentRootNotFound ctx.currentCheckpointRoot)

/-- The proof that `root` was a checkpoint root at the time of `index`. -/
def historicalCheckpointProof (root : Hash) (index : Nat) :
    Except (PlannerError Hash) (MerkleProofCore Hash) :=
  (ctx.checkpointTree.getHistoricalIndexAppendOnlyMerkleProofForRoot root index).mapError
    .checkpointTree

/-! ## §3. Aggregation jobs. -/

/-- The choice of the circuit in `create_aggregate_job`: witness, header, circuit type,
and the user tree with the input leaves written to it. -/
def aggregateCircuit (left right : PlannerNode F Hash) (globalUserTree : RecorderStore Hash) :
    Except (PlannerError Hash) (GutaWitness F Hash × GlobalUserTreeAggregatorHeader F Hash ×
      ProvingJobCircuitType × RecorderStore Hash) :=
  let leftCp := left.header.checkpointTreeRoot
  let rightCp := right.header.checkpointTreeRoot
  match left.nodeType, right.nodeType with
  | .inputLeaf, .inputLeaf => do
    ensureInputLeafMatchesGlobalTree globalUserTree left.header []
    ensureInputLeafMatchesGlobalTree globalUserTree right.header
      [(toU64Value left.header.stateTransition.nodeIndex,
        left.header.stateTransition.newNodeValue)]
    let (globalUserTree, leftDmp) := applyInputLeafUpdateToGlobalTree globalUserTree left.header
    let (globalUserTree, rightDmp) := applyInputLeafUpdateToGlobalTree globalUserTree right.header
    if leftCp ≠ ctx.currentCheckpointRoot ∨ rightCp ≠ ctx.currentCheckpointRoot then do
      let index ← currentCheckpointIndex ctx
      let leftProof ← historicalCheckpointProof ctx leftCp index
      let rightProof ← historicalCheckpointProof ctx rightCp index
      let input : GUTAVerifyTwoGUTAUpgradeCheckpointCircuitInputV2 F Hash :=
        { leftHeader := left.header
          leftGlobalUserTreeDeltaMerkleProof := leftDmp
          leftHistoricalCheckpointMerkleProof := leftProof
          rightHeader := right.header
          rightGlobalUserTreeDeltaMerkleProof := rightDmp
          rightHistoricalCheckpointMerkleProof := rightProof }
      .ok (.twoGUTAUpgradeCheckpoint input, input.getNewGutaHeader,
        .gutaTwoGUTAWithCheckpointUpgrade, globalUserTree)
    else
      let input : GUTAVerifyTwoGUTACircuitInputV2 F Hash :=
        { leftHeader := left.header
          leftGlobalUserTreeDeltaMerkleProof := leftDmp
          rightHeader := right.header
          rightGlobalUserTreeDeltaMerkleProof := rightDmp }
      .ok (.twoGUTA input, input.getNewGutaHeader, .gutaTwoGUTA, globalUserTree)
  | .linearAggregated, .linearAggregated =>
    let input : GUTAVerifyTwoGUTALinearCircuitInput F Hash :=
      { leftHeader := left.header, rightHeader := right.header }
    .ok (.twoGUTALinear input, input.getNewGutaHeader, .gutaTwoGUTALinear, globalUserTree)
  | .linearAggregated, .inputLeaf => do
    ensureInputLeafMatchesGlobalTree globalUserTree right.header []
    let (globalUserTree, rightDmp) := applyInputLeafUpdateToGlobalTree globalUserTree right.header
    let index ← currentCheckpointIndex ctx
    let rightProof ← historicalCheckpointProof ctx rightCp index
    let input : GUTAVerifyLeftLinearRightLeafUpgradeCheckpointCircuitInput F Hash :=
      { leftHeader := left.header
        rightHeader := right.header
        rightGlobalUserTreeDeltaMerkleProof := rightDmp
        rightHistoricalCheckpointProof := rightProof }
    .ok (.leftLinearRightLeafUpgradeCheckpoint input, input.getNewGutaHeader,
      .gutaVerifyLeftLinearRightLeafUpgradeCheckpoint, globalUserTree)
  | .inputLeaf, .linearAggregated => .error .invalidPair

/-- The checks and the choice of the circuit in `create_singlet_root_promotion_job`. -/
def promotionCircuit (node : PlannerNode F Hash) (globalUserTree : RecorderStore Hash) :
    Except (PlannerError Hash) (GutaWitness F Hash × GlobalUserTreeAggregatorHeader F Hash ×
      ProvingJobCircuitType × RecorderStore Hash) := do
  ensureInputLeafMatchesGlobalTree globalUserTree node.header []
  let nodeLevel := toU64Value node.header.stateTransition.nodeLevel
  if nodeLevel < globalUserTree.effectiveHeight then
    .error (.promotionHeight globalUserTree.effectiveHeight nodeLevel)
  else do
    let (globalUserTree, dmp) := applyInputLeafUpdateToGlobalTree globalUserTree node.header
    if node.header.checkpointTreeRoot = ctx.currentCheckpointRoot then
      let input : VerifyGUTAToCapCircuitInputSimple F Hash :=
        { gutaProofHeader := node.header, topLineSiblings := dmp.siblings }
      .ok (.toCap input, input.getNewGutaHeader, .gutaVerifyToCap, globalUserTree)
    else do
      let index ← currentCheckpointIndex ctx
      let proof ← historicalCheckpointProof ctx node.header.checkpointTreeRoot index
      let input : VerifyGUTAToCapUpgradeCheckpointCircuitInputSimple F Hash :=
        { gutaProofHeader := node.header
          topLineSiblings := dmp.siblings
          historicalCheckpointProof := proof
          totalAggregationProofsGenerated := node.header.totalAggregationProofsGenerated }
      .ok (.toCapUpgradeCheckpoint input, input.getNewGutaHeader,
        .gutaVerifyToCapWithCheckpointUpgrade, globalUserTree)

variable [HashTo4Felts F Hash] [FieldQHasher F Hash] (planner : CoordinatorGUTAPlanner F Hash)

variable (globalUserTree : RecorderStore Hash)

/-- Plans the job of two nodes. -/
def createAggregateJob (left right : PlannerNode F Hash) :
    Except (PlannerError Hash) (PlannerNode F Hash × CoordinatorGUTAPlanner F Hash ×
      RecorderStore Hash) := do
  let newLogicalLevel := max left.logicalLevel right.logicalLevel + 1
  let jobLevels := planner.jobLevels ++
    List.replicate (newLogicalLevel - planner.jobLevels.length) []
  let levelVecIdx := newLogicalLevel - 1
  let itemIdx := (jobLevels.getD levelVecIdx []).length
  let (witness, newHeader, circuitType, globalUserTree) ←
    aggregateCircuit ctx left right globalUserTree
  let newJobId := QProvingJobDataID.newProofJobId ctx.uniquePendingId (levelVecIdx % 2 ^ 32)
    circuitType 0 (itemIdx % 2 ^ 32)
  let metadata := GlobalUserTreeAggregatorHeaderWithJobId.toMetadataWithJobStandardChildren
    ⟨newHeader, newJobId⟩ [left.jobId, right.jobId]
  .ok
    ({ jobId := newJobId
       header := newHeader
       nodeType := .linearAggregated
       logicalLevel := newLogicalLevel },
     { planner with
        jobWitnesses := planner.jobWitnesses ++ [(newJobId, witness)]
        jobLevels := jobLevels.modify levelVecIdx (· ++ [metadata]) },
     globalUserTree)

/-- Plans the job of a lone leaf. -/
def createSingletRootPromotionJob (node : PlannerNode F Hash) :
    Except (PlannerError Hash) (GlobalUserTreeAggregatorHeader F Hash ×
      CoordinatorGUTAPlanner F Hash × RecorderStore Hash) :=
  if node.nodeType ≠ .inputLeaf then
    .ok (node.header, planner, globalUserTree)
  else do
    let (witness, newHeader, circuitType, globalUserTree) ←
      promotionCircuit ctx node globalUserTree
    let newJobId := QProvingJobDataID.newProofJobId ctx.uniquePendingId 0 circuitType 0 0
    let metadata : PsyProvingJobMetadataWithJobId Hash :=
      { jobId := newJobId
        metadata :=
          { expectedPublicInputsHash := newHeader.qfhash
            rewardTreeHashMode := .liftChild
            rewardTreeNodeIndex := 0
            rewardTreeNodeLevel := 0
            rewardTreeNodeChildren := 1
            dependencies := [node.jobId] } }
    let jobLevels := if planner.jobLevels = [] then [[]] else planner.jobLevels
    .ok (newHeader,
      { planner with
        jobWitnesses := planner.jobWitnesses ++ [(newJobId, witness)]
        jobLevels := jobLevels.modify 0 (· ++ [metadata]) },
      globalUserTree)

/-! ## §4. Adding a realm's job. -/

/-- The loop of `add_realm_job_internal` over the slots from `level_idx` on: a waiting
node is the left sibling of the current one, and their parent is carried to the next slot. -/
def carry (ctx : CallContext Hash) : List (Option (PlannerNode F Hash)) → PlannerNode F Hash →
    CoordinatorGUTAPlanner F Hash → RecorderStore Hash →
    Except (PlannerError Hash) (List (Option (PlannerNode F Hash)) ×
      CoordinatorGUTAPlanner F Hash × RecorderStore Hash)
  | [], currentNode, planner, globalUserTree => .ok ([some currentNode], planner, globalUserTree)
  | none :: waiting, currentNode, planner, globalUserTree =>
    .ok (some currentNode :: waiting, planner, globalUserTree)
  | some leftNode :: waiting, currentNode, planner, globalUserTree => do
    let (parent, planner, globalUserTree) ←
      createAggregateJob ctx planner globalUserTree leftNode currentNode
    let (waiting, planner, globalUserTree) ← carry ctx waiting parent planner globalUserTree
    .ok (none :: waiting, planner, globalUserTree)

/-- Adds a node to the counter. -/
def addRealmJobInternal
    (currentNode : PlannerNode F Hash) : Except (PlannerError Hash) (CoordinatorGUTAPlanner F Hash ×
      RecorderStore Hash) := do
  let (waiting, planner, globalUserTree) ←
    carry ctx planner.waitingNodes currentNode planner globalUserTree
  .ok ({ planner with waitingNodes := waiting }, globalUserTree)

/-- The loop that replays queued updates. -/
def addQueuedUpdates (ctx : CallContext Hash) : List (PlannerNode F Hash) →
    CoordinatorGUTAPlanner F Hash → RecorderStore Hash →
    Except (PlannerError Hash) (CoordinatorGUTAPlanner F Hash × RecorderStore Hash)
  | [], planner, globalUserTree => .ok (planner, globalUserTree)
  | node :: nodes, planner, globalUserTree => do
    let (planner, globalUserTree) ← addRealmJobInternal ctx planner globalUserTree node
    addQueuedUpdates ctx nodes planner globalUserTree

/-- Queues a submission or adds it. -/
def addRealmJob
    (job : GlobalUserTreeAggregatorHeaderWithTagValueAndJobID F Hash) :
    Except (PlannerError Hash) (CoordinatorGUTAPlanner F Hash × RecorderStore Hash) :=
  let realmId := toU64Value job.header.header.stateTransition.nodeIndex
  let planner := { planner with
    inputJobToRealm := Function.update planner.inputJobToRealm job.jobId (some realmId) }
  let currentNode := leafNode job
  if planner.hasCommittedUpdates then
    addRealmJobInternal ctx planner globalUserTree currentNode
  else if ctx.currentCheckpointRoot ≠ planner.currentSyncedCheckpointRoot then do
    let queuedUpdates := planner.queuedUpdates
    let planner := { planner with hasCommittedUpdates := true, queuedUpdates := [] }
    let (planner, globalUserTree) ← addQueuedUpdates ctx queuedUpdates planner globalUserTree
    addRealmJobInternal ctx planner globalUserTree currentNode
  else
    .ok ({ planner with queuedUpdates := planner.queuedUpdates ++ [currentNode] }, globalUserTree)

/-! ## §5. Reward keys. -/

/-- Give the first job with this id its reward key; also return its dependencies. -/
def updateFirst (jobId : QProvingJobDataID) (level index : Nat) :
    List (PsyProvingJobMetadataWithJobId Hash) →
    Option (List (PsyProvingJobMetadataWithJobId Hash) × List QProvingJobDataID)
  | [] => none
  | job :: jobs =>
    if job.jobId = jobId then
      some (job.updateLevelAndIndex level index :: jobs, job.metadata.dependencies)
    else (updateFirst jobId level index jobs).map (fun (jobs, deps) => (job :: jobs, deps))

/-- The search of `update_reward_tree_config` through the levels. -/
def updateFirstInLevels (jobId : QProvingJobDataID) (level index : Nat) :
    List (List (PsyProvingJobMetadataWithJobId Hash)) →
    Option (List (List (PsyProvingJobMetadataWithJobId Hash)) × List QProvingJobDataID)
  | [] => none
  | jobs :: levels =>
    match updateFirst jobId level index jobs with
    | some (jobs, deps) => some (jobs :: levels, deps)
    | none =>
      (updateFirstInLevels jobId level index levels).map
        (fun (levels, deps) => (jobs :: levels, deps))

/-- `update_reward_tree_config`.  The first argument bounds the depth: a search deeper
than there are jobs meets an id again below itself, and the source never returns.
The `u8` level wraps. -/
def updateRewardTreeConfig : Nat → QProvingJobDataID → Nat → Nat → CoordinatorGUTAPlanner F Hash →
    Except (PlannerError Hash) (CoordinatorGUTAPlanner F Hash)
  | 0, _, _, _, _ => .error .stackOverflow
  | depth + 1, jobId, level, index, planner =>
    match updateFirstInLevels jobId level index planner.jobLevels with
    | none =>
      match planner.inputJobToRealm jobId with
      | some realmId =>
        .ok { planner with
          inputRealmRewardKeys :=
            Function.update planner.inputRealmRewardKeys realmId (some ⟨level, index⟩) }
      | none => .ok planner
    | some (jobLevels, deps) =>
      deps.zipIdx.foldlM
        (fun planner (depJobId, childPos) =>
          updateRewardTreeConfig depth depJobId ((level + 1) % 2 ^ 8)
            ((index <<< 1) % 2 ^ 64 + childPos) planner)
        { planner with jobLevels := jobLevels }

/-! ## §6. Finalization. -/

/-- The arguments of `finalize_with_reward_ids` beside the call context. -/
structure FinalizeArgs (F Hash : Type) where
  rewardTreeRootLevel : Nat
  rewardTreeRootIndex : Nat
  mostRecentCheckpointGlobalStateRoots : PQEDCheckpointGlobalStateRoots Hash
  mostRecentCheckpointStatsHash : Hash
  gutaCircuitWhitelist : Hash
  /-- `set_tdb_proof_witnesses_tuple_owned_raw` of the temporary store. -/
  saveWitnesses : List (QProvingJobDataID × GutaWitness F Hash) → Except String Unit

/-- What `finalize_with_reward_ids` returns, and the witnesses it saved. -/
structure FinalizeOutput (F Hash : Type) where
  jobLevels : List (List (PsyProvingJobMetadataWithJobId Hash))
  inputRealmRewardKeys : Nat → Option NodeKey
  rootGutaHeader : GlobalUserTreeAggregatorHeader F Hash
  savedWitnesses : List (QProvingJobDataID × GutaWitness F Hash)

/-- The right-to-left folding.  `active` holds the nodes left of `right`, nearest first. -/
def foldActiveNodes (ctx : CallContext Hash) : PlannerNode F Hash → List (PlannerNode F Hash) →
    CoordinatorGUTAPlanner F Hash → RecorderStore Hash →
    Except (PlannerError Hash) (PlannerNode F Hash × CoordinatorGUTAPlanner F Hash ×
      RecorderStore Hash)
  | right, [], planner, globalUserTree => .ok (right, planner, globalUserTree)
  | right, left :: active, planner, globalUserTree => do
    let (parent, planner, globalUserTree) ←
      createAggregateJob ctx planner globalUserTree left right
    foldActiveNodes ctx parent active planner globalUserTree

variable (args : FinalizeArgs F Hash)

/-- The root of a planner with inputs: promote a lone leaf, then give out reward keys
from the last planned job down. -/
def finalizeRoot (planner : CoordinatorGUTAPlanner F Hash)
    (globalUserTree : RecorderStore Hash) (rootNode : PlannerNode F Hash) :
    Except (PlannerError Hash) (GlobalUserTreeAggregatorHeader F Hash ×
      CoordinatorGUTAPlanner F Hash × RecorderStore Hash) := do
  let (rootGutaHeader, planner, globalUserTree) ←
    (if rootNode.nodeType = .inputLeaf then
      createSingletRootPromotionJob ctx planner globalUserTree rootNode
    else .ok (rootNode.header, planner, globalUserTree))
  match planner.jobLevels.flatten.getLast? with
  | none => .error .emptyJobList
  | some rootJob => do
    let planner ← updateRewardTreeConfig (planner.jobLevels.flatten.length + 1) rootJob.jobId
      args.rewardTreeRootLevel args.rewardTreeRootIndex planner
    .ok (rootGutaHeader, planner, globalUserTree)

/-- The no-change job of a planner without inputs. -/
def finalizeNoChange (planner : CoordinatorGUTAPlanner F Hash) :
    Except (PlannerError Hash) (GlobalUserTreeAggregatorHeader F Hash ×
      CoordinatorGUTAPlanner F Hash) := do
  let checkpointStateRootsHash := args.mostRecentCheckpointGlobalStateRoots.qfhash F
  let index ← currentCheckpointIndex ctx
  let proof ← historicalCheckpointProof ctx ctx.currentCheckpointRoot index
  let input : GUTANoChangeFullInput Hash :=
    { checkpointTreeProof := proof
      checkpointLeaf :=
        { checkpointLeaf :=
            { globalChainRoot := checkpointStateRootsHash
              statsHash := args.mostRecentCheckpointStatsHash }
          globalStateRoots := args.mostRecentCheckpointGlobalStateRoots } }
  let newJobId := QProvingJobDataID.newProofJobId ctx.uniquePendingId 0 .gutaNoChange 0 0
  let metadata : PsyProvingJobMetadataWithJobId Hash :=
    { jobId := newJobId.getOutputId
      metadata :=
        { expectedPublicInputsHash :=
            input.getPublicInputsHashNoRewardsTag F args.gutaCircuitWhitelist
          rewardTreeHashMode := .noHashChildren
          rewardTreeNodeIndex := args.rewardTreeRootIndex
          rewardTreeNodeLevel := args.rewardTreeRootLevel
          rewardTreeNodeChildren := 0
          dependencies := [] } }
  .ok (input.header args.gutaCircuitWhitelist,
    { planner with
      jobWitnesses := planner.jobWitnesses ++ [(newJobId.getOutputId, .noChange input)]
      jobLevels := planner.jobLevels ++ [[metadata]] })

/-- The replay of updates that are still queued. -/
def replayQueuedUpdates :
    Except (PlannerError Hash) (CoordinatorGUTAPlanner F Hash × RecorderStore Hash) :=
  if planner.hasCommittedUpdates then .ok (planner, globalUserTree)
  else addQueuedUpdates ctx planner.queuedUpdates { planner with queuedUpdates := [] }
    globalUserTree

/-- Steps 2 and 3 of finalization: reduce the active nodes, listed from the right, and
handle the result. -/
def finalizeActiveNodes (planner : CoordinatorGUTAPlanner F Hash)
    (globalUserTree : RecorderStore Hash) : List (PlannerNode F Hash) →
    Except (PlannerError Hash) (GlobalUserTreeAggregatorHeader F Hash ×
      CoordinatorGUTAPlanner F Hash × RecorderStore Hash)
  | right :: active => do
    let (rootNode, planner, globalUserTree) ←
      foldActiveNodes ctx right active planner globalUserTree
    finalizeRoot ctx args planner globalUserTree rootNode
  | [] => do
    let (rootGutaHeader, planner) ← finalizeNoChange ctx args planner
    .ok (rootGutaHeader, planner, globalUserTree)

/-- The schedule of the block. -/
def finalizeWithRewardIds (planner : CoordinatorGUTAPlanner F Hash)
    (globalUserTree : RecorderStore Hash) :
    Except (PlannerError Hash) (FinalizeOutput F Hash × RecorderStore Hash) := do
  let (planner, globalUserTree) ← replayQueuedUpdates ctx planner globalUserTree
  let activeNodes := planner.waitingNodes.reverse.filterMap id
  let (rootGutaHeader, planner, globalUserTree) ←
    finalizeActiveNodes ctx args { planner with waitingNodes := [] } globalUserTree
      activeNodes.reverse
  if planner.jobWitnesses ≠ [] then
    (args.saveWitnesses planner.jobWitnesses).mapError .tempStore
  .ok (⟨planner.jobLevels, planner.inputRealmRewardKeys, rootGutaHeader, planner.jobWitnesses⟩,
    globalUserTree)

end CoordinatorGUTAPlanner

end PsyNode.Coordinator
