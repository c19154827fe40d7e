/-
PsyNode.Guta.Header
**GUTA HEADERS AND CIRCUIT INPUTS** — the aggregator header of
`psy_data/src/guta`, and for each circuit the planners schedule its input with
the header the circuit computes (`get_new_guta_header`).

A promotion subtracts levels in `u64`; the planner promotes only nodes that stand deep
enough, so the subtraction does not wrap.
-/
import PsyNode.Guta.Job
import PsyNode.Merkle.Felt

namespace PsyNode.Guta

open Merkle FieldQHasher

/-! ## §1. Headers. -/

/-- What the transactions of a sub-tree add up to. -/
structure GUTAStats (F : Type) where
  gutaFeesCollected : F
  daFeesCollected : F
  userOpsProcessed : F
  totalTransactions : F
  slotsModified : F
deriving DecidableEq

/-- A node of the user tree before and after. -/
structure SubTreeNodeStateTransition (F Hash : Type) where
  oldNodeValue : Hash
  newNodeValue : Hash
  nodeIndex : F
  nodeLevel : F
deriving DecidableEq

/-- What an aggregation proof states. -/
structure GlobalUserTreeAggregatorHeader (F Hash : Type) where
  gutaCircuitWhitelist : Hash
  checkpointTreeRoot : Hash
  stateTransition : SubTreeNodeStateTransition F Hash
  stats : GUTAStats F
  totalAggregationProofsGenerated : F
deriving DecidableEq

/-- An aggregation header, for short. -/
abbrev GutaHeader (F Hash : Type) := GlobalUserTreeAggregatorHeader F Hash

/-- A header and the job that proves it. -/
structure GlobalUserTreeAggregatorHeaderWithJobId (F Hash : Type) where
  header : GlobalUserTreeAggregatorHeader F Hash
  jobId : QProvingJobDataID
deriving DecidableEq

/-- A header with its job, for short. -/
abbrev JobHeader (F Hash : Type) := GlobalUserTreeAggregatorHeaderWithJobId F Hash

/-- A header and the root of its reward tags. -/
structure GlobalUserTreeAggregatorHeaderWithTagValue (F Hash : Type) where
  header : GlobalUserTreeAggregatorHeader F Hash
  newTagTreeNodeValue : Hash
deriving DecidableEq

/-- `GlobalUserTreeAggregatorHeaderWithTagValueAndJobID`: a realm's submission. -/
structure GlobalUserTreeAggregatorHeaderWithTagValueAndJobID (F Hash : Type) where
  header : GlobalUserTreeAggregatorHeaderWithTagValue F Hash
  jobId : QProvingJobDataID
deriving DecidableEq

namespace GUTAStats
variable {F : Type} [QFelt64 F]

/-- No transactions. -/
def getZeroValue : GUTAStats F := ⟨0, 0, 0, 0, 0⟩

/-- Fieldwise sums. -/
def combineWith (a b : GUTAStats F) : GUTAStats F where
  gutaFeesCollected := a.gutaFeesCollected + b.gutaFeesCollected
  daFeesCollected := a.daFeesCollected + b.daFeesCollected
  userOpsProcessed := a.userOpsProcessed + b.userOpsProcessed
  totalTransactions := a.totalTransactions + b.totalTransactions
  slotsModified := a.slotsModified + b.slotsModified

theorem combineWith_assoc (a b c : GUTAStats F) :
    (a.combineWith b).combineWith c = a.combineWith (b.combineWith c) := by
  simp [combineWith, add_assoc]

variable (a : GUTAStats F)

theorem combineWith_zero : a.combineWith getZeroValue = a := by
  simp [combineWith, getZeroValue]

/-- The sum of a list of statistics. -/
def sum (l : List (GUTAStats F)) : GUTAStats F :=
  l.foldr combineWith getZeroValue

theorem zero_combineWith : getZeroValue.combineWith a = a := by
  simp [combineWith, getZeroValue]

theorem sum_append (l m : List (GUTAStats F)) : sum (l ++ m) = (sum l).combineWith (sum m) := by
  induction l with
  | nil => exact (zero_combineWith _).symm
  | cons a l ih =>
    show a.combineWith (sum (l ++ m)) = (a.combineWith (sum l)).combineWith _
    rw [ih, combineWith_assoc]

theorem sum_singleton : sum [a] = a :=
  combineWith_zero a

end GUTAStats

section
variable {F Hash : Type} [QFelt64 F] [HashTo4Felts F Hash] [FieldQHasher F Hash]

/-- The four field elements of a hash as a list. -/
def felts (hash : Hash) : List F := (List.finRange 4).map (to4Felts hash)

/-- The hash of the five sums. -/
def GUTAStats.qfhash (stats : GUTAStats F) : Hash :=
  qHashMany [stats.gutaFeesCollected, stats.daFeesCollected, stats.userOpsProcessed,
    stats.totalTransactions, stats.slotsModified]

/-- The hash of index, values and level. -/
def SubTreeNodeStateTransition.qfhash (t : SubTreeNodeStateTransition F Hash) : Hash :=
  qHashMany (t.nodeIndex :: (felts t.oldNodeValue ++ felts t.newNodeValue ++ [t.nodeLevel]))

/-- The public inputs of an aggregation proof. -/
def GlobalUserTreeAggregatorHeader.qfhash (header : GlobalUserTreeAggregatorHeader F Hash) : Hash :=
  let stateTransitionAndStatsHash : Hash :=
    qTwoToOne F header.stateTransition.qfhash header.stats.qfhash
  let stateStatsCheckpointHash : Hash :=
    qTwoToOne F header.checkpointTreeRoot stateTransitionAndStatsHash
  let headerWithWhitelistHash : Hash :=
    qTwoToOne F header.gutaCircuitWhitelist stateStatsCheckpointHash
  qHashMany (felts headerWithWhitelistHash ++ [header.totalAggregationProofsGenerated])

/-- The metadata of a job whose rewards are hashed from its dependencies. -/
def GlobalUserTreeAggregatorHeaderWithJobId.toMetadataWithJobStandardChildren
    (h : GlobalUserTreeAggregatorHeaderWithJobId F Hash) (dependencies : List QProvingJobDataID) :
    PsyProvingJobMetadataWithJobId Hash where
  jobId := h.jobId
  metadata :=
    { expectedPublicInputsHash := h.header.qfhash
      rewardTreeNodeIndex := 0
      rewardTreeNodeLevel := 0
      rewardTreeHashMode := .hashChildrenStandard
      rewardTreeNodeChildren := dependencies.length
      dependencies := dependencies }

end

/-! ## §2. Circuit inputs of the coordinator. -/

/-- Two leaves at one checkpoint. -/
structure GUTAVerifyTwoGUTACircuitInputV2 (F Hash : Type) where
  leftHeader : GlobalUserTreeAggregatorHeader F Hash
  leftGlobalUserTreeDeltaMerkleProof : DeltaMerkleProofCore Hash
  rightHeader : GlobalUserTreeAggregatorHeader F Hash
  rightGlobalUserTreeDeltaMerkleProof : DeltaMerkleProofCore Hash
deriving DecidableEq

/-- Two leaves, both brought to the current checkpoint. -/
structure GUTAVerifyTwoGUTAUpgradeCheckpointCircuitInputV2 (F Hash : Type) where
  leftHeader : GlobalUserTreeAggregatorHeader F Hash
  leftGlobalUserTreeDeltaMerkleProof : DeltaMerkleProofCore Hash
  leftHistoricalCheckpointMerkleProof : MerkleProofCore Hash
  rightHeader : GlobalUserTreeAggregatorHeader F Hash
  rightGlobalUserTreeDeltaMerkleProof : DeltaMerkleProofCore Hash
  rightHistoricalCheckpointMerkleProof : MerkleProofCore Hash
deriving DecidableEq

/-- Two root transitions in a row. -/
structure GUTAVerifyTwoGUTALinearCircuitInput (F Hash : Type) where
  leftHeader : GlobalUserTreeAggregatorHeader F Hash
  rightHeader : GlobalUserTreeAggregatorHeader F Hash
deriving DecidableEq

/-- A root transition, then a leaf brought to the current checkpoint. -/
structure GUTAVerifyLeftLinearRightLeafUpgradeCheckpointCircuitInput (F Hash : Type) where
  leftHeader : GlobalUserTreeAggregatorHeader F Hash
  rightHeader : GlobalUserTreeAggregatorHeader F Hash
  rightGlobalUserTreeDeltaMerkleProof : DeltaMerkleProofCore Hash
  rightHistoricalCheckpointProof : MerkleProofCore Hash
deriving DecidableEq

/-- A single leaf, lifted to the root. -/
structure VerifyGUTAToCapCircuitInputSimple (F Hash : Type) where
  gutaProofHeader : GlobalUserTreeAggregatorHeader F Hash
  topLineSiblings : List Hash
deriving DecidableEq

/-- A single leaf, lifted and brought to the current checkpoint. -/
structure VerifyGUTAToCapUpgradeCheckpointCircuitInputSimple (F Hash : Type) where
  gutaProofHeader : GlobalUserTreeAggregatorHeader F Hash
  topLineSiblings : List Hash
  historicalCheckpointProof : MerkleProofCore Hash
  totalAggregationProofsGenerated : F
deriving DecidableEq

section
variable {F Hash : Type} [QFelt64 F]

/-- The level above `len` siblings: the source subtracts as `i64` and takes at least 0. -/
def levelAbove (level len : Nat) : Nat := (Int.bmod (level - len) (2 ^ 64)).toNat

/-- The header both circuits over two leaves compute, at the given checkpoint root. -/
def twoGutaHeader (checkpointTreeRoot : Hash) (left right : GlobalUserTreeAggregatorHeader F Hash)
    (leftDmp rightDmp : DeltaMerkleProofCore Hash) : GlobalUserTreeAggregatorHeader F Hash where
  checkpointTreeRoot := checkpointTreeRoot
  gutaCircuitWhitelist := left.gutaCircuitWhitelist
  stateTransition :=
    { oldNodeValue := leftDmp.oldRoot
      newNodeValue := rightDmp.newRoot
      nodeIndex := fromU64Value (toU64Value left.stateTransition.nodeIndex >>>
        leftDmp.siblings.length)
      nodeLevel := fromU64Value (levelAbove (toU64Value left.stateTransition.nodeLevel)
        leftDmp.siblings.length) }
  stats := left.stats.combineWith right.stats
  totalAggregationProofsGenerated := left.totalAggregationProofsGenerated +
    right.totalAggregationProofsGenerated + fromU64Value 1

/-- At the left leaf's checkpoint. -/
def GUTAVerifyTwoGUTACircuitInputV2.getNewGutaHeader
    (input : GUTAVerifyTwoGUTACircuitInputV2 F Hash) : GlobalUserTreeAggregatorHeader F Hash :=
  twoGutaHeader input.leftHeader.checkpointTreeRoot input.leftHeader input.rightHeader
    input.leftGlobalUserTreeDeltaMerkleProof input.rightGlobalUserTreeDeltaMerkleProof

/-- At the root of the left leaf's historical proof. -/
def GUTAVerifyTwoGUTAUpgradeCheckpointCircuitInputV2.getNewGutaHeader
    (input : GUTAVerifyTwoGUTAUpgradeCheckpointCircuitInputV2 F Hash) :
    GlobalUserTreeAggregatorHeader F Hash :=
  twoGutaHeader input.leftHistoricalCheckpointMerkleProof.root input.leftHeader input.rightHeader
    input.leftGlobalUserTreeDeltaMerkleProof input.rightGlobalUserTreeDeltaMerkleProof

/-- The header of a circuit whose left input is already a root transition. -/
def linearHeader (left : GlobalUserTreeAggregatorHeader F Hash) (newNodeValue : Hash)
    (rightStats : GUTAStats F) (rightTotal : F) : GlobalUserTreeAggregatorHeader F Hash where
  gutaCircuitWhitelist := left.gutaCircuitWhitelist
  checkpointTreeRoot := left.checkpointTreeRoot
  stateTransition :=
    { oldNodeValue := left.stateTransition.oldNodeValue
      newNodeValue := newNodeValue
      nodeIndex := left.stateTransition.nodeIndex
      nodeLevel := left.stateTransition.nodeLevel }
  stats := left.stats.combineWith rightStats
  totalAggregationProofsGenerated :=
    left.totalAggregationProofsGenerated + rightTotal + fromU64Value 1

/-- From the left old value to the right new one. -/
def GUTAVerifyTwoGUTALinearCircuitInput.getNewGutaHeader
    (input : GUTAVerifyTwoGUTALinearCircuitInput F Hash) : GlobalUserTreeAggregatorHeader F Hash :=
  linearHeader input.leftHeader input.rightHeader.stateTransition.newNodeValue
    input.rightHeader.stats input.rightHeader.totalAggregationProofsGenerated

/-- From the left old value to the root after the write of the leaf. -/
def GUTAVerifyLeftLinearRightLeafUpgradeCheckpointCircuitInput.getNewGutaHeader
    (input : GUTAVerifyLeftLinearRightLeafUpgradeCheckpointCircuitInput F Hash) :
    GlobalUserTreeAggregatorHeader F Hash :=
  linearHeader input.leftHeader input.rightGlobalUserTreeDeltaMerkleProof.newRoot
    input.rightHeader.stats input.rightHeader.totalAggregationProofsGenerated

variable [MerkleHasher Hash]

/-- `get_new_state_transition`, the same for both promotion circuits: lift the
transition along the siblings. -/
def getNewStateTransition (header : GlobalUserTreeAggregatorHeader F Hash)
    (topLineSiblings : List Hash) : SubTreeNodeStateTransition F Hash :=
  let t := header.stateTransition
  if topLineSiblings.length = 0 then t
  else
    { oldNodeValue := computeRootMerkleProofGeneric t.oldNodeValue (toU64Value t.nodeIndex)
        topLineSiblings
      newNodeValue := computeRootMerkleProofGeneric t.newNodeValue (toU64Value t.nodeIndex)
        topLineSiblings
      nodeIndex := fromU64Value (toU64Value t.nodeIndex >>> topLineSiblings.length)
      nodeLevel := fromU64Value (toU64Value t.nodeLevel - topLineSiblings.length) }

/-- One more proof over the lifted transition. -/
def VerifyGUTAToCapCircuitInputSimple.getNewGutaHeader
    (input : VerifyGUTAToCapCircuitInputSimple F Hash) : GlobalUserTreeAggregatorHeader F Hash where
  gutaCircuitWhitelist := input.gutaProofHeader.gutaCircuitWhitelist
  checkpointTreeRoot := input.gutaProofHeader.checkpointTreeRoot
  stateTransition := getNewStateTransition input.gutaProofHeader input.topLineSiblings
  stats := input.gutaProofHeader.stats
  totalAggregationProofsGenerated :=
    input.gutaProofHeader.totalAggregationProofsGenerated + fromU64Value 1

/-- The same at the root of the historical proof. -/
def VerifyGUTAToCapUpgradeCheckpointCircuitInputSimple.getNewGutaHeader
    (input : VerifyGUTAToCapUpgradeCheckpointCircuitInputSimple F Hash) :
    GlobalUserTreeAggregatorHeader F Hash where
  gutaCircuitWhitelist := input.gutaProofHeader.gutaCircuitWhitelist
  checkpointTreeRoot := input.historicalCheckpointProof.root
  stateTransition := getNewStateTransition input.gutaProofHeader input.topLineSiblings
  stats := input.gutaProofHeader.stats
  totalAggregationProofsGenerated := input.totalAggregationProofsGenerated + fromU64Value 1

end

/-! ## §3. The circuit of a block without updates. -/

/-- The roots of the trees at a checkpoint. -/
structure PQEDCheckpointGlobalStateRoots (Hash : Type) where
  contractTreeRoot : Hash
  depositTreeRoot : Hash
  userTreeRoot : Hash
  withdrawalTreeRoot : Hash
  userRegistrationTreeRoot : Hash
  validatorTreeRoot : Hash
deriving DecidableEq

/-- A checkpoint leaf, its statistics hashed. -/
structure PQEDCheckpointLeafCompact (Hash : Type) where
  globalChainRoot : Hash
  statsHash : Hash
deriving DecidableEq

/-- A leaf with the roots behind its chain root. -/
structure PQEDCheckpointLeafCompactWithStateRoots (Hash : Type) where
  checkpointLeaf : PQEDCheckpointLeafCompact Hash
  globalStateRoots : PQEDCheckpointGlobalStateRoots Hash
deriving DecidableEq

/-- The checkpoint that a block without updates repeats. -/
structure GUTANoChangeFullInput (Hash : Type) where
  checkpointTreeProof : MerkleProofCore Hash
  checkpointLeaf : PQEDCheckpointLeafCompactWithStateRoots Hash
deriving DecidableEq

section
variable {Hash : Type}

/-- The root over the six roots, in the order of the fields. -/
def PQEDCheckpointGlobalStateRoots.qfhash (F : Type) [FieldQHasher F Hash]
    (roots : PQEDCheckpointGlobalStateRoots Hash) : Hash :=
  qTwoToOne F
    (qTwoToOne F
      (qTwoToOne F roots.contractTreeRoot roots.depositTreeRoot)
      (qTwoToOne F roots.userTreeRoot roots.withdrawalTreeRoot))
    (qTwoToOne F roots.userRegistrationTreeRoot roots.validatorTreeRoot)

variable {F : Type} [QFelt64 F]

/-- The header of the no-change circuit; `finalize_with_reward_ids` and
`get_public_inputs_hash_no_rewards_tag` both build it. -/
def GUTANoChangeFullInput.header (input : GUTANoChangeFullInput Hash)
    (gutaCircuitWhitelist : Hash) : GlobalUserTreeAggregatorHeader F Hash where
  gutaCircuitWhitelist := gutaCircuitWhitelist
  checkpointTreeRoot := input.checkpointTreeProof.root
  stateTransition :=
    { oldNodeValue := input.checkpointLeaf.globalStateRoots.userTreeRoot
      newNodeValue := input.checkpointLeaf.globalStateRoots.userTreeRoot
      nodeIndex := 0
      nodeLevel := 0 }
  stats := GUTAStats.getZeroValue
  totalAggregationProofsGenerated := fromU64Value 1

/-- The hash of that header. -/
def GUTANoChangeFullInput.getPublicInputsHashNoRewardsTag (F : Type) [QFelt64 F]
    [HashTo4Felts F Hash] [FieldQHasher F Hash] (input : GUTANoChangeFullInput Hash)
    (gutaCircuitWhitelist : Hash) : Hash :=
  (input.header gutaCircuitWhitelist : GlobalUserTreeAggregatorHeader F Hash).qfhash

end

end PsyNode.Guta
