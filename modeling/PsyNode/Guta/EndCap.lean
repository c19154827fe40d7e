/-
PsyNode.Guta.EndCap
**END CAPS AND THE CIRCUITS OF A REALM** — a user's EndCap as it is queued for a
realm, and for each circuit a realm's planner schedules its input with the
header the circuit computes.

The fee circuit of `realm_finalize.rs` takes its header from the planner, so
only its input is given.
-/
import PsyNode.Guta.Header

namespace PsyNode.Guta

open Merkle

/-! ## §1. Queued EndCaps. -/

/-- A user's leaf of the user tree. -/
structure PQEDUserLeaf (F Hash : Type) where
  publicKey : Hash
  userStateTreeRoot : Hash
  balance : F
  nonce : F
  lastCheckpointId : F
  eventIndex : F
  userId : F
deriving DecidableEq

/-- The value that stands in the tree. -/
def PQEDUserLeaf.qfhash {F Hash : Type} [QFelt64 F] [HashTo4Felts F Hash] [FieldQHasher F Hash]
    (leaf : PQEDUserLeaf F Hash) : Hash :=
  qHashMany (felts leaf.publicKey ++ felts leaf.userStateTreeRoot ++
    [leaf.balance, leaf.nonce, leaf.lastCheckpointId, leaf.eventIndex, leaf.userId])

/-- A proved EndCap as it waits for the planner. -/
structure PsyRealmUserUpdateQueueItem (F Hash : Type) where
  jobId : QProvingJobDataID
  submissionNonce : Nat
  oldUserLeafHash : Hash
  newUserLeafHash : Hash
  newUserLeaf : PQEDUserLeaf F Hash
  stats : GUTAStats F
deriving DecidableEq

/-- The user an EndCap is for. -/
def PsyRealmUserUpdateQueueItem.userId {F Hash : Type} [QFelt64 F]
    (item : PsyRealmUserUpdateQueueItem F Hash) : Nat :=
  toU64Value item.newUserLeaf.userId

/-! ## §2. Circuit inputs. -/

/-- What a circuit needs of an EndCap. -/
structure VerifyEndCapSimpleStandardInput (F Hash : Type) where
  gutaStats : GUTAStats F
  checkpointRoot : Hash
  checkpointHistoricalMerkleProof : MerkleProofCore Hash
deriving DecidableEq

/-- Two EndCaps and the writes of their leaves. -/
structure GUTAVerifyTwoEndCapCircuitInputV2 (F Hash : Type) where
  leftEndCap : VerifyEndCapSimpleStandardInput F Hash
  leftGlobalUserTreeDeltaMerkleProof : DeltaMerkleProofCore Hash
  rightEndCap : VerifyEndCapSimpleStandardInput F Hash
  rightGlobalUserTreeDeltaMerkleProof : DeltaMerkleProofCore Hash
deriving DecidableEq

/-- An aggregate and the EndCap after it. -/
structure GUTAVerifyLeftGUTARightEndCapCircuitInputV2 (F Hash : Type) where
  leftHeader : GlobalUserTreeAggregatorHeader F Hash
  rightEndCap : VerifyEndCapSimpleStandardInput F Hash
  rightGlobalUserTreeDeltaMerkleProof : DeltaMerkleProofCore Hash
deriving DecidableEq

/-- A single EndCap. -/
structure VerifySingleEndCapInputV2 (F Hash : Type) where
  gutaCircuitWhitelist : Hash
  core : VerifyEndCapSimpleStandardInput F Hash
  globalUserTreeSubRootTransition : DeltaMerkleProofCore Hash
  userId : F
deriving DecidableEq

section
variable {F Hash : Type} [QFelt64 F] (input : GUTAVerifyTwoEndCapCircuitInputV2 F Hash)

/-- The assertions of `GUTAVerifyTwoEndCapCircuitInputV2::get_new_guta_header`; `none` when
both hold, otherwise the text of the panic. -/
def GUTAVerifyTwoEndCapCircuitInputV2.failedAssertion (globalUserTreeHeight : Nat) :
    Option String :=
  let siblingsLen := input.rightGlobalUserTreeDeltaMerkleProof.siblings.length
  if ¬ siblingsLen ≤ globalUserTreeHeight then
    some "global user tree proof cannot be taller than the tree"
  else if ¬ siblingsLen < 64 then
    some "global user tree proof height cannot be represented by its u64 index"
  else none

/-- `GUTAVerifyTwoEndCapCircuitInputV2::get_new_guta_header`, after its assertions. -/
def GUTAVerifyTwoEndCapCircuitInputV2.getNewGutaHeader (globalUserTreeHeight : Nat)
    (gutaCircuitWhitelist : Hash) : GlobalUserTreeAggregatorHeader F Hash :=
  let siblingsLen := input.rightGlobalUserTreeDeltaMerkleProof.siblings.length
  { checkpointTreeRoot := input.rightEndCap.checkpointHistoricalMerkleProof.root
    gutaCircuitWhitelist := gutaCircuitWhitelist
    stateTransition :=
      { oldNodeValue := input.leftGlobalUserTreeDeltaMerkleProof.oldRoot
        newNodeValue := input.rightGlobalUserTreeDeltaMerkleProof.newRoot
        nodeIndex := fromU64Value (input.rightGlobalUserTreeDeltaMerkleProof.index >>> siblingsLen)
        nodeLevel := fromU64Value (globalUserTreeHeight - siblingsLen) }
    stats := input.leftEndCap.gutaStats.combineWith input.rightEndCap.gutaStats
    totalAggregationProofsGenerated := fromU64Value 1 }

variable (input : GUTAVerifyLeftGUTARightEndCapCircuitInputV2 F Hash)

/-- From the aggregate's old value to the root after the EndCap. -/
def GUTAVerifyLeftGUTARightEndCapCircuitInputV2.getNewGutaHeader :
    GlobalUserTreeAggregatorHeader F Hash where
  checkpointTreeRoot := input.leftHeader.checkpointTreeRoot
  gutaCircuitWhitelist := input.leftHeader.gutaCircuitWhitelist
  stateTransition :=
    { oldNodeValue := input.leftHeader.stateTransition.oldNodeValue
      newNodeValue := input.rightGlobalUserTreeDeltaMerkleProof.newRoot
      nodeIndex := input.leftHeader.stateTransition.nodeIndex
      nodeLevel := input.leftHeader.stateTransition.nodeLevel }
  stats := input.leftHeader.stats.combineWith input.rightEndCap.gutaStats
  totalAggregationProofsGenerated :=
    input.leftHeader.totalAggregationProofsGenerated + fromU64Value 1

/-- The height is a `u8`, so the `i64` subtraction clamped at 0 is the one of `Nat`. -/
def VerifySingleEndCapInputV2.getNewGutaHeader (input : VerifySingleEndCapInputV2 F Hash)
    (globalUserTreeHeight : Nat) : GlobalUserTreeAggregatorHeader F Hash :=
  let siblingsLen := input.globalUserTreeSubRootTransition.siblings.length
  { gutaCircuitWhitelist := input.gutaCircuitWhitelist
    checkpointTreeRoot := input.core.checkpointHistoricalMerkleProof.root
    stateTransition :=
      { oldNodeValue := input.globalUserTreeSubRootTransition.oldRoot
        newNodeValue := input.globalUserTreeSubRootTransition.newRoot
        nodeIndex := fromU64Value (toU64Value input.userId >>> siblingsLen)
        nodeLevel := fromU64Value (globalUserTreeHeight - siblingsLen) }
    stats := input.core.gutaStats
    totalAggregationProofsGenerated := fromU64Value 1 }

variable [HashTo4Felts F Hash] [FieldQHasher F Hash]

/-- The job of two aggregates. -/
def GUTAVerifyTwoGUTALinearCircuitInput.getJobWitnessAndNewGuta
    (input : GUTAVerifyTwoGUTALinearCircuitInput F Hash) (uniquePendingId level index : Nat)
    (leftJobId rightJobId : QProvingJobDataID) :
    PsyProvingJobMetadataWithJobId Hash × GlobalUserTreeAggregatorHeaderWithJobId F Hash :=
  let jobId := QProvingJobDataID.gutaTwoLinearProof uniquePendingId level index
  ({ jobId := jobId
     metadata :=
      { expectedPublicInputsHash := input.getNewGutaHeader.qfhash
        rewardTreeNodeIndex := index
        rewardTreeNodeLevel := 0
        rewardTreeHashMode := .hashChildrenStandard
        rewardTreeNodeChildren := 2
        dependencies := [leftJobId, rightJobId] } },
   { header := input.getNewGutaHeader, jobId := jobId })

/-- The job of an aggregate and an EndCap, which earns no reward of its own. -/
def GUTAVerifyLeftGUTARightEndCapCircuitInputV2.getJobWitnessAndNewGuta
    (uniquePendingId level index : Nat) (leftJobId rightJobId : QProvingJobDataID) :
    PsyProvingJobMetadataWithJobId Hash × GlobalUserTreeAggregatorHeaderWithJobId F Hash :=
  let jobId := QProvingJobDataID.gutaLeftLinearRightEndCapProof uniquePendingId level index
  ({ jobId := jobId
     metadata :=
      { expectedPublicInputsHash := input.getNewGutaHeader.qfhash
        rewardTreeNodeIndex := index
        rewardTreeNodeLevel := 0
        rewardTreeHashMode := .liftChild
        rewardTreeNodeChildren := 1
        dependencies := [leftJobId, rightJobId] } },
   { header := input.getNewGutaHeader, jobId := jobId })

end

/-! ## §3. The fee circuit. -/

/-- Jobs of a block by kind. -/
structure PPMJobsCompletedStats (F : Type) where
  deployContractsCompleted : F
  registerUsersCompleted : F
  gutasCompleted : F
deriving DecidableEq

/-- Roots of the reward trees by kind. -/
structure PPMRewardCommitment (Hash : Type) where
  registerUsersRoot : Hash
  gutasRoot : Hash
  deployContractsRoot : Hash
deriving DecidableEq

/-- The statistics of a block. -/
structure PQEDCheckpointLeafStats (F Hash : Type) where
  gutaFeesCollected : F
  daFeesCollected : F
  userOpsProcessed : F
  totalTransactions : F
  slotsModified : F
  pmJobsCompleted : PPMJobsCompletedStats F
  blockTime : F
  randomSeed : Hash
  pmRewardsCommitment : PPMRewardCommitment Hash
  daChallengesClaimed : List F
deriving DecidableEq

/-- A checkpoint leaf in full. -/
structure PQEDCheckpointLeaf (F Hash : Type) where
  globalChainRoot : Hash
  stats : PQEDCheckpointLeafStats F Hash
deriving DecidableEq

/-- The root of the realm's tree, with what authenticates the validator that takes the fees. -/
structure RealmFinalizeGUTAInput (F Hash : Type) where
  rootGutaHeader : GlobalUserTreeAggregatorHeader F Hash
  rootGutaWhitelistProof : MerkleProofCore Hash
  checkpointId : F
  realmSubId : Nat
  anchorCheckpointLeaf : PQEDCheckpointLeaf F Hash
  anchorCheckpointTreeProof : MerkleProofCore Hash
  checkpointTreeProof : MerkleProofCore Hash
  checkpointLeaf : PQEDCheckpointLeafCompactWithStateRoots Hash
  oldRealmRootProof : MerkleProofCore Hash
  validatorUserId : F
  validatorNodeIdHashLimbs : List Nat
  validatorBlsHashLimbs : List Nat
  validatorTreeProof : MerkleProofCore Hash
  validatorUserLeaf : PQEDUserLeaf F Hash
  validatorUserTreeProof : MerkleProofCore Hash
  currentValidatorUserLeaf : PQEDUserLeaf F Hash
  currentValidatorUserTreeProof : MerkleProofCore Hash
  validatorFeeDeltaProof : DeltaMerkleProofCore Hash
deriving DecidableEq

end PsyNode.Guta
