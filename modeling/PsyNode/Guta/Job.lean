/-
PsyNode.Guta.Job
**PROVING JOBS** — the identifiers of `psy_core/src/job/job_id.rs` and the job
metadata of `psy_data/src/worker`.

32-bit fields are filled with `as u32` casts in the source, so the constructors
below reduce modulo `2 ^ 32` where the source casts.
-/
import PsyNode.Merkle.Basic

namespace PsyNode.Guta

/-- What a job is for. -/
inductive QJobTopic
  | generateStandardProof
  | generateGroth16Proof
  | blockUserSignatureProof
  | notifyCoordinatorComplete
  | notifyRealmComplete
  | aggregateJobs
  | invalid
  | unknown
deriving DecidableEq

/-- The circuits. -/
inductive ProvingJobCircuitType
  | appendUserRegistrationTree
  | appendUserRegistrationTreeAggregate
  | addL1Deposit
  | addL1DepositAggregate
  | claimL1Deposit
  | claimL1DepositAggregate
  | userEndCap
  | gutaTwoEndCap
  | gutaTwoGUTA
  | gutaLeftEndCapRightGUTA
  | gutaLeftGUTARightEndCap
  | gutaSingleEndCap
  | gutaRegisterUsers
  | gutaVerifyToCap
  | gutaOnlyRegisterUsers
  | gutaNoChange
  | addL1Withdrawal
  | addL1WithdrawalAggregate
  | batchDeployContracts
  | batchDeployContractsAggregate
  | processL1Withdrawal
  | processL1WithdrawalAggregate
  | batchUpdateContracts
  | batchUpdateContractsAggregate
  | generateRollupStateTransitionProof
  | generateSigHashIntrospectionProof
  | generateFinalSigHashProof
  | generateFinalSigHashProofGroth16
  | wrapFinalSigHashProofBLS12381
  | genesisBlockCheckpointStateTransition
  | aggUserRegisterDeployContractsGUTA
  | aggAddProcessL1WithdrawalAddL1Deposit
  | dummyAppendUserRegistrationTreeAggregate
  | dummyAddL1DepositAggregate
  | dummyClaimL1DepositAggregate
  | dummyGUTA
  | dummyAddL1WithdrawalAggregate
  | dummyProcessL1WithdrawalAggregate
  | dummyBatchDeployContractsAggregate
  | dummyBatchUpdateContractsAggregate
  | gutaTwoGUTAWithCheckpointUpgrade
  | gutaVerifyToCapWithCheckpointUpgrade
  | gutaTwoGUTALinear
  | gutaTwoGUTALinearUpgradeCheckpoint
  | gutaVerifyLeftLinearRightLeafUpgradeCheckpoint
  | gutaVerifyLeftLeafRightLinearUpgradeCheckpoint
  | realmFinalizeGUTA
  | wrappedSignatureProof
  | secp256K1SignatureProof
  | notifyRealmComplete
  | typeA
  | typeB
  | typeC
  | typeD
  | typeE
  | typeF
  | invalid
  | unknown
deriving DecidableEq

/-- What is stored under an id. -/
inductive ProvingJobDataType
  | standardProof
deriving DecidableEq

/-- The id of a job. -/
structure QProvingJobDataID where
  topic : QJobTopic
  goalId : Nat
  circuitType : ProvingJobCircuitType
  groupId : Nat
  subGroupId : Nat
  taskIndex : Nat
  dataType : ProvingJobDataType
  dataIndex : Nat
deriving DecidableEq

namespace QProvingJobDataID

/-- The id of a proof. -/
def newProofJobId (goalId groupId : Nat) (circuitType : ProvingJobCircuitType)
    (subGroupId taskIndex : Nat) : QProvingJobDataID :=
  ⟨.generateStandardProof, goalId, circuitType, groupId, subGroupId, taskIndex, .standardProof, 0⟩

/-- A 64-bit task index split over `sub_group_id` and `task_index`. -/
def newProofJobIdSplit (goalId groupId : Nat) (circuitType : ProvingJobCircuitType)
    (taskIndex : Nat) : QProvingJobDataID :=
  newProofJobId goalId groupId circuitType (taskIndex / 2 ^ 32 % 2 ^ 32) (taskIndex % 2 ^ 32)

/-- Two aggregates. -/
def gutaTwoLinearProof (uniquePendingId groupId taskIndex : Nat) : QProvingJobDataID :=
  newProofJobIdSplit uniquePendingId groupId .gutaTwoGUTALinear taskIndex

/-- An aggregate and an EndCap. -/
def gutaLeftLinearRightEndCapProof (uniquePendingId groupId taskIndex : Nat) : QProvingJobDataID :=
  newProofJobIdSplit uniquePendingId groupId .gutaLeftGUTARightEndCap taskIndex

/-- Two EndCaps. -/
def gutaTwoEndCapWitness (checkpointId groupId taskIndex : Nat) : QProvingJobDataID :=
  newProofJobIdSplit checkpointId groupId .gutaTwoEndCap taskIndex

/-- A single EndCap. -/
def gutaSingleEndCapWitness (checkpointId groupId subGroupId taskIndex : Nat) : QProvingJobDataID :=
  newProofJobId checkpointId groupId .gutaSingleEndCap subGroupId taskIndex

/-- The realm's fee job. -/
def realmFinalizeGuta (checkpointId realmId : Nat) : QProvingJobDataID :=
  newProofJobId checkpointId realmId .realmFinalizeGUTA 0 0

/-- `get_output_id`, and with the same body `get_input_witness_id`. -/
def getOutputId (id : QProvingJobDataID) : QProvingJobDataID :=
  { id with dataType := .standardProof, dataIndex := 0 }

end QProvingJobDataID

/-- The constants `PROOF_REWARD_TREE_HASH_MODE_*` that the planners use. -/
inductive RewardTreeHashMode
  | hashChildrenStandard
  | noHashChildren
  | liftChild
deriving DecidableEq

/-- What a worker has to prove, and where its reward stands. -/
structure PsyProvingJobMetadata (Hash : Type) where
  expectedPublicInputsHash : Hash
  rewardTreeNodeIndex : Nat
  rewardTreeNodeLevel : Nat
  rewardTreeHashMode : RewardTreeHashMode
  rewardTreeNodeChildren : Nat
  dependencies : List QProvingJobDataID
deriving DecidableEq

/-- A job with its id. -/
structure PsyProvingJobMetadataWithJobId (Hash : Type) where
  jobId : QProvingJobDataID
  metadata : PsyProvingJobMetadata Hash
deriving DecidableEq

/-- A planned job, for short. -/
abbrev ProvingJob (Hash : Type) := PsyProvingJobMetadataWithJobId Hash

/-- Writes the position of the reward. -/
def PsyProvingJobMetadataWithJobId.updateLevelAndIndex {Hash : Type}
    (job : PsyProvingJobMetadataWithJobId Hash) (level index : Nat) :
    PsyProvingJobMetadataWithJobId Hash :=
  { job with metadata := { job.metadata with
      rewardTreeNodeLevel := level, rewardTreeNodeIndex := index } }

end PsyNode.Guta
