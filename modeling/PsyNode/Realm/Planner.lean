/-
PsyNode.Realm.Planner
**THE REALM'S GUTA PLANNER** — `RealmGUTAPlanner` of `realm_guta_planner.rs`.

EndCaps of users are admitted one by one.  The first of two waits as the
EndCap straggler; the second one is paired with it, both new user leaves are
written to the user tree, and the pair's job climbs a binary counter of job
stragglers.  Finalization promotes what is left, upgrades the root to the
finalization checkpoint if needed, and puts the fee job on top.

  * A call that adds EndCaps returns its result AND the state after it: an error
    does not roll back what was done before it.
  * The temporary store never fails: what it is given is recorded in
    `savedWitnesses`, and its answer about a user's contract updates is an argument.
    Writes to the backup file never fail and are left out.
  * A panic is an error of its own; nothing can be called after it.
-/
import PsyNode.Guta.EndCap
import PsyNode.Recorder.Tree
import PsyNode.Store.AppendOnly

namespace PsyNode.Realm

open Merkle Guta Recorder Store QProvingJobDataID

/-! ## §1. State. -/

def maxRealmProvingLevels : Nat := 32

/-- Serialised data. -/
abbrev Bytes := List UInt8

structure PlannedFutureEndCapJob (F Hash : Type) where
  queueItem : PsyRealmUserUpdateQueueItem F Hash
  contractUpdates : Bytes

/-- `ValidatorLeafPreimage`, as far as the planner reads it. -/
structure ValidatorLeafPreimage where
  validatorUserId : Nat
  nodeId : Bytes
  blsPublicKey : Bytes

structure RealmGUTAValidatorProofs (F Hash : Type) where
  validator : ValidatorLeafPreimage
  validatorUserLeaf : PQEDUserLeaf F Hash
  anchorCheckpointLeaf : PQEDCheckpointLeaf F Hash
  anchorCheckpointTreeProof : MerkleProofCore Hash
  checkpointLeaf : PQEDCheckpointLeafCompactWithStateRoots Hash
  checkpointTreeProof : MerkleProofCore Hash
  oldRealmRootProof : MerkleProofCore Hash
  validatorTreeProof : MerkleProofCore Hash
  validatorUserTreeProof : MerkleProofCore Hash

/-- The circuit input whose bytes a witness holds. -/
inductive RealmGutaWitness (F Hash : Type)
  | twoEndCap (input : GUTAVerifyTwoEndCapCircuitInputV2 F Hash)
  | leftGUTARightEndCap (input : GUTAVerifyLeftGUTARightEndCapCircuitInputV2 F Hash)
  | twoGUTALinear (input : GUTAVerifyTwoGUTALinearCircuitInput F Hash)
  | singleEndCap (input : VerifySingleEndCapInputV2 F Hash)
  | toCapUpgradeCheckpoint (input : VerifyGUTAToCapUpgradeCheckpointCircuitInputSimple F Hash)
  | realmFinalize (input : RealmFinalizeGUTAInput F Hash)

/-- The fields of `RealmGUTAPlanner` that `new` fixes. -/
structure RealmPlannerConfig (Hash : Type) where
  realmIdU64 : Nat
  realmSubIdU64 : Nat
  chainId : Nat
  uniquePendingId : Nat
  currentCheckpointRoot : Hash
  currentCheckpointId : Nat
  startRealmRoot : Hash
  realmUserMinId : Nat
  realmUserMaxId : Nat
  realmTreeHeight : Nat
  globalUserTreeHeight : Nat
  gutaCircuitWhitelist : Hash

/-- The fields of `RealmGUTAPlanner` about planned jobs, one entry per level, and the
witnesses given to the temporary store. -/
structure JobTable (F Hash : Type) where
  jobLevelMap : QProvingJobDataID → Option (Nat × Nat)
  plannedJobs : List (List (PsyProvingJobMetadataWithJobId Hash))
  jobStragglers : List (Option (JobHeader F Hash))
  jobLevelCounts : List Nat
  totalJobs : Nat
  savedWitnesses : List (QProvingJobDataID × RealmGutaWitness F Hash)

/-- `RealmGUTAPlanner`.  The user leaf updates are kept as records: an offset is the number
of a record. -/
structure RealmGUTAPlanner (F Hash : Type) extends RealmPlannerConfig Hash, JobTable F Hash where
  futurePendingEndCapJobs : List (PlannedFutureEndCapJob F Hash)
  acceptedEndCapJobs : List (PlannedFutureEndCapJob F Hash)
  endCapStraggler : Option (PsyRealmUserUpdateQueueItem F Hash)
  userContractTreeUpdatesFfs : Bytes
  contractStateTreeUpdatesFfs : Bytes
  userLeafUpdatesFfs : List (PQEDUserLeaf F Hash)
  userLeafUpdateOffsets : Nat → Option Nat
  contractStateImtLeavesFfs : Bytes
  totalEndCapsProcessed : Nat
  validatorProofs : Option (RealmGUTAValidatorProofs F Hash)
  currentValidatorUserLeaf : Option (PQEDUserLeaf F Hash)

/-- What makes a planner call fail. -/
inductive RealmPlannerError (Hash : Type)
  | endCapPreimageMismatch
  | deferredEndCapPreimageMismatch
  /-- From the views of the contract update blobs. -/
  | contractUpdates (message : String)
  | userLeafOffsetOutOfBounds (userId : Nat)
  | exceededLevels
  | exceededLevelsDuringAggregation
  | jobNotFound (jobId : QProvingJobDataID)
  | incompleteValidatorProofs
  | validatorProofsRequired
  | checkpointTree (message : String)
  | upgradeMissesFinalizationRoot
  | upgradeExceedsCapacity
  | currentValidatorLeafRequired
  | fieldLimbs (message : String)
  | currentValidatorLeafOfAnotherUser
  | validatorUserLeafMismatch (leafUserId validatorUserId : Nat)
  | validatorOutsideRealm (validatorUserId realmId minId maxId : Nat)
  | staleValidatorLeaf (validatorUserId : Nat) (leafHash treeLeaf : Hash)
  | balanceOverflow (validatorUserId balance fee : Nat)
  | feeDeltaRootMismatch
  | finalizerExceedsCapacity (level : Nat)
  | totalJobsOverflow
  | endCapStragglerRemains
  | noRootFound
  | panicked (message : String)
  /-- A loop or recursion that never ends. -/
  | doesNotReturn

/-- Code outside the planner that it calls: the views of the contract update blobs, and the
field limbs of a SHA-256 digest. -/
structure Externals where
  /-- Checkpoint id, payload and rest of the single-tree batch for a chain, realm and sub-realm. -/
  singleBatch : Bytes → Nat → Nat → Nat → Except String (Nat × Bytes × Bytes)
  /-- Payload and rest of the contract state batch. -/
  doubleBatch : Bytes → Nat → Nat → Nat → Except String (Bytes × Bytes)
  /-- Payload of the indexed tree's leaf batch. -/
  imtBatch : Bytes → Except String Bytes
  sha256Limbs : Bytes → Except String (List Nat)

namespace RealmGUTAPlanner

/-- `new`.  The 64-bit subtraction of 1 wraps. -/
def new {F Hash : Type} (chainId realmId realmSubId : Nat) (currentCheckpointRoot : Hash)
    (currentCheckpointId uniquePendingId : Nat) (startRealmRoot : Hash)
    (realmTreeHeight globalUserTreeHeight : Nat) (gutaCircuitWhitelist : Hash) :
    RealmGUTAPlanner F Hash where
  chainId := chainId
  startRealmRoot := startRealmRoot
  realmIdU64 := realmId
  realmSubIdU64 := realmSubId
  jobLevelCounts := List.replicate maxRealmProvingLevels 0
  jobLevelMap := fun _ => none
  futurePendingEndCapJobs := []
  acceptedEndCapJobs := []
  plannedJobs := List.replicate maxRealmProvingLevels []
  jobStragglers := List.replicate maxRealmProvingLevels none
  endCapStraggler := none
  userContractTreeUpdatesFfs := []
  contractStateTreeUpdatesFfs := []
  userLeafUpdatesFfs := []
  userLeafUpdateOffsets := fun _ => none
  contractStateImtLeavesFfs := []
  currentCheckpointRoot := currentCheckpointRoot
  currentCheckpointId := currentCheckpointId
  uniquePendingId := uniquePendingId
  realmTreeHeight := realmTreeHeight
  globalUserTreeHeight := globalUserTreeHeight
  realmUserMinId := (realmId <<< realmTreeHeight) % 2 ^ 64
  realmUserMaxId := (((realmId + 1) <<< realmTreeHeight) % 2 ^ 64 + (2 ^ 64 - 1)) % 2 ^ 64
  gutaCircuitWhitelist := gutaCircuitWhitelist
  totalJobs := 0
  totalEndCapsProcessed := 0
  validatorProofs := none
  currentValidatorUserLeaf := none
  savedWitnesses := []

variable {F Hash : Type} [QFelt64 F] (planner : RealmGUTAPlanner F Hash)

/-- `update_user_leaf`: overwrite the user's record, or append one. -/
def updateUserLeaf (userLeaf : PQEDUserLeaf F Hash) :
    Except (RealmPlannerError Hash) (RealmGUTAPlanner F Hash) :=
  let userId := toU64Value userLeaf.userId
  match planner.userLeafUpdateOffsets userId with
  | some offset =>
    if offset < planner.userLeafUpdatesFfs.length then
      .ok { planner with userLeafUpdatesFfs := planner.userLeafUpdatesFfs.set offset userLeaf }
    else .error (.userLeafOffsetOutOfBounds userId)
  | none =>
    .ok { planner with
      userLeafUpdatesFfs := planner.userLeafUpdatesFfs ++ [userLeaf]
      userLeafUpdateOffsets :=
        Function.update planner.userLeafUpdateOffsets userId
          (some planner.userLeafUpdatesFfs.length) }

end RealmGUTAPlanner

/-! ## §2. Jobs on their levels. -/

namespace JobTable

variable {F Hash : Type} (table : JobTable F Hash)

/-- `set_tdb_proof_witnesses_tuple_owned_raw` for one witness. -/
def saveWitness (jobId : QProvingJobDataID) (witness : RealmGutaWitness F Hash) : JobTable F Hash :=
  { table with savedWitnesses := table.savedWitnesses ++ [(jobId, witness)] }

/-- Put a job at the end of a level and note its position. -/
def push (jobId : QProvingJobDataID) (level index : Nat)
    (job : PsyProvingJobMetadataWithJobId Hash) : JobTable F Hash :=
  { table with
    plannedJobs := table.plannedJobs.modify level (· ++ [job])
    totalJobs := table.totalJobs + 1
    jobLevelMap := Function.update table.jobLevelMap jobId (some (level, index)) }

/-- The first straggler of a list that starts at the given level, with its level. -/
def firstStraggler {α : Type} : List (Option α) → Nat → Option (Nat × α)
  | [], _ => none
  | none :: stragglers, level => firstStraggler stragglers (level + 1)
  | some straggler :: _, level => some (level, straggler)

/-- `find_next_straggler_level`, with the straggler it finds. -/
def findNextStraggler (startLevel : Nat) : Option (Nat × JobHeader F Hash) :=
  firstStraggler (table.jobStragglers.drop startLevel) startLevel

variable [QFelt64 F] [HashTo4Felts F Hash] [FieldQHasher F Hash]

/-- The loop of `insert_job_at_level` from `currentLevel` on; the first number counts the
levels that are left.  A straggler is the LEFT sibling of the current job. -/
def aggregateFrom (uniquePendingId : Nat) : Nat → Nat → JobHeader F Hash → JobTable F Hash →
    Except (RealmPlannerError Hash) Unit × JobTable F Hash
  | 0, _, _, table => (.ok (), table)
  | levelsLeft + 1, currentLevel, currentHeader, table =>
    let table := { table with
      jobLevelCounts := table.jobLevelCounts.modify currentLevel (· + 1) }
    match table.jobStragglers.getD currentLevel none with
    | none =>
      (.ok (), { table with
        jobStragglers := table.jobStragglers.set currentLevel (some currentHeader) })
    | some straggler =>
      if currentLevel = maxRealmProvingLevels - 1 then
        (.error .exceededLevelsDuringAggregation, table)
      else
        let table := { table with jobStragglers := table.jobStragglers.set currentLevel none }
        let witness : GUTAVerifyTwoGUTALinearCircuitInput F Hash :=
          { leftHeader := straggler.header, rightHeader := currentHeader.header }
        let index := table.jobLevelCounts.getD (currentLevel + 1) 0
        let (job, newHeader) := witness.getJobWitnessAndNewGuta uniquePendingId
          ((currentLevel + 1) % 2 ^ 8) index straggler.jobId currentHeader.jobId
        aggregateFrom uniquePendingId levelsLeft (currentLevel + 1) newHeader
          ((table.saveWitness job.jobId (.twoGUTALinear witness)).push job.jobId
            (currentLevel + 1) index job)

def insertJobAtLevel (uniquePendingId : Nat) (table : JobTable F Hash)
    (gutaHeader : JobHeader F Hash) (level : Nat) (metadata : PsyProvingJobMetadataWithJobId Hash) :
    Except (RealmPlannerError Hash) Unit × JobTable F Hash :=
  if maxRealmProvingLevels ≤ level then (.error .exceededLevels, table)
  else
    aggregateFrom uniquePendingId (maxRealmProvingLevels - level) level gutaHeader
      (table.push gutaHeader.jobId level (table.jobLevelCounts.getD level 0) metadata)

end JobTable

/-! ## §3. Adding EndCaps. -/

section
variable {F Hash : Type} [QFelt64 F] [MerkleZeroHasher Hash] [DecidableEq Hash]
  (config : RealmPlannerConfig Hash)

/-- Whether a user id lies in the realm. -/
def RealmPlannerConfig.InRealm (userId : Nat) : Prop :=
  ¬ (userId < config.realmUserMinId ∨ userId > config.realmUserMaxId)

instance (config : RealmPlannerConfig Hash) (userId : Nat) :
    Decidable (config.InRealm userId) :=
  inferInstanceAs (Decidable (¬ _))

/-- The leaf of an EndCap's user in the realm's tree. -/
def RealmPlannerConfig.leafIndex (item : PsyRealmUserUpdateQueueItem F Hash) : Nat :=
  item.userId - config.realmUserMinId

/-- Write an EndCap's new leaf; the delta proof is for the index in the global tree. -/
def RealmPlannerConfig.writeEndCap (globalUserTree : RecorderStore Hash)
    (item : PsyRealmUserUpdateQueueItem F Hash) : RecorderStore Hash × DeltaMerkleProofCore Hash :=
  let (globalUserTree, dmp) := globalUserTree.setLeaf (config.leafIndex item) item.newUserLeafHash
  (globalUserTree, { dmp with index := dmp.index + config.realmUserMinId })

/-- The circuit input of one EndCap, with its checkpoint proven at the current one. -/
def RealmPlannerConfig.endCapInput (checkpointTree : AppendOnlyStore Hash)
    (item : PsyRealmUserUpdateQueueItem F Hash) : VerifyEndCapSimpleStandardInput F Hash :=
  let proof := checkpointTree.getHistoricalMerkleProofAtHistoricalIndex
    (toU64Value item.newUserLeaf.lastCheckpointId) config.currentCheckpointId
  { gutaStats := item.stats
    checkpointRoot := proof.getAppendRoot
    checkpointHistoricalMerkleProof := proof }

/-- The payloads of a user's contract updates. -/
structure ContractUpdatePayload where
  single : Bytes
  double : Bytes
  imt : Bytes

/-- Both ways of adding an EndCap take the contract updates apart like this; `none` means
that the submission nonce does not match and the EndCap is skipped. -/
def readContractUpdates (ext : Externals) (config : RealmPlannerConfig Hash) (data : Bytes)
    (submissionNonce : Nat) : Except (RealmPlannerError Hash) (Option ContractUpdatePayload) := do
  let (checkpointId, single, doubleFull) ←
    (ext.singleBatch data config.chainId config.realmIdU64 config.realmSubIdU64).mapError
      .contractUpdates
  if checkpointId ≠ submissionNonce then .ok none
  else do
    let (double, imtFull) ←
      (ext.doubleBatch doubleFull config.chainId config.realmIdU64 config.realmSubIdU64).mapError
        .contractUpdates
    let imt ← (ext.imtBatch imtFull).mapError .contractUpdates
    .ok (some ⟨single, double, imt⟩)

end

namespace RealmGUTAPlanner

variable {F Hash : Type} [QFelt64 F] [MerkleZeroHasher Hash] [DecidableEq Hash]
  [HashTo4Felts F Hash] [FieldQHasher F Hash]

/-- The pairing of an EndCap with the straggler, the same in both ways of adding one. -/
def pairEndCaps (config : RealmPlannerConfig Hash) (checkpointTree : AppendOnlyStore Hash)
    (left right : PsyRealmUserUpdateQueueItem F Hash) (table : JobTable F Hash)
    (globalUserTree : RecorderStore Hash) : Except (RealmPlannerError Hash) Unit × JobTable F Hash ×
      RecorderStore Hash :=
  let (globalUserTree, leftDmp) := config.writeEndCap globalUserTree left
  let (globalUserTree, rightDmp) := config.writeEndCap globalUserTree right
  let parentWitness : GUTAVerifyTwoEndCapCircuitInputV2 F Hash :=
    { leftEndCap := config.endCapInput checkpointTree left
      leftGlobalUserTreeDeltaMerkleProof := leftDmp
      rightEndCap := config.endCapInput checkpointTree right
      rightGlobalUserTreeDeltaMerkleProof := rightDmp }
  let jobId := gutaTwoEndCapWitness config.uniquePendingId 0
    (table.jobLevelCounts.getD 0 0)
  match parentWitness.failedAssertion config.globalUserTreeHeight with
  | some message => (.error (.panicked message), table, globalUserTree)
  | none =>
    let header := parentWitness.getNewGutaHeader config.globalUserTreeHeight
      config.gutaCircuitWhitelist
    let parentJob : PsyProvingJobMetadataWithJobId Hash :=
      { jobId := jobId
        metadata :=
          { expectedPublicInputsHash := header.qfhash
            rewardTreeNodeIndex := 0
            rewardTreeNodeLevel := 0
            rewardTreeHashMode := .noHashChildren
            rewardTreeNodeChildren := 0
            dependencies := [left.jobId, right.jobId] } }
    let (result, table) := JobTable.insertJobAtLevel config.uniquePendingId
      (table.saveWitness jobId (.twoEndCap parentWitness)) ⟨header, jobId⟩ 0 parentJob
    (result, table, globalUserTree)

variable (planner : RealmGUTAPlanner F Hash)

/-- The current validator leaf follows the EndCaps of the validator's account. -/
def refreshValidatorLeaf (item : PsyRealmUserUpdateQueueItem F Hash) : RealmGUTAPlanner F Hash :=
  if planner.currentValidatorUserLeaf.map (fun leaf => toU64Value leaf.userId) = some item.userId
  then { planner with currentValidatorUserLeaf := some item.newUserLeaf }
  else planner

/-- The last step of an accepted EndCap. -/
def countEndCap (job : PlannedFutureEndCapJob F Hash) : RealmGUTAPlanner F Hash :=
  { planner with
    totalEndCapsProcessed := planner.totalEndCapsProcessed + 1
    acceptedEndCapJobs := planner.acceptedEndCapJobs ++ [job] }

/-- What both ways of adding an EndCap do once its contract updates are read: keep the
payloads, then pair the EndCap with the straggler or let it wait. -/
def acceptEndCap (checkpointTree : AppendOnlyStore Hash)
    (job : PlannedFutureEndCapJob F Hash) (payload : ContractUpdatePayload)
    (planner : RealmGUTAPlanner F Hash) (globalUserTree : RecorderStore Hash) :
    Except (RealmPlannerError Hash) Nat × RealmGUTAPlanner F Hash × RecorderStore Hash :=
  let item := job.queueItem
  let planner := { planner with
    contractStateImtLeavesFfs := planner.contractStateImtLeavesFfs ++ payload.imt
    userContractTreeUpdatesFfs := planner.userContractTreeUpdatesFfs ++ payload.single
    contractStateTreeUpdatesFfs := planner.contractStateTreeUpdatesFfs ++ payload.double }
  match planner.updateUserLeaf item.newUserLeaf with
  | .error e => (.error e, planner, globalUserTree)
  | .ok planner =>
    let planner := planner.refreshValidatorLeaf item
    match planner.endCapStraggler with
    | none =>
      (.ok 1, countEndCap { planner with endCapStraggler := some item } job, globalUserTree)
    | some left =>
      let (result, table, globalUserTree) := pairEndCaps planner.toRealmPlannerConfig
        checkpointTree left item planner.toJobTable globalUserTree
      let planner := { planner with endCapStraggler := none, toJobTable := table }
      match result with
      | .error e => (.error e, planner, globalUserTree)
      | .ok _ => (.ok 1, planner.countEndCap job, globalUserTree)

/-- `populate_future_end_cap_job`; the temporary store's answer is an argument. -/
def populateFutureEndCapJob (contractUpdates : Option Bytes)
    (item : PsyRealmUserUpdateQueueItem F Hash) : Option (PlannedFutureEndCapJob F Hash) :=
  contractUpdates.map (fun data => ⟨item, data⟩)

/-- A missing leaf of the user tree is set to the old hash an EndCap declares. -/
def initializeLeaf (config : RealmPlannerConfig Hash) (globalUserTree : RecorderStore Hash)
    (item : PsyRealmUserUpdateQueueItem F Hash) : RecorderStore Hash :=
  let lastUserLeafValue := globalUserTree.getLeafValue (config.leafIndex item)
  if lastUserLeafValue ≠ item.oldUserLeafHash ∧ lastUserLeafValue = getZeroValue then
    (globalUserTree.setLeaf (config.leafIndex item) item.oldUserLeafHash).1
  else globalUserTree

/-- `add_end_cap_job`, that is `add_end_cap_job_internal`. -/
def addEndCapJob (ext : Externals) (checkpointTree : AppendOnlyStore Hash)
    (contractUpdates : Option Bytes) (item : PsyRealmUserUpdateQueueItem F Hash)
    (planner : RealmGUTAPlanner F Hash) (globalUserTree : RecorderStore Hash) :
    Except (RealmPlannerError Hash) Nat × RealmGUTAPlanner F Hash × RecorderStore Hash :=
  let config := planner.toRealmPlannerConfig
  if item.newUserLeaf.qfhash ≠ item.newUserLeafHash then
    (.error .endCapPreimageMismatch, planner, globalUserTree)
  else if ¬ config.InRealm item.userId then (.ok 0, planner, globalUserTree)
  else
    let lastUserLeafValue := globalUserTree.getLeafValue (config.leafIndex item)
    if lastUserLeafValue ≠ item.oldUserLeafHash ∧ lastUserLeafValue ≠ getZeroValue then
      (.ok 0, planner, globalUserTree)
    else
      let globalUserTree := initializeLeaf config globalUserTree item
      if toU64Value item.newUserLeaf.lastCheckpointId > config.currentCheckpointId then
        match populateFutureEndCapJob contractUpdates item with
        | none => (.ok 0, planner, globalUserTree)
        | some job =>
          (.ok 0, { planner with
            futurePendingEndCapJobs := planner.futurePendingEndCapJobs ++ [job] },
            globalUserTree)
      else
        match contractUpdates with
        | none => (.ok 0, planner, globalUserTree)
        | some data =>
          match readContractUpdates ext config data item.submissionNonce with
          | .error e => (.error e, planner, globalUserTree)
          | .ok none => (.ok 0, planner, globalUserTree)
          | .ok (some payload) =>
            acceptEndCap checkpointTree ⟨item, data⟩ payload planner globalUserTree

/-- The leaf a deferred EndCap has to start from: the straggler's, if it is of the same
user, otherwise the tree's. -/
def logicalOldLeaf (globalUserTree : RecorderStore Hash)
    (item : PsyRealmUserUpdateQueueItem F Hash) : Hash :=
  match planner.endCapStraggler.filter (fun straggler => straggler.userId = item.userId) with
  | some straggler => straggler.newUserLeafHash
  | none => globalUserTree.getLeafValue (planner.leafIndex item)

def addFutureEndCapJob (ext : Externals) (checkpointTree : AppendOnlyStore Hash)
    (job : PlannedFutureEndCapJob F Hash) (planner : RealmGUTAPlanner F Hash)
    (globalUserTree : RecorderStore Hash) :
    Except (RealmPlannerError Hash) Nat × RealmGUTAPlanner F Hash × RecorderStore Hash :=
  let config := planner.toRealmPlannerConfig
  let item := job.queueItem
  if item.newUserLeaf.qfhash ≠ item.newUserLeafHash then
    (.error .deferredEndCapPreimageMismatch, planner, globalUserTree)
  else if ¬ config.InRealm item.userId then (.ok 0, planner, globalUserTree)
  else if toU64Value item.newUserLeaf.lastCheckpointId > config.currentCheckpointId then
    (.ok 0, { planner with
      futurePendingEndCapJobs := planner.futurePendingEndCapJobs ++ [job] }, globalUserTree)
  else if planner.logicalOldLeaf globalUserTree item ≠ item.oldUserLeafHash then
    (.ok 0, planner, globalUserTree)
  else
    match readContractUpdates ext config job.contractUpdates item.submissionNonce with
    | .error e => (.error e, planner, globalUserTree)
    | .ok none => (.ok 0, planner, globalUserTree)
    | .ok (some payload) => acceptEndCap checkpointTree job payload planner globalUserTree

/-- `add_future_end_cap_jobs`, with the count so far. -/
def addFutureEndCapJobs (ext : Externals) (checkpointTree : AppendOnlyStore Hash)
    (count : Nat) : List (PlannedFutureEndCapJob F Hash) → RealmGUTAPlanner F Hash →
    RecorderStore Hash → Except (RealmPlannerError Hash) Nat × RealmGUTAPlanner F Hash ×
      RecorderStore Hash
  | [], planner, globalUserTree => (.ok count, planner, globalUserTree)
  | job :: jobs, planner, globalUserTree =>
    match addFutureEndCapJob ext checkpointTree job planner globalUserTree with
    | (.error e, planner, globalUserTree) => (.error e, planner, globalUserTree)
    | (.ok n, planner, globalUserTree) =>
      addFutureEndCapJobs ext checkpointTree (count + n) jobs planner globalUserTree

end RealmGUTAPlanner

/-! ## §4. Reward keys. -/

namespace JobTable

variable {F Hash : Type}

/-- `update_reward_tree_config`.  The first argument bounds the depth: a search deeper than
there are jobs meets an id again below itself, and the source never returns.  The `u8`
level and the `u64` index wrap. -/
def updateRewardTreeConfig : Nat → QProvingJobDataID → Nat → Nat → JobTable F Hash →
    Except (RealmPlannerError Hash) (JobTable F Hash)
  | 0, _, _, _, _ => .error .doesNotReturn
  | depth + 1, jobId, level, index, table =>
    if jobId.circuitType = .userEndCap then .ok table
    else
      match table.jobLevelMap jobId with
      | none => .error (.jobNotFound jobId)
      | some position =>
        match (table.plannedJobs.getD position.1 [])[position.2]? with
        | none => .error (.panicked "index out of bounds")
        | some job => do
          let table := { table with
            plannedJobs := table.plannedJobs.modify position.1
              (·.set position.2 (job.updateLevelAndIndex level index)) }
          let table ←
            (match job.metadata.dependencies[0]? with
            | some child =>
              if child.circuitType ≠ .userEndCap then
                updateRewardTreeConfig depth child ((level + 1) % 2 ^ 8)
                  (index * 2 % 2 ^ 64) table
              else .ok table
            | none => .ok table)
          match job.metadata.dependencies[1]? with
          | some child =>
            if child.circuitType ≠ .userEndCap then
              updateRewardTreeConfig depth child ((level + 1) % 2 ^ 8)
                ((index * 2 + 1) % 2 ^ 64) table
            else .ok table
          | none => .ok table

/-- The level above all planned jobs:
`rposition(|jobs| !jobs.is_empty()).map(|level| level + 1).unwrap_or(0)`. -/
def freshLevel : List (List (PsyProvingJobMetadataWithJobId Hash)) → Nat
  | [] => 0
  | jobs :: levels =>
    if freshLevel levels = 0 then (if jobs = [] then 0 else 1) else freshLevel levels + 1

variable [QFelt64 F] [HashTo4Felts F Hash] [FieldQHasher F Hash]

/-- `finalize_promote_guta_stragglers`.  The first argument bounds the iterations.  The
straggler of the HIGHER level is the earlier sub-tree and becomes the left child. -/
def finalizePromoteGutaStragglers (uniquePendingId : Nat) : Nat → JobTable F Hash →
    Except (RealmPlannerError Hash) (Option (Nat × JobHeader F Hash) × JobTable F Hash)
  | 0, _ => .error .doesNotReturn
  | n + 1, table =>
    match table.findNextStraggler 0 with
    | none => .ok (none, table)
    | some (firstLevel, right) =>
      match table.findNextStraggler (firstLevel + 1) with
      | none => .ok (some (firstLevel, right), table)
      | some (nextLevel, left) =>
        let table := { table with
          jobStragglers := (table.jobStragglers.set nextLevel none).set firstLevel none }
        let witness : GUTAVerifyTwoGUTALinearCircuitInput F Hash :=
          { leftHeader := left.header, rightHeader := right.header }
        let (job, newHeader) := witness.getJobWitnessAndNewGuta uniquePendingId
          ((nextLevel + 1) % 2 ^ 8) (table.jobLevelCounts.getD (nextLevel + 1) 0)
          left.jobId right.jobId
        match insertJobAtLevel uniquePendingId
          (table.saveWitness job.jobId (.twoGUTALinear witness)) newHeader (nextLevel + 1)
          job with
        | (.error e, _) => .error e
        | (.ok _, table) => finalizePromoteGutaStragglers uniquePendingId n table

end JobTable

/-! ## §5. Finalization. -/

/-- What `finalize_with_reward_ids` returns: `RealmGUTAEndCapGathererOutput` with its
`db_output`, without the serialised tree nodes. -/
structure RealmFinalizeOutput (F Hash : Type) where
  oldRealmRoot : Hash
  newRealmRoot : Hash
  updateUserContractTreeNodesFfs : Bytes
  updateContractStateTreeNodesFfs : Bytes
  updateUserLeavesFfs : List (PQEDUserLeaf F Hash)
  updateContractStateImtLeavesFfs : Bytes
  totalUsersUpdated : Nat
  totalProofsGenerated : Nat
  gutaHeader : JobHeader F Hash
  jobIds : List (List (PsyProvingJobMetadataWithJobId Hash))

namespace RealmGUTAPlanner

variable {F Hash : Type} [QFelt64 F] [MerkleZeroHasher Hash] [DecidableEq Hash]
  [HashTo4Felts F Hash] [FieldQHasher F Hash]
  (checkpointTree : AppendOnlyStore Hash)

/-- `finalize_promote_end_cap_stragglers`: join the waiting EndCap with the lowest
straggler, or return it. -/
def finalizePromoteEndCapStragglers (planner : RealmGUTAPlanner F Hash)
    (globalUserTree : RecorderStore Hash) :
    Except (RealmPlannerError Hash) (Option (PsyRealmUserUpdateQueueItem F Hash) ×
      RealmGUTAPlanner F Hash × RecorderStore Hash) :=
  match planner.endCapStraggler with
  | none => .ok (none, planner, globalUserTree)
  | some item =>
    let config := planner.toRealmPlannerConfig
    let planner := { planner with endCapStraggler := none }
    match planner.findNextStraggler 0 with
    | none => .ok (some item, planner, globalUserTree)
    | some (level, straggler) =>
      let table := { planner.toJobTable with
        jobStragglers := planner.jobStragglers.set level none }
      let (globalUserTree, rightDmp) := config.writeEndCap globalUserTree item
      let witness : GUTAVerifyLeftGUTARightEndCapCircuitInputV2 F Hash :=
        { leftHeader := straggler.header
          rightEndCap := config.endCapInput checkpointTree item
          rightGlobalUserTreeDeltaMerkleProof := rightDmp }
      let (job, newHeader) := witness.getJobWitnessAndNewGuta config.uniquePendingId
        ((level + 1) % 2 ^ 8) (table.jobLevelCounts.getD (level + 1) 0) straggler.jobId
        item.jobId
      match JobTable.insertJobAtLevel config.uniquePendingId
        (table.saveWitness job.jobId (.leftGUTARightEndCap witness)) newHeader (level + 1)
        job with
      | (.error e, _) => .error e
      | (.ok _, table) => .ok (none, { planner with toJobTable := table }, globalUserTree)

/-- The job of a single EndCap, planned when no other job exists. -/
def promoteSingleEndCap (rewardTreeRootLevel rewardTreeRootIndex : Nat)
    (planner : RealmGUTAPlanner F Hash) (globalUserTree : RecorderStore Hash)
    (item : PsyRealmUserUpdateQueueItem F Hash) :
    JobHeader F Hash × RealmGUTAPlanner F Hash × RecorderStore Hash :=
  let config := planner.toRealmPlannerConfig
  let (globalUserTree, dmp) := config.writeEndCap globalUserTree item
  let witness : VerifySingleEndCapInputV2 F Hash :=
    { gutaCircuitWhitelist := config.gutaCircuitWhitelist
      core := config.endCapInput checkpointTree item
      globalUserTreeSubRootTransition := dmp
      userId := item.newUserLeaf.userId }
  let jobId := gutaSingleEndCapWitness config.uniquePendingId 0 0 0
  let header := witness.getNewGutaHeader config.globalUserTreeHeight
  let job : PsyProvingJobMetadataWithJobId Hash :=
    { jobId := jobId
      metadata :=
        { expectedPublicInputsHash := header.qfhash
          rewardTreeNodeIndex := rewardTreeRootIndex
          rewardTreeNodeLevel := rewardTreeRootLevel
          rewardTreeHashMode := .noHashChildren
          rewardTreeNodeChildren := 0
          dependencies := [item.jobId] } }
  (⟨header, jobId⟩,
    { planner with
      toJobTable := (planner.toJobTable.saveWitness jobId (.singleEndCap witness)).push jobId 0
        (planner.plannedJobs.getD 0 []).length job },
    globalUserTree)

/-- The first part of `append_realm_finalize_guta`: upgrade the root header to the
finalization checkpoint, if it is at another one. -/
def upgradeRoot (proofs : RealmGUTAValidatorProofs F Hash) (planner : RealmGUTAPlanner F Hash)
    (rootHeader : JobHeader F Hash) : Except (RealmPlannerError Hash)
      (JobHeader F Hash × RealmGUTAPlanner F Hash) :=
  if rootHeader.header.checkpointTreeRoot = proofs.checkpointTreeProof.root then
    .ok (rootHeader, planner)
  else do
    let historicalCheckpointProof ←
      (checkpointTree.getHistoricalIndexAppendOnlyMerkleProofForRoot
        rootHeader.header.checkpointTreeRoot proofs.checkpointTreeProof.index).mapError
          .checkpointTree
    let input : VerifyGUTAToCapUpgradeCheckpointCircuitInputSimple F Hash :=
      { gutaProofHeader := rootHeader.header
        topLineSiblings := []
        historicalCheckpointProof := historicalCheckpointProof
        totalAggregationProofsGenerated := rootHeader.header.totalAggregationProofsGenerated }
    if historicalCheckpointProof.root ≠ proofs.checkpointTreeProof.root then
      .error .upgradeMissesFinalizationRoot
    else
      let level := JobTable.freshLevel planner.plannedJobs
      if ¬ level + 1 < maxRealmProvingLevels then .error .upgradeExceedsCapacity
      else
        let jobId := newProofJobId planner.uniquePendingId 0
          .gutaVerifyToCapWithCheckpointUpgrade level 0
        let header := input.getNewGutaHeader
        let job : PsyProvingJobMetadataWithJobId Hash :=
          { jobId := jobId
            metadata :=
              { expectedPublicInputsHash := header.qfhash
                rewardTreeHashMode := .liftChild
                rewardTreeNodeIndex := 0
                rewardTreeNodeLevel := 0
                rewardTreeNodeChildren := 1
                dependencies := [rootHeader.jobId] } }
        .ok (⟨header, jobId⟩,
          { planner with
            toJobTable := (planner.toJobTable.saveWitness jobId
              (.toCapUpgradeCheckpoint input)).push jobId level 0 job })

variable (ext : Externals)

/-- The checks of `append_realm_finalize_guta` on the validator: the current account leaf,
and the field limbs of the node id and of the BLS key. -/
def checkValidator (proofs : RealmGUTAValidatorProofs F Hash) (planner : RealmGUTAPlanner F Hash) :
    Except (RealmPlannerError Hash) (PQEDUserLeaf F Hash × List Nat × List Nat) :=
  match planner.currentValidatorUserLeaf with
  | none => .error .currentValidatorLeafRequired
  | some currentValidatorUserLeaf => do
    let validatorUserId := proofs.validator.validatorUserId
    let nodeLimbs ← (ext.sha256Limbs proofs.validator.nodeId).mapError .fieldLimbs
    let blsLimbs ← (ext.sha256Limbs proofs.validator.blsPublicKey).mapError .fieldLimbs
    if toU64Value currentValidatorUserLeaf.userId ≠ validatorUserId then
      .error .currentValidatorLeafOfAnotherUser
    else if toU64Value proofs.validatorUserLeaf.userId ≠ validatorUserId then
      .error (.validatorUserLeafMismatch (toU64Value proofs.validatorUserLeaf.userId)
        validatorUserId)
    else if ¬ planner.InRealm validatorUserId then
      .error (.validatorOutsideRealm validatorUserId planner.realmIdU64 planner.realmUserMinId
        planner.realmUserMaxId)
    else .ok (currentValidatorUserLeaf, nodeLimbs, blsLimbs)

/-- The validator's account after the fees of the root header are paid into it. -/
def feeLeaf (finalizationCheckpointId fee : Nat) (leaf : PQEDUserLeaf F Hash) :
    PQEDUserLeaf F Hash :=
  { leaf with
    balance := fromU64Value (toU64Value leaf.balance + fee)
    lastCheckpointId := if fee = 0 then leaf.lastCheckpointId
      else fromU64Value finalizationCheckpointId }

variable (proofs : RealmGUTAValidatorProofs F Hash) (header : GlobalUserTreeAggregatorHeader F Hash)

/-- The fee delta of `append_realm_finalize_guta` against the current user tree. -/
def feeDelta (leaf : PQEDUserLeaf F Hash)
    (planner : RealmGUTAPlanner F Hash) (globalUserTree : RecorderStore Hash) :
    Except (RealmPlannerError Hash) (PQEDUserLeaf F Hash × DeltaMerkleProofCore Hash) :=
  let validatorUserId := proofs.validator.validatorUserId
  let effectiveValidatorIndex := validatorUserId - planner.realmUserMinId
  let oldLeafProof := globalUserTree.getLeaf effectiveValidatorIndex
  let oldLeafHash : Hash := leaf.qfhash
  let oldBalance := toU64Value leaf.balance
  let fee := toU64Value header.stats.daFeesCollected
  if oldLeafHash ≠ oldLeafProof.value then
    .error (.staleValidatorLeaf validatorUserId oldLeafHash oldLeafProof.value)
  else if ¬ oldBalance + fee < 2 ^ 60 then
    .error (.balanceOverflow validatorUserId oldBalance fee)
  else
    let newUserLeaf := feeLeaf proofs.checkpointTreeProof.index fee leaf
    let newLeafHash : Hash := newUserLeaf.qfhash
    let feeDeltaProof : DeltaMerkleProofCore Hash :=
      { oldValue := oldLeafHash
        newValue := newLeafHash
        oldRoot := globalUserTree.getRoot
        newRoot := computeRootMerkleProofGeneric newLeafHash effectiveValidatorIndex
          oldLeafProof.siblings
        index := effectiveValidatorIndex
        siblings := oldLeafProof.siblings }
    if header.stateTransition.newNodeValue ≠ feeDeltaProof.oldRoot then
      .error .feeDeltaRootMismatch
    else .ok (newUserLeaf, feeDeltaProof)

/-- The header of the fee job. -/
def finalGutaHeader (newRoot : Hash) : GlobalUserTreeAggregatorHeader F Hash :=
  { header with
    stateTransition := { header.stateTransition with newNodeValue := newRoot }
    totalAggregationProofsGenerated :=
      fromU64Value (toU64Value header.totalAggregationProofsGenerated + 1) }

/-- The input of the fee circuit. -/
def realmFinalizeInput (rootHeader : GlobalUserTreeAggregatorHeader F Hash)
    (leaf : PQEDUserLeaf F Hash) (nodeLimbs blsLimbs : List Nat)
    (feeDeltaProof : DeltaMerkleProofCore Hash) (planner : RealmGUTAPlanner F Hash)
    (globalUserTree : RecorderStore Hash) : RealmFinalizeGUTAInput F Hash where
  rootGutaHeader := rootHeader
  rootGutaWhitelistProof := ⟨getZeroValue, getZeroValue, 0, []⟩
  checkpointId := fromU64Value proofs.checkpointTreeProof.index
  realmSubId := planner.realmSubIdU64 % 2 ^ 16
  anchorCheckpointLeaf := proofs.anchorCheckpointLeaf
  anchorCheckpointTreeProof := proofs.anchorCheckpointTreeProof
  checkpointTreeProof := proofs.checkpointTreeProof
  checkpointLeaf := proofs.checkpointLeaf
  oldRealmRootProof := proofs.oldRealmRootProof
  validatorUserId := fromU64Value proofs.validator.validatorUserId
  validatorNodeIdHashLimbs := nodeLimbs
  validatorBlsHashLimbs := blsLimbs
  validatorTreeProof := proofs.validatorTreeProof
  validatorUserLeaf := proofs.validatorUserLeaf
  validatorUserTreeProof := proofs.validatorUserTreeProof
  currentValidatorUserLeaf := leaf
  currentValidatorUserTreeProof := globalUserTree.getLeaf feeDeltaProof.index
  validatorFeeDeltaProof := feeDeltaProof

variable (checkpointTree : AppendOnlyStore Hash)

def appendRealmFinalizeGuta
    (planner : RealmGUTAPlanner F Hash) (globalUserTree : RecorderStore Hash)
    (rootHeader : JobHeader F Hash) : Except (RealmPlannerError Hash) (JobHeader F Hash ×
      RealmGUTAPlanner F Hash × RecorderStore Hash) :=
  match planner.validatorProofs with
  | none => .error .validatorProofsRequired
  | some proofs => do
    let (rootHeader, planner) ← upgradeRoot checkpointTree proofs planner rootHeader
    let (leaf, nodeLimbs, blsLimbs) ← checkValidator ext proofs planner
    let (newUserLeaf, feeDeltaProof) ←
      feeDelta proofs rootHeader.header leaf planner globalUserTree
    let finalHeader := finalGutaHeader rootHeader.header feeDeltaProof.newRoot
    let jobId := realmFinalizeGuta proofs.checkpointTreeProof.index
      (planner.realmIdU64 % 2 ^ 32)
    let input := realmFinalizeInput proofs rootHeader.header leaf nodeLimbs blsLimbs feeDeltaProof
      planner globalUserTree
    let job : PsyProvingJobMetadataWithJobId Hash :=
      { jobId := jobId
        metadata :=
          { expectedPublicInputsHash := finalHeader.qfhash
            rewardTreeNodeIndex := 0
            rewardTreeNodeLevel := 0
            rewardTreeHashMode := .hashChildrenStandard
            rewardTreeNodeChildren := 2
            dependencies := [rootHeader.jobId] } }
    let level := JobTable.freshLevel planner.plannedJobs
    if maxRealmProvingLevels ≤ level then .error (.finalizerExceedsCapacity level)
    else if ¬ planner.totalJobs + 1 < 2 ^ 64 then .error .totalJobsOverflow
    else do
      let (globalUserTree, _) := globalUserTree.setLeaf feeDeltaProof.index feeDeltaProof.newValue
      let planner := { planner with
        toJobTable := (planner.toJobTable.saveWitness jobId (.realmFinalize input)).push jobId
          level (planner.plannedJobs.getD level []).length job }
      let planner ← planner.updateUserLeaf newUserLeaf
      .ok (⟨finalHeader, jobId⟩,
        { planner with currentValidatorUserLeaf := some newUserLeaf }, globalUserTree)

/-- The common end of `finalize_with_reward_ids`: append the fee job, give out reward keys
from it down, and move everything collected into the output. -/
def finalizeRoot
    (rewardTreeRootLevel rewardTreeRootIndex : Nat) (planner : RealmGUTAPlanner F Hash)
    (globalUserTree : RecorderStore Hash) (rootHeader : JobHeader F Hash) :
    Except (RealmPlannerError Hash) (RealmFinalizeOutput F Hash × RealmGUTAPlanner F Hash ×
      RecorderStore Hash) := do
  let (rootHeader, planner, globalUserTree) ←
    appendRealmFinalizeGuta ext checkpointTree planner globalUserTree rootHeader
  let table ← planner.toJobTable.updateRewardTreeConfig (planner.totalJobs + 1) rootHeader.jobId
    rewardTreeRootLevel rewardTreeRootIndex
  .ok
    ({ totalUsersUpdated := planner.totalEndCapsProcessed
       totalProofsGenerated := table.totalJobs
       oldRealmRoot := planner.startRealmRoot
       newRealmRoot := globalUserTree.getRoot
       updateUserContractTreeNodesFfs := planner.userContractTreeUpdatesFfs
       updateContractStateTreeNodesFfs := planner.contractStateTreeUpdatesFfs
       updateContractStateImtLeavesFfs := planner.contractStateImtLeavesFfs
       updateUserLeavesFfs := planner.userLeafUpdatesFfs
       gutaHeader := rootHeader
       jobIds := table.plannedJobs.filter (· ≠ []) },
     { planner with
        toJobTable := { table with plannedJobs := List.replicate maxRealmProvingLevels [] }
        userContractTreeUpdatesFfs := []
        contractStateTreeUpdatesFfs := []
        contractStateImtLeavesFfs := []
        userLeafUpdatesFfs := []
        userLeafUpdateOffsets := fun _ => none },
     globalUserTree)

def finalizeWithRewardIds
    (rewardTreeRootLevel rewardTreeRootIndex : Nat) (planner : RealmGUTAPlanner F Hash)
    (globalUserTree : RecorderStore Hash) :
    Except (RealmPlannerError Hash) (Option (RealmFinalizeOutput F Hash) ×
      RealmGUTAPlanner F Hash × RecorderStore Hash) :=
  if ¬ (planner.validatorProofs.isSome ∧ planner.currentValidatorUserLeaf.isSome) then
    .error .incompleteValidatorProofs
  else if planner.totalJobs = 0 ∧ planner.endCapStraggler.isNone then
    .ok (none, planner, globalUserTree)
  else do
    let (single, planner, globalUserTree) ←
      finalizePromoteEndCapStragglers checkpointTree planner globalUserTree
    match single with
    | some item =>
      if planner.totalJobs ≠ 0 then .error .endCapStragglerRemains
      else do
        let (header, planner, globalUserTree) := promoteSingleEndCap checkpointTree
          rewardTreeRootLevel rewardTreeRootIndex planner globalUserTree item
        let (output, planner, globalUserTree) ← finalizeRoot ext checkpointTree
          rewardTreeRootLevel rewardTreeRootIndex planner globalUserTree header
        .ok (some output, planner, globalUserTree)
    | none => do
      let (root, table) ← planner.toJobTable.finalizePromoteGutaStragglers
        planner.uniquePendingId (maxRealmProvingLevels + 1)
      match root with
      | none => .error .noRootFound
      | some (level, straggler) => do
        let planner := { planner with
          toJobTable := { table with jobStragglers := table.jobStragglers.set level none } }
        let (output, planner, globalUserTree) ← finalizeRoot ext checkpointTree
          rewardTreeRootLevel rewardTreeRootIndex planner globalUserTree straggler
        .ok (some output, planner, globalUserTree)

end RealmGUTAPlanner

end PsyNode.Realm
