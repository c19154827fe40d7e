/-
PsyNode.Edge.SubmitGuta
**SUBMITTING A GUTA UPDATE** — `submit_guta_internal` of the coordinator edge,
as the atomic steps it makes between its `await` points.

A call reads the gathering generation, the committed checkpoint, the realm root
and the in-flight record, each at its own moment; then it puts its submit status,
swaps the in-flight record, stores the proof and publishes the update.  Calls run
concurrently, and checkpoints are committed meanwhile.

`holders` and `claims` record which call put a status and which swapped a record;
no step reads them.
-/
import PsyNode.Guta.Header
import PsyNode.Lib.Interleave
import PsyNode.P2p.Messages

namespace PsyNode.Edge

open Merkle Guta Lib.ByteCodec Lib.Interleave Lib P2p

/-! ## §1. The temp store. -/

/-- The key-value table of the temp store. -/
abbrev TempDb := Bytes → Option Bytes

variable (db : TempDb)

/-- `qtdb_raw_kv_put_value_if_absent`. -/
def putValueIfAbsent (key value : Bytes) : Bool × TempDb :=
  match db key with
  | some _ => (false, db)
  | none => (true, Function.update db key (some value))

/-- `qtdb_raw_kv_compare_and_set`: an empty value counts as absent. -/
def compareAndSet (key : Bytes) (expected : Option Bytes) (newValue : Bytes) : Bool × TempDb :=
  if (db key).filter (fun value => !value.isEmpty) = expected then
    (true, Function.update db key (some newValue))
  else (false, db)

/-- The realm whose tables these are: `QRealmIdentifier`. -/
structure QRealmIdentifier where
  realmId : UInt32
  realmSubId : UInt16

variable (rid : QRealmIdentifier)

/-- The beginning of every key: the realm and the id of a table. -/
def tableKey (table : Bytes) : Bytes :=
  writeU32 rid.realmId ++ (writeU16 rid.realmSubId ++ table)

def TEMP_TABLE_ID_SUBMIT_STATUS_BYTES : Bytes := [0x53, 0x53]

def TEMP_TABLE_ID_GUTA_IN_FLIGHT_BYTES : Bytes := [0x47, 0x46]

def TEMP_TABLE_ID_GATHERING_UNIQUE_PENDING_ID_BYTES : Bytes := [0x47, 0x50]

def ttGetSubmitStatusKey (uniquePendingId userOrRealmId : UInt64) : Bytes :=
  tableKey rid TEMP_TABLE_ID_SUBMIT_STATUS_BYTES ++
    (writeU64 uniquePendingId ++ writeU64 userOrRealmId)

def ttGetGutaInFlightKey (submittingRealmId : UInt64) : Bytes :=
  tableKey rid TEMP_TABLE_ID_GUTA_IN_FLIGHT_BYTES ++ writeU64 submittingRealmId

def ttGetGatheringUniquePendingIdKey : Bytes :=
  tableKey rid TEMP_TABLE_ID_GATHERING_UNIQUE_PENDING_ID_BYTES

/-- The batch that submissions are gathered for. -/
structure GatheringGeneration where
  uniquePendingId : UInt64
  procCheckpointUniqueId : Nat
  checkpointId : UInt64
deriving DecidableEq

/-- Reads the generation, which takes exactly 32 bytes. -/
def getGatheringGeneration (rid : QRealmIdentifier) : Except String GatheringGeneration :=
  match db (ttGetGatheringUniquePendingIdKey rid) with
  | none => .error "Gathering generation not found"
  | some value =>
    if value.length = 32 then
      .ok ⟨UInt64.ofNat (ofLeBytes (value.take 8)), ofLeBytes ((value.drop 8).take 16),
        UInt64.ofNat (ofLeBytes (value.drop 24))⟩
    else .error "Invalid value length for gathering generation"

/-- The realm transition that was accepted last, and when. -/
structure GutaInFlightRecord where
  oldRealmRoot : FixedBytes 32
  newRealmRoot : FixedBytes 32
  acceptedAtCheckpointId : UInt64
deriving DecidableEq

def GutaInFlightRecord.toBytes (record : GutaInFlightRecord) : Bytes :=
  record.oldRealmRoot.toList ++
    (record.newRealmRoot.toList ++ writeU64 record.acceptedAtCheckpointId)

def GutaInFlightRecord.fromBytes (bytes : Bytes) : Except String GutaInFlightRecord :=
  if h : bytes.length = 72 then
    .ok ⟨⟨bytes.take 32, by simp [h]⟩, ⟨(bytes.drop 32).take 32, by simp [h]⟩,
      UInt64.ofNat (ofLeBytes (bytes.drop 64))⟩
  else .error s!"GUTA in-flight record must be 72 bytes, got {bytes.length}"

/-- `get_guta_in_flight`: the record and its stored bytes. -/
def getGutaInFlight (rid : QRealmIdentifier) (submittingRealmId : UInt64) :
    Except String (Option (GutaInFlightRecord × Bytes)) :=
  match (db (ttGetGutaInFlightKey rid submittingRealmId)).filter (fun raw => !raw.isEmpty) with
  | none => .ok none
  | some raw => (GutaInFlightRecord.fromBytes raw).map (fun record => some (record, raw))

/-! ## §2. Calls. -/

/-- The height of the checkpoint tree, in every network configuration: a checkpoint is one of its
leaves. -/
def CHECKPOINT_TREE_HEIGHT : Nat := 32

/-- How many checkpoints an accepted transition blocks another one. -/
def GUTA_IN_FLIGHT_WINDOW_CHECKPOINTS : Nat := 3

structure GlobalUserTreeAggregatorHeaderWithTagValueAndJobType (F Hash : Type) where
  header : GlobalUserTreeAggregatorHeaderWithTagValue F Hash
  jobTypeU32 : Nat

/-- The arguments of a call. -/
structure Submission (F Hash : Type) where
  input : GlobalUserTreeAggregatorHeaderWithTagValueAndJobType F Hash
  proofBytes : Bytes

/-- The coordinator's edge. -/
structure EdgeConfig where
  realmIdentifier : QRealmIdentifier
  coordinatorGlobalUserTreeHeight : Nat
  height_lt : coordinatorGlobalUserTreeHeight < 64

/-- An item in the queue of updates, and the call that published it. -/
structure Publication (F Hash : Type) where
  call : Nat
  procCheckpointUniqueId : Nat
  item : GlobalUserTreeAggregatorHeaderWithTagValueAndJobID F Hash

/-- A status put by a call. -/
structure Holder where
  call : Nat
  uniquePendingId : UInt64
  realmId : UInt64
deriving DecidableEq

/-- An in-flight record swapped in by a call. -/
structure Claim where
  call : Nat
  realmId : UInt64
  record : GutaInFlightRecord
deriving DecidableEq

/-- What the calls share. -/
structure Shared (F Hash : Type) where
  tempDb : TempDb
  latestCheckpointId : Fin (2 ^ CHECKPOINT_TREE_HEIGHT)
  /-- the node of a realm as of a checkpoint, and the checkpoint that last changed it -/
  realmNode : Nat → UInt64 → Hash × Nat
  proofStore : List ((QProvingJobDataID × UInt64) × Bytes)
  queue : List (Publication F Hash)
  holders : List Holder
  claims : List Claim

/-- `GutaSubmitError`, and the errors that are a text only. -/
inductive SubmitError
  | retryable (reason : RealmFinalizeSubmitCode) (message : String)
  | illegal (reason : RealmFinalizeSubmitCode) (message : String)
  | text (message : String)
deriving DecidableEq

/-- Where a call is, with what it has read so far. -/
inductive Phase
  | start
  | generation (generation : GatheringGeneration)
  | latest (generation : GatheringGeneration) (committed : Fin (2 ^ CHECKPOINT_TREE_HEIGHT))
  | matched (generation : GatheringGeneration) (committed : Fin (2 ^ CHECKPOINT_TREE_HEIGHT))
  | cleared (generation : GatheringGeneration) (committed : Fin (2 ^ CHECKPOINT_TREE_HEIGHT))
      (observed : Option Bytes)
  | verified (generation : GatheringGeneration) (committed : Fin (2 ^ CHECKPOINT_TREE_HEIGHT))
      (observed : Option Bytes) (jobId : QProvingJobDataID)
  | submitted (generation : GatheringGeneration) (committed : Fin (2 ^ CHECKPOINT_TREE_HEIGHT))
      (observed : Option Bytes) (jobId : QProvingJobDataID)
  | claimed (generation : GatheringGeneration) (jobId : QProvingJobDataID)
  | stored (generation : GatheringGeneration) (jobId : QProvingJobDataID)
  | done
  | failed (error : SubmitError)
deriving DecidableEq

/-- What the outside decides in a step: a failure of the store, the verdict on certificate and
proof, and the random status. -/
structure Choice where
  io : Option String
  verdict : Except String Unit
  random : UInt64

/-! ## §3. The steps. -/

section
variable {F Hash : Type} [QFelt64 F]

/-- The realm is the node of the transition. -/
def Submission.realmIdU64 (call : Submission F Hash) : UInt64 :=
  UInt64.ofNat (toU64Value call.input.header.header.stateTransition.nodeIndex)

/-- The circuit types that `try_get_coordinator_edge_proof_store_output_proof_id_for_realm_submit`
takes, by their numbers. -/
def realmSubmitCircuitType : Nat → Option ProvingJobCircuitType
  | 7 => some .gutaTwoEndCap
  | 8 => some .gutaTwoGUTA
  | 9 => some .gutaLeftEndCapRightGUTA
  | 10 => some .gutaLeftGUTARightEndCap
  | 11 => some .gutaSingleEndCap
  | 12 => some .gutaRegisterUsers
  | 13 => some .gutaVerifyToCap
  | 14 => some .gutaOnlyRegisterUsers
  | 15 => some .gutaNoChange
  | 55 => some .gutaTwoGUTAWithCheckpointUpgrade
  | 56 => some .gutaVerifyToCapWithCheckpointUpgrade
  | 57 => some .gutaTwoGUTALinear
  | 58 => some .gutaTwoGUTALinearUpgradeCheckpoint
  | 59 => some .gutaVerifyLeftLinearRightLeafUpgradeCheckpoint
  | 60 => some .gutaVerifyLeftLeafRightLinearUpgradeCheckpoint
  | 63 => some .realmFinalizeGUTA
  | _ => none

/-- The numbers and the names of all other circuit types. -/
def otherCircuitTypes : List (Nat × String) :=
  [(0, "AppendUserRegistrationTree"), (1, "AppendUserRegistrationTreeAggregate"),
    (2, "AddL1Deposit"), (3, "AddL1DepositAggregate"), (4, "ClaimL1Deposit"),
    (5, "ClaimL1DepositAggregate"), (6, "UserEndCap"), (16, "AddL1Withdrawal"),
    (17, "AddL1WithdrawalAggregate"), (18, "BatchDeployContracts"),
    (19, "BatchDeployContractsAggregate"), (20, "ProcessL1Withdrawal"),
    (21, "ProcessL1WithdrawalAggregate"), (22, "BatchUpdateContracts"),
    (23, "BatchUpdateContractsAggregate"), (32, "GenerateRollupStateTransitionProof"),
    (33, "GenerateSigHashIntrospectionProof"), (34, "GenerateFinalSigHashProof"),
    (35, "GenerateFinalSigHashProofGroth16"), (36, "WrapFinalSigHashProofBLS12381"),
    (37, "GenesisBlockCheckpointStateTransition"), (40, "AggUserRegisterDeployContractsGUTA"),
    (41, "AggAddProcessL1WithdrawalAddL1Deposit"),
    (48, "DummyAppendUserRegistrationTreeAggregate"), (49, "DummyAddL1DepositAggregate"),
    (50, "DummyClaimL1DepositAggregate"), (51, "DummyGUTA"), (52, "DummyAddL1WithdrawalAggregate"),
    (53, "DummyProcessL1WithdrawalAggregate"), (54, "DummyBatchDeployContractsAggregate"),
    (61, "DummyBatchUpdateContractsAggregate"), (64, "WrappedSignatureProof"),
    (65, "Secp256K1SignatureProof"), (192, "NotifyRealmComplete"), (224, "TypeA"), (225, "TypeB"),
    (226, "TypeC"), (227, "TypeD"), (228, "TypeE"), (229, "TypeF"), (254, "Invalid"),
    (255, "Unknown")]

/-- The checks before the first read. -/
def Submission.validate (config : EdgeConfig) (call : Submission F Hash) :
    Except SubmitError Unit :=
  let realmLevelU64 := toU64Value call.input.header.header.stateTransition.nodeLevel
  if realmLevelU64 ≠ config.coordinatorGlobalUserTreeHeight then
    .error (.illegal .invalidOutput
      s!"invalid realm level {realmLevelU64}, expected {config.coordinatorGlobalUserTreeHeight}")
  else if 2 ^ realmLevelU64 ≤ call.realmIdU64.toNat ∨ 2 ^ 32 - 1 < call.realmIdU64.toNat then
    .error (.illegal .invalidOutput s!"invalid realm id {call.realmIdU64}")
  else if 255 < call.input.jobTypeU32 then
    .error (.text s!"invalid circuit type {call.input.jobTypeU32}")
  else if realmSubmitCircuitType call.input.jobTypeU32 = none ∧
      otherCircuitTypes.lookup call.input.jobTypeU32 = none then
    .error (.text s!"Invalid ProvingJobCircuitType value: {call.input.jobTypeU32}")
  else .ok ()

/-- `try_get_coordinator_edge_proof_store_output_proof_id_for_realm_submit`. -/
def realmSubmitJobId (config : EdgeConfig) (call : Submission F Hash) (uniquePendingId : UInt64) :
    Except SubmitError QProvingJobDataID :=
  match realmSubmitCircuitType call.input.jobTypeU32 with
  | none =>
    let name := (otherCircuitTypes.lookup call.input.jobTypeU32).getD ""
    .error (.text s!"circuit type {name} is not a GUTA circuit type")
  | some circuitType =>
    .ok ⟨.generateStandardProof, uniquePendingId.toNat, circuitType,
      config.coordinatorGlobalUserTreeHeight, 0, call.realmIdU64.toNat, .standardProof, 0⟩

variable [DecidableEq Hash] [ToString Hash] (toBytes : Hash → FixedBytes 32)

/-- The record that a call swaps in. -/
def Submission.acceptedRecord (call : Submission F Hash)
    (committed : Fin (2 ^ CHECKPOINT_TREE_HEIGHT)) : GutaInFlightRecord :=
  ⟨toBytes call.input.header.header.stateTransition.oldNodeValue,
    toBytes call.input.header.header.stateTransition.newNodeValue, UInt64.ofNat committed⟩

/-- Is the old root still in flight? `saturating_add` bounds the end of the window. -/
def inFlightUntil (record : GutaInFlightRecord) : Nat :=
  min (record.acceptedAtCheckpointId.toNat + GUTA_IN_FLIGHT_WINDOW_CHECKPOINTS) (2 ^ 64 - 1)

/-- The record is of a transition from the same root, and still blocks. -/
def Submission.isInFlight (call : Submission F Hash)
    (committed : Fin (2 ^ CHECKPOINT_TREE_HEIGHT)) (record : GutaInFlightRecord) : Bool :=
  record.oldRealmRoot = toBytes call.input.header.header.stateTransition.oldNodeValue ∧
    committed.val < inFlightUntil record

/-- **ONE ATOMIC STEP** of call `i`. -/
def submitStep (config : EdgeConfig) (i : Nat) (call : Submission F Hash) (choice : Choice)
    (s : Shared F Hash) : Phase → Phase × Shared F Hash
  | .start =>
    match call.validate config with
    | .error e => (.failed e, s)
    | .ok () =>
      match getGatheringGeneration s.tempDb config.realmIdentifier with
      | .error e => (.failed (.text e), s)
      | .ok generation => (.generation generation, s)
  | .generation generation => (.latest generation s.latestCheckpointId, s)
  | .latest generation committed =>
    let (current, lastModified) := s.realmNode committed call.realmIdU64
    let transition := call.input.header.header.stateTransition
    if current ≠ transition.oldNodeValue then
      (.failed (.retryable .checkpointUnavailable
        (s!"stale GUTA update rejected at coordinator edge: realm_id {call.realmIdU64} " ++
          s!"latest_checkpoint_id {committed.val} realm_last_modified_checkpoint_id " ++
          s!"{lastModified} submitted_old_realm_root {transition.oldNodeValue} " ++
          s!"current_realm_root {current} submitted_new_realm_root {transition.newNodeValue} " ++
          s!"submitted_checkpoint_tree_root {call.input.header.header.checkpointTreeRoot}")),
        s)
    else (.matched generation committed, s)
  | .matched generation committed =>
    match getGutaInFlight s.tempDb config.realmIdentifier call.realmIdU64 with
    | .error e => (.failed (.text e), s)
    | .ok none => (.cleared generation committed none, s)
    | .ok (some (record, raw)) =>
      if call.isInFlight toBytes committed record then
        (.failed (.text
          (s!"GUTA update for realm_id {call.realmIdU64} from old root " ++
            s!"{call.input.header.header.stateTransition.oldNodeValue} is already in flight: " ++
            s!"accepted at checkpoint {record.acceptedAtCheckpointId}, committed checkpoint is " ++
            s!"{committed.val}; it can be resubmitted from checkpoint {inFlightUntil record}")),
          s)
      else (.cleared generation committed (some raw), s)
  | .cleared generation committed observed =>
    match realmSubmitJobId config call generation.uniquePendingId, choice.verdict with
    | .error e, _ => (.failed e, s)
    | .ok _, .error e => (.failed (.text e), s)
    | .ok jobId, .ok () => (.verified generation committed observed jobId, s)
  | .verified generation committed observed jobId =>
    let status := max (choice.random &&& 0x0fffffffffffffff) 1
    let key := ttGetSubmitStatusKey config.realmIdentifier generation.uniquePendingId
      call.realmIdU64
    match putValueIfAbsent s.tempDb key (writeU64 status) with
    | (true, tempDb) =>
      (.submitted generation committed observed jobId,
        { s with
          tempDb := tempDb
          holders := s.holders ++ [⟨i, generation.uniquePendingId, call.realmIdU64⟩] })
    | (false, _) =>
      (.failed (.retryable .alreadyClaimed
        (s!"GUTA for realm_id {call.realmIdU64} at unique_pending_id " ++
          s!"{generation.uniquePendingId} has already been submitted")),
        s)
  | .submitted generation committed observed jobId =>
    let record := call.acceptedRecord toBytes committed
    let key := ttGetGutaInFlightKey config.realmIdentifier call.realmIdU64
    match compareAndSet s.tempDb key observed record.toBytes with
    | (true, tempDb) =>
      (.claimed generation jobId,
        { s with
          tempDb := tempDb
          claims := s.claims ++ [⟨i, call.realmIdU64, record⟩] })
    | (false, _) =>
      (.failed (.text
        s!"RACE: another GUTA update for realm_id {call.realmIdU64} was accepted concurrently"),
        s)
  | .claimed generation jobId =>
    (.stored generation jobId,
      { s with
        proofStore := ((jobId, generation.uniquePendingId), call.proofBytes) :: s.proofStore })
  | .stored generation jobId =>
    (.done,
      { s with
        queue := s.queue ++ [⟨i, generation.procCheckpointUniqueId, call.input.header, jobId⟩] })
  | .done => (.done, s)
  | .failed e => (.failed e, s)

/-- A commit, or a write to another table of the temp store. -/
inductive EnvStep : Shared F Hash → Shared F Hash → Prop
  | commit {s : Shared F Hash} (checkpointId : Fin (2 ^ CHECKPOINT_TREE_HEIGHT))
      (realmNode : Nat → UInt64 → Hash × Nat) (h : s.latestCheckpointId < checkpointId) :
      EnvStep s { s with latestCheckpointId := checkpointId, realmNode := realmNode }
  | write {s : Shared F Hash} (rid : QRealmIdentifier) (table rest value : Bytes)
      (hlength : table.length = 2) (hstatus : table ≠ TEMP_TABLE_ID_SUBMIT_STATUS_BYTES)
      (hflight : table ≠ TEMP_TABLE_ID_GUTA_IN_FLIGHT_BYTES) :
      EnvStep s { s with
        tempDb := Function.update s.tempDb (tableKey rid table ++ rest) (some value) }

/-- **THE EDGE UNDER CONCURRENT CALLS**: `calls i` are the arguments of call `i`; a call may fail
at every step. -/
def edgeSystem (config : EdgeConfig) (calls : Nat → Submission F Hash) :
    System Nat (Shared F Hash) Phase where
  step := fun i phase s phase' s' => ∃ choice : Choice, (phase', s') =
    match choice.io with
    | some e => (.failed (.text e), s)
    | none => submitStep toBytes config i (calls i) choice s phase
  env := EnvStep

end

end PsyNode.Edge
