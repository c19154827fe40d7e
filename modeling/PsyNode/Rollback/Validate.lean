/-
PsyNode.Rollback.Validate
**PLAN VALIDATION** — `validate_rollback_plan`, which looks at nothing but the
plan itself: the ids, the tables in their order, and the keys of every phase.
-/
import PsyNode.Rollback.Plan

namespace PsyNode.Rollback

open Lib List

/-! ## §1. Reading keys. -/

variable (table : String) (keys : JsonValue)

/-- `require_array`, which the executor calls `array`. -/
def requireArray : Except String (List JsonValue) :=
  match keys.asArray with
  | some items => .ok items
  | none => .error s!"{table} keys must be an array"

variable (index : Nat)

/-- `require_tuple`, which the executor calls `fixed_array`. -/
def requireTuple (value : JsonValue) (len : Nat) : Except String (List JsonValue) :=
  match value.asArray with
  | none => .error s!"{table} key {index} must be an array"
  | some values =>
    if values.length ≠ len then .error s!"{table} key {index} must contain exactly {len} values"
    else .ok values

/-- A position of a tuple of known length. -/
def slot (values : List JsonValue) (i : Nat) : JsonValue := values.getD i .null

def asU64 (table : String) (index : Nat) (value : JsonValue) : Except String Nat :=
  match value.asU64 with
  | some n => .ok n
  | none => .error s!"{table} key {index} contains a non-u64 value"

def asI64 (table : String) (index : Nat) (value : JsonValue) : Except String Int :=
  match value.asI64 with
  | some n => .ok n
  | none => .error s!"{table} key {index} contains a non-i64 value"

/-- `as_u128` of the validator: a decimal text, or a number of 64 bits. -/
def asU128 (value : JsonValue) : Except String Nat :=
  let parsed := match value with
    | .string text => parseUnsigned (2 ^ 128) text
    | .number n => (JsonValue.number n).asU64
    | _ => none
  match parsed with
  | some n => .ok n
  | none => .error s!"{table} key {index} has invalid u128 proc id"

/-- `decode_hex`: hexadecimal text, with or without the usual marker. -/
def decodeHex (text : String) : Option (List UInt8) :=
  match text.toList with
  | '0' :: 'x' :: digits => hexDecode digits
  | digits => hexDecode digits

/-- `hex_value`, which the executor calls `decode_hex_value`. -/
def hexValue (value : JsonValue) : Except String (List UInt8) :=
  match value.asStr with
  | none => .error s!"{table} key {index} must contain a hex string"
  | some text =>
    match decodeHex text with
    | some bytes => .ok bytes
    | none => .error s!"{table} key {index}: invalid hexadecimal"

/-- A loop over the keys of a table. -/
def eachKey (check : Nat → JsonValue → Except String Unit) : Except String Unit := do
  let items ← requireArray table keys
  items.zipIdx.forM (fun item => check item.2 item.1)

/-- A loop over the keys of a table that collects something of each. -/
def collectKeys {α : Type} (keys : JsonValue) (read : Nat → JsonValue → Except String α) :
    Except String (List α) := do
  let items ← requireArray table keys
  items.zipIdx.mapM (fun item => read item.2 item.1)

/-! ## §2. One table. -/

/-- The keys are the expected ids, none of them 0. -/
def requireExactU64Set (expected : List Nat) : Except String Unit := do
  let actual ← collectKeys table keys (fun index value => do
    let id ← asU64 table index value
    if id = 0 then .error s!"{table} key {index} contains id 0" else .ok id)
  if ¬ SameElems actual expected then .error s!"{table} keys must equal the frozen ids set"
  else .ok ()

/-- The table has no keys. -/
def requireEmpty : Except String Unit := do
  let values ← requireArray table keys
  if ¬ values.isEmpty then .error s!"{table} must stay empty (count-zero phase)" else .ok ()

/-- A checkpoint id that the plan rolls back. -/
def frozenCheckpoint (checkpointSet : List Nat) (id : Nat) : Except String Unit :=
  if id = 0 ∨ id ∉ checkpointSet then
    .error s!"{table} key {index} checkpoint {id} is outside frozen checkpoint_set"
  else .ok ()

/-- The bytes of a slice. -/
def slice (bytes : List UInt8) (from_ to_ : Nat) :
    List UInt8 := (bytes.drop from_).take (to_ - from_)

def pendingKeyedTempTableIdBytes : List (List UInt8) :=
  [[0x45, 0x50], [0x50, 0x57], [0x53, 0x53], [0x43, 0x55], [0x53, 0x55], [0x54, 0x56],
    [0x44, 0x43], [0x4A, 0x43], [0x4A, 0x53], [0x54, 0x43]]

/-- `TEMP_TABLE_PI`, `TEMP_TABLE_GP` and `TEMP_TABLE_PS`. -/
def singletonTableIds : List (List UInt8) := [[0x50, 0x49], [0x47, 0x50], [0x50, 0x53]]

/-- `TEMP_TABLE_ID_WORKER_REPUTATION_BYTES`. -/
def workerReputationBytes : List UInt8 := [0x57, 0x52]

/-- `TEMP_TABLE_WORKER_REPUTATION_KEY_SIZE`. -/
def workerReputationKeySize : Nat := 41

variable (keys : JsonValue)

def validateTempFields (pendingSet : List Nat) (realmLe subLe : List UInt8) : Except String Unit :=
  eachKey "TKVSV1" keys (fun index value => do
    let field ← hexValue "TKVSV1" index value
    if field.length < 16 then
      .error s!"TKVSV1 key {index} is shorter than the 16-byte pending prefix"
    else if slice field 0 4 ≠ realmLe ∨ slice field 4 6 ≠ subLe then
      .error s!"TKVSV1 key {index} does not match plan realm_id/realm_sub_id"
    else if slice field 6 8 ∉ pendingKeyedTempTableIdBytes then
      .error s!"TKVSV1 key {index} targets an unsupported pending namespace"
    else
      let pendingId := leNat (slice field 8 16)
      if pendingId ∉ pendingSet then
        .error s!"TKVSV1 key {index} pending_id {pendingId} is outside frozen pending_set"
      else .ok ())

/-- The fields of a processor's singletons. -/
def singletonFields (realmLe subLe : List UInt8) : List (List UInt8) :=
  singletonTableIds.map (fun tableId => realmLe ++ subLe ++ tableId)

def validateProcessorStateSingletonKeys (realmLe subLe : List UInt8) : Except String Unit := do
  let expected := singletonFields realmLe subLe
  let actual ← collectKeys "TKVSV1-singletons" keys (fun index value => do
    let field ← hexValue "TKVSV1-singletons" index value
    if field ∉ expected then
      .error s!"TKVSV1-singletons key {index} is not a processor-state singleton"
    else .ok field)
  if ¬ SameElems actual expected then
    .error "TKVSV1-singletons keys must be exactly the processor-state singletons"
  else .ok ()

def validateBlobRootPairs (keys : JsonValue) (checkpointSet : List Nat) : Except String Unit := do
  let actual ← collectKeys table keys (fun index value => do
    let pair ← requireTuple table index value 2
    let root ← hexValue table index (slot pair 0)
    let checkpointBytes ← hexValue table index (slot pair 1)
    if root.length ≠ 32 ∨ checkpointBytes.length ≠ 8 then
      .error s!"{table} key {index} is not one full (32-byte root, 8-byte checkpoint LE) pair"
    else do
      frozenCheckpoint table index checkpointSet (leNat checkpointBytes)
      .ok (leNat checkpointBytes))
  if ¬ SameElems actual checkpointSet then
    .error s!"{table} blob checkpoint ids must equal frozen checkpoint_set"
  else .ok ()

/-- `validate_checkpointed_object_keys`: the objects of checkpoints have tag 1, those of
pending ids tag 2. -/
def validateCheckpointedObjectKeys (checkpointSet pendingSet : List Nat) : Except String Unit := do
  let actual ← collectKeys "checkpointed_object_table" keys (fun index value => do
    let pair ← requireTuple "checkpointed_object_table" index value 2
    let tag ← asU64 "checkpointed_object_table" index (slot pair 0)
    let id ← asU64 "checkpointed_object_table" index (slot pair 1)
    if tag = 1 then
      if id = 0 ∨ id ∉ checkpointSet then
        .error s!"checkpointed_object_table key {index} [1, {id}] is outside frozen checkpoint_set"
      else .ok (tag, id)
    else if tag = 2 then
      if id = 0 ∨ id ∉ pendingSet then
        .error s!"checkpointed_object_table key {index} [2, {id}] is outside frozen pending_set"
      else .ok (tag, id)
    else .error s!"checkpointed_object_table key {index} has invalid object tag {tag}")
  let tagged := fun tag => (actual.filter (fun key => key.1 = tag)).map Prod.snd
  if ¬ (SameElems (tagged 1) checkpointSet ∧ SameElems (tagged 2) pendingSet) then
    .error "checkpointed_object_table keys must be exactly [1, checkpoint_set] ∪ [2, pending_set]"
  else .ok ()

def validateObjectCheckpointPairs (keys : JsonValue) (checkpointSet : List Nat) :
    Except String Unit :=
  eachKey table keys (fun index value => do
    let pair ← requireTuple table index value 2
    let checkpointId ← asU64 table index (slot pair 1)
    frozenCheckpoint table index checkpointSet checkpointId)

variable (plan : RollbackPlan)

def validateRewardKeys (keys : JsonValue) (pendingSet : List Nat) : Except String Unit :=
  eachKey "realm_rewards_tree_node_key_table" keys (fun index value => do
    let pair ← requireTuple "realm_rewards_tree_node_key_table" index value 2
    let realmId ← asU64 "realm_rewards_tree_node_key_table" index (slot pair 0)
    let pendingId ← asU64 "realm_rewards_tree_node_key_table" index (slot pair 1)
    if pendingId = 0 ∨ pendingId ∉ pendingSet then
      .error (s!"realm_rewards_tree_node_key_table key {index} pending_id {pendingId} is " ++
        "outside frozen pending_set")
    else if plan.role = .realm ∧ realmId ≠ plan.realmId then
      .error (s!"realm_rewards_tree_node_key_table key {index} realm_id {realmId} does not " ++
        "match this Realm RP")
    else .ok ())

def validatePendingProcPairs (procPairs : List (Nat × Nat)) : Except String Unit := do
  let actual ← collectKeys "pending_id_to_pending_proc_id_table" keys (fun index value => do
    let pair ← requireTuple "pending_id_to_pending_proc_id_table" index value 2
    let pendingId ← asU64 "pending_id_to_pending_proc_id_table" index (slot pair 0)
    let procId ← asU128 "pending_id_to_pending_proc_id_table" index (slot pair 1)
    if pendingId = 0 ∨ (pendingId, procId) ∉ procPairs then
      .error (s!"pending_id_to_pending_proc_id_table key {index} pair ({pendingId}, {procId}) " ++
        "is not an ids pair")
    else .ok (pendingId, procId))
  if ¬ SameElems actual procPairs then
    .error "pending_id_to_pending_proc_id_table keys must equal frozen ids (pending, proc) pairs"
  else .ok ()

def validateHashUserPairs : Except String Unit :=
  eachKey "public_key_hash_to_user_ids_table" keys (fun index value => do
    let pair ← requireTuple "public_key_hash_to_user_ids_table" index value 2
    let hash ← hexValue "public_key_hash_to_user_ids_table" index (slot pair 0)
    if hash.isEmpty ∨ hash.all (· = 0) then
      .error s!"public_key_hash_to_user_ids_table key {index} has an empty/all-zero hash"
    else do
      let _ ← asU64 "public_key_hash_to_user_ids_table" index (slot pair 1)
      .ok ())

def validateMerkleCheckpoints (keys : JsonValue) (checkpointSlot : Nat) (checkpointSet : List Nat) :
    Except String Unit :=
  eachKey table keys (fun index value => do
    let tuple ← requireTuple table index value (checkpointSlot + 1)
    let checkpointId ← asU64 table index (slot tuple checkpointSlot)
    frozenCheckpoint table index checkpointSet checkpointId)

def validateImtLeafCheckpoints (checkpointSet : List Nat) : Except String Unit :=
  eachKey "imt_leaf_table" keys (fun index value => do
    let tuple ← requireTuple "imt_leaf_table" index value 4
    let _ ← asI64 "imt_leaf_table" index (slot tuple 0)
    let _ ← asI64 "imt_leaf_table" index (slot tuple 1)
    let _ ← asI64 "imt_leaf_table" index (slot tuple 2)
    let checkpointId ← asI64 "imt_leaf_table" index (slot tuple 3)
    if checkpointId ≤ 0 then
      .error s!"imt_leaf_table key {index} contains non-positive checkpoint {checkpointId}"
    else if checkpointId.toNat ∉ checkpointSet then
      .error (s!"imt_leaf_table key {index} checkpoint {checkpointId} is outside frozen " ++
        "checkpoint_set")
    else .ok ())

/-! ## §3. Tables whose keys are objects. -/

/-- The members of an object that must have exactly these names. -/
def exactMembers (names : List String) (members : List (String × JsonValue)) : Prop :=
  members.length = names.length ∧ ∀ name ∈ names, (members.lookup name).isSome

instance (names : List String) (members : List (String × JsonValue)) :
    Decidable (exactMembers names members) :=
  inferInstanceAs (Decidable (_ ∧ _))

/-- A member of an object that has it. -/
def member (members : List (String × JsonValue)) (name : String) : JsonValue :=
  (members.lookup name).getD .null

/-- A struct is written as an object with exactly its fields, or as the list of their
values. -/
def structFields (names : List String) : JsonValue → Option (List JsonValue)
  | .object members =>
    if exactMembers names members then some (names.map (member members)) else none
  | .array items => if items.length = names.length then some items else none
  | _ => none

variable (value : JsonValue)

/-- The derived reader of `RollbackImtKeyIndexRow`. -/
def readImtKeyIndexRow : Option RollbackImtKeyIndexRow :=
  match structFields ["leaf_key", "birth_checkpoint", "leaf_index"] value with
  | some [leafKey, birthCheckpoint, leafIndex] => do
    return ⟨← leafKey.asStr, ← birthCheckpoint.asI64, ← leafIndex.asI64⟩
  | _ => none

/-- The derived reader of `RollbackImtKeyIndexEntry`; the target must be there, but may be
null. -/
def readImtKeyIndexEntry : Option RollbackImtKeyIndexEntry :=
  match structFields ["tree_id", "tree_sub_id", "key_bucket", "encoded_key", "target"] value with
  | some [treeId, treeSubId, keyBucket, encodedKey, target] => do
    let bucket ← keyBucket.asI64.filter (fun n => -2 ^ 15 ≤ n ∧ n < 2 ^ 15)
    let row ← match target with
      | .null => some none
      | value => (readImtKeyIndexRow value).map some
    return ⟨← treeId.asI64, ← treeSubId.asI64, bucket, ← encodedKey.asStr, row⟩
  | _ => none

def imtKeyBucketToI16 (bucket : Nat) : Int := (bucket : Int) - 32768

/-- One entry of `decode_imt_key_index_entries`, after the physical keys of the entries
before it. -/
def checkImtKeyIndexEntry (targetCheckpointId : Nat) (seen : List (Int × Int × Int × List UInt8))
    (entry : RollbackImtKeyIndexEntry) : Except String (List (Int × Int × Int × List UInt8)) :=
  if ¬ (0 ≤ entry.treeId ∧ 0 ≤ entry.treeSubId) then .error "negative IMT key-index coordinate"
  else
    match hexDecode entry.encodedKey.toList with
    | none => .error "invalid hexadecimal"
    | some encoded =>
      let key := (entry.treeId, entry.treeSubId, entry.keyBucket, encoded)
      if encoded.length ≠ 32 then .error "IMT encoded key must contain exactly 32 bytes"
      else if entry.keyBucket ≠ imtKeyBucketToI16 (leNat (slice encoded 0 2).reverse) then
        .error "IMT key bucket differs from encoded key"
      else if key ∈ seen then .error "duplicate IMT physical key"
      else
        match entry.target with
        | none => .ok (key :: seen)
        | some row =>
          match hexDecode row.leafKey.toList with
          | none => .error "invalid hexadecimal"
          | some leafKey =>
            if leafKey.length ≠ 32 then .error "IMT leaf key must contain exactly 32 bytes"
            else if ¬ (leafKey.all (· = 0) ∧ encoded.all (· = 0)) then
              .error "IMT restoration must bind the zero sentinel to its canonical encoded key"
            else if ¬ (0 ≤ row.leafIndex ∧ 0 ≤ row.birthCheckpoint ∧
                row.birthCheckpoint.toNat ≤ targetCheckpointId) then
              .error "IMT restoration tuple is outside target history"
            else .ok (key :: seen)

def decodeImtKeyIndexEntries (targetCheckpointId : Nat) :
    Except String (List RollbackImtKeyIndexEntry) :=
  match keys.asArray.bind (List.mapM readImtKeyIndexEntry) with
  | none => .error "invalid IMT key-index entries"
  | some entries => do
    let _ ← entries.foldlM (checkImtKeyIndexEntry targetCheckpointId) []
    .ok entries

/-- One key of `validate_imt_append_indexes`, after the trees of the keys before it. -/
def checkImtAppendIndex (seen : List (Int × Int)) (index : Nat) (value : JsonValue) :
    Except String (List (Int × Int)) :=
  match value.asObject with
  | none => .error s!"imt_next_append_index_table key {index} must be an object"
  | some members =>
    if ¬ exactMembers ["tree_id", "tree_sub_id", "next_append_index"] members then
      .error (s!"imt_next_append_index_table key {index} must contain exactly tree_id, " ++
        "tree_sub_id, next_append_index")
    else
      match (member members "tree_id").asI64.filter (0 ≤ ·) with
      | none => .error s!"imt_next_append_index_table key {index} has invalid tree_id"
      | some treeId =>
        match (member members "tree_sub_id").asI64.filter (0 ≤ ·) with
        | none => .error s!"imt_next_append_index_table key {index} has invalid tree_sub_id"
        | some treeSubId =>
          if (treeId, treeSubId) ∈ seen then
            .error (s!"imt_next_append_index_table duplicates tree coordinates ({treeId}, " ++
              s!"{treeSubId})")
          else
            match member members "next_append_index" with
            | .null => .ok ((treeId, treeSubId) :: seen)
            | .number number =>
              match (JsonValue.number number).asI64 with
              | none =>
                .error s!"imt_next_append_index_table key {index} has invalid next_append_index"
              | some next =>
                if next ≤ 0 then
                  .error (s!"imt_next_append_index_table key {index} has non-positive " ++
                    "next_append_index")
                else .ok ((treeId, treeSubId) :: seen)
            | _ =>
              .error s!"imt_next_append_index_table key {index} has invalid next_append_index"

def validateImtAppendIndexes : Except String Unit := do
  let items ← requireArray "imt_next_append_index_table" keys
  let _ ← items.zipIdx.foldlM (fun seen item => checkImtAppendIndex seen item.2 item.1) []
  .ok ()

/-- The derived reader of `RollbackNatsConsumerKind`: the name of the kind, alone or as the
only member of an object without content. -/
def readNatsConsumerKind : Option RollbackNatsConsumerKind :=
  let named : String → Option RollbackNatsConsumerKind
    | "coordinator_register_user" => some .coordinatorRegisterUser
    | "coordinator_deploy_contract" => some .coordinatorDeployContract
    | "coordinator_update_contract" => some .coordinatorUpdateContract
    | "coordinator_guta" => some .coordinatorGuta
    | "coordinator_proving" => some .coordinatorProving
    | "realm_user_update" => some .realmUserUpdate
    | "realm_proving" => some .realmProving
    | _ => none
  match value with
  | .string name => named name
  | .object [(name, .null)] => named name
  | _ => none

/-- A consumer target: the object's shape, its kind and task group are read the same way by
validator and executor, the process id by the given reader. -/
def readNatsTarget (label : String) (readProcId : JsonValue → Except String Nat) (index : Nat)
    (value : JsonValue) : Except String RollbackNatsConsumerTarget :=
  match value.asObject with
  | none => .error s!"{label} key {index} must be an object"
  | some target =>
    if ¬ exactMembers ["kind", "proc_id", "task_group"] target then
      .error s!"{label} key {index} must contain exactly kind, proc_id, task_group"
    else
      match readNatsConsumerKind (member target "kind") with
      | none => .error s!"{label} key {index} has invalid kind"
      | some kind => do
        let procId ← readProcId (member target "proc_id")
        match (member target "task_group").asU64.filter (· < 2 ^ 32) with
        | none => .error s!"{label} key {index} has invalid task_group"
        | some taskGroup => .ok ⟨kind, procId, taskGroup⟩

/-- The consumers of the processes that the plan rolls back; the task group is always 0. -/
def expectedNatsTargets : List RollbackNatsConsumerTarget :=
  plan.procIds.flatMap (fun procId =>
    (rollbackNatsConsumerKinds plan.role).map (fun kind => ⟨kind, procId, 0⟩))

def validateNatsTargets (keys : JsonValue) : Except String Unit := do
  let items ← requireArray "nats_jetstream_consumers" keys
  let actual ← items.zipIdx.foldlM (fun actual item => do
    let target ← readNatsTarget "nats consumer" (asU128 "nats_jetstream_consumers" item.2) item.2
      item.1
    if target ∈ actual then .error s!"duplicate nats consumer target at key {item.2}"
    else .ok (target :: actual)) []
  if ¬ SameElems actual (expectedNatsTargets plan) then
    .error "nats consumer keys must equal the exact role-local ids consumer catalog"
  else .ok ()

/-! ## §4. The plan. -/

/-- One field of the worker reputation snapshot, after the fields before it. -/
def checkWorkerReputationField (realmLe subLe : List UInt8) (seen : List (List UInt8))
    (index : Nat) (reputation : RollbackTempValueSnapshot) : Except String (List (List UInt8)) :=
  match decodeHex reputation.field with
  | none => .error s!"snapshot.worker_reputation_fields[{index}].field: invalid hexadecimal"
  | some field =>
    if field.length ≠ workerReputationKeySize ∨ slice field 0 4 ≠ realmLe ∨
        slice field 4 6 ≠ subLe ∨ slice field 6 8 ≠ workerReputationBytes then
      .error (s!"snapshot.worker_reputation_fields[{index}] is not an exact worker reputation " ++
        "field for this processor")
    else if field ∈ seen then
      .error (s!"snapshot.worker_reputation_fields[{index}] duplicates an earlier worker " ++
        "reputation field")
    else
      match reputation.value with
      | none => .ok (field :: seen)
      | some value =>
        match decodeHex value with
        | none => .error s!"snapshot.worker_reputation_fields[{index}].value: invalid hexadecimal"
        | some _ => .ok (field :: seen)

def validateWorkerReputationFields (realmLe subLe : List UInt8) : Except String Unit :=
  match decodeHex plan.snapshot.targetInfo with
  | none => .error "snapshot.target_info: invalid hexadecimal"
  | some targetInfo =>
    if targetInfo.isEmpty then .error "snapshot.target_info must not be empty"
    else do
      let _ ← plan.snapshot.workerReputationFields.zipIdx.foldlM (fun seen item =>
        checkWorkerReputationField realmLe subLe seen item.2 item.1) []
      .ok ()

/-- The keys of one phase, as `validate_semantic_keys` checks them. -/
def validatePhaseKeys (realmLe subLe : List UInt8) (phase : RollbackPhase) : Except String Unit :=
  match phase.table with
  | "TKVSV1" => validateTempFields phase.keys plan.pendingIds realmLe subLe
  | "TMPPSV1-proof-buckets" => requireExactU64Set phase.table phase.keys plan.pendingIds
  | "nats_jetstream_consumers" => validateNatsTargets plan phase.keys
  | "checkpoint_leaf_table" | "l2_block_state_table" | "checkpoint_state_roots_table"
  | "checkpoint_zk_proof_and_transition_table" =>
    requireExactU64Set phase.table phase.keys plan.checkpointIds
  | "checkpoint_id_to_pending_id_table" =>
    requireExactU64Set phase.table phase.keys plan.mappedCheckpointIds
  | "checkpoint_id_to_realm_root_table" | "checkpoint_leaf_to_checkpoint_id_table" =>
    requireEmpty phase.table phase.keys
  | "checkpoint_root_to_checkpoint_id_table" =>
    validateBlobRootPairs phase.table phase.keys plan.checkpointIds
  | "pending_id_to_checkpoint_id_table" | "guta_reward_tag_tree_table" =>
    requireExactU64Set phase.table phase.keys plan.pendingIds
  | "pending_id_to_pending_proc_id_table" =>
    validatePendingProcPairs phase.keys
      (plan.ids.map (fun entry => (entry.pendingId, entry.procId)))
  | "checkpointed_object_table" =>
    validateCheckpointedObjectKeys phase.keys plan.checkpointIds plan.pendingIds
  | "user_leaf_table" | "user_public_key_table" | "contract_state_tree_height_table"
  | "contract_leaf_table" | "contract_code_definition_table" =>
    validateObjectCheckpointPairs phase.table phase.keys plan.checkpointIds
  | "realm_rewards_tree_node_key_table" => validateRewardKeys plan phase.keys plan.pendingIds
  | "public_key_hash_to_user_ids_table" => validateHashUserPairs phase.keys
  | "imt_key_index_table" => do
    let _ ← decodeImtKeyIndexEntries phase.keys plan.targetCheckpointId
    .ok ()
  | "global_user_tree_table" | "global_checkpoint_tree_table" | "user_registration_tree_table"
  | "global_contract_tree_table" =>
    validateMerkleCheckpoints phase.table phase.keys 2 plan.checkpointIds
  | "user_contract_tree_table" | "contract_function_tree_table" =>
    validateMerkleCheckpoints phase.table phase.keys 3 plan.checkpointIds
  | "contract_state_tree_table" =>
    validateMerkleCheckpoints phase.table phase.keys 4 plan.checkpointIds
  | "imt_leaf_table" => validateImtLeafCheckpoints phase.keys plan.checkpointIds
  | "latest_info_table" | "checkpoint_tree_backup" | "all" | "u64_singleton_table" =>
    requireEmpty phase.table phase.keys
  | "imt_next_append_index_table" => validateImtAppendIndexes phase.keys
  | "TKVSV1-singletons" => validateProcessorStateSingletonKeys phase.keys realmLe subLe
  | table => .error s!"unexpected rollback table {table}"

/-- The bytes by which temp fields name the realm. -/
def realmLe : List UInt8 := leBytes 4 plan.realmId

/-- The bytes by which temp fields name the processor of the realm. -/
def subLe : List UInt8 := leBytes 2 plan.realmSubId

/-- The keys of every phase. -/
def validateSemanticKeys : Except String Unit :=
  if ¬ plan.realmId < 2 ^ 32 then .error "realm_id exceeds u32"
  else if ¬ plan.realmSubId < 2 ^ 16 then .error "realm_sub_id exceeds u16"
  else do
    validateWorkerReputationFields plan (realmLe plan) (subLe plan)
    plan.phases.forM (validatePhaseKeys plan (realmLe plan) (subLe plan))

/-- One entry of `ids`, after the entry before it. -/
def validateIdsEntry (index : Nat) (entry : RollbackIds) : Except String Unit :=
  if entry.pendingId = 0 then .error "ids pending_id 0 is never a delete key"
  else if index > 0 ∧ ((plan.ids[index - 1]?).any (fun before =>
      before.pendingId ≥ entry.pendingId)) then
    .error "ids pending_ids must be strictly ascending"
  else if entry.pendingId > plan.latestPendingId then
    .error s!"ids pending_id {entry.pendingId} exceeds frozen high-water {plan.latestPendingId}"
  else
    match entry.checkpointId with
    | none => .ok ()
    | some checkpointId =>
      if checkpointId = 0 ∨ checkpointId ≤ plan.targetCheckpointId ∨
          checkpointId > plan.latestCheckpointId then
        .error s!"ids checkpoint_id {checkpointId} is outside (target, latest]"
      else .ok ()

/-- The tables of a plan, in order. -/
def expectedTables : List String :=
  stage1Tables ++ stage2Tables ++ emptySchemaTables ++ stage3Tables ++ finalTables

/-- The store function of a table, which `validate_rollback_plan` expects. -/
def expectedApi : String :=
  match table with
  | "TKVSV1" => "qtdb_raw_kv_delete_key"
  | "TMPPSV1-proof-buckets" => "delete_all_proofs_for_pending_id"
  | table => apiForTable table

/-- Table and store function of one phase, after the tables before it. -/
def validatePhaseTable (seen : List String) (index : Nat) (phase : RollbackPhase)
    (expectedTable : String) : Except String (List String) :=
  if phase.table ≠ expectedTable then
    .error s!"phase {index} must target real logical table {expectedTable}, got {phase.table}"
  else if phase.table ∈ seen then .error s!"duplicate phase table: {phase.table}"
  else if expectedApi phase.table = "UNKNOWN" ∨ phase.api ≠ expectedApi phase.table then
    .error s!"phase {index} ({phase.table}) must use API {expectedApi phase.table}, got {phase.api}"
  else .ok (phase.table :: seen)

/-- A phase with this table and store function. -/
def isPhase (phase : Option RollbackPhase) (table api : String) : Bool :=
  phase.any (fun phase => phase.table = table ∧ phase.api = api)

/-- The end of the phases, and the tables that must be among them. -/
def validatePhaseOrder (seen : List String) : Except String Unit :=
  if ¬ isPhase plan.phases[plan.phases.length - 2]? "all" "verify" then
    .error "verify must be immediately before the marker phase"
  else if ¬ isPhase plan.phases.getLast? "u64_singleton_table" "set_latest_checkpoint_id" then
    .error "set_latest_checkpoint_id must be the final phase"
  else
    ["l2_block_state_table", "user_leaf_table", "user_public_key_table",
      "checkpointed_object_table", "pending_id_to_pending_proc_id_table"].forM (fun mandatory =>
        if mandatory ∉ seen then .error s!"mandatory logical phase {mandatory} is missing"
        else .ok ())

/-- The contract state of the target, if the plan has one. -/
def checkTargetContractState : Except String Unit :=
  match plan.targetContractState with
  | none => .ok ()
  | some state =>
    if state.lastFinalizedCheckpointId ≠ plan.targetCheckpointId then
      .error ("target_contract_state.last_finalized_checkpoint_id " ++
        s!"{state.lastFinalizedCheckpointId} must equal target_checkpoint_id " ++
        s!"{plan.targetCheckpointId}")
    else .ok ()

/-- Every check on a plan. -/
def validateRollbackPlan : Except String Unit :=
  if plan.targetCheckpointId > plan.latestCheckpointId then
    .error (s!"target_checkpoint_id {plan.targetCheckpointId} > latest_checkpoint_id " ++
      s!"{plan.latestCheckpointId}")
  else do
    checkTargetContractState plan
    if plan.role = .coordinator ∧ (plan.realmId ≠ 0 ∨ plan.realmSubId ≠ 0) then
      .error "Coordinator RP must use realm_id=0 and realm_sub_id=0"
    else do
      plan.ids.zipIdx.forM (fun item => validateIdsEntry plan item.2 item.1)
      if plan.phases.length ≠ expectedTables.length then
        .error s!"expected exactly {expectedTables.length} phases, got {plan.phases.length}"
      else do
        let seen ← (plan.phases.zip expectedTables).zipIdx.foldlM (fun seen item =>
          validatePhaseTable seen item.2 item.1.1 item.1.2) []
        validatePhaseOrder plan seen
        validateSemanticKeys plan

/-! ## §5. What validation ensures. -/

/-- A checkpoint that the plan rolls back. -/
def RollbackPlan.RollsBackCheckpoint (id : Nat) : Prop :=
  plan.targetCheckpointId < id ∧ id ≤ plan.latestCheckpointId

/-- A pending id that the plan rolls back. -/
def RollbackPlan.RollsBackPending (id : Nat) : Prop :=
  id ∈ plan.pendingIds ∧ id ≤ plan.latestPendingId

/-- **A VALIDATED PLAN.** -/
structure Validated (plan : RollbackPlan) : Prop where
  target_le : plan.targetCheckpointId ≤ plan.latestCheckpointId
  pending_le : ∀ entry ∈ plan.ids, entry.pendingId ≤ plan.latestPendingId
  checkpoints : ∀ entry ∈ plan.ids, ∀ id ∈ entry.checkpointId, plan.RollsBackCheckpoint id
  tables : plan.phases.map (fun phase => phase.table) = expectedTables
  apis : ∀ phase ∈ plan.phases, phase.api = expectedApi phase.table
  keys : ∀ phase ∈ plan.phases, validatePhaseKeys plan (realmLe plan) (subLe plan) phase = .ok ()

theorem validateIdsEntry_eq_ok {plan : RollbackPlan} {index : Nat} {entry : RollbackIds}
    (h : validateIdsEntry plan index entry = .ok ()) : entry.pendingId ≤ plan.latestPendingId ∧
      ∀ id ∈ entry.checkpointId, plan.RollsBackCheckpoint id := by
  unfold validateIdsEntry at h
  rw [ite_error_eq_ok, ite_error_eq_ok, ite_error_eq_ok] at h
  obtain ⟨_, _, hle, h⟩ := h
  refine ⟨not_lt.mp hle, ?_⟩
  intro id hid
  rw [Option.mem_def.mp hid] at h
  rw [ite_error_eq_ok, not_or, not_or, not_le, not_lt] at h
  exact ⟨h.1.2.1, h.1.2.2⟩

/-- **VALIDATION** returns `Ok` for validated plans only. -/
theorem validated_of_ok {plan : RollbackPlan} (h : validateRollbackPlan plan = .ok ()) :
    Validated plan := by
  unfold validateRollbackPlan at h
  simp only [ite_error_eq_ok, bind_eq_ok] at h
  obtain ⟨hle, _, _, _, _, hids, hlength, seen, hphases, _, _, hsemantic⟩ := h
  rw [forM_eq_ok] at hids
  rw [not_not] at hlength
  have hids' : ∀ entry ∈ plan.ids, entry.pendingId ≤ plan.latestPendingId ∧
      ∀ id ∈ entry.checkpointId, plan.RollsBackCheckpoint id := by
    intro entry hentry
    obtain ⟨index, hindex⟩ := mem_iff_getElem?.mp hentry
    exact validateIdsEntry_eq_ok (hids _ (mk_mem_zipIdx_iff_getElem?.mpr hindex))
  -- the phases meet the expected tables one by one
  have hpairs : Forall₂ (fun phase table => phase.table = table ∧
      phase.api = expectedApi phase.table) plan.phases expectedTables := by
    refine forall₂_iff_zip.mpr ⟨hlength, ?_⟩
    intro phase table hpair
    obtain ⟨index, hindex⟩ := mem_iff_getElem?.mp hpair
    obtain ⟨seen, seen', hok⟩ := exists_of_foldlM_eq_ok hphases _
      (mk_mem_zipIdx_iff_getElem?.mpr hindex)
    unfold validatePhaseTable at hok
    rw [ite_error_eq_ok, ite_error_eq_ok, ite_error_eq_ok, not_or, not_not, not_not] at hok
    exact ⟨hok.1, hok.2.2.1.2⟩
  unfold validateSemanticKeys at hsemantic
  simp only [ite_error_eq_ok, bind_eq_ok] at hsemantic
  obtain ⟨_, _, _, _, hkeys⟩ := hsemantic
  refine ⟨not_lt.mp hle, fun entry he => (hids' entry he).1, fun entry he => (hids' entry he).2,
    ?_, ?_, forM_eq_ok.mp hkeys⟩
  · rw [← forall₂_eq_eq_eq, forall₂_map_left_iff]
    exact hpairs.imp (fun _ _ hpair => hpair.1)
  · intro phase hphase
    obtain ⟨_, _, hpair⟩ := exists_of_forall₂ hpairs phase hphase
    exact hpair.2

/-- The number `n` as a JSON value. -/
def jsonNat (n : UInt64) : JsonValue := .number (.posInt n)

/-- The keys of a realm's plan that rolls back checkpoint 2 with its pending id 5 and process 9. -/
def sampleKeys : JsonValue :=
  let pair := fun a b => JsonValue.array [jsonNat a, jsonNat b]
  let consumer := fun kind => JsonValue.object
    [("kind", .string kind), ("proc_id", .string "9"), ("task_group", jsonNat 0)]
  .array (match table with
  | "TKVSV1" => [.string "07000000030045500500000000000000"]
  | "TMPPSV1-proof-buckets" | "pending_id_to_checkpoint_id_table" | "guta_reward_tag_tree_table" =>
    [jsonNat 5]
  | "nats_jetstream_consumers" => [consumer "realm_user_update", consumer "realm_proving"]
  | "checkpoint_leaf_table" | "l2_block_state_table" | "checkpoint_state_roots_table"
  | "checkpoint_zk_proof_and_transition_table" | "checkpoint_id_to_pending_id_table" => [jsonNat 2]
  | "checkpoint_root_to_checkpoint_id_table" =>
    [.array [.string "00000000000000000000000000000000000000000000000000000000000000ab",
      .string "0200000000000000"]]
  | "checkpointed_object_table" => [pair 1 2, pair 2 5]
  | "pending_id_to_pending_proc_id_table" => [.array [jsonNat 5, .string "9"]]
  | "user_leaf_table" => [pair 40 2]
  | "realm_rewards_tree_node_key_table" => [pair 7 5]
  | "global_user_tree_table" => [.array [jsonNat 0, jsonNat 0, jsonNat 2]]
  | "imt_leaf_table" => [.array [jsonNat 40, jsonNat 1, jsonNat 3, jsonNat 2]]
  | "imt_key_index_table" => [.object [("tree_id", jsonNat 40), ("tree_sub_id", jsonNat 1),
      ("key_bucket", .number (.negInt 32767)),
      ("encoded_key", .string "0000000000000000000000000000000000000000000000000000000000000000"),
      ("target", .object
        [("leaf_key", .string "0000000000000000000000000000000000000000000000000000000000000000"),
          ("birth_checkpoint", jsonNat 1), ("leaf_index", jsonNat 0)])]]
  | "TKVSV1-singletons" => ["0700000003005049", "0700000003004750", "0700000003005053"].map .string
  | _ => [])

def samplePlan : RollbackPlan where
  role := .realm
  realmId := 7
  realmSubId := 3
  targetCheckpointId := 1
  latestCheckpointId := 2
  latestPendingId := 6
  ids := [⟨some 2, 5, 9⟩]
  targetContractState := none
  snapshot := ⟨"00", []⟩
  phases := expectedTables.map (fun table =>
    ⟨table, expectedApi table, sampleKeys table, .pending⟩)

theorem samplePlan_valid : validateRollbackPlan samplePlan = .ok () := by
  decide +kernel

end PsyNode.Rollback
