/-
PsyNode.Rollback.Decode
**DECODED PHASES** — `decode_rollback_phase`, which reads the keys of a phase a
second time, and what it finds there in a validated plan.

The validator and the decoder read the same JSON with functions of their own.
`rollback_names_only_rolled_back_rows` says that they agree: whatever row an
operation names was created after the target.
-/
import PsyNode.Rollback.Validate

namespace PsyNode.Rollback

open Lib List Except

/-! ## §1. Operations. -/

structure ImtNextAppendIndex where
  treeId : Nat
  treeSubId : Nat
  nextAppendIndex : Option Int
deriving DecidableEq

inductive RollbackOperation
  | tempHashFields (fields : List (List UInt8))
  | proofPendingIds (pendingIds : List Nat)
  | natsConsumers (targets : List RollbackNatsConsumerTarget)
  | objectIds (ids : List Nat)
  | objectCheckpoints (keys : List (Nat × Nat))
  | merkleNodes (keys : List (Nat × Nat × Nat))
  | treeMerkleNodes (keys : List (Nat × Nat × Nat × Nat))
  | treeSubtreeMerkleNodes (keys : List (Nat × Nat × Nat × Nat × Nat))
  | imtLeaves (keys : List (Int × Int × Int × Int))
  | setImtKeyIndex (entries : List RollbackImtKeyIndexEntry)
  | hashUserPairs (pairs : List (List UInt8 × Nat))
  | blobPairs (pairs : List (List UInt8 × List UInt8))
  | u64U128Pairs (pairs : List (Nat × Nat))
  | pendingPartitions (pendingIds : List Nat)
  | restoreLatestInfo
  | restoreImtNextAppendIndexes (indexes : List ImtNextAppendIndex)
  | rebuildCheckpointRingBuffer
  | verify
  | setMarker
deriving DecidableEq

structure ExecutableRollbackPhase where
  table : String
  api : String
  operation : RollbackOperation
deriving DecidableEq

variable (phase : ExecutableRollbackPhase)

def ExecutableRollbackPhase.isMarker : Bool :=
  phase.operation = .setMarker

def ExecutableRollbackPhase.isVerify : Bool :=
  phase.operation = .verify

/-! ## §2. Decoding. -/

variable (table : String) (index : Nat)

def asU8 (value : JsonValue) : Except String Nat := do
  let n ← asU64 table index value
  if n < 2 ^ 8 then .ok n else .error "out of range integral type conversion attempted"

def nonzeroCheckpoint (value : JsonValue) : Except String Nat := do
  let cp ← asU64 table index value
  if cp = 0 then .error s!"{table} key {index} contains checkpoint 0" else .ok cp

variable (keys : JsonValue)

def u64Array : Except String (List Nat) :=
  collectKeys table keys (fun index value => asU64 table index value)

def hexArray : Except String (List (List UInt8)) :=
  collectKeys table keys (fun index value => hexValue table index value)

def tuple2U64 : Except String (List (Nat × Nat)) :=
  collectKeys table keys (fun index value => do
    let t ← requireTuple table index value 2
    let first ← asU64 table index (slot t 0)
    let second ← asU64 table index (slot t 1)
    if table ≠ "checkpointed_object_table" ∧ table ≠ "realm_rewards_tree_node_key_table" ∧
        second = 0 then
      .error s!"{table} key {index} contains checkpoint 0"
    else .ok (first, second))

/-- A process id, as the executor reads it: decimal text, or the text of a number. -/
def parseProcId (message : String) (value : JsonValue) : Except String Nat :=
  let text := match value with
    | .string text => some text
    | .number n => some n.text
    | _ => none
  match text.bind (parseUnsigned (2 ^ 128)) with
  | some n => .ok n
  | none => .error message

def natsConsumerTargets (label : String) (keys : JsonValue) :
    Except String (List RollbackNatsConsumerTarget) :=
  collectKeys label keys (fun index value =>
    readNatsTarget label (parseProcId s!"{label} key {index} has invalid proc_id") index value)

/-- One key of `imt_indexes`. -/
def imtIndex (value : JsonValue) : Except String ImtNextAppendIndex :=
  match value.asObject with
  | none => .error s!"{table} key {index} must be an object"
  | some members =>
    if ¬ exactMembers ["tree_id", "tree_sub_id", "next_append_index"] members then
      .error s!"{table} key {index} must contain exactly tree_id, tree_sub_id, next_append_index"
    else do
      let nextAppendIndex ← match member members "next_append_index" with
        | .null => .ok none
        | .number number =>
          match (JsonValue.number number).asI64 with
          | some next => .ok (some next)
          | none => .error s!"{table} key {index} has invalid next_append_index"
        | _ => .error s!"{table} key {index} has invalid next_append_index"
      if nextAppendIndex.any (· ≤ 0) then
        .error s!"{table} key {index} has non-positive next_append_index"
      else
        match (member members "tree_id").asU64 with
        | none => .error s!"{table} key {index} has invalid tree_id"
        | some treeId =>
          match (member members "tree_sub_id").asU64 with
          | none => .error s!"{table} key {index} has invalid tree_sub_id"
          | some treeSubId => .ok ⟨treeId, treeSubId, nextAppendIndex⟩

def imtIndexes : Except String (List ImtNextAppendIndex) :=
  collectKeys table keys (imtIndex table)

/-- A node of a tree, at a position of the tuple and the two after it. -/
def merkleNode (t : List JsonValue) (at_ : Nat) : Except String (Nat × Nat × Nat) := do
  let level ← asU8 table index (slot t at_)
  let node ← asU64 table index (slot t (at_ + 1))
  let checkpoint ← nonzeroCheckpoint table index (slot t (at_ + 2))
  .ok (level, node, checkpoint)

def emptyArray : Bool := keys.asArray.any List.isEmpty

/-- `is_object_id_table`. -/
def objectIdTables : List String :=
  ["checkpoint_leaf_table", "l2_block_state_table", "checkpoint_id_to_realm_root_table",
    "checkpoint_state_roots_table", "checkpoint_zk_proof_and_transition_table",
    "checkpoint_id_to_pending_id_table", "pending_id_to_checkpoint_id_table"]

/-- `is_object_checkpoint_table`. -/
def objectCheckpointTables : List String :=
  ["user_leaf_table", "user_public_key_table", "contract_state_tree_height_table",
    "contract_leaf_table", "contract_code_definition_table", "checkpointed_object_table",
    "realm_rewards_tree_node_key_table"]

/-- `is_merkle_table`. -/
def merkleTables : List String :=
  ["global_user_tree_table", "global_checkpoint_tree_table", "user_registration_tree_table",
    "global_contract_tree_table"]

/-- The operation of a table, store function and keys. -/
def decodeOperation (table api : String) (keys : JsonValue) : Except String RollbackOperation :=
  let unknown : Except String RollbackOperation :=
    .error s!"unknown rollback table/API/key shape: table={table}, api={api}"
  match api with
  | "qtdb_raw_kv_delete_key" =>
    if table ∈ ["TKVSV1", "TKVSV1-singletons"] then
      .tempHashFields <$> hexArray table keys
    else unknown
  | "delete_all_proofs_for_pending_id" =>
    if table = "TMPPSV1-proof-buckets" then .proofPendingIds <$> u64Array table keys
    else unknown
  | "delete_nats_consumers" =>
    if table = "nats_jetstream_consumers" then
      .natsConsumers <$> natsConsumerTargets table keys
    else unknown
  | "db_delete_many_object_ids" =>
    if table ∈ objectIdTables then .objectIds <$> u64Array table keys else unknown
  | "db_delete_many_object_checkpoint" =>
    if table ∈ objectCheckpointTables then .objectCheckpoints <$> tuple2U64 table keys
    else unknown
  | "db_delete_many_merkle_nodes" =>
    if table ∈ merkleTables then
      .merkleNodes <$> collectKeys table keys (fun index value => do
        let t ← requireTuple table index value 3
        merkleNode table index t 0)
    else unknown
  | "db_delete_many_tree_merkle_nodes" =>
    if table ∈ ["user_contract_tree_table", "contract_function_tree_table"] then
      .treeMerkleNodes <$> collectKeys table keys (fun index value => do
        let t ← requireTuple table index value 4
        let tree ← asU64 table index (slot t 0)
        let node ← merkleNode table index t 1
        .ok (tree, node))
    else unknown
  | "db_delete_many_tree_subtree_merkle_nodes" =>
    if table = "contract_state_tree_table" then
      .treeSubtreeMerkleNodes <$> collectKeys table keys (fun index value => do
        let t ← requireTuple table index value 5
        let tree ← asU64 table index (slot t 0)
        let subtree ← asU64 table index (slot t 1)
        let node ← merkleNode table index t 2
        .ok (tree, subtree, node))
    else unknown
  | "db_delete_many_imt_leaves" =>
    if table = "imt_leaf_table" then
      .imtLeaves <$> collectKeys table keys (fun index value => do
        let t ← requireTuple table index value 4
        let checkpointId ← asI64 table index (slot t 3)
        if checkpointId ≤ 0 then
          .error s!"{table} key {index} contains non-positive checkpoint {checkpointId}"
        else do
          let tree ← asI64 table index (slot t 0)
          let subtree ← asI64 table index (slot t 1)
          let leaf ← asI64 table index (slot t 2)
          .ok (tree, subtree, leaf, checkpointId))
    else unknown
  | "set_imt_key_index" =>
    if table = "imt_key_index_table" then
      .setImtKeyIndex <$> decodeImtKeyIndexEntries keys (2 ^ 64 - 1)
    else unknown
  | "db_delete_many_hash_user_pairs" =>
    if table = "public_key_hash_to_user_ids_table" then
      .hashUserPairs <$> collectKeys table keys (fun index value => do
        let t ← requireTuple table index value 2
        let hash ← hexValue table index (slot t 0)
        if hash.isEmpty ∨ hash.all (· = 0) then
          .error s!"{table} key {index} has an empty/all-zero hash"
        else do
          let user ← asU64 table index (slot t 1)
          .ok (hash, user))
    else unknown
  | "db_delete_many_blob_pairs" =>
    if table ∈ ["checkpoint_root_to_checkpoint_id_table",
        "checkpoint_leaf_to_checkpoint_id_table"] then
      .blobPairs <$> collectKeys table keys (fun index value => do
        let t ← requireTuple table index value 2
        let root ← hexValue table index (slot t 0)
        let cp ← hexValue table index (slot t 1)
        if root.length ≠ 32 ∨ cp.length ≠ 8 ∨ cp.all (· = 0) then
          .error (s!"{table} key {index} is not one full (32-byte root, nonzero 8-byte " ++
            "checkpoint LE) pair")
        else .ok (root, cp))
    else unknown
  | "db_delete_many_u64_u128_pairs" =>
    if table = "pending_id_to_pending_proc_id_table" then
      .u64U128Pairs <$> collectKeys table keys (fun index value => do
        let t ← requireTuple table index value 2
        let procId ← parseProcId s!"{table} key {index} has invalid u128 proc id" (slot t 1)
        let pendingId ← asU64 table index (slot t 0)
        .ok (pendingId, procId))
    else unknown
  | "db_delete_many_pending_id_partitions" =>
    if table = "guta_reward_tag_tree_table" then .pendingPartitions <$> u64Array table keys
    else unknown
  | "set_latest_info" =>
    if table = "latest_info_table" ∧ emptyArray keys then .ok .restoreLatestInfo else unknown
  | "set_imt_next_append_index" =>
    if table = "imt_next_append_index_table" then
      .restoreImtNextAppendIndexes <$> imtIndexes table keys
    else unknown
  | "rebuild_checkpoint_tree_backup" =>
    if table = "checkpoint_tree_backup" ∧ emptyArray keys then .ok .rebuildCheckpointRingBuffer
    else unknown
  | "verify" => if table = "all" ∧ emptyArray keys then .ok .verify else unknown
  | "set_latest_checkpoint_id" =>
    if table = "u64_singleton_table" ∧ emptyArray keys then .ok .setMarker else unknown
  | _ => unknown

def decodeRollbackPhase (phase : RollbackPhase) : Except String ExecutableRollbackPhase := do
  let operation ← decodeOperation phase.table phase.api phase.keys
  .ok ⟨phase.table, phase.api, operation⟩

def decodeAllPhases (plan : RollbackPlan) : Except String (List ExecutableRollbackPhase) :=
  plan.phases.mapM decodeRollbackPhase

/-! ## §3. Reading the same keys twice. -/

variable {table index keys} {table' : String}

theorem requireArray_eq_ok {items : List JsonValue} :
    requireArray table keys = .ok items ↔ keys.asArray = some items := by
  unfold requireArray
  cases keys.asArray with
  | none => simp
  | some items' => simp

theorem asU64_eq_ok {n : Nat} {value : JsonValue} :
    asU64 table index value = .ok n ↔ value.asU64 = some n := by
  unfold asU64
  cases value.asU64 with
  | none => simp
  | some m => simp

variable {id : Nat}

theorem frozenCheckpoint_eq_ok {checkpointSet : List Nat} {u : Unit} :
    frozenCheckpoint table index checkpointSet id = .ok u ↔ id ≠ 0 ∧ id ∈ checkpointSet := by
  unfold frozenCheckpoint
  simp

variable {α β : Type} {read : Nat → JsonValue → Except String α} {out : List α}

section
variable {P : α → Prop} (hread : collectKeys table' keys read = .ok out)
include hread

theorem mapM_of_requireArray {items : List JsonValue} (h : requireArray table keys = .ok items) :
    items.zipIdx.mapM (fun item => read item.2 item.1) = .ok out := by
  obtain ⟨items', h', hread⟩ := bind_eq_ok.mp hread
  rw [requireArray_eq_ok] at h h'
  rwa [Option.some.inj (h.symm.trans h')]

/-- **A CHECKING LOOP AND A COLLECTING LOOP** over the same keys: what is collected comes from
a key that was checked. -/
theorem eachKey_collectKeys {check : Nat → JsonValue → Except String Unit}
    (hcheck : eachKey table keys check = .ok ())
    (h : ∀ index value a, check index value = .ok () → read index value = .ok a → P a) :
    ∀ a ∈ out, P a := by
  obtain ⟨items, hitems, hcheck⟩ := bind_eq_ok.mp hcheck
  intro a ha
  obtain ⟨item, hitem, hok⟩ := exists_of_mapM_eq_ok (mapM_of_requireArray hread hitems) a ha
  exact h item.2 item.1 a (forM_eq_ok.mp hcheck item hitem) hok

/-- **TWO COLLECTING LOOPS** over the same keys: what the second one collects comes from a key
that the first one read. -/
theorem collectKeys_collectKeys {first : Nat → JsonValue → Except String β} {P : β → α → Prop}
    {actual : List β} (hfirst : collectKeys table keys first = .ok actual)
    (h : ∀ index value b a, first index value = .ok b → read index value = .ok a → P b a) :
    ∀ a ∈ out, ∃ b ∈ actual, P b a := by
  obtain ⟨items, hitems, hfirst⟩ := bind_eq_ok.mp hfirst
  intro a ha
  obtain ⟨item, hitem, hok⟩ := exists_of_mapM_eq_ok (mapM_of_requireArray hread hitems) a ha
  obtain ⟨b, hb, hok'⟩ := mem_of_mapM_eq_ok hfirst item hitem
  exact ⟨b, hb, h item.2 item.1 b a hok' hok⟩

/-- A collecting loop after a check that collects the keys itself. -/
theorem check_collectKeys {first : Nat → JsonValue → Except String β}
    {check : List β → Except String Unit}
    (hvalid : (collectKeys table keys first >>= check) = .ok ())
    (h : ∀ index value b a, first index value = .ok b → read index value = .ok a → P a) :
    ∀ a ∈ out, P a := by
  obtain ⟨actual, hactual, _⟩ := bind_eq_ok.mp hvalid
  intro a ha
  obtain ⟨_, _, hP⟩ := collectKeys_collectKeys (P := fun _ a => P a) hread hactual h a ha
  exact hP

end

/-- Keys that must be exactly a set of ids. -/
theorem requireExactU64Set_u64Array {expected ids : List Nat}
    (hvalid : requireExactU64Set table keys expected = .ok ())
    (hread : u64Array table' keys = .ok ids) : ∀ id ∈ ids, id ∈ expected := by
  obtain ⟨actual, hactual, hsame⟩ := bind_eq_ok.mp hvalid
  rw [ite_error_eq_ok, not_not] at hsame
  intro id hid
  obtain ⟨b, hb, rfl⟩ := collectKeys_collectKeys (P := Eq) hread hactual (by
    intro index value b a hb ha
    obtain ⟨b', hb', hb⟩ := bind_eq_ok.mp hb
    rw [ite_error_eq_ok, ok.injEq] at hb
    rw [asU64_eq_ok] at hb' ha
    exact hb.2 ▸ Option.some.inj (hb'.symm.trans ha)) id hid
  exact hsame.1.1 b hb

/-- Keys that must be absent. -/
theorem requireEmpty_collectKeys (hvalid : requireEmpty table keys = .ok ())
    (hread : collectKeys table' keys read = .ok out) : out = [] := by
  obtain ⟨items, hitems, hempty⟩ := bind_eq_ok.mp hvalid
  rw [ite_error_eq_ok, not_not, List.isEmpty_iff] at hempty
  have hread := mapM_of_requireArray hread hitems
  rw [hempty.1, zipIdx_nil, mapM_nil, pure_eq_ok] at hread
  exact hread.symm

/-! ## §4. What a decoded phase names. -/

/-- The temp field belongs to the plan's processor. -/
def OwnField (plan : RollbackPlan) (field : List UInt8) : Prop :=
  slice field 0 4 = realmLe plan ∧ slice field 4 6 = subLe plan

/-- **ONLY ROWS THAT THE PLAN ROLLS BACK.**  Pairs of a public key hash and a user carry no
checkpoint; restoring operations name rows of the target. -/
def NamesOnlyRolledBack (plan : RollbackPlan) (phase : ExecutableRollbackPhase) : Prop :=
  match phase.operation with
  | .tempHashFields fields => ∀ field ∈ fields, OwnField plan field ∧
      (phase.table ≠ "TKVSV1-singletons" → plan.RollsBackPending (leNat (slice field 8 16)))
  | .proofPendingIds ids => ∀ id ∈ ids, plan.RollsBackPending id
  | .objectIds ids => ∀ id ∈ ids,
      if phase.table = "pending_id_to_checkpoint_id_table" then plan.RollsBackPending id
      else plan.RollsBackCheckpoint id
  | .objectCheckpoints keys => ∀ key ∈ keys,
      if phase.table = "checkpointed_object_table" then
        key.1 = 1 ∧ plan.RollsBackCheckpoint key.2 ∨ key.1 = 2 ∧ plan.RollsBackPending key.2
      else if phase.table = "realm_rewards_tree_node_key_table" then
        plan.RollsBackPending key.2 ∧ (plan.role = .realm → key.1 = plan.realmId)
      else plan.RollsBackCheckpoint key.2
  | .merkleNodes keys => ∀ key ∈ keys, plan.RollsBackCheckpoint key.2.2
  | .treeMerkleNodes keys => ∀ key ∈ keys, plan.RollsBackCheckpoint key.2.2.2
  | .treeSubtreeMerkleNodes keys => ∀ key ∈ keys, plan.RollsBackCheckpoint key.2.2.2.2
  | .imtLeaves keys => ∀ key ∈ keys, 0 < key.2.2.2 ∧ plan.RollsBackCheckpoint key.2.2.2.toNat
  | .setImtKeyIndex entries => ∀ entry ∈ entries, ∀ row ∈ entry.target,
      0 ≤ row.birthCheckpoint ∧ row.birthCheckpoint.toNat ≤ plan.targetCheckpointId
  | .blobPairs pairs => ∀ pair ∈ pairs, plan.RollsBackCheckpoint (leNat pair.2)
  | .u64U128Pairs pairs => ∀ pair ∈ pairs, plan.RollsBackPending pair.1
  | .pendingPartitions ids => ∀ id ∈ ids, plan.RollsBackPending id
  | .natsConsumers _ | .hashUserPairs _ | .restoreLatestInfo | .restoreImtNextAppendIndexes _
  | .rebuildCheckpointRingBuffer | .verify | .setMarker => True

section
variable {plan : RollbackPlan}

theorem Validated.rollsBackPending (h : Validated plan) (hid : id ∈ plan.pendingIds) :
    plan.RollsBackPending id := by
  refine ⟨hid, ?_⟩
  obtain ⟨entry, hentry, rfl⟩ := mem_map.mp hid
  exact h.pending_le entry hentry

theorem rollsBack_of_mem (hid : id ∈ plan.checkpointIds) : plan.RollsBackCheckpoint id :=
  (plan.mem_checkpointIds id).mp hid

variable {fields : List (List UInt8)}

/-- Temp fields of pending ids. -/
theorem tempFields_rolledBack (h : Validated plan)
    (hvalid : validateTempFields keys plan.pendingIds (realmLe plan) (subLe plan) = .ok ())
    (hread : hexArray "TKVSV1" keys = .ok fields) :
    ∀ field ∈ fields, OwnField plan field ∧ plan.RollsBackPending (leNat (slice field 8 16)) := by
  refine eachKey_collectKeys hread hvalid ?_
  intro index value field hcheck hfield
  rw [hfield] at hcheck
  simp only [bind_eq_ok, ok.injEq, exists_eq_left', ite_error_eq_ok, not_or, not_not]
    at hcheck
  exact ⟨hcheck.2.1, h.rollsBackPending hcheck.2.2.2.1⟩

/-- Temp fields of the processor's singletons. -/
theorem singletonFields_own {field : List UInt8}
    (h : field ∈ singletonFields (realmLe plan) (subLe plan)) : OwnField plan field := by
  obtain ⟨tableId, _, rfl⟩ := mem_map.mp h
  have hrealm : (realmLe plan).length = 4 := length_leBytes 4 plan.realmId
  have hsub : (subLe plan).length = 2 := length_leBytes 2 plan.realmSubId
  constructor
  · unfold slice
    rw [drop_zero, append_assoc, take_left' hrealm]
  · unfold slice
    rw [append_assoc, drop_left' hrealm, take_left' hsub]

theorem singletons_own
    (hvalid : validateProcessorStateSingletonKeys keys (realmLe plan) (subLe plan) = .ok ())
    (hread : hexArray "TKVSV1-singletons" keys = .ok fields) :
    ∀ field ∈ fields, OwnField plan field := by
  refine check_collectKeys hread hvalid ?_
  intro index value b a hb ha
  rw [ha] at hb
  simp only [bind_eq_ok, ok.injEq, exists_eq_left', ite_error_eq_ok, not_not] at hb
  exact singletonFields_own hb.1

section
variable {out : List (Nat × Nat)}

/-- Rows of an object and a checkpoint. -/
theorem objectCheckpoints_rolledBack
    (hvalid : validateObjectCheckpointPairs table keys plan.checkpointIds = .ok ())
    (hread : tuple2U64 table keys = .ok out) : ∀ key ∈ out, plan.RollsBackCheckpoint key.2 := by
  refine eachKey_collectKeys hread hvalid ?_
  intro index value key hcheck hkey
  simp only [bind_eq_ok, ite_error_eq_ok, ok.injEq] at hkey
  obtain ⟨t, ht, first, _, second, hsecond, _, rfl⟩ := hkey
  rw [ht] at hcheck
  simp only [bind_eq_ok, ok.injEq, exists_eq_left', hsecond, frozenCheckpoint_eq_ok]
    at hcheck
  exact rollsBack_of_mem hcheck.2

/-- Objects of checkpoints and of pending ids. -/
theorem checkpointedObjects_rolledBack (h : Validated plan)
    (hvalid : validateCheckpointedObjectKeys keys plan.checkpointIds plan.pendingIds = .ok ())
    (hread : tuple2U64 "checkpointed_object_table" keys = .ok out) :
    ∀ key ∈ out, key.1 = 1 ∧ plan.RollsBackCheckpoint key.2 ∨
      key.1 = 2 ∧ plan.RollsBackPending key.2 := by
  refine check_collectKeys hread hvalid ?_
  intro index value b key hb hkey
  simp only [bind_eq_ok, ite_error_eq_ok, ok.injEq] at hkey
  obtain ⟨t, ht, tag, htag, id, hid, _, rfl⟩ := hkey
  rw [ht] at hb
  simp only [bind_eq_ok, ok.injEq, exists_eq_left', htag, hid] at hb
  split at hb
  next hone =>
    rw [ite_error_eq_ok, not_or, not_not] at hb
    exact Or.inl ⟨hone, rollsBack_of_mem hb.1.2⟩
  next =>
    split at hb
    next htwo =>
      rw [ite_error_eq_ok, not_or, not_not] at hb
      exact Or.inr ⟨htwo, h.rollsBackPending hb.1.2⟩
    next => cases hb

/-- Rows of the reward tree. -/
theorem rewards_rolledBack (h : Validated plan)
    (hvalid : validateRewardKeys plan keys plan.pendingIds = .ok ())
    (hread : tuple2U64 "realm_rewards_tree_node_key_table" keys = .ok out) :
    ∀ key ∈ out, plan.RollsBackPending key.2 ∧ (plan.role = .realm → key.1 = plan.realmId) := by
  refine eachKey_collectKeys hread hvalid ?_
  intro index value key hcheck hkey
  simp only [bind_eq_ok, ite_error_eq_ok, ok.injEq] at hkey
  obtain ⟨t, ht, realmId, hrealm, pendingId, hpending, _, rfl⟩ := hkey
  rw [ht] at hcheck
  simp only [bind_eq_ok, ok.injEq, exists_eq_left', hrealm, hpending, ite_error_eq_ok,
    not_or, not_and, not_not] at hcheck
  exact ⟨h.rollsBackPending hcheck.1.2, hcheck.2.1⟩

end

theorem merkleNode_eq_ok {at_ : Nat} {t : List JsonValue}
    {node : Nat × Nat × Nat} (h : merkleNode table index t at_ = .ok node) :
    asU64 table index (slot t (at_ + 2)) = .ok node.2.2 := by
  unfold merkleNode nonzeroCheckpoint at h
  simp only [bind_eq_ok, ite_error_eq_ok, ok.injEq] at h
  obtain ⟨level, _, index', _, checkpoint, ⟨cp, hcp, _, rfl⟩, rfl⟩ := h
  exact hcp

/-- Nodes of a tree, whose checkpoint stands in the last position of the tuple. -/
theorem merkle_rolledBack {checkpointSlot : Nat} {checkpoint : α → Nat}
    (hvalid : validateMerkleCheckpoints table keys checkpointSlot plan.checkpointIds = .ok ())
    (hread : collectKeys table keys read = .ok out)
    (hslot : ∀ index value a, read index value = .ok a → ∃ t,
      requireTuple table index value (checkpointSlot + 1) = .ok t ∧
      asU64 table index (slot t checkpointSlot) = .ok (checkpoint a)) :
    ∀ a ∈ out, plan.RollsBackCheckpoint (checkpoint a) := by
  refine eachKey_collectKeys hread hvalid ?_
  intro index value a hcheck ha
  obtain ⟨t, ht, hcheckpoint⟩ := hslot index value a ha
  rw [ht] at hcheck
  simp only [bind_eq_ok, ok.injEq, exists_eq_left', hcheckpoint, frozenCheckpoint_eq_ok]
    at hcheck
  exact rollsBack_of_mem hcheck.2

/-- Leaves of indexed trees. -/
theorem imtLeaves_rolledBack {read : Nat → JsonValue → Except String (Int × Int × Int × Int)}
    {out : List (Int × Int × Int × Int)}
    (hvalid : validateImtLeafCheckpoints keys plan.checkpointIds = .ok ())
    (hread : collectKeys "imt_leaf_table" keys read = .ok out)
    (hslot : ∀ index value key, read index value = .ok key → ∃ t,
      requireTuple "imt_leaf_table" index value 4 = .ok t ∧
      asI64 "imt_leaf_table" index (slot t 3) = .ok key.2.2.2) :
    ∀ key ∈ out, 0 < key.2.2.2 ∧ plan.RollsBackCheckpoint key.2.2.2.toNat := by
  refine eachKey_collectKeys hread hvalid ?_
  intro index value key hcheck hkey
  obtain ⟨t, ht, hcheckpoint⟩ := hslot index value key hkey
  rw [ht] at hcheck
  simp only [bind_eq_ok, ok.injEq, exists_eq_left', hcheckpoint, ite_error_eq_ok, not_le,
    not_not] at hcheck
  obtain ⟨_, _, _, _, _, _, hpos, hmem, _⟩ := hcheck
  exact ⟨hpos, rollsBack_of_mem hmem⟩

/-- The key index is restored to rows that were there at the target. -/
theorem checkImtKeyIndexEntry_eq_ok {target : Nat}
    {seen seen' : List (Int × Int × Int × List UInt8)} {entry : RollbackImtKeyIndexEntry}
    (h : checkImtKeyIndexEntry target seen entry = .ok seen') :
    ∀ row ∈ entry.target, 0 ≤ row.birthCheckpoint ∧ row.birthCheckpoint.toNat ≤ target := by
  intro row hrow
  unfold checkImtKeyIndexEntry at h
  rw [ite_error_eq_ok] at h
  have h := h.2
  split at h
  next => cases h
  next =>
    rw [ite_error_eq_ok, ite_error_eq_ok, ite_error_eq_ok, Option.mem_def.mp hrow] at h
    have h := h.2.2.2
    dsimp only at h
    split at h
    next => cases h
    next =>
      rw [ite_error_eq_ok, ite_error_eq_ok, ite_error_eq_ok, not_not, not_not] at h
      exact (not_not.mp h.2.2.1).2

theorem imtKeyIndex_within_target {entries : List RollbackImtKeyIndexEntry} {limit : Nat}
    {u : List RollbackImtKeyIndexEntry}
    (hvalid : decodeImtKeyIndexEntries keys plan.targetCheckpointId = .ok u)
    (hread : decodeImtKeyIndexEntries keys limit = .ok entries) :
    ∀ entry ∈ entries, ∀ row ∈ entry.target,
      0 ≤ row.birthCheckpoint ∧ row.birthCheckpoint.toNat ≤ plan.targetCheckpointId := by
  unfold decodeImtKeyIndexEntries at hvalid hread
  cases hentries : keys.asArray.bind (mapM readImtKeyIndexEntry) with
  | none =>
    rw [hentries] at hread
    cases hread
  | some entries' =>
    rw [hentries] at hvalid hread
    simp only [bind_eq_ok, ok.injEq] at hvalid hread
    obtain ⟨_, hfold, _⟩ := hvalid
    obtain ⟨_, _, rfl⟩ := hread
    intro entry hentry
    obtain ⟨seen, seen', hok⟩ := exists_of_foldlM_eq_ok hfold entry hentry
    exact checkImtKeyIndexEntry_eq_ok hok

/-- Pairs of a pending id and a process. -/
theorem pendingProcPairs_rolledBack (h : Validated plan)
    {read : Nat → JsonValue → Except String (Nat × Nat)} {out : List (Nat × Nat)}
    (hvalid : validatePendingProcPairs keys
      (plan.ids.map (fun entry => (entry.pendingId, entry.procId))) = .ok ())
    (hread : collectKeys "pending_id_to_pending_proc_id_table" keys read = .ok out)
    (hslot : ∀ index value pair, read index value = .ok pair → ∃ t,
      requireTuple "pending_id_to_pending_proc_id_table" index value 2 = .ok t ∧
      asU64 "pending_id_to_pending_proc_id_table" index (slot t 0) = .ok pair.1) :
    ∀ pair ∈ out, plan.RollsBackPending pair.1 := by
  refine check_collectKeys hread hvalid ?_
  intro index value b pair hb hpair
  obtain ⟨t, ht, hpending⟩ := hslot index value pair hpair
  rw [ht] at hb
  simp only [bind_eq_ok, ok.injEq, exists_eq_left', hpending, ite_error_eq_ok, not_or,
    not_not] at hb
  obtain ⟨procId, _, ⟨_, hmem⟩, _⟩ := hb
  obtain ⟨entry, hentry, heq⟩ := mem_map.mp hmem
  refine h.rollsBackPending ?_
  rw [← congrArg Prod.fst heq]
  exact mem_map_of_mem hentry

variable {status : RollbackPhaseStatus} {api : String}
  (hvalid : validatePhaseKeys plan (realmLe plan) (subLe plan) ⟨table, api, keys, status⟩ = .ok ())
include hvalid

theorem objectIds_rolledBack (h : Validated plan) {ids : List Nat}
    (htable : table ∈ objectIdTables) (hread : u64Array table keys = .ok ids) :
    NamesOnlyRolledBack plan ⟨table, api, .objectIds ids⟩ := by
  have hcheckpoints : requireExactU64Set table keys plan.checkpointIds = .ok () →
      ∀ id ∈ ids, plan.RollsBackCheckpoint id :=
    fun hset id hid => rollsBack_of_mem (requireExactU64Set_u64Array hset hread id hid)
  simp only [objectIdTables, mem_cons, not_mem_nil, or_false] at htable
  rcases htable with rfl | rfl | rfl | rfl | rfl | rfl | rfl
  · exact hcheckpoints hvalid
  · exact hcheckpoints hvalid
  · have hempty : ids = [] := requireEmpty_collectKeys hvalid hread
    rw [hempty]
    exact fun _ hid => absurd hid not_mem_nil
  · exact hcheckpoints hvalid
  · exact hcheckpoints hvalid
  · have hset : requireExactU64Set _ keys plan.mappedCheckpointIds = .ok () := hvalid
    intro id hid
    obtain ⟨entry, hentry, hsome⟩ :=
      mem_filterMap.mp (requireExactU64Set_u64Array hset hread id hid)
    exact h.checkpoints entry hentry id hsome
  · have hset : requireExactU64Set _ keys plan.pendingIds = .ok () := hvalid
    exact fun id hid => h.rollsBackPending (requireExactU64Set_u64Array hset hread id hid)

theorem tempHashFields_rolledBack (h : Validated plan)
    (htable : table ∈ ["TKVSV1", "TKVSV1-singletons"]) (hread : hexArray table keys = .ok fields) :
    NamesOnlyRolledBack plan ⟨table, api, .tempHashFields fields⟩ := by
  simp only [mem_cons, not_mem_nil, or_false] at htable
  rcases htable with rfl | rfl
  · intro field hfield
    have hfields := tempFields_rolledBack h hvalid hread field hfield
    exact ⟨hfields.1, fun _ => hfields.2⟩
  · intro field hfield
    exact ⟨singletons_own hvalid hread field hfield, fun hne => absurd rfl hne⟩

theorem objectCheckpointRows_rolledBack (h : Validated plan) {out : List (Nat × Nat)}
    (htable : table ∈ objectCheckpointTables) (hread : tuple2U64 table keys = .ok out) :
    NamesOnlyRolledBack plan ⟨table, api, .objectCheckpoints out⟩ := by
  simp only [objectCheckpointTables, mem_cons, not_mem_nil, or_false] at htable
  rcases htable with rfl | rfl | rfl | rfl | rfl | rfl | rfl
  any_goals exact objectCheckpoints_rolledBack hvalid hread
  · exact checkpointedObjects_rolledBack h hvalid hread
  · exact rewards_rolledBack h hvalid hread

theorem merkleNodes_valid (htable : table ∈ merkleTables) :
    validateMerkleCheckpoints table keys 2 plan.checkpointIds = .ok () := by
  simp only [merkleTables, mem_cons, not_mem_nil, or_false] at htable
  rcases htable with rfl | rfl | rfl | rfl
  all_goals exact hvalid

theorem treeMerkleNodes_valid
    (htable : table ∈ ["user_contract_tree_table", "contract_function_tree_table"]) :
    validateMerkleCheckpoints table keys 3 plan.checkpointIds = .ok () := by
  simp only [mem_cons, not_mem_nil, or_false] at htable
  rcases htable with rfl | rfl
  all_goals exact hvalid

/-- Pairs of a root and the bytes of a checkpoint; one of the two tables must be empty. -/
theorem blobPairs_rolledBack {read : Nat → JsonValue → Except String (List UInt8 × List UInt8)}
    {pairs : List (List UInt8 × List UInt8)}
    (htable : table ∈ ["checkpoint_root_to_checkpoint_id_table",
      "checkpoint_leaf_to_checkpoint_id_table"]) (hread : collectKeys table keys read = .ok pairs)
    (hslot : ∀ index value pair, read index value = .ok pair → ∃ t,
      requireTuple table index value 2 = .ok t ∧ hexValue table index (slot t 1) = .ok pair.2) :
    ∀ pair ∈ pairs, plan.RollsBackCheckpoint (leNat pair.2) := by
  simp only [mem_cons, not_mem_nil, or_false] at htable
  rcases htable with rfl | rfl
  · refine check_collectKeys hread hvalid ?_
    intro index value b pair hb hpair
    obtain ⟨t, ht, hbytes⟩ := hslot index value pair hpair
    rw [ht] at hb
    simp only [bind_eq_ok, ok.injEq, exists_eq_left', hbytes, ite_error_eq_ok,
      frozenCheckpoint_eq_ok] at hb
    obtain ⟨_, _, _, _, hmem, _⟩ := hb
    exact rollsBack_of_mem hmem.2
  · have hempty : pairs = [] := requireEmpty_collectKeys hvalid hread
    rw [hempty]
    simp

end

/-- **ROLLBACK NAMES ONLY ROWS THAT ARE ROLLED BACK.**  In a validated plan the rows of every
decoded operation were created after the target, and what it restores was there at the target. -/
theorem rollback_names_only_rolled_back_rows (plan : RollbackPlan)
    (hplan : validateRollbackPlan plan = .ok ()) (phase : RollbackPhase)
    (hphase : phase ∈ plan.phases) (decoded : ExecutableRollbackPhase)
    (hdecode : decodeRollbackPhase phase = .ok decoded) : NamesOnlyRolledBack plan decoded := by
  have h := validated_of_ok hplan
  have hkeys := h.keys phase hphase
  obtain ⟨table, api, keys, status⟩ := phase
  unfold decodeRollbackPhase at hdecode
  obtain ⟨operation, hoperation, hdecoded⟩ := bind_eq_ok.mp hdecode
  rw [ok.injEq] at hdecoded
  subst hdecoded
  unfold decodeOperation at hoperation
  dsimp only at hoperation
  -- one case for every store function; where several tables share one, the table decides
  split at hoperation
  · obtain ⟨htable, fields, hread, rfl⟩ := ite_map_eq_ok.mp hoperation
    exact tempHashFields_rolledBack hkeys h htable hread
  · obtain ⟨rfl, ids, hread, rfl⟩ := ite_map_eq_ok.mp hoperation
    exact fun id hid => h.rollsBackPending (requireExactU64Set_u64Array hkeys hread id hid)
  · obtain ⟨rfl, targets, hread, rfl⟩ := ite_map_eq_ok.mp hoperation
    trivial
  · obtain ⟨htable, ids, hread, rfl⟩ := ite_map_eq_ok.mp hoperation
    exact objectIds_rolledBack hkeys h htable hread
  · obtain ⟨htable, out, hread, rfl⟩ := ite_map_eq_ok.mp hoperation
    exact objectCheckpointRows_rolledBack hkeys h htable hread
  · obtain ⟨htable, out, hread, rfl⟩ := ite_map_eq_ok.mp hoperation
    refine merkle_rolledBack (merkleNodes_valid hkeys htable) hread ?_
    intro index value key hkey
    obtain ⟨t, ht, hnode⟩ := bind_eq_ok.mp hkey
    exact ⟨t, ht, merkleNode_eq_ok hnode⟩
  · obtain ⟨htable, out, hread, rfl⟩ := ite_map_eq_ok.mp hoperation
    refine merkle_rolledBack (treeMerkleNodes_valid hkeys htable) hread ?_
    intro index value key hkey
    simp only [bind_eq_ok, ok.injEq] at hkey
    obtain ⟨t, ht, _, _, node, hnode, rfl⟩ := hkey
    exact ⟨t, ht, merkleNode_eq_ok hnode⟩
  · obtain ⟨rfl, out, hread, rfl⟩ := ite_map_eq_ok.mp hoperation
    have hnodes : validateMerkleCheckpoints _ keys 4 plan.checkpointIds = .ok () := hkeys
    refine merkle_rolledBack hnodes hread ?_
    intro index value key hkey
    simp only [bind_eq_ok, ok.injEq] at hkey
    obtain ⟨t, ht, _, _, _, _, node, hnode, rfl⟩ := hkey
    exact ⟨t, ht, merkleNode_eq_ok hnode⟩
  · obtain ⟨rfl, out, hread, rfl⟩ := ite_map_eq_ok.mp hoperation
    refine imtLeaves_rolledBack hkeys hread ?_
    intro index value key hkey
    simp only [bind_eq_ok, ite_error_eq_ok, ok.injEq] at hkey
    obtain ⟨t, ht, checkpointId, hcheckpoint, _, _, _, _, _, _, _, rfl⟩ := hkey
    exact ⟨t, ht, hcheckpoint⟩
  · obtain ⟨rfl, entries, hread, rfl⟩ := ite_map_eq_ok.mp hoperation
    have hvalid : (do
      let _ ← decodeImtKeyIndexEntries keys plan.targetCheckpointId
      .ok ()) = .ok () := hkeys
    obtain ⟨u, hvalid, _⟩ := bind_eq_ok.mp hvalid
    exact imtKeyIndex_within_target hvalid hread
  · obtain ⟨rfl, pairs, hread, rfl⟩ := ite_map_eq_ok.mp hoperation
    trivial
  · obtain ⟨htable, pairs, hread, rfl⟩ := ite_map_eq_ok.mp hoperation
    refine blobPairs_rolledBack hkeys htable hread ?_
    intro index value pair hpair
    simp only [bind_eq_ok, ite_error_eq_ok, ok.injEq] at hpair
    obtain ⟨t, ht, root, _, cp, hcp, _, rfl⟩ := hpair
    exact ⟨t, ht, hcp⟩
  · obtain ⟨rfl, pairs, hread, rfl⟩ := ite_map_eq_ok.mp hoperation
    refine pendingProcPairs_rolledBack h hkeys hread ?_
    intro index value pair hpair
    simp only [bind_eq_ok, ok.injEq] at hpair
    obtain ⟨t, ht, _, _, pendingId, hpending, rfl⟩ := hpair
    exact ⟨t, ht, hpending⟩
  · obtain ⟨rfl, ids, hread, rfl⟩ := ite_map_eq_ok.mp hoperation
    exact fun id hid => h.rollsBackPending (requireExactU64Set_u64Array hkeys hread id hid)
  · rw [ite_else_error_eq_ok, ok.injEq] at hoperation
    obtain ⟨_, rfl⟩ := hoperation
    trivial
  · obtain ⟨rfl, indexes, hread, rfl⟩ := ite_map_eq_ok.mp hoperation
    trivial
  iterate 3
    rw [ite_else_error_eq_ok, ok.injEq] at hoperation
    obtain ⟨_, rfl⟩ := hoperation
    trivial
  cases hoperation

theorem rollback_names_only_rolled_back_rows_user_leaf :
    validateRollbackPlan samplePlan = .ok () ∧
      NamesOnlyRolledBack samplePlan ⟨"user_leaf_table", "db_delete_many_object_checkpoint",
        .objectCheckpoints [(40, 2)]⟩ :=
  ⟨samplePlan_valid, rollback_names_only_rolled_back_rows samplePlan samplePlan_valid
    ⟨"user_leaf_table", "db_delete_many_object_checkpoint", sampleKeys "user_leaf_table", .pending⟩
    (mem_map.mpr ⟨"user_leaf_table", by decide +kernel, rfl⟩) _ rfl⟩

end PsyNode.Rollback
