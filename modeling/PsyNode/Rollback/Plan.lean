/-
PsyNode.Rollback.Plan
**ROLLBACK PLANS** — which rows of a processor's tables are deleted or restored
to go back from the latest checkpoint to a target, and in which order.

A plan is generated once, stored as JSON and executed phase by phase; it names
its tables and the store functions that treat them as text, and the keys of
each phase are JSON whose shape depends on the table.
-/
import PsyNode.Lib.Json

namespace PsyNode.Rollback

open Lib

/-! ## §1. The data model. -/

/-- Whose tables are rolled back. -/
inductive RollbackRole
  | coordinator
  | realm
deriving DecidableEq

/-- The queues of both roles. -/
inductive RollbackNatsConsumerKind
  | coordinatorRegisterUser
  | coordinatorDeployContract
  | coordinatorUpdateContract
  | coordinatorGuta
  | coordinatorProving
  | realmUserUpdate
  | realmProving
deriving DecidableEq

/-- A consumer to delete. -/
structure RollbackNatsConsumerTarget where
  kind : RollbackNatsConsumerKind
  procId : Nat
  taskGroup : Nat
deriving DecidableEq

/-- The queues of a role. -/
def rollbackNatsConsumerKinds : RollbackRole → List RollbackNatsConsumerKind
  | .coordinator => [.coordinatorRegisterUser, .coordinatorDeployContract,
      .coordinatorUpdateContract, .coordinatorGuta, .coordinatorProving]
  | .realm => [.realmUserUpdate, .realmProving]

/-- Has a phase been executed? -/
inductive RollbackPhaseStatus
  | pending
  | completed
deriving DecidableEq

/-- `RollbackIds`: a pending id, with the checkpoint and the process it belongs to. -/
structure RollbackIds where
  checkpointId : Option Nat
  pendingId : Nat
  procId : Nat
deriving DecidableEq

/-- What the bridge contract had finalized. -/
structure TargetContractState where
  lastFinalizedCheckpointId : Nat
deriving DecidableEq

/-- A field of the temporary store. -/
structure RollbackTempValueSnapshot where
  field : String
  value : Option String
deriving DecidableEq

/-- Values that cannot be recomputed later. -/
structure RollbackSnapshot where
  targetInfo : String
  workerReputationFields : List RollbackTempValueSnapshot
deriving DecidableEq

/-- A row of the key index. -/
structure RollbackImtKeyIndexRow where
  leafKey : String
  birthCheckpoint : Int
  leafIndex : Int
deriving DecidableEq

/-- `RollbackImtKeyIndexEntry`: the row to restore, or none if the key is deleted. -/
structure RollbackImtKeyIndexEntry where
  treeId : Int
  treeSubId : Int
  keyBucket : Int
  encodedKey : String
  target : Option RollbackImtKeyIndexRow
deriving DecidableEq

/-- One table, the store function that treats it, and the keys. -/
structure RollbackPhase where
  table : String
  api : String
  keys : JsonValue
  status : RollbackPhaseStatus

/-- A plan, as it is stored. -/
structure RollbackPlan where
  role : RollbackRole
  realmId : Nat
  realmSubId : Nat
  targetCheckpointId : Nat
  latestCheckpointId : Nat
  latestPendingId : Nat
  ids : List RollbackIds
  targetContractState : Option TargetContractState
  snapshot : RollbackSnapshot
  phases : List RollbackPhase

namespace RollbackPlan

variable (plan : RollbackPlan)

/-- All checkpoints after the target. -/
def checkpointIds : List Nat :=
  if plan.targetCheckpointId ≥ plan.latestCheckpointId then []
  else List.range' (plan.targetCheckpointId + 1) (plan.latestCheckpointId - plan.targetCheckpointId)

/-- The checkpoints of the ids. -/
def mappedCheckpointIds : List Nat :=
  plan.ids.filterMap (fun entry => entry.checkpointId)

/-- `pending_ids`. -/
def pendingIds : List Nat := plan.ids.map (fun entry => entry.pendingId)

/-- `proc_ids`. -/
def procIds : List Nat := plan.ids.map (fun entry => entry.procId)

theorem mem_checkpointIds (id : Nat) :
    id ∈ plan.checkpointIds ↔ plan.targetCheckpointId < id ∧ id ≤ plan.latestCheckpointId := by
  unfold checkpointIds
  split
  next h =>
    simp only [List.not_mem_nil, false_iff]
    omega
  next h =>
    rw [List.mem_range'_1]
    omega

end RollbackPlan

/-! ## §2. Tables and store functions. -/

/-- Temporary values and queues. -/
def stage1Tables : List String := ["TKVSV1", "TMPPSV1-proof-buckets", "nats_jetstream_consumers"]

/-- Tables whose rows are deleted by key. -/
def stage2Tables : List String :=
  ["checkpoint_leaf_table", "checkpoint_root_to_checkpoint_id_table", "l2_block_state_table",
    "checkpoint_id_to_realm_root_table", "checkpointed_object_table",
    "checkpoint_state_roots_table", "user_leaf_table", "user_public_key_table",
    "contract_state_tree_height_table", "checkpoint_id_to_pending_id_table",
    "pending_id_to_checkpoint_id_table", "pending_id_to_pending_proc_id_table",
    "realm_rewards_tree_node_key_table", "public_key_hash_to_user_ids_table",
    "guta_reward_tag_tree_table", "contract_leaf_table", "contract_code_definition_table",
    "checkpoint_zk_proof_and_transition_table", "imt_key_index_table"]

/-- Tables that are never written. -/
def emptySchemaTables : List String := ["checkpoint_leaf_to_checkpoint_id_table"]

/-- The nodes of the trees. -/
def stage3Tables : List String :=
  ["global_user_tree_table", "user_contract_tree_table", "contract_state_tree_table",
    "global_checkpoint_tree_table", "user_registration_tree_table", "global_contract_tree_table",
    "contract_function_tree_table", "imt_leaf_table"]

/-- Singletons, the backup, the check, and last the marker. -/
def finalTables : List String :=
  ["latest_info_table", "imt_next_append_index_table", "TKVSV1-singletons",
    "checkpoint_tree_backup", "all", "u64_singleton_table"]

/-- The store function of a table. -/
def apiForTable (table : String) : String :=
  match table with
  | "checkpoint_leaf_table" | "l2_block_state_table" => "db_delete_many_object_ids"
  | "checkpoint_root_to_checkpoint_id_table" | "checkpoint_leaf_to_checkpoint_id_table" =>
    "db_delete_many_blob_pairs"
  | "checkpoint_id_to_realm_root_table" | "checkpoint_state_roots_table"
  | "checkpoint_zk_proof_and_transition_table" | "checkpoint_id_to_pending_id_table"
  | "pending_id_to_checkpoint_id_table" => "db_delete_many_object_ids"
  | "user_leaf_table" | "user_public_key_table" | "contract_state_tree_height_table"
  | "contract_leaf_table" | "contract_code_definition_table" | "checkpointed_object_table"
  | "realm_rewards_tree_node_key_table" => "db_delete_many_object_checkpoint"
  | "pending_id_to_pending_proc_id_table" => "db_delete_many_u64_u128_pairs"
  | "public_key_hash_to_user_ids_table" => "db_delete_many_hash_user_pairs"
  | "guta_reward_tag_tree_table" => "db_delete_many_pending_id_partitions"
  | "imt_key_index_table" => "set_imt_key_index"
  | "global_user_tree_table" | "global_checkpoint_tree_table" | "user_registration_tree_table"
  | "global_contract_tree_table" => "db_delete_many_merkle_nodes"
  | "user_contract_tree_table" | "contract_function_tree_table" =>
    "db_delete_many_tree_merkle_nodes"
  | "contract_state_tree_table" => "db_delete_many_tree_subtree_merkle_nodes"
  | "imt_leaf_table" => "db_delete_many_imt_leaves"
  | "latest_info_table" => "set_latest_info"
  | "imt_next_append_index_table" => "set_imt_next_append_index"
  | "TKVSV1-singletons" => "qtdb_raw_kv_delete_key"
  | "checkpoint_tree_backup" => "rebuild_checkpoint_tree_backup"
  | "all" => "verify"
  | "u64_singleton_table" => "set_latest_checkpoint_id"
  | "nats_jetstream_consumers" => "delete_nats_consumers"
  | _ => "UNKNOWN"

end PsyNode.Rollback
