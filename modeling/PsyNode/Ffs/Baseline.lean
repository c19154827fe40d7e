/-
PsyNode.Ffs.Baseline
**REPLAYING STATE UPDATES INTO THE REALM TREE**
(`realm/processor/ffs/baseline_replay.rs`, `realm/processor/db/records.rs`).

The bytes come from another validator.  Widths, realm and user of every record are
checked before the tree is touched, but not that a declared node lies in the realm
tree: below the leaves of the tree the recorder store fails an assertion.

The IMT records of the update are only compared with each other here.
-/
import PsyNode.Ffs.Layout

namespace PsyNode.Ffs

open Merkle Guta Recorder Lib.ByteCodec Lib.Merkle Lib

/-! ## §1. Coverage of the records. -/

structure PsyPreparedRealmBlockStateUpdates (Hash : Type) where
  oldRealmRoot : Hash
  newRealmRoot : Hash
  updateGlobalUserTreeNodesFfs : Bytes
  updateUserContractTreeNodesFfs : Bytes
  updateContractStateTreeNodesFfs : Bytes
  updateUserLeavesFfs : Bytes
  updateContractStateImtLeavesFfs : Bytes

abbrev HashSet (K : Type) := HashMap K Unit

section
variable {Hash : Type}

/-- The nodes of each tree, in the order they are declared. -/
def groupByTree {K : Type} [DecidableEq K] (records : List (K × Nat × Nat × Hash)) :
    HashMap K (List (Nat × Nat × Hash)) :=
  records.foldl (fun grouped record =>
    grouped.insert record.1 ((grouped.lookup record.1).getD [] ++ [record.2])) ∅

/-- The largest level declared, which is taken for the height of the tree. -/
def declaredHeight (nodes : List (Nat × Nat × Hash)) : Nat := (nodes.map (·.1)).foldl max 0

variable [Q256BitHash Hash] (order : IterOrder) (updates : PsyPreparedRealmBlockStateUpdates Hash)

def contractStateLeavesFromFfs :
    Outcome (HashMap (Nat × Nat × Nat) Hash) := do
  let chunks ← decodeDoubleIdNodeFfs updates.updateContractStateTreeNodesFfs
    QMS_FAST_SERIALIZER_DOUBLE_ID_NODE_SIZE
  let grouped := groupByTree (chunks.map deserializeDoubleIdNodeFromSlice)
  return (order.iterate grouped.entries).foldl (fun leaves group =>
    (order.iterate (doubleIdLeavesAtLevel group.2 (declaredHeight group.2)).entries).foldl
      (fun leaves leaf => leaves.insert (group.1.1, group.1.2, leaf.1) leaf.2) leaves) ∅

/-- The leaves of the user-contract trees, which are the contracts of the users. -/
def userContractLeavesFromFfs :
    Outcome (HashSet (Nat × Nat)) := do
  let chunks ← decodeDoubleIdNodeFfs updates.updateUserContractTreeNodesFfs
    QMS_FAST_SERIALIZER_SINGLE_ID_NODE_SIZE
  let records : List (Nat × Nat × Nat × Hash) := chunks.map deserializeSingleIdNodeFromSlice
  return (order.iterate (groupByTree records).entries).foldl (fun leaves group =>
    group.2.foldl (fun leaves node =>
      if node.1 = declaredHeight group.2 then leaves.insert (group.1, node.2.1) () else leaves)
      leaves) ∅

omit [Q256BitHash Hash] in
/-- The leaves that have an IMT record. -/
def collectImtLeaves :
    Outcome (HashSet (Nat × Nat × Nat)) :=
  (chunksExact IMT_LEAF_FFS_ENTRY_SIZE_V2 updates.updateContractStateImtLeavesFfs).foldlM
    (fun imtLeaves chunk => do
      let entry ← deserializeImtLeafFfsEntryV2 chunk
      return imtLeaves.insert (entry.treeId, entry.treeSubId, entry.leafIndex) ()) ∅

def requireStateUpdateRecordCoverage (checkpointId : Nat)
    (changedLeavesOnImtIndexedTrees : HashSet (Nat × Nat × Nat)) : Outcome Unit := do
  requireWidth updates.updateGlobalUserTreeNodesFfs QMS_FAST_SERIALIZER_ZERO_ID_NODE_SIZE
    "global user tree FFS"
  requireWidth updates.updateUserContractTreeNodesFfs QMS_FAST_SERIALIZER_SINGLE_ID_NODE_SIZE
    "user contract tree FFS"
  requireWidth updates.updateContractStateTreeNodesFfs QMS_FAST_SERIALIZER_DOUBLE_ID_NODE_SIZE
    "contract state tree FFS"
  requireWidth updates.updateUserLeavesFfs PSY_OBJECT_FFS_SIZE_USER_LEAF "user leaf FFS"
  requireWidth updates.updateContractStateImtLeavesFfs IMT_LEAF_FFS_ENTRY_SIZE_V2 "IMT leaf FFS"
  if checkpointId = 0 then return ()
  else
    let contractStateLeaves ← contractStateLeavesFromFfs order updates
    let imtLeaves ← collectImtLeaves updates
    (order.iterate changedLeavesOnImtIndexedTrees.entries).forM fun leaf =>
      require (leaf.1 ∈ imtLeaves)
        (.error (s!"InvalidStateUpdates: contract-state leaf user={leaf.1.1} " ++
          s!"contract={leaf.1.2.1} index={leaf.1.2.2} has no IMT record"))
    let userContractLeaves ← userContractLeavesFromFfs order updates
    (order.iterate userContractLeaves.entries).forM fun leaf =>
      require (∃ entry ∈ contractStateLeaves.entries, (entry.1.1, entry.1.2.1) = leaf.1)
        (.error (s!"InvalidStateUpdates: user-contract leaf user={leaf.1.1} contract={leaf.1.2} " ++
          "has no contract-state FFS"))

end

/-! ## §2. Consistency of the IMT records. -/

section
variable (F Hash : Type) [QFelt64 F] [HashTo4Felts F Hash] [FieldQHasher F Hash]
  [Q256BitHash Hash]

/-- `IMTContractStateLeaf::qfhash` of the preimage in a record. -/
def ImtLeafFfsEntry.qfhash (entry : ImtLeafFfsEntry) : Hash :=
  qHashMany (felts (fromOwned32Bytes entry.leafKey : Hash) ++
    felts (fromOwned32Bytes entry.leafValue : Hash) ++
    felts (fromOwned32Bytes entry.nextKey : Hash) ++ [(fromU64Value entry.nextIndex : F)])

/-- What the earlier records of the stream said first. -/
structure ImtHistory where
  first : HashMap (Nat × Nat × Nat) Bytes
  firstKeyIndex : HashMap (Nat × Nat × Bytes) Nat

/-- The index of a key stays what it was first. -/
def requireSameIndex (firstKeyIndex : HashMap (Nat × Nat × Bytes) Nat) (entry : ImtLeafFfsEntry) :
    Outcome (HashMap (Nat × Nat × Bytes) Nat) :=
  match firstKeyIndex.lookup (entry.treeId, entry.treeSubId, entry.leafKey) with
  | some firstIndex =>
    if firstIndex ≠ entry.leafIndex then
      .error (.error "InvalidStateUpdates: duplicate IMT key changed derived next fields")
    else .ok firstKeyIndex
  | none =>
    .ok (firstKeyIndex.insert (entry.treeId, entry.treeSubId, entry.leafKey) entry.leafIndex)

/-- The key of a leaf stays what it was first, and only its first record is a birth. -/
def requireSameKey (first : HashMap (Nat × Nat × Nat) Bytes) (entry : ImtLeafFfsEntry) :
    Outcome (HashMap (Nat × Nat × Nat) Bytes) :=
  match first.lookup (entry.treeId, entry.treeSubId, entry.leafIndex) with
  | some firstKey =>
    if entry.isNewKey then
      .error (.error (s!"InvalidStateUpdates: duplicate IMT birth user={entry.treeId} " ++
        s!"contract={entry.treeSubId} index={entry.leafIndex}"))
    else if firstKey ≠ entry.leafKey then
      .error (.error "InvalidStateUpdates: duplicate IMT key changed derived next fields")
    else .ok first
  | none => .ok (first.insert (entry.treeId, entry.treeSubId, entry.leafIndex) entry.leafKey)

/-- One round of the first loop of `require_imt_leaf_ffs_consistency`. -/
def checkImtRecord (seen : ImtHistory) (chunk : Bytes) : Outcome ImtHistory := do
  let entry ← deserializeImtLeafFfsEntryV2 chunk
  require (intoOwned32Bytes (entry.qfhash F Hash) = entry.leafHash)
    (.error "InvalidStateUpdates: IMT leaf preimage does not bind leaf_hash")
  let firstKeyIndex ← requireSameIndex seen.firstKeyIndex entry
  let first ← requireSameKey seen.first entry
  return ⟨first, firstKeyIndex⟩

/-- The second loop: key, next key and next index of the newest record of each leaf. -/
def finalImtRecords (chunks : List Bytes) :
    Outcome (HashMap (Nat × Nat × Nat) (Bytes × Bytes × Nat)) :=
  chunks.foldlM (fun finals chunk => do
    let entry ← deserializeImtLeafFfsEntryV2 chunk
    return if (entry.treeId, entry.treeSubId, entry.leafIndex) ∈ finals then finals
      else finals.insert (entry.treeId, entry.treeSubId, entry.leafIndex)
        (entry.leafKey, entry.nextKey, entry.nextIndex)) ∅

/-- One round of the third loop: a final record and its successor. -/
def checkFinalImtRecord (finals : HashMap (Nat × Nat × Nat) (Bytes × Bytes × Nat))
    (record : (_ : Nat × Nat × Nat) × (Bytes × Bytes × Nat)) : Outcome Unit :=
  let (treeId, treeSubId, leafIndex) := record.1
  let (leafKey, nextKey, nextIndex) := record.2
  if nextIndex = 0 then
    require (nextKey = List.replicate 32 0)
      (.error (s!"InvalidStateUpdates: IMT terminal next_key must be zero user={treeId} " ++
        s!"contract={treeSubId} index={leafIndex}"))
  else
    match finals.lookup (treeId, treeSubId, nextIndex) with
    | none => .ok ()
    | some successor => do
      require (successor.1 = nextKey)
        (.error ("InvalidStateUpdates: IMT next_key does not match successor leaf " ++
          s!"user={treeId} contract={treeSubId} index={leafIndex} next_index={nextIndex}"))
      require (successor.1 ≠ leafKey ∨ nextIndex = leafIndex)
        (.error (s!"InvalidStateUpdates: IMT successor key collides with source user={treeId} " ++
          s!"contract={treeSubId} index={leafIndex}"))

def requireImtLeafFfsConsistency (order : IterOrder) (bytes : Bytes) : Outcome Unit := do
  requireWidth bytes IMT_LEAF_FFS_ENTRY_SIZE_V2 "IMT leaf FFS"
  let chunks := chunksExact IMT_LEAF_FFS_ENTRY_SIZE_V2 bytes
  -- the stream is newest first, the history is checked oldest first
  let _ ← chunks.reverse.foldlM (checkImtRecord F Hash) ⟨∅, ∅⟩
  let finals ← finalImtRecords chunks
  (order.iterate finals.entries).forM (checkFinalImtRecord finals)

end

/-! ## §3. The replay. -/

/-- `realm_id << realm_user_tree_height` of a `u64`. -/
def shlU64 (a n : Nat) : Outcome Nat := if n < 64 then .ok ((a <<< n) % 2 ^ 64) else .error .panic

/-- `a + b` of two `u64`. -/
def addU64 (a b : Nat) : Outcome Nat := if a + b < 2 ^ 64 then .ok (a + b) else .error .panic

section
variable {F Hash : Type} [QFelt64 F] [Q256BitHash Hash]
  (updates : PsyPreparedRealmBlockStateUpdates Hash)

/-- The declared nodes of the global user tree. -/
def gutNodes : Outcome (List (SimpleMerkleNode Hash)) :=
  if updates.updateGlobalUserTreeNodesFfs = [] then .ok []
  else deserializeZeroIdNodesFromSlice updates.updateGlobalUserTreeNodesFfs

/-- `last_user`: the last preimage declared for each user. -/
def collectLastUser : Outcome (HashMap Nat (PQEDUserLeaf F Hash)) :=
  (chunksExact PSY_OBJECT_FFS_SIZE_USER_LEAF updates.updateUserLeavesFfs).foldlM
    (fun lastUser chunk => do
      let leaf ← userLeafFromSlice chunk
      return lastUser.insert (toU64Value leaf.userId) leaf) ∅

omit [Q256BitHash Hash] in
/-- `last_leaf`: the last value declared for each leaf of the realm tree. -/
def collectLastLeaf (coordinatorHeight realmUserTreeHeight realmId : Nat)
    (nodes : List (SimpleMerkleNode Hash)) : Outcome (HashMap Nat Hash) :=
  nodes.foldlM (fun lastLeaf node => do
    let key ← gutLocalKey node.key coordinatorHeight realmId
    return if key.level = realmUserTreeHeight then lastLeaf.insert key.index node.value
      else lastLeaf) ∅

variable [HashTo4Felts F Hash] [FieldQHasher F Hash] [MerkleZeroHasher Hash] [DecidableEq Hash]

section
omit [Q256BitHash Hash]

variable (tree : RecorderStore Hash)

/-- A leaf that changes is the hash of the preimage of its user. -/
def requirePreimage (minUserId : Nat) (lastUser : HashMap Nat (PQEDUserLeaf F Hash))
    (leaf : (_ : Nat) × Hash) : Outcome Unit := do
  let previousLeaf ← readNode tree ⟨tree.height, leaf.1⟩
  if previousLeaf = leaf.2 then return ()
  else
    let userId ← addU64 minUserId leaf.1
    match lastUser.lookup userId with
    | none => .error (.error s!"InvalidStateUpdates: GUT leaf {leaf.1} changed without preimage")
    | some preimage =>
      require (preimage.qfhash = leaf.2)
        (.error s!"InvalidStateUpdates: user {userId} preimage does not bind the GUT leaf")

/-- A declared node is the node of the updated tree. -/
def requireGutNode (coordinatorHeight realmId : Nat) (node : SimpleMerkleNode Hash) :
    Outcome Unit := do
  let key ← gutLocalKey node.key coordinatorHeight realmId
  let found ← readNode tree key
  require (found = node.value)
    (.error "InvalidStateUpdates: declared GUT node does not match recomputed")

/-- A declared preimage is that of a leaf of the updated tree. -/
def requireUserLeaf (minUserId realmId : Nat) (user : (_ : Nat) × PQEDUserLeaf F Hash) :
    Outcome Unit := do
  require (minUserId ≤ user.1)
    (.error s!"InvalidStateUpdates: user_id {user.1} is outside realm {realmId}")
  let found ← readNode tree ⟨tree.height, user.1 - minUserId⟩
  require (found = user.2.qfhash)
    (.error s!"InvalidStateUpdates: user {user.1} preimage does not bind the recomputed GUT leaf")

/-- The declared leaves are written, in the order in which the map is iterated. -/
def setLeaves (leaves : List ((_ : Nat) × Hash)) (tree : RecorderStore Hash) : RecorderStore Hash :=
  leaves.foldl (fun tree leaf => (tree.setLeaf leaf.1 leaf.2).1) tree

end

variable (F) in
/-- `replay_state_updates_into_tree`; the hashes are left out of the messages. -/
def replayStateUpdatesIntoTree (order : IterOrder) (tree : RecorderStore Hash)
    (updates : PsyPreparedRealmBlockStateUpdates Hash)
    (coordinatorHeight realmUserTreeHeight realmId checkpointId : Nat)
    (changedLeavesOnImtIndexedTrees : HashSet (Nat × Nat × Nat)) :
    Outcome (RecorderStore Hash) := do
  requireStateUpdateRecordCoverage order updates checkpointId changedLeavesOnImtIndexedTrees
  require (tree.getRoot = updates.oldRealmRoot)
    (.error "MissingAuthenticatedState: tree root is not old_realm_root")
  let nodes ← gutNodes updates
  let minUserId ← shlU64 realmId realmUserTreeHeight
  let lastUser : HashMap Nat (PQEDUserLeaf F Hash) ← collectLastUser updates
  let lastLeaf ← collectLastLeaf coordinatorHeight realmUserTreeHeight realmId nodes
  (order.iterate lastLeaf.entries).forM (requirePreimage tree minUserId lastUser)
  let tree := setLeaves (order.iterate lastLeaf.entries) tree
  nodes.forM (requireGutNode tree coordinatorHeight realmId)
  (order.iterate lastUser.entries).forM (requireUserLeaf tree minUserId realmId)
  requireImtLeafFfsConsistency F Hash order updates.updateContractStateImtLeavesFfs
  require (tree.getRoot = updates.newRealmRoot)
    (.error "InvalidStateUpdates: recomputed root is not new_realm_root")
  return tree

end

end PsyNode.Ffs
