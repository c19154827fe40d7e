/-
PsyNode.Ffs.Layout
**FFS BYTES AND THE TREES THEY ARE CHECKED AGAINST**
(`realm/processor/ffs/layout.rs`, `fast_node_serializer/*.rs`).

A block's state updates arrive as fixed-width records, which are decoded, checked for their
realm and compared with the nodes of a recorder tree.

A hash map is a list of entries without duplicate keys; `IterOrder` is the order
in which one is iterated, of which nothing is known.  `Failure.panic` is a failed
assertion or an arithmetic overflow, as opposed to a returned error.
-/
import Mathlib.Data.List.AList
import PsyNode.Lib.ByteCodec
import PsyNode.Recorder.Tree
import PsyNode.Guta.EndCap

namespace PsyNode.Ffs

open Merkle Guta Recorder Lib.ByteCodec Lib

/-! ## §1. Outcomes and hash maps. -/

inductive Failure
  | error (message : String)
  | panic
deriving DecidableEq

abbrev Outcome (α : Type) := Except Failure α

abbrev HashMap (K V : Type) := AList (fun _ : K => V)

/-- The order in which hash maps are iterated. -/
structure IterOrder where
  iterate : {K V : Type} → List ((_ : K) × V) → List ((_ : K) × V)
  perm : ∀ {K V : Type} (entries : List ((_ : K) × V)), (iterate entries).Perm entries

/-- The order of the entries themselves. -/
def IterOrder.asStored : IterOrder := ⟨fun entries => entries, fun entries => .refl entries⟩

/-- `Q256BitHash`: a hash and its 32 bytes. -/
class Q256BitHash (Hash : Type) where
  fromOwned32Bytes : Bytes → Hash
  intoOwned32Bytes : Hash → Bytes

export Q256BitHash (fromOwned32Bytes intoOwned32Bytes)

/-! ## §2. Records. -/

def QMS_FAST_SERIALIZER_ZERO_ID_NODE_SIZE : Nat := 41

def QMS_FAST_SERIALIZER_SINGLE_ID_NODE_SIZE : Nat := 49

def QMS_FAST_SERIALIZER_DOUBLE_ID_NODE_SIZE : Nat := 57

def PSY_OBJECT_FFS_SIZE_USER_LEAF : Nat := 104

def IMT_LEAF_FFS_ENTRY_SIZE_V2 : Nat := 161

def chunksExact (width : Nat) (bytes : Bytes) : List Bytes :=
  (List.range (bytes.length / width)).map fun i => (bytes.drop (width * i)).take width

variable (bytes : Bytes)

def sliceAt (start len : Nat) : Bytes := (bytes.drop start).take len

/-- `u64::from_le_bytes` of eight bytes. -/
def u64At (start : Nat) : Nat := ofLeBytes (sliceAt bytes start 8)

def byteAt (start : Nat) : Nat := (bytes.getD start 0).toNat

section
variable {Hash : Type} [Q256BitHash Hash]

def hashAt (bytes : Bytes) (start : Nat) : Hash := fromOwned32Bytes (sliceAt bytes start 32)

structure SimpleMerkleNode (Hash : Type) where
  key : NodeKey
  value : Hash

variable (slice : Bytes)

def deserializeZeroIdNodeFromSlice : SimpleMerkleNode Hash :=
  ⟨⟨byteAt slice 0, u64At slice 1⟩, hashAt slice 9⟩

def deserializeZeroIdNodesFromSlice : Outcome (List (SimpleMerkleNode Hash)) :=
  if slice.length % QMS_FAST_SERIALIZER_ZERO_ID_NODE_SIZE ≠ 0 then .error .panic
  else .ok ((chunksExact QMS_FAST_SERIALIZER_ZERO_ID_NODE_SIZE slice).map
    deserializeZeroIdNodeFromSlice)

/-- `deserialize_single_id_node_from_slice`: the tree, and the node in it. -/
def deserializeSingleIdNodeFromSlice : Nat × Nat × Nat × Hash :=
  (u64At slice 0, byteAt slice 8, u64At slice 9, hashAt slice 17)

/-- `deserialize_double_id_node_from_slice`: tree and sub-tree, and the node in them. -/
def deserializeDoubleIdNodeFromSlice : (Nat × Nat) × Nat × Nat × Hash :=
  ((u64At slice 0, u64At slice 8), byteAt slice 16, u64At slice 17, hashAt slice 25)

/-- `PQEDUserLeaf::ffs_try_from_slice`. -/
def userLeafFromSlice {F : Type} [QFelt64 F] (data : Bytes) : Outcome (PQEDUserLeaf F Hash) :=
  if data.length ≠ PSY_OBJECT_FFS_SIZE_USER_LEAF then
    .error (.error "Invalid number of bytes for PQEDUserLeaf")
  else .ok {
    publicKey := hashAt data 0
    userStateTreeRoot := hashAt data 32
    balance := fromU64Value (u64At data 64)
    nonce := fromU64Value (u64At data 72)
    lastCheckpointId := fromU64Value (u64At data 80)
    eventIndex := fromU64Value (u64At data 88)
    userId := fromU64Value (u64At data 96) }

end

structure ImtLeafFfsEntry where
  treeId : Nat
  treeSubId : Nat
  leafIndex : Nat
  leafHash : Bytes
  leafKey : Bytes
  leafValue : Bytes
  nextKey : Bytes
  nextIndex : Nat
  isNewKey : Bool

def deserializeImtLeafFfsEntryV2 (data : Bytes) : Outcome ImtLeafFfsEntry :=
  if data.length ≠ IMT_LEAF_FFS_ENTRY_SIZE_V2 then
    .error (.error (s!"Invalid IMT leaf FFS entry size: expected {IMT_LEAF_FFS_ENTRY_SIZE_V2}, " ++
      s!"got {data.length}"))
  else .ok {
    treeId := u64At data 0
    treeSubId := u64At data 8
    leafIndex := u64At data 16
    leafHash := sliceAt data 24 32
    leafKey := sliceAt data 56 32
    leafValue := sliceAt data 88 32
    nextKey := sliceAt data 120 32
    nextIndex := u64At data 152
    isNewKey := byteAt data 160 ≠ 0 }

def requireWidth (bytes : Bytes) (width : Nat) (what : String) : Outcome Unit :=
  require (bytes = [] ∨ bytes.length % width = 0)
    (.error s!"InvalidStateUpdates: {what} length {bytes.length} is not a multiple of {width}")

/-- `decode_double_id_node_ffs`: the records, each to be visited in turn. -/
def decodeDoubleIdNodeFfs (bytes : Bytes) (width : Nat) : Outcome (List Bytes) := do
  requireWidth bytes width "tree node FFS"
  return chunksExact width bytes

/-- `gut_local_key`: the key of a node inside the tree of its realm. -/
def gutLocalKey (key : NodeKey) (coordinatorHeight realmId : Nat) : Outcome NodeKey := do
  require (coordinatorHeight ≤ key.level)
    (.error (s!"InvalidStateUpdates: GUT node level {key.level} is below coordinator height " ++
      s!"{coordinatorHeight}"))
  let localLevel := key.level - coordinatorHeight
  require (64 ≤ localLevel → key.index = 0)
    (.error "InvalidStateUpdates: GUT node index does not fit local level")
  let expectedRealmId := if 64 ≤ localLevel then 0 else key.index >>> localLevel
  require (expectedRealmId = realmId)
    (.error s!"InvalidStateUpdates: GUT node realm {expectedRealmId} does not match {realmId}")
  return ⟨localLevel, if localLevel = 0 then 0 else if 64 ≤ localLevel then key.index
    else key.index &&& ((1 <<< localLevel) - 1)⟩

/-! ## §3. Reading a tree. -/

section
variable {Hash : Type} [MerkleZeroHasher Hash] (tree : RecorderStore Hash)

/-- `get_node_value` with its assertion. -/
def readNode (key : NodeKey) : Outcome Hash :=
  if tree.updatedNodes key = none ∧ tree.nodes key = none ∧ tree.height < key.level then
    .error .panic
  else .ok (tree.getNodeValue key)

omit [MerkleZeroHasher Hash] in
/-- `double_id_leaves_at_level`: the last value declared for each leaf. -/
def doubleIdLeavesAtLevel (nodes : List (Nat × Nat × Hash)) (height : Nat) : HashMap Nat Hash :=
  nodes.foldl (fun lastLeaf node =>
    if node.1 = height then lastLeaf.insert node.2.1 node.2.2 else lastLeaf) ∅

end

end PsyNode.Ffs
