/-
PsyNode.Store.Imm
**APPENDING TO A STORE THAT SEARCHES ITS END** — the provided functions of the
trait `PsyMemoryMerkleStoreImm` of `traits.rs`.  `SimpleMemoryMerkleStoreV3` has
the same functions as its own.

`append_leaves_spider_man` keeps no append index: it appends at the first zero
leaf, writes whole windows, and fills the window up with zeros.

`LawfulMerkleStore` is what the five stores agree on about reading a written node.
-/
import PsyNode.Store.AppendOnly

namespace PsyNode.Store

open Merkle Lib.Merkle Lib Function SimpleMerkleNodeKey

/-- The required functions of `PsyMemoryMerkleStoreImm`. -/
class PsyMemoryMerkleStoreImm (S : Type) (Hash : outParam Type) where
  getHeight : S → Nat
  getZeroHashForLevel : S → Nat → Hash
  setNodeValue : S → NodeKey → Hash → S
  getNodeValue : S → NodeKey → Hash

namespace PsyMemoryMerkleStoreImm

/-! ## §1. The provided functions. -/

section
variable {S Hash : Type} [PsyMemoryMerkleStoreImm S Hash]

def getRoot (s : S) : Hash := getNodeValue s newRoot

def getLeafValue (s : S) (index : Nat) : Hash := getNodeValue s ⟨getHeight s, index⟩

/-- `find_first_zero_leaf_index`; `n` is the height of the sub-tree under `node`. -/
def findFirstZeroLeafIndex [DecidableEq Hash] (s : S) : Nat → NodeKey → Option Nat
  | 0, node =>
    if getNodeValue s node = getZeroHashForLevel s node.level then
      some (node.firstLeafChild (getHeight s)).index
    else none
  | n + 1, node =>
    if getNodeValue s node = getZeroHashForLevel s node.level then
      some (node.firstLeafChild (getHeight s)).index
    else
      (findFirstZeroLeafIndex s n node.leftChild).or (findFirstZeroLeafIndex s n node.rightChild)

def findNextAppendIndex [DecidableEq Hash] (s : S) : Except String Nat :=
  match findFirstZeroLeafIndex s (getHeight s) newRoot with
  | some index => .ok index
  | none => .error "tree is full"

variable [MerkleHasher Hash]

def rehashFromNodeToLevel (s : S) (node : NodeKey) (stopLevel : Nat) : S :=
  go (node.level - stopLevel) node s
where
  go : Nat → NodeKey → S → S
  | 0, _, s => s
  | n + 1, node, s =>
    let siblingValue := getNodeValue s node.sibling
    let nodeValue := getNodeValue s node
    let parentValue :=
      if node.index &&& 1 = 0 then twoToOne nodeValue siblingValue
      else twoToOne siblingValue nodeValue
    go n node.parent (setNodeValue s node.parent parentValue)

/-- `_rehash_recursive`; `n` is the height of the sub-tree under `node`. -/
def rehashRecursive : Nat → NodeKey → S → S × Hash
  | 0, node, s => (s, getNodeValue s node)
  | n + 1, node, s =>
    let left := rehashRecursive n node.leftChild s
    let right := rehashRecursive n node.rightChild left.1
    let newHash := twoToOne left.2 right.2
    (setNodeValue right.1 node newHash, newHash)

/-- `rehash_sub_tree_dmp` around `rehash_sub_tree`.  The siblings are read before. -/
def rehashSubTreeDmp (s : S) (subTreeHeight subTreeIndex : Nat) :
    Except String (S × DeltaMerkleProofCore Hash) :=
  if getHeight s < subTreeHeight then .error "attempt to subtract with overflow"
  else
    let subRootNode : NodeKey := ⟨getHeight s - subTreeHeight, subTreeIndex⟩
    let s' := rehashFromNodeToLevel (rehashRecursive subTreeHeight subRootNode s).1 subRootNode 0
    .ok (s', {
      oldRoot := getRoot s
      oldValue := getNodeValue s subRootNode
      newRoot := getRoot s'
      newValue := getNodeValue s' subRootNode
      index := subTreeIndex
      siblings := subRootNode.siblings.map (getNodeValue s) })

/-- The loop of `set_sub_tree_dmp`: write the leaves from `index` on. -/
def setRun (s : S) (index : Nat) : List Hash → S
  | [] => s
  | value :: values => setRun (setNodeValue s ⟨getHeight s, index⟩ value) (index + 1) values

/-- `set_sub_tree_dmp`: leaves that are not given are set to zero. -/
def setSubTreeDmp (s : S) (subTreeHeight subTreeIndex : Nat) (leaves : List Hash) :
    Except String (S × DeltaMerkleProofCore Hash) := do
  let maxLeaves ← shl64 subTreeHeight
  if leaves.length > maxLeaves then .error "cannot set more leaves than can fit in a subtree"
  else
    let zeros := List.replicate (maxLeaves - leaves.length) (getZeroHashForLevel s (getHeight s))
    rehashSubTreeDmp (setRun s (maxLeaves * subTreeIndex) (leaves ++ zeros)) subTreeHeight
      subTreeIndex

/-- The loop over `chunks(leaves_per_subtree)` of `append_leaves_spider_man`; the first
argument bounds the number of chunks. -/
def appendChunks (subTreeHeight leavesPerSubtree : Nat) (zeroLeafHash : Hash) :
    Nat → Nat → List Hash → S → Except String (S × List (SpidermanUpdateProof Hash))
  | 0, _, _, s => .ok (s, [])
  | n + 1, subTreeIdx, leavesRemaining, s =>
    if leavesRemaining.isEmpty then .ok (s, [])
    else do
      let chunk := leavesRemaining.take leavesPerSubtree
      let newLeaves := chunk ++ List.replicate (leavesPerSubtree - chunk.length) zeroLeafHash
      let (s, dmp) ← setSubTreeDmp s subTreeHeight subTreeIdx newLeaves
      let (s, proofs) ← appendChunks subTreeHeight leavesPerSubtree zeroLeafHash n
        (subTreeIdx + 1) (leavesRemaining.drop leavesPerSubtree) s
      return (s, ⟨dmp, List.replicate leavesPerSubtree zeroLeafHash, newLeaves⟩ :: proofs)

def appendLeavesSpiderMan [DecidableEq Hash] (s : S) (subTreeHeight : Nat)
    (leavesToAppend : List Hash) : Except String (S × List (SpidermanUpdateProof Hash)) :=
  if leavesToAppend.isEmpty then .ok (s, [])
  else do
    let leavesPerSubtree ← shl64 subTreeHeight
    let maxLeaves ← shl64 (getHeight s)
    let appendIndex ← findNextAppendIndex s
    if appendIndex + leavesToAppend.length > maxLeaves then
      .error s!"tree cannot fit an additional {leavesToAppend.length} leaves"
    else
      let subTreeIdx := appendIndex / leavesPerSubtree
      let leafIdxInSubtree := appendIndex % leavesPerSubtree
      let zeroLeafHash := getZeroHashForLevel s (getHeight s)
      let existing := (List.range' (subTreeIdx * leavesPerSubtree) leafIdxInSubtree).map
        (getLeafValue s)
      let space := leavesPerSubtree - leafIdxInSubtree
      let firstChunk := leavesToAppend.take space
      let newLeaves := existing ++ firstChunk ++
        List.replicate (leavesPerSubtree - (leafIdxInSubtree + firstChunk.length)) zeroLeafHash
      let (s, dmp) ← setSubTreeDmp s subTreeHeight subTreeIdx newLeaves
      let (s, proofs) ← appendChunks subTreeHeight leavesPerSubtree zeroLeafHash
        leavesToAppend.length (subTreeIdx + 1) (leavesToAppend.drop space) s
      return (s, ⟨dmp, existing ++ List.replicate space zeroLeafHash, newLeaves⟩ :: proofs)

/-- The store after one call of `append_leaves_spider_man`.  A call that bails does so
before it writes. -/
def appendCall [DecidableEq Hash] (s : S) (call : Nat × List Hash) : S :=
  match appendLeavesSpiderMan s call.1 call.2 with
  | .ok (s', _) => s'
  | .error _ => s

/-- Calls one after another. -/
def appendCalls [DecidableEq Hash] (s : S) (calls : List (Nat × List Hash)) : S :=
  calls.foldl appendCall s

end

end PsyMemoryMerkleStoreImm

open PsyMemoryMerkleStoreImm

/-! ## §2. The stores. -/

/-- What the stores agree on.  A node that was written reads as written, but a store may
go on showing a non-zero value that it had before. -/
class LawfulMerkleStore (S : Type) {Hash : outParam Type} [MerkleZeroHasher Hash]
    [PsyMemoryMerkleStoreImm S Hash] where
  Valid : S → Prop
  valid_set : ∀ s key value, Valid s → Valid (setNodeValue s key value)
  getHeight_set : ∀ (s : S) key value, getHeight (setNodeValue s key value) = getHeight s
  zero_eq : ∀ (s : S) level, getZeroHashForLevel s level = getZeroHash (getHeight s - level)
  get_set_of_ne : ∀ (s : S) key value key', key' ≠ key →
    getNodeValue (setNodeValue s key value) key' = getNodeValue s key'
  get_set_self : ∀ (s : S) key value, Valid s →
    getNodeValue (setNodeValue s key value) key = value ∨
      getNodeValue s key ≠ getZeroHashForLevel s key.level ∧
        getNodeValue (setNodeValue s key value) key = getNodeValue s key

section
variable {Hash : Type} [MerkleZeroHasher Hash] [DecidableEq Hash]

/-- `SimpleMemoryMerkleStoreV3`; `PsyDashMemoryMerkleStore` has the same node functions. -/
instance : PsyMemoryMerkleStoreImm (SimpleMemoryMerkleStoreV3 Hash) Hash where
  getHeight st := st.height
  getZeroHashForLevel st := st.getZeroHashForLevel
  setNodeValue st := st.setNodeValue
  getNodeValue st := st.getNodeValue

variable (st : StoreV3 Hash)

theorem SimpleMemoryMerkleStoreV3.get_set_of_ne
    (key : NodeKey) (value : Hash) (key' : NodeKey) (h : key' ≠ key) :
    (st.setNodeValue key value).getNodeValue key' = st.getNodeValue key' := by
  cases key
  cases key'
  rw [Ne, SimpleMerkleNodeKey.mk.injEq] at h
  rw [getNodeValue_eq_table, table_setNodeValue, Table.set_of_ne _ _ h]
  rfl

theorem SimpleMemoryMerkleStoreV3.get_set_self (key : NodeKey) (value : Hash) :
    (st.setNodeValue key value).getNodeValue key = value := by
  rw [getNodeValue_eq_table, table_setNodeValue, Table.set_self]

instance : LawfulMerkleStore (SimpleMemoryMerkleStoreV3 Hash) where
  Valid _ := True
  valid_set _ _ _ _ := trivial
  getHeight_set st key value := st.setNodeValue_height key value
  zero_eq _ _ := rfl
  get_set_of_ne st key value key' h := st.get_set_of_ne key value key' h
  get_set_self st key value _ := Or.inl (st.get_set_self key value)

/-- The append-only store writes its nodes as the plain one does. -/
instance : PsyMemoryMerkleStoreImm (PsyDashMemoryAppendOnlyMerkleStore Hash) Hash where
  getHeight st := st.height
  getZeroHashForLevel st := st.getZeroHashForLevel
  setNodeValue st key value := ⟨st.toSimpleMemoryMerkleStoreV3.setNodeValue key value, st.roots⟩
  getNodeValue st := st.getNodeValue

instance : LawfulMerkleStore (PsyDashMemoryAppendOnlyMerkleStore Hash) where
  Valid _ := True
  valid_set _ _ _ _ := trivial
  getHeight_set st key value := st.setNodeValue_height key value
  zero_eq _ _ := rfl
  get_set_of_ne st key value key' h := st.toSimpleMemoryMerkleStoreV3.get_set_of_ne key value key' h
  get_set_self st key value _ := Or.inl (st.toSimpleMemoryMerkleStoreV3.get_set_self key value)

end

section
variable {Hash : Type} [MerkleZeroHasher Hash]

/-- `PsyDashRecorderMemoryMerkleStore`: written nodes are kept apart until they are
committed, and are read first. -/
structure PsyDashRecorderMemoryMerkleStore (Hash : Type) where
  nodes : NodeKey → Option Hash
  updatedNodes : NodeKey → Option Hash
  height : Nat

instance : PsyMemoryMerkleStoreImm (PsyDashRecorderMemoryMerkleStore Hash) Hash where
  getHeight st := st.height
  getZeroHashForLevel st level := getZeroHash (st.height - level)
  setNodeValue st key value :=
    { st with updatedNodes := update st.updatedNodes key (some value) }
  getNodeValue st key :=
    ((st.updatedNodes key).or (st.nodes key)).getD (getZeroHash (st.height - key.level))

instance : LawfulMerkleStore (PsyDashRecorderMemoryMerkleStore Hash) where
  Valid _ := True
  valid_set _ _ _ _ := trivial
  getHeight_set _ _ _ := rfl
  zero_eq _ _ := rfl
  get_set_of_ne st key value key' h := by
    show ((update st.updatedNodes key (some value) key').or (st.nodes key')).getD _ = _
    rw [update_of_ne h]
    rfl
  get_set_self st key value _ := by
    show ((update st.updatedNodes key (some value) key).or (st.nodes key)).getD _ = _ ∨ _
    rw [update_self]
    exact Or.inl rfl

/-- `PsyDashMemoryAppendOnlyMerkleRecorderStore`: committed nodes are read first, so a
written node may still read as committed. -/
structure PsyDashMemoryAppendOnlyMerkleRecorderStore (Hash : Type) where
  nodes : NodeKey → Option Hash
  updatedNodes : NodeKey → Option Hash
  roots : Hash → Option Nat
  height : Nat

instance : PsyMemoryMerkleStoreImm (PsyDashMemoryAppendOnlyMerkleRecorderStore Hash) Hash where
  getHeight st := st.height
  getZeroHashForLevel st level := getZeroHash (st.height - level)
  setNodeValue st key value :=
    { st with updatedNodes := update st.updatedNodes key (some value) }
  getNodeValue st key :=
    ((st.nodes key).or (st.updatedNodes key)).getD (getZeroHash (st.height - key.level))

namespace PsyDashMemoryAppendOnlyMerkleRecorderStore

/-- `commit_changes` keeps no zero node, so what is shown instead of a written node is
not zero. -/
def Valid (st : PsyDashMemoryAppendOnlyMerkleRecorderStore Hash) : Prop :=
  ∀ key, st.nodes key ≠ some (getZeroHash (st.height - key.level))

theorem get_set_self (st : PsyDashMemoryAppendOnlyMerkleRecorderStore Hash)
    (key : NodeKey) (value : Hash) (hv : st.Valid) :
    getNodeValue (setNodeValue st key value) key = value ∨
      getNodeValue st key ≠ getZeroHashForLevel st key.level ∧
        getNodeValue (setNodeValue st key value) key = getNodeValue st key := by
  show ((st.nodes key).or (update st.updatedNodes key (some value) key)).getD _ = _ ∨
    ((st.nodes key).or (st.updatedNodes key)).getD _ ≠ _ ∧
      ((st.nodes key).or (update st.updatedNodes key (some value) key)).getD _ =
        ((st.nodes key).or (st.updatedNodes key)).getD _
  rw [update_self]
  cases hnode : st.nodes key with
  | none => exact Or.inl rfl
  | some committed =>
    refine Or.inr ⟨?_, rfl⟩
    intro hzero
    exact hv key (hnode.trans (congrArg some hzero))

end PsyDashMemoryAppendOnlyMerkleRecorderStore

instance : LawfulMerkleStore (PsyDashMemoryAppendOnlyMerkleRecorderStore Hash) where
  Valid st := st.Valid
  valid_set _ _ _ h := h
  getHeight_set _ _ _ := rfl
  zero_eq _ _ := rfl
  get_set_of_ne st key value key' h := by
    show ((st.nodes key').or (update st.updatedNodes key (some value) key')).getD _ = _
    rw [update_of_ne h]
    rfl
  get_set_self st key value h := st.get_set_self key value h

end

end PsyNode.Store
