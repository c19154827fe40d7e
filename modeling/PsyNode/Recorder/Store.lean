/-
PsyNode.Recorder.Store
**THE RECORDER STORE** — `SimpleMemoryMerkleRecorderStore` of
`mem_tree_recorder.rs`: a Merkle tree in memory that keeps its uncommitted
writes in a change map and in a journal, so that they can be undone.

A node's value lives in up to three places: the committed map `nodes`, the
change map `updatedNodes` that shadows it, and the journal of writes since the
last commit.  Every write of the store goes through `setNodeValue`.

The two `HashMap`s are functions to `Option`.  An operation that can bail
after some writes returns the store beside its result; one that bails only
before its first write returns `Except`.  A Rust panic (an index or shift out
of range) is an error here too: the panicking call does not succeed.
-/
import PsyNode.Merkle.Basic

namespace PsyNode.Recorder

open Merkle Lib.Merkle

/-! ## §1. State and node values. -/

/-- `JournalEntry`: one effective write. -/
structure JournalEntry (Hash : Type) where
  key : NodeKey
  oldValue : Hash
  newValue : Hash
deriving DecidableEq

/-- Committed nodes, the changes that shadow them, and the journal. -/
structure SimpleMemoryMerkleRecorderStore (Hash : Type) where
  nodes : NodeKey → Option Hash
  updatedNodes : NodeKey → Option Hash
  journal : List (JournalEntry Hash)
  height : Nat
  effectiveHeight : Nat

/-- The recorder store, for short. -/
abbrev RecorderStore (Hash : Type) := SimpleMemoryMerkleRecorderStore Hash

namespace SimpleMemoryMerkleRecorderStore

variable {Hash : Type}

/-- An empty tree. -/
def new (height : Nat) : RecorderStore Hash where
  nodes := fun _ => none
  updatedNodes := fun _ => none
  journal := []
  height := height
  effectiveHeight := height

variable [MerkleZeroHasher Hash] (st : RecorderStore Hash)

/-- The committed value. -/
def getLastCommitNode (key : NodeKey) : Hash :=
  match st.nodes key with
  | some v => v
  | none => getZeroHash (st.height - key.level)

/-- `get_node_value`.  The source asserts `height ≥ key.level` when it falls
through to the zero hash. -/
def getNodeValue (key : NodeKey) : Hash :=
  match st.updatedNodes key with
  | some v => v
  | none =>
    match st.nodes key with
    | some v => v
    | none => getZeroHash (st.height - key.level)

/-- The root. -/
def getRoot : Hash :=
  st.getNodeValue SimpleMerkleNodeKey.newRoot

/-- A leaf. -/
def getLeafValue (index : Nat) : Hash :=
  st.getNodeValue ⟨st.height, index⟩

/-- A node at the effective height. -/
def getELeafValue (index : Nat) : Hash :=
  st.getNodeValue ⟨st.effectiveHeight, index⟩

/-! ## §2. The journal. -/

/-- `snapshot`: a `SnapshotId` is a position in the journal. -/
def snapshot : Nat := st.journal.length

/-- `replay_node_at`: the last of the first `journalLen` journal entries that
wrote the key, else the committed value. -/
def replayNodeAt (journalLen : Nat) (key : NodeKey) : Hash :=
  match (st.journal.take (min journalLen st.journal.length)).reverse.find? (fun e => e.key = key)
  with
  | some e => e.newValue
  | none => st.getLastCommitNode key

/-- The value at a snapshot. -/
def getNodeValueAt (snapshot : Nat) (key : NodeKey) : Hash :=
  st.replayNodeAt snapshot key

variable [DecidableEq Hash]

/-- `set_node_value`: a write of the present value leaves no trace. -/
def setNodeValue (key : NodeKey) (value : Hash) : RecorderStore Hash :=
  let oldValue := st.getNodeValue key
  if oldValue = value then st
  else
    { st with
      updatedNodes := Function.update st.updatedNodes key (some value)
      journal := st.journal ++ [⟨key, oldValue, value⟩] }

/-- The journal becomes permanent. -/
def commitChanges : RecorderStore Hash :=
  { st with
    nodes := st.journal.foldl
      (fun nodes e => Function.update nodes e.key (some e.newValue)) st.nodes
    updatedNodes := fun _ => none
    journal := [] }

/-- One round of the loop of `revert_to`: a node that was untouched before the
entry leaves the change map, any other gets its old value back. -/
def undoEntry (updated : NodeKey → Option Hash) (entry : JournalEntry Hash) :
    NodeKey → Option Hash :=
  if entry.oldValue = getZeroHash (st.height - entry.key.level) ∧ st.nodes entry.key = none then
    Function.update updated entry.key none
  else
    Function.update updated entry.key (some entry.oldValue)

/-- `revert_to`: undo the journal from its end down to the snapshot, then drop
the changes that agree with the committed value. -/
def revertTo (snapshot : Nat) : RecorderStore Hash :=
  let start := min snapshot st.journal.length
  let updated := (st.journal.drop start).reverse.foldl st.undoEntry st.updatedNodes
  { st with
    journal := st.journal.take start
    updatedNodes := fun key =>
      match updated key with
      | some value => if st.nodes key = some value then none else some value
      | none => none }

/-- Undoes the whole journal. -/
def revertChanges : RecorderStore Hash :=
  st.revertTo 0

/-! ## §3. Proofs and single-leaf writes. -/

/-- The loop that collects the siblings of a leaf: read a node, step to the
sibling of its parent, stop at the root level. -/
def readSiblings (read : NodeKey → Hash) : Nat → NodeKey → List Hash
  | 0, _ => []
  | n + 1, currentSibling =>
    read currentSibling :: readSiblings read n currentSibling.parent.sibling

/-- The common body of `get_leaf`, `get_e_leaf` and `get_leaf_at`: a Merkle
proof for the node `(level, index)`, every value read through `read`. -/
def readProof (read : NodeKey → Hash) (level index : Nat) : MerkleProofCore Hash where
  index := index
  siblings := readSiblings read level (SimpleMerkleNodeKey.sibling ⟨level, index⟩)
  root := read SimpleMerkleNodeKey.newRoot
  value := read ⟨level, index⟩

/-- A proof of a leaf. -/
def getLeaf (index : Nat) : MerkleProofCore Hash :=
  readProof st.getNodeValue st.height index

/-- A proof at the effective height. -/
def getELeaf (index : Nat) : MerkleProofCore Hash :=
  readProof st.getNodeValue st.effectiveHeight index

/-- A proof at a snapshot. -/
def getLeafAt (snapshot index : Nat) : MerkleProofCore Hash :=
  readProof (st.getNodeValueAt snapshot) st.height index

/-- The loop of `set_leaf` and `set_e_leaf`: write the running value, hash it
with the next sibling of the OLD proof, step to the parent. -/
def setPath : List Hash → NodeKey → Hash → RecorderStore Hash → RecorderStore Hash × Hash
  | [], currentKey, currentValue, st => (st.setNodeValue currentKey currentValue, currentValue)
  | sibling :: siblings, currentKey, currentValue, st =>
    setPath siblings currentKey.parent
      (if currentKey.index &&& 1 = 0 then twoToOne currentValue sibling
        else twoToOne sibling currentValue)
      (st.setNodeValue currentKey currentValue)

/-- The common body of `set_leaf` and `set_e_leaf`. -/
def setLeafFrom (oldProof : MerkleProofCore Hash) (level index : Nat) (value : Hash) :
    RecorderStore Hash × DeltaMerkleProofCore Hash :=
  let (st', newRoot) := setPath oldProof.siblings ⟨level, index⟩ value st
  (st', { oldRoot := oldProof.root, oldValue := oldProof.value, newRoot := newRoot,
          newValue := value, siblings := oldProof.siblings, index := index })

/-- Writes a leaf. -/
def setLeaf (index : Nat) (value : Hash) : RecorderStore Hash × DeltaMerkleProofCore Hash :=
  st.setLeafFrom (st.getLeaf index) st.height index value

/-- Writes at the effective height. -/
def setELeaf (index : Nat) (value : Hash) : RecorderStore Hash × DeltaMerkleProofCore Hash :=
  st.setLeafFrom (st.getELeaf index) st.effectiveHeight index value

/-- The same, for the root alone. -/
def setELeafNoProof (index : Nat) (value : Hash) : RecorderStore Hash × Hash :=
  setPath (st.getELeaf index).siblings ⟨st.effectiveHeight, index⟩ value st

/-! ## §4. Rehashing. -/

/-- Hashes the ancestors. -/
def rehashFromNodeToLevel (node : NodeKey) (rootLevel : Nat) : RecorderStore Hash :=
  go (node.level - rootLevel) node (st.getNodeValue node) st
where
  go : Nat → NodeKey → Hash → RecorderStore Hash →
      RecorderStore Hash
  | 0, _, _, st => st
  | n + 1, current, currentValue, st =>
    let siblingValue := st.getNodeValue current.sibling
    let parentValue :=
      if current.index &&& 1 = 1 then twoToOne siblingValue currentValue
      else twoToOne currentValue siblingValue
    go n current.parent parentValue (st.setNodeValue current.parent parentValue)

/-- Write the values one after another, from index `start` on. -/
def setRun (st : RecorderStore Hash) (level : Nat) : Nat → List Hash → RecorderStore Hash
  | _, [] => st
  | start, v :: vs => setRun (st.setNodeValue ⟨level, start⟩ v) level (start + 1) vs

/-- The first loop of `rehash_sub_tree`: hash `n` neighbouring pairs of nodes
of `level`, from index `base` on, into their parents. -/
def hashPairs (level base : Nat) : Nat → Nat → List Hash →
    RecorderStore Hash → RecorderStore Hash × List Hash
  | 0, _, childValues, st => (st, childValues)
  | n + 1, i, childValues, st =>
    let leftKey : NodeKey := ⟨level, i * 2 + base⟩
    let v := twoToOne (st.getNodeValue leftKey) (st.getNodeValue leftKey.sibling)
    hashPairs level base n (i + 1) (childValues ++ [v]) (st.setNodeValue leftKey.parent v)

/-- The `while` loop of `rehash_sub_tree`: the values of one level of the window
are kept in a vector, and paired up into the next, `n` levels in all. -/
def foldWindow : Nat → NodeKey → List Hash → RecorderStore Hash →
    RecorderStore Hash × NodeKey × List Hash
  | 0, childBaseKey, childValues, st => (st, childBaseKey, childValues)
  | n + 1, childBaseKey, childValues, st =>
    let parentValues := pairUp twoToOne childValues
    foldWindow n childBaseKey.parent parentValues
      (st.setRun (childBaseKey.level - 1) (childBaseKey.index >>> 1) parentValues)

variable (subTreeHeight subTreeIndex : Nat)

/-- `rehash_sub_tree`, for a sub-tree that fits in the tree.  A sub-tree of
height 0 is a leaf: nothing is rehashed, not even the path above it. -/
def rehashSubTree : RecorderStore Hash :=
  match subTreeHeight with
  | 0 => st
  | 1 =>
    let leftKey : NodeKey := ⟨st.height, subTreeIndex * 2⟩
    let v := twoToOne (st.getNodeValue leftKey) (st.getNodeValue leftKey.sibling)
    (st.setNodeValue leftKey.parent v).rehashFromNodeToLevel leftKey.parent 0
  | k + 2 =>
    let childBaseKey : NodeKey := ⟨st.height, subTreeIndex * (1 <<< (k + 2))⟩
    let (st, childValues) := hashPairs st.height childBaseKey.index (1 <<< (k + 1)) 0 [] st
    let (st, childBaseKey, _) := foldWindow (k + 1) childBaseKey.parent childValues st
    st.rehashFromNodeToLevel childBaseKey 0

theorem rehashSubTree_add_two (k i : Nat) : st.rehashSubTree (k + 2) i =
      let base := hashPairs st.height (i * (1 <<< (k + 2))) (1 <<< (k + 1)) 0 [] st
      let top := foldWindow (k + 1)
        (SimpleMerkleNodeKey.parent ⟨st.height, i * (1 <<< (k + 2))⟩) base.2 base.1
      top.1.rehashFromNodeToLevel top.2.1 0 := rfl

/-- `rehash_sub_tree_dmp`: the delta proof of a sub-tree root around
`rehash_sub_tree`.  The old values are read before, the siblings after. -/
def rehashSubTreeDmp : Except String (RecorderStore Hash × DeltaMerkleProofCore Hash) :=
  if st.height < subTreeHeight then .error "attempt to subtract with overflow"
  else
    let subRootNode : NodeKey := ⟨st.height - subTreeHeight, subTreeIndex⟩
    let st' := st.rehashSubTree subTreeHeight subTreeIndex
    .ok (st', {
      oldRoot := st.getRoot
      oldValue := st.getNodeValue subRootNode
      newRoot := st'.getRoot
      newValue := st'.getNodeValue subRootNode
      index := subTreeIndex
      siblings := subRootNode.siblings.map st'.getNodeValue })

/-- The inner loop of `rehash_range`: recompute `n` nodes of `parentLevel`, from
`parentIndex` on, out of the two nodes below each. -/
def rehashParents (parentLevel : Nat) : Nat → Nat → RecorderStore Hash → RecorderStore Hash
  | 0, _, st => st
  | n + 1, parentIndex, st =>
    let leftVal := st.getNodeValue ⟨parentLevel + 1, parentIndex <<< 1⟩
    let rightVal := st.getNodeValue ⟨parentLevel + 1, (parentIndex <<< 1) + 1⟩
    rehashParents parentLevel n (parentIndex + 1)
      (st.setNodeValue ⟨parentLevel, parentIndex⟩ (twoToOne leftVal rightVal))

/-- `rehash_range` on a half-open range of nodes. -/
def rehashRange (nodeBaseLevel start stop : Nat) : RecorderStore Hash :=
  if stop ≤ start then st else go nodeBaseLevel start stop st
where
  go : Nat → Nat → Nat → RecorderStore Hash →
      RecorderStore Hash
  | 0, _, _, st => st
  | parentLevel + 1, start, stop, st =>
    let parentStart := start >>> 1
    let parentEnd := ((stop - 1) >>> 1) + 1
    go parentLevel parentStart parentEnd
      (rehashParents parentLevel (parentEnd - parentStart) parentStart st)

/-! ## §5. Batched writes. -/

/-- Writes a run of leaves, then rehashes. -/
def fastBatchSetLeaves (startIndex : Nat) (values : List Hash) : RecorderStore Hash :=
  (st.setRun st.height startIndex values).rehashRange st.height startIndex
    (startIndex + values.length)

/-- `find_first_non_zero_leaf` (which finds the first leaf of the first sub-tree
that IS zero, left to right); `n` is the height of the sub-tree under `node`. -/
def findFirstNonZeroLeaf (st : RecorderStore Hash) : Nat → NodeKey → Option Nat
  | 0, node =>
    if st.getNodeValue node = getZeroHash (st.height - node.level) then
      some (node.firstLeafChild st.height).index
    else none
  | n + 1, node =>
    if st.getNodeValue node = getZeroHash (st.height - node.level) then
      some (node.firstLeafChild st.height).index
    else
      match st.findFirstNonZeroLeaf n node.leftChild with
      | some ind => some ind
      | none => st.findFirstNonZeroLeaf n node.rightChild

/-- The first zero leaf. -/
def findNextAppendIndex : Except String Nat :=
  if st.getRoot = getZeroHash st.height then .ok 0
  else if st.height = 0 then .error "tree is full"
  else
    match st.findFirstNonZeroLeaf st.height SimpleMerkleNodeKey.newRoot with
    | some ind => .ok ind
    | none => .error "tree is full"

/-- Division, rounded up. -/
def ceilDivUsize (a b : Nat) : Nat := (a + b - 1) / b

/-- One window of `append_leaves_spider_man_at_index`: write the new leaves, rehash the
window, and keep the proof. -/
def appendWindow (subTreeHeight subTreeId : Nat) (firstIndex : Nat)
    (written oldLeaves newLeaves : List Hash) :
    Except String (RecorderStore Hash × SpidermanUpdateProof Hash) := do
  let (st, dmp) ← (st.setRun st.height firstIndex written).rehashSubTreeDmp subTreeHeight subTreeId
  return (st, ⟨dmp, oldLeaves, newLeaves⟩)

/-- The windows of `append_leaves_spider_man_at_index` between the first and the last:
each takes the next `leavesPerSubtree` leaves. -/
def appendMiddle (subTreeHeight leavesPerSubtree curSubTreeId : Nat) :
    Nat → Nat → List Hash → RecorderStore Hash →
    Except String (RecorderStore Hash × List (SpidermanUpdateProof Hash))
  | 0, _, _, st => .ok (st, [])
  | n + 1, t, leaves, st => do
    let newLeaves := leaves.take leavesPerSubtree
    let (st, proof) ← st.appendWindow subTreeHeight (1 + curSubTreeId + t)
      ((curSubTreeId + t + 1) * leavesPerSubtree) newLeaves
      (List.replicate leavesPerSubtree (getZeroHash 0)) newLeaves
    let (st, proofs) ← appendMiddle subTreeHeight leavesPerSubtree curSubTreeId n (t + 1)
      (leaves.drop leavesPerSubtree) st
    return (st, proof :: proofs)

/-- The windows of `append_leaves_spider_man_at_index`: the first keeps the leaves
before the append index, the last is filled up with zero leaves. -/
def appendWindows (subTreeHeight leavesPerSubtree appendIndex : Nat) (leaves : List Hash) :
    Except String (RecorderStore Hash × List (SpidermanUpdateProof Hash)) :=
  let curSubTreeId := appendIndex / leavesPerSubtree
  let curSubTreeLeafIndex := appendIndex &&& (leavesPerSubtree - 1)
  let subtreeCount := ceilDivUsize (appendIndex + leaves.length) leavesPerSubtree - curSubTreeId
  if subtreeCount = 0 then .ok (st, [])
  else do
    -- ===== first window =====
    let startExistingIndex := curSubTreeId * leavesPerSubtree
    let startAddedIndex := startExistingIndex + curSubTreeLeafIndex
    let existing := (List.range' startExistingIndex curSubTreeLeafIndex).map st.getLeafValue
    let leavesUsed := leavesPerSubtree - curSubTreeLeafIndex
    let added := leaves.take leavesUsed
    let zeros :=
      List.replicate (leavesPerSubtree - (existing.length + added.length)) (getZeroHash 0)
    let (st, first) ← st.appendWindow subTreeHeight curSubTreeId startAddedIndex added
      (existing ++ List.replicate leavesUsed (getZeroHash 0)) (existing ++ added ++ zeros)
    -- ===== full windows, when there are more than two in all =====
    let (st, middle) ← appendMiddle subTreeHeight leavesPerSubtree curSubTreeId (subtreeCount - 2) 0
      (leaves.drop leavesUsed) st
    -- ===== last window, padded with zero leaves =====
    if subtreeCount > 1 then
      let rest := leaves.drop (leavesUsed + (subtreeCount - 2) * leavesPerSubtree)
      let (st, last) ← st.appendWindow subTreeHeight (curSubTreeId + (subtreeCount - 1))
        ((curSubTreeId + subtreeCount - 1) * leavesPerSubtree) rest
        (List.replicate leavesPerSubtree (getZeroHash 0))
        (rest ++ List.replicate (leavesPerSubtree - rest.length) (getZeroHash 0))
      return (st, first :: middle ++ [last])
    else
      return (st, first :: middle)

/-- Appends from a given index on. -/
def appendLeavesSpiderManAtIndex (subTreeHeight appendIndex : Nat) (leaves : List Hash) :
    Except String (RecorderStore Hash × List (SpidermanUpdateProof Hash)) := do
  let leavesPerSubtree ← shl64 subTreeHeight
  let maxLeaves ← shl64 st.height
  if appendIndex + leaves.length > maxLeaves then
    .error s!"tree cannot fit an additional {leaves.length} leaves"
  else st.appendWindows subTreeHeight leavesPerSubtree appendIndex leaves

/-- `append_leaves_spider_man`: the body of `append_leaves_spider_man_at_index` at
the index that `find_next_append_index` gives. -/
def appendLeavesSpiderMan (subTreeHeight : Nat) (leaves : List Hash) :
    Except String (RecorderStore Hash × List (SpidermanUpdateProof Hash)) := do
  let appendIndex ← st.findNextAppendIndex
  st.appendLeavesSpiderManAtIndex subTreeHeight appendIndex leaves

/-- The inner loop of `update_leaves_spider_man`: write the updates of the
window `subTreeId` and stop at the first update of a later window. -/
def writeUpdates (leavesPerSubtree maxLeaves subTreeId : Nat) : List (Nat × Hash) → List Hash →
    RecorderStore Hash → Except String (List (Nat × Hash) × List Hash) × RecorderStore Hash
  | [], newLeaves, st => (.ok ([], newLeaves), st)
  | (index, value) :: rest, newLeaves, st =>
    if index / leavesPerSubtree = subTreeId then
      if index ≥ maxLeaves then
        (.error s!"leaf index {index} exceeds tree capacity {maxLeaves}", st)
      else
        writeUpdates leavesPerSubtree maxLeaves subTreeId rest
          (newLeaves.set (index - subTreeId * leavesPerSubtree) value)
          (st.setNodeValue ⟨st.height, index⟩ value)
    else (.ok ((index, value) :: rest, newLeaves), st)

/-- The outer loop of `update_leaves_spider_man`, one round per window; `fuel` is
at least the number of updates left. -/
def updateWindows (subTreeHeight leavesPerSubtree maxLeaves : Nat) : Nat → List (Nat × Hash) →
    RecorderStore Hash → Except String (List (SpidermanUpdateProof Hash)) × RecorderStore Hash
  | 0, _, st => (.ok [], st)
  | _ + 1, [], st => (.ok [], st)
  | fuel + 1, update :: updates, st =>
    let subTreeId := update.1 / leavesPerSubtree
    let oldLeaves := (List.range' (subTreeId * leavesPerSubtree) leavesPerSubtree).map
      st.getLeafValue
    match writeUpdates leavesPerSubtree maxLeaves subTreeId (update :: updates) oldLeaves st with
    | (.error e, st) => (.error e, st)
    | (.ok (rest, newLeaves), st) =>
      match st.rehashSubTreeDmp subTreeHeight subTreeId with
      | .error e => (.error e, st)
      | .ok (st, dmp) =>
        match updateWindows subTreeHeight leavesPerSubtree maxLeaves fuel rest st with
        | (.error e, st) => (.error e, st)
        | (.ok results, st) => (.ok (⟨dmp, oldLeaves, newLeaves⟩ :: results), st)

/-- The index that stands twice in a row, if any. -/
def firstDuplicate : List (Nat × Hash) → Option Nat
  | a :: b :: rest => if a.1 = b.1 then some a.1 else firstDuplicate (b :: rest)
  | _ => none

/-- `update_leaves_spider_man`: sort by index, refuse duplicates, then one round
per window. -/
def updateLeavesSpiderMan (subTreeHeight : Nat) (leafIndices : List Nat) (leaves : List Hash) :
    Except String (List (SpidermanUpdateProof Hash)) × RecorderStore Hash :=
  if leafIndices.length ≠ leaves.length then
    (.error s!"leaf_indices len {leafIndices.length} does not match leaves len {leaves.length}", st)
  else
    match shl64 subTreeHeight, shl64 st.height with
    | .ok leavesPerSubtree, .ok maxLeaves =>
      let sortedUpdates := (leafIndices.zip leaves).insertionSort (fun a b => a.1 ≤ b.1)
      match firstDuplicate sortedUpdates with
      | some index =>
        (.error s!"duplicate leaf index {index} in update_leaves_spider_man", st)
      | none =>
        updateWindows subTreeHeight leavesPerSubtree maxLeaves sortedUpdates.length
          sortedUpdates st
    | _, _ => (.error "attempt to shift left with overflow", st)

end SimpleMemoryMerkleRecorderStore

end PsyNode.Recorder
