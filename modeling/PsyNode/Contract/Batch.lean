/-
PsyNode.Contract.Batch
**THE BATCH GADGETS OF CONTRACTS** — the constraints of `deploy_contract_v2.rs` and
`update_contract.rs` over one window of the contract tree, with the two variants of
`SpidermanAppendProofGadget` they use and `is_less_than_or_equal` at any width.

A hash is one value here, not four targets: its hash functions are to be free of
collisions, which no function into four field elements is.  `split_le` of a path's
index gives the bits of a number, and the wires of a window are functions of the
position.
-/
import PsyNode.Circuit.Comparison
import PsyNode.Contract.Leaf
import PsyNode.Layout.Append
import PsyNode.Lib.MerkleWindow

namespace PsyNode.Contract

open Circuit Layout Lib.Circuit Lib.Merkle Lib

/-! ## §1. Comparisons at any width. -/

/-- `split_canonical_low_high_32bits`: low and high half of the representative. -/
def splitCanonicalLowHigh32bits (x : Felt) : Circuit (Felt × Felt) := do
  let low ← virtual
  let high ← virtual
  rangeCheck low 32
  rangeCheck high 32
  connect (high * ((2 ^ 32 : Nat) : Felt) + low) x
  let highIsMax := isEqual high ((0xffffffff : Nat) : Felt)
  let lowIsNonzero := notTarget (isEqual low 0)
  connect (andTarget highIsMax lowIsNonzero) 0
  return (low, high)

def isLessThanOrEqualSplit (numBits : Nat) (x y : Felt) : Circuit BoolTarget :=
  if numBits ≤ 32 then listLteCircuit x y numBits
  else do
    let xs ← splitCanonicalLowHigh32bits x
    let ys ← splitCanonicalLowHigh32bits y
    let highLeq ← listLteCircuit xs.2 ys.2 32
    let lowLeq ← listLteCircuit xs.1 ys.1 32
    let equalHighBitsCase := andTarget (isEqual xs.2 ys.2) (notTarget lowLeq)
    return notTarget (orTarget (notTarget highLeq) equalHighBitsCase)

variable {numBits : Nat}

theorem listLteCircuit_sound (hpos : 0 < numBits) (hle : numBits ≤ 32) {x y : Felt} {b : BoolTarget}
    (h : (listLteCircuit x y numBits).Holds b) : b = ofBool (decide (x.val ≤ y.val)) := by
  obtain ⟨hk, hsize, hfits, _⟩ := chunks_fit numBits (by omega) hpos
  unfold listLteCircuit at h
  rw [(comparisonGate_computes rfl hk hsize hfits).holds_bind,
    (comparisonGate_computes rfl hk hsize hfits).holds_bind, holds_pure] at h
  rw [h.2.2, lte_of_comparisons]

/-- The halves are those of the representative: the alias above the order is excluded. -/
theorem splitCanonicalLowHigh32bits_sound {x : Felt} {halves : Felt × Felt}
    (h : (splitCanonicalLowHigh32bits x).Holds halves) :
    halves.1.val < 2 ^ 32 ∧ x.val = halves.2.val * 2 ^ 32 + halves.1.val := by
  unfold splitCanonicalLowHigh32bits rangeCheck connect at h
  simp only [holds_bind, holds_constrain, holds_virtual, holds_pure, exists_const, true_and] at h
  obtain ⟨low, high, hlow, hhigh, hsum, hcanonical, rfl⟩ := h
  have hmax : ((0xffffffff : Nat) : Felt).val = 0xffffffff := val_natCast_of_lt (by omega)
  rw [isEqual_eq, isEqual_eq, hmax, ZMod.val_zero, notTarget_ofBool, andTarget_ofBool] at hcanonical
  have hbound : high.val * 2 ^ 32 + low.val < 18446744069414584321 := by
    by_contra hge
    have htrue : (decide (high.val = 0xffffffff) && !decide (low.val = 0)) = true := by
      simp only [Bool.and_eq_true, Bool.not_eq_true', decide_eq_true_eq, decide_eq_false_iff_not]
      omega
    rw [htrue] at hcanonical
    cases hcanonical
  refine ⟨hlow, ?_⟩
  rw [← hsum, ← eq_natCast_iff hbound]
  push_cast
  rw [natCast_val, natCast_val]

theorem isLessThanOrEqualSplit_sound (hpos : 0 < numBits) {x y : Felt}
    (h : (isLessThanOrEqualSplit numBits x y).Holds 1) : x.val ≤ y.val := by
  unfold isLessThanOrEqualSplit at h
  by_cases hle : numBits ≤ 32
  · rw [if_pos hle] at h
    exact of_decide_eq_true (ofBool_eq_one.mp (listLteCircuit_sound hpos hle h).symm)
  · rw [if_neg hle] at h
    simp only [holds_bind, holds_pure] at h
    obtain ⟨xs, hxs, ys, hys, high, hhigh, low, hlow, hone⟩ := h
    obtain ⟨hxlow, hx⟩ := splitCanonicalLowHigh32bits_sound hxs
    obtain ⟨hylow, hy⟩ := splitCanonicalLowHigh32bits_sound hys
    rw [listLteCircuit_sound (by omega) (by omega) hhigh,
      listLteCircuit_sound (by omega) (by omega) hlow, isEqual_eq, notTarget_ofBool,
      notTarget_ofBool, andTarget_ofBool, orTarget_ofBool, notTarget_ofBool, eq_comm,
      ofBool_eq_one] at hone
    simp only [Bool.not_eq_true', Bool.or_eq_false_iff, Bool.not_eq_false', Bool.and_eq_false_iff,
      decide_eq_true_eq, decide_eq_false_iff_not] at hone
    omega

/-! ## §2. The gadgets. -/

variable {Hash : Type} [DecidableEq Hash]

/-- `LayoutAppendPublicInputsGadget`: the public inputs of a layout proof, as targets. -/
structure LayoutAppendPublicInputsGadget (Hash : Type) where
  contractId : Felt
  layoutVersion : Felt
  oldLayoutRoot : Hash
  oldLayoutFieldCount : Felt
  oldLayoutSlotCount : Felt
  newLayoutRoot : Hash
  newLayoutFieldCount : Felt
  newLayoutSlotCount : Felt
  appendedFieldCount : Felt
  appendedFieldsCommitment : Hash

variable (layout : LayoutAppendPublicInputsGadget Hash)

/-- The transition that public inputs stand for. -/
def LayoutAppendPublicInputsGadget.transition : LayoutAppendPublicInputs Hash where
  contractId := layout.contractId.val
  layoutVersion := layout.layoutVersion.val
  oldLayoutRoot := layout.oldLayoutRoot
  oldLayoutFieldCount := layout.oldLayoutFieldCount.val
  oldLayoutSlotCount := layout.oldLayoutSlotCount.val
  newLayoutRoot := layout.newLayoutRoot
  newLayoutFieldCount := layout.newLayoutFieldCount.val
  newLayoutSlotCount := layout.newLayoutSlotCount.val
  appendedFieldCount := layout.appendedFieldCount.val
  appendedFieldsCommitment := layout.appendedFieldsCommitment

/-- What the two circuits are built with.  `Verified` are the public inputs for which a layout
proof verifies. -/
structure BatchCircuits (Hash : Type) where
  zero : Hash
  twoToOne : Hash → Hash → Hash
  toHash : PQEDContractLeafV2 Felt Hash → Hash
  Verified : LayoutAppendPublicInputsGadget Hash → Prop
  topLineHeight : Nat
  batchSubTreeHeight : Nat
  stateLayoutTreeHeight : Nat
  maxContractStateTreeHeight : Nat
  max_lt : maxContractStateTreeHeight < 63

/-- `is_zero_hash` and `is_not_equal_hash`. -/
def isZeroHash (C : BatchCircuits Hash) (x : Hash) : BoolTarget := ofBool (decide (x = C.zero))

def isNotEqualHash (x y : Hash) : BoolTarget := notTarget (ofBool (decide (x = y)))

def connectIfTrue (condition : BoolTarget) (x y : Felt) : Circuit Unit :=
  connect x (select condition y x)

/-- `connect_hashes_if_true`: `select_hash(condition, y, x)` is `x` only without the condition, or
if the hashes agree. -/
def connectHashesIfTrue (condition : BoolTarget) (x y : Hash) : Circuit Unit :=
  constrain (condition = 0 ∨ x = y)

def LayoutAppendPublicInputsGadget.enforceShape : Circuit Unit := do
  connect layout.layoutVersion ((stateLayoutVersion : Nat) : Felt)
  connect layout.newLayoutFieldCount (layout.oldLayoutFieldCount + layout.appendedFieldCount)

/-- `SpidermanAppendProofGadget`: the index and siblings of the window, and its leaves. -/
structure SpidermanAppendProofGadget (Hash : Type) where
  index : Nat
  siblings : List Hash
  oldLeaves : Nat → Hash
  newLeaves : Nat → Hash

namespace SpidermanAppendProofGadget

variable (C : BatchCircuits Hash) (w : SpidermanAppendProofGadget Hash)

/-- The root that a window's leaves lead to. -/
def root (leaves : Nat → Hash) : Hash :=
  climb C.twoToOne (subRoot C.twoToOne leaves C.batchSubTreeHeight 0) w.index w.siblings

/-- The shape of the path. -/
def HasPath : Prop :=
  w.siblings.length = C.topLineHeight ∧ w.index < 2 ^ C.topLineHeight

/-- `added_leaves` of both variants. -/
def addedLeaf (i : Nat) : BoolTarget :=
  isNotEqualHash (w.oldLeaves i) (w.newLeaves i)

/-- `leaf_must_be_zero` behind position `i`. -/
def leafMustBeZero (C : BatchCircuits Hash) (w : SpidermanAppendProofGadget Hash) : Nat → BoolTarget
  | 0 => orTarget 0 (andTarget (isZeroHash C (w.oldLeaves 0)) (isZeroHash C (w.newLeaves 0)))
  | i + 1 => orTarget (leafMustBeZero C w i)
      (andTarget (isZeroHash C (w.oldLeaves (i + 1))) (isZeroHash C (w.newLeaves (i + 1))))

/-- One position of `add_virtual_to_allow_existing_leaves_prefix`. -/
def allowExisting (i : Nat) : Circuit Unit := do
  connectHashesIfTrue (notTarget (isZeroHash C (w.oldLeaves i))) (w.oldLeaves i) (w.newLeaves i)
  connectHashesIfTrue (leafMustBeZero C w i) (w.newLeaves i) C.zero
  connectHashesIfTrue (leafMustBeZero C w i) (w.oldLeaves i) C.zero

/-- One position of `add_virtual_to_allow_overwrite`. -/
def allowOverwrite (i : Nat) : Circuit Unit :=
  connect (andTarget (w.addedLeaf i) (isZeroHash C (w.oldLeaves i))) 0

/-- The contract id of position `i`. -/
def expectedContractId (i : Nat) : Felt :=
  (w.index : Felt) * ((1 <<< C.batchSubTreeHeight : Nat) : Felt) + (i : Felt)

end SpidermanAppendProofGadget

/-- One round of the loop over heights: the sums `valid_height` and `selected_capacity`.  The
capacity is computed in 64 bits. -/
def heightRound (stateTreeHeight : Felt) (sums : Felt × Felt) (height : Nat) : Felt × Felt :=
  let isHeight := isEqual stateTreeHeight (height : Felt)
  (sums.1 + isHeight, sums.2 + isHeight * (((1 <<< height) * 4 % 2 ^ 64 : Nat) : Felt))

/-- The wires of the batch-deploy gadget. -/
structure DeployWindow (Hash : Type) where
  spiderman : SpidermanAppendProofGadget Hash
  contractLeaves : Nat → PQEDContractLeafV2 Felt Hash
  contractIds : Nat → Felt
  layouts : Nat → LayoutAppendPublicInputsGadget Hash

variable (C : BatchCircuits Hash)

/-- One position of the batch-deploy gadget. -/
def DeployWindow.position (w : DeployWindow Hash) (i : Nat) : Circuit Unit := do
  w.spiderman.allowExisting C i
  let isAdded := w.spiderman.addedLeaf i
  let leaf := w.contractLeaves i
  let layout := w.layouts i
  constrain (C.Verified layout)
  connectHashesIfTrue isAdded (C.toHash leaf) (w.spiderman.newLeaves i)
  connectIfTrue isAdded (w.contractIds i) (w.spiderman.expectedContractId C i)
  connectIfTrue (notTarget isAdded) (w.contractIds i) 0
  layout.enforceShape
  connectIfTrue isAdded layout.contractId 0
  connectHashesIfTrue isAdded layout.oldLayoutRoot
    (zeroAt C.twoToOne C.zero C.stateLayoutTreeHeight)
  connectIfTrue isAdded layout.oldLayoutFieldCount 0
  connectIfTrue isAdded layout.oldLayoutSlotCount 0
  connectHashesIfTrue isAdded layout.newLayoutRoot leaf.stateLayoutRoot
  connectIfTrue isAdded layout.newLayoutFieldCount leaf.stateLayoutFieldCount
  connectIfTrue isAdded layout.newLayoutSlotCount leaf.stateLayoutSlotCount
  let sums := (List.range' 1 C.maxContractStateTreeHeight).foldl
    (heightRound leaf.stateTreeHeight) (0, 0)
  connectIfTrue isAdded sums.1 1
  let withinCapacity ← isLessThanOrEqualSplit (C.maxContractStateTreeHeight + 1)
    leaf.stateLayoutSlotCount sums.2
  connectIfTrue isAdded withinCapacity 1

/-- The wires of the batch-update gadget. -/
structure UpdateWindow (Hash : Type) where
  spiderman : SpidermanAppendProofGadget Hash
  oldContractLeaves : Nat → PQEDContractLeafV2 Felt Hash
  newContractLeaves : Nat → PQEDContractLeafV2 Felt Hash
  updatedContractIds : Nat → Felt
  layouts : Nat → LayoutAppendPublicInputsGadget Hash

/-- One position of the batch-update gadget. -/
def UpdateWindow.position (w : UpdateWindow Hash) (i : Nat) : Circuit Unit := do
  w.spiderman.allowOverwrite C i
  let isUpdated := w.spiderman.addedLeaf i
  let oldLeaf := w.oldContractLeaves i
  let newLeaf := w.newContractLeaves i
  let layout := w.layouts i
  constrain (C.Verified layout)
  connectHashesIfTrue isUpdated (C.toHash oldLeaf) (w.spiderman.oldLeaves i)
  connectHashesIfTrue isUpdated (C.toHash newLeaf) (w.spiderman.newLeaves i)
  connectIfTrue isUpdated (w.updatedContractIds i) (w.spiderman.expectedContractId C i)
  connectIfTrue (notTarget isUpdated) (w.updatedContractIds i) 0
  layout.enforceShape
  connectIfTrue isUpdated layout.contractId (w.spiderman.expectedContractId C i)
  connectHashesIfTrue isUpdated layout.oldLayoutRoot oldLeaf.stateLayoutRoot
  connectHashesIfTrue isUpdated layout.newLayoutRoot newLeaf.stateLayoutRoot
  connectIfTrue isUpdated layout.oldLayoutFieldCount oldLeaf.stateLayoutFieldCount
  connectIfTrue isUpdated layout.newLayoutFieldCount newLeaf.stateLayoutFieldCount
  connectIfTrue isUpdated layout.oldLayoutSlotCount oldLeaf.stateLayoutSlotCount
  connectIfTrue isUpdated layout.newLayoutSlotCount newLeaf.stateLayoutSlotCount
  connectIfTrue isUpdated oldLeaf.deployer newLeaf.deployer
  connectIfTrue isUpdated oldLeaf.stateTreeHeight newLeaf.stateTreeHeight

/-- The leaves of a contract tree have this root. -/
def BatchCircuits.treeRoot (tree : Nat → Hash) : Hash :=
  subRoot C.twoToOne tree (C.batchSubTreeHeight + C.topLineHeight) 0

/-- **ONE BATCH** takes a contract tree from the old root of its window to the new one; the update
windows are those that are `allowed`. -/
inductive BatchCircuits.Step (C : BatchCircuits Hash) (allowed : UpdateWindow Hash → Prop)
    (tree tree' : Nat → Hash) : Prop
  | deploy (w : DeployWindow Hash) : w.spiderman.HasPath C →
      (∀ i < 2 ^ C.batchSubTreeHeight, (w.position C i).Holds ()) →
      w.spiderman.root C w.spiderman.oldLeaves = C.treeRoot tree →
      w.spiderman.root C w.spiderman.newLeaves = C.treeRoot tree' → C.Step allowed tree tree'
  | update (w : UpdateWindow Hash) : allowed w → w.spiderman.HasPath C →
      (∀ i < 2 ^ C.batchSubTreeHeight, (w.position C i).Holds ()) →
      w.spiderman.root C w.spiderman.oldLeaves = C.treeRoot tree →
      w.spiderman.root C w.spiderman.newLeaves = C.treeRoot tree' → C.Step allowed tree tree'

end PsyNode.Contract
