/-
PsyNode.Layout.Append
**APPENDING FIELDS TO A LAYOUT** — `LayoutAppendBatchWitness::validate` and what it
calls.

A batch opens one window of the tree of field hashes.  Its fields are put after
the hashes that are already there; the first zero of the window is the frontier.
-/
import PsyNode.Layout.Types

namespace PsyNode.Layout

open Merkle Lib

def stateLayoutAppendBatchDomain : Nat := 0x534c42415631

/-! ## §1. Fields against their types. -/

/-- Where the payload of a field of this type starts, from the start of the field: maps are
aligned. -/
def StateTypeLayoutWitness.expectedPayloadOffset {Hash : Type} (startSlot : Nat) :
    StateTypeLayoutWitness Hash → Nat
  | .fixedMap _ _ _ _ _ _ alignmentSlots =>
    (alignmentSlots - startSlot % alignmentSlots) % alignmentSlots
  | _ => 0

/-- The layout before and after one append. -/
structure LayoutAppendPublicInputs (Hash : Type) where
  contractId : Nat
  layoutVersion : Nat
  oldLayoutRoot : Hash
  oldLayoutFieldCount : Nat
  oldLayoutSlotCount : Nat
  newLayoutRoot : Hash
  newLayoutFieldCount : Nat
  newLayoutSlotCount : Nat
  appendedFieldCount : Nat
  appendedFieldsCommitment : Hash
deriving DecidableEq

/-- One append: the fields, their types and the window they go to. -/
structure LayoutAppendBatchWitness (Hash : Type) where
  spidermanUpdateProof : SpidermanUpdateProof Hash
  appendedFields : List (StateFieldLayoutLeaf Hash)
  appendedTypeLayouts : List (StateTypeLayoutWitness Hash)
  canonicalTypeProofs : List (List UInt8)
  publicInputs : LayoutAppendPublicInputs Hash

def getWebSubTreeHeight {Hash : Type} (proof : SpidermanUpdateProof Hash) : Nat :=
  Nat.log2 proof.webProofNewLeaves.length

/-- The height of the tree that the window is opened in. -/
def LayoutAppendBatchWitness.treeHeight {Hash : Type} (batch : LayoutAppendBatchWitness Hash) :
    Nat :=
  getWebSubTreeHeight batch.spidermanUpdateProof +
    batch.spidermanUpdateProof.topLineProof.siblings.length

section
variable {Hash : Type} [DecidableEq Hash]

/-- The counts of the inputs fit together. -/
def LayoutAppendPublicInputs.validateShape (inputs : LayoutAppendPublicInputs Hash) :
    Except String Unit :=
  if inputs.layoutVersion ≠ stateLayoutVersion then
    .error s!"unsupported layout version {inputs.layoutVersion}"
  else do
    let count ← checkedAdd inputs.oldLayoutFieldCount inputs.appendedFieldCount
      "layout field count overflow"
    if inputs.newLayoutFieldCount ≠ count then
      .error "layout field-count transition does not match appended count"
    else if ¬ inputs.oldLayoutSlotCount ≤ inputs.newLayoutSlotCount then
      .error "layout slot count cannot decrease"
    else if inputs.appendedFieldCount = 0 ∧ inputs.oldLayoutRoot ≠ inputs.newLayoutRoot then
      .error "identity layout transition must preserve the root"
    else if inputs.appendedFieldCount = 0 ∧
        inputs.oldLayoutSlotCount ≠ inputs.newLayoutSlotCount then
      .error "identity layout transition must preserve slot count"
    else .ok ()

theorem validateShape_eq_ok {t : LayoutAppendPublicInputs Hash} : t.validateShape = .ok () ↔
    t.layoutVersion = stateLayoutVersion ∧
    t.oldLayoutFieldCount + t.appendedFieldCount < 2 ^ 64 ∧
    t.newLayoutFieldCount = t.oldLayoutFieldCount + t.appendedFieldCount ∧
    t.oldLayoutSlotCount ≤ t.newLayoutSlotCount ∧
    (t.appendedFieldCount = 0 →
      t.oldLayoutRoot = t.newLayoutRoot ∧ t.oldLayoutSlotCount = t.newLayoutSlotCount) := by
  unfold LayoutAppendPublicInputs.validateShape
  simp only [ite_error_eq_ok, bind_eq_ok, checkedAdd_eq_ok, not_not, not_and, and_true]
  constructor
  · intro h
    obtain ⟨hversion, _, ⟨hbound, rfl⟩, hcount, hslots, hroot, hslot⟩ := h
    exact ⟨hversion, hbound, hcount, hslots, fun h0 => ⟨hroot h0, hslot h0⟩⟩
  · intro h
    obtain ⟨hversion, hbound, hcount, hslots, hid⟩ := h
    exact ⟨hversion, _, ⟨hbound, rfl⟩, hcount, hslots, fun h0 => (hid h0).1, fun h0 => (hid h0).2⟩

variable (F : Type) [QFelt64 F] [HashTo4Felts F Hash] [FieldQHasher F Hash] [MerkleHasher Hash]

/-- `Hash::default()`, the value of an empty leaf. -/
abbrev zeroHash : Hash := (HashTo4Felts.toInhabited F).default

/-- The field has the hash, payload offset and slot count of its type. -/
def StateTypeLayoutWitness.validateField (typeLayout : StateTypeLayoutWitness Hash)
    (field : StateFieldLayoutLeaf Hash) : Except String Unit := do
  let summary ← typeLayout.summary F
  if field.typeLayoutHash ≠ summary.typeLayoutHash then
    .error "field type-layout hash does not match its canonical preimage"
  else
    let expectedPayloadOffset := typeLayout.expectedPayloadOffset field.startSlot
    if field.payloadOffset ≠ expectedPayloadOffset then
      .error "field payload offset is not canonical for its type"
    else do
      let slots ← checkedAdd expectedPayloadOffset summary.totalSlotCount
        "field owned slot count overflow"
      if field.slotCount ≠ slots then
        .error "field owned slot count does not match its type and padding"
      else .ok ()

/-- The commitment to the appended fields. -/
def computeLayoutBatchCommitment (contractId oldLayoutFieldCount oldLayoutSlotCount
    appendedFieldCount : Nat) (fixedBatchFieldHashes : List Hash) : Except String Hash :=
  if ¬ appendedFieldCount ≤ fixedBatchFieldHashes.length then
    .error "appended field count exceeds fixed batch size"
  else
    let committedFieldCount :=
      (fixedBatchFieldHashes.filter (fun hash => hash ≠ zeroHash F)).length
    if committedFieldCount ≠ appendedFieldCount then
      .error (s!"batch commitment contains {committedFieldCount} non-zero field hashes, " ++
        s!"expected {appendedFieldCount}")
    else .ok (qHashMany
      ([stateLayoutAppendBatchDomain, contractId, oldLayoutFieldCount, oldLayoutSlotCount,
        appendedFieldCount].map fromU64Value ++ fixedBatchFieldHashes.flatMap (hashFelts F)))

/-! ## §2. The batch. -/

/-- A position of the window that takes a field: the slot after it. -/
def appendField (windowStart index nextSlot : Nat) (oldHash newHash : Hash)
    (typeLayout : StateTypeLayoutWitness Hash) (field : StateFieldLayoutLeaf Hash) :
    Except String Nat := do
  typeLayout.validateField F field
  if oldHash ≠ zeroHash F then .error s!"append position {index} was already occupied"
  else do
    let position ← checkedAdd windowStart index "layout field id overflow"
    let expectedFieldId ← checkedAdd position 1 "layout field id overflow"
    if field.fieldId ≠ expectedFieldId then .error "appended field id is not contiguous"
    else if field.startSlot ≠ nextSlot then .error "appended field slot range is not contiguous"
    else do
      let fieldHash ← field.hash F
      if newHash ≠ fieldHash then .error "new layout leaf does not match appended field"
      else checkedAdd nextSlot field.slotCount "layout slot frontier overflow"

variable (batch : LayoutAppendBatchWitness Hash)

/-- One position of the window, in the loop of `validate`. -/
def appendPosition (oldPrefixLen windowStart : Nat) (state : Nat × List Hash)
    (item : (Hash × Hash) × Nat) : Except String (Nat × List Hash) :=
  let ((oldHash, newHash), index) := item
  if index < oldPrefixLen then
    if oldHash ≠ newHash then .error s!"existing layout field {index} was modified"
    else .ok state
  else
    match batch.appendedFields[index - oldPrefixLen]?,
      batch.appendedTypeLayouts[index - oldPrefixLen]? with
    | some field, some typeLayout => do
      let nextSlot ← appendField F windowStart index state.1 oldHash newHash typeLayout field
      -- `new_hash` is the hash of the field
      .ok (nextSlot, state.2.set index newHash)
    | some _, none => .error "index out of bounds"
    | none, _ =>
      if ¬ (oldHash = zeroHash F ∧ newHash = zeroHash F) then
        .error "layout append has an uncommitted changed position"
      else .ok state

/-- The checks of `validate` before its loop. -/
def LayoutAppendBatchWitness.checkCounts : Except String Unit :=
  let oldLeaves := batch.spidermanUpdateProof.webProofOldLeaves
  let newLeaves := batch.spidermanUpdateProof.webProofNewLeaves
  if ¬ (oldLeaves.length = newLeaves.length ∧ ¬ oldLeaves.isEmpty ∧
      isPowerOfTwo oldLeaves.length) then
    .error "layout append window must be a non-empty power of two"
  else if batch.appendedFields.length ≠ batch.publicInputs.appendedFieldCount then
    .error "appended field witness length does not match public inputs"
  else if batch.appendedFields.length ≠ batch.appendedTypeLayouts.length then
    .error "every appended field must have one canonical type-layout witness"
  else if batch.appendedFields.length ≠ batch.canonicalTypeProofs.length then
    .error "every appended field must have one canonical type proof"
  else if ¬ batch.canonicalTypeProofs.all (fun proof => !proof.isEmpty) then
    .error "canonical type proof bytes cannot be empty"
  else .ok ()

/-- Every check on one append. -/
def LayoutAppendBatchWitness.validate : Except String Unit := do
  let inputs := batch.publicInputs
  let proof := batch.spidermanUpdateProof
  inputs.validateShape
  if !proof.verify then .error "invalid layout Spiderman update proof"
  else do
    batch.checkCounts
    let oldLeaves := proof.webProofOldLeaves
    let oldPrefixLen := (oldLeaves.takeWhile (fun hash => hash ≠ zeroHash F)).length
    let windowStart ← checkedMul proof.topLineProof.index oldLeaves.length
      "layout window index overflow"
    let frontier ← checkedAdd windowStart oldPrefixLen "layout field frontier overflow"
    if inputs.oldLayoutFieldCount ≠ frontier then
      .error "old layout field count is not the selected append frontier"
    else do
      let (nextSlot, fixedBatchHashes) ←
        (oldLeaves.zip proof.webProofNewLeaves).zipIdx.foldlM
          (appendPosition F batch oldPrefixLen windowStart)
          (inputs.oldLayoutSlotCount, List.replicate oldLeaves.length (zeroHash F))
      if ¬ (inputs.oldLayoutRoot = proof.topLineProof.oldRoot ∧
          inputs.newLayoutRoot = proof.topLineProof.newRoot) then
        .error "layout roots do not match Spiderman proof"
      else if inputs.newLayoutSlotCount ≠ nextSlot then
        .error "new layout slot count does not match appended fields"
      else do
        let expectedCommitment ← computeLayoutBatchCommitment F inputs.contractId
          inputs.oldLayoutFieldCount inputs.oldLayoutSlotCount batch.appendedFields.length
          fixedBatchHashes
        if inputs.appendedFieldsCommitment ≠ expectedCommitment then
          .error "appended fields commitment mismatch"
        else .ok ()

end

end PsyNode.Layout
