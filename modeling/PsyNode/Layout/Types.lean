/-
PsyNode.Layout.Types
**STATE LAYOUTS** — the canonical type layouts of `layout.rs`: how many slots a
type takes, and the hash that commits to its shape.

Slot counts are 64-bit numbers; every addition and multiplication of the source
is checked, and so it is here.
-/
import PsyNode.Lib.ExceptBind
import PsyNode.Merkle.Felt

namespace PsyNode.Layout

open Merkle Lib

/-! ## §1. Constants, tags and checked arithmetic. -/

/-- Version of a layout. -/
def stateLayoutVersion : Nat := 1

/-- Version of the encodings below. -/
def stateLayoutEncodingVersion : Nat := 1

/-- `STFLV1`. -/
def stateFieldLayoutDomain : Nat := 0x5354464c5631

/-- `STMLV1`. -/
def structMemberLayoutDomain : Nat := 0x53544d4c5631

/-- `STTYV1`. -/
def structTypeLayoutDomain : Nat := 0x535454595631

/-- `PRTYV1`. -/
def primitiveTypeLayoutDomain : Nat := 0x505254595631

/-- `ARTYV1`. -/
def fixedArrayTypeLayoutDomain : Nat := 0x415254595631

/-- `MPTYV1`. -/
def fixedMapTypeLayoutDomain : Nat := 0x4d5054595631

/-- The primitive types. -/
inductive StatePrimitiveTypeTag
  | felt
  | bool
  | u32
  | u64
  | u128
  | hash
  | bytes32
deriving DecidableEq

/-- The number of a tag. -/
def StatePrimitiveTypeTag.toNat : StatePrimitiveTypeTag → Nat
  | .felt => 1
  | .bool => 2
  | .u32 => 3
  | .u64 => 4
  | .u128 => 5
  | .hash => 6
  | .bytes32 => 7

/-- The name of a tag, as the source prints it. -/
def StatePrimitiveTypeTag.name : StatePrimitiveTypeTag → String
  | .felt => "Felt"
  | .bool => "Bool"
  | .u32 => "U32"
  | .u64 => "U64"
  | .u128 => "U128"
  | .hash => "Hash"
  | .bytes32 => "Bytes32"

/-- The kinds of maps. -/
inductive StateMapKind
  | contractHashMap
  | map
  | namespacedMap
deriving DecidableEq

/-- The number of a kind. -/
def StateMapKind.toNat : StateMapKind → Nat
  | .contractHashMap => 1
  | .map => 2
  | .namespacedMap => 3

/-- Slots of a primitive type. -/
def canonicalPrimitiveSlotWidth : StatePrimitiveTypeTag → Nat
  | .felt | .bool | .u32 | .u64 => 1
  | .u128 => 2
  | .hash | .bytes32 => 4

/-- `checked_add` on `u64`. -/
def checkedAdd (a b : Nat) (message : String) : Except String Nat :=
  if a + b < 2 ^ 64 then .ok (a + b) else .error message

/-- `checked_mul` on `u64`. -/
def checkedMul (a b : Nat) (message : String) : Except String Nat :=
  if a * b < 2 ^ 64 then .ok (a * b) else .error message

/-- `is_power_of_two`. -/
def isPowerOfTwo (n : Nat) : Bool := n ≠ 0 ∧ 2 ^ Nat.log2 n = n

/-- The leaves of a tree; the height is taken to `u32` first. -/
def checkedCapacity (treeHeight : Nat) : Except String Nat :=
  if ¬ treeHeight < 2 ^ 32 then .error "out of range integral type conversion attempted"
  else if treeHeight < 64 then .ok (2 ^ treeHeight)
  else .error s!"layout tree height {treeHeight} exceeds usize capacity"

variable {message : String}

theorem checkedAdd_eq_ok {a b n : Nat} :
    checkedAdd a b message = .ok n ↔ a + b < 2 ^ 64 ∧ a + b = n := by
  unfold checkedAdd
  rw [ite_else_error_eq_ok, Except.ok.injEq]

theorem checkedMul_eq_ok {a b n : Nat} :
    checkedMul a b message = .ok n ↔ a * b < 2 ^ 64 ∧ a * b = n := by
  unfold checkedMul
  rw [ite_else_error_eq_ok, Except.ok.injEq]

theorem checkedCapacity_eq_ok {treeHeight capacity : Nat} :
    checkedCapacity treeHeight = .ok capacity ↔ treeHeight < 64 ∧ 2 ^ treeHeight = capacity := by
  unfold checkedCapacity
  rw [ite_error_eq_ok, ite_else_error_eq_ok, Except.ok.injEq, not_not]
  constructor
  · intro h
    exact h.2
  · intro h
    exact ⟨by omega, h⟩

/-! ## §2. Type layouts. -/

/-- What a type is hashed to, and its slots. -/
structure StateTypeLayoutSummary (Hash : Type) where
  typeLayoutHash : Hash
  totalSlotCount : Nat
deriving DecidableEq

/-- A member at its offset. -/
structure StructMemberLayout (Hash : Type) where
  memberId : Nat
  slotOffset : Nat
  slotCount : Nat
  memberTypeHash : Hash
  encodingVersion : Nat
deriving DecidableEq

/-- A struct with its members and their root. -/
structure StructTypeLayout (Hash : Type) where
  members : List (StructMemberLayout Hash)
  membersRoot : Hash
  summary : StateTypeLayoutSummary Hash
deriving DecidableEq

section
variable (F : Type) {Hash : Type} [QFelt64 F] [HashTo4Felts F Hash] [FieldQHasher F Hash]
  [MerkleHasher Hash] [DecidableEq Hash]

/-- The four field elements of a hash. -/
def hashFelts (hash : Hash) : List F := (List.finRange 4).map (to4Felts hash)

/-- A hash that must not be zero. -/
def nonzeroHash (felts : List F) (message : String) : Except String Hash :=
  let hash : Hash := qHashMany felts
  if hash = (HashTo4Felts.toInhabited F).default then .error message else .ok hash

/-- A primitive type. -/
def primitiveTypeLayout (typeTag : StatePrimitiveTypeTag) (canonicalSlotWidth : Nat) :
    Except String (StateTypeLayoutSummary Hash) :=
  let expectedSlotWidth := canonicalPrimitiveSlotWidth typeTag
  if canonicalSlotWidth ≠ expectedSlotWidth then
    .error s!"primitive {typeTag.name} occupies {expectedSlotWidth} slots, not {canonicalSlotWidth}"
  else do
    let typeLayoutHash ← nonzeroHash F
      ([primitiveTypeLayoutDomain, typeTag.toNat, stateLayoutEncodingVersion].map fromU64Value)
      "primitive type hashes to zero"
    .ok ⟨typeLayoutHash, canonicalSlotWidth⟩

/-- An array: its length times its element. -/
def fixedArrayTypeLayout (element : StateTypeLayoutSummary Hash) (arrayLength : Nat) :
    Except String (StateTypeLayoutSummary Hash) :=
  if ¬ 0 < arrayLength then .error "fixed array length must be non-zero"
  else if ¬ 0 < element.totalSlotCount then .error "fixed array element must occupy slots"
  else do
    let totalSlotCount ←
      checkedMul arrayLength element.totalSlotCount "fixed array slot count overflow"
    let typeLayoutHash ← nonzeroHash F
      ([fromU64Value fixedArrayTypeLayoutDomain] ++ hashFelts F element.typeLayoutHash ++
        [arrayLength, element.totalSlotCount, totalSlotCount, stateLayoutEncodingVersion].map
          fromU64Value)
      "fixed array type hashes to zero"
    .ok ⟨typeLayoutHash, totalSlotCount⟩

/-- A map: its capacity times its value. -/
def fixedMapTypeLayout (mapKind : StateMapKind) (key value : StateTypeLayoutSummary Hash)
    (capacity alignmentSlots : Nat) : Except String (StateTypeLayoutSummary Hash) :=
  if ¬ 0 < capacity then .error "fixed map capacity must be non-zero"
  else if ¬ (0 < alignmentSlots ∧ isPowerOfTwo alignmentSlots) then
    .error "fixed map alignment must be a non-zero power of two"
  else do
    let totalSlotCount ← checkedMul capacity value.totalSlotCount "fixed map slot count overflow"
    let typeLayoutHash ← nonzeroHash F
      ([fixedMapTypeLayoutDomain, mapKind.toNat].map fromU64Value ++
        hashFelts F key.typeLayoutHash ++ [fromU64Value key.totalSlotCount] ++
        hashFelts F value.typeLayoutHash ++
        [value.totalSlotCount, capacity, alignmentSlots, totalSlotCount,
          stateLayoutEncodingVersion].map fromU64Value)
      "fixed map type hashes to zero"
    .ok ⟨typeLayoutHash, totalSlotCount⟩

/-- Ids count from 1. -/
def StructMemberLayout.new (memberIndex slotOffset : Nat)
    (typeLayout : StateTypeLayoutSummary Hash) : Except String (StructMemberLayout Hash) :=
  if ¬ 0 < typeLayout.totalSlotCount then
    .error s!"struct member at index {memberIndex} must occupy at least one slot"
  else do
    let memberId ← checkedAdd memberIndex 1 "struct member id overflow"
    .ok ⟨memberId, slotOffset, typeLayout.totalSlotCount, typeLayout.typeLayoutHash,
      stateLayoutEncodingVersion⟩

/-- The leaf of a member. -/
def StructMemberLayout.hash (member : StructMemberLayout Hash) : Except String Hash :=
  if ¬ 0 < member.memberId then .error "struct member id must be non-zero"
  else if ¬ 0 < member.slotCount then .error "struct member slot count must be non-zero"
  else if member.encodingVersion ≠ stateLayoutEncodingVersion then
    .error s!"unsupported struct member encoding version {member.encodingVersion}"
  else
    nonzeroHash F
      ([structMemberLayoutDomain, member.memberId, member.slotOffset, member.slotCount].map
          fromU64Value ++ hashFelts F member.memberTypeHash ++
        [fromU64Value member.encodingVersion])
      "occupied struct member leaf hashes to zero"

/-- The root over leaves followed by zeros. -/
def paddedMerkleRoot (occupiedLeaves : List Hash) (treeHeight : Nat) : Except String Hash := do
  let capacity ← checkedCapacity treeHeight
  if ¬ occupiedLeaves.length ≤ capacity then
    .error s!"{occupiedLeaves.length} occupied leaves exceed tree capacity {capacity}"
  else
    computeRootFromLeaves (occupiedLeaves ++
      List.replicate (capacity - occupiedLeaves.length) (HashTo4Felts.toInhabited F).default)

/-- The loop of `struct_type_layout`: the members with their hashes, and the slots they take. -/
def structMembers : Nat → Nat → List (StateTypeLayoutSummary Hash) →
    Except String (List (StructMemberLayout Hash × Hash) × Nat)
  | _, slotOffset, [] => .ok ([], slotOffset)
  | index, slotOffset, memberType :: memberTypes => do
    let member ← StructMemberLayout.new index slotOffset memberType
    let hash ← member.hash F
    let slotOffset ← checkedAdd slotOffset member.slotCount "struct slot count overflow"
    let (members, total) ← structMembers (index + 1) slotOffset memberTypes
    .ok ((member, hash) :: members, total)

/-- The commitment to a struct, from its members' count, slots and root. -/
def structTypeHash (memberCount totalSlotCount : Nat) (membersRoot : Hash) : Except String Hash :=
  nonzeroHash F
    ([structTypeLayoutDomain, memberCount, totalSlotCount].map fromU64Value ++
      hashFelts F membersRoot ++ [fromU64Value stateLayoutEncodingVersion])
    "struct type hashes to zero"

/-- A struct: its members in a row. -/
def structTypeLayout (memberTypes : List (StateTypeLayoutSummary Hash))
    (membersTreeHeight : Nat) : Except String (StructTypeLayout Hash) :=
  if memberTypes.isEmpty then .error "empty structs are not supported"
  else do
    let capacity ← checkedCapacity membersTreeHeight
    if ¬ memberTypes.length ≤ capacity then
      .error s!"{memberTypes.length} struct members exceed members-tree capacity {capacity}"
    else do
      let (members, slotOffset) ← structMembers F 0 0 memberTypes
      let membersRoot ← paddedMerkleRoot F (members.map Prod.snd) membersTreeHeight
      let typeLayoutHash ← structTypeHash F members.length slotOffset membersRoot
      .ok ⟨members.map Prod.fst, membersRoot, ⟨typeLayoutHash, slotOffset⟩⟩

end

/-! ## §3. Witnesses. -/

/-- The last construction of a type. -/
inductive StateTypeLayoutWitness (Hash : Type)
  | primitive (typeTag : StatePrimitiveTypeTag)
  | fixedArray (elementTypeHash : Hash) (elementSlotCount arrayLength : Nat)
  | struct (memberCount totalSlotCount : Nat) (membersRoot : Hash)
  | fixedMap (mapKind : StateMapKind) (keyTypeHash : Hash) (keySlotCount : Nat)
      (valueTypeHash : Hash) (valueSlotCount capacity alignmentSlots : Nat)
deriving DecidableEq

section
variable (F : Type) {Hash : Type} [QFelt64 F] [HashTo4Felts F Hash] [FieldQHasher F Hash]
  [MerkleHasher Hash] [DecidableEq Hash]

/-- What the construction gives. -/
def StateTypeLayoutWitness.summary :
    StateTypeLayoutWitness Hash → Except String (StateTypeLayoutSummary Hash)
  | .primitive typeTag => primitiveTypeLayout F typeTag (canonicalPrimitiveSlotWidth typeTag)
  | .fixedArray elementTypeHash elementSlotCount arrayLength =>
    fixedArrayTypeLayout F ⟨elementTypeHash, elementSlotCount⟩ arrayLength
  | .struct memberCount totalSlotCount membersRoot =>
    if ¬ (0 < memberCount ∧ 0 < totalSlotCount) then
      .error "struct type witness must be non-empty"
    else do
      let typeLayoutHash ← structTypeHash F memberCount totalSlotCount membersRoot
      .ok ⟨typeLayoutHash, totalSlotCount⟩
  | .fixedMap mapKind keyTypeHash keySlotCount valueTypeHash valueSlotCount capacity
      alignmentSlots =>
      fixedMapTypeLayout F mapKind ⟨keyTypeHash, keySlotCount⟩ ⟨valueTypeHash, valueSlotCount⟩
        capacity alignmentSlots

end

/-! ## §4. Types as lists of nodes. -/

/-- `CanonicalTypeLayoutNode`: children are named by their position in the list of nodes. -/
inductive CanonicalTypeLayoutNode
  | primitive (typeTag : StatePrimitiveTypeTag)
  | fixedArray (element length : Nat)
  | fixedMap (mapKind : StateMapKind) (key value capacity alignmentSlots : Nat)
  | struct (members : List Nat) (membersTreeHeight : Nat)
deriving DecidableEq

/-- The nodes of a type and the one that is the type. -/
structure CanonicalTypeLayoutDag where
  nodes : List CanonicalTypeLayoutNode
  root : Nat
deriving DecidableEq

/-- Nodes of one type. -/
def canonicalTypeLayoutMaxNodes : Nat := 16

/-- Members of one struct. -/
def canonicalTypeLayoutMaxStructMembers : Nat := 32

/-- A slot count that a node may have. -/
def boundedSlots (slots : Nat) (message : String) : Except String Nat :=
  if slots ≤ 2 ^ 34 then .ok slots else .error message

/-- The child of a node, with its slot count and whether it contains a map: children stand before
the node. -/
def childOf (nodes : List (Nat × Bool)) (child : Nat) : Except String (Nat × Bool) :=
  match nodes[child]? with
  | some node => .ok node
  | none => .error s!"type-layout node {nodes.length} has non-topological child {child}"

/-- One node of `validate_shape`: its slot count and whether it contains a map. -/
def checkNode (nodes : List (Nat × Bool)) : CanonicalTypeLayoutNode → Except String (Nat × Bool)
  | .primitive typeTag => .ok (canonicalPrimitiveSlotWidth typeTag, false)
  | .fixedArray element length => do
    let (slots, containsMap) ← childOf nodes element
    if ¬ 0 < length then .error "fixed array length is zero"
    else if ¬ length ≤ 2 ^ 32 then .error "fixed array length exceeds canonical circuit range"
    else if containsMap then .error "fixed map cannot be nested in an array"
    else do
      let total ←
        boundedSlots (slots * length) "fixed array slot count exceeds canonical circuit range"
      .ok (total, false)
  | .fixedMap _ key value capacity alignmentSlots => do
    let (_, keyContainsMap) ← childOf nodes key
    let (slots, valueContainsMap) ← childOf nodes value
    if ¬ 0 < capacity then .error "fixed map capacity is zero"
    else if ¬ capacity ≤ 2 ^ 31 - 1 then
      .error "fixed map capacity exceeds canonical circuit range"
    else if ¬ (0 < alignmentSlots ∧ isPowerOfTwo alignmentSlots ∧ alignmentSlots ≤ 2 ^ 16) then
      .error "fixed map alignment must be a power of two no greater than 65536"
    else if keyContainsMap ∨ valueContainsMap then
      .error "fixed map cannot contain another fixed map"
    else do
      let total ←
        boundedSlots (slots * capacity) "fixed map slot count exceeds canonical circuit range"
      .ok (total, true)
  | .struct members membersTreeHeight =>
    if members.isEmpty then .error "empty structs are not supported"
    else if ¬ members.length ≤ canonicalTypeLayoutMaxStructMembers then
      .error (s!"struct has {members.length} members, maximum is " ++
        s!"{canonicalTypeLayoutMaxStructMembers}")
    else do
      let capacity ← checkedCapacity membersTreeHeight
      if ¬ members.length ≤ capacity then .error "struct members exceed members-tree capacity"
      else do
        let children ← members.mapM (fun child => do
          let (slots, containsMap) ← childOf nodes child
          if containsMap then .error "fixed map cannot be nested in a struct" else .ok slots)
        let total ← children.foldlM (fun total slots =>
          boundedSlots (total + slots) "struct slot count exceeds canonical circuit range") 0
        .ok (total, false)

/-- Checks all nodes in their order. -/
def CanonicalTypeLayoutDag.validateShape (dag : CanonicalTypeLayoutDag) : Except String Unit :=
  if dag.nodes.isEmpty then .error "type-layout DAG is empty"
  else if ¬ dag.nodes.length ≤ canonicalTypeLayoutMaxNodes then
    .error (s!"type-layout DAG has {dag.nodes.length} nodes, maximum is " ++
      s!"{canonicalTypeLayoutMaxNodes}")
  else if dag.root ≠ dag.nodes.length - 1 then
    .error "type-layout DAG root must be its final node"
  else do
    let _ ← dag.nodes.foldlM (fun nodes node => do
      let checked ← checkNode nodes node
      .ok (nodes ++ [checked])) []
    .ok ()

section
variable (F : Type) {Hash : Type} [QFelt64 F] [HashTo4Felts F Hash] [FieldQHasher F Hash]
  [MerkleHasher Hash] [DecidableEq Hash] (summaries : List (StateTypeLayoutSummary Hash))

/-- The summary of a child. -/
def summaryOf (child : Nat) : Except String (StateTypeLayoutSummary Hash) :=
  match summaries[child]? with
  | some summary => .ok summary
  | none => .error "index out of bounds"

/-- One node of `evaluate`. -/
def evaluateNode : CanonicalTypeLayoutNode → Except String (StateTypeLayoutSummary Hash)
  | .primitive typeTag => primitiveTypeLayout F typeTag (canonicalPrimitiveSlotWidth typeTag)
  | .fixedArray element length => do
    let element ← summaryOf summaries element
    fixedArrayTypeLayout F element length
  | .fixedMap mapKind key value capacity alignmentSlots => do
    let key ← summaryOf summaries key
    let value ← summaryOf summaries value
    fixedMapTypeLayout F mapKind key value capacity alignmentSlots
  | .struct members membersTreeHeight => do
    let memberTypes ← members.mapM (summaryOf summaries)
    let layout ← structTypeLayout F memberTypes membersTreeHeight
    .ok layout.summary

/-- The loop of `evaluate`. -/
def evaluateNodes (nodes : List CanonicalTypeLayoutNode) :
    Except String (List (StateTypeLayoutSummary Hash)) :=
  nodes.foldlM (fun summaries node => do
    let summary ← evaluateNode F summaries node
    .ok (summaries ++ [summary])) []

/-- The summary of the root. -/
def CanonicalTypeLayoutDag.evaluate (dag : CanonicalTypeLayoutDag) :
    Except String (StateTypeLayoutSummary Hash) := do
  dag.validateShape
  let summaries ← evaluateNodes F dag.nodes
  summaryOf summaries dag.root

end

/-! ## §5. Fields. -/

/-- A field at its first slot. -/
structure StateFieldLayoutLeaf (Hash : Type) where
  fieldId : Nat
  startSlot : Nat
  payloadOffset : Nat
  slotCount : Nat
  typeLayoutHash : Hash
  encodingVersion : Nat
deriving DecidableEq

/-- Ids count from 1. -/
def StateFieldLayoutLeaf.new {Hash : Type} (fieldIndex startSlot : Nat)
    (typeLayout : StateTypeLayoutSummary Hash) : Except String (StateFieldLayoutLeaf Hash) :=
  if ¬ 0 < typeLayout.totalSlotCount then
    .error s!"state field at index {fieldIndex} must occupy at least one slot"
  else do
    let fieldId ← checkedAdd fieldIndex 1 "state field id overflow"
    .ok ⟨fieldId, startSlot, 0, typeLayout.totalSlotCount, typeLayout.typeLayoutHash,
      stateLayoutEncodingVersion⟩

/-- The slots before the payload belong to the field. -/
def StateFieldLayoutLeaf.newWithPayloadOffset {Hash : Type}
    (fieldIndex startSlot payloadOffset : Nat) (typeLayout : StateTypeLayoutSummary Hash) :
    Except String (StateFieldLayoutLeaf Hash) := do
  let leaf ← StateFieldLayoutLeaf.new fieldIndex startSlot typeLayout
  let slotCount ← checkedAdd leaf.slotCount payloadOffset "state field slot count overflow"
  .ok { leaf with payloadOffset, slotCount }

section
variable (F : Type) {Hash : Type} [QFelt64 F] [HashTo4Felts F Hash] [FieldQHasher F Hash]
  [DecidableEq Hash]

/-- The leaf of a field. -/
def StateFieldLayoutLeaf.hash (leaf : StateFieldLayoutLeaf Hash) : Except String Hash :=
  if ¬ 0 < leaf.fieldId then .error "state field id must be non-zero"
  else if ¬ 0 < leaf.slotCount then .error "state field slot count must be non-zero"
  else if ¬ leaf.payloadOffset < leaf.slotCount then
    .error "state field payload offset is outside its owned slot range"
  else if leaf.encodingVersion ≠ stateLayoutEncodingVersion then
    .error s!"unsupported state field encoding version {leaf.encodingVersion}"
  else
    nonzeroHash F
      ([stateFieldLayoutDomain, leaf.fieldId, leaf.startSlot, leaf.payloadOffset,
          leaf.slotCount].map fromU64Value ++ hashFelts F leaf.typeLayoutHash ++
        [fromU64Value leaf.encodingVersion])
      "occupied state field leaf hashes to zero"

end

end PsyNode.Layout
