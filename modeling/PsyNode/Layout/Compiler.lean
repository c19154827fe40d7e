/-
PsyNode.Layout.Compiler
**LAYOUTS FROM THE COMPILER'S ABI** — `canonical_layout_manifest_from_compiler_abi_json`
and what it calls.

Three functions walk the type of a field, which may name structs: for its layout, for
the last step of that computation, and for its nodes.  Each of them refuses a struct
that contains itself, and so its recursion ends.
Here the depth of the recursion is a parameter; nothing below depends on it.
-/
import PsyNode.Layout.Types

namespace PsyNode.Layout

open Merkle Lib

/-! ## §1. ABI documents. -/

inductive CompilerAbiPrimitive
  | felt
  | bool
  | u32
  | hash
deriving DecidableEq

inductive CompilerAbiMapKind
  | contractHashMap
  | map
  | namespacedMap
deriving DecidableEq

inductive CompilerAbiTypeRef
  | primitive (name : CompilerAbiPrimitive)
  | struct (name : String)
  | array (item : CompilerAbiTypeRef) (length itemFeltSize : Nat)
  | map (mapKind : CompilerAbiMapKind) (key value : CompilerAbiTypeRef)
      (capacity valueFeltSize alignmentFelts : Nat)
deriving DecidableEq

structure CompilerAbiStructField where
  ty : CompilerAbiTypeRef
  offsetWithinParent : Nat
  feltSize : Nat
deriving DecidableEq

structure CompilerAbiStruct where
  name : String
  fields : List CompilerAbiStructField
deriving DecidableEq

structure CompilerAbiLayoutField where
  fieldId : Nat
  ty : CompilerAbiTypeRef
  startSlot : Nat
  payloadOffset : Nat
  slotCount : Nat
deriving DecidableEq

structure CompilerAbiStateLayout where
  layoutVersion : Nat
  encodingVersion : Nat
  fieldCount : Nat
  slotCount : Nat
  fields : List CompilerAbiLayoutField
deriving DecidableEq

/-- `CompilerAbiDocument`, with the two members of its contract. -/
structure CompilerAbiDocument where
  stateTreeHeight : Nat
  stateLayout : CompilerAbiStateLayout
  types : List CompilerAbiStruct
deriving DecidableEq

/-- The struct definition of a name. -/
def findDefinition (definitions : List CompilerAbiStruct) (name : String) :
    Except String CompilerAbiStruct :=
  match definitions.find? (fun definition => definition.name = name) with
  | some definition => .ok definition
  | none => .error s!"compiler ABI struct '{name}' not found"

/-- The tag of a primitive. -/
def CompilerAbiPrimitive.tag : CompilerAbiPrimitive → StatePrimitiveTypeTag
  | .felt => .felt
  | .bool => .bool
  | .u32 => .u32
  | .hash => .hash

/-- The width that the builder gives a primitive. -/
def CompilerAbiPrimitive.width : CompilerAbiPrimitive → Nat
  | .felt | .bool | .u32 => 1
  | .hash => 4

/-- The kind of a map. -/
def CompilerAbiMapKind.kind : CompilerAbiMapKind → StateMapKind
  | .contractHashMap => .contractHashMap
  | .map => .map
  | .namespacedMap => .namespacedMap

/-- What a walk does with a struct that it is already inside of. -/
def notVisiting (visiting : List String) (name : String) : Except String (List String) :=
  if name ∈ visiting then .error s!"recursive compiler ABI struct '{name}' is not supported"
  else .ok (name :: visiting)

/-- Deeper than the walk goes here. -/
def tooDeep : String := "compiler ABI type is nested too deeply"

/-! ## §2. The builder. -/

/-- The struct layouts met so far, by name. -/
abbrev StructCache (Hash : Type) := List (String × StructTypeLayout Hash)

section
variable (F : Type) {Hash : Type} [QFelt64 F] [HashTo4Felts F Hash] [FieldQHasher F Hash]
  [MerkleHasher Hash] [DecidableEq Hash] (definitions : List CompilerAbiStruct)
  (membersTreeHeight : Nat)

variable
  (build : CompilerAbiTypeRef → StructCache Hash →
    Except String (StateTypeLayoutSummary Hash × StructCache Hash))

/-- One member of a struct: its offset and size must be those of the members before it and of its
type. -/
def buildMember (name : String)
    (state : List (StateTypeLayoutSummary Hash) × Nat × StructCache Hash)
    (member : CompilerAbiStructField) :
    Except String (List (StateTypeLayoutSummary Hash) × Nat × StructCache Hash) :=
  let (memberTypes, nextOffset, cache) := state
  if member.offsetWithinParent ≠ nextOffset then
    .error s!"compiler ABI struct '{name}' has a non-contiguous member offset"
  else do
    let (memberType, cache) ← build member.ty cache
    if memberType.totalSlotCount ≠ member.feltSize then
      .error s!"compiler ABI struct '{name}' member size does not match its type"
    else do
      let nextOffset ←
        checkedAdd nextOffset member.feltSize "compiler ABI struct slot count overflow"
      .ok (memberTypes ++ [memberType], nextOffset, cache)

def buildCompilerAbiTypeLayout : Nat → CompilerAbiTypeRef → List String → StructCache Hash →
    Except String (StateTypeLayoutSummary Hash × StructCache Hash)
  | 0, _, _, _ => .error tooDeep
  | _ + 1, .primitive name, _, cache => do
    let summary ← primitiveTypeLayout F name.tag name.width
    .ok (summary, cache)
  | depth + 1, .struct name, visiting, cache =>
    match cache.lookup name with
    | some layout => .ok (layout.summary, cache)
    | none => do
      let visiting ← notVisiting visiting name
      let definition ← findDefinition definitions name
      let (memberTypes, _, cache) ← definition.fields.foldlM
        (buildMember (fun ty cache => buildCompilerAbiTypeLayout depth ty visiting cache) name)
        ([], 0, cache)
      let layout ← structTypeLayout F memberTypes membersTreeHeight
      .ok (layout.summary, (name, layout) :: cache)
  | depth + 1, .array item length itemFeltSize, visiting, cache => do
    let (itemLayout, cache) ← buildCompilerAbiTypeLayout depth item visiting cache
    if itemLayout.totalSlotCount ≠ itemFeltSize then
      .error "compiler ABI array item size does not match its type"
    else do
      let summary ← fixedArrayTypeLayout F itemLayout length
      .ok (summary, cache)
  | depth + 1, .map mapKind key value capacity valueFeltSize alignmentFelts, visiting, cache => do
    let (keyLayout, cache) ← buildCompilerAbiTypeLayout depth key visiting cache
    let (valueLayout, cache) ← buildCompilerAbiTypeLayout depth value visiting cache
    if valueLayout.totalSlotCount ≠ valueFeltSize then
      .error "compiler ABI map value size does not match its type"
    else do
      let summary ←
        fixedMapTypeLayout F mapKind.kind keyLayout valueLayout capacity alignmentFelts
      .ok (summary, cache)

/-! ## §3. Witnesses. -/

/-- A struct is built if it is not kept yet. -/
def cacheStruct (name : String) (cache : StructCache Hash) : Except String (StructCache Hash) :=
  match cache.lookup name with
  | some _ => .ok cache
  | none => Prod.snd <$> build (.struct name) cache

def compilerAbiTypeLayoutWitness (depth : Nat) (ty : CompilerAbiTypeRef)
    (cache : StructCache Hash) :
    Except String (StateTypeLayoutWitness Hash × StructCache Hash) :=
  let build := fun ty cache =>
    buildCompilerAbiTypeLayout F definitions membersTreeHeight depth ty [] cache
  match ty with
  | .primitive name => .ok (.primitive name.tag, cache)
  | .struct name => do
    let cache ← cacheStruct build name cache
    match cache.lookup name with
    | none => .error s!"compiler ABI struct layout '{name}' was not built"
    | some layout =>
      .ok (.struct layout.members.length layout.summary.totalSlotCount layout.membersRoot,
        cache)
  | .array item length _ => do
    let (element, cache) ← build item cache
    .ok (.fixedArray element.typeLayoutHash element.totalSlotCount length, cache)
  | .map mapKind key value capacity _ alignmentFelts => do
    let (keyLayout, cache) ← build key cache
    let (valueLayout, cache) ← build value cache
    .ok (.fixedMap mapKind.kind keyLayout.typeLayoutHash keyLayout.totalSlotCount
      valueLayout.typeLayoutHash valueLayout.totalSlotCount capacity alignmentFelts, cache)

end

def compilerAbiTypeContainsMap (definitions : List CompilerAbiStruct) :
    Nat → CompilerAbiTypeRef → List String → Except String Bool
  | 0, _, _ => .error tooDeep
  | _ + 1, .map .., _ => .ok true
  | depth + 1, .array item _ _, visiting =>
    compilerAbiTypeContainsMap definitions depth item visiting
  | depth + 1, .struct name, visiting => do
    let visiting ← notVisiting visiting name
    let definition ← findDefinition definitions name
    let contains ← definition.fields.mapM (fun member =>
      compilerAbiTypeContainsMap definitions depth member.ty visiting)
    .ok (contains.any id)
  | _ + 1, .primitive _, _ => .ok false

/-! ## §4. Nodes. -/

/-- A node and its position. -/
def pushNode (nodes : List CanonicalTypeLayoutNode) (node : CanonicalTypeLayoutNode) :
    Except String (Nat × List CanonicalTypeLayoutNode) :=
  if ¬ nodes.length < 2 ^ 16 then .error "out of range integral type conversion attempted"
  else .ok (nodes.length, nodes ++ [node])

def appendCompilerAbiTypeDagNode (definitions : List CompilerAbiStruct) (membersTreeHeight : Nat) :
    Nat → CompilerAbiTypeRef → List String → List CanonicalTypeLayoutNode →
    Except String (Nat × List CanonicalTypeLayoutNode)
  | 0, _, _, _ => .error tooDeep
  | _ + 1, .primitive name, _, nodes => pushNode nodes (.primitive name.tag)
  | depth + 1, .array item length _, visiting, nodes => do
    let (element, nodes) ←
      appendCompilerAbiTypeDagNode definitions membersTreeHeight depth item visiting nodes
    pushNode nodes (.fixedArray element length)
  | depth + 1, .map mapKind key value capacity _ alignmentFelts, visiting, nodes => do
    let (key, nodes) ←
      appendCompilerAbiTypeDagNode definitions membersTreeHeight depth key visiting nodes
    let (value, nodes) ←
      appendCompilerAbiTypeDagNode definitions membersTreeHeight depth value visiting nodes
    pushNode nodes (.fixedMap mapKind.kind key value capacity alignmentFelts)
  | depth + 1, .struct name, visiting, nodes => do
    let visiting ← notVisiting visiting name
    let definition ← findDefinition definitions name
    let (members, nodes) ← definition.fields.foldlM (fun state member => do
      let (index, nodes) ← appendCompilerAbiTypeDagNode definitions membersTreeHeight depth
        member.ty visiting state.2
      .ok (state.1 ++ [index], nodes)) (([] : List Nat), nodes)
    if ¬ membersTreeHeight < 2 ^ 8 then
      .error "out of range integral type conversion attempted"
    else pushNode nodes (.struct members membersTreeHeight)

/-! ## §5. The contract. -/

structure ContractStateLayout (Hash : Type) where
  fields : List (StateFieldLayoutLeaf Hash)
  stateLayoutRoot : Hash
  stateLayoutFieldCount : Nat
  stateLayoutSlotCount : Nat
deriving DecidableEq

structure CanonicalContractStateLayout (Hash : Type) where
  contractLayout : ContractStateLayout Hash
  fieldTypeLayouts : List (StateTypeLayoutWitness Hash)
  structLayouts : StructCache Hash
deriving DecidableEq

structure CanonicalLayoutManifest (Hash : Type) where
  layoutVersion : Nat
  stateTreeHeight : Nat
  layout : CanonicalContractStateLayout Hash
  fieldTypeDags : List CanonicalTypeLayoutDag
deriving DecidableEq

/-- The slots of a state tree: each leaf holds four field elements. -/
def stateCapacity (stateTreeHeight : Nat) : Except String Nat :=
  if ¬ stateTreeHeight < 2 ^ 32 then .error "out of range integral type conversion attempted"
  else if ¬ stateTreeHeight < 128 then
    .error s!"state tree height {stateTreeHeight} exceeds u128 capacity"
  else if ¬ 2 ^ stateTreeHeight * 4 < 2 ^ 128 then .error "contract state capacity overflow"
  else .ok (2 ^ stateTreeHeight * 4)

/-- The names of the definitions, which must be different. -/
def compilerDefinitions (types : List CompilerAbiStruct) : Except String (List CompilerAbiStruct) :=
  if ¬ (types.map (fun definition => definition.name)).Nodup then
    .error "compiler ABI contains duplicate struct type names"
  else .ok types

section
variable (F : Type) {Hash : Type} [QFelt64 F] [HashTo4Felts F Hash] [FieldQHasher F Hash]
  [MerkleHasher Hash] [DecidableEq Hash]

/-- The loop of `contract_state_layout_with_payload_offsets`: the fields with their hashes, and
the slots they take. -/
def stateFields : Nat → Nat → List (StateTypeLayoutSummary Hash × Nat) →
    Except String (List (StateFieldLayoutLeaf Hash × Hash) × Nat)
  | _, startSlot, [] => .ok ([], startSlot)
  | index, startSlot, (fieldType, payloadOffset) :: rest => do
    let field ←
      StateFieldLayoutLeaf.newWithPayloadOffset index startSlot payloadOffset fieldType
    let hash ← field.hash F
    let startSlot ← checkedAdd startSlot field.slotCount "contract state slot count overflow"
    let (fields, total) ← stateFields (index + 1) startSlot rest
    .ok ((field, hash) :: fields, total)

def contractStateLayoutWithPayloadOffsets (fieldTypes : List (StateTypeLayoutSummary Hash))
    (payloadOffsets : List Nat) (stateLayoutTreeHeight stateTreeHeight : Nat) :
    Except String (ContractStateLayout Hash) :=
  if fieldTypes.length ≠ payloadOffsets.length then
    .error "field types and payload offsets length mismatch"
  else do
    let capacity ← stateCapacity stateTreeHeight
    let (fields, slots) ← stateFields F 0 0 (fieldTypes.zip payloadOffsets)
    if ¬ slots ≤ capacity then
      .error s!"contract layout uses {slots} slots but state tree capacity is {capacity}"
    else do
      let root ← paddedMerkleRoot F (fields.map Prod.snd) stateLayoutTreeHeight
      .ok ⟨fields.map Prod.fst, root, fieldTypes.length, slots⟩

/-- What the loop over the fields has collected. -/
structure FieldLayouts (Hash : Type) where
  cache : StructCache Hash
  nextSlot : Nat
  fieldTypes : List (StateTypeLayoutSummary Hash)
  fieldTypeLayouts : List (StateTypeLayoutWitness Hash)
  payloadOffsets : List Nat

/-- The alignment of a field. -/
def fieldAlignment : CompilerAbiTypeRef → Nat
  | .map _ _ _ _ _ alignmentFelts => alignmentFelts
  | _ => 1

variable (definitions : List CompilerAbiStruct)

/-- A map may only be the whole of a field. -/
def checkNestedMaps (depth : Nat) : CompilerAbiTypeRef → Except String Unit
  | .map .. => .ok ()
  | ty => do
    let contains ← compilerAbiTypeContainsMap definitions depth ty []
    if contains then
      .error "state-layout protocol forbids aligned Map below a top-level field"
    else .ok ()

/-- One field of `contract_state_layout_from_compiler_abi_json`. -/
def layoutField (membersTreeHeight depth : Nat) (state : FieldLayouts Hash)
    (item : CompilerAbiLayoutField × Nat) : Except String (FieldLayouts Hash) :=
  let (field, index) := item
  if field.fieldId ≠ index + 1 then .error "compiler layout field ids are not contiguous"
  else if field.startSlot ≠ state.nextSlot then
    .error "compiler layout field slot ranges are not contiguous"
  else do
    checkNestedMaps definitions depth field.ty
    let alignment := fieldAlignment field.ty
    if ¬ (0 < alignment ∧ isPowerOfTwo alignment) then
      .error "compiler layout field alignment is invalid"
    else if field.payloadOffset ≠ (alignment - field.startSlot % alignment) % alignment then
      .error s!"compiler layout field {field.fieldId} has incorrect alignment padding"
    else do
      let (fieldType, cache) ← buildCompilerAbiTypeLayout F definitions membersTreeHeight depth
        field.ty [] state.cache
      let (fieldTypeLayout, cache) ← compilerAbiTypeLayoutWitness F definitions membersTreeHeight
        depth field.ty cache
      if fieldType.totalSlotCount + field.payloadOffset ≠ field.slotCount ∨
          ¬ fieldType.totalSlotCount + field.payloadOffset < 2 ^ 64 then
        .error s!"compiler layout field {field.fieldId} slot count does not match its type"
      else do
        let nextSlot ←
          checkedAdd state.nextSlot field.slotCount "compiler layout slot count overflow"
        .ok ⟨cache, nextSlot, state.fieldTypes ++ [fieldType],
          state.fieldTypeLayouts ++ [fieldTypeLayout],
          state.payloadOffsets ++ [field.payloadOffset]⟩

/-- `contract_state_layout_from_compiler_abi_json`. -/
def contractStateLayoutFromCompilerAbi (abi : CompilerAbiDocument)
    (stateLayoutTreeHeight membersTreeHeight depth : Nat) :
    Except String (CanonicalContractStateLayout Hash) :=
  let manifest := abi.stateLayout
  if manifest.layoutVersion ≠ stateLayoutVersion then
    .error s!"unsupported compiler state layout version {manifest.layoutVersion}"
  else if manifest.encodingVersion ≠ stateLayoutEncodingVersion then
    .error s!"unsupported compiler state layout encoding {manifest.encodingVersion}"
  else if manifest.fieldCount ≠ manifest.fields.length then
    .error "compiler state layout field count mismatch"
  else do
    let definitions ← compilerDefinitions abi.types
    let layouts ← manifest.fields.zipIdx.foldlM
      (layoutField F definitions membersTreeHeight depth) ⟨[], 0, [], [], []⟩
    if layouts.nextSlot ≠ manifest.slotCount then
      .error "compiler layout total slot count mismatch"
    else do
      let contractLayout ← contractStateLayoutWithPayloadOffsets F layouts.fieldTypes
        layouts.payloadOffsets stateLayoutTreeHeight abi.stateTreeHeight
      if ¬ (contractLayout.stateLayoutFieldCount = manifest.fieldCount ∧
          contractLayout.stateLayoutSlotCount = manifest.slotCount) then
        .error "computed consensus layout does not match compiler manifest counts"
      else .ok ⟨contractLayout, layouts.fieldTypeLayouts, layouts.cache⟩

end

/-- The nodes of one field. -/
def fieldTypeDag (definitions : List CompilerAbiStruct) (membersTreeHeight depth : Nat)
    (field : CompilerAbiLayoutField) : Except String CanonicalTypeLayoutDag := do
  let (root, nodes) ←
    appendCompilerAbiTypeDagNode definitions membersTreeHeight depth field.ty [] []
  let dag : CanonicalTypeLayoutDag := ⟨nodes, root⟩
  dag.validateShape
  .ok dag

/-- `canonical_type_layout_dags_from_compiler_abi_json`. -/
def canonicalTypeLayoutDagsFromCompilerAbi (abi : CompilerAbiDocument)
    (membersTreeHeight depth : Nat) : Except String (List CanonicalTypeLayoutDag) := do
  let definitions ← compilerDefinitions abi.types
  abi.stateLayout.fields.mapM (fieldTypeDag definitions membersTreeHeight depth)

/-- `canonical_layout_manifest_from_compiler_abi_json`. -/
def canonicalLayoutManifestFromCompilerAbi (F : Type) {Hash : Type} [QFelt64 F]
    [HashTo4Felts F Hash] [FieldQHasher F Hash] [MerkleHasher Hash] [DecidableEq Hash]
    (abi : CompilerAbiDocument) (stateLayoutTreeHeight membersTreeHeight depth : Nat) :
    Except String (CanonicalLayoutManifest Hash) := do
  let layout ←
    contractStateLayoutFromCompilerAbi F abi stateLayoutTreeHeight membersTreeHeight depth
  let fieldTypeDags ← canonicalTypeLayoutDagsFromCompilerAbi abi membersTreeHeight depth
  if fieldTypeDags.length ≠ layout.contractLayout.fields.length then
    .error "canonical type DAG count does not match layout field count"
  else .ok ⟨stateLayoutVersion, abi.stateTreeHeight, layout, fieldTypeDags⟩

end PsyNode.Layout
