/-
PsyNode.Layout.Agreement
**ONE LAYOUT PER TYPE.**  The layout of a type is a relation (`LayoutOf`), one
rule for each way to make a type; it has at most one layout.

The builder computes it, with or without what it kept from other fields; the witness
of a field is its last step; the nodes of a field evaluate to it.
-/
import PsyNode.Layout.Compiler

namespace PsyNode.Layout

open Merkle Lib List Except

/-! ## §1. The layout of a type. -/

section
variable (F : Type) {Hash : Type} [QFelt64 F] [HashTo4Felts F Hash] [FieldQHasher F Hash]
  [MerkleHasher Hash] [DecidableEq Hash] (definitions : List CompilerAbiStruct)
  (membersTreeHeight : Nat)

mutual

/-- **THE LAYOUT OF A TYPE.** -/
inductive LayoutOf : CompilerAbiTypeRef → StateTypeLayoutSummary Hash → Prop
  | primitive {name : CompilerAbiPrimitive} {summary : StateTypeLayoutSummary Hash}
      (h : primitiveTypeLayout F name.tag (canonicalPrimitiveSlotWidth name.tag) = .ok summary) :
      LayoutOf (.primitive name) summary
  | array {item : CompilerAbiTypeRef} {length itemFeltSize : Nat}
      {element summary : StateTypeLayoutSummary Hash} (hitem : LayoutOf item element)
      (h : fixedArrayTypeLayout F element length = .ok summary) :
      LayoutOf (.array item length itemFeltSize) summary
  | map {mapKind : CompilerAbiMapKind} {key value : CompilerAbiTypeRef}
      {capacity valueFeltSize alignmentFelts : Nat}
      {keyLayout valueLayout summary : StateTypeLayoutSummary Hash}
      (hkey : LayoutOf key keyLayout) (hvalue : LayoutOf value valueLayout)
      (h : fixedMapTypeLayout F mapKind.kind keyLayout valueLayout capacity alignmentFelts =
        .ok summary) :
      LayoutOf (.map mapKind key value capacity valueFeltSize alignmentFelts) summary
  | struct {name : String} {definition : CompilerAbiStruct}
      {members : List (StateTypeLayoutSummary Hash)} {layout : StructTypeLayout Hash}
      (hdefinition : findDefinition definitions name = .ok definition)
      (hmembers : MembersOf definition.fields members)
      (h : structTypeLayout F members membersTreeHeight = .ok layout) :
      LayoutOf (.struct name) layout.summary

/-- The layouts of the members of a struct. -/
inductive MembersOf : List CompilerAbiStructField → List (StateTypeLayoutSummary Hash) → Prop
  | nil : MembersOf [] []
  | cons {field : CompilerAbiStructField} {fields : List CompilerAbiStructField}
      {member : StateTypeLayoutSummary Hash} {members : List (StateTypeLayoutSummary Hash)}
      (hmember : LayoutOf field.ty member) (hmembers : MembersOf fields members) :
      MembersOf (field :: fields) (member :: members)

end

/-- The layout of a struct, with its members. -/
def StructOf (name : String) (layout : StructTypeLayout Hash) : Prop :=
  ∃ definition members, findDefinition definitions name = .ok definition ∧
    MembersOf F definitions membersTreeHeight definition.fields members ∧
    structTypeLayout F members membersTreeHeight = .ok layout

variable {F definitions membersTreeHeight} {defs : List CompilerAbiStruct} {n : Nat}

mutual

/-- A type has at most one layout. -/
theorem LayoutOf.unique {s s' : StateTypeLayoutSummary Hash} : ∀ {ty : CompilerAbiTypeRef},
    LayoutOf F defs n ty s →
    LayoutOf F defs n ty s' → s = s'
  | _, .primitive h, .primitive h' => ok.inj (h.symm.trans h')
  | _, .array hitem h, .array hitem' h' => by
    obtain rfl := hitem.unique hitem'
    exact ok.inj (h.symm.trans h')
  | _, .map hkey hvalue h, .map hkey' hvalue' h' => by
    obtain rfl := hkey.unique hkey'
    obtain rfl := hvalue.unique hvalue'
    exact ok.inj (h.symm.trans h')
  | _, .struct hdefinition hmembers h, .struct hdefinition' hmembers' h' => by
    obtain rfl := ok.inj (hdefinition.symm.trans hdefinition')
    obtain rfl := hmembers.unique hmembers'
    obtain rfl := ok.inj (h.symm.trans h')
    rfl

theorem MembersOf.unique : ∀ {fields : List CompilerAbiStructField}
    {m m' : List (StateTypeLayoutSummary Hash)}, MembersOf F defs n fields m →
    MembersOf F defs n fields m' → m = m'
  | _, _, _, .nil, .nil => rfl
  | _, _, _, .cons hmember hmembers, .cons hmember' hmembers' => by
    rw [hmember.unique hmember', hmembers.unique hmembers']

end

variable {layout : StructTypeLayout Hash} {s : StateTypeLayoutSummary Hash}
  {types types' summaries summaries' : List (StateTypeLayoutSummary Hash)}

theorem StructOf.layoutOf {name : String} (h : StructOf F defs n name layout) :
    LayoutOf F defs n (.struct name) layout.summary := by
  obtain ⟨definition, members, hdefinition, hmembers, hlayout⟩ := h
  exact .struct hdefinition hmembers hlayout

/-! ## §2. The builder computes the layout. -/

variable (F definitions membersTreeHeight) in
/-- What is kept of a struct is its layout. -/
def CacheOk (cache : StructCache Hash) : Prop :=
  ∀ name layout, cache.lookup name = some layout →
    StructOf F definitions membersTreeHeight name layout

theorem CacheOk.cons {cache : StructCache Hash} (h : CacheOk F defs n cache)
    {name : String} (hlayout : StructOf F defs n name layout) :
    CacheOk F defs n ((name, layout) :: cache) := by
  intro name' layout' hlookup
  rw [lookup_cons] at hlookup
  split at hlookup
  next heq =>
    rw [← Option.some.inj hlookup, beq_iff_eq.mp heq]
    exact hlayout
  next => exact h name' layout' hlookup

variable {fields : List CompilerAbiStructField} {cache cache' : StructCache Hash}

/-- The members of a struct, when each of them is built right. -/
theorem buildMembers_spec {build : CompilerAbiTypeRef → StructCache Hash →
      Except String (StateTypeLayoutSummary Hash × StructCache Hash)} {name : String}
    (hbuild : ∀ ty cache s cache', build ty cache = .ok (s, cache') →
      CacheOk F defs n cache →
      LayoutOf F defs n ty s ∧
        CacheOk F defs n cache')
    {offset offset' : Nat}
    (h : fields.foldlM (buildMember build name) (types, offset, cache) =
      .ok (types', offset', cache'))
    (hcache : CacheOk F defs n cache) :
    ∃ members, types' = types ++ members ∧
      MembersOf F defs n fields members ∧
      CacheOk F defs n cache' := by
  induction fields generalizing types types' offset offset' cache cache' with
  | nil =>
    obtain ⟨rfl, rfl, rfl⟩ := h
    exact ⟨[], (append_nil _).symm, .nil, hcache⟩
  | cons field fields ih =>
    rw [foldlM_cons, bind_eq_ok] at h
    obtain ⟨⟨types₁, offset₁, cache₁⟩, hfield, h⟩ := h
    unfold buildMember at hfield
    simp only [ite_error_eq_ok, bind_eq_ok] at hfield
    obtain ⟨_, ⟨member, cache₂⟩, hmember, hfield⟩ := hfield
    obtain ⟨_, _, _, rfl, _, rfl⟩ := hfield
    obtain ⟨hlayout, hcache₂⟩ := hbuild _ _ _ _ hmember hcache
    obtain ⟨members, rfl, hmembers, hcache'⟩ := ih h hcache₂
    exact ⟨member :: members, by rw [append_assoc]; rfl, .cons hlayout hmembers, hcache'⟩

theorem width_eq (name : CompilerAbiPrimitive) :
    name.width = canonicalPrimitiveSlotWidth name.tag := by
  cases name
  all_goals rfl

variable {ty : CompilerAbiTypeRef}

/-- **THE BUILDER COMPUTES THE LAYOUT**, and keeps only layouts. -/
theorem buildCompilerAbiTypeLayout_spec (depth : Nat) {visiting : List String}
    (h : buildCompilerAbiTypeLayout F defs n depth ty visiting cache = .ok (s, cache'))
    (hcache : CacheOk F defs n cache) :
    LayoutOf F defs n ty s ∧
      CacheOk F defs n cache' := by
  induction depth generalizing ty visiting cache cache' s with
  | zero =>
    cases h
  | succ depth ih =>
    cases ty with
    | primitive name =>
      rw [buildCompilerAbiTypeLayout, bind_eq_ok, width_eq] at h
      obtain ⟨summary, hsummary, h⟩ := h
      cases h
      exact ⟨.primitive hsummary, hcache⟩
    | struct name =>
      rw [buildCompilerAbiTypeLayout] at h
      cases hlookup : cache.lookup name with
      | some layout =>
        rw [hlookup] at h
        cases h
        exact ⟨(hcache name layout hlookup).layoutOf, hcache⟩
      | none =>
        rw [hlookup] at h
        simp only [bind_eq_ok] at h
        obtain ⟨visiting', _, definition, hdefinition, ⟨types, _, cache₁⟩, hfields, h⟩ := h
        obtain ⟨layout, hlayout, rfl, rfl⟩ := h
        obtain ⟨members, hmembers_eq, hmembers, hcache₁⟩ :=
          buildMembers_spec (fun _ _ _ _ hb hc => ih hb hc) hfields hcache
        rw [hmembers_eq, nil_append] at hlayout
        have hstruct : StructOf F defs n name layout :=
          ⟨definition, members, hdefinition, hmembers, hlayout⟩
        exact ⟨hstruct.layoutOf, hcache₁.cons hstruct⟩
    | array item length itemFeltSize =>
      rw [buildCompilerAbiTypeLayout, bind_eq_ok] at h
      obtain ⟨⟨element, cache₁⟩, hitem, h⟩ := h
      simp only [ite_error_eq_ok, bind_eq_ok, ok.injEq, Prod.mk.injEq] at h
      obtain ⟨_, summary, hsummary, rfl, rfl⟩ := h
      obtain ⟨helement, hcache₁⟩ := ih hitem hcache
      exact ⟨.array helement hsummary, hcache₁⟩
    | map mapKind key value capacity valueFeltSize alignmentFelts =>
      rw [buildCompilerAbiTypeLayout, bind_eq_ok] at h
      obtain ⟨⟨keyLayout, cache₁⟩, hkey, h⟩ := h
      obtain ⟨⟨valueLayout, cache₂⟩, hvalue, h⟩ := bind_eq_ok.mp h
      simp only [ite_error_eq_ok, bind_eq_ok, ok.injEq, Prod.mk.injEq] at h
      obtain ⟨_, summary, hsummary, rfl, rfl⟩ := h
      obtain ⟨hkeyLayout, hcache₁⟩ := ih hkey hcache
      obtain ⟨hvalueLayout, hcache₂⟩ := ih hvalue hcache₁
      exact ⟨.map hkeyLayout hvalueLayout hsummary, hcache₂⟩

/-! ## §3. The witness is the last step. -/

omit [MerkleHasher Hash] in
theorem structMembers_length {index slotOffset total : Nat}
    {members : List (StructMemberLayout Hash × Hash)}
    (h : structMembers F index slotOffset types = .ok (members, total)) :
    members.length = types.length ∧ slotOffset + types.length ≤ total := by
  induction types generalizing index slotOffset members total with
  | nil =>
    obtain ⟨rfl, rfl⟩ := h
    exact ⟨rfl, le_rfl⟩
  | cons type types ih =>
    simp only [structMembers, bind_eq_ok] at h
    obtain ⟨member, hmember, hash, hhash, offset, hoffset, ⟨rest, total'⟩, hrest, h⟩ := h
    cases h
    obtain ⟨hlength, hle⟩ := ih hrest
    unfold StructMemberLayout.new at hmember
    simp only [ite_error_eq_ok, not_not, bind_eq_ok, ok.injEq] at hmember
    obtain ⟨hpos, _, _, rfl⟩ := hmember
    rw [checkedAdd_eq_ok] at hoffset
    dsimp only at hoffset
    rw [length_cons, length_cons, hlength]
    exact ⟨rfl, by omega⟩

/-- The witness of a struct. -/
theorem summary_of_structTypeLayout (h : structTypeLayout F types n = .ok layout) :
    (StateTypeLayoutWitness.struct layout.members.length layout.summary.totalSlotCount
      layout.membersRoot).summary F = .ok layout.summary := by
  unfold structTypeLayout at h
  rw [ite_error_eq_ok, bind_eq_ok] at h
  obtain ⟨hne, capacity, _, h⟩ := h
  rw [ite_error_eq_ok, bind_eq_ok] at h
  obtain ⟨_, ⟨members, slots⟩, hmembers, h⟩ := h
  simp only [bind_eq_ok, ok.injEq] at h
  obtain ⟨root, _, hash, hhash, rfl⟩ := h
  obtain ⟨hlength, hle⟩ := structMembers_length hmembers
  have hpos : 0 < types.length := length_pos_of_ne_nil (fun h => hne (by rw [h]; rfl))
  unfold StateTypeLayoutWitness.summary
  dsimp only
  rw [if_neg (by rw [not_not, length_map]; omega), length_map, hhash]
  rfl

/-- **THE WITNESS IS THE LAST STEP**: its summary is the layout of the type. -/
theorem compilerAbiTypeLayoutWitness_spec {depth : Nat} {witness : StateTypeLayoutWitness Hash}
    (h : compilerAbiTypeLayoutWitness F defs n depth ty cache =
      .ok (witness, cache')) (hcache : CacheOk F defs n cache)
    (hs : LayoutOf F defs n ty s) :
    witness.summary F = .ok s ∧ CacheOk F defs n cache' := by
  unfold compilerAbiTypeLayoutWitness at h
  cases hs with
  | primitive hlayout =>
    cases h
    exact ⟨hlayout, hcache⟩
  | @array item length itemFeltSize element summary hitem hlayout =>
    simp only [bind_eq_ok] at h
    obtain ⟨⟨element', cache₁⟩, hbuild, h⟩ := h
    cases h
    obtain ⟨helement, hcache₁⟩ := buildCompilerAbiTypeLayout_spec depth hbuild hcache
    obtain rfl := hitem.unique helement
    exact ⟨hlayout, hcache₁⟩
  | @map mapKind key value capacity valueFeltSize alignmentFelts keyLayout valueLayout summary
      hkey hvalue hlayout =>
      simp only [bind_eq_ok] at h
      obtain ⟨⟨keyLayout', cache₁⟩, hbuildKey, ⟨valueLayout', cache₂⟩, hbuildValue, h⟩ := h
      cases h
      obtain ⟨hkey', hcache₁⟩ := buildCompilerAbiTypeLayout_spec depth hbuildKey hcache
      obtain ⟨hvalue', hcache₂⟩ := buildCompilerAbiTypeLayout_spec depth hbuildValue hcache₁
      obtain rfl := hkey.unique hkey'
      obtain rfl := hvalue.unique hvalue'
      exact ⟨hlayout, hcache₂⟩
  | @struct name definition members layout hdefinition hmembers hlayout =>
    simp only [bind_eq_ok] at h
    obtain ⟨cache₁, hbuilt, h⟩ := h
    have hcache₁ : CacheOk F defs n cache₁ := by
      unfold cacheStruct at hbuilt
      split at hbuilt
      next =>
        cases hbuilt
        exact hcache
      next =>
        rw [map_eq_ok] at hbuilt
        obtain ⟨⟨_, _⟩, hbuild, rfl⟩ := hbuilt
        exact (buildCompilerAbiTypeLayout_spec depth hbuild hcache).2
    cases hlookup : cache₁.lookup name with
    | none =>
      rw [hlookup] at h
      cases h
    | some layout' =>
      rw [hlookup] at h
      cases h
      obtain ⟨definition', members', hdefinition', hmembers', hlayout'⟩ :=
        hcache₁ name layout' hlookup
      obtain rfl := ok.inj (hdefinition.symm.trans hdefinition')
      obtain rfl := hmembers.unique hmembers'
      obtain rfl := ok.inj (hlayout.symm.trans hlayout')
      exact ⟨summary_of_structTypeLayout hlayout, hcache₁⟩

/-! ## §4. The nodes evaluate to the layout. -/

/-- The last node of a list is evaluated last. -/
theorem evaluateNodes_concat (nodes : List CanonicalTypeLayoutNode)
    (node : CanonicalTypeLayoutNode) :
    evaluateNodes F (nodes ++ [node]) = (evaluateNodes F nodes >>= fun summaries =>
      evaluateNode F summaries node >>= fun s => .ok (summaries ++ [s] :
        List (StateTypeLayoutSummary Hash))) := by
  unfold evaluateNodes
  simp

theorem length_evaluateNodes {nodes : List CanonicalTypeLayoutNode}
    (h : evaluateNodes F nodes = .ok summaries) : summaries.length = nodes.length := by
  induction nodes using reverseRecOn generalizing summaries with
  | nil =>
    cases h
    rfl
  | append_singleton nodes node ih =>
    simp only [evaluateNodes_concat, bind_eq_ok, ok.injEq] at h
    obtain ⟨before, hbefore, s, _, rfl⟩ := h
    rw [length_append, length_append, ih hbefore]
    rfl

variable (F) in
/-- **WHAT A WALK OVER A TYPE LEAVES**: nodes that evaluate, those that were there before as
before. -/
def Walked (summaries summaries' : List (StateTypeLayoutSummary Hash))
    (nodes : List CanonicalTypeLayoutNode) : Prop :=
  evaluateNodes F nodes = .ok summaries' ∧ summaries <+: summaries'

omit [MerkleHasher Hash] [DecidableEq Hash] in
theorem summaryOf_eq_ok {i : Nat} : summaryOf summaries i = .ok s ↔ summaries[i]? = some s := by
  unfold summaryOf
  cases summaries[i]? with
  | none => simp
  | some s' => simp

omit [MerkleHasher Hash] [DecidableEq Hash] in
theorem summaryOf_of_extends {i : Nat} (h : summaries <+: summaries')
    (hs : summaryOf summaries i = .ok s) : summaryOf summaries' i = .ok s := by
  rw [summaryOf_eq_ok] at hs ⊢
  obtain ⟨rest, rfl⟩ := h
  rw [getElem?_append_left (List.getElem?_eq_some_iff.mp hs).1, hs]

variable {nodes nodes' : List CanonicalTypeLayoutNode}

/-- The node that a walk ends with. -/
theorem pushNode_spec {node : CanonicalTypeLayoutNode} {index : Nat}
    (hpush : pushNode nodes node = .ok (index, nodes'))
    (hwalked : Walked F summaries summaries' nodes)
    (hnode : evaluateNode F summaries' node = .ok s) :
    ∃ summaries'', Walked F summaries summaries'' nodes' ∧ summaryOf summaries'' index = .ok s := by
  unfold pushNode at hpush
  rw [ite_error_eq_ok, ok.injEq, Prod.mk.injEq] at hpush
  obtain ⟨_, rfl, rfl⟩ := hpush
  obtain ⟨hnodes, hextends⟩ := hwalked
  refine ⟨summaries' ++ [s], ⟨?_, hextends.trans (prefix_append _ _)⟩, ?_⟩
  · rw [evaluateNodes_concat, hnodes]
    show (evaluateNode F summaries' node >>= _) = _
    rw [hnode]
    rfl
  · rw [summaryOf_eq_ok, ← length_evaluateNodes hnodes, getElem?_concat_length]

/-- The nodes of the members of a struct, when the nodes of each of them are right. -/
theorem appendMembers_spec {append : CompilerAbiTypeRef → List CanonicalTypeLayoutNode →
      Except String (Nat × List CanonicalTypeLayoutNode)}
    (happend : ∀ ty nodes nodes' index (summaries : List (StateTypeLayoutSummary Hash)) s,
      append ty nodes = .ok (index, nodes') → evaluateNodes F nodes = .ok summaries →
      LayoutOf F defs n ty s →
      ∃ summaries', Walked F summaries summaries' nodes' ∧ summaryOf summaries' index = .ok s)
    {members : List (StateTypeLayoutSummary Hash)}
    (hmembers : MembersOf F defs n fields members)
    {indices indices' : List Nat}
    (h : fields.foldlM (fun state member => do
        let (index, nodes) ← append member.ty state.2
        .ok (state.1 ++ [index], nodes)) (indices, nodes) = .ok (indices', nodes'))
    (hnodes : evaluateNodes F nodes = .ok summaries)
    (htypes : List.Forall₂ (fun i s => summaryOf summaries i = .ok s) indices types) :
    ∃ summaries', Walked F summaries summaries' nodes' ∧
      List.Forall₂ (fun i s => summaryOf summaries' i = .ok s) indices' (types ++ members) := by
  induction fields generalizing members indices nodes summaries types with
  | nil =>
    cases hmembers
    obtain ⟨rfl, rfl⟩ := h
    exact ⟨summaries, ⟨hnodes, prefix_rfl⟩, by rw [append_nil]; exact htypes⟩
  | cons field fields ih =>
    cases hmembers with
    | @cons _ _ member members hmember hmembers =>
      simp only [foldlM_cons, bind_eq_ok] at h
      obtain ⟨_, ⟨⟨index, nodes₁⟩, hfield, hstate⟩, h⟩ := h
      rw [← ok.inj hstate] at h
      obtain ⟨summaries₁, ⟨hnodes₁, hextends₁⟩, hindex⟩ :=
        happend _ _ _ _ _ _ hfield hnodes hmember
      have htypes₁ := rel_append (htypes.imp fun _ _ => summaryOf_of_extends hextends₁)
        (.cons hindex .nil)
      obtain ⟨summaries₂, ⟨hnodes₂, hextends₂⟩, htypes₂⟩ := ih hmembers h hnodes₁ htypes₁
      rw [append_assoc] at htypes₂
      exact ⟨summaries₂, ⟨hnodes₂, hextends₁.trans hextends₂⟩, htypes₂⟩

/-- **THE NODES EVALUATE TO THE LAYOUT.** -/
theorem appendCompilerAbiTypeDagNode_spec (depth : Nat) {visiting : List String} {index : Nat}
    (h : appendCompilerAbiTypeDagNode defs n depth ty visiting nodes = .ok (index, nodes'))
    (hnodes : evaluateNodes F nodes = .ok summaries)
    (hs : LayoutOf F defs n ty s) :
    ∃ summaries', Walked F summaries summaries' nodes' ∧ summaryOf summaries' index = .ok s := by
  induction depth generalizing ty visiting nodes nodes' index summaries s with
  | zero =>
    cases h
  | succ depth ih =>
    cases hs with
    | primitive hlayout =>
      exact pushNode_spec h ⟨hnodes, prefix_rfl⟩ hlayout
    | @array item length itemFeltSize element summary hitem hlayout =>
      rw [appendCompilerAbiTypeDagNode, bind_eq_ok] at h
      obtain ⟨⟨element', nodes₁⟩, hitem', h⟩ := h
      obtain ⟨summaries₁, hwalked, helement⟩ := ih hitem' hnodes hitem
      have hnode : evaluateNode F summaries₁ (.fixedArray element' length) = .ok s := by
        rw [evaluateNode, helement]
        exact hlayout
      exact pushNode_spec h hwalked hnode
    | @map mapKind key value capacity valueFeltSize alignmentFelts keyLayout valueLayout summary
        hkey hvalue hlayout =>
        rw [appendCompilerAbiTypeDagNode, bind_eq_ok] at h
        obtain ⟨⟨key', nodes₁⟩, hkey', h⟩ := h
        obtain ⟨⟨value', nodes₂⟩, hvalue', h⟩ := bind_eq_ok.mp h
        obtain ⟨summaries₁, ⟨hnodes₁, hextends₁⟩, hkeyIndex⟩ := ih hkey' hnodes hkey
        obtain ⟨summaries₂, ⟨hnodes₂, hextends₂⟩, hvalueIndex⟩ := ih hvalue' hnodes₁ hvalue
        have hnode : evaluateNode F summaries₂
            (.fixedMap mapKind.kind key' value' capacity alignmentFelts) = .ok s := by
          rw [evaluateNode, summaryOf_of_extends hextends₂ hkeyIndex, hvalueIndex]
          exact hlayout
        exact pushNode_spec h ⟨hnodes₂, hextends₁.trans hextends₂⟩ hnode
    | @struct name definition members layout hdefinition hmembers hlayout =>
      rw [appendCompilerAbiTypeDagNode] at h
      simp only [bind_eq_ok] at h
      obtain ⟨visiting', _, definition', hdefinition', ⟨indices, nodes₁⟩, hfields, h⟩ := h
      obtain rfl := ok.inj (hdefinition.symm.trans hdefinition')
      obtain ⟨summaries₁, hwalked, hindices⟩ := appendMembers_spec
        (fun _ _ _ _ _ _ ha hn hl => ih ha hn hl) hmembers hfields hnodes .nil
      rw [ite_error_eq_ok] at h
      have hnode : evaluateNode F summaries₁ (.struct indices n) =
          .ok layout.summary := by
        rw [evaluateNode, mapM_eq_ok.mpr hindices, nil_append, bind_eq_ok]
        refine ⟨members, rfl, ?_⟩
        rw [hlayout]
        rfl
      exact pushNode_spec h.2 hwalked hnode

/-- The nodes of a field evaluate to the layout of its type. -/
theorem fieldTypeDag_spec {depth : Nat} {field : CompilerAbiLayoutField}
    {dag : CanonicalTypeLayoutDag}
    (h : fieldTypeDag defs n depth field = .ok dag)
    (hs : LayoutOf F defs n field.ty s) : dag.evaluate F = .ok s := by
  unfold fieldTypeDag at h
  simp only [bind_eq_ok, ok.injEq] at h
  obtain ⟨⟨root, nodes⟩, hnodes, _, hshape, rfl⟩ := h
  obtain ⟨summaries, ⟨hsummaries, _⟩, hroot⟩ :=
    appendCompilerAbiTypeDagNode_spec depth hnodes (show evaluateNodes F [] = .ok [] from rfl) hs
  unfold CanonicalTypeLayoutDag.evaluate
  rw [hshape, bind_eq_ok]
  refine ⟨(), rfl, ?_⟩
  rw [hsummaries]
  exact hroot

/-! ## §5. The fields of a contract. -/

/-- What the loop over the fields collects of one of them. -/
structure FieldRow (Hash : Type) where
  fieldType : StateTypeLayoutSummary Hash
  fieldTypeLayout : StateTypeLayoutWitness Hash
  payloadOffset : Nat

variable (F definitions membersTreeHeight) in
/-- **ONE FIELD**: the builder computed the layout of its type, and the witness has it too. -/
structure FieldOk (depth : Nat) (field : CompilerAbiLayoutField) (row : FieldRow Hash) : Prop where
  built : ∃ cache cache', buildCompilerAbiTypeLayout F definitions membersTreeHeight depth
    field.ty [] cache = .ok (row.fieldType, cache')
  layout : LayoutOf F definitions membersTreeHeight field.ty row.fieldType
  summary : row.fieldTypeLayout.summary F = .ok row.fieldType

variable (F definitions membersTreeHeight) in
/-- What the loop has collected after `fields`. -/
structure FieldsOk (depth : Nat) (fields : List CompilerAbiLayoutField)
    (state : FieldLayouts Hash) : Prop where
  cache : CacheOk F definitions membersTreeHeight state.cache
  rows : ∃ rows : List (FieldRow Hash),
    List.Forall₂ (FieldOk F definitions membersTreeHeight depth) fields rows ∧
    state.fieldTypes = rows.map (fun row => row.fieldType) ∧
    state.fieldTypeLayouts = rows.map (fun row => row.fieldTypeLayout) ∧
    state.payloadOffsets = rows.map (fun row => row.payloadOffset)

/-- One field keeps the invariant of the loop. -/
theorem layoutField_spec {depth index : Nat} {fields : List CompilerAbiLayoutField}
    {field : CompilerAbiLayoutField} {state state' : FieldLayouts Hash}
    (h : layoutField F defs n depth state (field, index) = .ok state')
    (hstate : FieldsOk F defs n depth fields state) :
    FieldsOk F defs n depth (fields ++ [field]) state' := by
  unfold layoutField at h
  simp only [ite_error_eq_ok, bind_eq_ok] at h
  obtain ⟨_, _, _, _, _, _, ⟨fieldType, cache₁⟩, hbuild, ⟨witness, cache₂⟩, hwitness, h⟩ := h
  simp only [ok.injEq] at h
  obtain ⟨_, nextSlot, _, rfl⟩ := h
  obtain ⟨hlayout, hcache₁⟩ := buildCompilerAbiTypeLayout_spec depth hbuild hstate.cache
  obtain ⟨hsummary, hcache₂⟩ := compilerAbiTypeLayoutWitness_spec hwitness hcache₁ hlayout
  obtain ⟨rows, hrows, htypes, hlayouts, hoffsets⟩ := hstate.rows
  refine ⟨hcache₂, rows ++ [⟨fieldType, witness, field.payloadOffset⟩], ?_, ?_, ?_, ?_⟩
  · exact rel_append hrows (.cons ⟨⟨_, _, hbuild⟩, hlayout, hsummary⟩ .nil)
  · rw [map_append, ← htypes]
    rfl
  · rw [map_append, ← hlayouts]
    rfl
  · rw [map_append, ← hoffsets]
    rfl

/-- The whole loop. -/
theorem layoutFields_spec {depth : Nat} {fields : List CompilerAbiLayoutField}
    {state : FieldLayouts Hash}
    (h : fields.zipIdx.foldlM (layoutField F defs n depth)
      ⟨[], 0, [], [], []⟩ = .ok state) :
    FieldsOk F defs n depth fields state := by
  have hloop := foldlM_zipIdx_of_step
    (P := fun i => FieldsOk F defs n depth (fields.take i))
    (fun i field state state' hfield hstep hstate => by
      rw [take_add_one, hfield]
      exact layoutField_spec hstep hstate) h
      ⟨fun _ _ h => absurd h (by simp), [], .nil, rfl, rfl, rfl⟩
  rw [take_length] at hloop
  exact hloop

omit [MerkleHasher Hash] in
/-- Each field of the contract is made from the layout of its type. -/
theorem stateFields_spec {index startSlot total : Nat}
    {items : List (StateTypeLayoutSummary Hash × Nat)}
    {fields : List (StateFieldLayoutLeaf Hash × Hash)}
    (h : stateFields F index startSlot items = .ok (fields, total)) :
    List.Forall₂ (fun item field => field.1.typeLayoutHash = item.1.typeLayoutHash ∧
      field.1.slotCount = item.1.totalSlotCount + field.1.payloadOffset) items fields := by
  induction items generalizing index startSlot fields with
  | nil =>
    rw [stateFields, ok.injEq, Prod.mk.injEq] at h
    rw [← h.1]
    exact .nil
  | cons item items ih =>
    simp only [stateFields, bind_eq_ok] at h
    obtain ⟨leaf, hleaf, hash, _, start', _, ⟨rest, total'⟩, hrest, h⟩ := h
    cases h
    unfold StateFieldLayoutLeaf.newWithPayloadOffset StateFieldLayoutLeaf.new at hleaf
    simp only [bind_eq_ok, ite_error_eq_ok, checkedAdd_eq_ok, ok.injEq] at hleaf
    obtain ⟨_, ⟨_, _, _, rfl⟩, _, ⟨_, rfl⟩, rfl⟩ := hleaf
    exact .cons ⟨rfl, rfl⟩ (ih hrest)

theorem exists_getElem?_of_forall₂ {α β : Type} {R : α → β → Prop} {l : List α} {r : List β}
    (h : List.Forall₂ R l r) {i : Nat} {a : α} (ha : l[i]? = some a) :
    ∃ b, r[i]? = some b ∧ R a b := by
  induction h generalizing i with
  | nil => cases ha
  | @cons a' b' l r hab _ ih =>
    cases i with
    | zero => exact ⟨b', rfl, Option.some.inj ha ▸ hab⟩
    | succ i => exact ih ha

/-- What an accepted document has at every field. -/
theorem contractStateLayoutFromCompilerAbi_spec {abi : CompilerAbiDocument}
    {stateLayoutTreeHeight depth : Nat}
    {layout : CanonicalContractStateLayout Hash}
    (h : contractStateLayoutFromCompilerAbi F abi stateLayoutTreeHeight n depth =
      .ok layout) : ∃ rows : List (FieldRow Hash),
      List.Forall₂ (FieldOk F abi.types n depth) abi.stateLayout.fields rows ∧
      layout.fieldTypeLayouts = rows.map (fun row => row.fieldTypeLayout) ∧
      List.Forall₂ (fun row leaf =>
        leaf.typeLayoutHash = row.fieldType.typeLayoutHash ∧
        leaf.slotCount = row.fieldType.totalSlotCount + leaf.payloadOffset)
        rows layout.contractLayout.fields := by
  unfold contractStateLayoutFromCompilerAbi compilerDefinitions at h
  simp only [ite_error_eq_ok, bind_eq_ok, ok.injEq] at h
  obtain ⟨_, _, _, defs, ⟨_, rfl⟩, layouts, hlayouts, _, contract, hcontract, _, rfl⟩ := h
  obtain ⟨_, rows, hrows, htypes, hwitnesses, hoffsets⟩ :=
    layoutFields_spec hlayouts
  refine ⟨rows, hrows, hwitnesses, ?_⟩
  unfold contractStateLayoutWithPayloadOffsets at hcontract
  rw [htypes, hoffsets, zip_map'] at hcontract
  simp only [ite_error_eq_ok, bind_eq_ok] at hcontract
  obtain ⟨_, _, _, ⟨fields, slots⟩, hfields, hcontract⟩ := hcontract
  simp only [ok.injEq] at hcontract
  obtain ⟨_, root, _, rfl⟩ := hcontract
  have hleaves := stateFields_spec hfields
  rw [forall₂_map_left_iff] at hleaves
  rw [forall₂_map_right_iff]
  exact hleaves

end

/-- **THE THREE LAYOUTS OF A FIELD AGREE**: in every manifest made from a compiler's ABI, the
nodes of a field evaluate to the summary of its witness, which the recursive builder computed for
it and which the contract's layout commits to. -/
theorem manifest_types_agree (F : Type) {Hash : Type} [QFelt64 F] [HashTo4Felts F Hash]
    [FieldQHasher F Hash] [MerkleHasher Hash] [DecidableEq Hash] (abi : CompilerAbiDocument)
    (stateLayoutTreeHeight membersTreeHeight depth : Nat) (manifest : CanonicalLayoutManifest Hash)
    (h : canonicalLayoutManifestFromCompilerAbi F abi stateLayoutTreeHeight membersTreeHeight
      depth = .ok manifest) : manifest.fieldTypeDags.length = abi.stateLayout.fields.length ∧
    ∀ (i : Nat) (field : CompilerAbiLayoutField), abi.stateLayout.fields[i]? = some field →
      ∃ (summary : StateTypeLayoutSummary Hash) (dag : CanonicalTypeLayoutDag)
        (fieldTypeLayout : StateTypeLayoutWitness Hash) (leaf : StateFieldLayoutLeaf Hash),
        manifest.fieldTypeDags[i]? = some dag ∧
        dag.evaluate F = .ok summary ∧
        manifest.layout.fieldTypeLayouts[i]? = some fieldTypeLayout ∧
        fieldTypeLayout.summary F = .ok summary ∧
        (∃ cache cache', buildCompilerAbiTypeLayout F abi.types membersTreeHeight depth field.ty []
          cache = .ok (summary, cache')) ∧
        manifest.layout.contractLayout.fields[i]? = some leaf ∧
        leaf.typeLayoutHash = summary.typeLayoutHash ∧
        leaf.slotCount = summary.totalSlotCount + leaf.payloadOffset := by
  unfold canonicalLayoutManifestFromCompilerAbi canonicalTypeLayoutDagsFromCompilerAbi
    compilerDefinitions at h
  simp only [ite_error_eq_ok, bind_eq_ok, ok.injEq] at h
  obtain ⟨layout, hlayout, dags, ⟨_, ⟨_, rfl⟩, hdags⟩, _, rfl⟩ := h
  obtain ⟨rows, hrows, hwitnesses, hleaves⟩ := contractStateLayoutFromCompilerAbi_spec hlayout
  have hdags := mapM_eq_ok.mp hdags
  refine ⟨hdags.length_eq.symm, ?_⟩
  intro i field hfield
  obtain ⟨row, hrow, hok⟩ := exists_getElem?_of_forall₂ hrows hfield
  obtain ⟨dag, hdag, hevaluate⟩ := exists_getElem?_of_forall₂ hdags hfield
  obtain ⟨leaf, hleaf, hhash, hslots⟩ := exists_getElem?_of_forall₂ hleaves hrow
  refine ⟨row.fieldType, dag, row.fieldTypeLayout, leaf, hdag,
    fieldTypeDag_spec hevaluate hok.layout, ?_, hok.summary, hok.built, hleaf, hhash, hslots⟩
  show layout.fieldTypeLayouts[i]? = _
  rw [hwitnesses, getElem?_map, hrow]
  rfl

/-- A contract with a point and a map of points. -/
def pointsAbi : CompilerAbiDocument :=
  { stateTreeHeight := 8
    stateLayout :=
      { layoutVersion := stateLayoutVersion
        encodingVersion := stateLayoutEncodingVersion
        fieldCount := 2
        slotCount := 48
        fields :=
          [⟨1, .struct "Point", 0, 0, 9⟩,
           ⟨2, .map .contractHashMap (.primitive .felt) (.struct "Point") 4 9 4, 9, 3, 39⟩] }
    types := [⟨"Point", [⟨.primitive .felt, 0, 1⟩, ⟨.array (.primitive .hash) 2 4, 1, 8⟩]⟩] }

theorem pointsAbi_accepted : ∃ manifest : CanonicalLayoutManifest SymHash,
      canonicalLayoutManifestFromCompilerAbi Nat pointsAbi 2 2 5 = .ok manifest :=
  exists_of_isOk (by decide +kernel)

theorem manifest_types_agree_points :
    ∃ (manifest : CanonicalLayoutManifest SymHash) (summary : StateTypeLayoutSummary SymHash)
      (dag : CanonicalTypeLayoutDag) (fieldTypeLayout : StateTypeLayoutWitness SymHash),
      canonicalLayoutManifestFromCompilerAbi Nat pointsAbi 2 2 5 = .ok manifest ∧
      manifest.fieldTypeDags[1]? = some dag ∧ dag.evaluate Nat = .ok summary ∧
      manifest.layout.fieldTypeLayouts[1]? = some fieldTypeLayout ∧
      fieldTypeLayout.summary Nat = .ok summary := by
  obtain ⟨manifest, h⟩ := pointsAbi_accepted
  obtain ⟨summary, dag, fieldTypeLayout, leaf, hdag, hevaluate, hlayout, hsummary, _⟩ :=
    (manifest_types_agree Nat pointsAbi 2 2 5 manifest h).2 1 _ rfl
  exact ⟨manifest, summary, dag, fieldTypeLayout, h, hdag, hevaluate, hlayout, hsummary⟩

end PsyNode.Layout
