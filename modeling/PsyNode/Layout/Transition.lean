/-
PsyNode.Layout.Transition
**LAYOUT TRANSITIONS AFTER THE BATCH PROOFS** — joining them, and binding them to
the contract leaves.
-/
import PsyNode.Contract.Leaf
import PsyNode.Layout.AppendSound
import PsyNode.Layout.Compiler

namespace PsyNode.Layout

open Merkle Contract Lib List
open Option hiding map_map

def stateLayoutAppendAggDomain : Nat := 0x534c41475631

namespace LayoutAppendPublicInputs

/-- The layout before a transition: root, fields and slots. -/
def oldState {Hash : Type} (t : LayoutAppendPublicInputs Hash) : Hash × Nat × Nat :=
  (t.oldLayoutRoot, t.oldLayoutFieldCount, t.oldLayoutSlotCount)

/-- The layout after it. -/
def newState {Hash : Type} (t : LayoutAppendPublicInputs Hash) : Hash × Nat × Nat :=
  (t.newLayoutRoot, t.newLayoutFieldCount, t.newLayoutSlotCount)

/-- The second transition starts where the first ends. -/
def Follows {Hash : Type} (left right : LayoutAppendPublicInputs Hash) : Prop :=
  left.contractId = right.contractId ∧ left.newState = right.oldState

end LayoutAppendPublicInputs

open LayoutAppendPublicInputs

section
variable (F : Type) {Hash : Type} [QFelt64 F] [HashTo4Felts F Hash] [FieldQHasher F Hash]

/-! ## §1. Joining two transitions. -/

/-- The transition over both, with the commitment to both commitments. -/
def joinedTransition (left right : LayoutAppendPublicInputs Hash) (appendedFieldCount : Nat) :
    LayoutAppendPublicInputs Hash :=
  { left with
    newLayoutRoot := right.newLayoutRoot
    newLayoutFieldCount := right.newLayoutFieldCount
    newLayoutSlotCount := right.newLayoutSlotCount
    appendedFieldCount := appendedFieldCount
    appendedFieldsCommitment := qHashMany
      ([fromU64Value stateLayoutAppendAggDomain] ++
        hashFelts F left.appendedFieldsCommitment ++ [fromU64Value left.appendedFieldCount] ++
        hashFelts F right.appendedFieldsCommitment ++ [fromU64Value right.appendedFieldCount]) }

variable [DecidableEq Hash]

def aggregateLayoutTransitions (left right : LayoutAppendPublicInputs Hash) :
    Except String (LayoutAppendPublicInputs Hash) := do
  left.validateShape
  right.validateShape
  require (left.contractId = right.contractId)
    "cannot aggregate layout proofs for different contracts"
  require (left.layoutVersion = right.layoutVersion) "cannot aggregate different layout versions"
  require (left.newLayoutRoot = right.oldLayoutRoot) "layout roots are not continuous"
  require (left.newLayoutFieldCount = right.oldLayoutFieldCount)
    "layout field counts are not continuous"
  require (left.newLayoutSlotCount = right.oldLayoutSlotCount)
    "layout slot counts are not continuous"
  let appendedFieldCount ← checkedAdd left.appendedFieldCount right.appendedFieldCount
    "aggregated field count overflow"
  let parent := joinedTransition F left right appendedFieldCount
  parent.validateShape
  .ok parent

/-- The join of two well-shaped transitions in a row is well-shaped: the field counts bound
the sum, and nothing is appended only if neither appends. -/
theorem validateShape_joined {left right : LayoutAppendPublicInputs Hash}
    (hleft : left.validateShape = .ok ()) (hright : right.validateShape = .ok ())
    (h : left.Follows right) : (joinedTransition F left right
      (left.appendedFieldCount + right.appendedFieldCount)).validateShape = .ok () := by
  rw [validateShape_eq_ok] at hleft hright ⊢
  obtain ⟨hversion, _, hfields, hslots, hid⟩ := hleft
  obtain ⟨_, hbound', hfields', hslots', hid'⟩ := hright
  obtain ⟨hroot, hcount, hslot⟩ : left.newLayoutRoot = right.oldLayoutRoot ∧
      left.newLayoutFieldCount = right.oldLayoutFieldCount ∧
      left.newLayoutSlotCount = right.oldLayoutSlotCount := by
    simpa [newState, oldState] using h.2
  simp only [joinedTransition]
  refine ⟨hversion, by omega, by omega, by omega, ?_⟩
  intro hzero
  obtain ⟨hr, hs⟩ := hid (by omega)
  obtain ⟨hr', hs'⟩ := hid' (by omega)
  exact ⟨by rw [hr, hroot, hr'], by omega⟩

theorem aggregateLayoutTransitions_eq_ok {left right parent : LayoutAppendPublicInputs Hash}
    (hleft : left.validateShape = .ok ()) (hright : right.validateShape = .ok ()) :
    aggregateLayoutTransitions F left right = .ok parent ↔ left.Follows right ∧
      parent = joinedTransition F left right
        (left.appendedFieldCount + right.appendedFieldCount) := by
  have hversions : left.layoutVersion = right.layoutVersion :=
    (validateShape_eq_ok.mp hleft).1.trans (validateShape_eq_ok.mp hright).1.symm
  unfold aggregateLayoutTransitions
  simp only [hleft, hright, bind_eq_ok, require_eq_ok, checkedAdd_eq_ok, Unique.exists_iff,
    true_and, Except.ok.injEq]
  constructor
  · intro h
    obtain ⟨hid, _, hroot, hfields, hslots, _, ⟨_, rfl⟩, _, rfl⟩ := h
    exact ⟨⟨hid, by simp [newState, oldState, hroot, hfields, hslots]⟩, rfl⟩
  · intro h
    obtain ⟨hfollows, rfl⟩ := h
    have hjoined := validateShape_joined F hleft hright hfollows
    have hbound := (validateShape_eq_ok.mp hjoined).2.1
    obtain ⟨hid, hstate⟩ := hfollows
    simp only [newState, oldState, Prod.mk.injEq] at hstate
    refine ⟨hid, hversions, hstate.1, hstate.2.1, hstate.2.2, _, ⟨?_, rfl⟩, hjoined, rfl⟩
    simp only [joinedTransition] at hbound
    omega

/-! ## §2. Joining a sequence. -/

/-- A way to join the items of a sequence two by two. -/
inductive Bracketing (α : Type)
  | single (item : α)
  | join (left right : Bracketing α)

/-- The sequence that is joined. -/
def Bracketing.items {α : Type} : Bracketing α → List α
  | .single item => [item]
  | .join left right => left.items ++ right.items

/-- Joining transitions as the bracketing says. -/
def Bracketing.aggregate : Bracketing (LayoutAppendPublicInputs Hash) →
    Except String (LayoutAppendPublicInputs Hash)
  | .single item => .ok item
  | .join left right => do
    let l ← left.aggregate
    let r ← right.aggregate
    aggregateLayoutTransitions F l r

omit [QFelt64 F] [HashTo4Felts F Hash] [FieldQHasher F Hash]

/-- A transition over a whole sequence. -/
structure Spans (t : LayoutAppendPublicInputs Hash) (ts : List (LayoutAppendPublicInputs Hash)) :
    Prop where
  shape : t.validateShape = .ok ()
  first : ∃ u ∈ ts.head?, u.contractId = t.contractId ∧ u.oldState = t.oldState
  last : ∃ u ∈ ts.getLast?, u.contractId = t.contractId ∧ u.newState = t.newState
  count : t.appendedFieldCount = (ts.map (fun u => u.appendedFieldCount)).sum

variable {F} [QFelt64 F] [HashTo4Felts F Hash] [FieldQHasher F Hash]

section
variable {l r : LayoutAppendPublicInputs Hash} {ls rs : List (LayoutAppendPublicInputs Hash)}
  (hl : Spans l ls) (hr : Spans r rs)
include hl hr

theorem Spans.follows_iff : l.Follows r ↔ ∀ x ∈ ls.getLast?, ∀ y ∈ rs.head?, x.Follows y := by
  obtain ⟨x, hx, hxid, hxstate⟩ := hl.last
  obtain ⟨y, hy, hyid, hystate⟩ := hr.first
  rw [mem_def] at hx hy
  simp only [hx, hy, mem_def, some.injEq, forall_eq', Follows, hxid, hyid, hxstate, hystate]

theorem Spans.join (h : l.Follows r) :
    Spans (joinedTransition F l r (l.appendedFieldCount + r.appendedFieldCount)) (ls ++ rs) := by
  obtain ⟨x, hx, hxid, hxstate⟩ := hl.first
  obtain ⟨y, hy, hyid, hystate⟩ := hr.last
  refine ⟨validateShape_joined F hl.shape hr.shape h, ⟨x, ?_, hxid, hxstate⟩,
    ⟨y, ?_, hyid.trans h.1.symm, hystate⟩, ?_⟩
  · rw [mem_def] at hx ⊢
    rw [head?_append, hx, some_or]
  · rw [mem_def] at hy ⊢
    rw [getLast?_append, hy, some_or]
  · rw [map_append, sum_append, ← hl.count, ← hr.count]
    rfl

end

/-- **WHAT A BRACKETING DEPENDS ON**: it succeeds exactly on the sequences in which each
transition follows the one before. -/
theorem Bracketing.aggregate_spec (b : Bracketing (LayoutAppendPublicInputs Hash))
    (hshape : ∀ t ∈ b.items, t.validateShape = .ok ()) :
    (∀ t, b.aggregate F = .ok t → Spans t b.items ∧ b.items.IsChain Follows) ∧
      (b.items.IsChain Follows → ∃ t, b.aggregate F = .ok t) := by
  induction b with
  | single item =>
    refine ⟨?_, fun _ => ⟨item, rfl⟩⟩
    intro t h
    obtain rfl : item = t := Except.ok.inj h
    exact ⟨⟨hshape item (mem_singleton.mpr rfl), ⟨item, rfl, rfl, rfl⟩, ⟨item, rfl, rfl, rfl⟩,
      rfl⟩, isChain_singleton _⟩
  | join left right ihl ihr =>
    obtain ⟨hl, hl'⟩ := ihl (fun t ht => hshape t (mem_append_left _ ht))
    obtain ⟨hr, hr'⟩ := ihr (fun t ht => hshape t (mem_append_right _ ht))
    simp only [Bracketing.aggregate, Bracketing.items, bind_eq_ok, isChain_append]
    constructor
    · intro t h
      obtain ⟨l, hlok, r, hrok, h⟩ := h
      obtain ⟨hlspan, hlchain⟩ := hl l hlok
      obtain ⟨hrspan, hrchain⟩ := hr r hrok
      obtain ⟨hfollows, rfl⟩ :=
        (aggregateLayoutTransitions_eq_ok F hlspan.shape hrspan.shape).mp h
      exact ⟨hlspan.join hrspan hfollows, hlchain, hrchain, (hlspan.follows_iff hrspan).mp hfollows⟩
    · intro h
      obtain ⟨hlchain, hrchain, hjoin⟩ := h
      obtain ⟨l, hlok⟩ := hl' hlchain
      obtain ⟨r, hrok⟩ := hr' hrchain
      have hlspan := (hl l hlok).1
      have hrspan := (hr r hrok).1
      exact ⟨_, l, hlok, r, hrok, (aggregateLayoutTransitions_eq_ok F hlspan.shape
        hrspan.shape).mpr ⟨(hlspan.follows_iff hrspan).mpr hjoin, rfl⟩⟩

/-- An accepted batch: its transition is well-shaped and counts the fields it appends. -/
theorem accepted_shape [MerkleHasher Hash] {batch : LayoutAppendBatchWitness Hash}
    (h : batch.validate F = .ok ()) : batch.publicInputs.validateShape = .ok () ∧
      batch.appendedFields.length = batch.publicInputs.appendedFieldCount := by
  unfold LayoutAppendBatchWitness.validate at h
  simp only [bind_eq_ok, Unique.exists_iff, ite_error_eq_ok] at h
  obtain ⟨hshape, _, hcounts, _⟩ := h
  unfold LayoutAppendBatchWitness.checkCounts at hcounts
  simp only [ite_error_eq_ok, not_not] at hcounts
  exact ⟨hshape, hcounts.2.1⟩

end

/-- **THE BRACKETING OF AN AGGREGATION DOES NOT MATTER.**  If the transitions of accepted
batches can be joined in one bracketing, they can be in each, from the first old layout to
the last new one, with all appended fields counted. -/
theorem layout_aggregation_bracketing (F : Type) {Hash : Type} [QFelt64 F] [HashTo4Felts F Hash]
    [FieldQHasher F Hash] [MerkleHasher Hash] [DecidableEq Hash]
    (batches : List (LayoutAppendBatchWitness Hash))
    (haccepted : ∀ batch ∈ batches, batch.validate F = .ok ())
    (b : Bracketing (LayoutAppendPublicInputs Hash))
    (hb : b.items = batches.map (fun batch => batch.publicInputs))
    (result : LayoutAppendPublicInputs Hash) (h : b.aggregate F = .ok result) :
    ∃ first last, batches.head? = some first ∧ batches.getLast? = some last ∧
      ∀ b' : Bracketing (LayoutAppendPublicInputs Hash),
        b'.items = batches.map (fun batch => batch.publicInputs) →
        ∃ result', b'.aggregate F = .ok result' ∧
          result'.oldState = first.publicInputs.oldState ∧
          result'.newState = last.publicInputs.newState ∧
          result'.appendedFieldCount =
            (batches.map (fun batch => batch.appendedFields.length)).sum := by
  have hshape : ∀ t ∈ batches.map (fun batch => batch.publicInputs), t.validateShape = .ok () := by
    intro t ht
    obtain ⟨batch, hmem, rfl⟩ := mem_map.mp ht
    exact (accepted_shape (haccepted batch hmem)).1
  obtain ⟨hspan, hchain⟩ := (b.aggregate_spec (hb ▸ hshape)).1 result h
  rw [hb] at hspan hchain
  obtain ⟨_, hhead, _⟩ := hspan.first
  obtain ⟨_, hlast, _⟩ := hspan.last
  rw [head?_map] at hhead
  rw [getLast?_map] at hlast
  obtain ⟨first, hfirst, _⟩ := Option.map_eq_some_iff.mp hhead
  obtain ⟨last, hlast, _⟩ := Option.map_eq_some_iff.mp hlast
  refine ⟨first, last, hfirst, hlast, ?_⟩
  intro b' hb'
  obtain ⟨hspans, hok⟩ := b'.aggregate_spec (F := F) (hb' ▸ hshape)
  obtain ⟨result', hresult'⟩ := hok (hb' ▸ hchain)
  have hspan' := (hspans result' hresult').1
  rw [hb'] at hspan'
  refine ⟨result', hresult', ?_, ?_, ?_⟩
  · obtain ⟨u, hu, _, hstate⟩ := hspan'.first
    rw [head?_map, hfirst] at hu
    obtain rfl : first.publicInputs = u := some.inj hu
    exact hstate.symm
  · obtain ⟨u, hu, _, hstate⟩ := hspan'.last
    rw [getLast?_map, hlast] at hu
    obtain rfl : last.publicInputs = u := some.inj hu
    exact hstate.symm
  · rw [hspan'.count, map_map]
    exact congrArg List.sum (map_congr_left
      (fun batch hmem => (accepted_shape (haccepted batch hmem)).2.symm))

/-- A batch that appends nothing after the second field. -/
def identityBatch : LayoutAppendBatchWitness SymHash :=
  let root := SymHash.node (.node (.leaf 7) secondFieldHash) (.node .zero .zero)
  let window := SymHash.node (.leaf 7) secondFieldHash
  { spidermanUpdateProof :=
      { topLineProof := ⟨root, window, root, window, 0, [.node .zero .zero]⟩
        webProofOldLeaves := [.leaf 7, secondFieldHash]
        webProofNewLeaves := [.leaf 7, secondFieldHash] }
    appendedFields := []
    appendedTypeLayouts := []
    canonicalTypeProofs := []
    publicInputs := ⟨3, stateLayoutVersion, root, 2, 6, root, 2, 6, 0,
      qHashMany ([stateLayoutAppendBatchDomain, 3, 2, 6, 0] ++
        hashFelts Nat SymHash.zero ++ hashFelts Nat SymHash.zero)⟩ }

/-- One field and twice nothing, joined from the left and from the right. -/
theorem layout_aggregation_bracketing_three :
    let second := secondFieldBatch.publicInputs
    let identity := identityBatch.publicInputs
    ∃ result, (Bracketing.join (.single second) (.join (.single identity)
      (.single identity))).aggregate Nat = .ok result ∧ result.oldState = second.oldState ∧
      result.newState = identity.newState ∧ result.appendedFieldCount = 1 := by
  have haccepted : ∀ batch ∈ [secondFieldBatch, identityBatch, identityBatch],
      batch.validate Nat = .ok () := by
    intro batch hmem
    simp only [mem_cons, not_mem_nil, or_false] at hmem
    rcases hmem with rfl | rfl | rfl <;> decide +kernel
  obtain ⟨first, last, hfirst, hlast, hall⟩ := layout_aggregation_bracketing Nat
    [secondFieldBatch, identityBatch, identityBatch] haccepted
    (.join (.join (.single secondFieldBatch.publicInputs) (.single identityBatch.publicInputs))
      (.single identityBatch.publicInputs)) rfl _ rfl
  cases hfirst
  cases hlast
  exact hall _ rfl

/-! ## §3. The transition against the contract leaves. -/

section
variable {F Hash : Type} [QFelt64 F]

/-- `a * b` on `u64`: with overflow checks it panics, without them it wraps. -/
def mulU64 (overflowChecks : Bool) (a b : Nat) : Except String Nat :=
  if a * b < 2 ^ 64 then .ok (a * b)
  else if overflowChecks then .error "attempt to multiply with overflow"
  else .ok (a * b % 2 ^ 64)

/-- `validate_contract_layout_transition`, in a build with or without overflow checks. -/
def validateContractLayoutTransition [DecidableEq F] [DecidableEq Hash] (overflowChecks : Bool)
    (contractId : Nat) (oldLeaf newLeaf : PQEDContractLeafV2 F Hash)
    (transition : LayoutAppendPublicInputs Hash) : Except String Unit := do
  transition.validateShape
  require (transition.contractId = contractId)
    s!"layout transition belongs to contract {transition.contractId}, expected {contractId}"
  require (oldLeaf.deployer = newLeaf.deployer) "contract deployer cannot change during update"
  require (oldLeaf.stateTreeHeight = newLeaf.stateTreeHeight)
    "contract state tree height cannot change during update"
  require (oldLeaf.stateLayoutRoot = transition.oldLayoutRoot ∧
      newLeaf.stateLayoutRoot = transition.newLayoutRoot)
    "contract leaf layout roots do not match transition endpoints"
  require (toU64Value oldLeaf.stateLayoutFieldCount = transition.oldLayoutFieldCount ∧
      toU64Value newLeaf.stateLayoutFieldCount = transition.newLayoutFieldCount)
    "contract leaf layout field counts do not match transition endpoints"
  require (toU64Value oldLeaf.stateLayoutSlotCount = transition.oldLayoutSlotCount ∧
      toU64Value newLeaf.stateLayoutSlotCount = transition.newLayoutSlotCount)
    "contract leaf layout slot counts do not match transition endpoints"
  let stateTreeHeight := toU64Value oldLeaf.stateTreeHeight
  if stateTreeHeight < 64 then do
    let capacity ← mulU64 overflowChecks (1 <<< stateTreeHeight) 4
    require (transition.newLayoutSlotCount ≤ capacity)
      (s!"layout uses {transition.newLayoutSlotCount} slots but state tree height " ++
        s!"{stateTreeHeight} has capacity {capacity}")
  else .ok ()

/-- The leaves of one contract, with the endpoints of the transition. -/
structure LeavesMatch (contractId : Nat) (oldLeaf newLeaf : PQEDContractLeafV2 F Hash)
    (transition : LayoutAppendPublicInputs Hash) : Prop where
  contract : transition.contractId = contractId
  deployer : oldLeaf.deployer = newLeaf.deployer
  height : oldLeaf.stateTreeHeight = newLeaf.stateTreeHeight
  roots : oldLeaf.stateLayoutRoot = transition.oldLayoutRoot ∧
    newLeaf.stateLayoutRoot = transition.newLayoutRoot
  fields : toU64Value oldLeaf.stateLayoutFieldCount = transition.oldLayoutFieldCount ∧
    toU64Value newLeaf.stateLayoutFieldCount = transition.newLayoutFieldCount
  slots : toU64Value oldLeaf.stateLayoutSlotCount = transition.oldLayoutSlotCount ∧
    toU64Value newLeaf.stateLayoutSlotCount = transition.newLayoutSlotCount

/-- **WHAT THE CHECK ACCEPTS** of matching leaves: below height 62 the slots of the state tree; at
62 and 63, where `(1u64 << height) * 4` is `2 ^ 64` or more, nothing but zero slots, and that only
without overflow checks; above, everything. -/
theorem validateContractLayoutTransition_eq_ok [DecidableEq F] [DecidableEq Hash]
    {overflowChecks : Bool} {contractId : Nat} {oldLeaf newLeaf : PQEDContractLeafV2 F Hash}
    {transition : LayoutAppendPublicInputs Hash}
    (hmatch : LeavesMatch contractId oldLeaf newLeaf transition) :
    validateContractLayoutTransition overflowChecks contractId oldLeaf newLeaf transition = .ok () ↔
      transition.validateShape = .ok () ∧
      (toU64Value oldLeaf.stateTreeHeight < 62 →
        transition.newLayoutSlotCount ≤ 4 * 2 ^ toU64Value oldLeaf.stateTreeHeight) ∧
      (62 ≤ toU64Value oldLeaf.stateTreeHeight → toU64Value oldLeaf.stateTreeHeight < 64 →
        overflowChecks = false ∧ transition.newLayoutSlotCount = 0) := by
  unfold validateContractLayoutTransition
  simp only [bind_eq_ok, require_eq_ok, Unique.exists_iff, hmatch.contract, hmatch.deployer,
    hmatch.height, hmatch.roots, hmatch.fields, hmatch.slots, and_self, true_and]
  generalize toU64Value newLeaf.stateTreeHeight = height
  refine and_congr_right (fun _ => ?_)
  rw [Nat.one_shiftLeft]
  by_cases hsmall : height < 62
  · have hpow : 2 ^ height ≤ 2 ^ 61 := Nat.pow_le_pow_right (by omega) (by omega)
    have hmul : mulU64 overflowChecks (2 ^ height) 4 = .ok (2 ^ height * 4) := if_pos (by omega)
    simp only [show height < 64 by omega, if_true, hmul, bind_eq_ok, require_eq_ok,
      Except.ok.injEq, exists_eq_left', hsmall, show ¬ 62 ≤ height by omega, Nat.mul_comm,
      true_imp_iff, false_imp_iff, and_true]
  by_cases hlt : height < 64
  · have hmul : mulU64 overflowChecks (2 ^ height) 4 =
        if overflowChecks then .error "attempt to multiply with overflow" else .ok 0 := by
      obtain rfl | rfl : height = 62 ∨ height = 63 := by omega
      all_goals rfl
    cases overflowChecks <;>
      simp [hlt, hmul, hsmall, bind_eq_ok, require_eq_ok, show 62 ≤ height by omega]
  · simp [hlt, hsmall]

/-- The capacity of `contract_state_layout_with_payload_offsets` ends with `u128`. -/
theorem le_stateCapacity_iff {height slots : Nat} :
    (∃ capacity, stateCapacity height = .ok capacity ∧ slots ≤ capacity) ↔
      height < 126 ∧ slots ≤ 4 * 2 ^ height := by
  have hpow : 2 ^ height * 4 < 2 ^ 128 ↔ height < 126 := by
    rw [show 2 ^ height * 4 = 2 ^ (height + 2) by ring, Nat.pow_lt_pow_iff_right (by decide)]
    omega
  simp only [stateCapacity, ite_error_eq_ok, not_not, Except.ok.injEq, hpow, Nat.mul_comm 4]
  constructor
  · rintro ⟨_, ⟨-, -, hheight, rfl⟩, hslots⟩
    exact ⟨hheight, hslots⟩
  · rintro ⟨hheight, hslots⟩
    exact ⟨_, ⟨by omega, by omega, hheight, rfl⟩, hslots⟩

end

/-- **THE SLOTS A TRANSITION MAY USE** are those of the state tree, by both capacity rules, exactly
if the shape is wrong, the height is below 62 or from 64 to 125, or the height is 62 or 63 and no
slot is used in a build without overflow checks. -/
theorem contract_layout_capacity_iff {F Hash : Type} [QFelt64 F] [DecidableEq F] [DecidableEq Hash]
    (overflowChecks : Bool) (contractId : Nat) (oldLeaf newLeaf : PQEDContractLeafV2 F Hash)
    (transition : LayoutAppendPublicInputs Hash)
    (hmatch : LeavesMatch contractId oldLeaf newLeaf transition)
    (hu64 : transition.newLayoutSlotCount < 2 ^ 64) :
    ((validateContractLayoutTransition overflowChecks contractId oldLeaf newLeaf transition =
          .ok () ↔
        transition.validateShape = .ok () ∧
        transition.newLayoutSlotCount ≤ 4 * 2 ^ toU64Value oldLeaf.stateTreeHeight) ∧
      (validateContractLayoutTransition overflowChecks contractId oldLeaf newLeaf transition =
          .ok () ↔
        transition.validateShape = .ok () ∧
        ∃ capacity, stateCapacity (toU64Value oldLeaf.stateTreeHeight) = .ok capacity ∧
          transition.newLayoutSlotCount ≤ capacity)) ↔
    transition.validateShape ≠ .ok () ∨ toU64Value oldLeaf.stateTreeHeight < 62 ∨
      (64 ≤ toU64Value oldLeaf.stateTreeHeight ∧ toU64Value oldLeaf.stateTreeHeight < 126) ∨
      (toU64Value oldLeaf.stateTreeHeight < 64 ∧ overflowChecks = false ∧
        transition.newLayoutSlotCount = 0) := by
  rw [validateContractLayoutTransition_eq_ok hmatch, le_stateCapacity_iff]
  generalize toU64Value oldLeaf.stateTreeHeight = height
  by_cases hshape : transition.validateShape = .ok ()
  swap
  · simp [hshape]
  -- from height 62 on every slot count fits the tree
  have hfits : 62 ≤ height → transition.newLayoutSlotCount ≤ 4 * 2 ^ height := by
    intro hheight
    have hpow : 2 ^ 62 ≤ 2 ^ height := Nat.pow_le_pow_right (by omega) hheight
    omega
  simp only [hshape, true_and, ne_eq, not_true, false_or]
  by_cases hsmall : height < 62
  · simp [hsmall, show ¬ 62 ≤ height by omega, show height < 126 by omega]
  have hle := hfits (by omega)
  by_cases hlt : height < 64
  · simp [hsmall, hlt, hle, show 62 ≤ height by omega, show height < 126 by omega,
      show ¬ 64 ≤ height by omega]
  · simp [hsmall, hlt, hle, show 64 ≤ height by omega]

/-- The leaf of a contract with a state tree of that height and so many fields and slots. -/
def leafOfHeight (height count : Nat) : PQEDContractLeafV2 Nat SymHash :=
  ⟨5, .leaf 1, .leaf 2, height, .leaf count, count, count⟩

/-- A second field of one slot. -/
def oneMoreSlot : LayoutAppendPublicInputs SymHash :=
  ⟨3, stateLayoutVersion, .leaf 1, 1, 1, .leaf 2, 2, 2, 1, .leaf 9⟩

/-- Two slots in a state tree of height 1. -/
theorem contract_layout_capacity_small :
    validateContractLayoutTransition false 3 (leafOfHeight 1 1) (leafOfHeight 1 2) oneMoreSlot =
      .ok () :=
  ((contract_layout_capacity_iff false 3 (leafOfHeight 1 1) (leafOfHeight 1 2) oneMoreSlot
    ⟨rfl, rfl, rfl, ⟨rfl, rfl⟩, ⟨rfl, rfl⟩, ⟨rfl, rfl⟩⟩ (by decide)).mpr
      (.inr (.inl (by decide)))).1.mpr ⟨by decide +kernel, by decide⟩

/-- At height 62 two slots of `2 ^ 64` are refused: the capacity overflows, or wraps to 0.  At
height 126 they are accepted, while the other rule has no capacity. -/
theorem contract_layout_capacity_overflows :
    LeavesMatch 3 (leafOfHeight 62 1) (leafOfHeight 62 2) oneMoreSlot ∧
    oneMoreSlot.validateShape = .ok () ∧ oneMoreSlot.newLayoutSlotCount ≤ 4 * 2 ^ 62 ∧
    stateCapacity 62 = .ok (4 * 2 ^ 62) ∧
    validateContractLayoutTransition true 3 (leafOfHeight 62 1) (leafOfHeight 62 2) oneMoreSlot =
      .error "attempt to multiply with overflow" ∧
    validateContractLayoutTransition false 3 (leafOfHeight 62 1) (leafOfHeight 62 2) oneMoreSlot =
      .error "layout uses 2 slots but state tree height 62 has capacity 0" ∧
    validateContractLayoutTransition true 3 (leafOfHeight 126 1) (leafOfHeight 126 2) oneMoreSlot =
      .ok () ∧
    stateCapacity 126 = .error "contract state capacity overflow" :=
  ⟨⟨rfl, rfl, rfl, ⟨rfl, rfl⟩, ⟨rfl, rfl⟩, ⟨rfl, rfl⟩⟩, by decide +kernel, by decide,
    by decide +kernel, by decide +kernel, by decide +kernel, by decide +kernel, by decide +kernel⟩

end PsyNode.Layout
