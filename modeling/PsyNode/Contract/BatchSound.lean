/-
PsyNode.Contract.BatchSound
**WHAT THE BATCH GADGETS KEEP OF CONTRACT LEAVES.**

The update gadget has no capacity check of its own: an update can leave the capacity
that the deploy gadget and `validate_contract_layout_transition` check.
-/
import PsyNode.Contract.Batch

namespace PsyNode.Contract

open Circuit Layout Lib.Circuit Lib.Merkle SpidermanAppendProofGadget UpdateWindow List
open Merkle

variable {Hash : Type} [DecidableEq Hash] {C : BatchCircuits Hash}

/-! ## §1. Conditional connections. -/

theorem connectIfTrue_one {x y : Felt} {u : Unit} : (connectIfTrue 1 x y).Holds u ↔ x = y := by
  unfold connectIfTrue connect select
  rw [holds_constrain]
  constructor
  · intro h
    rw [h]
    ring
  · intro h
    rw [h]
    ring

omit [DecidableEq Hash] in
theorem connectHashesIfTrue_one {x y : Hash} {u : Unit} :
    (connectHashesIfTrue 1 x y).Holds u ↔ x = y := by
  unfold connectHashesIfTrue
  rw [holds_constrain, or_iff_right one_ne_zero]

theorem isNotEqualHash_of_ne {x y : Hash} (h : x ≠ y) : isNotEqualHash x y = 1 := by
  unfold isNotEqualHash
  rw [decide_eq_false h, notTarget_ofBool]
  rfl

/-! ## §2. The height of a deployed leaf. -/

/-- The loop over heights recognises one height and selects its capacity. -/
theorem heightRounds_spec (x : Felt) (heights : List Nat) (sums : Felt × Felt)
    (hnodup : heights.Nodup) (hlt : ∀ h ∈ heights, h < 63) :
    heights.foldl (heightRound x) sums =
      if x.val ∈ heights then (sums.1 + 1, sums.2 + (((1 <<< x.val) * 4 % 2 ^ 64 : Nat) : Felt))
      else sums := by
  induction heights generalizing sums with
  | nil => rfl
  | cons h heights ih =>
    obtain ⟨hnot, hnodup⟩ := nodup_cons.mp hnodup
    have hval : ((h : Nat) : Felt).val = h :=
      val_natCast_of_lt (lt_trans (hlt h (mem_cons_self ..)) (by omega))
    rw [foldl_cons, ih _ hnodup (fun h' hh' => hlt h' (mem_cons_of_mem _ hh'))]
    unfold heightRound
    dsimp only
    rw [isEqual_eq, hval]
    by_cases heq : x.val = h
    · rw [heq, if_neg hnot, if_pos (mem_cons_self ..), decide_eq_true rfl, ofBool_true, one_mul]
    · rw [decide_eq_false heq, ofBool_false, zero_mul, add_zero, add_zero]
      by_cases hmem : x.val ∈ heights
      · rw [if_pos hmem, if_pos (mem_cons_of_mem _ hmem)]
      · rw [if_neg hmem, if_neg (by simp [heq, hmem])]

/-- **WITHIN CAPACITY**: a height in range, and no more slots than four for each leaf of the
contract's state tree. -/
structure WithinCapacity (C : BatchCircuits Hash) (leaf : PQEDContractLeafV2 Felt Hash) : Prop where
  one_le : 1 ≤ leaf.stateTreeHeight.val
  le_max : leaf.stateTreeHeight.val ≤ C.maxContractStateTreeHeight
  slots : leaf.stateLayoutSlotCount.val ≤ 4 * 2 ^ leaf.stateTreeHeight.val

theorem deploy_position_sound {w : DeployWindow Hash} {i : Nat} (h : (w.position C i).Holds ())
    (hne : w.spiderman.oldLeaves i ≠ w.spiderman.newLeaves i) :
    w.spiderman.oldLeaves i = C.zero ∧ w.spiderman.newLeaves i = C.toHash (w.contractLeaves i) ∧
      WithinCapacity C (w.contractLeaves i) := by
  unfold DeployWindow.position allowExisting addedLeaf at h
  simp only [holds_bind, Unique.exists_iff, isNotEqualHash_of_ne hne, connectIfTrue_one,
    connectHashesIfTrue_one] at h
  obtain ⟨⟨hold, _⟩, _, hhash, _, _, _, _, _, _, _, _, _, _, hvalid, _, hwithin, rfl⟩ := h
  have hrounds := heightRounds_spec (w.contractLeaves i).stateTreeHeight
    (range' 1 C.maxContractStateTreeHeight) (0, 0) nodup_range'
    (by
      intro h hh
      rw [mem_range'_1] at hh
      have := C.max_lt
      omega)
  rw [hrounds] at hvalid hwithin
  refine ⟨?_, hhash.symm, ?_⟩
  · unfold connectHashesIfTrue isZeroHash at hold
    rw [holds_constrain, or_iff_left hne] at hold
    by_contra hzero
    rw [decide_eq_false hzero, notTarget_ofBool] at hold
    exact one_ne_zero hold
  · by_cases hmem : (w.contractLeaves i).stateTreeHeight.val ∈
        range' 1 C.maxContractStateTreeHeight
    · rw [if_pos hmem] at hwithin
      rw [mem_range'_1] at hmem
      refine ⟨by omega, by omega, ?_⟩
      have hle := isLessThanOrEqualSplit_sound (by omega) hwithin
      dsimp only at hle
      rw [zero_add, ZMod.val_natCast] at hle
      calc (w.contractLeaves i).stateLayoutSlotCount.val
          ≤ (1 <<< (w.contractLeaves i).stateTreeHeight.val) * 4 % 2 ^ 64 :=
            hle.trans (Nat.mod_le _ _)
        _ ≤ (1 <<< (w.contractLeaves i).stateTreeHeight.val) * 4 := Nat.mod_le _ _
        _ = 4 * 2 ^ (w.contractLeaves i).stateTreeHeight.val := by
            rw [Nat.shiftLeft_eq, one_mul, Nat.mul_comm]
    · rw [if_neg hmem] at hvalid
      exact absurd hvalid zero_ne_one

/-! ## §3. Updated leaves. -/

/-- **A CONTRACT CONTINUES**: deployer and height stay, the layout does not shrink. -/
structure Continues (leaf leaf' : PQEDContractLeafV2 Felt Hash) : Prop where
  deployer : leaf'.deployer = leaf.deployer
  stateTreeHeight : leaf'.stateTreeHeight = leaf.stateTreeHeight
  fields : leaf.stateLayoutFieldCount.val ≤ leaf'.stateLayoutFieldCount.val
  slots : leaf.stateLayoutSlotCount.val ≤ leaf'.stateLayoutSlotCount.val

omit [DecidableEq Hash] in
theorem Continues.refl (leaf : PQEDContractLeafV2 Felt Hash) : Continues leaf leaf :=
  ⟨rfl, rfl, le_refl _, le_refl _⟩

omit [DecidableEq Hash] in
theorem Continues.trans {a b c : PQEDContractLeafV2 Felt Hash} (hab : Continues a b)
    (hbc : Continues b c) : Continues a c :=
  ⟨hbc.deployer.trans hab.deployer, hbc.stateTreeHeight.trans hab.stateTreeHeight,
    hab.fields.trans hbc.fields, hab.slots.trans hbc.slots⟩

/-- A transition of good shape does not shrink the layout. -/
theorem update_position_sound
    (hverified : ∀ layout, C.Verified layout → layout.transition.validateShape = .ok ())
    {w : UpdateWindow Hash} {i : Nat} (h : (w.position C i).Holds ())
    (hne : w.spiderman.oldLeaves i ≠ w.spiderman.newLeaves i) :
    w.spiderman.oldLeaves i = C.toHash (w.oldContractLeaves i) ∧
      w.spiderman.newLeaves i = C.toHash (w.newContractLeaves i) ∧
      Continues (w.oldContractLeaves i) (w.newContractLeaves i) ∧
      (w.newContractLeaves i).stateLayoutSlotCount = (w.layouts i).newLayoutSlotCount := by
  unfold position addedLeaf at h
  simp only [holds_bind, Unique.exists_iff, isNotEqualHash_of_ne hne, connectIfTrue_one,
    connectHashesIfTrue_one, holds_constrain] at h
  obtain ⟨_, hlayout, hold, hnew, _, _, _, _, _, _, hf, hf', hs, hs', hdeployer, hheight⟩ := h
  obtain ⟨_, _, hfields, hslots, _⟩ := validateShape_eq_ok.mp (hverified _ hlayout)
  refine ⟨hold.symm, hnew.symm, ⟨hdeployer.symm, hheight.symm, ?_, ?_⟩, hs'.symm⟩
  · rw [← hf, ← hf']
    exact (Nat.le_add_right _ _).trans hfields.ge
  · rw [← hs, ← hs']
    exact hslots

/-! ## §4. Runs. -/

/-- A contract tree in which every leaf is within its capacity. -/
def AllWithinCapacity (C : BatchCircuits Hash) (tree : Nat → Hash) : Prop :=
  ∀ j < 2 ^ (C.batchSubTreeHeight + C.topLineHeight), ∀ leaf, C.toHash leaf = tree j →
    WithinCapacity C leaf

/-- Every contract of the first tree continues in the second. -/
def AllContinue (C : BatchCircuits Hash) (tree tree' : Nat → Hash) : Prop :=
  ∀ j < 2 ^ (C.batchSubTreeHeight + C.topLineHeight), ∀ leaf, C.toHash leaf = tree j →
    ∃ leaf', C.toHash leaf' = tree' j ∧ Continues leaf leaf'

/-- Updates that end within the capacity of the contract they update. -/
def UpdateWindow.StaysWithinCapacity (C : BatchCircuits Hash) (w : UpdateWindow Hash) : Prop :=
  ∀ i < 2 ^ C.batchSubTreeHeight, w.spiderman.oldLeaves i ≠ w.spiderman.newLeaves i →
    (w.layouts i).newLayoutSlotCount.val ≤ 4 * 2 ^ (w.oldContractLeaves i).stateTreeHeight.val

section
variable (hnode : ∀ a b c d, C.twoToOne a b = C.twoToOne c d → a = c ∧ b = d)
include hnode

variable {tree tree' : Nat → Hash}

omit [DecidableEq Hash] in
/-- **A BATCH CHANGES LEAVES IN ITS WINDOW ONLY**, from its old to its new leaves. -/
theorem step_leaf {w : SpidermanAppendProofGadget Hash} (hpath : w.HasPath C)
    (hold : w.root C w.oldLeaves = C.treeRoot tree)
    (hnew : w.root C w.newLeaves = C.treeRoot tree') :
    ∀ j < 2 ^ (C.batchSubTreeHeight + C.topLineHeight), tree' j = tree j ∨
      ∃ i < 2 ^ C.batchSubTreeHeight, w.oldLeaves i ≠ w.newLeaves i ∧ tree j = w.oldLeaves i ∧
        tree' j = w.newLeaves i := by
  unfold root BatchCircuits.treeRoot at hold hnew
  rw [← hpath.1] at hold hnew ⊢
  obtain ⟨hwindow, hreplace⟩ := opened_window hnode hold
  rw [hreplace w.newLeaves] at hnew
  intro j hj
  have hj' := eq_of_subRoot_eq hnode _ 0 hnew j (by omega) (by omega)
  unfold replaceWindow at hj'
  generalize w.index % 2 ^ w.siblings.length = place at hj' hwindow
  by_cases hin : place * 2 ^ C.batchSubTreeHeight ≤ j ∧ j < (place + 1) * 2 ^ C.batchSubTreeHeight
  · rw [if_pos hin] at hj'
    have hlt : j - place * 2 ^ C.batchSubTreeHeight < 2 ^ C.batchSubTreeHeight := by
      rw [Nat.succ_mul] at hin
      omega
    have htree := hwindow _ hlt
    rw [Nat.add_sub_cancel' hin.1] at htree
    by_cases hsame : tree' j = tree j
    · exact Or.inl hsame
    · refine Or.inr ⟨_, hlt, ?_, htree.symm, hj'.symm⟩
      rwa [htree, hj', ne_comm]
  · left
    rw [if_neg hin] at hj'
    exact hj'.symm

variable (hleaf : ∀ a b, C.toHash a = C.toHash b → a = b) (hzero : ∀ leaf, C.toHash leaf ≠ C.zero)
  (hverified : ∀ layout, C.Verified layout → layout.transition.validateShape = .ok ())
include hleaf hzero hverified

theorem step_keeps (hall : AllWithinCapacity C tree)
    (h : C.Step (StaysWithinCapacity C) tree tree') :
    AllWithinCapacity C tree' ∧ AllContinue C tree tree' := by
  -- a changed position gets a contract that continues every contract that was there
  have hchanged : ∀ j < 2 ^ (C.batchSubTreeHeight + C.topLineHeight), tree' j = tree j ∨
      ∃ new, tree' j = C.toHash new ∧ WithinCapacity C new ∧
        ∀ old, C.toHash old = tree j → Continues old new := by
    intro j hlt
    cases h with
    | deploy w hpath hposition hold hnew =>
      rcases step_leaf hnode hpath hold hnew j hlt with hsame | ⟨i, hi, hne, htree, htree'⟩
      · exact Or.inl hsame
      · -- the position was empty, so no contract was there
        obtain ⟨h0, h1, h2⟩ := deploy_position_sound (hposition i hi) hne
        exact Or.inr ⟨_, htree'.trans h1, h2, fun old hold =>
          absurd (hold.trans (htree.trans h0)) (hzero old)⟩
    | update w hallowed hpath hposition hold hnew =>
      rcases step_leaf hnode hpath hold hnew j hlt with hsame | ⟨i, hi, hne, htree, htree'⟩
      · exact Or.inl hsame
      · obtain ⟨h0, h1, h2, h3⟩ := update_position_sound hverified (hposition i hi) hne
        have hwithin := hall j hlt _ (htree.trans h0).symm
        refine Or.inr ⟨_, htree'.trans h1, ⟨?_, ?_, ?_⟩, ?_⟩
        · rw [h2.stateTreeHeight]
          exact hwithin.one_le
        · rw [h2.stateTreeHeight]
          exact hwithin.le_max
        · rw [h2.stateTreeHeight, h3]
          exact hallowed i hi hne
        · intro old hhash
          rw [hleaf old _ (hhash.trans (htree.trans h0))]
          exact h2
  constructor
  · intro j hlt leaf hhash
    rcases hchanged j hlt with hsame | ⟨new, hnew, hwithin, _⟩
    · exact hall j hlt leaf (hhash.trans hsame)
    · rw [hleaf leaf new (hhash.trans hnew)]
      exact hwithin
  · intro j hlt leaf hhash
    rcases hchanged j hlt with hsame | ⟨new, hnew, _, hcontinues⟩
    · exact ⟨leaf, hhash.trans hsame.symm, .refl leaf⟩
    · exact ⟨new, hnew.symm, hcontinues leaf hhash⟩

theorem run_keeps (hall : AllWithinCapacity C tree)
    (h : Relation.ReflTransGen (C.Step (StaysWithinCapacity C)) tree tree') :
    AllWithinCapacity C tree' ∧ AllContinue C tree tree' := by
  induction h with
  | refl => exact ⟨hall, fun j _ leaf hhash => ⟨leaf, hhash, .refl leaf⟩⟩
  | tail _ hstep ih =>
    obtain ⟨hwithin, hcontinue⟩ := ih
    obtain ⟨hwithin', hcontinue'⟩ := step_keeps hnode hleaf hzero hverified hwithin hstep
    refine ⟨hwithin', ?_⟩
    intro j hlt leaf hhash
    obtain ⟨leaf', hhash', h1⟩ := hcontinue j hlt leaf hhash
    obtain ⟨leaf'', hhash'', h2⟩ := hcontinue' j hlt leaf' hhash'
    exact ⟨leaf'', hhash'', h1.trans h2⟩

/-- **THE BATCHES KEEP THE LEAVES OF CONTRACTS**, if every update ends within the capacity of the
contract: in every tree that is reached from the empty one each contract leaf is within its
capacity, and it continues in every tree that is reached from there. -/
theorem batch_windows_keep_leaves {tree tree' : Nat → Hash}
    (hrun : Relation.ReflTransGen (C.Step (StaysWithinCapacity C)) (fun _ => C.zero) tree)
    (hrun' : Relation.ReflTransGen (C.Step (StaysWithinCapacity C)) tree tree') :
    AllWithinCapacity C tree ∧ AllWithinCapacity C tree' ∧ AllContinue C tree tree' := by
  have hempty : AllWithinCapacity C (fun _ => C.zero) :=
    fun _ _ leaf hhash => absurd hhash (hzero leaf)
  have htree := (run_keeps hnode hleaf hzero hverified hempty hrun).1
  exact ⟨htree, run_keeps hnode hleaf hzero hverified htree hrun'⟩

end

/-! ## §5. A contract that grows. -/

/-- Circuits for a tree of two contracts in windows of one, with heights up to 4. -/
def sampleCircuits : BatchCircuits SymHash where
  zero := .zero
  twoToOne := .node
  toHash leaf := .node (.leaf leaf.deployer.val) (.node leaf.functionTreeRoot (.node leaf.codeRoot
    (.node (.leaf leaf.stateTreeHeight.val) (.node leaf.stateLayoutRoot
      (.node (.leaf leaf.stateLayoutFieldCount.val) (.leaf leaf.stateLayoutSlotCount.val))))))
  Verified layout := layout.transition.validateShape = .ok ()
  topLineHeight := 1
  batchSubTreeHeight := 0
  stateLayoutTreeHeight := 0
  maxContractStateTreeHeight := 4
  max_lt := by decide

/-- A contract with a state tree of height 1, so of 8 slots. -/
def sampleContract (fields slots : Nat) : PQEDContractLeafV2 Felt SymHash :=
  ⟨(3 : Nat), .zero, .zero, ((1 : Nat) : Felt), .zero, fields, slots⟩

def sampleLayout (contractId oldFields oldSlots newFields newSlots : Nat) :
    LayoutAppendPublicInputsGadget SymHash :=
  ⟨contractId, (stateLayoutVersion : Nat), .zero, oldFields, oldSlots, .zero, newFields, newSlots,
    ((1 : Nat) : Felt), .zero⟩

/-- The tree whose contract 1 has this leaf. -/
def sampleTree₁ (leaf : SymHash) : Nat → SymHash := fun j => if j = 1 then leaf else .zero

theorem sampleCircuits_leaf (a b : PQEDContractLeafV2 Felt SymHash)
    (h : sampleCircuits.toHash a = sampleCircuits.toHash b) : a = b := by
  cases a
  cases b
  simp only [sampleCircuits, SymHash.node.injEq, SymHash.leaf.injEq] at h
  obtain ⟨h1, h2, h3, h4, h5, h6, h7⟩ := h
  rw [ZMod.val_injective _ h1, ZMod.val_injective _ h4, ZMod.val_injective _ h6,
    ZMod.val_injective _ h7, h2, h3, h5]

variable (allowed : UpdateWindow SymHash → Prop)

/-- Contract 1 is deployed with one field of 4 slots. -/
theorem sampleCircuits_deploy : sampleCircuits.Step allowed (fun _ => .zero)
      (sampleTree₁ (sampleCircuits.toHash (sampleContract 1 4))) := by
  have hne : SymHash.zero ≠ sampleCircuits.toHash (sampleContract 1 4) := by
    simp [sampleCircuits]
  refine .deploy ⟨⟨1, [.zero], fun _ => .zero, fun _ => sampleCircuits.toHash (sampleContract 1 4)⟩,
    fun _ => sampleContract 1 4, fun _ => ((1 : Nat) : Felt), fun _ => sampleLayout 0 0 0 1 4⟩
    ⟨rfl, by decide⟩ ?_ rfl rfl
  intro i hi
  obtain rfl : i = 0 := Nat.lt_one_iff.mp hi
  unfold DeployWindow.position allowExisting addedLeaf
  simp only [holds_bind, Unique.exists_iff, isNotEqualHash_of_ne hne, connectIfTrue_one,
    connectHashesIfTrue_one]
  have hend : leafMustBeZero sampleCircuits ⟨1, [.zero],
      fun _ => .zero, fun _ => sampleCircuits.toHash (sampleContract 1 4)⟩ 0 = 0 := by
    simp [leafMustBeZero, isZeroHash, orTarget, andTarget, sampleCircuits]
  have hrounds : (range' 1 4).foldl (heightRound ((1 : Nat) : Felt)) (0, 0) =
      (1, ((8 : Nat) : Felt)) := rfl
  have hwithin : (isLessThanOrEqual 5 ((4 : Nat) : Felt) ((8 : Nat) : Felt)).Holds 1 :=
    (isLessThanOrEqual_computes (by omega) (by omega) (by decide) (by decide) 1).mpr
      ⟨trivial, rfl⟩
  refine ⟨⟨Or.inl rfl, Or.inl hend, Or.inl hend⟩, rfl, trivial, rfl, rfl, ⟨(), rfl, rfl⟩, rfl, rfl,
    rfl, rfl, rfl, rfl, rfl, congrArg Prod.fst hrounds, 1, ?_, rfl⟩
  show (isLessThanOrEqualSplit 5 ((4 : Nat) : Felt) ((range' 1 4).foldl
    (heightRound ((1 : Nat) : Felt)) (0, 0)).2).Holds 1
  rw [hrounds]
  exact hwithin

/-- Contract 1 is updated to two fields. -/
theorem sampleCircuits_update (slots : Nat) (hslots : slots = 8 ∨ slots = 9)
    (hallowed : ∀ w : UpdateWindow SymHash, (∀ i, w.oldContractLeaves i = sampleContract 1 4) →
      (∀ i, w.layouts i = sampleLayout 1 1 4 2 slots) → allowed w) :
    sampleCircuits.Step allowed (sampleTree₁ (sampleCircuits.toHash (sampleContract 1 4)))
      (sampleTree₁ (sampleCircuits.toHash (sampleContract 2 slots))) := by
  have hne : sampleCircuits.toHash (sampleContract 1 4) ≠
      sampleCircuits.toHash (sampleContract 2 slots) := by
    intro h
    have hfields : ((1 : Nat) : Felt) = ((2 : Nat) : Felt) :=
      congrArg PQEDContractLeafV2.stateLayoutFieldCount (sampleCircuits_leaf _ _ h)
    exact absurd hfields (by decide)
  have hverified : sampleCircuits.Verified (sampleLayout 1 1 4 2 slots) := by
    rcases hslots with rfl | rfl <;> rfl
  refine .update ⟨⟨1, [.zero], fun _ => sampleCircuits.toHash (sampleContract 1 4),
      fun _ => sampleCircuits.toHash (sampleContract 2 slots)⟩, fun _ => sampleContract 1 4,
    fun _ => sampleContract 2 slots, fun _ => ((1 : Nat) : Felt),
    fun _ => sampleLayout 1 1 4 2 slots⟩ (hallowed _ (fun _ => rfl) (fun _ => rfl))
    ⟨rfl, Nat.one_lt_two⟩ ?_ rfl rfl
  intro i hi
  obtain rfl : i = 0 := Nat.lt_one_iff.mp hi
  unfold position addedLeaf allowOverwrite
  simp only [holds_bind, Unique.exists_iff, isNotEqualHash_of_ne hne, connectIfTrue_one,
    connectHashesIfTrue_one]
  refine ⟨?_, hverified, trivial, trivial, rfl, rfl, ⟨(), rfl, rfl⟩, rfl, rfl, rfl, rfl, rfl, rfl,
    rfl, rfl, rfl⟩
  show andTarget 1 (isZeroHash sampleCircuits (sampleCircuits.toHash (sampleContract 1 4))) = 0
  simp [isZeroHash, sampleCircuits, andTarget]

/-- A deploy with 4 slots, and an update to the 8 slots that the contract's tree has. -/
theorem batch_windows_keep_leaves_full :
    WithinCapacity sampleCircuits (sampleContract 2 8) := by
  have hupdate := sampleCircuits_update (StaysWithinCapacity sampleCircuits) 8
    (Or.inl rfl) (by
      intro w hold hlayout i _ _
      rw [hold, hlayout]
      decide)
  exact (batch_windows_keep_leaves (C := sampleCircuits) (fun _ _ _ _ => SymHash.node.inj)
    sampleCircuits_leaf (by simp [sampleCircuits]) (fun _ h => h)
    (.single (sampleCircuits_deploy _)) (.single hupdate)).2.1 1 (by decide) _ rfl

/-- **AN UPDATE BEYOND THE CAPACITY SATISFIES THE GADGET**: 9 slots in a state tree of 8. -/
theorem update_exceeds_capacity :
    Relation.ReflTransGen (sampleCircuits.Step (fun _ => True)) (fun _ => .zero)
        (sampleTree₁ (sampleCircuits.toHash (sampleContract 2 9))) ∧
      (sampleContract 2 9).stateTreeHeight.val = 1 ∧
      (sampleContract 2 9).stateLayoutSlotCount.val = 9 ∧
      ¬ WithinCapacity sampleCircuits (sampleContract 2 9) := by
  refine ⟨.tail (.single (sampleCircuits_deploy _))
    (sampleCircuits_update _ 9 (Or.inr rfl) (fun _ _ _ => trivial)), rfl, rfl, ?_⟩
  intro h
  exact absurd h.slots (by decide)

end PsyNode.Contract
