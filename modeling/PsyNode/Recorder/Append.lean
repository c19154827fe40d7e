/-
PsyNode.Recorder.Append
**WHAT `append_leaves_spider_man` DOES TO A TREE FILLED FROM THE LEFT.**

In a tree whose first `c` leaves are taken and whose others are zero,
`find_next_append_index` finds `c` (`findNextAppendIndex_eq`), the windows never
fail (`appendWindows_succeeds`), and the call ends where `set_leaf` for each new
leaf at `c`, `c + 1`, … ends (`append_leaves_spider_man_appends`).

A tree without a free leaf has no next append index: there the call fails even
for no leaves at all.
-/
import PsyNode.Recorder.Spiderman

namespace PsyNode.Recorder

open Merkle Lib.Merkle Lib SimpleMerkleNodeKey
open SimpleMemoryMerkleRecorderStore

variable {Hash : Type} [MerkleZeroHasher Hash] [DecidableEq Hash]

/-! ## §1. The append index. -/

/-- The search reads the node table. -/
theorem findFirstNonZeroLeaf_eq_firstEmpty (st : RecorderStore Hash) (n i : Nat)
    (hn : n ≤ st.height) : st.findFirstNonZeroLeaf n ⟨st.height - n, i⟩ =
      firstEmpty (zeroAt twoToOne getZeroValue) st.table st.height n i := by
  induction n generalizing i with
  | zero =>
    unfold findFirstNonZeroLeaf firstEmpty
    rw [firstLeafChild_index i hn, pow_zero, mul_one, Nat.sub_zero,
      Nat.sub_self, getNodeValue_eq_table, getZeroHash_eq_zeroAt]
  | succ n ih =>
    have hdown : st.height - (n + 1) + 1 = st.height - n := by omega
    unfold findFirstNonZeroLeaf firstEmpty
    rw [firstLeafChild_index i hn, leftChild_mk, rightChild_mk, hdown,
      ih (2 * i) (by omega), ih (2 * i + 1) (by omega), getNodeValue_eq_table,
      getZeroHash_eq_zeroAt, show st.height - (st.height - (n + 1)) = n + 1 by omega]
    cases firstEmpty (zeroAt twoToOne getZeroValue) st.table st.height n (2 * i) with
    | none => rfl
    | some index => rfl

/-- A settled tree whose first `c` leaves are taken and whose others are zero. -/
structure Occupied (st : RecorderStore Hash) (c : Nat) : Prop where
  settled : st.TreeSettled
  taken : ∀ j, j < c → st.getLeafValue j ≠ getZeroHash 0
  free : ∀ j, c ≤ j → j < 2 ^ st.height → st.getLeafValue j = getZeroHash 0

omit [DecidableEq Hash] in
theorem occupied_new (height : Nat) : Occupied (new height : RecorderStore Hash) 0 where
  settled := treeSettled_new height
  taken := by
    omega
  free := by
    intro j _ _
    show getZeroHash (height - height) = getZeroHash 0
    rw [Nat.sub_self]

variable {st : RecorderStore Hash}

/-- `set_leaf` at the first free leaf. -/
theorem Occupied.setLeaf {c : Nat} (ho : Occupied st c) {value : Hash}
    (hv : value ≠ getZeroHash 0) :
    Occupied (st.setLeaf c value).1 (c + 1) where
  settled := ho.settled.setLeaf c value
  taken := by
    intro j hj
    rw [getLeafValue_setLeaf]
    by_cases h : j = c
    · rw [h, Function.update_self]
      exact hv
    · rw [Function.update_of_ne h]
      exact ho.taken j (by omega)
  free := by
    intro j hc hj
    rw [height_setLeaf] at hj
    rw [getLeafValue_setLeaf, Function.update_of_ne (by omega)]
    exact ho.free j (by omega) hj

/-- **`find_next_append_index` finds the first free leaf**, if there is one. -/
theorem findNextAppendIndex_eq {c : Nat} (hu : EmptyUnique twoToOne (getZeroValue : Hash))
    (ho : Occupied st c) : st.findNextAppendIndex =
      if c < 2 ^ st.height then .ok c else .error "tree is full" := by
  have hf : FilledTo (zeroAt twoToOne getZeroValue) st.table st.height c :=
    Settled.filledTo ho.settled hu ho.taken ho.free
  have hroot := hf st.height 0 (le_refl _) (by rw [Nat.zero_add, one_mul])
  rw [Nat.sub_self, Nat.zero_mul, ← getZeroHash_eq_zeroAt] at hroot
  replace hroot : st.getRoot = getZeroHash st.height ↔ c ≤ 0 := hroot
  have hsearch := findFirstNonZeroLeaf_eq_firstEmpty st st.height 0 (le_refl _)
  rw [Nat.sub_self, firstEmpty_eq hf st.height 0 (le_refl _) (by rw [Nat.zero_add, one_mul]),
    Nat.zero_add, one_mul, Nat.zero_mul, Nat.max_zero] at hsearch
  unfold findNextAppendIndex
  by_cases hzero : c = 0
  · rw [if_pos (hroot.mpr (by omega)), hzero, if_pos (by positivity)]
  rw [if_neg (fun h => hzero (by have := hroot.mp h; omega)),
    show newRoot = ⟨0, 0⟩ from rfl, hsearch]
  by_cases hc : c < 2 ^ st.height
  · have hheight : st.height ≠ 0 := by
      intro h
      rw [h, pow_zero] at hc
      omega
    rw [if_neg hheight, if_neg (by omega), if_pos hc]
  · rw [if_pos (by omega : 2 ^ st.height ≤ c), if_neg hc, ite_self]

/-! ## §2. The windows never fail. -/

theorem appendWindow_succeeds {k : Nat} (hk : k ≤ st.height) (id first : Nat)
    (written old new : List Hash) : Ends (fun r => k ≤ r.1.height) (fun _ => False)
      (st.appendWindow k id first written old new) := by
  have hheight := (writes_setRun st st.height first written).height
  unfold appendWindow rehashSubTreeDmp
  rw [if_neg (by omega)]
  show k ≤ ((st.setRun st.height first written).rehashSubTree k id).height
  rw [(writes_rehashSubTree _ k id).height]
  omega

theorem appendMiddle_succeeds {k p cur : Nat} (n : Nat) (t : Nat) (leaves : List Hash)
    (st : RecorderStore Hash) (hk : k ≤ st.height) :
    Ends (fun r => k ≤ r.1.height) (fun _ => False) (appendMiddle k p cur n t leaves st) := by
  induction n generalizing t leaves st with
  | zero =>
    exact hk
  | succ n ih =>
    refine (appendWindow_succeeds hk _ _ _ _ _).bind ?_
    intro r hr
    refine (ih _ _ _ hr).bind ?_
    intro r' hr'
    exact hr'

theorem appendWindows_succeeds {k : Nat} (hk : k ≤ st.height) (p index : Nat) (leaves : List Hash) :
    Ends (fun r => k ≤ r.1.height) (fun _ => False) (st.appendWindows k p index leaves) := by
  unfold appendWindows
  dsimp only
  split
  next => exact hk
  next =>
    refine (appendWindow_succeeds hk _ _ _ _ _).bind ?_
    intro first hfirst
    refine (appendMiddle_succeeds _ _ _ _ hfirst).bind ?_
    intro middle hmiddle
    split
    next =>
      refine (appendWindow_succeeds hmiddle _ _ _ _ _).bind ?_
      intro last hlast
      exact hlast
    next => exact hmiddle

/-! ## §3. One leaf at a time. -/

/-- `set_leaf` for each of `leaves`, at `index`, `index + 1`, …. -/
def setLeaves (st : RecorderStore Hash) (index : Nat) : List Hash → RecorderStore Hash
  | [] => st
  | leaf :: leaves => setLeaves (st.setLeaf index leaf).1 (index + 1) leaves

theorem setLeaves_spec (leaves : List Hash) (st : RecorderStore Hash) (index : Nat)
    (hs : st.TreeSettled) :
    (setLeaves st index leaves).TreeSettled ∧
      (setLeaves st index leaves).height = st.height ∧
      (setLeaves st index leaves).table st.height =
        (st.setRun st.height index leaves).table st.height := by
  induction leaves generalizing st index with
  | nil =>
    exact ⟨hs, rfl, rfl⟩
  | cons leaf leaves ih =>
    have hheight := height_setLeaf st index leaf
    obtain ⟨hs', hheight', hleaves⟩ := ih _ (index + 1) (hs.setLeaf index leaf)
    rw [hheight] at hheight' hleaves
    refine ⟨hs', hheight', hleaves.trans ?_⟩
    have hwrite : (st.setLeaf index leaf).1.table st.height =
        (st.setNodeValue ⟨st.height, index⟩ leaf).table st.height := by
      rw [table_setNodeValue, Table.set_level]
      exact setLeafFrom_leaves st st.height index leaf
    rw [table_setRun_level, hwrite, setRun, table_setRun_level]

/-! ## §4. The call. -/

/-- **`append_leaves_spider_man` APPENDS.**  In a tree of height below 64 whose taken
leaves are the first `c`, with a leaf free, the call succeeds for every list of leaves
that fits: its proofs verify one after another from the old root to the new one, window
by window, the leaves are the old ones, the new ones and zeros, and the root is the one
`set_leaf` leaf by leaf gives.  A tree without a free leaf refuses every list, also the
empty one. -/
theorem append_leaves_spider_man_appends (hu : EmptyUnique twoToOne (getZeroValue : Hash))
    {st : SimpleMemoryMerkleRecorderStore Hash} {c k : Nat} (leaves : List Hash)
    (ho : Occupied st c) (hh : st.height < 64)
    (hfit : c + leaves.length ≤ 2 ^ st.height) (hk : 1 ≤ k) (hkh : k ≤ st.height) :
    (c < 2 ^ st.height → ∃ st' proofs, st.appendLeavesSpiderMan k leaves = .ok (st', proofs) ∧
      VerifiedChain st.getRoot proofs st'.getRoot ∧
      proofs.map (fun proof => proof.topLineProof.index) =
        List.range' (c / 2 ^ k) proofs.length ∧
      st'.height = st.height ∧
      (List.range (2 ^ st.height)).map st'.getLeafValue =
        (List.range c).map st.getLeafValue ++ leaves ++
          List.replicate (2 ^ st.height - (c + leaves.length)) (getZeroHash 0) ∧
      st'.getRoot = (setLeaves st c leaves).getRoot) ∧
    (c = 2 ^ st.height →
      ∀ k leaves, st.appendLeavesSpiderMan k leaves = .error "tree is full") := by
  have hindex := findNextAppendIndex_eq hu ho
  refine ⟨fun hc => ?_, fun hfull k leaves => ?_⟩
  swap
  · rw [if_neg (by omega)] at hindex
    unfold appendLeavesSpiderMan
    rw [hindex]
    rfl
  rw [if_pos hc] at hindex
  have hpos : 0 < 2 ^ k := by positivity
  obtain ⟨⟨st', proofs⟩, hwindows, _⟩ := (appendWindows_succeeds hkh (2 ^ k) c leaves).exists_ok
  have hcall : st.appendLeavesSpiderMan k leaves = .ok (st', proofs) := by
    unfold appendLeavesSpiderMan appendLeavesSpiderManAtIndex
    rw [hindex, shl64_of_lt (by omega : k < 64), shl64_of_lt hh]
    show (if c + leaves.length > 2 ^ st.height then _ else _) = _
    rw [if_neg (by omega)]
    exact hwindows
  -- the last window ends inside the tree
  have hwindowEnd : ceilDivUsize (c + leaves.length) (2 ^ k) * 2 ^ k ≤ 2 ^ st.height := by
    have hsplit : 2 ^ st.height = 2 ^ (st.height - k) * 2 ^ k := by
      rw [← pow_add, Nat.sub_add_cancel hkh]
    rw [hsplit]
    apply Nat.mul_le_mul_right
    unfold ceilDivUsize
    rw [← Nat.lt_succ_iff, Nat.div_lt_iff_lt_mul hpos, Nat.succ_mul, ← hsplit]
    omega
  have happended := appendWindows_spec rfl hk ho.settled (by omega) hfit hwindows
  have hchain := happended.chain (fun j h1 h2 => ho.free j h1 (by omega))
  obtain ⟨hs, hheight, hleaves⟩ := setLeaves_spec leaves st c ho.settled
  refine ⟨st', proofs, hcall, hchain, happended.windows, happended.height_eq, ?_, ?_⟩
  · have hread : st'.getLeafValue = writeRun st.getLeafValue (0 + c) leaves := by
      rw [Nat.zero_add]
      show _ = writeRun (st.table st.height) c leaves
      rw [← table_setRun_level, ← happended.leaves, ← happended.height_eq]
      rfl
    rw [hread, List.range_eq_range', List.range_eq_range', map_writeRun_window hfit (by
      intro j h1 h2
      exact ho.free j (by omega) (by omega))]
  · have hroot : st'.table 0 0 = subRoot twoToOne (st'.table st'.height) st'.height 0 :=
      Settled.root_eq happended.settled
    have hroot' := Settled.root_eq hs
    show st'.table 0 0 = (setLeaves st c leaves).table 0 0
    rw [hroot, hroot', hheight, hleaves, happended.height_eq, happended.leaves]

/-- Two leaves behind one leaf, in a tree of four: two windows. -/
theorem append_leaves_spider_man_appends_two :
    ∃ st' proofs, ((new 2).setLeaf 0 (SymHash.leaf 7)).1.appendLeavesSpiderMan 1
        [.leaf 8, .leaf 9] = .ok (st', proofs) ∧
      VerifiedChain (.node (.node (.leaf 7) .zero) (.node .zero .zero)) proofs st'.getRoot ∧
      (List.range 4).map st'.getLeafValue = [.leaf 7, .leaf 8, .leaf 9, .zero] := by
  have ho := (@occupied_new SymHash _ 2).setLeaf (show SymHash.leaf 7 ≠ getZeroHash 0 by decide)
  obtain ⟨st', proofs, hcall, hchain, _, _, hleaves, _⟩ :=
    (append_leaves_spider_man_appends
      (emptyUnique_of_injective (fun a b c d h => SymHash.node.inj h))
      [.leaf 8, .leaf 9] ho (by decide) (by decide) (le_refl 1) (by decide)).1 (by decide)
  exact ⟨st', proofs, hcall, hchain, hleaves⟩

/-- **A FULL TREE IS REFUSED**, also for an empty list of leaves, which fits. -/
theorem append_leaves_spider_man_full :
    Occupied (((new 1).setLeaf 0 (SymHash.leaf 7)).1.setLeaf 1 (.leaf 8)).1 2 ∧
      (((new 1).setLeaf 0 (SymHash.leaf 7)).1.setLeaf 1 (.leaf 8)).1.appendLeavesSpiderMan 1 [] =
        .error "tree is full" := by
  refine ⟨?_, rfl⟩
  exact ((occupied_new 1).setLeaf (by decide)).setLeaf (by decide)

end PsyNode.Recorder
