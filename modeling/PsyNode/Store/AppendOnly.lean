/-
PsyNode.Store.AppendOnly
**THE APPEND-ONLY CHECKPOINT STORE** — `PsyDashMemoryAppendOnlyMerkleStore` of
`dash_tree_append_only.rs`: a Merkle store together with a map from every root
the tree ever had to the leaf that was appended when it got that root.

From the current nodes alone the store answers questions about the past.
`getHistoricalNodeValue_eq` says that what it reconstructs is the tree with
the later leaves cut off; the rest follows from `Lib.GrowingTree`.
-/
import PsyNode.Store.V3

namespace PsyNode.Store

open Merkle Lib.Merkle Lib List Function SimpleMemoryMerkleStoreV3 SimpleMerkleNodeKey

/-- A tree that also keeps, for each root it had, the leaf appended to get there. -/
structure PsyDashMemoryAppendOnlyMerkleStore (Hash : Type) extends
    SimpleMemoryMerkleStoreV3 Hash where
  roots : Hash → Option Nat

/-- The append-only store, for short. -/
abbrev AppendOnlyStore (Hash : Type) := PsyDashMemoryAppendOnlyMerkleStore Hash

namespace PsyDashMemoryAppendOnlyMerkleStore

variable {Hash : Type} [MerkleZeroHasher Hash]

/-! ## §1. The store. -/

/-- The empty tree. -/
def new (height : Nat) : AppendOnlyStore Hash :=
  ⟨SimpleMemoryMerkleStoreV3.new height, fun _ => none⟩

variable (st : AppendOnlyStore Hash)

def getLeafIndexForRoot (root : Hash) : Option Nat := st.roots root

/-- Sets the leaf at `index`, unless the one behind it is stored. -/
def appendLeaf [DecidableEq Hash] (st : AppendOnlyStore Hash) (index : Nat) (leaf : Hash) :
    Except String (AppendOnlyStore Hash × DeltaMerkleProofCore Hash) := do
  let maxLeaves ← shl64 st.height
  if index ≥ maxLeaves then
    .error "Tree is full, cannot append more leaves"
  else if (st.nodes ⟨st.height, index + 1⟩).isSome then
    .error s!"Leaf at index {index + 1} already exists, so we cannot append at the index before it"
  else
    let (tree, proof) := st.setLeaf index leaf
    .ok (⟨tree, update st.roots proof.newRoot (some index)⟩, proof)

/-- `get_historical_node_value`.  The recursion goes down the levels that are
left, which is the first argument of `go`. -/
def getHistoricalNodeValue (key : NodeKey) (historicalIndex : Nat) : Hash :=
  go (st.height - key.level) key
where
  go : Nat → NodeKey → Hash
  | n, key =>
    let levelOffset := st.height - key.level
    let nodeFirstLeaf := key.index <<< levelOffset
    let nodeLastLeaf := ((key.index + 1) <<< levelOffset) - 1
    if nodeLastLeaf ≤ historicalIndex then st.getNodeValue key
    else if nodeFirstLeaf > historicalIndex then st.getZeroHashForLevel key.level
    else
      match n with
      | 0 => st.getZeroHashForLevel key.level
      | n + 1 => twoToOne (go n key.leftChild) (go n key.rightChild)

def getHistoricalMerkleProofAtHistoricalIndex
    (index historicalIndex : Nat) : MerkleProofCore Hash :=
  let leafKey : NodeKey := ⟨st.height, index⟩
  let siblingValues := leafKey.siblings.map (st.getHistoricalNodeValue · historicalIndex)
  let value := st.getHistoricalNodeValue leafKey historicalIndex
  { index := index
    siblings := siblingValues
    root := computeRootMerkleProofGeneric value index siblingValues
    value := value }

def getHistoricalIndexAppendOnlyMerkleProofForRoot
    (checkpointTreeRoot : Hash) (historicalIndex : Nat) : Except String (MerkleProofCore Hash) :=
  match st.roots checkpointTreeRoot with
  | some index => .ok (st.getHistoricalMerkleProofAtHistoricalIndex index historicalIndex)
  | none => .error "Root not found in append-only store"

/-! ## §2. The past, read off the present. -/

variable {st st' : AppendOnlyStore Hash}

/-- **HISTORICAL NODES.**  In a settled store the reconstructed value of a node is
the root of its sub-tree with the leaves after `historicalIndex` cut off. -/
theorem getHistoricalNodeValue_eq (hs : st.TreeSettled) (j : Nat) {l : Nat} (hl : l ≤ st.height)
    (i : Nat) : st.getHistoricalNodeValue ⟨l, i⟩ j =
      subRoot twoToOne (cutAfter getZeroValue st.getLeafValue j) (st.height - l) i := by
  have key (n l i : Nat) (hl : l ≤ st.height) (hn : st.height - l = n) :
      getHistoricalNodeValue.go st j n ⟨l, i⟩ =
        subRoot twoToOne (cutAfter getZeroValue st.getLeafValue j) n i := by
    induction n generalizing l i with
    | zero =>
      unfold getHistoricalNodeValue.go
      simp only [hn, Nat.shiftLeft_zero, Nat.add_sub_cancel]
      -- a single leaf is on one side of the cut
      split
      next hij =>
        rw [getNodeValue_eq_table, hs.table_eq hl, hn]
        exact (if_pos hij).symm
      next hij =>
        rw [if_pos (by omega)]
        refine Eq.trans ?_ (if_neg hij).symm
        unfold getZeroHashForLevel
        rw [hn]
        rfl
    | succ n ih =>
      unfold getHistoricalNodeValue.go
      simp only [hn, Nat.shiftLeft_eq]
      split
      next hbefore =>
        rw [getNodeValue_eq_table, hs.table_eq hl, hn, subRoot_cutAfter_of_le hbefore]
      next =>
        split
        next hafter =>
          rw [subRoot_cutAfter_of_lt hafter, ← getZeroHash_eq_zeroAt, ← hn]
          rfl
        next =>
          -- the node straddles the cut: its children are reconstructed
          rw [leftChild_mk, rightChild_mk,
            ih (l + 1) _ (by omega) (by omega), ih (l + 1) _ (by omega) (by omega)]
          rfl
  exact key (st.height - l) l i hl rfl

/-- A historical proof is the path of its leaf in the tree cut at `j`. -/
theorem historicalProof_eq (hs : st.TreeSettled) (i j : Nat) :
    st.getHistoricalMerkleProofAtHistoricalIndex i j =
      { index := i
        siblings := path (fun l q => subRoot twoToOne
          (cutAfter getZeroValue st.getLeafValue j) (st.height - l) q) st.height i
        root := subRoot twoToOne (cutAfter getZeroValue st.getLeafValue j) st.height
          (i / 2 ^ st.height)
        value := cutAfter getZeroValue st.getLeafValue j i } := by
  have hvalue : st.getHistoricalNodeValue ⟨st.height, i⟩ j =
      cutAfter getZeroValue st.getLeafValue j i := by
    rw [getHistoricalNodeValue_eq hs j le_rfl, Nat.sub_self]
    rfl
  have hsibs : (siblings ⟨st.height, i⟩).map
        (st.getHistoricalNodeValue · j) =
      path (fun l q => subRoot twoToOne (cutAfter getZeroValue st.getLeafValue j)
        (st.height - l) q) st.height i := by
    rw [map_siblings_eq_path]
    apply path_congr
    intro l _ hl q _
    exact getHistoricalNodeValue_eq hs j hl q
  have hroot := climb_path (settled_subRoot twoToOne
    (cutAfter getZeroValue st.getLeafValue j) st.height) st.height le_rfl i
  simp only [Nat.sub_self, Nat.sub_zero] at hroot
  unfold getHistoricalMerkleProofAtHistoricalIndex
  simp only [hvalue, hsibs, computeRootMerkleProofGeneric_eq_climb]
  rw [← hroot]
  rfl

variable {j i : Nat}

/-- The append root of a historical proof is the root right after its own leaf. -/
theorem historicalProof_getAppendRoot (hs : st.TreeSettled) (hij : i ≤ j) :
    (st.getHistoricalMerkleProofAtHistoricalIndex i j).getAppendRoot =
      subRoot twoToOne (cutAfter getZeroValue st.getLeafValue i) st.height
        (i / 2 ^ st.height) := by
  have h := @climbAppend_path Hash twoToOne getZeroValue st.getLeafValue i j hij st.height 0
  rw [pow_zero, Nat.div_one] at h
  rw [MerkleProofCore.getAppendRoot_eq_climbAppend, historicalProof_eq hs]
  -- both start from leaf `i`, which no cut at or after `i` removes
  have hvalue : cutAfter getZeroValue st.getLeafValue j i =
      subRoot twoToOne (cutAfter getZeroValue st.getLeafValue i) 0 i := by
    show _ = cutAfter getZeroValue st.getLeafValue i i
    unfold cutAfter
    rw [if_pos hij, if_pos le_rfl]
  rw [hvalue]
  exact h

/-! ## §3. The tree of the appended leaves. -/

variable (leaves : List Hash)

/-- The leaves of a tree that holds the list from index 0 on. -/
def padded : Nat → Hash := fun i => leaves.getD i getZeroValue

theorem padded_take (j : Nat) :
    padded (leaves.take (j + 1)) = cutAfter getZeroValue (padded leaves) j := by
  funext i
  unfold padded cutAfter
  by_cases hi : i ≤ j
  · rw [if_pos hi]
    simp [getD_eq_getElem?_getD, Nat.lt_succ_of_le hi]
  · rw [if_neg hi]
    simp [getD_eq_getElem?_getD, show ¬ i < j + 1 by omega]

theorem padded_concat (leaf : Hash) :
    padded (leaves ++ [leaf]) = update (padded leaves) leaves.length leaf := by
  funext i
  unfold padded
  rcases Nat.lt_trichotomy i leaves.length with hi | hi | hi
  · rw [update_of_ne (by omega), getD_append _ _ _ _ hi]
  · subst hi; simp
  · rw [update_of_ne (by omega), getD_eq_default _ _ (by simp; omega),
      getD_eq_default _ _ (by omega)]

/-- The root of the tree when leaf `j` was the last one. -/
def rootAt (height : Nat) (leaves : List Hash) (j : Nat) : Hash :=
  subRoot twoToOne (cutAfter getZeroValue (padded leaves) j) height 0

/-- **THE INVARIANT OF APPENDS**: a settled, pruned tree holding `leaves`, with the
roots map naming, for every root the tree had, the last leaf with that root. -/
structure Holds (height : Nat) (leaves : List Hash) (st : AppendOnlyStore Hash) : Prop where
  height_eq : st.height = height
  settled : st.TreeSettled
  pruned : st.Pruned
  leaf_eq : st.getLeafValue = padded leaves
  roots_sound : ∀ r k, st.roots r = some k → k < leaves.length ∧ rootAt height leaves k = r
  roots_complete : ∀ k, k < leaves.length →
    ∃ k', k ≤ k' ∧ st.roots (rootAt height leaves k) = some k'

theorem holds_new (height : Nat) : Holds height [] (new height : AppendOnlyStore Hash) where
  height_eq := rfl
  settled := SimpleMemoryMerkleStoreV3.treeSettled_new height
  pruned := fun _ h => absurd h (by simp [new, SimpleMemoryMerkleStoreV3.new])
  leaf_eq := by
    funext i
    show (SimpleMemoryMerkleStoreV3.new height).table height i = _
    rw [table_new]
    show zeroAt twoToOne getZeroValue (height - height) = _
    rw [Nat.sub_self]
    rfl
  roots_sound := fun r k h => absurd h (by simp [new])
  roots_complete := fun k hk => absurd hk (by simp)

variable {height k : Nat}

/-- Later leaves do not change an earlier root. -/
theorem rootAt_append {leaves more : List Hash}
    (hk : k < leaves.length) : rootAt height (leaves ++ more) k = rootAt height leaves k := by
  unfold rootAt
  rw [← padded_take, ← padded_take, take_append_of_le_length (by omega)]

variable {leaves : List Hash}

/-- The root of a historical proof is the root at `j`. -/
theorem Holds.historicalProof_root (hst : Holds height leaves st) (hi : i < 2 ^ height) (j : Nat) :
    (st.getHistoricalMerkleProofAtHistoricalIndex i j).root = rootAt height leaves j := by
  rw [historicalProof_eq hst.settled, hst.leaf_eq, hst.height_eq]
  show subRoot _ _ _ (i / 2 ^ height) = _
  rw [Nat.div_eq_of_lt hi]
  rfl

/-- With a collision-free hash, two leaves with one root have the same root between them. -/
theorem rootAt_between (hinj : CollisionFree Hash)
    {k' : Nat} (hk' : k' < 2 ^ height) (hkj : k ≤ j) (hjk : j ≤ k')
    (h : rootAt height leaves k = rootAt height leaves k') :
    cutAfter getZeroValue (padded leaves) j = cutAfter getZeroValue (padded leaves) k' := by
  refine cutAfter_eq_of_between hkj hjk ?_
  funext m
  by_cases hm : m ≤ k'
  · exact eq_of_subRoot_eq hinj height 0 h m (by simp) (by omega)
  · unfold cutAfter
    rw [if_neg hm, if_neg (by omega)]

variable [DecidableEq Hash]

theorem historicalProof_verify (hs : st.TreeSettled) (hh : st.height ≤ 64) (i j : Nat) :
    (st.getHistoricalMerkleProofAtHistoricalIndex i j).verify = true := by
  have hlen : (st.getHistoricalMerkleProofAtHistoricalIndex i j).siblings.length ≤ 64 := by
    rw [historicalProof_eq hs, path_length]
    exact hh
  rw [MerkleProofCore.verify_iff]
  exact ⟨hlen, (computeRootMerkleProofGeneric_eq_climb _ _ _).symm⟩

/-! ## §4. Runs of appends. -/

/-- `append_leaf` at `index`, `index + 1`, … for the given leaves. -/
def appendLeaves : Nat → List Hash → AppendOnlyStore Hash → Except String (AppendOnlyStore Hash)
  | _, [], st => .ok st
  | index, leaf :: rest, st => do
    let (st', _) ← st.appendLeaf index leaf
    appendLeaves (index + 1) rest st'

variable {proof : DeltaMerkleProofCore Hash} {index : Nat} {leaf : Hash}

/-- What a successful append does. -/
theorem appendLeaf_eq_ok
    (h : st.appendLeaf index leaf = .ok (st', proof)) : st.height < 64 ∧ index < 2 ^ st.height ∧
      st'.toSimpleMemoryMerkleStoreV3 = st.setLeafNoProof index leaf ∧
      st'.roots = update st.roots st'.getRoot (some index) := by
  obtain ⟨maxLeaves, hmax, h⟩ := bind_eq_ok.mp h
  rw [← shl64_eq_ok hmax] at h
  have hheight : st.height < 64 := shl64_lt hmax
  split at h
  next => cases h
  next hidx =>
    split at h
    next => cases h
    next =>
      cases h
      exact ⟨hheight, by omega, rfl, rfl⟩

/-- An append below the capacity whose next slot is empty succeeds. -/
theorem appendLeaf_ok (leaf : Hash) (hheight : st.height < 64) (hidx : index < 2 ^ st.height)
    (hnext : st.nodes ⟨st.height, index + 1⟩ = none) : ∃ r, st.appendLeaf index leaf = .ok r := by
  unfold appendLeaf shl64
  rw [if_pos hheight, Nat.shiftLeft_eq, one_mul]
  simp only [bind, Except.bind]
  rw [if_neg (by omega), hnext]
  exact ⟨_, rfl⟩

theorem appendLeaves_append (xs ys : List Hash) (index : Nat) (st : AppendOnlyStore Hash) :
    appendLeaves index (xs ++ ys) st =
      (appendLeaves index xs st >>= appendLeaves (index + xs.length) ys) := by
  induction xs generalizing index st with
  | nil => rfl
  | cons x xs ih =>
    rw [cons_append, appendLeaves, appendLeaves]
    cases st.appendLeaf index x with
    | error e => rfl
    | ok r =>
      have h := ih (index + 1) r.1
      rw [Nat.add_assoc, Nat.add_comm 1] at h
      exact h

/-- One append keeps the invariant. -/
theorem Holds.appendLeaf (hst : Holds height leaves st)
    (h : st.appendLeaf leaves.length leaf = .ok (st', proof)) :
    Holds height (leaves ++ [leaf]) st' := by
  obtain ⟨_, _, htree, hroots⟩ := appendLeaf_eq_ok h
  have hheight : st'.height = height := by
    rw [htree, setLeafNoProof_height, hst.height_eq]
  have hsettled : st'.TreeSettled := htree ▸ hst.settled.setLeafNoProof _ _
  have hleaf : st'.getLeafValue = padded (leaves ++ [leaf]) := by
    rw [htree, getLeafValue_setLeafNoProof, hst.leaf_eq, padded_concat]
  have hroot : st'.getRoot = rootAt height (leaves ++ [leaf]) leaves.length := by
    rw [TreeSettled.getRoot_eq hsettled, hleaf, hheight]
    unfold rootAt
    rw [← padded_take, take_of_length_le (by simp)]
  refine ⟨hheight, hsettled, htree ▸ hst.pruned.setLeafNoProof _ _, hleaf, ?_, ?_⟩
  · intro r k hk
    rw [hroots] at hk
    by_cases hr : r = st'.getRoot
    · -- the entry just written
      subst hr
      rw [update_self] at hk
      cases hk
      exact ⟨by simp, hroot.symm⟩
    · rw [update_of_ne hr] at hk
      obtain ⟨hlt, hkr⟩ := hst.roots_sound r k hk
      exact ⟨by simp; omega, by rw [rootAt_append hlt, hkr]⟩
  · intro k hk
    rw [hroots]
    by_cases hr : rootAt height (leaves ++ [leaf]) k = st'.getRoot
    · rw [hr, update_self]
      rw [length_append, length_singleton] at hk
      exact ⟨leaves.length, by omega, rfl⟩
    · have hlt : k < leaves.length := by
        rw [length_append, length_singleton] at hk
        rcases Nat.lt_succ_iff_lt_or_eq.mp hk with hlt | rfl
        · exact hlt
        · exact absurd hroot.symm hr
      rw [update_of_ne hr, rootAt_append hlt]
      exact hst.roots_complete k hlt

/-- A run of appends keeps the invariant. -/
theorem Holds.appendLeaves (rest : List Hash) {leaves : List Hash}
    {st st' : AppendOnlyStore Hash} (hst : Holds height leaves st)
    (h : appendLeaves leaves.length rest st = .ok st') : Holds height (leaves ++ rest) st' := by
  induction rest generalizing leaves st st' with
  | nil =>
    cases h
    rw [append_nil]
    exact hst
  | cons leaf rest ih =>
    obtain ⟨⟨st₁, proof⟩, h₁, h⟩ := bind_eq_ok.mp h
    have hnext := ih (hst.appendLeaf h₁) (by simpa using h)
    rwa [append_assoc] at hnext

/-- **APPENDS SUCCEED** up to the capacity of the tree. -/
theorem appendLeaves_succeeds (hheight : height < 64) (rest : List Hash) {leaves : List Hash}
    {st : AppendOnlyStore Hash} (hst : Holds height leaves st)
    (hfit : leaves.length + rest.length ≤ 2 ^ height) :
    ∃ st', appendLeaves leaves.length rest st = .ok st' := by
  induction rest generalizing leaves st with
  | nil => exact ⟨st, rfl⟩
  | cons leaf rest ih =>
    rw [length_cons] at hfit
    -- nothing was written after the last leaf
    have hzero : st.getLeafValue (leaves.length + 1) = getZeroValue := by
      rw [hst.leaf_eq]
      exact getD_eq_default _ _ (by omega)
    have hnext : st.nodes ⟨st.height, leaves.length + 1⟩ = none := by
      refine (hst.pruned.nodes_eq _).trans (if_pos (Eq.trans hzero ?_))
      unfold getZeroHashForLevel
      rw [Nat.sub_self]
      rfl
    obtain ⟨⟨st₁, proof⟩, h₁⟩ := appendLeaf_ok leaf (by rw [hst.height_eq]; exact hheight)
      (by rw [hst.height_eq]; omega) hnext
    obtain ⟨st', hrest⟩ := ih (hst.appendLeaf h₁) (by simp; omega)
    refine ⟨st', bind_eq_ok.mpr ⟨_, h₁, ?_⟩⟩
    simpa using hrest

/-! ## §5. History. -/

/-- `r` is the root the store had right after leaf `j` was appended (after the last
leaf, if there is no leaf `j`). -/
def RootAfter (height : Nat) (leaves : List Hash) (j : Nat) (r : Hash) : Prop :=
  ∃ st, appendLeaves 0 (leaves.take (j + 1)) (new height) = .ok st ∧ st.getRoot = r

theorem RootAfter.eq_rootAt {r : Hash}
    (h : RootAfter height leaves j r) : r = rootAt height leaves j := by
  obtain ⟨stj, hj, rfl⟩ := h
  have hst := (holds_new height).appendLeaves _ hj
  rw [TreeSettled.getRoot_eq hst.settled, hst.leaf_eq, hst.height_eq, nil_append, padded_take]
  rfl

theorem rootAfter_rootAt (h : appendLeaves 0 leaves (new height) = .ok st)
    (j : Nat) : RootAfter height leaves j (rootAt height leaves j) := by
  rw [← take_append_drop (j + 1) leaves, appendLeaves_append] at h
  obtain ⟨stj, hj, _⟩ := bind_eq_ok.mp h
  have hroot : RootAfter height leaves j stj.getRoot := ⟨stj, hj, rfl⟩
  rw [← hroot.eq_rootAt]
  exact hroot

/-- A successful run of at least one append fits the tree. -/
theorem appendLeaves_fits (h : appendLeaves 0 leaves (new height) = .ok st)
    (hk : k < leaves.length) : height < 64 ∧ k < 2 ^ height := by
  rw [← take_append_drop k leaves, appendLeaves_append] at h
  obtain ⟨stk, hpre, h⟩ := bind_eq_ok.mp h
  have hst := (holds_new height).appendLeaves _ hpre
  rw [drop_eq_getElem_cons hk] at h
  obtain ⟨⟨st₁, proof⟩, h₁, _⟩ := bind_eq_ok.mp h
  obtain ⟨hheight, hidx, _⟩ := appendLeaf_eq_ok h₁
  rw [hst.height_eq] at hheight hidx
  rw [length_take, Nat.min_eq_left hk.le, Nat.zero_add] at hidx
  exact ⟨hheight, hidx⟩

section
variable {height : Nat} {leaves : List Hash} (hst : Holds height leaves st)
  (hfits : ∀ k, k < leaves.length → height < 64 ∧ k < 2 ^ height)
include hst hfits

/-- The lookup by root, on a root the store has recorded for leaf `k`. -/
theorem Holds.proofForRoot {r : Hash} (hr : st.roots r = some k) (hkj : k ≤ j) :
    ∃ proof, st.getHistoricalIndexAppendOnlyMerkleProofForRoot r j = .ok proof ∧
      proof.verify = true ∧ proof.root = rootAt height leaves j ∧ proof.getAppendRoot = r := by
  obtain ⟨hk, hkr⟩ := hst.roots_sound r k hr
  obtain ⟨hheight, hk⟩ := hfits k hk
  refine ⟨st.getHistoricalMerkleProofAtHistoricalIndex k j, ?_,
    historicalProof_verify hst.settled (by rw [hst.height_eq]; omega) k j,
    hst.historicalProof_root hk j, ?_⟩
  · unfold getHistoricalIndexAppendOnlyMerkleProofForRoot
    rw [hr]
  · rw [historicalProof_getAppendRoot hst.settled hkj, hst.leaf_eq, hst.height_eq,
      Nat.div_eq_of_lt hk]
    exact hkr

/-- The same for any earlier leaf that had the root, when the hash is collision-free. -/
theorem Holds.proofForRoot_of_injective (hinj : CollisionFree Hash)
    (hk : k < leaves.length) (hkj : k ≤ j) :
    ∃ proof, st.getHistoricalIndexAppendOnlyMerkleProofForRoot (rootAt height leaves k) j =
        .ok proof ∧ proof.verify = true ∧ proof.root = rootAt height leaves j ∧
      proof.getAppendRoot = rootAt height leaves k := by
  obtain ⟨k', _, hr⟩ := hst.roots_complete k hk
  by_cases hjk : k' ≤ j
  · exact hst.proofForRoot hfits hr hjk
  · -- only empty leaves lie between `k` and `k'`, so the tree at `j` is the tree at `k'`
    obtain ⟨hk', hkr⟩ := hst.roots_sound _ k' hr
    have hcut := rootAt_between hinj (hfits k' hk').2 hkj (Nat.le_of_not_le hjk) hkr.symm
    have hsame : st.getHistoricalMerkleProofAtHistoricalIndex k' j =
        st.getHistoricalMerkleProofAtHistoricalIndex k' k' := by
      rw [historicalProof_eq hst.settled, historicalProof_eq hst.settled, hst.leaf_eq, hcut]
    have hroot : rootAt height leaves j = rootAt height leaves k' := by
      unfold rootAt
      rw [hcut]
    obtain ⟨proof, hproof, hrest⟩ := hst.proofForRoot hfits hr (le_refl k')
    rw [hroot]
    refine ⟨proof, ?_, hrest⟩
    unfold getHistoricalIndexAppendOnlyMerkleProofForRoot at hproof ⊢
    rw [hr] at hproof ⊢
    exact (congrArg Except.ok hsame).trans hproof

end

/-- **HISTORY OF THE APPEND-ONLY STORE.**  For a store built by appending `leaves` at
the indices 0, 1, …:

  * the proof of leaf `i` as of leaf `j` verifies, shows leaf `i`, and has the root the
    store had right after leaf `j`;
  * for a root recorded for leaf `k` and `j ≥ k`, the lookup by root succeeds, verifies
    to the root after `j`, and its append root is the given root;
  * every root the store ever had is recorded, for the last leaf with that root;
  * when the hash is collision-free the lookup has the same guarantees from the first
    leaf with that root on. -/
theorem append_only_history {height : Nat} {leaves : List Hash}
    {st : PsyDashMemoryAppendOnlyMerkleStore Hash}
    (h : appendLeaves 0 leaves (new height) = .ok st) :
    (∀ i j, i ≤ j → j < leaves.length →
      (st.getHistoricalMerkleProofAtHistoricalIndex i j).verify = true ∧
      some (st.getHistoricalMerkleProofAtHistoricalIndex i j).value = leaves[i]? ∧
      RootAfter height leaves j (st.getHistoricalMerkleProofAtHistoricalIndex i j).root) ∧
    (∀ r k j, st.getLeafIndexForRoot r = some k → k ≤ j →
      ∃ proof, st.getHistoricalIndexAppendOnlyMerkleProofForRoot r j = .ok proof ∧
        proof.verify = true ∧ RootAfter height leaves j proof.root ∧ proof.getAppendRoot = r) ∧
    (∀ r k, k < leaves.length → RootAfter height leaves k r →
      ∃ k', k ≤ k' ∧ st.getLeafIndexForRoot r = some k' ∧ RootAfter height leaves k' r) ∧
    ((∀ a b c d : Hash, twoToOne a b = twoToOne c d → a = c ∧ b = d) →
      ∀ r k j, k < leaves.length → RootAfter height leaves k r → k ≤ j →
        ∃ proof, st.getHistoricalIndexAppendOnlyMerkleProofForRoot r j = .ok proof ∧
          proof.verify = true ∧ RootAfter height leaves j proof.root ∧
          proof.getAppendRoot = r) := by
  have hst : Holds height leaves st := (holds_new height).appendLeaves leaves h
  have hfits : ∀ k, k < leaves.length → height < 64 ∧ k < 2 ^ height :=
    fun k hk => appendLeaves_fits h hk
  have hafter := rootAfter_rootAt h
  refine ⟨?_, ?_, ?_, ?_⟩
  · intro i j hij hj
    obtain ⟨hheight, hi⟩ := hfits i (by omega)
    have hroot := hafter j
    rw [← hst.historicalProof_root hi j] at hroot
    refine ⟨historicalProof_verify hst.settled (by rw [hst.height_eq]; omega) i j, ?_, hroot⟩
    rw [historicalProof_eq hst.settled, hst.leaf_eq]
    show some (if i ≤ j then padded leaves i else getZeroValue) = _
    rw [if_pos hij]
    unfold padded
    rw [getD_eq_getElem _ _ (by omega), getElem?_eq_getElem (by omega)]
  · intro r k j hr hkj
    obtain ⟨proof, hproof, hverify, hroot, happend⟩ := hst.proofForRoot hfits hr hkj
    exact ⟨proof, hproof, hverify, hroot ▸ hafter j, happend⟩
  · intro r k hk hr
    obtain ⟨k', hkk', hk'⟩ := hst.roots_complete k hk
    rw [← hr.eq_rootAt] at hk'
    exact ⟨k', hkk', hk', (hst.roots_sound r k' hk').2 ▸ hafter k'⟩
  · intro hinj r k j hk hr hkj
    obtain ⟨proof, hproof, hverify, hroot, happend⟩ :=
      hst.proofForRoot_of_injective hfits hinj hk hkj
    rw [hr.eq_rootAt]
    exact ⟨proof, hproof, hverify, hroot ▸ hafter j, happend⟩

/-- Three leaves in a tree of height two: the proof of leaf 0 as of leaf 1 has the
root of the two-leaf tree. -/
theorem append_only_history_three_leaves :
    ∃ st : PsyDashMemoryAppendOnlyMerkleStore SymHash,
      appendLeaves 0 [.leaf 1, .leaf 2, .leaf 3] (new 2) = .ok st ∧
      (st.getHistoricalMerkleProofAtHistoricalIndex 0 1).verify = true ∧
      (st.getHistoricalMerkleProofAtHistoricalIndex 0 1).value = .leaf 1 ∧
      (st.getHistoricalMerkleProofAtHistoricalIndex 0 1).root =
        .node (.node (.leaf 1) (.leaf 2)) (.node .zero .zero) := by
  obtain ⟨st, hst⟩ := appendLeaves_succeeds (by decide)
    [SymHash.leaf 1, .leaf 2, .leaf 3] (holds_new 2) (by decide)
  obtain ⟨hverify, hvalue, hroot⟩ := (append_only_history hst).1 0 1 (by decide) (by decide)
  exact ⟨st, hst, hverify, Option.some.inj hvalue, hroot.eq_rootAt⟩

/-! ## §6. The past is fixed. -/

/-- **LATER APPENDS** change no historical proof. -/
theorem later_appends_keep_history (height : Nat) (leaves more : List Hash)
    (h : appendLeaves 0 leaves (new height) = .ok st)
    (hmore : appendLeaves leaves.length more st = .ok st') (hj : j < leaves.length) :
    st'.getHistoricalMerkleProofAtHistoricalIndex i j =
      st.getHistoricalMerkleProofAtHistoricalIndex i j := by
  have hst : Holds height leaves st := (holds_new height).appendLeaves leaves h
  have hst' := hst.appendLeaves more hmore
  rw [historicalProof_eq hst'.settled, historicalProof_eq hst.settled, hst'.leaf_eq, hst.leaf_eq,
    hst'.height_eq, hst.height_eq, ← padded_take, ← padded_take,
    take_append_of_le_length (by omega)]

theorem later_appends_keep_history_two : ∃ st st' : PsyDashMemoryAppendOnlyMerkleStore SymHash,
    appendLeaves 0 [.leaf 1] (new 1) = .ok st ∧ appendLeaves 1 [.leaf 2] st = .ok st' ∧
      st'.getHistoricalMerkleProofAtHistoricalIndex 0 0 =
        st.getHistoricalMerkleProofAtHistoricalIndex 0 0 :=
  ⟨_, _, rfl, rfl, later_appends_keep_history 1 [.leaf 1] [.leaf 2] rfl rfl Nat.one_pos⟩

/-- **OPENINGS OF A PAST ROOT**: whatever siblings it comes with, a verifying proof shows the
leaf its place had then, if the hash has no collisions. -/
theorem history_opening_sound (hinj : ∀ a b c d : Hash, twoToOne a b = twoToOne c d → a = c ∧ b = d)
    (p : MerkleProofCore Hash) (hverify : p.verify = true) (hlen : p.siblings.length = height)
    (hroot : RootAfter height leaves j p.root) :
    p.value = (leaves.take (j + 1)).getD (p.index % 2 ^ height) getZeroValue := by
  have hpast := hroot.eq_rootAt
  rw [rootAt, ← padded_take] at hpast
  exact value_of_verify hinj hverify hlen hpast

theorem history_opening_sound_second_leaf :
    RootAfter 1 [.leaf 1, .leaf 2] 1 (SymHash.node (.leaf 1) (.leaf 2)) ∧
      SymHash.leaf 2 = [.leaf 1, .leaf 2].getD 1 .zero := by
  have hroot : RootAfter 1 [.leaf 1, .leaf 2] 1 (SymHash.node (.leaf 1) (.leaf 2)) := ⟨_, rfl, rfl⟩
  exact ⟨hroot, history_opening_sound (fun _ _ _ _ h => SymHash.node.inj h)
    ⟨.node (.leaf 1) (.leaf 2), .leaf 2, 1, [.leaf 1]⟩ (by decide) rfl hroot⟩

end PsyDashMemoryAppendOnlyMerkleStore

end PsyNode.Store
