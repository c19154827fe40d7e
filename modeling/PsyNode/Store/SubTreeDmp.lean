/-
PsyNode.Store.SubTreeDmp
**DELTA PROOFS OF A SUB-TREE** — `rehash_sub_tree_dmp` and `set_sub_tree_dmp` of
`SimpleMemoryMerkleStoreV3`, and `recompute_entire_tree`.

`set_sub_tree_dmp` writes the leaves and then lets `rehash_sub_tree_dmp` read the old value.  If
the sub-tree is a single leaf, that is the new leaf already (`set_sub_tree_dmp_one_leaf`); otherwise
the proof shows the change (`sub_tree_dmp_verifies_iff`).
-/
import PsyNode.Store.SubTree

namespace PsyNode.Store.SimpleMemoryMerkleStoreV3

open Merkle Recorder Lib.Merkle Lib List
open PsyMemoryMerkleStoreImm (setRun rehashRecursive rehashSubTreeDmp setSubTreeDmp)

variable {Hash : Type} [MerkleZeroHasher Hash]

/-- Every inner node is the hash of its children. -/
def Hashed (st : StoreV3 Hash) : Prop :=
  SettledOff twoToOne st.table st.height (fun l i => ¬ i < 2 ^ l)

variable {st st₁ : StoreV3 Hash}

/-! ## §1. The whole tree. -/

/-- The loop body of `recompute_entire_level`: a node over no kept child is not kept. -/
def recomputeNode (zeroHash : Hash) (level : Nat) (st : StoreV3 Hash) (i : Nat) : StoreV3 Hash :=
  let nodeKey : NodeKey := ⟨level, i⟩
  let value :=
    match st.nodes nodeKey.leftChild, st.nodes nodeKey.rightChild with
    | none, none => none
    | some leftHash, none => some (twoToOne leftHash zeroHash)
    | none, some rightHash => some (twoToOne zeroHash rightHash)
    | some leftHash, some rightHash => some (twoToOne leftHash rightHash)
  { st with nodes := Function.update st.nodes nodeKey value }

def recomputeEntireLevel (st : StoreV3 Hash) (level : Nat) : Except String (StoreV3 Hash) :=
  if level ≥ st.height then .ok st
  else do
    let endIndex ← shl64 level
    let zeroHash := st.getZeroHashForLevel (level + 1)
    return (List.range endIndex).foldl (recomputeNode zeroHash level) st

def recomputeEntireTree (st : StoreV3 Hash) : Except String (StoreV3 Hash) :=
  (List.range st.height).reverse.foldlM recomputeEntireLevel st

theorem recomputeNode_table (st : StoreV3 Hash) {level : Nat} (hl : level < st.height) (i : Nat) :
    (recomputeNode (st.getZeroHashForLevel (level + 1)) level st i).table = st.table.set level i
      (twoToOne (st.table (level + 1) (2 * i)) (st.table (level + 1) (2 * i + 1))) := by
  funext l j
  show getNodeValue _ ⟨l, j⟩ = _
  rw [getNodeValue_eq_getD]
  by_cases hnode : l = level ∧ j = i
  · obtain ⟨rfl, rfl⟩ := hnode
    have hzero : st.getZeroHashForLevel l =
        twoToOne (st.getZeroHashForLevel (l + 1)) (st.getZeroHashForLevel (l + 1)) := by
      unfold getZeroHashForLevel
      rw [getZeroHash_eq_zeroAt, getZeroHash_eq_zeroAt,
        show st.height - l = st.height - (l + 1) + 1 by omega]
      rfl
    have hread : ∀ c, st.table (l + 1) c =
        (st.nodes ⟨l + 1, c⟩).getD (st.getZeroHashForLevel (l + 1)) :=
      fun c => st.getNodeValue_eq_getD _
    rw [Table.set_self, hread, hread]
    simp only [recomputeNode, Function.update_self, SimpleMerkleNodeKey.leftChild_mk,
      SimpleMerkleNodeKey.rightChild_mk]
    cases st.nodes ⟨l + 1, 2 * j⟩ <;> cases st.nodes ⟨l + 1, 2 * j + 1⟩ <;>
      first | rfl | exact hzero
  · rw [Table.set_of_ne _ _ hnode]
    have hne : (⟨l, j⟩ : NodeKey) ≠ ⟨level, i⟩ := by simpa using hnode
    simp only [recomputeNode, Function.update_of_ne hne]
    exact (st.getNodeValue_eq_getD _).symm

/-- One level: its nodes are hashed, the other levels stay. -/
theorem recomputeEntireLevel_spec (st : StoreV3 Hash) {level : Nat}
    (hl : level < st.height) (hlt : level < 64) :
    ∃ st', st.recomputeEntireLevel level = .ok st' ∧ st'.height = st.height ∧
      (∀ l, l ≠ level → st'.table l = st.table l) ∧
      ∀ i < 2 ^ level, HashedAt twoToOne st'.table level i := by
  have key (n : Nat) : ∃ st', (range n).foldl
      (recomputeNode (st.getZeroHashForLevel (level + 1)) level) st = st' ∧
      st'.height = st.height ∧ (∀ l, l ≠ level → st'.table l = st.table l) ∧
      ∀ i < n, HashedAt twoToOne st'.table level i := by
    induction n with
    | zero => exact ⟨_, rfl, rfl, fun _ _ => rfl, by simp⟩
    | succ n ih =>
      obtain ⟨st', hrun, hheight, hsame, hhashed⟩ := ih
      have hnode := st'.recomputeNode_table (hheight ▸ hl) n
      rw [getZeroHashForLevel, hheight] at hnode
      rw [range_succ, foldl_concat, hrun]
      refine ⟨_, rfl, hheight, fun l hne => ?_, fun i hi => ?_⟩
      · rw [← hsame l hne]
        funext j
        exact (congrFun₂ hnode l j).trans (Table.set_of_ne _ _ (fun h => hne h.1))
      · show HashedAt _ (table (recomputeNode _ _ _ _)) _ _
        rw [getZeroHashForLevel, hnode]
        by_cases hlast : i = n
        · unfold HashedAt
          rw [hlast, Table.set_self, Table.set_of_ne _ _ (by simp), Table.set_of_ne _ _ (by simp)]
        · refine (hhashed i (by omega)).congr ?_ ?_ ?_ <;> exact Table.set_of_ne _ _ (by omega)
  unfold recomputeEntireLevel
  rw [if_neg (by omega), shl64_of_lt hlt]
  obtain ⟨st', hrun, hspec⟩ := key (2 ^ level)
  exact ⟨st', congrArg Except.ok hrun, hspec⟩

/-- **`recompute_entire_tree`** hashes the tree from its leaves. -/
theorem recomputeEntireTree_spec (hh : st.height ≤ 64) : ∃ st', st.recomputeEntireTree = .ok st' ∧
    st'.height = st.height ∧ st'.getLeafValue = st.getLeafValue ∧ st'.Hashed := by
  -- the levels from `n` on are hashed
  have key (n : Nat) (st : StoreV3 Hash) (hn : n ≤ st.height)
      (hh : st.height ≤ 64)
      (hs : SettledOff twoToOne st.table st.height (fun l i => l < n ∨ ¬ i < 2 ^ l)) :
      ∃ st', (range n).reverse.foldlM recomputeEntireLevel st = .ok st' ∧
        st'.height = st.height ∧ st'.table st.height = st.table st.height ∧ st'.Hashed := by
    induction n generalizing st with
    | zero =>
      exact ⟨st, rfl, rfl, rfl, fun l hl i hi => hs l hl i (not_or.mpr ⟨by omega, hi⟩)⟩
    | succ n ih =>
      obtain ⟨st₁, hrun, hheight, hsame, hhashed⟩ := st.recomputeEntireLevel_spec hn (by omega)
      obtain ⟨st', hrest, hheight', hleaves, hs'⟩ := ih st₁ (by omega) (by omega) (by
        rw [hheight]
        intro l hl i hclean
        rw [not_or, not_lt, not_not] at hclean
        by_cases hlevel : l = n
        · subst hlevel
          exact hhashed i hclean.2
        · refine (hs l hl i (not_or.mpr ⟨by omega, not_not.mpr hclean.2⟩)).congr ?_ ?_ ?_ <;>
            rw [hsame _ (by omega)])
      rw [range_succ, reverse_append, reverse_singleton, singleton_append, foldlM_cons, hrun]
      rw [hheight] at hheight' hleaves
      exact ⟨st', hrest, hheight', hleaves.trans (hsame _ (by omega)), hs'⟩
  obtain ⟨st', hrun, hheight, hleaves, hs⟩ := key st.height st le_rfl hh
    (fun l hl i hclean => absurd hl (not_or.mp hclean).1)
  refine ⟨st', hrun, hheight, ?_, hs⟩
  show st'.table st'.height = st.table st.height
  rw [hheight, hleaves]

/-! ## §2. Delta proofs. -/

theorem Hashed.column (hs : st.Hashed) {l i : Nat} (hl : l ≤ st.height) (hi : i < 2 ^ l) :
    Column twoToOne st.table l i := by
  induction l generalizing i with
  | zero => trivial
  | succ l ih =>
    have hparent : i / 2 < 2 ^ l := by omega
    exact ⟨hs l hl _ (not_not.mpr hparent), ih (by omega) hparent⟩

variable [DecidableEq Hash]

/-- A delta proof of a node between two stores. -/
structure Shows (st st' : StoreV3 Hash) (key : NodeKey)
    (dmp : DeltaMerkleProofCore Hash) : Prop where
  verify : dmp.verify = true
  oldValue : dmp.oldValue = st.getNodeValue key
  oldRoot : dmp.oldRoot = st.getRoot
  newValue : dmp.newValue = st'.getNodeValue key
  newRoot : dmp.newRoot = st'.getRoot
  hashed : st'.Hashed

theorem rehashFromNodeToLevel_eq (node : NodeKey) :
    PsyMemoryMerkleStoreImm.rehashFromNodeToLevel st node 0 = st.rehashFromNodeToLevel node 0 := by
  have key (n node) (st : StoreV3 Hash) :
      PsyMemoryMerkleStoreImm.rehashFromNodeToLevel.go n node st =
        rehashFromNodeToLevel.go n node st := by
    induction n generalizing node st with
    | zero => rfl
    | succ n ih => exact ih _ _
  exact key _ _ _

/-- **THE DELTA PROOF** of a sub-tree whose leaves were written, if its root was not. -/
theorem rehashSubTreeDmp_shows {k i : Nat} (hs : st.Hashed) (hh : st.height ≤ 64)
    (hk : k ≤ st.height) (hi : i < 2 ^ (st.height - k)) (hheight : st₁.height = st.height)
    (hw : ∀ l j, ¬ (l = st.height ∧ j / 2 ^ k = i) → st₁.table l j = st.table l j)
    (hold : st₁.table (st.height - k) i = st.table (st.height - k) i) :
    ∃ st' dmp, rehashSubTreeDmp st₁ k i = .ok (st', dmp) ∧
      Shows st st' ⟨st.height - k, i⟩ dmp := by
  obtain ⟨_, _, ht⟩ := rehashRecursive_eq k i st₁ hheight hk
  obtain ⟨hheight', _, hs'⟩ := rehashSubTree_settledOff hs hk hheight hw
  unfold rehashSubTreeDmp
  rw [show PsyMemoryMerkleStoreImm.getHeight st₁ = st.height from hheight, if_neg (by omega)]
  dsimp only
  rw [rehashFromNodeToLevel_eq]
  generalize (rehashRecursive k ⟨st.height - k, i⟩ st₁).1 = st₂ at ht hheight' hs' ⊢
  -- the path is not written
  have hpath₁ : path st₁.table (st.height - k) i = path st.table (st.height - k) i := by
    apply path_congr
    intro l _ hl j hj
    refine hw l j ?_
    rintro ⟨rfl, rfl⟩
    obtain rfl : k = 0 := by omega
    simp at hj
  have hpath₂ : path st₂.table (st.height - k) i = path st₁.table (st.height - k) i := by
    apply path_congr
    intro l _ hl j hj
    rw [ht, if_neg]
    rintro ⟨hge, _, rfl⟩
    obtain rfl : l = st.height - k := by omega
    simp at hj
  have hroot : st₁.getRoot = st.getRoot := by
    by_cases hzero : st.height = 0
    · obtain rfl : i = 0 := by
        rw [hzero, Nat.zero_sub, pow_zero] at hi
        omega
      rwa [hzero, Nat.zero_sub] at hold
    · exact hw 0 0 (fun h => hzero h.1.symm)
  have hfirst := (hs.column (Nat.sub_le _ k) hi).climb_path
  have hlast := (@rehashSpan_column Hash st₂.table (st.height - k) i twoToOne).climb_path
  rw [Nat.div_eq_of_lt hi] at hfirst hlast
  rw [path_rehashSpan, hpath₂, ← (table_rehashFromNodeToLevel _ _ _).1] at hlast
  refine ⟨_, _, rfl, ?_, hold, hroot, rfl, rfl, ?_⟩
  · rw [DeltaMerkleProofCore.verify_iff]
    have hsib : (SimpleMerkleNodeKey.siblings ⟨st.height - k, i⟩).map
        (PsyMemoryMerkleStoreImm.getNodeValue st₁) = path st₁.table (st.height - k) i :=
      map_siblings_eq_path st₁.getNodeValue (st.height - k) i
    rw [hsib, path_length]
    refine ⟨by omega, ?_, hlast⟩
    rw [hpath₁]
    exact (congrArg (climb twoToOne · i _) hold).trans (hfirst.trans hroot.symm)
  · unfold Hashed
    rw [hheight']
    exact hs'

/-- `set_sub_tree_dmp` shows the change unless it sets a single leaf to another value, or its shift
overflows. -/
theorem setSubTreeDmp_shows_iff {k i : Nat} (hs : st.Hashed) (hh : st.height ≤ 64)
    (hk : k ≤ st.height) (hi : i < 2 ^ (st.height - k)) {leaves : List Hash}
    (hlen : leaves.length ≤ 2 ^ k) :
    (∃ st' dmp, setSubTreeDmp st k i leaves = .ok (st', dmp) ∧
      Shows st st' ⟨st.height - k, i⟩ dmp) ↔
    k < 64 ∧ (k = 0 → leaves.headD (st.getZeroHashForLevel st.height) = st.getLeafValue i) := by
  unfold setSubTreeDmp
  by_cases hlt : k < 64
  swap
  · refine iff_of_false ?_ (fun h => hlt h.1)
    rintro ⟨_, _, hcall, _⟩
    obtain ⟨_, hshift, _⟩ := bind_eq_ok.mp hcall
    exact hlt (shl64_lt hshift)
  rw [shl64_of_lt hlt]
  show (∃ st' dmp, (if leaves.length > 2 ^ k then _ else rehashSubTreeDmp (setRun st (2 ^ k * i)
    (leaves ++ replicate (2 ^ k - leaves.length) (st.getZeroHashForLevel st.height))) k i) = _ ∧
    _) ↔ _
  rw [if_neg (by omega)]
  have hlength : (leaves ++ replicate (2 ^ k - leaves.length)
      (st.getZeroHashForLevel st.height)).length = 2 ^ k := by
    rw [length_append, length_replicate, Nat.add_sub_cancel' hlen]
  have hhead : (leaves ++ replicate (2 ^ k - leaves.length)
      (st.getZeroHashForLevel st.height)).head? =
        some (leaves.headD (st.getZeroHashForLevel st.height)) := by
    cases leaves with
    | nil => simp [head?_replicate]
    | cons leaf leaves => rfl
  generalize leaves ++ replicate (2 ^ k - leaves.length) (st.getZeroHashForLevel st.height) = values
    at hlength hhead ⊢
  have hw := st.setRun_window (i := i) (Nat.zero_add values.length ▸ hlength.le)
  obtain ⟨hheight, htable⟩ := setRun_spec values (2 ^ k * i) st
  -- the node that is read as the old value is written only if it is the leaf
  have hold : (setRun st (2 ^ k * i) values).table (st.height - k) i =
      if k = 0 then leaves.headD (st.getZeroHashForLevel st.height)
      else st.table (st.height - k) i := by
    split
    next hk0 =>
      subst hk0
      obtain ⟨value, rfl⟩ := length_eq_one_iff.mp hlength
      cases hhead
      rw [htable, Nat.sub_zero, Function.update_self, pow_zero, one_mul]
      simp [writeRun]
    next hk0 => exact hw _ _ (fun h => by omega)
  constructor
  · rintro ⟨st', dmp, hcall, hshows⟩
    refine ⟨hlt, fun hk0 => ?_⟩
    have hread : dmp.oldValue = (setRun st (2 ^ k * i) values).table (st.height - k) i := by
      unfold rehashSubTreeDmp at hcall
      rw [show PsyMemoryMerkleStoreImm.getHeight (setRun st (2 ^ k * i) values) = st.height from
        hheight, if_neg (by omega)] at hcall
      cases hcall
      rfl
    rw [hold, if_pos hk0] at hread
    rw [← hread, hshows.oldValue, hk0]
    rfl
  · rintro ⟨_, hleaf⟩
    refine rehashSubTreeDmp_shows hs hh hk hi hheight hw ?_
    rw [hold]
    split
    next hk0 =>
      rw [hleaf hk0, hk0]
      rfl
    next => rfl

/-- **WHEN THE DELTA PROOF OF A SUB-TREE** verifies and shows the change of a hashed tree: always
for `rehash_sub_tree_dmp`, and for `set_sub_tree_dmp` unless it sets a single leaf to another value,
or its shift overflows; and `recompute_entire_tree` hashes any tree. -/
theorem sub_tree_dmp_verifies_iff (st : SimpleMemoryMerkleStoreV3 Hash) (hh : st.height ≤ 64) :
    (st.Hashed → ∀ k i, k ≤ st.height → i < 2 ^ (st.height - k) →
      (∃ st' dmp, rehashSubTreeDmp st k i = .ok (st', dmp) ∧
        Shows st st' ⟨st.height - k, i⟩ dmp) ∧
      ∀ leaves : List Hash, leaves.length ≤ 2 ^ k →
        ((∃ st' dmp, setSubTreeDmp st k i leaves = .ok (st', dmp) ∧
          Shows st st' ⟨st.height - k, i⟩ dmp) ↔
        k < 64 ∧ (k = 0 →
          leaves.headD (st.getZeroHashForLevel st.height) = st.getLeafValue i))) ∧
    ∃ st', st.recomputeEntireTree = .ok st' ∧ st'.height = st.height ∧
      st'.getLeafValue = st.getLeafValue ∧ st'.Hashed := by
  refine ⟨fun hs k i hk hi => ⟨?_, fun leaves => ?_⟩, recomputeEntireTree_spec hh⟩
  · exact rehashSubTreeDmp_shows hs hh hk hi rfl (fun _ _ _ => rfl) rfl
  · exact setSubTreeDmp_shows_iff hs hh hk hi

/-- The right half of a new tree of four leaves. -/
theorem sub_tree_dmp_verifies_new :
    ∃ st' dmp, setSubTreeDmp (new 2 : SimpleMemoryMerkleStoreV3 SymHash) 1 1 [.leaf 1] =
      .ok (st', dmp) ∧ dmp.verify = true ∧ dmp.newRoot = st'.getRoot := by
  obtain ⟨st', dmp, hcall, hshows⟩ := (((sub_tree_dmp_verifies_iff (new 2) (by decide)).1
    (fun l hl i _ => treeSettled_new 2 l hl i) 1 1 (by decide) (by decide)).2
    [SymHash.leaf 1] (by decide)).mpr (by decide)
  exact ⟨st', dmp, hcall, hshows.verify, hshows.newRoot⟩

/-- **A SUB-TREE OF ONE LEAF**: the old value is the new leaf, and the proof fails. -/
theorem set_sub_tree_dmp_one_leaf : (new 1 : SimpleMemoryMerkleStoreV3 SymHash).Hashed ∧
    ∃ st' dmp, setSubTreeDmp (new 1 : SimpleMemoryMerkleStoreV3 SymHash) 0 0 [.leaf 1] =
      .ok (st', dmp) ∧ dmp.oldValue = .leaf 1 ∧ (new 1).getNodeValue ⟨1, 0⟩ ≠ SymHash.leaf 1 ∧
      dmp.verify = false :=
  ⟨fun l hl i _ => treeSettled_new 1 l hl i, _, _, rfl, by decide +kernel⟩

end PsyNode.Store.SimpleMemoryMerkleStoreV3
