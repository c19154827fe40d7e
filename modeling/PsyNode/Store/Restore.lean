/-
PsyNode.Store.Restore
**RESTORING AN INDEXED TREE** — `restore_leaf` of `indexed_merkle_tree.rs`.

The leaves of a tree, restored in any order into a new one, make the same tree: its leaf
data, key index, free slot and Merkle nodes are all determined by them.
-/
import PsyNode.Lib.WriteLog
import PsyNode.Store.IndexedTree

namespace PsyNode.Store.IndexedMerkleTree

open Merkle Lib.WriteLog Lib.SortedChain Lib List

variable {F Hash : Type} [QFelt64 F] [HashTo4Felts F Hash] [MerkleZeroHasher Hash]
  [FieldQHasher F Hash] [DecidableEq Hash] (st : IndexedMerkleTree F Hash)

def restoreLeaf (leafIndex : Nat)
    (preimage : IMTLeafPreimage F Hash) : IndexedMerkleTree F Hash where
  tree := st.tree.setLeafNoProof leafIndex preimage.computeHash
  leaves := Function.update st.leaves leafIndex (some preimage)
  keyIndex := st.keyIndex.insert preimage.key leafIndex
  nextAppendIndex :=
    if leafIndex ≥ st.nextAppendIndex then leafIndex + 1 else st.nextAppendIndex

/-- Leaf after leaf. -/
def restore (ls : List (Nat × IMTLeafPreimage F Hash)) : IndexedMerkleTree F Hash :=
  ls.foldl (fun st l => st.restoreLeaf l.1 l.2) st

variable {st T : IndexedMerkleTree F Hash} {ls : List (Nat × IMTLeafPreimage F Hash)}

theorem restore_leaves :
    (restore st ls).leaves = replay st.leaves (ls.map (fun l => (l.1, some l.2))) := by
  induction ls generalizing st with
  | nil => rfl
  | cons l ls ih => exact ih

theorem restore_nextAppendIndex_le (n : Nat) :
    (restore st ls).nextAppendIndex ≤ n ↔ st.nextAppendIndex ≤ n ∧ ∀ l ∈ ls, l.1 < n := by
  induction ls generalizing st with
  | nil => simp [restore]
  | cons l ls ih =>
    refine (@ih (st.restoreLeaf l.1 l.2)).trans ?_
    simp only [restoreLeaf, forall_mem_cons, ← and_assoc]
    refine and_congr_left (fun _ => ?_)
    split <;> omega

theorem restore_tree {height : Nat} (hw : st.tree.Written height) (h : ∀ i, st.tree.getLeafValue i =
      ((st.leaves i).map IMTLeafPreimage.computeHash).getD getZeroValue) :
    (restore st ls).tree.Written height ∧ ∀ i, (restore st ls).tree.getLeafValue i =
      (((restore st ls).leaves i).map IMTLeafPreimage.computeHash).getD getZeroValue := by
  induction ls generalizing st with
  | nil => exact ⟨hw, h⟩
  | cons l ls ih => exact @ih (st.restoreLeaf l.1 l.2) (hw.set _ _) (treeLeaf_setLeaf h l.1 l.2)

/-- The key index gains the restored keys, as long as all keys are those of one sorted map. -/
theorem restore_entries (hst : ∀ e ∈ st.keyIndex.entries, e ∈ T.keyIndex.entries)
    (hls : ∀ l ∈ ls, (l.2.key, l.1) ∈ T.keyIndex.entries) (e : Hash × Nat) :
    e ∈ (restore st ls).keyIndex.entries ↔
      e ∈ st.keyIndex.entries ∨ ∃ l ∈ ls, (l.2.key, l.1) = e := by
  induction ls generalizing st with
  | nil => simp [restore]
  | cons l ls ih =>
    have hl := hls l mem_cons_self
    have hmem := mem_insertEntry_iff (@toSortKey Hash F _ _) (fun e he heq =>
      T.keyIndex.sorted.eq_of_ord_eq _ (hst e he) hl heq)
    have hnext := @ih (st.restoreLeaf l.1 l.2) (by
      intro e he
      rcases (hmem e).mp he with rfl | he
      · exact hl
      · exact hst e he) (fun l' hl' => hls l' (mem_cons_of_mem _ hl'))
    refine hnext.trans ?_
    rw [show e ∈ (st.restoreLeaf l.1 l.2).keyIndex.entries ↔ _ from hmem e, or_assoc, or_left_comm]
    simp only [exists_mem_cons_iff, eq_comm]

/-- **RESTORATION IN ANY ORDER.**  The leaves of a tree that calls reached, restored into a new
tree, give that tree itself, so nothing done with it afterwards can tell the two apart. -/
theorem restore_leaf_any_order (height : Nat) (ops : List (IMTOp Hash))
    (ls : List (Nat × IMTLeafPreimage F Hash))
    (hls : ∀ l, l ∈ ls ↔ (run (new height : IndexedMerkleTree F Hash) ops).leaves l.1 = some l.2) :
    restore (new height) ls = run (new height) ops := by
  have hnew : Indexed (new height : IndexedMerkleTree F Hash) := indexed_new height
  have hT := hnew.run ops
  have hfresh : (new height : IndexedMerkleTree F Hash).tree.Written height := .set _ _ .new
  have hwritten := run_written hfresh ops
  generalize run (new height : IndexedMerkleTree F Hash) ops = T at hT hls hwritten ⊢
  have hentry : ∀ l ∈ ls, (l.2.key, l.1) ∈ T.keyIndex.entries :=
    fun l hl => hT.entry_of_leaf ((hls l).mp hl)
  obtain ⟨rest, hsentinel⟩ := hT.sentinel
  have hzero : 0 < T.nextAppendIndex :=
    hT.mem_slots.mp (by rw [hsentinel]; exact mem_cons_self)
  have hslot : ∀ {i}, i < T.nextAppendIndex → ∃ leaf, (i, leaf) ∈ ls := by
    intro i hi
    obtain ⟨leaf, hleaf⟩ := Option.isSome_iff_exists.mp ((hT.occupied i).mpr hi)
    exact ⟨leaf, (hls (i, leaf)).mpr hleaf⟩
  have hbelow : ∀ l ∈ ls, l.1 < T.nextAppendIndex :=
    fun l hl => (hT.occupied l.1).mp (by rw [(hls l).mp hl]; rfl)
  -- ===== leaf data =====
  have hleaves : (restore (new height) ls).leaves = T.leaves := by
    rw [restore_leaves]
    funext i
    by_cases hi : i < T.nextAppendIndex
    · obtain ⟨leaf, hmem⟩ := hslot hi
      refine replay_of_written ⟨_, mem_map_of_mem hmem, rfl⟩ ?_
      intro w hw hwi
      obtain ⟨l, hl, rfl⟩ := mem_map.mp hw
      rw [← hwi]
      exact ((hls l).mp hl).symm
    · rw [replay_of_not_written]
      · have hnone := (not_congr (hT.occupied i)).mpr hi
        have hfree : i ≠ 0 := by omega
        rw [Option.not_isSome_iff_eq_none.mp hnone]
        simp [new, hfree]
      · intro w hw hwi
        obtain ⟨l, hl, rfl⟩ := mem_map.mp hw
        exact hi (hwi ▸ hbelow l hl)
  -- ===== key index =====
  have hkeys : (restore (new height) ls).keyIndex.entries = T.keyIndex.entries := by
    have : Std.Antisymm (fun a b : Hash × Nat => toSortKey F a.1 < toSortKey F b.1) :=
      ⟨fun _ _ h h' => absurd h' h.asymm⟩
    have : Std.Irrefl (fun a b : Hash × Nat => toSortKey F a.1 < toSortKey F b.1) :=
      ⟨fun _ => lt_irrefl _⟩
    have hfirst : ∀ e ∈ (new height : IndexedMerkleTree F Hash).keyIndex.entries,
        e ∈ T.keyIndex.entries := by
      intro e he
      rw [mem_singleton.mp he, hsentinel]
      exact mem_cons_self
    refine List.Pairwise.eq_of_mem_iff (SortedMap.sorted _) T.keyIndex.sorted ?_
    intro e
    rw [restore_entries hfirst hentry]
    constructor
    · intro he
      rcases he with he | ⟨l, hl, rfl⟩
      · exact hfirst e he
      · exact hentry l hl
    · intro he
      obtain ⟨leaf, hmem⟩ := hslot (hT.mem_slots.mp (mem_map_of_mem he))
      obtain ⟨lo, hi, hsplit⟩ := append_of_mem he
      obtain ⟨leaf', hleaf', hk, _⟩ := hT.leaf_of_entry hsplit
      have hsame := (hls _).mp hmem
      rw [hleaf'] at hsame
      exact .inr ⟨_, hmem, by rw [← Option.some.inj hsame, hk]⟩
  -- ===== free slot and Merkle tree =====
  have hnext : (restore (new height) ls).nextAppendIndex = T.nextAppendIndex := by
    apply le_antisymm
    · exact (restore_nextAppendIndex_le _).mpr ⟨hzero, hbelow⟩
    · obtain ⟨leaf, hmem⟩ := hslot (Nat.sub_lt hzero Nat.one_pos)
      have hlast : T.nextAppendIndex - 1 < (restore (new height) ls).nextAppendIndex :=
        ((restore_nextAppendIndex_le _).mp le_rfl).2 _ hmem
      omega
  obtain ⟨hw, hvalues⟩ := @restore_tree F Hash _ _ _ _ _ _ ls _ hfresh hnew.treeLeaf
  have htree : (restore (new height) ls).tree = T.tree := by
    refine hw.eq_of_leaves hwritten ?_
    funext i
    rw [hvalues, hleaves, hT.treeLeaf]
  exact IndexedMerkleTree.ext htree hleaves (SortedMap.ext hkeys) hnext

/-- One insertion, its two leaves restored last one first. -/
theorem restore_leaf_last_first :
    restore (new 1 : IndexedMerkleTree Nat SymHash)
        [(1, ⟨.leaf 5, .leaf 50, default, 0⟩), (0, ⟨default, default, .leaf 5, 1⟩)] =
      run (new 1) [.insert (.leaf 5) (.leaf 50)] := by
  refine restore_leaf_any_order 1 _ _ (fun l => ?_)
  obtain ⟨i, leaf⟩ := l
  show _ ↔ Function.update (β := fun _ => Option (IMTLeafPreimage Nat SymHash))
    (Function.update (Function.update _ 0 _) 0 (some ⟨default, default, .leaf 5, 1⟩))
    1 (some ⟨.leaf 5, .leaf 50, default, 0⟩) i = some leaf
  by_cases h1 : i = 1
  · simp [h1, eq_comm]
  · by_cases h0 : i = 0
    · simp [h0, eq_comm]
    · simp [h0, h1]

end PsyNode.Store.IndexedMerkleTree
