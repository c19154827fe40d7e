/-
PsyNode.Recorder.Updates
**WHICH LEAVES `update_leaves_spider_man` REPORTS, WINDOW BY WINDOW.**

The call sorts the updates and makes one proof for each window that has any.
`WindowProofs` says what the proofs show of the leaves: the window before, and
the window with exactly the updates that fall into it.  This is about the leaves
only; that the proofs verify is `PsyNode.Recorder.Spiderman`.
-/
import PsyNode.Recorder.Spiderman

namespace PsyNode.Recorder

open Merkle Lib.WriteLog Lib.Merkle Lib List
open SimpleMemoryMerkleRecorderStore

variable {Hash : Type} [MerkleZeroHasher Hash] [DecidableEq Hash]

/-- The proofs of sorted updates of the leaves `leaf`, in windows of `p` leaves. -/
inductive WindowProofs (p : Nat) (leaf : Nat → Hash) :
    List (Nat × Hash) → List (SpidermanUpdateProof Hash) → Prop
  | nil : WindowProofs p leaf [] []
  | cons {group rest : List (Nat × Hash)} {proof : SpidermanUpdateProof Hash}
      {proofs : List (SpidermanUpdateProof Hash)} :
      group ≠ [] →
      (∀ u ∈ group, u.1 / p = proof.topLineProof.index) →
      (∀ u ∈ rest, u.1 / p ≠ proof.topLineProof.index) →
      proof.webProofOldLeaves =
        (List.range' (proof.topLineProof.index * p) p).map leaf →
      proof.webProofNewLeaves =
        (List.range' (proof.topLineProof.index * p) p).map (replay leaf group) →
      WindowProofs p leaf rest proofs → WindowProofs p leaf (group ++ rest) (proof :: proofs)

variable {st st' : RecorderStore Hash}

/-- Rehashing a window leaves the leaves alone. -/
theorem rehashSubTreeDmp_leaves {k i : Nat} {dmp : DeltaMerkleProofCore Hash}
    (h : st.rehashSubTreeDmp k i = .ok (st', dmp)) :
    st'.height = st.height ∧ st'.table st.height = st.table st.height ∧ dmp.index = i := by
  have hheight := (writes_rehashSubTreeDmp h).height
  obtain ⟨hk, rfl, rfl⟩ := rehashSubTreeDmp_eq_ok h
  refine ⟨hheight, ?_, rfl⟩
  by_cases hk0 : k = 0
  · subst hk0
    rfl
  · rw [table_rehashSubTree st i (by omega) hk, rehashSpan_leaf]

omit [MerkleZeroHasher Hash] [DecidableEq Hash] in
/-- Behind the first update of a later window there are only later windows. -/
theorem ne_window_of_head {p id : Nat} {rest : List (Nat × Hash)}
    (hsorted : rest.Pairwise (fun a b => a.1 ≤ b.1)) (hhead : ∀ u ∈ rest.head?, u.1 / p ≠ id)
    (hle : ∀ u ∈ rest, id ≤ u.1 / p) : ∀ v ∈ rest, v.1 / p ≠ id := by
  cases rest with
  | nil => intro v hv; cases hv
  | cons w ws =>
    intro v hv
    have hw : w.1 / p ≠ id := hhead w rfl
    have hwle := hle w (mem_cons_self ..)
    have hwv : w.1 / p ≤ v.1 / p := by
      apply Nat.div_le_div_right
      rcases mem_cons.mp hv with rfl | hv
      · exact le_refl _
      · exact (pairwise_cons.mp hsorted).1 v hv
    omega

/-- **THE PROOFS OF SORTED UPDATES**, and the leaves afterwards.  `leaf` may be any leaf
function that the store still shows in the windows to come. -/
theorem updateRounds_proofs (leaf : Nat → Hash) {k p maxLeaves : Nat}
    {updates : List (Nat × Hash)} {result : Except String (List (SpidermanUpdateProof Hash))}
    {proofs : List (SpidermanUpdateProof Hash)}
    (h : UpdateRounds k p maxLeaves updates st result st') (hok : result = .ok proofs)
    (hsorted : updates.Pairwise (fun a b => a.1 ≤ b.1))
    (hleaf : ∀ u ∈ updates, ∀ j, j / p = u.1 / p → st.table st.height j = leaf j) :
    WindowProofs p leaf updates proofs ∧ st'.height = st.height ∧
      st'.table st.height = replay (st.table st.height) updates := by
  induction h generalizing proofs with
  | done =>
    cases hok
    exact ⟨.nil, rfl, rfl⟩
  | outside => cases hok
  | tooHigh => cases hok
  | @window id group rest st st₁ st₂ st' dmp result hw hne hhead hdmp _ ih =>
    cases result with
    | error => cases hok
    | ok results =>
    cases hok
    have hleaves₁ : st₁.table st.height = replay (st.table st.height) group := by
      rw [hw.table, Function.update_self]
    obtain ⟨hheight₂, hleaves₂, hindex⟩ := rehashSubTreeDmp_leaves hdmp
    rw [hw.height] at hheight₂ hleaves₂
    -- the window is the one the proof is for
    subst hindex
    have hgroup := fun u hu => (hw.inside u hu).1
    obtain ⟨_, hrestSorted, hcross⟩ := pairwise_append.mp hsorted
    obtain ⟨g, hg⟩ := exists_mem_of_ne_nil group hne
    have hrest : ∀ v ∈ rest, v.1 / p ≠ dmp.index := by
      refine ne_window_of_head hrestSorted hhead ?_
      intro v hv
      rw [← hgroup g hg]
      exact Nat.div_le_div_right (hcross g hg v hv)
    have hmember : ∀ j, j / p = dmp.index → st.table st.height j = leaf j := by
      intro j hj
      exact hleaf g (mem_append_left _ hg) j (by rw [hj, hgroup g hg])
    have hwindow : ∀ j ∈ range' (dmp.index * p) p, j / p = dmp.index := by
      intro j hj
      rw [mem_range'_1] at hj
      exact Nat.div_eq_of_lt_le hj.1 (by rw [Nat.succ_mul]; exact hj.2)
    have hreplay : ∀ j, j / p = dmp.index →
        replay (st.table st.height) group j = replay leaf group j := by
      intro j hj
      rw [replay_eq_last, replay_eq_last, hmember j hj]
    obtain ⟨hproofs, hheight₃, hleaves₃⟩ := ih rfl hrestSorted (by
      intro v hv j hj
      rw [hheight₂, hleaves₂, hleaves₁, replay_of_not_written]
      · exact hleaf v (mem_append_right _ hv) j hj
      · intro g hg hgj
        exact hrest v hv (by rw [← hj, ← hgj, hgroup g hg]))
    rw [hheight₂] at hheight₃ hleaves₃
    refine ⟨.cons hne hgroup hrest ?_ ?_ hproofs, hheight₃, ?_⟩
    · exact map_congr_left (fun j hj => hmember j (hwindow j hj))
    · show _ = (range' (dmp.index * p) p).map _
      rw [hleaves₁]
      exact map_congr_left (fun j hj => hreplay j (hwindow j hj))
    · rw [hleaves₃, hleaves₂, hleaves₁, replay_append]

omit [MerkleZeroHasher Hash] [DecidableEq Hash] in
/-- Sorted updates without a duplicate are strictly ascending. -/
theorem lt_of_firstDuplicate_none {updates : List (Nat × Hash)}
    (hsorted : updates.Pairwise (fun a b => a.1 ≤ b.1)) (hnone : firstDuplicate updates = none) :
    updates.Pairwise (fun a b => a.1 < b.1) := by
  induction updates with
  | nil => exact .nil
  | cons a rest ih =>
    obtain ⟨ha, hrest⟩ := pairwise_cons.mp hsorted
    cases rest with
    | nil => exact pairwise_singleton _ a
    | cons b rest =>
      unfold firstDuplicate at hnone
      by_cases hab : a.1 = b.1
      · rw [if_pos hab] at hnone
        cases hnone
      · rw [if_neg hab] at hnone
        refine pairwise_cons.mpr ⟨?_, ih hrest hnone⟩
        intro c hc
        have hb : a.1 < b.1 := lt_of_le_of_ne (ha b (mem_cons_self ..)) hab
        rcases mem_cons.mp hc with rfl | hc
        · exact hb
        · exact lt_of_lt_of_le hb ((pairwise_cons.mp hrest).1 c hc)

/-- **WHAT `update_leaves_spider_man` RETURNS**: the proofs of the sorted updates, whose
indices are distinct, and the tree with them written. -/
theorem updateLeavesSpiderMan_proofs {k : Nat} {ids : List Nat} {leaves : List Hash}
    {proofs : List (SpidermanUpdateProof Hash)} {sorted : List (Nat × Hash)}
    (hsorted : (ids.zip leaves).insertionSort (fun a b => a.1 ≤ b.1) = sorted)
    (h : st.updateLeavesSpiderMan k ids leaves = (.ok proofs, st')) :
    sorted.Pairwise (fun a b => a.1 < b.1) ∧ WindowProofs (2 ^ k) st.getLeafValue sorted proofs ∧
      st'.getLeafValue = replay st.getLeafValue sorted := by
  obtain ⟨hnone, _, h⟩ := updateLeavesSpiderMan_eq_ok h
  rw [hsorted] at hnone h
  have hle : sorted.Pairwise (fun a b => a.1 ≤ b.1) := by
    rw [← hsorted]
    exact pairwise_insertionSort _ _
  obtain ⟨hproofs, hheight, hleaves⟩ := updateRounds_proofs st.getLeafValue
    (updateWindows_rounds _ le_rfl h) rfl hle (fun _ _ _ _ => rfl)
  refine ⟨lt_of_firstDuplicate_none hle hnone, hproofs, ?_⟩
  show st'.table st'.height = _
  rw [hheight, hleaves]
  rfl

end PsyNode.Recorder
