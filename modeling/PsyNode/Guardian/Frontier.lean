/-
PsyNode.Guardian.Frontier
**THE DEPOSIT TREE OF A GUARDIAN** (`guardian_common/src/protocol.rs`).  A chain's deposits
are the leaves of a 32-level tree of which only one node per level is kept.
-/
import PsyNode.Guardian.NonEquivocation
import PsyNode.Lib.GrowingTree

namespace PsyNode.Guardian

open Lib Lib.Merkle List

variable {H : Type}

/-! ## §1. The code. -/

section Code

variable (hash : H → H → H)

/-- The loop of `append_merkle_leaf`, from `level` on. -/
def appendMerkleLeaf.go (index : Nat) : List H → Nat → H → H → List H × H
  | [], _, current, _ => ([], current)
  | left :: frontier, level, current, zero =>
    if (index >>> level) &&& 1 = 0 then
      let out := go index frontier (level + 1) (hash current zero) (hash zero zero)
      (current :: out.1, out.2)
    else
      let out := go index frontier (level + 1) (hash left current) (hash zero zero)
      (left :: out.1, out.2)

/-- The frontier and the root after one more leaf. -/
def appendMerkleLeaf (zeroHash : H) (frontier : List H) (index : Nat) (leaf : H) : List H × H :=
  appendMerkleLeaf.go hash index frontier 0 leaf zeroHash

/-- The loop of `frontier_root`, from `level` on. -/
def frontierRoot.go (count : Nat) : List H → Nat → H → H → H
  | [], _, current, _ => current
  | left :: frontier, level, current, zero =>
    go count frontier (level + 1)
      (if (count >>> level) &&& 1 ≠ 0 then hash left current else hash current zero)
      (hash zero zero)

/-- The root that a frontier stands for. -/
def frontierRoot (zeroHash : H) (count : Nat) (frontier : List H) : H :=
  if count = 0 then zeroAt hash zeroHash 32
  else frontierRoot.go hash count frontier 0 zeroHash zeroHash

/-- The new frontier, the new partial page and the root after the append. -/
def accumulateDepositLeaf (zeroHash : H) (frontier occupiedPartialPageHashes : List H)
    (index : Nat) (leaf : H) : List H × List H × H :=
  let occupied := occupiedPartialPageHashes ++ [leaf]
  let occupied := if (index + 1) % 32 = 0 then [] else occupied
  let out := appendMerkleLeaf hash zeroHash frontier index leaf
  (out.1, occupied, out.2)

/-- The journal over a tree hash: its zero root and its frontiers are those of the hash. -/
def Externals.withTrees (ext : Externals H) : Externals H :=
  { ext with
    zeroRoot := zeroAt hash ext.zeroHash 32
    frontierRoot := Guardian.frontierRoot hash ext.zeroHash
    appendMerkleLeaf := Guardian.appendMerkleLeaf hash ext.zeroHash }

/-- The loop of the L1 verifier over the leaves from `state.count` on. -/
def accumulateDepositLeaves (zeroHash : H) (state : DepositTreeState H) (leaves : List H) :
    DepositTreeState H :=
  leaves.foldl (fun state leaf =>
    let out := accumulateDepositLeaf hash zeroHash state.frontier
      state.occupiedPartialPageHashes state.count leaf
    { state with
      count := state.count + 1, frontier := out.1, occupiedPartialPageHashes := out.2.1,
      root := out.2.2 }) state

end Code

/-! ## §2. One leaf. -/

variable {hash : H → H → H} {zeroHash : H} {leaf : Nat → H} {n : Nat}

/-- The left neighbour that `n + 1` leaves select at a level: the column of leaf `n` itself
where its bit was clear, and the neighbour of `n` where it was set. -/
theorem sibling_succ_div {l : Nat} (h : (n + 1) / 2 ^ l % 2 = 1) :
    sibling ((n + 1) / 2 ^ l) = if n / 2 ^ l % 2 = 0 then n / 2 ^ l else sibling (n / 2 ^ l) := by
  rw [Nat.succ_div] at h ⊢
  generalize n / 2 ^ l = q at h ⊢
  unfold sibling
  split_ifs at h ⊢ <;> omega

/-- **APPENDING A LEAF**, from level `l` up: the next frontier, and the root above. -/
theorem appendMerkleLeaf_go (hcut : cutAfter zeroHash leaf n = leaf) (frontier : List H)
    (l : Nat) (hkeeps : KeepsLeft hash leaf n l frontier) : ∃ kept,
      appendMerkleLeaf.go hash n frontier l (subRoot hash leaf l (n / 2 ^ l))
          (zeroAt hash zeroHash l) =
        (kept, subRoot hash leaf (l + frontier.length) (n / 2 ^ (l + frontier.length))) ∧
      kept.length = frontier.length ∧ KeepsLeft hash leaf (n + 1) l kept := by
  induction frontier generalizing l with
  | nil => exact ⟨[], rfl, rfl, trivial⟩
  | cons left frontier ih =>
    obtain ⟨kept, hgo, hlength, hkept⟩ := ih (l + 1) hkeeps.2
    have hparent := @subRoot_cutAfter_parent H hash zeroHash leaf n n (le_refl n) l
    rw [hcut] at hparent
    rw [appendMerkleLeaf.go, Nat.and_one_is_mod, Nat.shiftRight_eq_div_pow, length_cons,
      show l + (frontier.length + 1) = l + 1 + frontier.length by ring]
    by_cases hbit : n / 2 ^ l % 2 = 0
    · rw [if_pos hbit] at hparent ⊢
      rw [hparent, show hash (zeroAt hash zeroHash l) (zeroAt hash zeroHash l) =
        zeroAt hash zeroHash (l + 1) from rfl, hgo]
      refine ⟨_, rfl, congrArg _ hlength, fun hodd => ?_, hkept⟩
      rw [sibling_succ_div hodd, if_pos hbit]
    · have hleft := hkeeps.1 (by omega)
      rw [if_neg hbit, ← hleft] at hparent
      rw [if_neg hbit, hparent, show hash (zeroAt hash zeroHash l) (zeroAt hash zeroHash l) =
        zeroAt hash zeroHash (l + 1) from rfl, hgo]
      refine ⟨_, rfl, congrArg _ hlength, fun hodd => ?_, hkept⟩
      rw [sibling_succ_div hodd, if_neg hbit, hleft]

theorem appendMerkleLeaf_spec (hcut : cutAfter zeroHash leaf n = leaf) {frontier : List H}
    (hheight : frontier.length = 32) (hkeeps : KeepsLeft hash leaf n 0 frontier)
    (hn : n < 2 ^ 32) : ∃ kept, appendMerkleLeaf hash zeroHash frontier n (leaf n) =
        (kept, subRoot hash leaf 32 0) ∧
      kept.length = 32 ∧ KeepsLeft hash leaf (n + 1) 0 kept := by
  have happend := appendMerkleLeaf_go hcut frontier 0 hkeeps
  rwa [hheight, Nat.zero_add, Nat.div_eq_of_lt hn, pow_zero, Nat.div_one] at happend

/-- `frontier_root` hashes as an append of one more zero leaf would. -/
theorem frontierRoot_go_eq (count : Nat) (frontier : List H) (level : Nat) (current zero : H) :
    frontierRoot.go hash count frontier level current zero =
      (appendMerkleLeaf.go hash count frontier level current zero).2 := by
  induction frontier generalizing level current zero with
  | nil => rfl
  | cons left frontier ih =>
    rw [frontierRoot.go, appendMerkleLeaf.go, ih]
    by_cases hbit : (count >>> level) &&& 1 = 0
    · rw [if_neg (not_not.mpr hbit), if_pos hbit]
    · rw [if_pos hbit, if_neg hbit]

/-- The count selects the nodes of the frontier that are complete, so the root is found
again. -/
theorem frontierRoot_spec (hempty : ∀ j, n ≤ j → leaf j = zeroHash) {frontier : List H}
    (hheight : frontier.length = 32) (hkeeps : KeepsLeft hash leaf n 0 frontier)
    (hn : n < 2 ^ 32) : frontierRoot hash zeroHash n frontier = subRoot hash leaf 32 0 := by
  unfold frontierRoot
  split
  next hzero =>
    exact (subRoot_eq_zeroAt 32 0 fun j _ _ => hempty j (hzero ▸ Nat.zero_le j)).symm
  next =>
    obtain ⟨kept, happend, _, _⟩ := appendMerkleLeaf_spec
      (cutAfter_eq_self fun j hj => hempty j (le_of_lt hj)) hheight hkeeps hn
    rw [hempty n (le_refl n)] at happend
    rw [frontierRoot_go_eq]
    exact congrArg Prod.snd happend

/-! ## §3. A run of leaves. -/

/-- The leaves of the tree that holds the list, padded with zero leaves. -/
def leavesThenZero (zeroHash : H) (leaves : List H) : Nat → H :=
  fun j => leaves[j]?.getD zeroHash

theorem leavesThenZero_of_le {leaves : List H} {j : Nat} (h : leaves.length ≤ j) :
    leavesThenZero zeroHash leaves j = zeroHash := by
  unfold leavesThenZero
  rw [getElem?_eq_none h, Option.getD_none]

/-- **WHAT A STATE KEEPS** of the leaves behind it. -/
structure Accumulated (hash : H → H → H) (zeroHash : H) (leaves : List H)
    (state : DepositTreeState H) : Prop where
  count : state.count = leaves.length
  height : state.frontier.length = 32
  keeps : KeepsLeft hash (leavesThenZero zeroHash leaves) leaves.length 0 state.frontier
  root : state.root = subRoot hash (leavesThenZero zeroHash leaves) 32 0
  page : state.occupiedPartialPageHashes = leaves.drop (leaves.length - leaves.length % 32)

theorem keepsLeft_zero (leaf : Nat → H) (frontier : List H) (l : Nat) :
    KeepsLeft hash leaf 0 l frontier := by
  induction frontier generalizing l with
  | nil => trivial
  | cons left frontier ih =>
    exact ⟨fun hodd => absurd hodd (by rw [Nat.zero_div]; decide), ih (l + 1)⟩

/-- The page after one more leaf: the leaves since the last multiple of 32. -/
theorem page_concat (leaves : List H) (leaf : H) : (if (leaves.length + 1) % 32 = 0 then []
      else leaves.drop (leaves.length - leaves.length % 32) ++ [leaf]) =
      (leaves ++ [leaf]).drop (leaves.length + 1 - (leaves.length + 1) % 32) := by
  split
  next hfull => rw [hfull, drop_eq_nil_of_le (by simp)]
  next hopen =>
    rw [show leaves.length + 1 - (leaves.length + 1) % 32 = leaves.length - leaves.length % 32
      by omega, drop_append_of_le_length (by omega)]

theorem Accumulated.concat {leaves : List H} {state : DepositTreeState H}
    (h : Accumulated hash zeroHash leaves state) (leaf : H) (hroom : leaves.length < 2 ^ 32) :
    Accumulated hash zeroHash (leaves ++ [leaf])
      (accumulateDepositLeaves hash zeroHash state [leaf]) := by
  have hcount : (leaves ++ [leaf]).length = leaves.length + 1 := length_append
  have hbefore : ∀ j < leaves.length,
      leavesThenZero zeroHash leaves j = leavesThenZero zeroHash (leaves ++ [leaf]) j := by
    intro j hj
    unfold leavesThenZero
    rw [getElem?_append_left hj]
  have hlast : leavesThenZero zeroHash (leaves ++ [leaf]) leaves.length = leaf := by
    simp [leavesThenZero]
  obtain ⟨kept, happend, hheight, hkept⟩ := appendMerkleLeaf_spec
    (cutAfter_eq_self fun j hj => leavesThenZero_of_le (by omega)) h.height
    (h.keeps.congr hbefore) hroom
  rw [hlast, ← h.count] at happend
  unfold accumulateDepositLeaves accumulateDepositLeaf
  rw [foldl_cons, foldl_nil, happend, h.page, h.count]
  exact ⟨hcount.symm, hheight, hcount ▸ hkept, rfl, hcount ▸ page_concat leaves leaf⟩

theorem accumulated_run (ext : Externals H) (chainIndex : Nat) (leaves : List H)
    (hroom : leaves.length < 2 ^ 32) : Accumulated hash ext.zeroHash leaves
      (accumulateDepositLeaves hash ext.zeroHash
        (DepositTreeState.empty (ext.withTrees hash) chainIndex) leaves) := by
  induction leaves using reverseRecOn with
  | nil =>
    exact ⟨rfl, length_replicate, keepsLeft_zero _ _ 0,
      (subRoot_eq_zeroAt 32 0 fun _ _ _ => rfl).symm, rfl⟩
  | append_singleton leaves leaf ih =>
    rw [length_append, length_singleton] at hroom
    unfold accumulateDepositLeaves at ih ⊢
    rw [foldl_append]
    exact (ih (by omega)).concat leaf (by omega)

/-- **THE DEPOSIT TREE OF EVERY RUN.**  After each leaf the returned root is the root of the
32-level tree over the leaves so far, the frontier gives it again, and the partial page is
the leaves since the last full one. -/
theorem deposit_leaves_accumulate (hash : H → H → H) (ext : Externals H) (chainIndex : Nat)
    (leaves : List H) (hroom : leaves.length ≤ 2 ^ 32 - 1) : ∀ k ≤ leaves.length,
    let state := accumulateDepositLeaves hash ext.zeroHash
      (DepositTreeState.empty (ext.withTrees hash) chainIndex) (leaves.take k)
    state.count = k ∧
      state.root = subRoot hash (leavesThenZero ext.zeroHash (leaves.take k)) 32 0 ∧
      frontierRoot hash ext.zeroHash state.count state.frontier = state.root ∧
      state.occupiedPartialPageHashes = (leaves.take k).drop (k - k % 32) := by
  intro k hk state
  have hlength : (leaves.take k).length = k := by rw [length_take, Nat.min_eq_left hk]
  have hstate : Accumulated hash ext.zeroHash (leaves.take k) state :=
    accumulated_run ext chainIndex (leaves.take k) (by omega)
  refine ⟨hstate.count.trans hlength, hstate.root, ?_, ?_⟩
  · rw [hstate.root, hstate.count]
    exact frontierRoot_spec (fun _ => leavesThenZero_of_le) hstate.height hstate.keeps (by omega)
  · rw [hstate.page, hlength]

theorem deposit_leaves_accumulate_two :
    (accumulateDepositLeaves (fun a b => 2 * a + 3 * b) 0
      (DepositTreeState.empty (sampleDb.toExternals.withTrees fun a b => 2 * a + 3 * b) 1)
      [5, 6]).root = subRoot (fun a b => 2 * a + 3 * b) (leavesThenZero 0 [5, 6]) 32 0 :=
  (deposit_leaves_accumulate (fun a b => 2 * a + 3 * b) sampleDb.toExternals 1 [5, 6] (by decide)
    2 (by decide)).2.1

end PsyNode.Guardian
