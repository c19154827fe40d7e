/-
PsyNode.Merkle.Roots
**ROOTS OF LISTS OF LEAVES** — `calc_merkle_root_from_leaves` of `merkle_proof.rs` and
`_hash_merkle_leaves_partial` of `spiderman.rs`, beside `compute_root_from_leaves`.

All three pair up nodes level by level.  The root they are for is `recursiveRoot`, the hash of the
roots of the two halves, which is the library's `subRoot` (`recursiveRoot_eq`).
-/
import PsyNode.Lib.MerkleWindow
import PsyNode.Merkle.Basic

namespace PsyNode.Merkle

open Lib.Merkle List

/-! ## §1. Padded lists. -/

section
variable {Hash : Type} [MerkleHasher Hash] {leaves : List Hash}

omit [MerkleHasher Hash] in
theorem getD_append_replicate (leaves : List Hash) (z : Hash) (n i : Nat) :
    (leaves ++ replicate n z).getD i z = leaves.getD i z := by
  grind

theorem computeRootFromLeaves_getD {k : Nat} (z : Hash) (h : leaves.length = 2 ^ k) :
    computeRootFromLeaves leaves = .ok (subRoot twoToOne (fun j => leaves.getD j z) k 0) := by
  have hwindow := computeRootFromLeaves_window (fun j => leaves.getD j z) k 0
  have hleaves : (range' 0 (2 ^ k)).map (fun j => leaves.getD j z) = leaves :=
    ext_getElem (by simp [h]) (by grind)
  rw [Nat.zero_mul, hleaves] at hwindow
  exact hwindow

theorem computeRootFromLeaves_padded {k : Nat} (z : Hash) (h : leaves.length ≤ 2 ^ k) :
    computeRootFromLeaves (leaves ++ replicate (2 ^ k - leaves.length) z) =
      .ok (subRoot twoToOne (fun j => leaves.getD j z) k 0) := by
  rw [@computeRootFromLeaves_getD Hash _ _ k z (by simp [h])]
  simp only [getD_append_replicate]

end

/-! ## §2. The functions. -/

/-- The source takes the height of a float, exactly for powers of two. -/
def calcMerkleRootFromLeaves {Hash : Type} [MerkleHasher Hash] (leaves : List Hash) :
    Except String Hash :=
  let currentLeaves := pairUp twoToOne leaves
  let height := log2Ceil currentLeaves.length
  match (pairUp twoToOne)^[height - 1] currentLeaves with
  | root :: _ => .ok root
  | [] => .error "index out of bounds"

section
variable {Hash : Type} [MerkleZeroHasher Hash]

/-- Pair `i` of a level.  Levels count from the bottom, and no node behind the last one is read. -/
def pairAt (level : Nat) (nodes : List Hash) (i : Nat) : Hash :=
  twoToOne (nodes.getD (2 * i) (getZeroHash level)) (nodes.getD (2 * i + 1) (getZeroHash level))

/-- An odd last node, beside an empty one. -/
def oddAt (level : Nat) (nodes : List Hash) (i : Nat) : Hash :=
  twoToOne (nodes.getD i (getZeroHash level)) (getZeroHash level)

/-- The level above, made afresh. -/
def levelAbove (level : Nat) (nodes : List Hash) : List Hash :=
  let currentLevel := (range (nodes.length / 2)).map (pairAt level nodes)
  if nodes.length % 2 = 1 then currentLevel ++ [oddAt level nodes (nodes.length - 1)]
  else currentLevel

/-- One round of the loop, in place. -/
def roundInPlace (level : Nat) (nodes : List Hash) : List Hash :=
  let evenPairsCount := nodes.length / 2
  let hasOddNodes := nodes.length % 2
  let paired := (range evenPairsCount).foldl (fun ns i => ns.set i (pairAt level ns i)) nodes
  let closed := if hasOddNodes = 1 then
    paired.set evenPairsCount (oddAt level paired (nodes.length - 1)) else paired
  closed.take (evenPairsCount + hasOddNodes)

/-- The loop, while more than one node is left. -/
def roundsInPlace : Nat → Nat → List Hash → List Hash
  | 0, _, nodes => nodes
  | fuel + 1, level, nodes =>
    if 1 < nodes.length then roundsInPlace fuel (level + 1) (roundInPlace level nodes) else nodes

def hashMerkleLeavesPartial (leaves : List Hash) : Except String Hash :=
  match leaves with
  | [] => .error "Cannot compute Merkle root of zero leaves"
  | [a] => .ok a
  | [a, b] => .ok (twoToOne a b)
  | _ =>
    match roundsInPlace leaves.length 1 (levelAbove 0 leaves) with
    | root :: _ => .ok root
    | [] => .error "index out of bounds"

/-- **THE ROOT** of `2 ^ k` leaves: the hash of the roots of the two halves. -/
def recursiveRoot : Nat → List Hash → Hash
  | 0, leaves => leaves.headD getZeroValue
  | k + 1, leaves =>
    twoToOne (recursiveRoot k (leaves.take (2 ^ k))) (recursiveRoot k (leaves.drop (2 ^ k)))

/-! ## §3. A level in place. -/

/-- The loop over the pairs: each stands behind the place it is written to. -/
theorem getElem?_paired (level : Nat) (nodes : List Hash) {p : Nat} (hp : p ≤ nodes.length / 2)
    (j : Nat) : ((range p).foldl (fun ns i => ns.set i (pairAt level ns i)) nodes)[j]? =
      if j < p then some (pairAt level nodes j) else nodes[j]? := by
  induction p generalizing j with
  | zero => rfl
  | succ p ih =>
    have hget := ih (by omega)
    rw [range_succ, foldl_append, foldl_cons, foldl_nil]
    generalize (range p).foldl (fun ns i => ns.set i (pairAt level ns i)) nodes = paired at hget ⊢
    have hpair : pairAt level paired p = pairAt level nodes p := by
      simp [pairAt, hget, show ¬ 2 * p < p by omega, show ¬ 2 * p + 1 < p by omega]
    rw [hpair]
    grind

/-- **IN PLACE IS AFRESH.** -/
theorem roundInPlace_eq (level : Nat) (nodes : List Hash) :
    roundInPlace level nodes = levelAbove level nodes := by
  have hget := getElem?_paired level nodes le_rfl
  unfold roundInPlace levelAbove
  dsimp only
  generalize (range _).foldl _ nodes = paired at hget ⊢
  have hread := hget (nodes.length / 2)
  have hlast : nodes.length % 2 = 1 →
      oddAt level paired (nodes.length - 1) = oddAt level nodes (nodes.length - 1) := by
    intro hodd
    simp [oddAt, hget, show ¬ nodes.length - 1 < nodes.length / 2 by omega]
  apply ext_getElem?
  intro j
  split
  next hodd =>
    rw [hlast hodd, hodd]
    grind
  next => grind

/-! ## §4. Level by level. -/

/-- `nodes` are the nodes of a level of the tree over `f`, and behind them it is empty. -/
def IsLevel (f : Nat → Hash) (level : Nat) (nodes : List Hash) : Prop :=
  ∀ i, nodes.getD i (getZeroHash level) = subRoot twoToOne f level i

variable {f : Nat → Hash} {level : Nat} {nodes : List Hash}

theorem length_levelAbove : (levelAbove level nodes).length = (nodes.length + 1) / 2 := by
  unfold levelAbove
  split <;> simp <;> omega

theorem IsLevel.levelAbove (h : IsLevel f level nodes) :
    IsLevel f (level + 1) (levelAbove level nodes) := by
  intro i
  have hpair : pairAt level nodes i = subRoot twoToOne f (level + 1) i := by
    rw [pairAt, h, h, subRoot]
  rw [← hpair]
  have hodd : nodes.length % 2 = 1 →
      oddAt level nodes (nodes.length - 1) = pairAt level nodes (nodes.length / 2) := by
    intro hodd
    rw [oddAt, pairAt, show nodes.length - 1 = 2 * (nodes.length / 2) by omega,
      getD_eq_default nodes _ (show nodes.length ≤ 2 * (nodes.length / 2) + 1 by omega)]
  by_cases hi : i < (nodes.length + 1) / 2
  · unfold Merkle.levelAbove
    grind
  · rw [getD_eq_default _ _ (by rw [length_levelAbove]; omega), pairAt,
      getD_eq_default _ _ (by omega), getD_eq_default _ _ (by omega)]
    exact iterateMerkleHasher_succ _ level

theorem log2Ceil_half {n : Nat} (h : 1 < n) : log2Ceil n = log2Ceil ((n + 1) / 2) + 1 := by
  unfold log2Ceil
  rw [if_neg (by omega), Nat.log2_def]
  split
  · rw [if_neg (by omega), show (n + 1) / 2 - 1 = (n - 1) / 2 by omega]
  · rw [if_pos (by omega)]

/-- **THE LOOP** ends with the root. -/
theorem roundsInPlace_eq (fuel : Nat) (h : IsLevel f level nodes) (hpos : 0 < nodes.length)
    (hfuel : nodes.length ≤ fuel + 1) : roundsInPlace fuel level nodes =
      [subRoot twoToOne f (level + log2Ceil nodes.length) 0] := by
  have hone (level : Nat) (nodes : List Hash) (h : IsLevel f level nodes)
      (hlen : nodes.length = 1) :
      nodes = [subRoot twoToOne f (level + log2Ceil nodes.length) 0] := by
    obtain ⟨x, rfl⟩ := length_eq_one_iff.mp hlen
    exact congrArg (fun y => [y]) (h 0)
  induction fuel generalizing level nodes with
  | zero => exact hone level nodes h (by omega)
  | succ fuel ih =>
    unfold roundsInPlace
    split
    next hlong =>
      rw [roundInPlace_eq, ih h.levelAbove (by rw [length_levelAbove]; omega)
        (by rw [length_levelAbove]; omega), length_levelAbove, log2Ceil_half hlong,
        Nat.add_right_comm, Nat.add_assoc]
    next => exact hone level nodes h (by omega)

theorem hashMerkleLeavesPartial_eq {leaves : List Hash} (hne : leaves ≠ []) :
    hashMerkleLeavesPartial leaves = .ok (subRoot twoToOne (fun i => leaves.getD i getZeroValue)
      (log2Ceil leaves.length) 0) := by
  rcases leaves with _ | ⟨a, _ | ⟨b, _ | ⟨c, rest⟩⟩⟩
  · exact absurd rfl hne
  · rfl
  · rfl
  · unfold hashMerkleLeavesPartial
    have hlevel : IsLevel (fun i => (a :: b :: c :: rest).getD i getZeroValue) 0
      (a :: b :: c :: rest) := fun _ => rfl
    rw [roundsInPlace_eq _ hlevel.levelAbove (by simp [length_levelAbove])
      (by rw [length_levelAbove]; omega), length_levelAbove, Nat.add_comm 1,
      ← log2Ceil_half (by simp)]

theorem recursiveRoot_eq (k : Nat) (leaves : List Hash) : recursiveRoot k leaves =
    subRoot twoToOne (fun i => leaves.getD i getZeroValue) k 0 := by
  induction k generalizing leaves with
  | zero => cases leaves <;> rfl
  | succ k ih =>
    rw [recursiveRoot, ih, ih, subRoot]
    congr 1
    · apply subRoot_congr
      intro j _ hj
      rw [getD_eq_getElem?_getD, getElem?_take_of_lt (by omega), getD_eq_getElem?_getD]
    · rw [← subRoot_shift k 1 0]
      simp [getD_eq_getElem?_getD]

/-! ## §5. The round that is missing. -/

theorem pairUp_iterate (f : Nat → Hash) (m n j : Nat) :
    (pairUp twoToOne)^[m] ((range' 0 (2 ^ (m + n))).map (subRoot twoToOne f j)) =
      (range' 0 (2 ^ n)).map (subRoot twoToOne f (j + m)) := by
  induction m generalizing j with
  | zero => simp
  | succ m ih =>
    have hpair := @pairUp_subRoot Hash twoToOne f j (2 ^ (m + n)) 0
    rw [Function.iterate_succ_apply, show 2 ^ (m + 1 + n) = 2 * 2 ^ (m + n) by ring,
      show 0 = 2 * 0 from rfl, hpair, ih, Nat.add_right_comm, Nat.add_assoc]

/-- From four leaves on, `calc_merkle_root_from_leaves` stops at the root of the left half. -/
theorem calcMerkleRootFromLeaves_eq {k : Nat} {leaves : List Hash}
    (hlen : leaves.length = 2 ^ (k + 2)) :
    calcMerkleRootFromLeaves leaves = .ok (recursiveRoot (k + 1) (leaves.take (2 ^ (k + 1)))) := by
  have hleaves : leaves =
      (range' 0 (2 ^ (k + 2))).map (subRoot twoToOne (fun i => leaves.getD i getZeroValue) 0) := by
    refine ext_getElem (by simp [hlen]) fun i hi _ => ?_
    simp only [getElem_map, getElem_range', subRoot]
    simp [hi]
  have hpairs := pairUp_iterate (fun i => leaves.getD i getZeroValue) 1 (k + 1) 0
  have hlevel := pairUp_iterate (fun i => leaves.getD i getZeroValue) k 1 1
  rw [Function.iterate_one, show 1 + (k + 1) = k + 2 by omega, ← hleaves] at hpairs
  unfold calcMerkleRootFromLeaves
  simp only [hpairs, length_map, length_range', log2Ceil_two_pow, Nat.add_sub_cancel, Nat.zero_add,
    hlevel]
  rw [Nat.add_comm 1 k, recursiveRoot_eq]
  refine congrArg Except.ok (subRoot_congr _ _ fun j _ hj => ?_)
  rw [getD_eq_getElem?_getD, getD_eq_getElem?_getD, getElem?_take_of_lt (by omega)]

end

/-- **THE ROOTS AGREE** on every full list, and the partial root is the root of the list padded with
empty leaves; `calc_merkle_root_from_leaves` returns the root of two leaves, and from four leaves on
only that of a list for whose halves the hash has a fixed point. -/
theorem leaf_roots_agree_iff {Hash : Type} [MerkleZeroHasher Hash] (leaves : List Hash)
    (hne : leaves ≠ []) :
    hashMerkleLeavesPartial leaves = .ok (recursiveRoot (log2Ceil leaves.length)
      (leaves ++ replicate (2 ^ log2Ceil leaves.length - leaves.length) getZeroValue)) ∧
    ∀ k, leaves.length = 2 ^ k →
      hashMerkleLeavesPartial leaves = .ok (recursiveRoot k leaves) ∧
      computeRootFromLeaves leaves = .ok (recursiveRoot k leaves) ∧
      (calcMerkleRootFromLeaves leaves = .ok (recursiveRoot k leaves) ↔
        leaves.length = 2 ∨ 4 ≤ leaves.length ∧
          twoToOne (recursiveRoot (k - 1) (leaves.take (leaves.length / 2)))
            (recursiveRoot (k - 1) (leaves.drop (leaves.length / 2))) =
          recursiveRoot (k - 1) (leaves.take (leaves.length / 2))) := by
  refine ⟨?_, fun k hk => ⟨?_, ?_, ?_⟩⟩
  · simp only [hashMerkleLeavesPartial_eq hne, recursiveRoot_eq, getD_append_replicate]
  · rw [hashMerkleLeavesPartial_eq hne, hk, log2Ceil_two_pow, recursiveRoot_eq]
  · rw [computeRootFromLeaves_getD getZeroValue hk, recursiveRoot_eq]
  · rcases k with _ | _ | k
    · obtain ⟨a, rfl⟩ := length_eq_one_iff.mp hk
      have hbounds : calcMerkleRootFromLeaves [a] = .error "index out of bounds" := rfl
      simp [hbounds]
    · obtain ⟨a, b, rfl⟩ := length_eq_two.mp hk
      have hroot : calcMerkleRootFromLeaves [a, b] = .ok (recursiveRoot 1 [a, b]) := rfl
      simp [hroot]
    · have hpow : 2 ^ (k + 2) = 2 * 2 ^ (k + 1) := by ring
      have hpos : 2 ≤ 2 ^ (k + 1) :=
        Nat.pow_le_pow_right (n := 2) (by decide) (by omega : 1 ≤ k + 1)
      have hhalf : 2 ^ (k + 2) / 2 = 2 ^ (k + 1) := by omega
      have hfour : 4 ≤ 2 ^ (k + 2) := by omega
      rw [calcMerkleRootFromLeaves_eq hk, Except.ok.injEq, hk, hhalf, Nat.add_sub_cancel,
        recursiveRoot]
      simp only [show ¬ 2 ^ (k + 2) = 2 by omega, hfour, false_or, true_and]
      exact eq_comm

/-- Three leaves are padded to four; on two leaves the three functions agree. -/
theorem leaf_roots_agree_three : hashMerkleLeavesPartial [SymHash.leaf 1, .leaf 2, .leaf 3] =
      .ok (recursiveRoot 2 [.leaf 1, .leaf 2, .leaf 3, .zero]) ∧
    calcMerkleRootFromLeaves [SymHash.leaf 1, .leaf 2] = .ok (recursiveRoot 1 [.leaf 1, .leaf 2]) :=
  ⟨(leaf_roots_agree_iff [SymHash.leaf 1, .leaf 2, .leaf 3] (by simp)).1,
    (((leaf_roots_agree_iff [SymHash.leaf 1, .leaf 2] (by simp)).2 1 rfl).2.2).mpr (.inl rfl)⟩

/-- From four leaves on a round is missing. -/
theorem calc_merkle_root_four :
    calcMerkleRootFromLeaves [SymHash.leaf 1, .leaf 2, .leaf 3, .leaf 4] =
      .ok (.node (.leaf 1) (.leaf 2)) ∧
    computeRootFromLeaves [SymHash.leaf 1, .leaf 2, .leaf 3, .leaf 4] =
      .ok (recursiveRoot 2 [.leaf 1, .leaf 2, .leaf 3, .leaf 4]) ∧
    recursiveRoot 2 [.leaf 1, .leaf 2, .leaf 3, .leaf 4] ≠ SymHash.node (.leaf 1) (.leaf 2) := by
  decide

end PsyNode.Merkle
