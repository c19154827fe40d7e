/-
PsyNode.Merkle.Basic
**NODE KEYS, HASHERS AND MERKLE PROOFS** — `merkle_node_key.rs`,
`traits/merkle.rs`, `merkle_proof.rs` and `spiderman.rs` of `parth_core`.

Everything here is generic in the hash type and in the two-to-one hash, as the
source is.  Levels are `u8` and indices `u64` in the source; the functions
below only shift an index down, flip its low bit, or shift it up inside a
tree of height below 64, so `Nat` shows no difference.

The bridge to the table library: a proof's root computation is `climb`
(`computeRootMerkleProofGeneric_eq_climb`), the sibling keys of a node read
its `path` (`map_siblings_eq_path`), and the root of a full window of leaves
is `subRoot` (`computeRootFromLeaves_window`).
-/
import Mathlib.Data.Nat.Bitwise
import PsyNode.Lib.GrowingTree

namespace PsyNode.Merkle

open Lib.Merkle List Nat

/-- `1 << n` on a 64-bit integer. -/
def shl64 (n : Nat) : Except String Nat :=
  if n < 64 then .ok (1 <<< n) else .error "attempt to shift left with overflow"

theorem shl64_eq_ok {n p : Nat} (h : shl64 n = .ok p) : 2 ^ n = p := by
  unfold shl64 at h
  split at h
  next => injection h with h; rw [← h, shiftLeft_eq, one_mul]
  next => cases h

theorem shl64_of_lt {n : Nat} (h : n < 64) : shl64 n = .ok (2 ^ n) := by
  unfold shl64
  rw [if_pos h, shiftLeft_eq, one_mul]

theorem shl64_lt {n p : Nat} (h : shl64 n = .ok p) : n < 64 := by
  unfold shl64 at h
  split at h
  next hlt => exact hlt
  next => cases h

/-! ## §1. Node keys. -/

/-- `SimpleMerkleNodeKey`: level 0 is the root. -/
structure SimpleMerkleNodeKey where
  level : Nat
  index : Nat
deriving DecidableEq

/-- A node key, for short. -/
abbrev NodeKey := SimpleMerkleNodeKey

namespace SimpleMerkleNodeKey

/-- The root. -/
def newRoot : NodeKey := ⟨0, 0⟩

variable (k : NodeKey)

/-- The other child of the parent. -/
def sibling : NodeKey := ⟨k.level, k.index ^^^ 1⟩

/-- The root is its own parent. -/
def parent : NodeKey :=
  if k.level = 0 then k else ⟨k.level - 1, k.index >>> 1⟩

/-- The even child. -/
def leftChild : NodeKey := ⟨k.level + 1, k.index <<< 1⟩

/-- The odd child. -/
def rightChild : NodeKey :=
  ⟨k.level + 1, (k.index <<< 1) + 1⟩

/-- The first leaf below. -/
def firstLeafChild (treeHeight : Nat) : NodeKey :=
  if treeHeight ≤ k.level then k else ⟨treeHeight, k.index <<< (treeHeight - k.level)⟩

/-- `siblings`: the sibling of the key and of each ancestor below the root. -/
def siblings : List NodeKey :=
  go k.level k
where
  go : Nat → NodeKey → List NodeKey
  | 0, _ => []
  | n + 1, current => current.sibling :: go n current.parent

theorem xor_one_eq_sibling (i : Nat) : i ^^^ 1 = Lib.Merkle.sibling i := by
  unfold Lib.Merkle.sibling
  split
  next h => exact xor_one_of_even (Nat.even_iff.mpr h)
  next h => exact xor_one_of_odd (Nat.odd_iff.mpr (by omega))

variable (l i : Nat)

@[simp] theorem sibling_mk : sibling ⟨l, i⟩ = ⟨l, Lib.Merkle.sibling i⟩ := by
  simp [sibling, xor_one_eq_sibling]

@[simp] theorem parent_mk_succ : parent ⟨l + 1, i⟩ = ⟨l, i / 2⟩ := by
  simp [parent, shiftRight_eq_div_pow]

@[simp] theorem leftChild_mk : leftChild ⟨l, i⟩ = ⟨l + 1, 2 * i⟩ := by
  simp [leftChild, shiftLeft_eq, Nat.mul_comm]

@[simp] theorem rightChild_mk : rightChild ⟨l, i⟩ = ⟨l + 1, 2 * i + 1⟩ := by
  simp [rightChild, shiftLeft_eq, Nat.mul_comm]

/-- The first leaf under the sub-tree `i` of height `n`. -/
theorem firstLeafChild_index {n h : Nat} (i : Nat) (hn : n ≤ h) :
    (firstLeafChild ⟨h - n, i⟩ h).index = i * 2 ^ n := by
  unfold firstLeafChild
  split
  next hle =>
    have hn0 : h ≤ h - n := hle
    obtain rfl : n = 0 := by omega
    rw [pow_zero, mul_one]
  next => rw [show h - (h - n) = n by omega, shiftLeft_eq]

end SimpleMerkleNodeKey

/-- Reading the sibling keys of a node reads its path in the node table. -/
theorem map_siblings_eq_path {H : Type} (read : NodeKey → H) (l i : Nat) :
    (SimpleMerkleNodeKey.siblings ⟨l, i⟩).map read = path (fun l i => read ⟨l, i⟩) l i := by
  show (SimpleMerkleNodeKey.siblings.go l ⟨l, i⟩).map read = _
  induction l generalizing i with
  | zero => rfl
  | succ l ih => simp [SimpleMerkleNodeKey.siblings.go, path, ih]

/-! ## §2. Hashers. -/

/-- The two-to-one hash. -/
class MerkleHasher (Hash : Type) where
  twoToOne : Hash → Hash → Hash

export MerkleHasher (twoToOne)

/-- Different pairs have different hashes. -/
abbrev CollisionFree (Hash : Type) [MerkleHasher Hash] : Prop :=
  ∀ a b c d : Hash, twoToOne a b = twoToOne c d → a = c ∧ b = d

/-- `MerkleZeroHasher` over a `ZeroableHash`: a hasher and the value of an
empty leaf. -/
class MerkleZeroHasher (Hash : Type) extends MerkleHasher Hash where
  getZeroValue : Hash

export MerkleZeroHasher (getZeroValue)

/-- `n` times hashed with itself. -/
def iterateMerkleHasher {Hash : Type} [MerkleHasher Hash] (current : Hash) : Nat → Hash
  | 0 => current
  | n + 1 => iterateMerkleHasher (twoToOne current current) n

/-- `get_zero_hash`: the value of an empty sub-tree of height `reverseLevel`.
The source keeps the first 128 iterates in a constant table made by
`generate_zero_hashes` and iterates on from the last one. -/
def getZeroHash {Hash : Type} [MerkleZeroHasher Hash] (reverseLevel : Nat) : Hash :=
  iterateMerkleHasher getZeroValue reverseLevel

section
variable {Hash : Type} [MerkleZeroHasher Hash]

theorem iterateMerkleHasher_succ (v : Hash) (n : Nat) : iterateMerkleHasher v (n + 1) =
      twoToOne (iterateMerkleHasher v n) (iterateMerkleHasher v n) := by
  induction n generalizing v with
  | zero => rfl
  | succ n ih => exact ih (twoToOne v v)

theorem getZeroHash_eq_zeroAt (n : Nat) :
    (getZeroHash n : Hash) = zeroAt twoToOne getZeroValue n := by
  induction n with
  | zero => rfl
  | succ n ih => rw [zeroAt, ← ih]; exact iterateMerkleHasher_succ _ n

end

/-- SYMBOLIC HASHES: the free two-to-one hash, in which no two inputs collide.
What goes wrong for these terms goes wrong for every hash function. -/
inductive SymHash
  | zero
  | leaf (n : Nat)
  | node (left right : SymHash)
deriving DecidableEq

instance : MerkleZeroHasher SymHash where
  twoToOne := .node
  getZeroValue := .zero

/-- A symbolic hash as a text. -/
def SymHash.toText : SymHash → String
  | .zero => "0"
  | .leaf n => s!"{n}"
  | .node left right => "(" ++ SymHash.toText left ++ " " ++ SymHash.toText right ++ ")"

instance : ToString SymHash := ⟨SymHash.toText⟩

/-- The height of a tree over `n` leaves. -/
def log2Ceil (n : Nat) : Nat := if n ≤ 1 then 0 else Nat.log2 (n - 1) + 1

/-- The loop of `compute_root_from_leaves`: pair up while more than one value
is left (`fuel` bounds the number of rounds). -/
def pairUpLoop {Hash : Type} [MerkleHasher Hash] : Nat → List Hash → List Hash
  | 0, current => current
  | fuel + 1, current =>
    if 1 < current.length then pairUpLoop fuel (pairUp twoToOne current) else current

/-- Pairs up until one is left. -/
def computeRootFromLeaves {Hash : Type} [MerkleHasher Hash] (leaves : List Hash) :
    Except String Hash :=
  match leaves with
  | [] => .error "compute_root_from_leaves called with an empty array"
  | [a] => .ok a
  | [a, b] => .ok (twoToOne a b)
  | _ =>
    if leaves.length ≠ 1 <<< log2Ceil leaves.length then
      .error "compute_root_from_leaves called where leaves.len() is not a power of 2"
    else
      match pairUpLoop leaves.length (pairUp twoToOne leaves) with
      | root :: _ => .ok root
      | [] => .error "index out of bounds"

section
variable {Hash : Type} [MerkleHasher Hash]

theorem log2Ceil_two_pow (k : Nat) : log2Ceil (2 ^ k) = k := by
  unfold log2Ceil
  cases k with
  | zero => simp
  | succ k =>
    have hpos : 0 < 2 ^ k := by positivity
    have hlog : log2 (2 ^ (k + 1) - 1) = k :=
      (log2_eq_iff (by omega)).mpr ⟨by omega, by omega⟩
    rw [if_neg (by omega), hlog]

/-- The loop reduces the roots of `2 ^ m` neighbouring sub-trees to one root. -/
theorem pairUpLoop_subRoot (f : Nat → Hash) (m fuel j i : Nat) (hm : m ≤ fuel) :
    pairUpLoop fuel ((range' (i * 2 ^ m) (2 ^ m)).map (subRoot twoToOne f j)) =
      [subRoot twoToOne f (j + m) i] := by
  induction m generalizing fuel j with
  | zero =>
    cases fuel <;> simp [pairUpLoop]
  | succ m ih =>
    obtain ⟨fuel, rfl⟩ : ∃ fuel', fuel = fuel' + 1 := ⟨fuel - 1, by omega⟩
    unfold pairUpLoop
    rw [if_pos (by simp), show i * 2 ^ (m + 1) = 2 * (i * 2 ^ m) by ring,
      show 2 ^ (m + 1) = 2 * 2 ^ m by ring, pairUp_subRoot, ih fuel (j + 1) (by omega),
      show j + 1 + m = j + (m + 1) by ring]

/-- **THE ROOT OF A FULL WINDOW** of `2 ^ k` leaves is the sub-tree root. -/
theorem computeRootFromLeaves_window (f : Nat → Hash) (k i : Nat) :
    computeRootFromLeaves ((range' (i * 2 ^ k) (2 ^ k)).map f) =
      .ok (subRoot twoToOne f k i) := by
  rcases k with _ | _ | k
  · simp [computeRootFromLeaves, subRoot]
  · simp [computeRootFromLeaves, subRoot, range', Nat.mul_comm]
  · have hp : 2 ^ (k + 2) = 2 * 2 ^ (k + 1) := by ring
    have hlong : 2 ^ 2 ≤ 2 ^ (k + 2) := Nat.pow_le_pow_right (by omega) (by omega)
    set leaves := (range' (i * 2 ^ (k + 2)) (2 ^ (k + 2))).map f with hleaves
    have hlen : leaves.length = 2 ^ (k + 2) := by simp [hleaves]
    have hpair : pairUp twoToOne leaves =
        (range' (i * 2 ^ (k + 1)) (2 ^ (k + 1))).map (subRoot twoToOne f 1) := by
      rw [hleaves, show i * 2 ^ (k + 2) = 2 * (i * 2 ^ (k + 1)) by ring, hp]
      exact pairUp_subRoot f 0 _ _
    have hfuel : k + 1 ≤ leaves.length := by
      rw [hlen]
      exact le_of_lt (lt_of_lt_of_le Nat.lt_two_pow_self
        (Nat.pow_le_pow_right (by omega) (by omega)))
    have hloop : pairUpLoop leaves.length (pairUp twoToOne leaves) =
        [subRoot twoToOne f (k + 2) i] := by
      rw [hpair, pairUpLoop_subRoot f (k + 1) _ 1 i hfuel, show 1 + (k + 1) = k + 2 by ring]
    -- at least four leaves: none of the short cases of the match applies
    rcases leaves with _ | ⟨a, _ | ⟨b, _ | ⟨c, rest⟩⟩⟩
    · simp only [length_nil] at hlen
      omega
    · simp only [length_cons, length_nil] at hlen
      omega
    · simp only [length_cons, length_nil] at hlen
      omega
    · unfold computeRootFromLeaves
      rw [if_neg (by simp [hlen, log2Ceil_two_pow, shiftLeft_eq]), hloop]

end

/-! ## §3. Merkle proofs. -/

/-- A leaf and its path. -/
structure MerkleProofCore (Hash : Type) where
  root : Hash
  value : Hash
  index : Nat
  siblings : List Hash
deriving DecidableEq

/-- A change of a node and its path. -/
structure DeltaMerkleProofCore (Hash : Type) where
  oldRoot : Hash
  oldValue : Hash
  newRoot : Hash
  newValue : Hash
  index : Nat
  siblings : List Hash
deriving DecidableEq

/-- `SpidermanUpdateProof`: a delta proof for the root of a window of leaves,
with the old and the new leaves of the window. -/
structure SpidermanUpdateProof (Hash : Type) where
  topLineProof : DeltaMerkleProofCore Hash
  webProofOldLeaves : List Hash
  webProofNewLeaves : List Hash
deriving DecidableEq

section
variable {Hash : Type} [MerkleHasher Hash]

/-- `compute_root_merkle_proof_generic`: bit `i` of the index says on which
side the `i`-th sibling stands. -/
def computeRootMerkleProofGeneric (value : Hash) (index : Nat) (siblings : List Hash) : Hash :=
  go 0 value siblings
where
  go : Nat → Hash → List Hash → Hash
  | _, current, [] => current
  | i, current, sibling :: rest =>
    go (i + 1)
      (if index &&& (1 <<< i) = 0 then twoToOne current sibling else twoToOne sibling current)
      rest

theorem and_one_shiftLeft_eq_zero (n i : Nat) : n &&& (1 <<< i) = 0 ↔ n / 2 ^ i % 2 = 0 := by
  rw [shiftLeft_eq, one_mul, and_two_pow]
  cases hbit : n.testBit i with
  | false => simpa [testBit_eq_decide_div_mod_eq] using hbit
  | true => simpa [testBit_eq_decide_div_mod_eq] using hbit

/-- The computed root is the library's climb. -/
theorem computeRootMerkleProofGeneric_eq_climb (value : Hash) (index : Nat) (siblings : List Hash) :
    computeRootMerkleProofGeneric value index siblings = climb twoToOne value index siblings := by
  have key (ss : List Hash) (i : Nat) (v : Hash) :
      computeRootMerkleProofGeneric.go index i v ss = climb twoToOne v (index / 2 ^ i) ss := by
    induction ss generalizing i v with
    | nil => rfl
    | cons s ss ih =>
      rw [computeRootMerkleProofGeneric.go, climb, ih, pow_succ, ← Nat.div_div_eq_div_mul]
      simp only [and_one_shiftLeft_eq_zero]
  have h := key siblings 0 value
  rwa [pow_zero, Nat.div_one] at h

variable [DecidableEq Hash]

/-- `verify_merkle_proof_core`: proofs of more than 64 siblings are refused. -/
def MerkleProofCore.verify (proof : MerkleProofCore Hash) : Bool :=
  if proof.siblings.length > 64 then false
  else computeRootMerkleProofGeneric proof.value proof.index proof.siblings = proof.root

variable (proof : DeltaMerkleProofCore Hash)

/-- `verify_delta_merkle_proof_core`. -/
def DeltaMerkleProofCore.verify : Bool :=
  if proof.siblings.length > 64 then false
  else if computeRootMerkleProofGeneric proof.oldValue proof.index proof.siblings ≠ proof.oldRoot
  then false
  else computeRootMerkleProofGeneric proof.newValue proof.index proof.siblings = proof.newRoot

/-- The leaves hash to the values of the top line. -/
def SpidermanUpdateProof.verify (proof : SpidermanUpdateProof Hash) : Bool :=
  let leavesLen := proof.webProofNewLeaves.length
  if proof.webProofOldLeaves.length ≠ leavesLen ∨ leavesLen ≠ 2 ^ Nat.log2 leavesLen then false
  else if !proof.topLineProof.verify then false
  else
    match computeRootFromLeaves proof.webProofOldLeaves,
      computeRootFromLeaves proof.webProofNewLeaves with
    | .ok computedOldWebRoot, .ok computedNewWebRoot =>
      computedOldWebRoot = proof.topLineProof.oldValue ∧
        computedNewWebRoot = proof.topLineProof.newValue
    | _, _ => false

theorem MerkleProofCore.verify_iff (proof : MerkleProofCore Hash) :
    proof.verify = true ↔ proof.siblings.length ≤ 64 ∧
      climb twoToOne proof.value proof.index proof.siblings = proof.root := by
  simp [verify, computeRootMerkleProofGeneric_eq_climb]

theorem DeltaMerkleProofCore.verify_iff : proof.verify = true ↔ proof.siblings.length ≤ 64 ∧
      climb twoToOne proof.oldValue proof.index proof.siblings = proof.oldRoot ∧
      climb twoToOne proof.newValue proof.index proof.siblings = proof.newRoot := by
  simp [verify, computeRootMerkleProofGeneric_eq_climb]

end

section
variable {Hash : Type} [MerkleZeroHasher Hash] (proof : MerkleProofCore Hash)

/-- `compute_historical_append_root_core`, the body of `get_append_root`: right
siblings are replaced by the zero hash of their height. -/
def MerkleProofCore.getAppendRoot : Hash :=
  go proof.index 0 proof.value proof.siblings
where
  go (index : Nat) : Nat → Hash → List Hash → Hash
  | _, current, [] => current
  | i, current, sibling :: rest =>
    go index (i + 1)
      (if index &&& (1 <<< i) = 0 then twoToOne current (getZeroHash i)
        else twoToOne sibling current)
      rest

theorem MerkleProofCore.getAppendRoot_eq_climbAppend : proof.getAppendRoot =
      climbAppend twoToOne getZeroValue 0 proof.value proof.index proof.siblings := by
  have key (ss : List Hash) (i : Nat) (v : Hash) :
      getAppendRoot.go proof.index i v ss =
        climbAppend twoToOne getZeroValue i v (proof.index / 2 ^ i) ss := by
    induction ss generalizing i v with
    | nil => rfl
    | cons s ss ih =>
      rw [getAppendRoot.go, climbAppend, ih, pow_succ,
        ← Nat.div_div_eq_div_mul, getZeroHash_eq_zeroAt]
      simp only [and_one_shiftLeft_eq_zero]
  have h := key proof.siblings 0 proof.value
  rwa [pow_zero, Nat.div_one] at h

end

end PsyNode.Merkle
