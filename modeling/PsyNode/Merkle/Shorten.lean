/-
PsyNode.Merkle.Shorten
**SPLITTING A DELTA PROOF** — `from_params`, `with_shortened_height_from_bottom` and
`shorten_height` of `DeltaMerkleProofCore` in `merkle_proof.rs`.

Both functions cut the siblings at a height.  The part below the cut proves the change of a
sub-tree's root, and the part above it takes that change to the root of the tree: climbing along
two lists of siblings is one climb after the other (`climb_append`), and each climb reads its own
bits of the index (`climb_mod`).
-/
import PsyNode.Merkle.Basic

namespace PsyNode.Merkle.DeltaMerkleProofCore

open Lib.Merkle List

section
variable {Hash : Type} [MerkleHasher Hash]

def fromParams (index : Nat) (oldValue newValue : Hash) (siblings : List Hash) :
    DeltaMerkleProofCore Hash where
  oldRoot := computeRootMerkleProofGeneric oldValue index siblings
  oldValue := oldValue
  newRoot := computeRootMerkleProofGeneric newValue index siblings
  newValue := newValue
  index := index
  siblings := siblings

variable (proof : DeltaMerkleProofCore Hash) (newHeight : Nat)

/-- `with_shortened_height_from_bottom`: the upper levels.  Its panics are errors. -/
def withShortenedHeightFromBottom : Except String (DeltaMerkleProofCore Hash) := do
  if ¬ newHeight ≤ proof.siblings.length then
    .error "cannot shorten tree to a height taller than the current proof"
  else if newHeight = proof.siblings.length then
    .ok proof
  else
    let heightDiff := proof.siblings.length - newHeight
    let lowIndex := proof.index &&& ((← shl64 heightDiff) - 1)
    let newIndex := proof.index >>> heightDiff
    let lowSiblings := proof.siblings.take heightDiff
    let oldValue := computeRootMerkleProofGeneric proof.oldValue lowIndex lowSiblings
    let newValue := computeRootMerkleProofGeneric proof.newValue lowIndex lowSiblings
    .ok (fromParams newIndex oldValue newValue (proof.siblings.drop heightDiff))

/-- `shorten_height`: the lower levels, with the whole index. -/
def shortenHeight : Except String (DeltaMerkleProofCore Hash) :=
  if ¬ newHeight ≤ proof.siblings.length then
    .error "cannot shorten tree to a height taller than the current proof"
  else if newHeight = proof.siblings.length then
    .ok proof
  else
    .ok (fromParams proof.index proof.oldValue proof.newValue (proof.siblings.take newHeight))

end

section
variable {Hash : Type} [MerkleHasher Hash] [DecidableEq Hash]

theorem verify_fromParams {index : Nat} {oldValue newValue : Hash} {siblings : List Hash}
    (h : siblings.length ≤ 64) : (fromParams index oldValue newValue siblings).verify = true := by
  simp [verify, fromParams, h]

variable {proof : DeltaMerkleProofCore Hash} (hverify : proof.verify = true)
include hverify

/-- A proof that verifies is made of its parameters. -/
theorem eq_fromParams :
    proof = fromParams proof.index proof.oldValue proof.newValue proof.siblings := by
  obtain ⟨_, hold, hnew⟩ := proof.verify_iff.mp hverify
  simp only [fromParams, computeRootMerkleProofGeneric_eq_climb, hold, hnew]

variable {height : Nat} (hheight : height ≤ proof.siblings.length)
include hheight

theorem shortenHeight_eq : proof.shortenHeight height =
    .ok (fromParams proof.index proof.oldValue proof.newValue (proof.siblings.take height)) := by
  unfold shortenHeight
  rw [if_neg (not_not.mpr hheight)]
  split
  next hall => rw [hall, take_length, ← eq_fromParams hverify]
  next => rfl

/-- The upper part starts from the roots of the lower one. -/
theorem withShortenedHeightFromBottom_eq (hsiblings : proof.siblings.length ≤ 63) :
    proof.withShortenedHeightFromBottom (proof.siblings.length - height) =
      .ok (fromParams (proof.index / 2 ^ height)
        (climb twoToOne proof.oldValue proof.index (proof.siblings.take height))
        (climb twoToOne proof.newValue proof.index (proof.siblings.take height))
        (proof.siblings.drop height)) := by
  unfold withShortenedHeightFromBottom
  rw [if_neg (not_not.mpr (Nat.sub_le _ _))]
  have hlow : (proof.siblings.take height).length = height := length_take_of_le hheight
  split
  next hall =>
    obtain rfl : height = 0 := by omega
    rw [pow_zero, Nat.div_one, take_zero, drop_zero, climb, climb, ← eq_fromParams hverify]
  next =>
    have hmod (v : Hash) := climb_mod twoToOne v proof.index (proof.siblings.take height)
    rw [hlow] at hmod
    simp only [Nat.sub_sub_self hheight, shl64_of_lt (show height < 64 by omega), bind, Except.bind,
      Nat.and_two_pow_sub_one_eq_mod, Nat.shiftRight_eq_div_pow,
      computeRootMerkleProofGeneric_eq_climb, hmod]

end

/-- **A PROOF SPLITS AT EVERY HEIGHT.**  Both parts verify, the lower one's roots are the upper
one's values, and the upper one's roots are those of the whole proof. -/
theorem shortened_proofs_verify {Hash : Type} [MerkleHasher Hash] [DecidableEq Hash]
    (proof : DeltaMerkleProofCore Hash) (height : Nat) (hverify : proof.verify = true)
    (hsiblings : proof.siblings.length ≤ 63) (hheight : height ≤ proof.siblings.length) :
    ∃ lower upper, proof.shortenHeight height = .ok lower ∧
      proof.withShortenedHeightFromBottom (proof.siblings.length - height) = .ok upper ∧
      lower.verify = true ∧ upper.verify = true ∧
      lower.oldRoot = upper.oldValue ∧ lower.newRoot = upper.newValue ∧
      upper.oldRoot = proof.oldRoot ∧ upper.newRoot = proof.newRoot := by
  obtain ⟨_, hold, hnew⟩ := proof.verify_iff.mp hverify
  have hclimb (v : Hash) :
      climb twoToOne (climb twoToOne v proof.index (proof.siblings.take height))
        (proof.index / 2 ^ height) (proof.siblings.drop height) =
      climb twoToOne v proof.index proof.siblings := by
    conv_rhs => rw [← take_append_drop height proof.siblings, climb_append,
      length_take_of_le hheight]
  refine ⟨_, _, shortenHeight_eq hverify hheight,
    withShortenedHeightFromBottom_eq hverify hheight hsiblings,
    verify_fromParams (by rw [length_take]; omega),
    verify_fromParams (by rw [length_drop]; omega), ?_⟩
  simp only [fromParams, computeRootMerkleProofGeneric_eq_climb, hclimb, hold, hnew, and_self]

/-- Leaf 1 of four changes, and the proof is cut in the middle. -/
theorem shortened_proofs_verify_four :
    ∃ lower upper : DeltaMerkleProofCore SymHash,
      (fromParams 1 (.leaf 1) (.leaf 2) [.leaf 3, .zero]).shortenHeight 1 = .ok lower ∧
      (fromParams 1 (.leaf 1) (.leaf 2) [.leaf 3, .zero]).withShortenedHeightFromBottom 1 =
        .ok upper ∧ lower.verify = true ∧ upper.verify = true := by
  obtain ⟨lower, upper, hlower, hupper, hlowerOk, hupperOk, _⟩ := shortened_proofs_verify
    (fromParams 1 (SymHash.leaf 1) (.leaf 2) [.leaf 3, .zero]) 1 (by decide) (by decide) (by decide)
  exact ⟨lower, upper, hlower, hupper, hlowerOk, hupperOk⟩

end PsyNode.Merkle.DeltaMerkleProofCore
