/-
PsyNode.Circuit.Rotation
**THE SCHEDULED PROPOSER, NATIVE AND IN THE CIRCUIT**
(`parth_common/src/realm_rotation.rs`,
`guta_v2/circuits/realm_finalize_guta.rs`).

`proposer_sub_id` shuffles the index 0 through 90 swap-or-not rounds seeded by the
random seed of the anchor checkpoint.  `enforce_rotation` constrains a sub id to be
that of the shuffled index; division, canonical words and maximum become wires that
are constrained to be what the native code computes.
-/
import Mathlib.Data.Nat.Size
import PsyNode.Circuit.Comparison
import PsyNode.Lib.MerkleTable

namespace PsyNode.Circuit

open Lib.Circuit Lib

/-! ## §1. The native schedule. -/

def SCHEDULE_DOMAIN : Nat := 0x3230544f52595350

def PIVOT_DOMAIN : Nat := 0x31305654_4f564950

def SOURCE_DOMAIN : Nat := 0x31304543_52554f53

def ROTATION_ROUNDS : Nat := 90

/-- A hash has four elements, numbered from zero. -/
theorem neZeroElements : NeZero 4 := ⟨Nat.succ_ne_zero 3⟩

attribute [local instance] neZeroElements

/-- A hash is four field elements. -/
abbrev HashOut : Type := Fin 4 → Felt

/-- The hash functions, which circuit and native code share. -/
structure AlgebraicHasher where
  hashNToHashNoPad : List Felt → HashOut
  twoToOne : HashOut → HashOut → HashOut

/-- The validators that take turns, and for how long. -/
structure RealmRotationConfig where
  checkpointsPerEpoch : Nat
  validatorSubIds : List Nat

/-- There is a rotation. -/
def RealmRotationConfig.isEnabled (config : RealmRotationConfig) : Bool :=
  decide (0 < config.checkpointsPerEpoch) && !config.validatorSubIds.isEmpty

/-- The epoch of a checkpoint. -/
def epoch (checkpointId checkpointsPerEpoch : Nat) : Nat := checkpointId / checkpointsPerEpoch

/-- `anchor_checkpoint_id`; the subtraction saturates. -/
def anchorCheckpointId (epoch checkpointsPerEpoch : Nat) : Nat := epoch * checkpointsPerEpoch - 1

variable (H : AlgebraicHasher)

/-- One swap-or-not round. -/
def swapOrNot (n : Nat) (seed : HashOut) (index round : Nat) : Nat :=
  let pivotHash := H.hashNToHashNoPad
    [(PIVOT_DOMAIN : Nat), seed 0, seed 1, seed 2, seed 3, (round : Nat)]
  let pivotWord := (pivotHash 0).val % 2 ^ 32
  let pivot := pivotWord % n
  let flip := (pivot + n - index) % n
  let position := max index flip
  let sourceHash := H.hashNToHashNoPad
    [(SOURCE_DOMAIN : Nat), seed 0, seed 1, seed 2, seed 3, (round : Nat), (position : Nat)]
  if (sourceHash 0).val &&& 1 = 1 then flip else index

/-- The sub id that may propose at a checkpoint, computed natively. -/
def RealmRotationConfig.proposerSubId (config : RealmRotationConfig) (realmId checkpointId : Nat)
    (anchorSeed : Fin 4 → Nat) : Except String (Option Nat) :=
  if !config.isEnabled then .ok none
  else if ¬ ∀ i, anchorSeed i < GOLDILOCKS_FIELD_ORDER then
    .error "rotation anchor seed contains a noncanonical Goldilocks field element"
  else
    let n := config.validatorSubIds.length
    let epoch := epoch checkpointId config.checkpointsPerEpoch
    let seed := H.hashNToHashNoPad [(SCHEDULE_DOMAIN : Nat), (realmId : Nat),
      ((epoch &&& 0xffffffff : Nat) : Felt), ((epoch >>> 32 : Nat) : Felt),
      (anchorSeed 0 : Nat), (anchorSeed 1 : Nat), (anchorSeed 2 : Nat), (anchorSeed 3 : Nat)]
    let index := (List.range 90).foldl (swapOrNot H n seed) 0
    .ok (some (config.validatorSubIds.getD index 0))

/-! ## §2. The gadgets of the circuit. -/

/-- The bits of `value`, at least one. -/
def nonzeroBitWidth (value : Nat) : Nat := max 1 value.size

/-- `strict_div_rem_const`: quotient and remainder. -/
def strictDivRemConst (dividend : Felt) (dividendBits divisor : Nat) : Circuit (Felt × Felt) := do
  let quotient ← virtual
  let remainder ← virtual
  rangeCheck dividend dividendBits
  rangeCheck quotient dividendBits
  let divisorTarget : Felt := (divisor : Felt)
  connect dividend (quotient * divisorTarget + remainder)
  rangeCheck remainder (nonzeroBitWidth (divisor - 1))
  let isStrict ← isLessThan (nonzeroBitWidth divisor) remainder divisorTarget
  assertOne isStrict
  return (quotient, remainder)

/-- `canonical_goldilocks_word`: the low word of the representative. -/
def canonicalGoldilocksWord (value : Felt) : Circuit Felt := do
  let lo ← virtual
  let hi ← virtual
  rangeCheck lo 32
  rangeCheck hi 32
  connect value (((2 ^ 32 : Nat) : Felt) * hi + lo)
  let maxU32 : Felt := ((2 ^ 32 - 1 : Nat) : Felt)
  let hiLtMax ← isLessThan 32 hi maxU32
  let maxHiCanonical := andTarget (isEqual hi maxU32) (isEqual lo 0)
  assertOne (orTarget hiLtMax maxHiCanonical)
  return lo

/-- Two nodes hashed in the order that the bit says. -/
def twoToOneSwapped (left right : HashOut) (swap : BoolTarget) : HashOut :=
  H.twoToOne (fun i => select swap (right i) (left i)) (fun i => select swap (left i) (right i))

/-- The wires of a Merkle proof. -/
structure MerkleProofGadget where
  root : HashOut
  value : HashOut
  index : Felt
  siblings : List HashOut

/-- The root over `value`, one bit of the index a level. -/
def computeRootBits (indexBits : List BoolTarget) (value : HashOut) (siblings : List HashOut) :
    HashOut :=
  (indexBits.zip siblings).foldl (fun state step => twoToOneSwapped H state step.2 step.1) value

/-- Fresh wires of a proof, with the root computed from the others. -/
def MerkleProofGadget.addVirtualTo (height : Nat) : Circuit MerkleProofGadget := do
  let index ← virtual
  let value ← virtual
  let siblings : List HashOut ← virtual
  constrain (siblings.length = height)
  rangeCheck index height
  let indexBits ← splitLe index height
  return ⟨computeRootBits H indexBits value siblings, value, index, siblings⟩

/-! ## §3. The checkpoint leaf. -/

structure PMJobsCompletedStatsGadget where
  deployContractsCompleted : Felt
  registerUsersCompleted : Felt
  gutasCompleted : Felt

/-- `PMRewardCommitmentGadget`: `create_virtual` makes one wire of its three roots. -/
structure PMRewardCommitmentGadget where
  rewardTreeRoot : HashOut

structure QEDCheckpointLeafStatsGadget where
  gutaFeesCollected : Felt
  daFeesCollected : Felt
  userOpsProcessed : Felt
  totalTransactions : Felt
  slotsModified : Felt
  pmJobsCompleted : PMJobsCompletedStatsGadget
  blockTime : Felt
  randomSeed : HashOut
  pmRewardsCommitment : PMRewardCommitmentGadget
  daChallengesClaimed : Fin 14 → Felt

structure QEDCheckpointLeafGadget where
  globalChainRoot : HashOut
  stats : QEDCheckpointLeafStatsGadget

def HashOut.elements (hash : HashOut) : List Felt := [hash 0, hash 1, hash 2, hash 3]

def PMJobsCompletedStatsGadget.toTargets (jobs : PMJobsCompletedStatsGadget) : List Felt :=
  [jobs.deployContractsCompleted, jobs.registerUsersCompleted, jobs.gutasCompleted]

def PMRewardCommitmentGadget.toTargets (commitment : PMRewardCommitmentGadget) : List Felt :=
  HashOut.elements commitment.rewardTreeRoot ++ HashOut.elements commitment.rewardTreeRoot ++
    HashOut.elements commitment.rewardTreeRoot

def QEDCheckpointLeafStatsGadget.toTargets (stats : QEDCheckpointLeafStatsGadget) : List Felt :=
  [stats.gutaFeesCollected, stats.daFeesCollected, stats.userOpsProcessed,
    stats.totalTransactions, stats.slotsModified] ++ stats.pmJobsCompleted.toTargets ++
    [stats.blockTime] ++ HashOut.elements stats.randomSeed ++
    stats.pmRewardsCommitment.toTargets ++ List.ofFn stats.daChallengesClaimed

/-- The hash of a checkpoint leaf. -/
def QEDCheckpointLeafGadget.toHash (leaf : QEDCheckpointLeafGadget) : HashOut :=
  H.hashNToHashNoPad (HashOut.elements leaf.globalChainRoot ++
    HashOut.elements (H.hashNToHashNoPad leaf.stats.toTargets))

/-! ## §4. `enforce_rotation`, in the order of its parts. -/

/-- The words of the epoch of the target checkpoint, and the anchor checkpoint. -/
def epochAnchor (checkpointId : Felt) (rotationPeriodCheckpoints checkpointTreeHeight : Nat) :
    Circuit (Felt × Felt × Felt) := do
  let targetCheckpointId := checkpointId + 1
  rangeCheck targetCheckpointId checkpointTreeHeight
  let divRem ← strictDivRemConst targetCheckpointId checkpointTreeHeight rotationPeriodCheckpoints
  let epoch := divRem.1
  let epochBits ← splitLe epoch checkpointTreeHeight
  let epochLo := leSum (epochBits.take (min 32 epochBits.length))
  let epochHi := if 32 < epochBits.length then leSum (epochBits.drop 32) else 0
  let epochStart := (rotationPeriodCheckpoints : Felt) * epoch
  let anchorCheckpointId := select (isEqual epoch 0) 0 (epochStart - 1)
  rangeCheck anchorCheckpointId checkpointTreeHeight
  return (epochLo, epochHi, anchorCheckpointId)

/-- The anchor leaf and its proof. -/
def anchorLeaf (anchorCheckpointId : Felt) (checkpointTreeHeight : Nat)
    (checkpointTreeRoot : HashOut) : Circuit (QEDCheckpointLeafGadget × MerkleProofGadget) := do
  let leaf ← virtual
  let proof ← MerkleProofGadget.addVirtualTo H checkpointTreeHeight
  connect proof.index anchorCheckpointId
  connect proof.value (leaf.toHash H)
  connect proof.root checkpointTreeRoot
  return (leaf, proof)

/-- One round of the shuffle. -/
def swapOrNotCircuit (validatorCount : Nat) (seed : HashOut) (index : Felt) (round : Nat) :
    Circuit Felt := do
  let indexBits := nonzeroBitWidth (validatorCount - 1)
  let validatorCountTarget : Felt := (validatorCount : Felt)
  let pivotHash := H.hashNToHashNoPad
    [(PIVOT_DOMAIN : Nat), seed 0, seed 1, seed 2, seed 3, (round : Nat)]
  let pivotWord ← canonicalGoldilocksWord (pivotHash 0)
  let divRem ← strictDivRemConst pivotWord 32 validatorCount
  let pivot := divRem.2
  let flipSum := pivot + validatorCountTarget - index
  let flipGeN ← isGreaterThanOrEqual (indexBits + 1) flipSum validatorCountTarget
  let flip := select flipGeN (flipSum - validatorCountTarget) flipSum
  rangeCheck flip indexBits
  let flipIsGreater ← isGreaterThan indexBits flip index
  let position := select flipIsGreater flip index
  let sourceHash := H.hashNToHashNoPad
    [(SOURCE_DOMAIN : Nat), seed 0, seed 1, seed 2, seed 3, (round : Nat), position]
  let sourceWord ← canonicalGoldilocksWord (sourceHash 0)
  let sourceBits ← splitLe sourceWord 32
  return select (sourceBits.getD 0 0) flip index

/-- The sub id of the schedule. -/
def expectedSubId (realmId epochLo epochHi : Felt) (anchorSeed : HashOut)
    (validatorSubIds : List Nat) : Circuit Felt := do
  let seed := H.hashNToHashNoPad [(SCHEDULE_DOMAIN : Nat), realmId, epochLo, epochHi,
    anchorSeed 0, anchorSeed 1, anchorSeed 2, anchorSeed 3]
  let index ← (List.range ROTATION_ROUNDS).foldlM
    (swapOrNotCircuit H validatorSubIds.length seed) 0
  return selectInArray (validatorSubIds.map fun id : Nat => (id : Felt)) index

/-- The circuit of the rotation: the proposer is the one of the epoch. -/
def enforceRotation (checkpointId realmId realmSubId : Felt) (rotationPeriodCheckpoints : Nat)
    (validatorSubIds : List Nat) (checkpointTreeHeight : Nat) (checkpointTreeRoot : HashOut) :
    Circuit (QEDCheckpointLeafGadget × MerkleProofGadget) := do
  let anchor ← epochAnchor checkpointId rotationPeriodCheckpoints checkpointTreeHeight
  let anchored ← anchorLeaf H anchor.2.2 checkpointTreeHeight checkpointTreeRoot
  let expected ← expectedSubId H realmId anchor.1 anchor.2.1 anchored.1.stats.randomSeed
    validatorSubIds
  connect realmSubId expected
  return anchored

end PsyNode.Circuit
