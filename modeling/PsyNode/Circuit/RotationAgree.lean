/-
PsyNode.Circuit.RotationAgree
**THE CIRCUIT ACCEPTS EXACTLY THE SCHEDULED PROPOSER.**

Every gadget of `enforce_rotation` is shown to compute what the native code computes
(`Computes`), whoever chooses the wires.  The bounds are tight: quotient times divisor
plus remainder reaches the order of the field minus one, and not further.
-/
import PsyNode.Circuit.Rotation

namespace PsyNode.Circuit

open Lib.Circuit Lib List Nat
open Computes hiding holds_bind

attribute [local instance] neZeroElements

/-! ## §1. Division and canonical words. -/

theorem lt_two_pow_nonzeroBitWidth (value : Nat) : value < 2 ^ nonzeroBitWidth value := by
  exact (lt_size_self value).trans_le (Nat.pow_le_pow_right (by omega) (le_max_right _ _))

theorem nonzeroBitWidth_pos (value : Nat) : 0 < nonzeroBitWidth value := by
  unfold nonzeroBitWidth
  omega

theorem nonzeroBitWidth_le {value bits : Nat} (hbits : 0 < bits) (hvalue : value < 2 ^ bits) :
    nonzeroBitWidth value ≤ bits := by
  exact max_le hbits (Nat.size_le.mpr hvalue)

variable {divisor : Nat}

/-- The comparison inside the division: the remainder is below the divisor. -/
theorem remainder_computes (hpos : 0 < divisor) (hdivisor : divisor < 2 ^ 32)
    {remainder : Felt} (hremainder : remainder.val < 2 ^ nonzeroBitWidth (divisor - 1)) :
    (isLessThan (nonzeroBitWidth divisor) remainder (divisor : Felt)).Computes True
      (ofBool (decide (remainder.val < divisor))) := by
  have hval : ((divisor : Nat) : Felt).val = divisor := val_natCast_of_lt (by omega)
  have hmono : 2 ^ nonzeroBitWidth (divisor - 1) ≤ 2 ^ nonzeroBitWidth divisor :=
    Nat.pow_le_pow_right (by omega) (max_le_max_left 1 (size_le_size (by omega)))
  have hself := lt_two_pow_nonzeroBitWidth divisor
  have h := isLessThan_computes (nonzeroBitWidth_pos divisor)
    (nonzeroBitWidth_le (by omega) hdivisor) (hremainder.trans_le hmono)
    (y := (divisor : Felt)) (by omega)
  rw [hval] at h
  exact h

/-- **STRICT DIVISION**: quotient and remainder are those of the representative. -/
theorem strictDivRemConst_computes {dividend : Felt} (hpos : 0 < divisor)
    (hdivisor : divisor < 2 ^ 32) :
    (strictDivRemConst dividend 32 divisor).Computes (dividend.val < 2 ^ 32)
      (((dividend.val / divisor : Nat) : Felt), ((dividend.val % divisor : Nat) : Felt)) := by
  unfold strictDivRemConst rangeCheck connect assertOne
  apply intro
  · intro result h
    simp only [holds_bind, holds_constrain, holds_virtual, holds_pure, exists_const, true_and] at h
    obtain ⟨quotient, remainder, hdividend, hquotient, hsum, hwidth, strict, hstrict, hone,
      rfl⟩ := h
    obtain ⟨_, rfl⟩ := (remainder_computes hpos hdivisor hwidth strict).mp hstrict
    have hlt : remainder.val < divisor := of_decide_eq_true (ofBool_eq_one.mp hone)
    -- quotient and remainder do not reach the order of the field
    have hstep : quotient.val * divisor ≤ (2 ^ 32 - 1) * divisor :=
      Nat.mul_le_mul_right _ (by omega)
    have hval : dividend.val = quotient.val * divisor + remainder.val := by
      rw [← eq_natCast_iff (by omega), hsum]
      push_cast
      rw [natCast_val, natCast_val]
    refine ⟨hdividend, ?_⟩
    have hdiv : dividend.val / divisor = quotient.val := by
      rw [hval, Nat.mul_comm, mul_add_div hpos, div_eq_of_lt hlt, Nat.add_zero]
    have hmod : dividend.val % divisor = remainder.val := by
      rw [hval, Nat.mul_comm, mul_add_mod, mod_eq_of_lt hlt]
    rw [hdiv, hmod, natCast_val, natCast_val]
  · intro hdividend
    have hmod : dividend.val % divisor < divisor := mod_lt _ hpos
    have hdiv : dividend.val / divisor ≤ dividend.val := Nat.div_le_self _ _
    have hqval : ((dividend.val / divisor : Nat) : Felt).val = dividend.val / divisor :=
      val_natCast_of_lt (by omega)
    have hrval : ((dividend.val % divisor : Nat) : Felt).val = dividend.val % divisor :=
      val_natCast_of_lt (by omega)
    have hwidth : ((dividend.val % divisor : Nat) : Felt).val <
        2 ^ nonzeroBitWidth (divisor - 1) := by
      have hself := lt_two_pow_nonzeroBitWidth (divisor - 1)
      omega
    refine ⟨(((dividend.val / divisor : Nat) : Felt), ((dividend.val % divisor : Nat) : Felt)), ?_⟩
    simp only [holds_bind, holds_constrain, holds_virtual, holds_pure, exists_const, true_and]
    refine ⟨_, _, hdividend, by omega, ?_, hwidth, _,
      (remainder_computes hpos hdivisor hwidth _).mpr ⟨trivial, rfl⟩, ?_, rfl⟩
    · rw [← cast_mul, ← cast_add, Nat.mul_comm, div_add_mod, natCast_val]
    · rw [ofBool_eq_one, decide_eq_true_eq]
      omega

/-- The order is one more than the highest word times its weight, so a canonical high word is not
the highest one, or the low word is zero. -/
theorem canonicalCheck_eq {lo hi : Felt} (hlo : lo.val < 2 ^ 32) (hhi : hi.val < 2 ^ 32) :
    orTarget (ofBool (decide (hi.val < 2 ^ 32 - 1)))
        (andTarget (isEqual hi ((2 ^ 32 - 1 : Nat) : Felt)) (isEqual lo 0)) =
      ofBool (decide (2 ^ 32 * hi.val + lo.val < 18446744069414584321)) := by
  have hmax : ((2 ^ 32 - 1 : Nat) : Felt).val = 2 ^ 32 - 1 := val_natCast_of_lt (by omega)
  rw [isEqual_eq, isEqual_eq, hmax, ZMod.val_zero, andTarget_ofBool, orTarget_ofBool]
  congr 1
  rw [Bool.eq_iff_iff]
  simp only [Bool.or_eq_true, Bool.and_eq_true, decide_eq_true_eq]
  omega

theorem maxU32_computes {hi : Felt} (hhi : hi.val < 2 ^ 32) :
    (isLessThan 32 hi ((2 ^ 32 - 1 : Nat) : Felt)).Computes True
      (ofBool (decide (hi.val < 2 ^ 32 - 1))) := by
  have hmax : ((2 ^ 32 - 1 : Nat) : Felt).val = 2 ^ 32 - 1 := val_natCast_of_lt (by omega)
  have h := isLessThan_computes (by omega) (le_refl 32) hhi
    (y := ((2 ^ 32 - 1 : Nat) : Felt)) (by omega)
  exact h

variable (value : Felt)

theorem val_lowWord : ((value.val % 2 ^ 32 : Nat) : Felt).val = value.val % 2 ^ 32 := by
  exact val_natCast_of_lt (by omega)

theorem val_lowWord_lt : ((value.val % 2 ^ 32 : Nat) : Felt).val < 2 ^ 32 := by
  rw [val_lowWord]
  exact mod_lt _ (by omega)

/-- **CANONICAL WORDS**: no other words make up the value. -/
theorem canonicalGoldilocksWord_computes :
    (canonicalGoldilocksWord value).Computes True ((value.val % 2 ^ 32 : Nat) : Felt) := by
  unfold canonicalGoldilocksWord rangeCheck connect assertOne
  apply intro
  · intro result h
    simp only [holds_bind, holds_constrain, holds_virtual, holds_pure, exists_const, true_and] at h
    obtain ⟨lo, hi, hlo, hhi, hsum, less, hless, hone, hresult⟩ := h
    obtain ⟨_, rfl⟩ := (maxU32_computes hhi less).mp hless
    rw [canonicalCheck_eq hlo hhi, ofBool_eq_one, decide_eq_true_eq] at hone
    have hval : value.val = 2 ^ 32 * hi.val + lo.val := by
      rw [← eq_natCast_iff hone, hsum]
      push_cast
      rw [natCast_val, natCast_val]
    refine ⟨trivial, ?_⟩
    rw [hresult, hval, mul_add_mod, mod_eq_of_lt hlo, natCast_val]
  · intro _
    have hvalue := val_lt_order value
    have hlo := val_lowWord value
    have hhi : ((value.val / 2 ^ 32 : Nat) : Felt).val = value.val / 2 ^ 32 :=
      val_natCast_of_lt (by omega)
    have hlo' := val_lowWord_lt value
    have hhi' : ((value.val / 2 ^ 32 : Nat) : Felt).val < 2 ^ 32 := by omega
    refine ⟨((value.val % 2 ^ 32 : Nat) : Felt), ?_⟩
    simp only [holds_bind, holds_constrain, holds_virtual, holds_pure, exists_const, true_and]
    refine ⟨_, ((value.val / 2 ^ 32 : Nat) : Felt), hlo', hhi', ?_, _,
      (maxU32_computes hhi' _).mpr ⟨trivial, rfl⟩, ?_, rfl⟩
    · rw [← cast_mul, ← cast_add, div_add_mod, natCast_val]
    · rw [canonicalCheck_eq hlo' hhi', ofBool_eq_one, decide_eq_true_eq, hlo, hhi]
      omega

/-! ## §2. One round. -/

variable {index n pivot : Nat}

/-- The flipped index, as the circuit computes it. -/
theorem flip_eq (hpivot : pivot < n) : select (ofBool (decide (n ≤ pivot + n - index)))
        (((pivot + n - index : Nat) : Felt) - (n : Felt)) ((pivot + n - index : Nat) : Felt) =
      (((pivot + n - index) % n : Nat) : Felt) := by
  rw [select_ofBool]
  by_cases hge : n ≤ pivot + n - index
  · rw [if_pos (decide_eq_true hge), ← cast_sub hge]
    rw [mod_eq_sub_mod hge, mod_eq_of_lt (by omega)]
  · rw [if_neg (by simpa using hge), mod_eq_of_lt (by omega)]

theorem digitsAppend_succ {k : Nat} (hn : n < 2 ^ (k + 1)) :
    digitsAppend 2 (k + 1) n = n % 2 :: digitsAppend 2 k (n / 2) := by
  have hhalf : n / 2 < 2 ^ k := by rw [pow_succ'] at hn; omega
  -- both are `k + 1` digits of the same number
  have hleft := (setInvOn_digitsAppend_ofDigits (show 1 < 2 by omega) (k + 1)).1
    (x := n % 2 :: digitsAppend 2 k (n / 2)) ⟨?_, ?_⟩
  · rw [ofDigits_cons, (setInvOn_digitsAppend_ofDigits (by omega) k).2 hhalf] at hleft
    rw [← hleft]
    congr 1
    show n = n % 2 + 2 * (n / 2)
    omega
  · rw [length_cons, length_digitsAppend (by omega) k hhalf]
  · intro d hd
    rcases mem_cons.mp hd with rfl | hd
    · exact mod_lt _ (by omega)
    · exact lt_of_mem_digitsAppend (by omega) k d hd

theorem digitWires_succ {k : Nat} {x : Felt} (hx : x.val < 2 ^ (k + 1)) :
    digitWires 2 (k + 1) x = ofBool (decide (x.val % 2 = 1)) ::
      (digitsAppend 2 k (x.val / 2)).map fun d : Nat => (d : Felt) := by
  unfold digitWires
  rw [digitsAppend_succ hx, map_cons]
  rcases mod_two_eq_zero_or_one x.val with h | h
  · rw [h]; simp
  · rw [h]; simp

/-- The lowest bit of the low word is the lowest bit. -/
theorem lowestBit_lowWord : (digitWires 2 32 ((value.val % 2 ^ 32 : Nat) : Felt)).getD 0 0 =
      ofBool (decide (value.val &&& 1 = 1)) := by
  rw [digitWires_succ (val_lowWord_lt value), getD_cons_zero, val_lowWord]
  congr 1
  rw [decide_eq_decide, and_one_is_mod, mod_mod_of_dvd _ (by norm_num)]

variable (H : AlgebraicHasher)

/-- **ONE ROUND** in the circuit is one round of the native schedule. -/
theorem swapOrNotCircuit_computes (hpos : 0 < n) (hn : n ≤ 256) (seed : HashOut)
    (hindex : index < n) (round : Nat) :
    (swapOrNotCircuit H n seed (index : Felt) round).Computes True
      ((swapOrNot H n seed index round : Nat) : Felt) := by
  unfold swapOrNotCircuit swapOrNot
  dsimp only
  generalize hpivotHash : H.hashNToHashNoPad
    [(PIVOT_DOMAIN : Nat), seed 0, seed 1, seed 2, seed 3, (round : Nat)] = pivotHash
  apply (canonicalGoldilocksWord_computes _).then trivial
  apply (strictDivRemConst_computes hpos (by omega)).then (val_lowWord_lt _)
  rw [val_lowWord]
  generalize hpivot : (pivotHash 0).val % 2 ^ 32 % n = pivot
  have hpivotLt : pivot < n := hpivot ▸ mod_lt _ hpos
  rw [← cast_add, ← cast_sub (by omega)]
  -- both sides of the comparison fit into one bit more than an index
  have hbits := lt_two_pow_nonzeroBitWidth (n - 1)
  have hbitsLe : nonzeroBitWidth (n - 1) ≤ 8 := nonzeroBitWidth_le (by omega) (by omega)
  have hsumVal : ((pivot + n - index : Nat) : Felt).val = pivot + n - index :=
    val_natCast_of_lt (by omega)
  have hnVal : ((n : Nat) : Felt).val = n := val_natCast_of_lt (by omega)
  apply (isGreaterThanOrEqual_computes (by omega) (by omega) (by omega) (by omega)).then trivial
  rw [hsumVal, hnVal, flip_eq hpivotLt]
  generalize hflip : (pivot + n - index) % n = flip
  have hflipLt : flip < n := hflip ▸ mod_lt _ hpos
  have hflipVal : ((flip : Nat) : Felt).val = flip := val_natCast_of_lt (by omega)
  have hindexVal : ((index : Nat) : Felt).val = index := val_natCast_of_lt (by omega)
  apply (rangeCheck_computes _ _).then (by rw [hflipVal]; omega)
  apply (isGreaterThan_computes (nonzeroBitWidth_pos _) (by omega) (by omega) (by omega)).then
    trivial
  rw [hflipVal, hindexVal, select_ofBool]
  have hposition : (if decide (index < flip) = true then ((flip : Nat) : Felt) else
      ((index : Nat) : Felt)) = ((max index flip : Nat) : Felt) := by
    by_cases hlt : index < flip
    · rw [if_pos (decide_eq_true hlt), max_eq_right hlt.le]
    · rw [if_neg (by simpa using hlt), max_eq_left (by omega)]
  rw [hposition]
  apply (canonicalGoldilocksWord_computes _).then trivial
  apply (splitLe_computes (by norm_num)).then (val_lowWord_lt _)
  apply (pure _).congr Iff.rfl
  intro _
  rw [lowestBit_lowWord, select_ofBool]
  split
  next hbit => rw [if_pos (of_decide_eq_true hbit)]
  next hbit => rw [if_neg (by simpa using hbit)]

/-! ## §3. The schedule. -/

theorem swapOrNot_lt (hpos : 0 < n) (seed : HashOut) (hindex : index < n)
    (round : Nat) : swapOrNot H n seed index round < n := by
  unfold swapOrNot
  dsimp only
  split
  next => exact mod_lt _ hpos
  next => exact hindex

/-- **ALL ROUNDS**: the shuffled index stays an index. -/
theorem rounds_computes (hpos : 0 < n) (hn : n ≤ 256) (seed : HashOut)
    (rounds : List Nat) : (rounds.foldlM (swapOrNotCircuit H n seed) 0).Computes True
        ((rounds.foldl (swapOrNot H n seed) 0 : Nat) : Felt) ∧
      rounds.foldl (swapOrNot H n seed) 0 < n := by
  have hloop := foldlM (swapOrNotCircuit H n seed) (swapOrNot H n seed)
    (fun index : Nat => (index : Felt)) (fun index => index < n) rounds
    (fun index round _ hindex => ⟨swapOrNotCircuit_computes H hpos hn seed hindex round,
      swapOrNot_lt H hpos seed hindex round⟩) 0 hpos
  exact hloop

/-- The running sum over entries of which at most one is selected. -/
theorem selectInArray_go (index : Nat) (hindex : index < 18446744069414584321) (array : List Felt)
    (start : Nat) (sum : Felt) (hlen : start + array.length ≤ 18446744069414584321) :
    (array.zipIdx start).foldl
        (fun sum entry => entry.1 * isEqual (index : Felt) (entry.2 : Nat) + sum) sum =
      (if start ≤ index then array.getD (index - start) 0 else 0) + sum := by
  induction array generalizing start sum with
  | nil =>
    simp
  | cons value array ih =>
    rw [length_cons] at hlen
    rw [zipIdx_cons, foldl_cons, ih (start + 1) _ (by omega)]
    unfold isEqual
    rw [decide_eq_decide.mpr (natCast_inj hindex (by omega))]
    rcases Nat.lt_trichotomy index start with hlt | heq | hgt
    · rw [if_neg (by omega), if_neg (by omega), decide_eq_false (by omega)]
      simp
    · subst heq
      simp
    · obtain ⟨m, rfl⟩ : ∃ m, index = start + 1 + m := ⟨index - (start + 1), by omega⟩
      rw [if_pos (by omega), if_pos (by omega), decide_eq_false (by omega),
        show start + 1 + m - (start + 1) = m by omega, show start + 1 + m - start = m + 1 by omega,
        getD_cons_succ]
      simp

variable {ids : List Nat}

theorem selectInArray_eq (hlen : ids.length ≤ 256) (hindex : index < ids.length) :
    selectInArray (ids.map fun id : Nat => (id : Felt)) (index : Felt) =
      ((ids.getD index 0 : Nat) : Felt) := by
  unfold selectInArray
  rw [selectInArray_go index (by omega) _ 0 0 (by rw [length_map]; omega),
    if_pos (Nat.zero_le _), Nat.sub_zero, add_zero]
  have h := getD_map (n := index) ids 0 (fun id : Nat => (id : Felt))
  exact h

/-- The schedule of a seed. -/
theorem expectedSubId_computes (hpos : 0 < ids.length) (hlen : ids.length ≤ 256)
    (realmId epochLo epochHi : Felt) (anchorSeed : HashOut) :
    (expectedSubId H realmId epochLo epochHi anchorSeed ids).Computes True
      ((ids.getD ((range 90).foldl (swapOrNot H ids.length (H.hashNToHashNoPad
        [(SCHEDULE_DOMAIN : Nat), realmId, epochLo, epochHi, anchorSeed 0, anchorSeed 1,
          anchorSeed 2, anchorSeed 3])) 0) 0 : Nat) : Felt) := by
  obtain ⟨hrounds, hindex⟩ := rounds_computes H hpos hlen (H.hashNToHashNoPad
    [(SCHEDULE_DOMAIN : Nat), realmId, epochLo, epochHi, anchorSeed 0, anchorSeed 1,
      anchorSeed 2, anchorSeed 3]) (range 90)
  apply hrounds.then trivial
  apply (pure _).congr Iff.rfl
  intro _
  exact selectInArray_eq hlen hindex

/-! ## §4. The anchor. -/

theorem length_digitWires {x : Felt} (hx : x.val < 2 ^ 32) : (digitWires 2 32 x).length = 32 := by
  unfold digitWires
  rw [length_map, length_digitsAppend (by omega) 32 hx]

theorem leSum_digitWires {x : Felt} (hx : x.val < 2 ^ 32) :
    leSum ((digitWires 2 32 x).take (min 32 (digitWires 2 32 x).length)) = x := by
  have hlen := length_digitWires hx
  have hsum := reduceWithPowers_digitWires (show 1 < 2 by omega) hx
  rw [hlen, min_self, take_of_length_le hlen.le]
  exact hsum

/-- The anchor: the checkpoint before the epoch, and the first one for the first epoch. -/
theorem anchor_eq {epoch period : Nat} (hpos : 0 < period) (hepoch : epoch < 18446744069414584321) :
    select (isEqual (epoch : Felt) 0) 0 ((period : Felt) * (epoch : Felt) - 1) =
      ((anchorCheckpointId epoch period : Nat) : Felt) := by
  unfold anchorCheckpointId
  rw [isEqual_eq, val_natCast_of_lt hepoch, ZMod.val_zero, select_ofBool]
  by_cases hzero : epoch = 0
  · rw [if_pos (decide_eq_true hzero), hzero, Nat.zero_mul, cast_zero]
  · have hge : 1 ≤ epoch * period := Nat.mul_pos (by omega) hpos
    rw [if_neg (by simpa using hzero), cast_sub hge, cast_mul, cast_one, mul_comm]

theorem epochAnchor_computes (checkpointId : Felt) {period : Nat} (hpos : 0 < period)
    (hperiod : period < 2 ^ 32) :
    (epochAnchor checkpointId period 32).Computes ((checkpointId + 1).val < 2 ^ 32)
      (((epoch (checkpointId + 1).val period : Nat) : Felt), 0,
        ((anchorCheckpointId (epoch (checkpointId + 1).val period) period : Nat) : Felt)) := by
  refine congr (bind (q := True) (rangeCheck_computes _ _) ?_) (by rw [and_true])
    (fun _ => rfl)
  intro htarget
  apply (strictDivRemConst_computes hpos hperiod).then htarget
  have hle : (checkpointId + 1).val / period ≤ (checkpointId + 1).val := Nat.div_le_self _ _
  have hmul : (checkpointId + 1).val / period * period ≤ (checkpointId + 1).val :=
    div_mul_le_self _ _
  unfold epoch
  dsimp only
  generalize (checkpointId + 1).val / period = e at hle hmul ⊢
  have hval : ((e : Nat) : Felt).val = e := val_natCast_of_lt (by omega)
  have hfits : ((e : Nat) : Felt).val < 2 ^ 32 := by omega
  have hanchor : ((anchorCheckpointId e period : Nat) : Felt).val < 2 ^ 32 := by
    unfold anchorCheckpointId
    rw [val_natCast_of_lt (by omega)]
    omega
  rw [anchor_eq hpos (by omega)]
  apply (splitLe_computes (by norm_num)).then hfits
  apply (rangeCheck_computes _ _).then hanchor
  apply (pure _).congr Iff.rfl
  intro _
  rw [leSum_digitWires hfits, length_digitWires hfits, if_neg (by omega)]

/-- Every round of the climb takes one bit of the index. -/
theorem computeRootBits_eq (siblings : List HashOut) (value : HashOut) (n : Nat)
    (hn : n < 2 ^ siblings.length) :
    computeRootBits H ((digitsAppend 2 siblings.length n).map fun d : Nat => (d : Felt)) value
      siblings = Merkle.climb H.twoToOne value n siblings := by
  induction siblings generalizing value n with
  | nil => simp [computeRootBits, Merkle.climb]
  | cons sibling siblings ih =>
    rw [length_cons] at hn
    have hhalf : n / 2 < 2 ^ siblings.length := by rw [pow_succ'] at hn; omega
    rw [length_cons, digitsAppend_succ hn, map_cons]
    show computeRootBits H _ (twoToOneSwapped H value sibling ((n % 2 : Nat) : Felt)) siblings = _
    rw [ih _ _ hhalf, Merkle.climb]
    unfold twoToOneSwapped
    rcases mod_two_eq_zero_or_one n with h | h
    · rw [h, if_pos rfl, cast_zero]
      simp only [← ofBool_false, select_ofBool]
      rfl
    · rw [h, if_neg (by omega), cast_one]
      simp only [← ofBool_true, select_ofBool]
      rfl

/-- The leaf is at the index of the checkpoint tree with the root. -/
def AnchoredAt (root : HashOut) (leaf : QEDCheckpointLeafGadget) (index : Nat) : Prop :=
  ∃ siblings : List HashOut, siblings.length = 32 ∧
    Merkle.climb H.twoToOne (leaf.toHash H) index siblings = root

theorem anchorLeaf_iff (hindex : index < 2 ^ 32) (root : HashOut) (leaf : QEDCheckpointLeafGadget) :
    (∃ proof, (anchorLeaf H (index : Felt) 32 root).Holds (leaf, proof)) ↔
      AnchoredAt H root leaf index := by
  have hval : ((index : Nat) : Felt).val = index := val_natCast_of_lt (by omega)
  have hfits : ((index : Nat) : Felt).val < 2 ^ 32 := by omega
  have hpow : (2 : Nat) ^ 32 ≤ 18446744069414584321 := by norm_num
  have hroot : ∀ siblings : List HashOut, siblings.length = 32 →
      computeRootBits H (digitWires 2 32 ((index : Nat) : Felt)) (leaf.toHash H) siblings =
        Merkle.climb H.twoToOne (leaf.toHash H) index siblings := by
    intro siblings hlen
    unfold digitWires
    rw [hval, ← hlen]
    exact computeRootBits_eq H siblings _ index (by rw [hlen]; exact hindex)
  unfold anchorLeaf MerkleProofGadget.addVirtualTo rangeCheck connect
  simp only [holds_bind, holds_constrain, holds_virtual, holds_pure, exists_const, true_and]
  constructor
  · intro h
    obtain ⟨proof, leaf', proof', ⟨index', value, siblings, hlen, _, bits, hbits, rfl⟩, hindex',
      hvalue, hclimb, heq⟩ := h
    cases heq
    subst hindex' hvalue
    obtain ⟨_, rfl⟩ := (splitLe_computes hpow bits).mp hbits
    exact ⟨siblings, hlen, (hroot siblings hlen).symm.trans hclimb⟩
  · intro h
    obtain ⟨siblings, hlen, hclimb⟩ := h
    refine ⟨_, leaf, _, ⟨(index : Felt), leaf.toHash H, siblings, hlen, hfits,
      digitWires 2 32 ((index : Nat) : Felt), (splitLe_computes hpow _).mpr ⟨hfits, rfl⟩, rfl⟩,
      rfl, rfl, ?_, rfl⟩
    exact (hroot siblings hlen).trans hclimb

/-! ## §5. Circuit and schedule. -/

/-- The native schedule, once its checks have passed. -/
theorem proposerSubId_eq {config : RealmRotationConfig} (hperiod : 0 < config.checkpointsPerEpoch)
    (hids : 0 < config.validatorSubIds.length) (realmId : Felt) {checkpointId : Nat}
    (hcheckpoint : checkpointId < 2 ^ 32) (seed : HashOut) :
    config.proposerSubId H realmId.val checkpointId (fun i => (seed i).val) =
      .ok (some (config.validatorSubIds.getD ((range 90).foldl
        (swapOrNot H config.validatorSubIds.length (H.hashNToHashNoPad
          [(SCHEDULE_DOMAIN : Nat), realmId,
            ((epoch checkpointId config.checkpointsPerEpoch : Nat) : Felt), 0,
            seed 0, seed 1, seed 2, seed 3])) 0) 0)) := by
  have hle : epoch checkpointId config.checkpointsPerEpoch ≤ checkpointId := Nat.div_le_self _ _
  have henabled : config.isEnabled = true := by
    unfold RealmRotationConfig.isEnabled
    rw [Bool.and_eq_true, decide_eq_true_eq, Bool.not_eq_true', isEmpty_eq_false_iff]
    exact ⟨hperiod, ne_nil_of_length_pos hids⟩
  have hcanonical : ∀ i, (seed i).val < GOLDILOCKS_FIELD_ORDER := fun i => ZMod.val_lt (seed i)
  have hlow : epoch checkpointId config.checkpointsPerEpoch &&& 0xffffffff =
      epoch checkpointId config.checkpointsPerEpoch := by
    rw [show (0xffffffff : Nat) = 2 ^ 32 - 1 by norm_num, and_two_pow_sub_one_eq_mod,
      mod_eq_of_lt (by omega)]
  have hhigh : epoch checkpointId config.checkpointsPerEpoch >>> 32 = 0 := by
    rw [shiftRight_eq_div_pow, div_eq_of_lt (by omega)]
  unfold RealmRotationConfig.proposerSubId
  rw [henabled, if_neg (by simp), if_neg (by rw [not_not]; exact hcanonical)]
  dsimp only
  rw [hlow, hhigh, cast_zero]
  simp only [natCast_val]

/-- **THE CIRCUIT ACCEPTS EXACTLY THE SCHEDULED PROPOSER.**  The target is the sum in the field; for
a checkpoint id of the tree, which the finalize circuit range-checks, it is the next id. -/
theorem enforce_rotation_iff (H : AlgebraicHasher) (config : RealmRotationConfig)
    (hpos : 0 < config.checkpointsPerEpoch) (hperiod : config.checkpointsPerEpoch < 2 ^ 32)
    (hsome : 0 < config.validatorSubIds.length) (hlen : config.validatorSubIds.length ≤ 256)
    (hids : ∀ id ∈ config.validatorSubIds, id < 256) (checkpointId realmId realmSubId : Felt)
    (leaf : QEDCheckpointLeafGadget) (root : HashOut) :
    (∃ proof, (enforceRotation H checkpointId realmId realmSubId config.checkpointsPerEpoch
        config.validatorSubIds 32 root).Holds (leaf, proof)) ↔
      (checkpointId + 1).val < 2 ^ 32 ∧
        AnchoredAt H root leaf (anchorCheckpointId
          (epoch (checkpointId + 1).val config.checkpointsPerEpoch) config.checkpointsPerEpoch) ∧
        ∃ id, config.proposerSubId H realmId.val (checkpointId + 1).val
          (fun i => (leaf.stats.randomSeed i).val) = .ok (some id) ∧ realmSubId.val = id := by
  unfold enforceRotation
  simp only [(epochAnchor_computes checkpointId hpos hperiod).holds_bind]
  rw [exists_and_left]
  apply and_congr_right
  intro htarget
  have hmul : epoch (checkpointId + 1).val config.checkpointsPerEpoch *
      config.checkpointsPerEpoch ≤ (checkpointId + 1).val := div_mul_le_self _ _
  have hanchor : anchorCheckpointId (epoch (checkpointId + 1).val config.checkpointsPerEpoch)
      config.checkpointsPerEpoch < 2 ^ 32 := by
    unfold anchorCheckpointId
    omega
  rw [← anchorLeaf_iff H hanchor root leaf, proposerSubId_eq H hpos hsome realmId htarget]
  have hid : ∀ index, config.validatorSubIds.getD index 0 < 18446744069414584321 := by
    intro index
    rcases Nat.lt_or_ge index config.validatorSubIds.length with hlt | hge
    · rw [getD_eq_getElem _ _ hlt]
      have h := hids _ (getElem_mem hlt)
      omega
    · rw [getD_eq_default _ _ hge]
      omega
  simp only [holds_bind, (expectedSubId_computes H hsome hlen _ _ _ _).holds_bind,
    (connect_computes _ _).holds_bind, holds_pure, true_and, Except.ok.injEq, Option.some.injEq,
    exists_eq_left', eq_natCast_iff (hid _)]
  constructor
  · intro h
    obtain ⟨proof, anchored, hanchored, hsub, rfl⟩ := h
    exact ⟨⟨proof, hanchored⟩, hsub⟩
  · intro h
    obtain ⟨⟨proof, hanchored⟩, hsub⟩ := h
    exact ⟨proof, (leaf, proof), hanchored, hsub, rfl⟩

/-- A hasher that mixes its inputs in the field. -/
def mixHasher : AlgebraicHasher :=
  ⟨fun inputs i => inputs.foldl (fun mixed x => 5 * mixed * mixed + x) ((i.val + 3 : Nat) : Felt),
    fun left right i => 3 * left i + 7 * right i⟩

/-- A checkpoint leaf with different statistics. -/
def mixLeaf : QEDCheckpointLeafGadget :=
  ⟨fun i => (i.val : Nat), ⟨(1 : Nat), (2 : Nat), (3 : Nat), (4 : Nat), (5 : Nat),
    ⟨(6 : Nat), (7 : Nat), (8 : Nat)⟩, (9 : Nat), fun i => (10 + i.val : Nat),
    ⟨fun i => (20 + i.val : Nat)⟩, fun i => (i.val : Nat)⟩⟩

/-- The siblings on the way from that leaf to the root. -/
def mixSiblings : List HashOut := (range 32).map fun n i => ((n + i.val : Nat) : Felt)

/-- Three validators, for the checkpoint after checkpoint 4, with the anchor at checkpoint 2: the
shuffle leads to the last validator, and the circuit refuses the second one. -/
theorem enforce_rotation_iff_three :
    let root := Merkle.climb mixHasher.twoToOne (mixLeaf.toHash mixHasher) 2 mixSiblings
    (∃ proof, (enforceRotation mixHasher ((4 : Nat) : Felt) ((2 : Nat) : Felt) ((4 : Nat) : Felt)
      3 [7, 9, 4] 32 root).Holds (mixLeaf, proof)) ∧
    ¬ ∃ proof, (enforceRotation mixHasher ((4 : Nat) : Felt) ((2 : Nat) : Felt) ((9 : Nat) : Felt)
      3 [7, 9, 4] 32 root).Holds (mixLeaf, proof) := by
  intro root
  have htarget : (((4 : Nat) : Felt) + 1).val = 5 := by decide +kernel
  have hproposer : RealmRotationConfig.proposerSubId mixHasher ⟨3, [7, 9, 4]⟩
      ((2 : Nat) : Felt).val (((4 : Nat) : Felt) + 1).val
      (fun i => (mixLeaf.stats.randomSeed i).val) = .ok (some 4) := by decide +kernel
  have hiff (subId : Felt) := enforce_rotation_iff mixHasher ⟨3, [7, 9, 4]⟩ (by decide) (by decide)
    (by decide) (by decide) (by decide) ((4 : Nat) : Felt) ((2 : Nat) : Felt) subId mixLeaf root
  constructor
  · refine (hiff _).mpr ⟨by omega, ⟨mixSiblings, rfl, ?_⟩, 4, hproposer, by decide +kernel⟩
    rw [htarget]
    rfl
  · intro h
    obtain ⟨-, -, id, hid, hsub⟩ := (hiff _).mp h
    rw [hproposer] at hid
    cases hid
    exact absurd hsub (by decide +kernel)

end PsyNode.Circuit
