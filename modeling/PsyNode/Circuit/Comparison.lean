/-
PsyNode.Circuit.Comparison
**COMPARING TARGETS** (`u32/gates/comparison.rs`, `u32/gadgets/multiple_comparison.rs`,
`builder/comparison.rs`).

The comparison gate splits both inputs into chunks and carries the difference of the
most significant chunks that differ.  The chunks are range-checked in the gate, so it
also bounds its inputs, by the width of all chunks together.
-/
import PsyNode.Circuit.Builder

namespace PsyNode.Circuit

open Nat hiding mul_eq_zero
open Lib.Circuit Lib List

/-! ## §1. The gate. -/

def ceilDivUsize (a b : Nat) : Nat := (a + b - 1) / b

/-- The wires of a chunk. -/
structure ChunkWires where
  first : Felt
  second : Felt
  equalityDummy : Felt
  chunksEqual : Felt
  intermediateValue : Felt

/-- The polynomial that vanishes at the chunk values. -/
def chunkProduct (chunkSize : Nat) (chunk : Felt) : Felt :=
  ((List.range chunkSize).map fun x : Nat => chunk - (x : Felt)).prod

/-- One round of the loop over the chunks, least significant first. -/
def chunkStep (chunkSize : Nat) (mostSignificantDiffSoFar : Felt) (wires : ChunkWires) :
    Circuit Felt := do
  constrain (chunkProduct chunkSize wires.first = 0)
  constrain (chunkProduct chunkSize wires.second = 0)
  let difference := wires.second - wires.first
  constrain (difference * wires.equalityDummy - (1 - wires.chunksEqual) = 0)
  constrain (wires.chunksEqual * difference = 0)
  constrain (wires.intermediateValue - wires.chunksEqual * mostSignificantDiffSoFar = 0)
  return wires.intermediateValue + (1 - wires.chunksEqual) * difference

/-- `ComparisonGate::eval_unfiltered`: the wire `result_bool`. -/
def comparisonGate (numBits numChunks : Nat) (firstInput secondInput : Felt) :
    Circuit BoolTarget := do
  let chunkBits := ceilDivUsize numBits numChunks
  let chunks : List ChunkWires ← virtual
  constrain (chunks.length = numChunks)
  constrain
    (reduceWithPowers ((2 ^ chunkBits : Nat) : Felt) (chunks.map (·.first)) - firstInput = 0)
  constrain
    (reduceWithPowers ((2 ^ chunkBits : Nat) : Felt) (chunks.map (·.second)) - secondInput = 0)
  let mostSignificantDiff ← chunks.foldlM (chunkStep (2 ^ chunkBits)) 0
  let bits : List Felt ← virtual
  constrain (bits.length = chunkBits + 1)
  constrain (∀ bit ∈ bits, bit * (1 - bit) = 0)
  constrain (((2 ^ chunkBits : Nat) : Felt) + mostSignificantDiff - leSum bits = 0)
  return bits.getD chunkBits 0

/-- `list_lte_circuit` of one pair of targets. -/
def listLteCircuit (a b : Felt) (numBits : Nat) : Circuit BoolTarget := do
  let numChunks := ceilDivUsize numBits 2
  let aLeB ← comparisonGate numBits numChunks a b
  let bLeA ← comparisonGate numBits numChunks b a
  let theseLimbsEqual := aLeB * bLeA
  let theseLimbsLessThan := 1 - bLeA
  return theseLimbsEqual * 1 + theseLimbsLessThan

/-! ## §2. The builder's comparisons, of at most 32 bits. -/

variable (numBits : Nat)

/-- `is_less_than_or_equal`; for at most 32 bits `is_less_than_or_equal_split` is one call of
`list_lte_circuit`. -/
def isLessThanOrEqual (x y : Felt) : Circuit BoolTarget := listLteCircuit x y numBits

def isLessThan (x y : Felt) : Circuit BoolTarget := do
  let isLte ← isLessThanOrEqual numBits x y
  return andTarget isLte (notTarget (isEqual x y))

def isGreaterThan (x y : Felt) : Circuit BoolTarget := do
  let isLte ← isLessThanOrEqual numBits x y
  return notTarget isLte

def isGreaterThanOrEqual (x y : Felt) : Circuit BoolTarget := do
  let isGt ← isGreaterThan numBits x y
  return orTarget isGt (isEqual x y)

/-! ## §3. One chunk. -/

variable {chunkSize : Nat}

theorem chunkProduct_eq_zero {chunk : Felt} :
    chunkProduct chunkSize chunk = 0 ↔ ∃ d < chunkSize, chunk = ((d : Nat) : Felt) := by
  unfold chunkProduct
  rw [prod_eq_zero_iff, mem_map]
  simp only [mem_range, sub_eq_zero]

/-- The carried difference after a chunk. -/
def nextDiff (diff : Int) (d e : Nat) : Int := if d = e then diff else (e : Int) - d

/-- The carried difference after all chunks. -/
def chunkDiff : Int → List (Nat × Nat) → Int
  | diff, [] => diff
  | diff, (d, e) :: chunks => chunkDiff (nextDiff diff d e) chunks

theorem chunkDiff_cons (diff : Int) (d e : Nat) (pairs : List (Nat × Nat)) :
    chunkDiff diff ((d, e) :: pairs) = chunkDiff (nextDiff diff d e) pairs := rfl

/-- Chunks of two numbers. -/
def Chunked (base : Nat) (pairs : List (Nat × Nat)) : Prop :=
  ∀ pair ∈ pairs, pair.1 < base ∧ pair.2 < base

variable {diff : Int} {pairs : List (Nat × Nat)}

section
variable (hsize : chunkSize ≤ 18446744069414584321)
include hsize

theorem chunk_sub_ne_zero {d e : Nat} (hd : d < chunkSize) (he : e < chunkSize) (hde : d ≠ e) :
    (e : Felt) - (d : Felt) ≠ 0 := by
  rw [Ne, sub_eq_zero, natCast_inj (by omega) (by omega)]
  exact fun heq => hde heq.symm

/-- What the constraints of a chunk say of its wires. -/
theorem chunkStep_sound {wires : ChunkWires} {r : Felt}
    (h : (chunkStep chunkSize (diff : Felt) wires).Holds r) :
    ∃ d e : Nat, d < chunkSize ∧ e < chunkSize ∧ wires.first = (d : Felt) ∧
      wires.second = (e : Felt) ∧ r = ((nextDiff diff d e : Int) : Felt) := by
  unfold chunkStep at h
  simp only [holds_bind, holds_constrain, holds_pure, exists_const] at h
  obtain ⟨hfirst, hsecond, hdummy, hequal, hinter, rfl⟩ := h
  obtain ⟨d, hd, hd'⟩ := chunkProduct_eq_zero.mp hfirst
  obtain ⟨e, he, he'⟩ := chunkProduct_eq_zero.mp hsecond
  refine ⟨d, e, hd, he, hd', he', ?_⟩
  have hinter' := sub_eq_zero.mp hinter
  unfold nextDiff
  rw [hd', he'] at hdummy hequal ⊢
  by_cases hde : d = e
  · -- equal chunks: the wire `chunks_equal` is 1, the difference so far is kept
    subst hde
    rw [sub_self, zero_mul, zero_sub, neg_eq_zero, sub_eq_zero] at hdummy
    rw [if_pos rfl, hinter', ← hdummy]
    ring
  · -- different chunks: `chunks_equal` is 0
    have hzero : wires.chunksEqual = 0 :=
      (mul_eq_zero.mp hequal).resolve_right (chunk_sub_ne_zero hsize hd he hde)
    rw [if_neg hde, hinter', hzero]
    push_cast
    ring

/-- Wires for a chunk. -/
theorem chunkStep_complete {d e : Nat} (hd : d < chunkSize) (he : e < chunkSize) (diff : Int) :
    ∃ wires : ChunkWires, wires.first = (d : Felt) ∧ wires.second = (e : Felt) ∧
      (chunkStep chunkSize (diff : Felt) wires).Holds ((nextDiff diff d e : Int) : Felt) := by
  have hfirst : chunkProduct chunkSize (d : Felt) = 0 := chunkProduct_eq_zero.mpr ⟨d, hd, rfl⟩
  have hsecond : chunkProduct chunkSize (e : Felt) = 0 := chunkProduct_eq_zero.mpr ⟨e, he, rfl⟩
  by_cases hde : d = e
  · subst hde
    refine ⟨⟨d, d, 0, 1, diff⟩, rfl, rfl, ?_⟩
    unfold chunkStep nextDiff
    simp [hfirst]
  · have hne := chunk_sub_ne_zero hsize hd he hde
    refine ⟨⟨d, e, ((e : Felt) - d)⁻¹, 0, 0⟩, rfl, rfl, ?_⟩
    unfold chunkStep nextDiff
    simp [hfirst, hsecond, hde, mul_inv_cancel₀ hne]

/-! ## §4. All chunks. -/

theorem chunks_sound (chunks : List ChunkWires) {diff : Int} {r : Felt}
    (h : (chunks.foldlM (chunkStep chunkSize) (diff : Felt)).Holds r) :
    ∃ pairs, Chunked chunkSize pairs ∧
      chunks.map (·.first) = (pairs.map (·.1)).map (fun d : Nat => (d : Felt)) ∧
      chunks.map (·.second) = (pairs.map (·.2)).map (fun d : Nat => (d : Felt)) ∧
      r = ((chunkDiff diff pairs : Int) : Felt) := by
  induction chunks generalizing diff r with
  | nil =>
    exact ⟨[], by simp [Chunked], rfl, rfl, h⟩
  | cons wires chunks ih =>
    obtain ⟨soFar, hone, hrest⟩ := h
    obtain ⟨d, e, hd, he, hfirst, hsecond, rfl⟩ := chunkStep_sound hsize hone
    obtain ⟨pairs, hpairs, hfirsts, hseconds, rfl⟩ := ih hrest
    refine ⟨(d, e) :: pairs, forall_mem_cons.mpr ⟨⟨hd, he⟩, hpairs⟩, ?_, ?_, rfl⟩
    · simp only [map_cons, hfirst, hfirsts]
    · simp only [map_cons, hsecond, hseconds]

theorem chunks_complete (hpairs : Chunked chunkSize pairs) (diff : Int) :
    ∃ chunks : List ChunkWires,
      chunks.map (·.first) = (pairs.map (·.1)).map (fun d : Nat => (d : Felt)) ∧
        chunks.map (·.second) = (pairs.map (·.2)).map (fun d : Nat => (d : Felt)) ∧
        (chunks.foldlM (chunkStep chunkSize) (diff : Felt)).Holds
          ((chunkDiff diff pairs : Int) : Felt) := by
  induction pairs generalizing diff with
  | nil => exact ⟨[], rfl, rfl, rfl⟩
  | cons pair pairs ih =>
    obtain ⟨d, e⟩ := pair
    obtain ⟨⟨hd, he⟩, hrest⟩ := forall_mem_cons.mp hpairs
    obtain ⟨wires, hfirst, hsecond, hone⟩ := chunkStep_complete hsize hd he diff
    obtain ⟨chunks, hfirsts, hseconds, hchunks⟩ := ih hrest (nextDiff diff d e)
    refine ⟨wires :: chunks, ?_, ?_, ?_⟩
    · simp only [map_cons, hfirst, hfirsts]
    · simp only [map_cons, hsecond, hseconds]
    · exact ⟨_, hone, hchunks⟩

end

theorem chunkDiff_bound {diff : Int} (hpairs : Chunked chunkSize pairs) (hlow : -chunkSize < diff)
    (hhigh : diff < chunkSize) :
    -(chunkSize : Int) < chunkDiff diff pairs ∧ chunkDiff diff pairs < chunkSize := by
  induction pairs generalizing diff with
  | nil => exact ⟨hlow, hhigh⟩
  | cons pair pairs ih =>
    obtain ⟨⟨hd, he⟩, hrest⟩ := forall_mem_cons.mp hpairs
    rw [chunkDiff_cons]
    unfold nextDiff
    split
    next => exact ih hrest hlow hhigh
    next => exact ih hrest (by omega) (by omega)

/-- Numbers with the same last digit position are compared by their higher digits first. -/
theorem digits_lt_iff {base d e m n : Nat} (hd : d < base) (he : e < base) :
    d + base * m < e + base * n ↔ m < n ∨ (m = n ∧ d < e) := by
  rcases Nat.lt_trichotomy m n with hlt | heq | hgt
  · have hstep : base * (m + 1) ≤ base * n := Nat.mul_le_mul_left base hlt
    rw [mul_succ] at hstep
    omega
  · subst heq
    omega
  · have hstep : base * (n + 1) ≤ base * m := Nat.mul_le_mul_left base hgt
    rw [mul_succ] at hstep
    omega

/-- **THE CARRIED DIFFERENCE IS THE COMPARISON** of the numbers: of the chunks that differ the most
significant one decides, and the difference before the chunks if none does. -/
theorem chunkDiff_nonneg {base : Nat} {diff : Int} (hpairs : Chunked base pairs) :
    (0 ≤ chunkDiff diff pairs ↔
      ofDigits base (pairs.map (·.1)) < ofDigits base (pairs.map (·.2)) ∨
        (ofDigits base (pairs.map (·.1)) = ofDigits base (pairs.map (·.2)) ∧
          0 ≤ diff)) := by
  induction pairs generalizing diff with
  | nil =>
    show 0 ≤ diff ↔ (0 < 0 ∨ (0 = 0 ∧ 0 ≤ diff))
    omega
  | cons pair pairs ih =>
    obtain ⟨d, e⟩ := pair
    obtain ⟨⟨hd, he⟩, hrest⟩ := forall_mem_cons.mp hpairs
    rw [chunkDiff_cons, ih hrest]
    show _ ↔ d + base * _ < e + base * _ ∨ (d + base * _ = e + base * _ ∧ _)
    rw [digits_lt_iff hd he]
    have heq : d + base * ofDigits base (pairs.map (·.1)) =
        e + base * ofDigits base (pairs.map (·.2)) ↔
        ofDigits base (pairs.map (·.1)) = ofDigits base (pairs.map (·.2)) ∧ d = e := by
      have hlt := digits_lt_iff (m := ofDigits base (pairs.map (·.1)))
        (n := ofDigits base (pairs.map (·.2))) hd he
      have hgt := digits_lt_iff (m := ofDigits base (pairs.map (·.2)))
        (n := ofDigits base (pairs.map (·.1))) he hd
      omega
    unfold nextDiff
    split
    next => omega
    next => omega

/-! ## §5. The gate. -/

variable {k : Nat}

/-- The top one of `k + 1` bits. -/
theorem ofDigits_div_top {ds : List Nat} (hlen : ds.length = k + 1) (hds : ∀ d ∈ ds, d < 2) :
    ofDigits 2 ds / 2 ^ k = ds.getD k 0 := by
  induction k generalizing ds with
  | zero =>
    obtain ⟨d, rfl⟩ := length_eq_one_iff.mp hlen
    simp
  | succ k ih =>
    cases ds with
    | nil => simp at hlen
    | cons d ds =>
      obtain ⟨hd, hrest⟩ := forall_mem_cons.mp hds
      rw [length_cons] at hlen
      have hhalf : ofDigits 2 (d :: ds) / 2 = ofDigits 2 ds := by
        show (d + 2 * _) / 2 = _
        omega
      rw [pow_succ', ← Nat.div_div_eq_div_mul, hhalf, ih (by omega) hrest]
      rfl

theorem mul_one_sub_eq_zero {bit : Felt} : bit * (1 - bit) = 0 ↔ bit = 0 ∨ bit = 1 := by
  rw [mul_eq_zero, sub_eq_zero, eq_comm (a := (1 : Felt))]

/-- The bits of `2 ^ k + diff`, of which the top one is the sign. -/
theorem topBit_sound (hk : 2 ^ (k + 1) ≤ 18446744069414584321)
    (hlow : -((2 ^ k : Nat) : Int) < diff) (hhigh : diff < ((2 ^ k : Nat) : Int)) {bits : List Felt}
    (hlen : bits.length = k + 1) (hbits : ∀ bit ∈ bits, bit * (1 - bit) = 0)
    (hsum : ((2 ^ k : Nat) : Felt) + (diff : Felt) - leSum bits = 0) :
    bits.getD k 0 = ofBool (decide (0 ≤ diff)) := by
  obtain ⟨ds, rfl, hds⟩ := exists_digits
    (fun bit hbit => boolean_iff.mp (mul_one_sub_eq_zero.mp (hbits bit hbit)))
  rw [length_map] at hlen
  obtain ⟨m, hm⟩ := Int.eq_ofNat_of_zero_le (show 0 ≤ ((2 ^ k : Nat) : Int) + diff by omega)
  have hcast : ((2 ^ k : Nat) : Felt) + (diff : Felt) = ((m : Nat) : Felt) := by
    have := congrArg (fun z : Int => (z : Felt)) hm
    push_cast at this ⊢
    exact this
  -- the digits are those of the number `2 ^ k + diff`
  unfold leSum at hsum
  have hpowers := reduceWithPowers_natCast 2 ds
  rw [cast_ofNat] at hpowers
  rw [sub_eq_zero, hcast, hpowers] at hsum
  have hlt : ofDigits 2 ds < 2 ^ (k + 1) := hlen ▸ ofDigits_lt_base_pow_length (by omega) hds
  have hmeq : m = ofDigits 2 ds := (natCast_inj (by omega) (by omega)).mp hsum
  have htop := ofDigits_div_top hlen hds
  have hget : (ds.map fun d : Nat => (d : Felt)).getD k 0 = ((ds.getD k 0 : Nat) : Felt) := by
    have h := getD_map (n := k) ds 0 (fun d : Nat => (d : Felt))
    exact h
  rw [hget, ← htop, ← hmeq]
  by_cases hsign : 0 ≤ diff
  · have hdiv : m / 2 ^ k = 1 := Nat.div_eq_of_lt_le (by omega) (by omega)
    rw [hdiv, decide_eq_true hsign, cast_one]
    rfl
  · have hdiv : m / 2 ^ k = 0 := div_eq_of_lt (by omega)
    rw [hdiv, decide_eq_false hsign, cast_zero]
    rfl

/-- Wires for these bits. -/
theorem topBit_complete
    (hlow : -((2 ^ k : Nat) : Int) < diff) (hhigh : diff < ((2 ^ k : Nat) : Int)) :
    ∃ bits : List Felt, bits.length = k + 1 ∧ (∀ bit ∈ bits, bit * (1 - bit) = 0) ∧
      ((2 ^ k : Nat) : Felt) + (diff : Felt) - leSum bits = 0 := by
  obtain ⟨m, hm⟩ := Int.eq_ofNat_of_zero_le (show 0 ≤ ((2 ^ k : Nat) : Int) + diff by omega)
  have hlt : m < 2 ^ (k + 1) := by omega
  refine ⟨(digitsAppend 2 (k + 1) m).map fun d : Nat => (d : Felt), ?_, ?_, ?_⟩
  · rw [length_map, length_digitsAppend (by omega) _ hlt]
  · intro bit hbit
    obtain ⟨d, hd, rfl⟩ := mem_map.mp hbit
    exact mul_one_sub_eq_zero.mpr (boolean_iff.mpr
      ⟨d, lt_of_mem_digitsAppend (by omega) _ d hd, rfl⟩)
  · unfold leSum
    have hpowers := reduceWithPowers_natCast 2 (digitsAppend 2 (k + 1) m)
    rw [cast_ofNat, (setInvOn_digitsAppend_ofDigits (by omega) _).2 hlt] at hpowers
    have hcast := congrArg (fun z : Int => (z : Felt)) hm
    push_cast at hcast
    rw [hpowers, sub_eq_zero]
    push_cast
    exact hcast

/-- Pairs of digits of two numbers. -/
theorem exists_digit_pairs {base len x y : Nat} (hbase : 1 < base) (hx : x < base ^ len)
    (hy : y < base ^ len) : ∃ pairs : List (Nat × Nat), pairs.length = len ∧ Chunked base pairs ∧
      ofDigits base (pairs.map (·.1)) = x ∧ ofDigits base (pairs.map (·.2)) = y := by
  have hxlen := length_digitsAppend hbase len hx
  have hylen := length_digitsAppend hbase len hy
  refine ⟨(digitsAppend base len x).zip (digitsAppend base len y), ?_, ?_, ?_, ?_⟩
  · rw [length_zip, hxlen, hylen, min_self]
  · intro pair hpair
    obtain ⟨hfst, hsnd⟩ := of_mem_zip hpair
    exact ⟨lt_of_mem_digitsAppend hbase len _ hfst, lt_of_mem_digitsAppend hbase len _ hsnd⟩
  · show ofDigits base (map Prod.fst _) = x
    rw [map_fst_zip (by omega)]
    exact (setInvOn_digitsAppend_ofDigits hbase len).2 hx
  · show ofDigits base (map Prod.snd _) = y
    rw [map_snd_zip (by omega)]
    exact (setInvOn_digitsAppend_ofDigits hbase len).2 hy

/-- **THE COMPARISON GATE** bounds its inputs and compares their representatives. -/
theorem comparisonGate_computes {numBits numChunks : Nat} {x y : Felt}
    (hk : ceilDivUsize numBits numChunks = k) (hpos : 0 < k)
    (hsize : 2 ^ (k + 1) ≤ 18446744069414584321)
    (hfits : (2 ^ k) ^ numChunks ≤ 18446744069414584321) :
    (comparisonGate numBits numChunks x y).Computes
      (x.val < (2 ^ k) ^ numChunks ∧ y.val < (2 ^ k) ^ numChunks)
      (ofBool (decide (x.val ≤ y.val))) := by
  have hbase : 1 < 2 ^ k := Nat.one_lt_two_pow hpos.ne'
  unfold comparisonGate
  rw [hk]
  apply Computes.intro
  · intro r h
    simp only [holds_bind, holds_constrain, holds_virtual, holds_pure, exists_const, true_and] at h
    obtain ⟨chunks, hlen, hfirst, hsecond, diff, hdiff, bits, hbitsLen, hbits, hsum, rfl⟩ := h
    have hstart : (chunks.foldlM (chunkStep (2 ^ k)) ((0 : Int) : Felt)).Holds diff := hdiff
    obtain ⟨pairs, hpairs, hfirsts, hseconds, rfl⟩ := chunks_sound (by omega) chunks hstart
    have hcount : pairs.length = numChunks := by
      have h := congrArg length hfirsts
      simp only [length_map] at h
      omega
    obtain ⟨hlow, hhigh⟩ := chunkDiff_bound hpairs
      (show -((2 ^ k : Nat) : Int) < 0 by omega) (show (0 : Int) < ((2 ^ k : Nat) : Int) by omega)
    have hdigits₁ : ∀ d ∈ pairs.map (·.1), d < 2 ^ k :=
      forall_mem_map.mpr fun pair hpair => (hpairs pair hpair).1
    have hdigits₂ : ∀ d ∈ pairs.map (·.2), d < 2 ^ k :=
      forall_mem_map.mpr fun pair hpair => (hpairs pair hpair).2
    have hx := val_reduceWithPowers hbase hdigits₁ (by rw [length_map, hcount]; exact hfits)
    have hy := val_reduceWithPowers hbase hdigits₂ (by rw [length_map, hcount]; exact hfits)
    rw [← hfirsts, sub_eq_zero.mp hfirst] at hx
    rw [← hseconds, sub_eq_zero.mp hsecond] at hy
    have hltx := ofDigits_lt_base_pow_length hbase hdigits₁
    have hlty := ofDigits_lt_base_pow_length hbase hdigits₂
    rw [length_map, hcount] at hltx hlty
    refine ⟨⟨by omega, by omega⟩, ?_⟩
    rw [topBit_sound hsize hlow hhigh hbitsLen hbits hsum]
    congr 1
    rw [decide_eq_decide, chunkDiff_nonneg hpairs]
    omega
  · intro h
    obtain ⟨pairs, hcount, hpairs, hx, hy⟩ := exists_digit_pairs hbase h.1 h.2
    obtain ⟨chunks, hfirsts, hseconds, hchunks⟩ := chunks_complete (by omega) hpairs 0
    obtain ⟨hlow, hhigh⟩ := chunkDiff_bound hpairs
      (show -((2 ^ k : Nat) : Int) < 0 by omega) (show (0 : Int) < ((2 ^ k : Nat) : Int) by omega)
    obtain ⟨bits, hbitsLen, hbits, hsum⟩ := topBit_complete hlow hhigh
    refine ⟨bits.getD k 0, ?_⟩
    simp only [holds_bind, holds_constrain, holds_virtual, holds_pure, exists_const, true_and]
    refine ⟨chunks, ?_, ?_, ?_, _, hchunks, bits, hbitsLen, hbits, hsum, rfl⟩
    · have h := congrArg length hfirsts
      simp only [length_map] at h
      omega
    · rw [hfirsts, reduceWithPowers_natCast, hx, natCast_val, sub_self]
    · rw [hseconds, reduceWithPowers_natCast, hy, natCast_val, sub_self]

/-! ## §6. Comparisons of numbers that fit. -/

/-- The chunks of a comparison of up to 32 bits. -/
theorem chunks_fit : ∀ numBits < 33, 0 < numBits →
    0 < ceilDivUsize numBits (ceilDivUsize numBits 2) ∧
      2 ^ (ceilDivUsize numBits (ceilDivUsize numBits 2) + 1) ≤ 18446744069414584321 ∧
      (2 ^ ceilDivUsize numBits (ceilDivUsize numBits 2)) ^ ceilDivUsize numBits 2 ≤
        18446744069414584321 ∧
      2 ^ numBits ≤
        (2 ^ ceilDivUsize numBits (ceilDivUsize numBits 2)) ^ ceilDivUsize numBits 2 := by
  decide +kernel

section
variable {numBits : Nat} {x y : Felt}

/-- What the two comparisons of `list_lte_circuit` add up to. -/
theorem lte_of_comparisons (a b : Nat) : ofBool (decide (a ≤ b)) * ofBool (decide (b ≤ a)) * 1 +
    (1 - ofBool (decide (b ≤ a))) = ofBool (decide (a ≤ b)) := by
  rcases Nat.lt_trichotomy a b with hlt | heq | hgt
  · rw [decide_eq_true hlt.le, decide_eq_false (by omega)]
    simp
  · rw [heq, decide_eq_true (le_refl _)]
    simp
  · rw [decide_eq_false (by omega), decide_eq_true hgt.le]
    simp

theorem isLessThanOrEqual_computes (hpos : 0 < numBits) (hle : numBits ≤ 32)
    (hx : x.val < 2 ^ numBits) (hy : y.val < 2 ^ numBits) :
    (isLessThanOrEqual numBits x y).Computes True (ofBool (decide (x.val ≤ y.val))) := by
  obtain ⟨hk, hsize, hfits, hwide⟩ := chunks_fit numBits (by omega) hpos
  apply (comparisonGate_computes rfl hk hsize hfits).then ⟨by omega, by omega⟩
  apply (comparisonGate_computes rfl hk hsize hfits).then ⟨by omega, by omega⟩
  exact (Computes.pure _).congr Iff.rfl (fun _ => lte_of_comparisons _ _)

theorem isEqual_eq : isEqual x y = ofBool (decide (x.val = y.val)) := by
  unfold isEqual
  congr 1
  rw [decide_eq_decide]
  exact (ZMod.val_injective _).eq_iff.symm

section
variable (hpos : 0 < numBits) (hle : numBits ≤ 32) (hx : x.val < 2 ^ numBits)
  (hy : y.val < 2 ^ numBits)
include hpos hle hx hy

theorem isLessThan_computes :
    (isLessThan numBits x y).Computes True (ofBool (decide (x.val < y.val))) := by
  apply (isLessThanOrEqual_computes hpos hle hx hy).then trivial
  apply (Computes.pure _).congr Iff.rfl
  intro _
  rw [isEqual_eq, notTarget_ofBool, andTarget_ofBool]
  congr 1
  rw [Bool.eq_iff_iff]
  simp only [Bool.and_eq_true, Bool.not_eq_true', decide_eq_true_eq, decide_eq_false_iff_not]
  omega

theorem isGreaterThan_computes :
    (isGreaterThan numBits x y).Computes True (ofBool (decide (y.val < x.val))) := by
  apply (isLessThanOrEqual_computes hpos hle hx hy).then trivial
  apply (Computes.pure _).congr Iff.rfl
  intro _
  rw [notTarget_ofBool, ← decide_not]
  congr 1
  rw [decide_eq_decide, not_le]

theorem isGreaterThanOrEqual_computes :
    (isGreaterThanOrEqual numBits x y).Computes True (ofBool (decide (y.val ≤ x.val))) := by
  apply (isGreaterThan_computes hpos hle hx hy).then trivial
  apply (Computes.pure _).congr Iff.rfl
  intro _
  rw [isEqual_eq, orTarget_ofBool]
  congr 1
  rw [Bool.eq_iff_iff]
  simp only [Bool.or_eq_true, decide_eq_true_eq]
  omega

end

end

end PsyNode.Circuit
