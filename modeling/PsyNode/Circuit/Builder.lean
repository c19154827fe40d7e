/-
PsyNode.Circuit.Builder
**THE GOLDILOCKS FIELD AND THE CIRCUIT BUILDER**
(`psy_plonky2_basic_helpers/src/builder/*.rs`).

The operations of the plonky2 builder stand at their arithmetic meaning: a range check
bounds the canonical representative, `split_le` gives boolean wires whose weighted sum
is the target, a boolean target is a field element that the operations keep at 0 or 1.
-/
import Mathlib.NumberTheory.LucasPrimality
import Mathlib.Tactic.ReduceModChar
import Mathlib.Data.List.GetD
import Mathlib.Data.Nat.Digits.Lemmas
import Mathlib.Data.ZMod.ValMinAbs
import Mathlib.Tactic.NormNum.Prime
import PsyNode.Lib.Gadget

namespace PsyNode.Circuit

open Lib.Circuit Lib Nat

/-! ## §1. The field. -/

/-- The order of the field. -/
def GOLDILOCKS_FIELD_ORDER : Nat := 0xffffffff00000001

theorem eq_of_prime_dvd_order_sub_one {q : Nat} (hq : q.Prime)
    (hdvd : q ∣ 18446744069414584321 - 1) :
    q = 2 ∨ q = 3 ∨ q = 5 ∨ q = 17 ∨ q = 257 ∨ q = 65537 := by
  have hfactors : 18446744069414584321 - 1 = 2 ^ 32 * 3 * 5 * 17 * 257 * 65537 := by norm_num
  rw [hfactors] at hdvd
  simp only [hq.dvd_mul] at hdvd
  rcases hdvd with ((((h | h) | h) | h) | h) | h
  · exact Or.inl ((Nat.prime_dvd_prime_iff_eq hq prime_two).mp (hq.dvd_of_dvd_pow h))
  all_goals
    have heq := (Nat.prime_dvd_prime_iff_eq hq (by norm_num)).mp h
    omega

theorem prime_order : Nat.Prime 18446744069414584321 := by
  apply lucas_primality 18446744069414584321 7
  · reduce_mod_char
  · intro q hq hdvd
    -- 7 generates the multiplicative group
    rcases eq_of_prime_dvd_order_sub_one hq hdvd with rfl | rfl | rfl | rfl | rfl | rfl
    all_goals
      norm_num only
      reduce_mod_char
      decide +kernel

instance fact_prime : Fact GOLDILOCKS_FIELD_ORDER.Prime := ⟨prime_order⟩

/-- The field, whose order is not unfolded in proofs. -/
abbrev Felt : Type := ZMod GOLDILOCKS_FIELD_ORDER

variable (x : Felt)

theorem val_lt_order : x.val < 18446744069414584321 := ZMod.val_lt x

theorem val_natCast_of_lt {n : Nat} (hn : n < 18446744069414584321) : ((n : Felt)).val = n :=
  ZMod.val_natCast_of_lt hn

/-- Numbers below the order that are equal in the field are equal. -/
theorem natCast_inj {m n : Nat} (hm : m < 18446744069414584321) (hn : n < 18446744069414584321) :
    (m : Felt) = (n : Felt) ↔ m = n := by
  constructor
  · intro h
    rw [← val_natCast_of_lt hm, h, val_natCast_of_lt hn]
  · intro h
    rw [h]

theorem natCast_val : ((x.val : Nat) : Felt) = x := ZMod.natCast_zmod_val x

theorem eq_natCast_iff {x : Felt} {n : Nat} (hn : n < 18446744069414584321) :
    x = (n : Felt) ↔ x.val = n := by
  constructor
  · intro h
    rw [h, val_natCast_of_lt hn]
  · intro h
    rw [← h, natCast_val]

/-! ## §2. The builder. -/

/-- The representative has `bits` bits at most. -/
def rangeCheck (bits : Nat) : Circuit Unit := constrain (x.val < 2 ^ bits)

/-- Both are equal. -/
def connect {α : Type} (x y : α) : Circuit Unit := constrain (x = y)

/-- A target that holds a boolean. -/
abbrev BoolTarget : Type := Felt

/-- A constant bit. -/
def ofBool (b : Bool) : BoolTarget := if b then 1 else 0

variable (b : BoolTarget)

/-- The bit is 1. -/
def assertOne : Circuit Unit := constrain (b = 1)

/-- 1 if both are equal. -/
def isEqual (x y : Felt) : BoolTarget := ofBool (decide (x = y))

/-- `not`, `and` and `or` of boolean targets. -/
def notTarget : BoolTarget := 1 - b

/-- Conjunction of bits. -/
def andTarget (a b : BoolTarget) : BoolTarget := a * b

/-- Disjunction of bits. -/
def orTarget (a b : BoolTarget) : BoolTarget := a + b - a * b

/-- One of two, by a bit. -/
def select (x y : Felt) : Felt := b * (x - y) + y

/-- `reduce_with_powers`: the terms weighted with the powers of `alpha`. -/
def reduceWithPowers (alpha : Felt) : List Felt → Felt
  | [] => 0
  | term :: terms => term + alpha * reduceWithPowers alpha terms

/-- The weighted sum of bits. -/
def leSum (bits : List BoolTarget) : Felt := reduceWithPowers 2 bits

/-- Bits whose weighted sum is the target. -/
def splitLe (numBits : Nat) : Circuit (List BoolTarget) := do
  let bits ← virtual
  constrain (bits.length = numBits)
  constrain (∀ bit ∈ bits, bit = 0 ∨ bit = 1)
  connect (leSum bits) x
  return bits

/-- `select_in_array`: the running sum over the entries, each multiplied by whether the index is
its own. -/
def selectInArray (array : List Felt) (index : Felt) : Felt :=
  array.zipIdx.foldl
    (fun runningSum entry => entry.1 * isEqual index (entry.2 : Nat) + runningSum) 0

/-! ## §3. Booleans. -/

@[simp] theorem ofBool_true : ofBool true = 1 := rfl

@[simp] theorem ofBool_false : ofBool false = 0 := rfl

theorem ofBool_eq_one {b : Bool} : ofBool b = 1 ↔ b = true := by
  cases b with
  | false => simp
  | true => simp

@[simp] theorem notTarget_ofBool (b : Bool) : notTarget (ofBool b) = ofBool (!b) := by
  unfold notTarget
  cases b with
  | false => simp
  | true => simp

@[simp] theorem andTarget_ofBool (a b : Bool) :
    andTarget (ofBool a) (ofBool b) = ofBool (a && b) := by
  unfold andTarget
  cases a with
  | false => simp
  | true => simp

@[simp] theorem orTarget_ofBool (a b : Bool) :
    orTarget (ofBool a) (ofBool b) = ofBool (a || b) := by
  unfold orTarget
  cases a with
  | false => simp
  | true => simp

@[simp] theorem select_ofBool (b : Bool) (x y : Felt) :
    select (ofBool b) x y = if b then x else y := by
  unfold select
  cases b with
  | false => simp
  | true => simp

/-! ## §4. Digits.

A gadget that decomposes a target constrains each wire to a digit and the weighted sum
to the target.  As long as the digits cannot reach the order of the field the sum does
not wrap around, so the wires are the digits of the representative. -/

theorem reduceWithPowers_natCast (base : Nat) (ds : List Nat) :
    reduceWithPowers (base : Felt) (ds.map fun d : Nat => (d : Felt)) =
      ((ofDigits base ds : Nat) : Felt) := by
  induction ds with
  | nil => rw [ofDigits_nil, cast_zero]; rfl
  | cons d ds ih =>
    show (d : Felt) + base * reduceWithPowers base _ = _
    rw [ih]
    push_cast
    rfl

variable {base : Nat}

/-- Wires that hold digits hold a list of digits. -/
theorem exists_digits {terms : List Felt} (hterms : ∀ term ∈ terms, ∃ d < base, term = (d : Felt)) :
    ∃ ds : List Nat, terms = ds.map (fun d : Nat => (d : Felt)) ∧ ∀ d ∈ ds, d < base := by
  induction terms with
  | nil => exact ⟨[], rfl, by simp⟩
  | cons term terms ih =>
    obtain ⟨d, hd, rfl⟩ := hterms term List.mem_cons_self
    obtain ⟨ds, rfl, hds⟩ := ih (fun t ht => hterms t (List.mem_cons_of_mem _ ht))
    exact ⟨d :: ds, rfl, List.forall_mem_cons.mpr ⟨hd, hds⟩⟩

variable {ds : List Nat}

/-- The value of a decomposition that cannot wrap around. -/
theorem val_reduceWithPowers (hbase : 1 < base)
    (hds : ∀ d ∈ ds, d < base) (hfits : base ^ ds.length ≤ 18446744069414584321) :
    (reduceWithPowers (base : Felt) (ds.map fun d : Nat => (d : Felt))).val = ofDigits base ds := by
  rw [reduceWithPowers_natCast]
  exact val_natCast_of_lt ((ofDigits_lt_base_pow_length hbase hds).trans_le hfits)

/-- The digits of a representative, as wires. -/
def digitWires (base len : Nat) (x : Felt) : List Felt :=
  (Nat.digitsAppend base len x.val).map fun d : Nat => (d : Felt)

theorem reduceWithPowers_digitWires {len : Nat} (hbase : 1 < base) {x : Felt}
    (hx : x.val < base ^ len) : reduceWithPowers (base : Felt) (digitWires base len x) = x := by
  unfold digitWires
  rw [reduceWithPowers_natCast, (setInvOn_digitsAppend_ofDigits hbase len).2 hx, natCast_val]

/-- The wires of a decomposition are the digits of its value. -/
theorem eq_digitWires (hbase : 1 < base) (hds : ∀ d ∈ ds, d < base)
    (hfits : base ^ ds.length ≤ 18446744069414584321) :
    ds.map (fun d : Nat => (d : Felt)) = digitWires base ds.length
      (reduceWithPowers (base : Felt) (ds.map fun d : Nat => (d : Felt))) := by
  unfold digitWires
  rw [val_reduceWithPowers hbase hds hfits,
    (setInvOn_digitsAppend_ofDigits hbase ds.length).1 ⟨rfl, hds⟩]

theorem boolean_iff {bit : Felt} : (bit = 0 ∨ bit = 1) ↔ ∃ d < 2, bit = ((d : Nat) : Felt) := by
  constructor
  · intro h
    rcases h with h | h
    · exact ⟨0, by omega, by rw [h, cast_zero]⟩
    · exact ⟨1, by omega, by rw [h, cast_one]⟩
  · intro h
    obtain ⟨d, hd, rfl⟩ := h
    interval_cases d
    · left; exact cast_zero
    · right; exact cast_one

/-- **SPLITTING** into few enough bits is a range check, and the bits are those of the
representative. -/
theorem splitLe_computes {x : Felt} {numBits : Nat} (hbits : 2 ^ numBits ≤ 18446744069414584321) :
    (splitLe x numBits).Computes (x.val < 2 ^ numBits) (digitWires 2 numBits x) := by
  apply Computes.intro
  · intro bits h
    unfold splitLe connect leSum at h
    simp only [holds_bind, holds_constrain, holds_virtual, holds_pure, true_and] at h
    obtain ⟨bits', _, hlen, _, hbool, _, hsum, rfl⟩ := h
    obtain ⟨ds, rfl, hds⟩ := exists_digits (fun bit hbit => boolean_iff.mp (hbool bit hbit))
    rw [List.length_map] at hlen
    subst hlen
    have hval := val_reduceWithPowers (by omega) hds hbits
    have hlt := ofDigits_lt_base_pow_length (by omega) hds
    have heq := eq_digitWires (by omega) hds hbits
    rw [cast_ofNat] at hval heq
    rw [hsum] at hval heq
    exact ⟨by omega, heq⟩
  · intro hx
    refine ⟨digitWires 2 numBits x, ?_⟩
    unfold splitLe connect leSum
    simp only [holds_bind, holds_constrain, holds_virtual, holds_pure, true_and]
    refine ⟨digitWires 2 numBits x, (), ?_, (), ?_, (), ?_, rfl⟩
    · unfold digitWires
      rw [List.length_map, length_digitsAppend (by omega) numBits hx]
    · intro bit hbit
      obtain ⟨d, hd, rfl⟩ := List.mem_map.mp hbit
      exact boolean_iff.mpr ⟨d, lt_of_mem_digitsAppend (by omega) numBits d hd, rfl⟩
    · have hsum := reduceWithPowers_digitWires (by omega) hx
      exact hsum

theorem rangeCheck_computes (bits : Nat) :
    (rangeCheck x bits).Computes (x.val < 2 ^ bits) () := Computes.constrain _

theorem connect_computes {α : Type} (x y : α) : (connect x y).Computes (x = y) () :=
  Computes.constrain _

end PsyNode.Circuit
