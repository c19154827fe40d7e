/-
PsyNode.Vm.SymFelt
**FOLDING CONSTANTS** (`psy_vm/src/dpn/ops/sym_felt.rs`, `semantics.rs`).

The overloaded operators of `SymFeltRef` compute on constants what the opcodes compute at
run time.  Most go through the field; addition and the shifts work on plain `u64`.
-/
import PsyNode.Circuit.Builder
import PsyNode.Lib.ExceptBind

namespace PsyNode.Vm

open Circuit Lib Nat

/-! ## §1. The operators. -/

/-- A reference: the opcode in the upper 16 bits of a `u128`, the value below. -/
structure SymFeltRef where
  bits : Nat
deriving DecidableEq

namespace SymFeltRef

/-- The constant `true`, an opcode of its own. -/
def CONSTANT_TRUE_OP : Nat := 2 <<< 112

/-- The constant `false`. -/
def CONSTANT_FALSE_OP : Nat := 3 <<< 112

/-- A field constant: opcode 1 and the value reduced. -/
def newConstant (value : Nat) : SymFeltRef := ⟨1 <<< 112 ||| value % GOLDILOCKS_FIELD_ORDER⟩

/-- The value of a constant reference. -/
def getU64 (x : SymFeltRef) : Nat :=
  if x.bits = CONSTANT_TRUE_OP then 1
  else if x.bits = CONSTANT_FALSE_OP then 0
  else x.bits &&& 0xffffffffffffffff

theorem getU64_newConstant (value : Nat) :
    (newConstant value).getU64 = value % GOLDILOCKS_FIELD_ORDER := by
  have hlt : value % GOLDILOCKS_FIELD_ORDER < 2 ^ 64 :=
    (mod_lt _ (by decide)).trans (by decide)
  have hbits : (newConstant value).bits = 2 ^ 112 + value % GOLDILOCKS_FIELD_ORDER :=
    (shiftLeft_add_eq_or_of_lt (hlt.trans (by decide)) 1).symm
  have htag : ∀ tag ≠ 1, (newConstant value).bits ≠ tag <<< 112 := by
    intro tag htag heq
    rw [hbits, shiftLeft_eq] at heq
    omega
  rw [getU64, CONSTANT_TRUE_OP, CONSTANT_FALSE_OP, if_neg (htag 2 (by decide)),
    if_neg (htag 3 (by decide)), hbits, and_two_pow_sub_one_eq_mod _ 64]
  omega

end SymFeltRef

open SymFeltRef

/-- The binary operators that are overloaded. -/
inductive BinOp
  | add | sub | mul | div | rem | bitand | bitor | bitxor | shl | shr

/-- The operand types of an overload. -/
inductive Operands
  | refs (self other : SymFeltRef)
  | refU64 (self : SymFeltRef) (other : Nat)
  | u64Ref (self : Nat) (other : SymFeltRef)

/-- The left operand as a `u64`. -/
def Operands.self : Operands → Nat
  | refs x _ | refU64 x _ => x.getU64
  | u64Ref n _ => n

/-- The right operand as a `u64`. -/
def Operands.other : Operands → Nat
  | refs _ y | u64Ref _ y => y.getU64
  | refU64 _ n => n

/-- `from_canonical_u64` in the assigning overloads, `from_noncanonical_u64` in the others. -/
def fromU64 (assign : Bool) (n : Nat) : Option Felt :=
  if assign ∧ ¬ n < GOLDILOCKS_FIELD_ORDER then none else some n

/-- Whether an overload assigns to a `u64`. -/
def Operands.toU64 (assign : Bool) : Operands → Bool
  | u64Ref _ _ => assign
  | _ => false

/-- `a + b` on `u64`; `none` is the overflow. -/
def addU64 (a b : Nat) : Option Nat := if a + b < 2 ^ 64 then some (a + b) else none

/-- What an operator computes; `none` is a panic, an integer overflow or an over-wide shift. -/
def BinOp.fold (assign toU64 : Bool) (a b : Nat) : BinOp → Option Nat
  | add =>
    -- `u64 += SymFeltRef` reduces its second operand only
    if toU64 then addU64 a (b % GOLDILOCKS_FIELD_ORDER)
    else (addU64 a b).map (· % GOLDILOCKS_FIELD_ORDER)
  | sub => do return ((← fromU64 assign a) - (← fromU64 assign b)).val
  | mul => do return ((← fromU64 assign a) * (← fromU64 assign b)).val
  | div => do
    let x ← fromU64 assign a
    let y ← fromU64 assign b
    if y = 0 then none else some (x / y).val
  | rem => if b = 0 then none else some (a % b)
  | bitand => some ((a &&& b) &&& 0xFFFFFFFF)
  | bitor => some ((a ||| b) &&& 0xFFFFFFFF)
  | bitxor => some ((a ^^^ b) &&& 0xFFFFFFFF)
  | shl => if b < 64 then some ((a <<< b) % 2 ^ 64 &&& 0xFFFFFFFF) else none
  | shr => if b < 64 then some ((a >>> b) &&& 0xFFFFFFFF) else none

/-- One overload, plain or assigning. -/
def BinOp.apply (op : BinOp) (assign : Bool) (o : Operands) : Option (Nat ⊕ SymFeltRef) :=
  (op.fold assign (o.toU64 assign) o.self o.other).map fun v =>
    if o.toU64 assign then .inl v else .inr (newConstant v)

/-- Negation, through the field. -/
def SymFeltRef.neg (x : SymFeltRef) : SymFeltRef := newConstant (-(x.getU64 : Felt)).val

/-! ## §2. The opcodes. -/

/-- Why an opcode refuses its operands. -/
inductive SemanticsError
  | divisionByZero (op : String)
  | inverseOfZero (op : String)
  | u32OperandTooLarge (op : String) (value : Nat)

/-- The field sum. -/
def feltAdd (a b : Nat) : Nat := ((a : Felt) + b).val

/-- The field difference. -/
def feltSub (a b : Nat) : Nat := ((a : Felt) - b).val

/-- The field product. -/
def feltMul (a b : Nat) : Nat := ((a : Felt) * b).val

/-- The field negation. -/
def feltNeg (a : Nat) : Nat := (-(a : Felt)).val

/-- The field inverse; zero has none. -/
def feltInverse (op : String) (a : Nat) : Except SemanticsError Nat :=
  if a = 0 then .error (.inverseOfZero op) else .ok (a : Felt)⁻¹.val

/-- The field quotient, by the inverse. -/
def feltDiv (a b : Nat) : Except SemanticsError Nat := do
  return feltMul a (← feltInverse "felt div" b)

/-- The remainder of the canonical values. -/
def feltMod (op : String) (a b : Nat) : Except SemanticsError Nat :=
  if b = 0 then .error (.divisionByZero op) else .ok (a % b)

/-- An operand of a 32-bit opcode. -/
def u32Operand (op : String) (value : Nat) : Except SemanticsError Nat :=
  if value > 0xffffffff then .error (.u32OperandTooLarge op value) else .ok value

/-- A 32-bit shift folds distances of 32 and more to zero. -/
def u32Shl (a distance : Nat) : Nat := if distance ≥ 32 then 0 else (a <<< distance) % 2 ^ 32

/-- The shift to the right, likewise. -/
def u32Shr (a distance : Nat) : Nat := if distance ≥ 32 then 0 else a >>> distance

/-- A shift opcode with its operand checks. -/
def u32Shift (shift : Nat → Nat → Nat) (a b : Nat) : Except SemanticsError Nat := do
  return shift (← u32Operand "u32 shift" a) (← u32Operand "u32 shift" b)

/-- The opcode of an operator.  The bitwise ones take the low 32 bits of any operands. -/
def BinOp.opcode (a b : Nat) : BinOp → Except SemanticsError Nat
  | add => .ok (feltAdd a b)
  | sub => .ok (feltSub a b)
  | mul => .ok (feltMul a b)
  | div => feltDiv a b
  | rem => feltMod "Mod" a b
  | bitand => .ok (a % 2 ^ 32 &&& b % 2 ^ 32)
  | bitor => .ok (a % 2 ^ 32 ||| b % 2 ^ 32)
  | bitxor => .ok (a % 2 ^ 32 ^^^ b % 2 ^ 32)
  | shl => u32Shift u32Shl a b
  | shr => u32Shift u32Shr a b

/-! ## §3. Agreement. -/

/-- The operands on which the raw `u64` arithmetic of an operator is that of its opcode. -/
def InRange (toU64 : Bool) (a b : Nat) : BinOp → Prop
  | .add => a + b < if toU64 then GOLDILOCKS_FIELD_ORDER else 2 ^ 64
  | .shl | .shr => b < 64
  | _ => True

theorem feltAdd_eq (a b : Nat) : feltAdd a b = (a + b) % GOLDILOCKS_FIELD_ORDER := by
  rw [feltAdd, ← cast_add, ZMod.val_natCast]

theorem u32Shift_eq_ok {shift : Nat → Nat → Nat} {a b r : Nat}
    (h : u32Shift shift a b = .ok r) : a < 2 ^ 32 ∧ r = shift a b := by
  simp only [u32Shift, u32Operand, bind_eq_ok, ite_error_eq_ok, pure_eq_ok] at h
  obtain ⟨_, ⟨ha, hx⟩, _, ⟨_, hy⟩, hr⟩ := h
  cases hx
  cases hy
  exact ⟨by omega, hr.symm⟩

theorem mask_eq_mod (a : Nat) : a &&& 0xFFFFFFFF = a % 2 ^ 32 :=
  and_two_pow_sub_one_eq_mod a 32

theorem u32Shl_eq (a b : Nat) : u32Shl a b = (a <<< b) % 2 ^ 32 := by
  unfold u32Shl
  split
  next hb =>
    rw [shiftLeft_eq]
    exact (mod_eq_zero_of_dvd ((Nat.pow_dvd_pow 2 hb).mul_left a)).symm
  next => rfl

theorem u32Shr_eq {a b : Nat} (ha : a < 2 ^ 32) : u32Shr a b = (a >>> b) % 2 ^ 32 := by
  unfold u32Shr
  rw [shiftRight_eq_div_pow]
  split
  next hb =>
    rw [div_eq_of_lt (ha.trans_le (Nat.pow_le_pow_right (by decide) hb))]
    rfl
  next => exact (mod_eq_of_lt ((Nat.div_le_self _ _).trans_lt ha)).symm

/-- **FOLDING IN RANGE** gives the result of the opcode, a canonical value. -/
theorem fold_eq_opcode (assign : Bool) {op : BinOp} {toU64 : Bool} {a b r : Nat}
    (ha : a < GOLDILOCKS_FIELD_ORDER) (hb : b < GOLDILOCKS_FIELD_ORDER)
    (hrange : InRange toU64 a b op) (hr : op.opcode a b = .ok r) :
    op.fold assign toU64 a b = some r ∧ r < GOLDILOCKS_FIELD_ORDER := by
  have hfrom : ∀ n < GOLDILOCKS_FIELD_ORDER, fromU64 assign n = some (n : Felt) := by
    intro n hn
    exact if_neg (fun h => h.2 hn)
  have hword : ∀ n, n % 2 ^ 32 < GOLDILOCKS_FIELD_ORDER := by
    intro n
    exact (mod_lt n (by decide)).trans (by decide)
  cases op with
  | add =>
    cases hr
    rw [feltAdd_eq]
    refine ⟨?_, mod_lt _ (by decide)⟩
    rw [BinOp.fold, addU64, addU64, mod_eq_of_lt hb]
    cases toU64 with
    | true =>
      have hlt : a + b < GOLDILOCKS_FIELD_ORDER := hrange
      rw [mod_eq_of_lt hlt]
      exact if_pos (hlt.trans (by decide))
    | false =>
      rw [if_pos (show a + b < 2 ^ 64 from hrange)]
      rfl
  | sub | mul =>
    cases hr
    rw [BinOp.fold, hfrom a ha, hfrom b hb]
    exact ⟨rfl, ZMod.val_lt _⟩
  | div =>
    obtain ⟨inverse, hinverse, hr⟩ := bind_eq_ok.mp hr
    obtain ⟨hzero, hinverse⟩ := ite_error_eq_ok.mp hinverse
    cases hinverse
    cases hr
    have hne : (b : Felt) ≠ 0 := by
      rw [Ne, ZMod.natCast_eq_zero_iff]
      exact not_dvd_of_pos_of_lt (Nat.pos_of_ne_zero hzero) hb
    refine ⟨?_, ZMod.val_lt _⟩
    rw [BinOp.fold, hfrom a ha, hfrom b hb, feltMul, natCast_val, ← div_eq_mul_inv]
    exact if_neg hne
  | rem =>
    obtain ⟨hzero, hr⟩ := ite_error_eq_ok.mp hr
    cases hr
    exact ⟨if_neg hzero, (mod_le a b).trans_lt ha⟩
  | bitand =>
    cases hr
    rw [BinOp.fold, mask_eq_mod, ← and_mod_two_pow]
    exact ⟨rfl, hword _⟩
  | bitor =>
    cases hr
    rw [BinOp.fold, mask_eq_mod, ← or_mod_two_pow]
    exact ⟨rfl, hword _⟩
  | bitxor =>
    cases hr
    rw [BinOp.fold, mask_eq_mod, ← xor_mod_two_pow]
    exact ⟨rfl, hword _⟩
  | shl =>
    obtain ⟨_, rfl⟩ := u32Shift_eq_ok hr
    rw [BinOp.fold, if_pos (show b < 64 from hrange), mask_eq_mod, u32Shl_eq,
      mod_mod_of_dvd _ (by decide)]
    exact ⟨rfl, hword _⟩
  | shr =>
    obtain ⟨ha, rfl⟩ := u32Shift_eq_ok hr
    rw [BinOp.fold, if_pos (show b < 64 from hrange), mask_eq_mod, u32Shr_eq ha]
    exact ⟨rfl, hword _⟩

/-- **NO OTHER OPERANDS**: out of range, a sum overflows or is not reduced, a shift is too wide. -/
theorem inRange_of_fold {assign toU64 : Bool} {op : BinOp} {a b r v : Nat}
    (hb : b < GOLDILOCKS_FIELD_ORDER) (hr : op.opcode a b = .ok r)
    (hfold : op.fold assign toU64 a b = some v) (hv : toU64 = true → v = r) :
    InRange toU64 a b op := by
  cases op with
  | add =>
    cases hr
    rw [BinOp.fold, addU64, addU64, mod_eq_of_lt hb] at hfold
    cases toU64 with
    | true =>
      have hsum := (Option.ite_none_right_eq_some.mp hfold).2
      rw [Option.some.injEq, hv rfl, feltAdd_eq] at hsum
      show a + b < GOLDILOCKS_FIELD_ORDER
      rw [hsum]
      exact mod_lt _ (by decide)
    | false =>
      obtain ⟨_, hsum, -⟩ := Option.map_eq_some_iff.mp hfold
      exact (Option.ite_none_right_eq_some.mp hsum).1
  | shl | shr => exact (Option.ite_none_right_eq_some.mp hfold).1
  | sub | mul | div | rem | bitand | bitor | bitxor => trivial

/-- **FOLDING AGREES WITH THE OPCODES** on canonical operands that the opcode accepts exactly if
they are in range; negation always does. -/
theorem operators_eq_opcodes_iff (op : BinOp) (assign : Bool) (o : Operands) (x : SymFeltRef) :
    (∀ r, o.self < GOLDILOCKS_FIELD_ORDER → o.other < GOLDILOCKS_FIELD_ORDER →
      op.opcode o.self o.other = .ok r →
        ((op.apply assign o).map (Sum.elim id getU64) = some r ↔
          InRange (o.toU64 assign) o.self o.other op)) ∧
    x.neg.getU64 = feltNeg x.getU64 := by
  constructor
  · intro r hself hother hr
    constructor
    · intro happly
      rw [BinOp.apply, Option.map_map, Option.map_eq_some_iff] at happly
      obtain ⟨v, hfold, hv⟩ := happly
      refine inRange_of_fold hother hr hfold (fun hto => ?_)
      rw [Function.comp_apply, if_pos hto] at hv
      exact hv
    · intro hrange
      obtain ⟨hfold, hlt⟩ := fold_eq_opcode assign hself hother hrange hr
      rw [BinOp.apply, hfold]
      show some (Sum.elim id getU64 (if _ then _ else _)) = _
      split
      next => rfl
      next =>
        show some (newConstant r).getU64 = some r
        rw [getU64_newConstant, mod_eq_of_lt hlt]
  · show (newConstant _).getU64 = _
    rw [getU64_newConstant]
    exact mod_eq_of_lt (ZMod.val_lt _)

/-- A sum of two constants, and a shift assigned to a `u64`. -/
theorem operators_eq_opcodes_small :
    (BinOp.add.apply false (.refs (newConstant 18446744069414584320) (newConstant 4))).map
      (Sum.elim id getU64) = some 3 ∧
    (BinOp.shl.apply true (.u64Ref 3 (newConstant 40))).map (Sum.elim id getU64) = some 0 := by
  have hsum : BinOp.add.opcode (newConstant 18446744069414584320).getU64 (newConstant 4).getU64 =
      .ok 3 := by
    rw [getU64_newConstant, getU64_newConstant, BinOp.opcode, feltAdd_eq]
    rfl
  exact ⟨((operators_eq_opcodes_iff .add false (.refs _ _) (newConstant 0)).1 3 (by decide +kernel)
      (by decide +kernel) hsum).mpr (by unfold InRange; decide +kernel),
    ((operators_eq_opcodes_iff .shl true (.u64Ref _ _) (newConstant 0)).1 0 (by decide +kernel)
      (by decide +kernel) rfl).mpr (by unfold InRange; decide +kernel)⟩

/-- A sum and a shift distance over `u64`, and a sum that is never reduced. -/
theorem operators_overflow :
    feltAdd 18446744069414584320 18446744069414584320 = 18446744069414584319 ∧
      BinOp.add.apply false (.refs (newConstant 18446744069414584320)
        (newConstant 18446744069414584320)) = none ∧
    u32Shl 1 64 = 0 ∧
      BinOp.shl.apply false (.refs (newConstant 1) (newConstant 64)) = none ∧
    feltAdd 18446744069414584320 1 = 0 ∧
      BinOp.add.apply true (.u64Ref 18446744069414584320 (newConstant 1)) =
        some (.inl 18446744069414584321) := by
  rw [feltAdd_eq, feltAdd_eq]
  decide +kernel

end PsyNode.Vm
