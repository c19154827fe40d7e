/-
PsyNode.UserId.Strategy
**USER IDS FROM REGISTRATION IDS** — `UserIdBitsStrategy5` of `user_id.rs`, and
`transform_user_id` of the rollback keys.

With `g` group bits and `r` realm bits, the strategy mirrors the low `g + r` bits of a
registration id and keeps the others; so it is its own inverse.  A shift by 64 depends on the build:
with overflow checks it panics, without them the distance is taken modulo 64.
-/
import PsyNode.Lib.ExceptBind

namespace PsyNode.UserId

open Lib List Nat

/-! ## §1. The source. -/

variable (checked : Bool)

/-- `x << n` on `u64`, in a build with (`checked`) or without overflow checks. -/
def shl (x n : Nat) : Except String Nat :=
  if checked && decide (64 ≤ n) then .error "attempt to shift left with overflow"
  else .ok ((x <<< (n % 64)) % 2 ^ 64)

/-- `x >> n` on `u64`. -/
def shr (x n : Nat) : Except String Nat :=
  if checked && decide (64 ≤ n) then .error "attempt to shift right with overflow"
  else .ok (x >>> (n % 64))

/-- The low `num_bits` bits in reverse order: all 64 are reversed and shifted down. -/
def reverseBitsInLimit (x numBits : Nat) : Except String Nat :=
  shr checked (BitVec.ofNat 64 x).reverse.toNat (64 - numBits)

variable (c r g : Nat)

/-- The heights are `coordinator`, `realm` and `group_realm`. -/
def getUserIdFromUserRegistrationId (userRegistrationId : Nat) : Except String Nat := do
  let realmIndex := userRegistrationId &&& ((← shl checked 1 g) - 1)
  let userIndex := (← shr checked userRegistrationId g) &&& ((← shl checked 1 r) - 1)
  let groupId := (← shr checked userRegistrationId (g + r)) &&& ((← shl checked 1 (c - g)) - 1)
  let reversedRealmIndex ← reverseBitsInLimit checked realmIndex g
  let fullRealmId := (← shl checked groupId g) ||| reversedRealmIndex
  let reversedUserIndex ← reverseBitsInLimit checked userIndex r
  .ok ((← shl checked fullRealmId r) ||| reversedUserIndex)

/-- The way back; the coordinator's height is not read. -/
def getUserRegistrationIdFromUserId (userId : Nat) : Except String Nat := do
  let reversedUserIndex := userId &&& ((← shl checked 1 r) - 1)
  let fullRealmId ← shr checked userId r
  let originalUserIndex ← reverseBitsInLimit checked reversedUserIndex r
  let reversedRealmIndex := fullRealmId &&& ((← shl checked 1 g) - 1)
  let groupId ← shr checked fullRealmId g
  let originalRealmIndex ← reverseBitsInLimit checked reversedRealmIndex g
  .ok ((← shl checked groupId (g + r)) ||| (← shl checked originalUserIndex g)
    ||| originalRealmIndex)

/-- The bits `le_sum` adds up, from the bits of the registration id. -/
def circuitUserIdBits {Bit : Type} (bits : List Bit) : List Bit :=
  ((bits.drop g).take r).reverse ++ (bits.take g).reverse ++ bits.drop (g + r)

/-- The rollback's entry: heights whose shifts would not fit are refused, before the ids. -/
def transformUserId (regId : Nat) : Except String Nat :=
  if c < g ∨ 64 < c + r ∨ 64 ≤ g ∨ 64 ≤ r ∨ 64 ≤ c - g then
    .error s!"invalid user-id tree heights: coordinator={c}, realm={r}, group={g}"
  else getUserIdFromUserRegistrationId checked c r g regId

/-! ## §2. Mirrored bits. -/

/-- `y` is `x` with its low `m` bits in reverse order. -/
def Mirrors (m x y : Nat) : Prop :=
  ∀ i, y.testBit i = if i < m then x.testBit (m - 1 - i) else x.testBit i

variable {checked c r g} {m x y z n : Nat}

theorem Mirrors.symm (h : Mirrors m x y) : Mirrors m y x := by
  intro i
  split
  next hi => rw [h, if_pos (by omega), show m - 1 - (m - 1 - i) = i by omega]
  next hi => rw [h, if_neg hi]

theorem Mirrors.eq (h : Mirrors m x y) (h' : Mirrors m x z) : y = z :=
  eq_of_testBit_eq fun i => (h i).trans (h' i).symm

theorem Mirrors.lt (h : Mirrors m x y) (hm : m ≤ n) (hx : x < 2 ^ n) : y < 2 ^ n := by
  refine lt_pow_two_of_testBit y fun i hi => ?_
  rw [h, if_neg (by omega)]
  exact testBit_lt_two_pow (hx.trans_le (Nat.pow_le_pow_right (by omega) hi))

@[simp] theorem shl_of_lt (hn : n < 64) : shl checked x n = .ok ((x <<< n) % 2 ^ 64) := by
  simp [shl, mod_eq_of_lt hn, hn]

@[simp] theorem shr_of_lt (hn : n < 64) : shr checked x n = .ok (x >>> n) := by
  simp [shr, mod_eq_of_lt hn, hn]

/-- A build without overflow checks keeps all bits at a distance of 64. -/
theorem shr_sixtyFour (h : checked = false) : shr checked x 64 = .ok x := by
  simp [shr, h]

theorem shl_one (hn : n < 64) : shl checked 1 n = .ok (2 ^ n) := by
  rw [shl_of_lt hn, shiftLeft_eq, one_mul, mod_eq_of_lt (Nat.pow_lt_pow_right (by omega) hn)]

theorem testBit_reverseBitsInLimit (hn : checked = true → 1 ≤ n) (hn' : n ≤ 64) (hx : x < 2 ^ n) :
    ∃ y, reverseBitsInLimit checked x n = .ok y ∧
      ∀ i, y.testBit i = (decide (i < n) && x.testBit (n - 1 - i)) := by
  rcases Nat.eq_zero_or_pos n with rfl | hpos
  · -- no bit: the distance is 64, and only a build without checks gets here
    obtain rfl : x = 0 := by simpa using hx
    have hbuild : checked = false := by simpa using hn
    have hrev : (BitVec.ofNat 64 0).reverse.toNat = 0 := by decide +kernel
    exact ⟨0, by rw [reverseBitsInLimit, Nat.sub_zero, shr_sixtyFour hbuild, hrev], by simp⟩
  · refine ⟨_, shr_of_lt (by omega), fun i => ?_⟩
    rw [testBit_shiftRight, BitVec.testBit_toNat, BitVec.getLsbD_reverse, BitVec.getMsbD,
      BitVec.getLsbD_ofNat]
    by_cases hi : i < n
    · rw [show 64 - 1 - (64 - n + i) = n - 1 - i by omega]
      simp [hi, show 64 - n + i < 64 by omega, show n - 1 - i < 64 by omega]
    · simp [hi, show ¬ 64 - n + i < 64 by omega]

/-- The heights that the guard of `transform_user_id` lets pass. -/
def Accepted (c r g : Nat) : Prop := ¬ (c < g ∨ 64 < c + r ∨ 64 ≤ g ∨ 64 ≤ r ∨ 64 ≤ c - g)

/-- No shift of the strategy reaches 64, or the build lets it pass. -/
def ShiftsFit (checked : Bool) (r g : Nat) : Prop := checked = true → 1 ≤ g ∧ 1 ≤ r ∧ g + r < 64

theorem Accepted.bounds (h : Accepted c r g) :
    g ≤ c ∧ c + r ≤ 64 ∧ g < 64 ∧ r < 64 ∧ c - g < 64 := by
  simpa only [Accepted, not_or, not_lt, not_le] using h

section
variable (hfit : ShiftsFit checked r g) (hacc : Accepted c r g)
include hfit hacc

/-- The group bits of a registration id; there are none where the distance is 64. -/
theorem shr_group : ∃ y, shr checked x (g + r) = .ok y ∧
    y &&& (2 ^ (c - g) - 1) = x >>> (g + r) &&& (2 ^ (c - g) - 1) := by
  obtain ⟨hgc, hcr, hg, hr, -⟩ := hacc.bounds
  by_cases hgr : g + r < 64
  · exact ⟨_, shr_of_lt hgr, rfl⟩
  · have hbuild : checked = false := by
      simpa using fun h => hgr (hfit h).2.2
    rw [show g + r = 64 by omega, show c - g = 0 by omega]
    exact ⟨x, shr_sixtyFour hbuild, by simp⟩

/-- The group bits of a user id, moved back. -/
theorem shl_group (hx : x < 2 ^ (c + r)) : shl checked ((x >>> r) >>> g) (g + r) =
    .ok (((x >>> r) >>> g) <<< (g + r) % 2 ^ 64) := by
  obtain ⟨hgc, hcr, hg, hr, -⟩ := hacc.bounds
  by_cases hgr : g + r < 64
  · exact shl_of_lt hgr
  · have hbuild : checked = false := by
      simpa using fun h => hgr (hfit h).2.2
    have hzero : (x >>> r) >>> g = 0 := by
      rw [← shiftRight_add, shiftRight_eq_div_pow]
      exact Nat.div_eq_of_lt (hx.trans_le (Nat.pow_le_pow_right (by omega) (by omega)))
    simp [shl, hbuild, hzero]

theorem getUserId_mirrors (hx : x < 2 ^ (c + r)) : ∃ y,
    getUserIdFromUserRegistrationId checked c r g x = .ok y ∧ Mirrors (g + r) x y := by
  obtain ⟨hgc, hcr, hg, hr, hcg⟩ := hacc.bounds
  obtain ⟨a, ha, hta⟩ := testBit_reverseBitsInLimit (x := x &&& (2 ^ g - 1)) (fun h => (hfit h).1)
    hg.le (and_lt_two_pow _ (by simp))
  obtain ⟨b, hb, htb⟩ := testBit_reverseBitsInLimit (x := (x >>> g) &&& (2 ^ r - 1))
    (fun h => (hfit h).2.1) hr.le (and_lt_two_pow _ (by simp))
  obtain ⟨d, hd, hgroup⟩ := shr_group hfit hacc (x := x)
  refine ⟨(((x >>> (g + r) &&& (2 ^ (c - g) - 1)) <<< g % 2 ^ 64 ||| a) <<< r) % 2 ^ 64 ||| b,
    ?_, ?_⟩
  · unfold getUserIdFromUserRegistrationId
    rw [shl_one hg, shl_one hr, shl_one hcg, hd]
    simp only [shr_of_lt hg, shl_of_lt hg, shl_of_lt hr, bind_eq_ok, Except.ok.injEq,
      exists_eq_left', ha, hb, hgroup]
  · intro i
    simp only [testBit_or, testBit_mod_two_pow, testBit_shiftLeft, testBit_and,
      testBit_two_pow_sub_one, testBit_shiftRight, hta, htb]
    by_cases hi : i < r
    · rw [if_pos (by omega), show g + (r - 1 - i) = g + r - 1 - i by omega]
      simp [hi, show ¬ r ≤ i by omega, show r - 1 - i < r by omega]
    · by_cases hi' : i < g + r
      · rw [if_pos hi', show g - 1 - (i - r) = g + r - 1 - i by omega]
        simp [hi, show r ≤ i by omega, show ¬ g ≤ i - r by omega, show i - r < g by omega,
          show i < 64 by omega, show g + r - 1 - i < g by omega]
      · rw [if_neg hi', show g + r + (i - r - g) = i by omega]
        by_cases hlt : i < c + r
        · simp [hi, show r ≤ i by omega, show g ≤ i - r by omega, show ¬ i - r < g by omega,
            show i < 64 by omega, show i - r < 64 by omega, show i - r - g < c - g by omega]
        · have hzero := testBit_lt_two_pow
            (hx.trans_le (Nat.pow_le_pow_right (by omega) (not_lt.mp hlt)))
          simp [hi, hzero, show ¬ i - r < g by omega]

theorem getUserRegistrationId_mirrors (hx : x < 2 ^ (c + r)) : ∃ y,
    getUserRegistrationIdFromUserId checked r g x = .ok y ∧ Mirrors (g + r) x y := by
  obtain ⟨hgc, hcr, hg, hr, -⟩ := hacc.bounds
  obtain ⟨a, ha, hta⟩ := testBit_reverseBitsInLimit (x := x &&& (2 ^ r - 1)) (fun h => (hfit h).2.1)
    hr.le (and_lt_two_pow _ (by simp))
  obtain ⟨b, hb, htb⟩ := testBit_reverseBitsInLimit (x := (x >>> r) &&& (2 ^ g - 1))
    (fun h => (hfit h).1) hg.le (and_lt_two_pow _ (by simp))
  refine ⟨((x >>> r) >>> g) <<< (g + r) % 2 ^ 64 ||| a <<< g % 2 ^ 64 ||| b, ?_, ?_⟩
  · unfold getUserRegistrationIdFromUserId
    rw [shl_one hg, shl_one hr]
    simp only [shr_of_lt hg, shr_of_lt hr, shl_of_lt hg, shl_group hfit hacc hx, bind_eq_ok,
      Except.ok.injEq, exists_eq_left', ha, hb]
  · intro i
    simp only [testBit_or, testBit_mod_two_pow, testBit_shiftLeft, testBit_and,
      testBit_two_pow_sub_one, testBit_shiftRight, hta, htb]
    by_cases hi : i < g
    · rw [if_pos (by omega), show r + (g - 1 - i) = g + r - 1 - i by omega]
      simp [hi, show ¬ g ≤ i by omega, show ¬ g + r ≤ i by omega, show g - 1 - i < g by omega]
    · by_cases hi' : i < g + r
      · rw [if_pos hi', show r - 1 - (i - g) = g + r - 1 - i by omega]
        simp [hi, show g ≤ i by omega, show ¬ g + r ≤ i by omega, show i - g < r by omega,
          show i < 64 by omega, show g + r - 1 - i < r by omega]
      · rw [if_neg hi', show r + (g + (i - (g + r))) = i by omega]
        by_cases hlt : i < 64
        · simp [hi, hlt, show g + r ≤ i by omega, show ¬ i - g < r by omega]
        · have hzero := testBit_lt_two_pow
            (hx.trans_le (Nat.pow_le_pow_right (by omega) (show c + r ≤ i by omega)))
          simp [hi, hlt, hzero]

end

/-! ## §3. The circuit's bits. -/

/-- `bridge_le_sum`: the number with the given bits, the least one first. -/
def leSum (bits : List Bool) : Nat := bits.foldr (fun b sum => b.toNat + 2 * sum) 0

theorem testBit_leSum (bits : List Bool) (i : Nat) :
    (leSum bits).testBit i = bits.getD i false := by
  induction bits generalizing i with
  | nil => simp [leSum]
  | cons b bits ih =>
    show (b.toNat + 2 * leSum bits).testBit i = _
    cases i with
    | zero => cases b <;> simp [testBit_zero, add_mod]
    | succ i =>
      have hdiv : (b.toNat + 2 * leSum bits) / 2 = leSum bits := by
        have hb := b.toNat_le
        omega
      rw [testBit_succ, hdiv, ih, getD_cons_succ]

/-- The circuit mirrors the bits of the registration id. -/
theorem leSum_circuitUserIdBits (hn : g + r ≤ n) (hx : x < 2 ^ n) :
    Mirrors (g + r) x (leSum (circuitUserIdBits r g ((range n).map x.testBit))) := by
  intro i
  have hbits : circuitUserIdBits r g ((range n).map x.testBit) =
      (((range n).map x.testBit).take (g + r)).reverse ++
        ((range n).map x.testBit).drop (g + r) := by
    rw [circuitUserIdBits, take_add, reverse_append]
  have hlen : (((range n).map x.testBit).take (g + r)).reverse.length = g + r := by simp [hn]
  rw [testBit_leSum, hbits, getD_eq_getElem?_getD]
  split
  next hi =>
    rw [getElem?_append_left (by omega), getElem?_eq_getElem (by omega)]
    simp [hn]
  next hi =>
    rw [getElem?_append_right (by omega), hlen, getElem?_drop, Nat.add_sub_cancel' (by omega)]
    by_cases hin : i < n
    · simp [hin]
    · rw [getElem?_eq_none (by simpa using hin),
        testBit_lt_two_pow (hx.trans_le (Nat.pow_le_pow_right (by decide) (by omega)))]
      rfl

/-! ## §4. The result. -/

/-- Where a shift of the strategy reaches 64, a build with overflow checks panics on every id. -/
theorem transformUserId_panics (h : ¬ (1 ≤ g ∧ 1 ≤ r ∧ g + r < 64)) (hacc : Accepted c r g)
    (y : Nat) : transformUserId true c r g x ≠ .ok y := by
  obtain ⟨-, -, hg, hr, hcg⟩ := hacc.bounds
  have hrev : ∀ z, reverseBitsInLimit true z 0 = .error "attempt to shift right with overflow" :=
    fun z => rfl
  intro hok
  rw [transformUserId, if_neg hacc, getUserIdFromUserRegistrationId] at hok
  simp only [shl_of_lt hg, shl_of_lt hr, shl_of_lt hcg, shr_of_lt hg, bind_eq_ok, Except.ok.injEq,
    exists_eq_left'] at hok
  obtain ⟨d, hd, a, ha, b, hb, -⟩ := hok
  by_cases hg0 : g = 0
  · rw [hg0, hrev] at ha
    exact absurd ha (by simp)
  by_cases hr0 : r = 0
  · rw [hr0, hrev] at hb
    exact absurd hb (by simp)
  · rw [shr, if_pos (by simp; omega)] at hd
    exact absurd hd (by simp)

/-- **THE STRATEGY IS A BIJECTION** with the stated inverse, the circuit computes it, and the ids of
a block of `2 ^ g` go to different realms; at the accepted heights this holds exactly if the build
has no overflow checks or no shift reaches 64. -/
theorem user_id_bijection_iff (hacc : Accepted c r g) :
    (∃ e : Fin (2 ^ (c + r)) ≃ Fin (2 ^ (c + r)),
      (∀ x : Fin (2 ^ (c + r)), transformUserId checked c r g x = .ok (e x).val ∧
        getUserRegistrationIdFromUserId checked r g x = .ok (e.symm x).val ∧
        leSum (circuitUserIdBits r g ((List.range (c + r)).map x.val.testBit)) = e x) ∧
      ∀ x y, x.val / 2 ^ g = y.val / 2 ^ g → (e x).val >>> r = (e y).val >>> r → x = y) ↔
    (checked = false ∨ 1 ≤ g ∧ 1 ≤ r ∧ g + r < 64) := by
  have hiff : (checked = false ∨ 1 ≤ g ∧ 1 ≤ r ∧ g + r < 64) ↔ ShiftsFit checked r g := by
    cases checked <;> simp [ShiftsFit]
  rw [hiff]
  refine ⟨fun ⟨e, he, _⟩ hbuild => ?_, fun hfit => ?_⟩
  · by_contra hno
    have hzero := (he ⟨0, Nat.two_pow_pos _⟩).1
    rw [hbuild] at hzero
    exact transformUserId_panics hno hacc _ hzero
  obtain ⟨hgc, hcr, -⟩ := hacc.bounds
  choose f hok hf using fun x : Fin (2 ^ (c + r)) => getUserId_mirrors hfit hacc x.2
  have hlt : ∀ x, f x < 2 ^ (c + r) := fun x => (hf x).lt (by omega) x.2
  have hinv : Function.Involutive fun x => (⟨f x, hlt x⟩ : Fin (2 ^ (c + r))) :=
    fun x => Fin.ext ((hf ⟨f x, hlt x⟩).eq (hf x).symm)
  refine ⟨hinv.toPerm, fun x => ⟨?_, ?_, ?_⟩, fun x y hblock hrealm => ?_⟩
  · rw [transformUserId, if_neg hacc]
    exact hok x
  · obtain ⟨y, hy, hmirror⟩ := getUserRegistrationId_mirrors hfit hacc x.2
    rw [hy, hmirror.eq (hf x)]
    rfl
  · exact (leSum_circuitUserIdBits (by omega) x.2).eq (hf x)
  · refine Fin.ext (eq_of_testBit_eq fun i => ?_)
    by_cases hi : i < g
    · -- bit `i` is a bit of the realm
      have hbit := congrArg (testBit · (g - 1 - i)) hrealm
      simp only [testBit_shiftRight] at hbit
      have hx := hf x (r + (g - 1 - i))
      have hy := hf y (r + (g - 1 - i))
      rw [if_pos (by omega), show g + r - 1 - (r + (g - 1 - i)) = i by omega] at hx hy
      exact hx.symm.trans (hbit.trans hy)
    · have hbit := congrArg (testBit · (i - g)) hblock
      simpa [testBit_div_two_pow, show g + (i - g) = i by omega,
        show i - g + g = i by omega] using hbit

/-- The heights of the genesis tool, two realms in a group, in a build with overflow checks. -/
theorem user_id_bijection_network : ∃ e : Fin (2 ^ (12 + 20)) ≃ Fin (2 ^ (12 + 20)),
    ∀ x : Fin (2 ^ (12 + 20)), transformUserId true 12 20 1 x = .ok (e x).val := by
  obtain ⟨e, he, _⟩ := (@user_id_bijection_iff true 12 20 1 (by unfold Accepted; decide)).mpr
    (.inr (by decide))
  exact ⟨e, fun x => (he x).1⟩

/-- **A FIELD OF NO BITS**: the heights are accepted, and with overflow checks the shift by 64
panics. -/
theorem user_id_zero_group :
    transformUserId true 1 1 0 0 = .error "attempt to shift right with overflow" := by
  decide +kernel

end PsyNode.UserId
