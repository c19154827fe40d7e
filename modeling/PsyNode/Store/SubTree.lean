/-
PsyNode.Store.SubTree
**`update_sub_tree` OF THE TWO STORES.**

The recorder rehashes a window level by level, `SimpleMemoryMerkleStoreV3` by recursion over the
sub-tree.  They end with the same root, but differ in whether a window may be filled to its end
(`update_sub_tree_full_window`), and an offset whose end overflows is refused only by a build that
checks overflows: `update_sub_tree_agree_iff`.
-/
import PsyNode.Recorder.Calls
import PsyNode.Store.Imm

namespace PsyNode.Merkle

/-! ## §1. Arithmetic of `u64`. -/

section
variable (checked : Bool)

/-- `a + b`: on overflow a build with checks panics, another one wraps. -/
def add64 (a b : Nat) : Except String Nat :=
  if a + b < 2 ^ 64 then .ok (a + b)
  else if checked then .error "attempt to add with overflow"
  else .ok ((a + b) % 2 ^ 64)

/-- `a * b`, likewise. -/
def mul64 (a b : Nat) : Except String Nat :=
  if a * b < 2 ^ 64 then .ok (a * b)
  else if checked then .error "attempt to multiply with overflow"
  else .ok (a * b % 2 ^ 64)

/-- A loop that writes `values` from `index` on: behind the last index a build with checks panics,
another one goes on at 0. -/
def run64 {S V : Type} (write : Nat → List V → S → S) (index : Nat) (values : List V) (s : S) :
    Except String S :=
  if index + values.length ≤ 2 ^ 64 then .ok (write index values s)
  else if checked then .error "attempt to add with overflow"
  else .ok (write 0 (values.drop (2 ^ 64 - index)) (write index (values.take (2 ^ 64 - index)) s))

end

variable {checked : Bool} {a b : Nat}

theorem add64_of_lt (h : a + b < 2 ^ 64) : add64 checked a b = .ok (a + b) := if_pos h

theorem mul64_of_lt (h : a * b < 2 ^ 64) : mul64 checked a b = .ok (a * b) := if_pos h

theorem run64_of_le {S V : Type} {write : Nat → List V → S → S} {values : List V} {s : S}
    (h : a + values.length ≤ 2 ^ 64) : run64 checked write a values s = .ok (write a values s) :=
  if_pos h

theorem unchecked_add64 (a b : Nat) : add64 false a b = .ok ((a + b) % 2 ^ 64) := by
  unfold add64
  split
  next hlt => rw [Nat.mod_eq_of_lt hlt]
  next => rfl

theorem unchecked_mul64 (a b : Nat) : mul64 false a b = .ok (a * b % 2 ^ 64) := by
  unfold mul64
  split
  next hlt => rw [Nat.mod_eq_of_lt hlt]
  next => rfl

theorem unchecked_run64 {S V : Type} (write : Nat → List V → S → S) (values : List V) (s : S) :
    ∃ s', run64 false write a values s = .ok s' := by
  unfold run64
  split
  next => exact ⟨_, rfl⟩
  next => exact ⟨_, rfl⟩

/-- A window of the tree ends inside it. -/
theorem window_end_lt {height k i : Nat} (hh : height < 64) (hk : k ≤ height)
    (hi : i < 2 ^ (height - k)) : 2 ^ k * i + 2 ^ k < 2 ^ 64 :=
  calc 2 ^ k * i + 2 ^ k = 2 ^ k * (i + 1) := by ring
    _ ≤ 2 ^ k * 2 ^ (height - k) := Nat.mul_le_mul_left _ hi
    _ = 2 ^ height := by rw [← pow_add, Nat.add_sub_cancel' hk]
    _ < 2 ^ 64 := Nat.pow_lt_pow_right (by decide) hh

end PsyNode.Merkle

/-! ## §2. The recorder. -/

namespace PsyNode.Recorder.SimpleMemoryMerkleRecorderStore

open Merkle Lib.Merkle Lib

variable {Hash : Type} [MerkleZeroHasher Hash] [DecidableEq Hash]

/-- The hash it returns is the root of the sub-tree. -/
def updateSubTree (checked : Bool) (st : RecorderStore Hash)
    (subTreeHeight subTreeIndex subTreeOffsetIndex : Nat) (values : List Hash) :
    Except String (RecorderStore Hash × Hash) := do
  let leavesPerSubTree ← shl64 subTreeHeight
  if (← add64 checked subTreeOffsetIndex values.length) ≥ leavesPerSubTree then
    .error "cannot set more values in a sub tree than it can contain"
  else if 1 < subTreeHeight ∧ st.height < subTreeHeight then
    .error "attempt to subtract with overflow"
  else
    let windowIndex ← mul64 checked leavesPerSubTree subTreeIndex
    let offsetIndex ← add64 checked windowIndex subTreeOffsetIndex
    let st' ← run64 checked (fun index values st => st.setRun st.height index values) offsetIndex
      values st
    let st' := st'.rehashSubTree subTreeHeight subTreeIndex
    .ok (st', st'.getNodeValue
      (SimpleMerkleNodeKey.parent^[subTreeHeight] ⟨st.height, windowIndex⟩))

theorem updateSubTree_spec (checked : Bool) {st : RecorderStore Hash} {k i offset : Nat}
    (hs : st.TreeSettled) (hh : st.height < 64) (hk : k ≤ st.height)
    (hi : i < 2 ^ (st.height - k)) {values : List Hash}
    (hsum : offset + values.length < 2 ^ 64) :
    Ends (fun res => offset + values.length < 2 ^ k ∧ res.1.getRoot = subRoot twoToOne
        (writeRun st.getLeafValue (2 ^ k * i + offset) values) st.height 0)
      (fun _ => ¬ offset + values.length < 2 ^ k) (st.updateSubTree checked k i offset values) := by
  unfold updateSubTree
  rw [shl64_of_lt (by omega), add64_of_lt hsum]
  show Ends _ _ (if offset + values.length ≥ 2 ^ k then _ else if _ ∧ st.height < k then _ else _)
  split
  next hfull => exact not_lt.mpr hfull
  next hroom =>
    rw [not_le] at hroom
    have hend := window_end_lt hh hk hi
    rw [if_neg (by omega), mul64_of_lt (by omega)]
    show Ends _ _ (add64 checked (2 ^ k * i) offset >>= _)
    rw [add64_of_lt (by omega)]
    show Ends _ _ (run64 _ _ (2 ^ k * i + offset) values st >>= _)
    rw [run64_of_le (by omega)]
    refine ⟨hroom, ?_⟩
    by_cases hzero : k = 0
    · -- a window of one leaf takes no values
      subst hzero
      obtain rfl : values = [] := List.length_eq_zero_iff.mp (by omega)
      rw [writeRun_nil]
      exact Settled.root_eq hs
    · have hheight := (writes_setRun st st.height (2 ^ k * i + offset) values).height
      have htable := table_rehashSubTree (st.setRun st.height (2 ^ k * i + offset) values) i
        (Nat.pos_of_ne_zero hzero) (by rw [hheight]; exact hk)
      rw [hheight] at htable
      have hroot := (Settled.rehashSpan_of_leaf_writes (a := i * 2 ^ k) (c := i * 2 ^ k + 2 ^ k - 1)
        hs (fun l j hout => table_setRun_frame st st.height (2 ^ k * i + offset) values
          (by rw [Nat.mul_comm i] at hout; omega))).root_eq
      rw [rehashSpan_leaf, table_setRun_level, ← htable] at hroot
      exact hroot

end PsyNode.Recorder.SimpleMemoryMerkleRecorderStore

/-! ## §3. The recursive store. -/

namespace PsyNode.Store

open Merkle Recorder Lib.Merkle Lib
open PsyMemoryMerkleStoreImm (setRun rehashRecursive)

namespace SimpleMemoryMerkleStoreV3

variable {Hash : Type} [MerkleZeroHasher Hash] [DecidableEq Hash]

/-- As of the recorder, with another comparison. -/
def updateSubTree (checked : Bool) (st : StoreV3 Hash)
    (subTreeHeight subTreeIndex subTreeOffset : Nat) (values : List Hash) :
    Except String (StoreV3 Hash × Hash) := do
  let leavesPerSubTree ← shl64 subTreeHeight
  if (← add64 checked subTreeOffset values.length) > leavesPerSubTree then
    .error "update exceeds sub-tree bounds"
  else if st.height < subTreeHeight then .error "attempt to subtract with overflow"
  else
    let windowIndex ← mul64 checked leavesPerSubTree subTreeIndex
    let startIndex ← add64 checked windowIndex subTreeOffset
    let st' ← run64 checked (fun index values st => setRun st index values) startIndex values st
    let subRootNode : NodeKey := ⟨st.height - subTreeHeight, subTreeIndex⟩
    let res := rehashRecursive subTreeHeight subRootNode st'
    .ok (res.1.rehashFromNodeToLevel subRootNode 0, res.2)

theorem setRun_spec (values : List Hash) (index : Nat) (st : StoreV3 Hash) :
    (setRun st index values).height = st.height ∧ (setRun st index values).table =
      Function.update st.table st.height (writeRun st.getLeafValue index values) := by
  induction values generalizing index st with
  | nil => exact ⟨rfl, by rw [writeRun_nil]; exact (Function.update_eq_self _ _).symm⟩
  | cons value values ih =>
    obtain ⟨hheight, htable⟩ := ih (index + 1) (st.setNodeValue ⟨st.height, index⟩ value)
    refine ⟨hheight.trans (setNodeValue_height _ _ _), htable.trans ?_⟩
    rw [setNodeValue_height, table_setNodeValue]
    refine Eq.trans ?_ (update_writeRun_cons st.table st.height index value values)
    rw [← table_setNodeValue]
    exact congrArg _ (congrArg (writeRun · _ _) (congrArg (table _) (setNodeValue_height _ _ _)))

/-- A run inside a sub-tree's window of leaves. -/
theorem setRun_window (st : StoreV3 Hash) {k i offset : Nat} {values : List Hash}
    (hroom : offset + values.length ≤ 2 ^ k) (l j : Nat)
    (hout : ¬ (l = st.height ∧ j / 2 ^ k = i)) :
    (setRun st (2 ^ k * i + offset) values).table l j = st.table l j := by
  rw [(setRun_spec _ _ st).2]
  refine update_writeRun_frame st.table (fun hin => hout ⟨hin.1, ?_⟩)
  exact Nat.div_eq_of_lt_le (by rw [Nat.mul_comm]; omega)
    (by rw [Nat.add_mul, Nat.mul_comm i]; omega)

/-- **`_rehash_recursive`** hashes the nodes of the sub-tree from its leaves, and leaves the
others alone. -/
theorem rehashRecursive_eq {h : Nat} (n : Nat) (i : Nat) (st : StoreV3 Hash)
    (hst : st.height = h) (hn : n ≤ h) :
    (rehashRecursive n ⟨h - n, i⟩ st).1.height = h ∧
    (rehashRecursive n ⟨h - n, i⟩ st).2 = subRoot twoToOne (st.table h) n i ∧
    ∀ l j, (rehashRecursive n ⟨h - n, i⟩ st).1.table l j =
      if h - n ≤ l ∧ l ≤ h ∧ j / 2 ^ (l - (h - n)) = i then subRoot twoToOne (st.table h) (h - l) j
      else st.table l j := by
  induction n generalizing i st with
  | zero =>
    refine ⟨hst, rfl, fun l j => ?_⟩
    split
    next hin =>
      obtain rfl : l = h := by omega
      rw [Nat.sub_self]
      rfl
    next => rfl
  | succ n ih =>
    obtain ⟨hh₁, hv₁, ht₁⟩ := ih (2 * i) st hst (by omega)
    obtain ⟨hh₂, hv₂, ht₂⟩ := ih (2 * i + 1) (rehashRecursive n ⟨h - n, 2 * i⟩ st).1 hh₁ (by omega)
    have hleaves : (rehashRecursive n ⟨h - n, 2 * i⟩ st).1.table h = st.table h := by
      funext j
      rw [ht₁, Nat.sub_self]
      exact ite_self _
    rw [hleaves] at hv₂ ht₂
    simp only [rehashRecursive, SimpleMerkleNodeKey.leftChild_mk,
      SimpleMerkleNodeKey.rightChild_mk, show h - (n + 1) + 1 = h - n by omega, hv₁, hv₂]
    refine ⟨(setNodeValue_height _ _ _).trans hh₂, rfl, fun l j => ?_⟩
    refine (congrFun₂ (table_setNodeValue _ _ _ _) l j).trans ?_
    by_cases hroot : l = h - (n + 1) ∧ j = i
    · obtain ⟨rfl, rfl⟩ := hroot
      rw [Table.set_self, if_pos (by simp), show h - (h - (n + 1)) = n + 1 by omega]
      rfl
    · rw [Table.set_of_ne _ _ hroot, ht₂, ht₁]
      by_cases hl : h - n ≤ l
      · have hdiv : j / 2 ^ (l - (h - (n + 1))) = j / 2 ^ (l - (h - n)) / 2 := by
          rw [Nat.div_div_eq_div_mul, ← pow_succ]
          congr 2
          omega
        split_ifs <;> first | rfl | omega
      · rw [if_neg (by omega), if_neg (by omega), if_neg]
        rintro ⟨hge, _, hj⟩
        obtain rfl : l = h - (n + 1) := by omega
        exact hroot ⟨rfl, by simpa using hj⟩

section
variable {st st₁ : StoreV3 Hash} {k i : Nat} {E : Nat → Nat → Prop}
  (hs : SettledOff twoToOne st.table st.height E) (hk : k ≤ st.height)
  (hheight : st₁.height = st.height)
  (hw : ∀ l j, ¬ (l = st.height ∧ j / 2 ^ k = i) → st₁.table l j = st.table l j)
include hs hk hheight hw

/-- The rehashed sub-tree leaves only the column above it to do. -/
theorem rehashRecursive_settledOff : SettledOff twoToOne
    (rehashRecursive k ⟨st.height - k, i⟩ st₁).1.table st.height
      (fun l j => AboveSpan (st.height - k) i i l j ∨ E l j) := by
  obtain ⟨_, _, ht⟩ := rehashRecursive_eq k i st₁ hheight hk
  intro l hl j hclean
  obtain ⟨habove, hj⟩ := not_or.mp hclean
  -- the children are in the sub-tree exactly if the node is
  have hchild : ∀ c, c / 2 = j → (st.height - k ≤ l + 1 ∧ c / 2 ^ (l + 1 - (st.height - k)) = i ↔
      st.height - k ≤ l ∧ j / 2 ^ (l - (st.height - k)) = i) := by
    intro c hc
    by_cases hle : st.height - k ≤ l
    · rw [show l + 1 - (st.height - k) = l - (st.height - k) + 1 by omega, pow_succ',
        ← Nat.div_div_eq_div_mul, hc]
      simp [hle, Nat.le_succ_of_le hle]
    · refine iff_of_false ?_ (fun h => hle h.1)
      rintro ⟨hle', hi⟩
      rw [show l + 1 - (st.height - k) = 0 by omega, pow_zero, Nat.div_one] at hi
      refine habove ⟨by omega, ?_⟩
      rw [show st.height - k - l = 1 by omega, pow_one]
      omega
  by_cases hin : st.height - k ≤ l ∧ j / 2 ^ (l - (st.height - k)) = i
  · have hval : ∀ c, c / 2 = j → (rehashRecursive k ⟨st.height - k, i⟩ st₁).1.table (l + 1) c =
        subRoot twoToOne (st₁.table st.height) (st.height - (l + 1)) c := by
      intro c hc
      have hc' := (hchild c hc).mpr hin
      rw [ht, if_pos ⟨hc'.1, hl, hc'.2⟩]
    unfold HashedAt
    rw [ht, if_pos ⟨hin.1, hl.le, hin.2⟩, hval _ (by omega), hval _ (by omega),
      show st.height - l = st.height - (l + 1) + 1 by omega]
    rfl
  · have hsame : ∀ l' c, l' ≤ st.height →
        ¬ (st.height - k ≤ l' ∧ c / 2 ^ (l' - (st.height - k)) = i) →
        (rehashRecursive k ⟨st.height - k, i⟩ st₁).1.table l' c = st.table l' c := by
      intro l' c hl' hout
      rw [ht, if_neg (fun h => hout ⟨h.1, h.2.2⟩), hw]
      rintro ⟨rfl, hc⟩
      rw [Nat.sub_sub_self hk] at hout
      exact hout ⟨Nat.sub_le _ _, hc⟩
    exact (hs l hl j hj).congr (hsame l j hl.le hin)
      (hsame _ _ hl (fun h => hin ((hchild _ (by omega)).mp h)))
      (hsame _ _ hl (fun h => hin ((hchild _ (by omega)).mp h)))

/-- **REHASHING A SUB-TREE** after writes to its leaves settles the tree. -/
theorem rehashSubTree_settledOff :
    let st' := (rehashRecursive k ⟨st.height - k, i⟩ st₁).1.rehashFromNodeToLevel
      ⟨st.height - k, i⟩ 0
    st'.height = st.height ∧ st'.table st.height = st₁.table st.height ∧
      SettledOff twoToOne st'.table st.height E := by
  have hoff := rehashRecursive_settledOff hs hk hheight hw
  obtain ⟨hheight₂, _, ht⟩ := rehashRecursive_eq k i st₁ hheight hk
  obtain ⟨htable, hheight'⟩ :=
    table_rehashFromNodeToLevel (rehashRecursive k ⟨st.height - k, i⟩ st₁).1 (st.height - k) i
  refine ⟨hheight'.trans hheight₂, funext fun j => ?_, ?_⟩
  · rw [htable, rehashSpan_frame _ _ _ _ _ _ (by unfold AboveSpan; omega), ht, Nat.sub_self]
    exact ite_self _
  · rw [htable]
    exact rehashSpan_settledOff _ (Nat.sub_le _ _) _ _ _ hoff

end

theorem updateSubTree_spec (checked : Bool) {st : StoreV3 Hash}
    {k i offset : Nat} (hs : st.TreeSettled) (hh : st.height < 64) (hk : k ≤ st.height)
    (hi : i < 2 ^ (st.height - k)) {values : List Hash}
    (hsum : offset + values.length < 2 ^ 64) :
    Ends (fun res => offset + values.length ≤ 2 ^ k ∧ res.1.getRoot = subRoot twoToOne
        (writeRun st.getLeafValue (2 ^ k * i + offset) values) st.height 0)
      (fun _ => ¬ offset + values.length ≤ 2 ^ k) (st.updateSubTree checked k i offset values) := by
  unfold updateSubTree
  rw [shl64_of_lt (by omega), add64_of_lt hsum]
  show Ends _ _ (if offset + values.length > 2 ^ k then _ else if st.height < k then _ else _)
  split
  next hfull => exact not_le.mpr hfull
  next hroom =>
    rw [not_lt] at hroom
    have hend := window_end_lt hh hk hi
    rw [if_neg (by omega), mul64_of_lt (by omega)]
    show Ends _ _ (add64 checked (2 ^ k * i) offset >>= _)
    rw [add64_of_lt (by omega)]
    show Ends _ _ (run64 _ _ (2 ^ k * i + offset) values st >>= _)
    rw [run64_of_le (by omega)]
    refine ⟨hroom, ?_⟩
    obtain ⟨hheight, htable⟩ := setRun_spec values (2 ^ k * i + offset) st
    obtain ⟨_, hleaves, hsettled⟩ := rehashSubTree_settledOff (E := fun _ _ => False)
      (fun l hl i _ => hs l hl i) hk hheight (st.setRun_window hroom)
    have hroot := Settled.root_eq (fun l hl i => hsettled l hl i id)
    rw [hleaves, htable, Function.update_self] at hroot
    exact hroot

/-- A build without checks accepts an offset that wraps into the window. -/
theorem updateSubTree_wraps {st : StoreV3 Hash} {k : Nat} (hh : st.height < 64)
    (hk : k ≤ st.height) (i : Nat) {offset : Nat} {values : List Hash}
    (hwraps : (offset + values.length) % 2 ^ 64 ≤ 2 ^ k) :
    ∃ res, st.updateSubTree false k i offset values = .ok res := by
  unfold updateSubTree
  rw [shl64_of_lt (by omega), unchecked_add64]
  show ∃ res, (if (offset + values.length) % 2 ^ 64 > 2 ^ k then _ else _) = _
  rw [if_neg (by omega), if_neg (by omega), unchecked_mul64]
  show ∃ res, (add64 false _ offset >>= _) = _
  rw [unchecked_add64]
  obtain ⟨st', hrun⟩ := unchecked_run64 (fun index values st => setRun st index values) values st
    (a := (2 ^ k * i % 2 ^ 64 + offset) % 2 ^ 64)
  exact ⟨_, bind_eq_ok.mpr ⟨_, rfl, bind_eq_ok.mpr ⟨st', hrun, rfl⟩⟩⟩

end SimpleMemoryMerkleStoreV3

/-! ## §4. Agreement. -/

/-- The offsets and values on which the two calls agree: the values do not end where the window
does, and if their end overflows, the build checks that, or it wraps to an end behind the window. -/
def WindowsAgree (checked : Bool) (k offset count : Nat) : Prop :=
  if offset + count < 2 ^ 64 then offset + count ≠ 2 ^ k
  else checked = true ∨ 2 ^ k < (offset + count) % 2 ^ 64

/-- **WHEN THE TWO `update_sub_tree` AGREE**: both set values that lie in the window and end with
the root of the leaves in which the window is replaced, or both refuse. -/
theorem update_sub_tree_agree_iff {Hash : Type} [MerkleZeroHasher Hash] [DecidableEq Hash]
    (checked : Bool) (recorder : SimpleMemoryMerkleRecorderStore Hash)
    (v3 : SimpleMemoryMerkleStoreV3 Hash) (hrecorder : recorder.TreeSettled)
    (hv3 : v3.TreeSettled) (hheight : v3.height = recorder.height)
    (hleaves : v3.getLeafValue = recorder.getLeafValue) (hh : recorder.height < 64)
    (k i offset : Nat) (values : List Hash) (hk : k ≤ recorder.height)
    (hi : i < 2 ^ (recorder.height - k)) :
    ((∃ res₁ res₂, recorder.updateSubTree checked k i offset values = .ok res₁ ∧
        v3.updateSubTree checked k i offset values = .ok res₂ ∧
        offset + values.length ≤ 2 ^ k ∧ res₁.1.getRoot = res₂.1.getRoot ∧
        res₁.1.getRoot = subRoot twoToOne
          (writeRun recorder.getLeafValue (2 ^ k * i + offset) values) recorder.height 0) ∨
      ∃ e₁ e₂, recorder.updateSubTree checked k i offset values = .error e₁ ∧
        v3.updateSubTree checked k i offset values = .error e₂) ↔
    WindowsAgree checked k offset values.length := by
  have hkWidth : 2 ^ k < 2 ^ 64 := Nat.pow_lt_pow_right (by decide) (by omega)
  unfold WindowsAgree
  split
  next hsum =>
    have h₁ := recorder.updateSubTree_spec checked hrecorder hh hk hi hsum
    have h₂ := v3.updateSubTree_spec checked hv3 (hheight ▸ hh) (hheight ▸ hk)
      (hheight ▸ hi) hsum
    rw [hheight, hleaves] at h₂
    cases hcall₁ : recorder.updateSubTree checked k i offset values with
    | ok res₁ =>
      obtain ⟨hroom, hroot₁⟩ := h₁.of_ok hcall₁
      cases hcall₂ : v3.updateSubTree checked k i offset values with
      | ok res₂ =>
        refine iff_of_true (.inl ⟨_, _, rfl, rfl, hroom.le, ?_, hroot₁⟩) hroom.ne
        exact hroot₁.trans (h₂.of_ok hcall₂).2.symm
      | error e₂ => exact absurd hroom.le (h₂.of_error hcall₂)
    | error e₁ =>
      have hnone := h₁.of_error hcall₁
      cases hcall₂ : v3.updateSubTree checked k i offset values with
      | ok res₂ =>
        -- only the values that end with the window are accepted by one of the two
        have hroom := (h₂.of_ok hcall₂).1
        exact iff_of_false (by simp) (not_not.mpr (by omega))
      | error e₂ =>
        have hfull := h₂.of_error hcall₂
        exact iff_of_true (.inr ⟨e₁, e₂, rfl, rfl⟩) (by omega)
  next hover =>
    cases checked with
    | true =>
      have hadd : add64 true offset values.length = .error "attempt to add with overflow" :=
        if_neg hover
      refine iff_of_true (.inr ⟨"attempt to add with overflow", "attempt to add with overflow", ?_,
        ?_⟩) (.inl rfl)
      · unfold SimpleMemoryMerkleRecorderStore.updateSubTree
        rw [shl64_of_lt (by omega), hadd]
        rfl
      · unfold SimpleMemoryMerkleStoreV3.updateSubTree
        rw [shl64_of_lt (by omega), hadd]
        rfl
    | false =>
      by_cases hbehind : 2 ^ k < (offset + values.length) % 2 ^ 64
      · refine iff_of_true (.inr ⟨"cannot set more values in a sub tree than it can contain",
          "update exceeds sub-tree bounds", ?_, ?_⟩) (.inr hbehind)
        · unfold SimpleMemoryMerkleRecorderStore.updateSubTree
          rw [shl64_of_lt (by omega), unchecked_add64]
          exact if_pos hbehind.le
        · unfold SimpleMemoryMerkleStoreV3.updateSubTree
          rw [shl64_of_lt (by omega), unchecked_add64]
          exact if_pos hbehind
      · obtain ⟨res, hres⟩ := v3.updateSubTree_wraps (hheight ▸ hh) (hheight ▸ hk) i
          (not_lt.mp hbehind)
        refine iff_of_false ?_ (by simpa using hbehind)
        rintro (⟨_, _, _, _, hroom, _⟩ | ⟨_, _, _, herror⟩)
        · omega
        · rw [hres] at herror
          cases herror

/-- The second leaf of two, in new trees. -/
theorem update_sub_tree_agree_new : let recorder : SimpleMemoryMerkleRecorderStore SymHash := .new 2
    let v3 : SimpleMemoryMerkleStoreV3 SymHash := .new 2
    ∃ res₁ res₂, recorder.updateSubTree true 2 0 1 [.leaf 1] = .ok res₁ ∧
      v3.updateSubTree true 2 0 1 [.leaf 1] = .ok res₂ ∧ res₁.1.getRoot = res₂.1.getRoot := by
  intro recorder v3
  rcases (update_sub_tree_agree_iff true recorder v3 (goodTree_new 2).settled
    (SimpleMemoryMerkleStoreV3.treeSettled_new 2) rfl rfl (by decide) 2 0 1 [.leaf 1] le_rfl
    (by decide)).mpr (by unfold WindowsAgree; decide) with
    ⟨res₁, res₂, h₁, h₂, _, hroot, _⟩ | ⟨e₁, _, herror, _⟩
  · exact ⟨res₁, res₂, h₁, h₂, hroot⟩
  · have hok : (recorder.updateSubTree true 2 0 1 [.leaf 1]).toBool := rfl
    rw [herror] at hok
    exact absurd hok (by simp [Except.toBool])

/-- **A WINDOW FILLED TO ITS END** is refused by the recorder only. -/
theorem update_sub_tree_full_window :
    (SimpleMemoryMerkleRecorderStore.new 1 : SimpleMemoryMerkleRecorderStore SymHash).updateSubTree
        true 1 0 0 [.leaf 1, .leaf 2] =
      .error "cannot set more values in a sub tree than it can contain" ∧
    ∃ st, (SimpleMemoryMerkleStoreV3.new 1).updateSubTree true 1 0 0
      [SymHash.leaf 1, .leaf 2] = .ok st :=
  ⟨rfl, _, rfl⟩

end PsyNode.Store
