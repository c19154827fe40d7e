/-
PsyNode.Store.ImmAppend
**APPENDED LEAVES STAY, IF NONE OF THEM IS ZERO.**

None of this needs the nodes to be the hashes of their children: the search looks
only at which nodes are empty.
-/
import PsyNode.Lib.FilledTree
import PsyNode.Store.Imm

namespace PsyNode.Store

open Merkle Lib.Merkle Lib List SimpleMerkleNodeKey SymHash
open PsyMemoryMerkleStoreImm

/-! ## §1. Filled stores. -/

section
variable {S Hash : Type} [MerkleZeroHasher Hash] [PsyMemoryMerkleStoreImm S Hash]
  [LawfulMerkleStore S]

open LawfulMerkleStore

/-- The value of an empty sub-tree of height `n`. -/
abbrev emptyValue (n : Nat) : Hash := zeroAt twoToOne getZeroValue n

/-- The node at the root of the sub-tree `q` of height `m`, in a tree of height `h`. -/
def nodeAt (s : S) (h m q : Nat) : Hash := getNodeValue s ⟨h - m, q⟩

/-- The taken leaves are the first `c`: a node is empty exactly when it begins at or
behind leaf `c`. -/
structure Filled (s : S) (c : Nat) : Prop where
  valid : Valid s
  empty_iff : ∀ m q, m ≤ getHeight s → (nodeAt s (getHeight s) m q = emptyValue m ↔ c ≤ q * 2 ^ m)

variable {h : Nat}

/-- One node is written. -/
theorem node_set_of_ne (s : S) {m q : Nat} (value : Hash) {m' q' : Nat} (hm : m ≤ h)
    (hm' : m' ≤ h) (hne : ¬ (m' = m ∧ q' = q)) :
    nodeAt (setNodeValue s ⟨h - m, q⟩ value) h m' q' = nodeAt s h m' q' := by
  apply get_set_of_ne
  intro heq
  rw [mk.injEq] at heq
  omega

theorem node_set_self (s : S) {m q : Nat} (value : Hash) (hh : getHeight s = h) (hm : m ≤ h)
    (hv : Valid s) : nodeAt (setNodeValue s ⟨h - m, q⟩ value) h m q = value ∨
      nodeAt s h m q ≠ emptyValue m ∧
        nodeAt (setNodeValue s ⟨h - m, q⟩ value) h m q = nodeAt s h m q := by
  have hself := get_set_self s ⟨h - m, q⟩ value hv
  rw [zero_eq, hh, show h - (h - m) = m by omega, getZeroHash_eq_zeroAt] at hself
  exact hself

/-- Rehashing on the way to a store filled up to `c`: no node at or behind `c` becomes
non-empty, no node becomes empty, and the leaves stay. -/
structure Rehashing (h c : Nat) (s s' : S) : Prop where
  valid : Valid s'
  height : getHeight s' = h
  below : ∀ m q, m ≤ h → nodeAt s' h m q ≠ emptyValue m → q * 2 ^ m < c
  keeps : ∀ m q, m ≤ h → nodeAt s h m q ≠ emptyValue m → nodeAt s' h m q ≠ emptyValue m
  leaves : ∀ q, nodeAt s' h 0 q = nodeAt s h 0 q

variable {s : S} {c : Nat}

theorem Rehashing.refl (hv : Valid s) (hh : getHeight s = h)
    (hb : ∀ m q, m ≤ h → nodeAt s h m q ≠ emptyValue m → q * 2 ^ m < c) : Rehashing h c s s :=
  ⟨hv, hh, hb, fun _ _ _ h => h, fun _ => rfl⟩

theorem Rehashing.trans {s₁ s₂ : S} (h₁ : Rehashing h c s s₁)
    (h₂ : Rehashing h c s₁ s₂) : Rehashing h c s s₂ where
  valid := h₂.valid
  height := h₂.height
  below := h₂.below
  keeps m q hm hn := h₂.keeps m q hm (h₁.keeps m q hm hn)
  leaves q := (h₂.leaves q).trans (h₁.leaves q)

variable {s' : S}

theorem Rehashing.again (h' : Rehashing h c s s') : Rehashing h c s' s' :=
  Rehashing.refl h'.valid h'.height h'.below

/-- **One inner node is rehashed** to a value that is empty exactly behind `c`. -/
theorem Rehashing.set {m q : Nat} {value : Hash} (hs : Rehashing h c s s)
    (hm : m + 1 ≤ h) (hvalue : value = emptyValue (m + 1) ↔ c ≤ q * 2 ^ (m + 1)) :
    Rehashing h c s (setNodeValue s ⟨h - (m + 1), q⟩ value) ∧
      (q * 2 ^ (m + 1) < c →
        nodeAt (setNodeValue s ⟨h - (m + 1), q⟩ value) h (m + 1) q ≠ emptyValue (m + 1)) := by
  have hself := node_set_self s value hs.height hm (q := q) hs.valid
  have hmark : nodeAt (setNodeValue s ⟨h - (m + 1), q⟩ value) h (m + 1) q ≠ emptyValue (m + 1) ↔
      q * 2 ^ (m + 1) < c := by
    rcases hself with hself | ⟨hold, hself⟩
    · rw [hself, Ne, hvalue, not_le]
    · rw [hself]
      exact ⟨fun _ => hs.below _ _ hm hold, fun _ => hold⟩
  refine ⟨⟨valid_set _ _ _ hs.valid, (getHeight_set _ _ _).trans hs.height, ?_, ?_, ?_⟩, hmark.mpr⟩
  · intro m' q' hm' hn
    by_cases heq : m' = m + 1 ∧ q' = q
    · obtain ⟨rfl, rfl⟩ := heq
      exact hmark.mp hn
    · rw [node_set_of_ne s value hm hm' heq] at hn
      exact hs.below m' q' hm' hn
  · intro m' q' hm' hn
    by_cases heq : m' = m + 1 ∧ q' = q
    · obtain ⟨rfl, rfl⟩ := heq
      exact hmark.mpr (hs.below _ _ hm hn)
    · rw [node_set_of_ne s value hm hm' heq]
      exact hn
  · intro q'
    rw [node_set_of_ne s value hm (Nat.zero_le h) (by omega)]

variable (hu : EmptyUnique twoToOne (getZeroValue : Hash))

include hu in
/-- **`_rehash_recursive`** over a sub-tree whose leaves are taken up to `c`: the value it
returns, and the nodes it leaves behind. -/
theorem rehashRecursive_spec (n i : Nat) (s : S) (hn : n ≤ h) (hs : Rehashing h c s s)
    (hleaves : ∀ q, i * 2 ^ n ≤ q → q < (i + 1) * 2 ^ n → q < c →
      nodeAt s h 0 q ≠ emptyValue 0) :
    Rehashing h c s (rehashRecursive n ⟨h - n, i⟩ s).1 ∧
      ((rehashRecursive n ⟨h - n, i⟩ s).2 = emptyValue n ↔ c ≤ i * 2 ^ n) ∧
      ∀ m q, m ≤ n → i * 2 ^ n ≤ q * 2 ^ m → q * 2 ^ m < (i + 1) * 2 ^ n → q * 2 ^ m < c →
        nodeAt (rehashRecursive n ⟨h - n, i⟩ s).1 h m q ≠ emptyValue m := by
  induction n generalizing i s with
  | zero =>
    refine ⟨hs, ?_, ?_⟩
    · show nodeAt s h 0 i = emptyValue 0 ↔ _
      rw [pow_zero, mul_one]
      by_cases hc : c ≤ i
      · refine ⟨fun _ => hc, fun _ => ?_⟩
        by_contra hne
        have := hs.below 0 i (Nat.zero_le h) hne
        omega
      · exact ⟨fun h => absurd h (hleaves i (by omega) (by omega) (by omega)), fun h => absurd h hc⟩
    · intro m q hm h1 h2 h3
      obtain rfl : m = 0 := by omega
      rw [pow_zero, mul_one] at h1 h2 h3
      exact hleaves q (by omega) (by omega) h3
  | succ n ih =>
    obtain ⟨hstart, hmiddle, hend, hwhole⟩ := halves n i
    have hdown : h - (n + 1) + 1 = h - n := by omega
    have hpos : 0 < 2 ^ n := by positivity
    -- the left half, then the right half over what the left half left behind
    obtain ⟨hs₁, hleft, hmarks₁⟩ := ih (2 * i) s (by omega) hs
      (fun q h1 h2 h3 => hleaves q (by omega) (by omega) h3)
    obtain ⟨hs₂, hright, hmarks₂⟩ := ih (2 * i + 1) (rehashRecursive n ⟨h - n, 2 * i⟩ s).1
      (by omega) hs₁.again (by
        intro q h1 h2 h3
        rw [hs₁.leaves]
        exact hleaves q (by omega) (by omega) h3)
    have hvalue := hu.hash_eq_iff (n := n)
      (a := (rehashRecursive n ⟨h - n, 2 * i⟩ s).2)
      (b := (rehashRecursive n ⟨h - n, 2 * i + 1⟩ (rehashRecursive n ⟨h - n, 2 * i⟩ s).1).2)
    rw [hleft, hright, hstart, hmiddle] at hvalue
    replace hvalue := hvalue.trans (show _ ↔ c ≤ i * 2 ^ (n + 1) by omega)
    simp only [rehashRecursive, leftChild_mk, rightChild_mk, hdown]
    obtain ⟨hs₃, hself⟩ := hs₂.again.set (m := n) (q := i) (by omega) hvalue
    refine ⟨hs₁.trans (hs₂.trans hs₃), hvalue, ?_⟩
    intro m q hm h1 h2 h3
    by_cases hroot : m = n + 1
    · subst hroot
      obtain rfl : q = i := by
        have hle := Nat.le_of_mul_le_mul_right h1 (by positivity)
        have hlt := Nat.lt_of_mul_lt_mul_right h2
        omega
      exact hself h3
    · apply hs₃.keeps m q (by omega)
      by_cases hside : q * 2 ^ m < (2 * i + 1) * 2 ^ n
      · exact hs₂.keeps m q (by omega) (hmarks₁ m q (by omega) (by omega) hside h3)
      · exact hmarks₂ m q (by omega) (by omega) (by omega) h3

include hu in
/-- **`rehash_from_node_to_level`** from a node that is not empty: no ancestor is. -/
theorem rehashFromNodeToLevel_spec (l m q : Nat) (s : S) (hl : l + m = h)
    (hs : Rehashing h c s s) (hne : nodeAt s h m q ≠ emptyValue m) :
    Rehashing h c s (rehashFromNodeToLevel.go l ⟨l, q⟩ s) ∧ ∀ d, d ≤ l →
      nodeAt (rehashFromNodeToLevel.go l ⟨l, q⟩ s) h (m + d) (q / 2 ^ d) ≠ emptyValue (m + d) := by
  induction l generalizing m q s with
  | zero =>
    refine ⟨hs, ?_⟩
    intro d hd
    obtain rfl : d = 0 := by omega
    rw [pow_zero, Nat.div_one]
    exact hne
  | succ l ih =>
    have hparent : q / 2 * 2 ^ (m + 1) < c := by
      have hbelow := hs.below m q (by omega) hne
      have hle : q / 2 * 2 ^ (m + 1) ≤ q * 2 ^ m := by
        rw [show q / 2 * 2 ^ (m + 1) = q / 2 * 2 * 2 ^ m by ring]
        exact Nat.mul_le_mul_right _ (Nat.div_mul_le_self q 2)
      omega
    rw [rehashFromNodeToLevel.go, parent_mk_succ]
    -- the parent hashes a value that is not empty
    generalize hvalue : (if (mk (l + 1) q).index &&& 1 = 0 then
        twoToOne (getNodeValue s ⟨l + 1, q⟩) (getNodeValue s (mk (l + 1) q).sibling)
      else twoToOne (getNodeValue s (mk (l + 1) q).sibling)
        (getNodeValue s ⟨l + 1, q⟩)) = value
    have hself : getNodeValue s ⟨l + 1, q⟩ ≠ emptyValue m := by
      rw [show l + 1 = h - m by omega]
      exact hne
    have hfull : value ≠ emptyValue (m + 1) := by
      intro hempty
      rw [← hvalue] at hempty
      split at hempty
      next => exact hself (hu m _ _ hempty).1
      next => exact hself (hu m _ _ hempty).2
    have hmark : value = emptyValue (m + 1) ↔ c ≤ q / 2 * 2 ^ (m + 1) :=
      ⟨fun h => absurd h hfull, fun h => absurd h (by omega)⟩
    obtain ⟨hs₁, hnode⟩ := hs.set (by omega) hmark
    rw [show h - (m + 1) = l by omega] at hs₁ hnode
    obtain ⟨hs₂, habove⟩ := ih (m + 1) (q / 2) _ (by omega) hs₁.again (hnode hparent)
    refine ⟨hs₁.trans hs₂, ?_⟩
    intro d hd
    cases d with
    | zero =>
      rw [pow_zero, Nat.div_one]
      exact (hs₁.trans hs₂).keeps m q (by omega) hne
    | succ d =>
      have := habove d (by omega)
      rw [Nat.div_div_eq_div_mul, ← pow_succ', show m + 1 + d = m + (d + 1) by omega] at this
      exact this

/-! ## §2. Windows. -/

omit [MerkleZeroHasher Hash] [LawfulMerkleStore S] in
/-- The leaves of a store. -/
theorem getLeafValue_eq_nodeAt (hh : getHeight s = h) (q : Nat) :
    getLeafValue s q = nodeAt s h 0 q := by
  unfold getLeafValue nodeAt
  rw [hh, Nat.sub_zero]

/-- The leaves behind the filled part are empty. -/
theorem Filled.leaf_eq (hf : Filled s c) (q : Nat) : getLeafValue s q = emptyValue 0 ↔ c ≤ q := by
  have hmark := hf.empty_iff 0 q (Nat.zero_le _)
  rw [pow_zero, mul_one] at hmark
  exact hmark

/-- Writing the values of `g` over a span of leaves that are empty or have that value. -/
theorem setRun_spec (g : Nat → Hash) (n a : Nat) (s : S) (hv : Valid s) (hh : getHeight s = h)
    (hold : ∀ q, a ≤ q → q < a + n → nodeAt s h 0 q = emptyValue 0 ∨ nodeAt s h 0 q = g q) :
    Valid (setRun s a ((range' a n).map g)) ∧
      getHeight (setRun s a ((range' a n).map g)) = h ∧
      (∀ m q, m ≤ h → ¬ (m = 0 ∧ a ≤ q ∧ q < a + n) →
        nodeAt (setRun s a ((range' a n).map g)) h m q = nodeAt s h m q) ∧
      ∀ q, a ≤ q → q < a + n → nodeAt (setRun s a ((range' a n).map g)) h 0 q = g q := by
  induction n generalizing a s with
  | zero =>
    exact ⟨hv, hh, fun _ _ _ _ => rfl, fun q h1 h2 => absurd h2 (by omega)⟩
  | succ n ih =>
    rw [range'_succ, map_cons, setRun, hh]
    have hframe : ∀ m q, m ≤ h → ¬ (m = 0 ∧ q = a) →
        nodeAt (setNodeValue s ⟨h, a⟩ (g a)) h m q = nodeAt s h m q :=
      fun m q hm hne => node_set_of_ne s (g a) (Nat.zero_le h) hm hne
    have hself : nodeAt (setNodeValue s ⟨h, a⟩ (g a)) h 0 a = g a := by
      rcases node_set_self s (g a) hh (Nat.zero_le h) (q := a) hv with hself | ⟨hne, hself⟩
      · exact hself
      · exact hself.trans ((hold a (le_refl a) (by omega)).resolve_left hne)
    obtain ⟨hv', hh', hframe', hread⟩ := ih (a + 1) (setNodeValue s ⟨h, a⟩ (g a))
      (valid_set _ _ _ hv) ((getHeight_set _ _ _).trans hh) (by
        intro q h1 h2
        rw [hframe 0 q (Nat.zero_le h) (by omega)]
        exact hold q (by omega) (by omega))
    refine ⟨hv', hh', ?_, ?_⟩
    · intro m q hm hout
      rw [hframe' m q hm (by omega), hframe m q hm (by omega)]
    · intro q h1 h2
      by_cases hq : q = a
      · rw [hq, hframe' 0 a (Nat.zero_le h) (by omega), hself]
      · exact hread q (by omega) (by omega)

variable {dmp : DeltaMerkleProofCore Hash} {k : Nat}

include hu in
/-- Rehashing the window `w`, in which the leaves from `c` up to `c'` are new, fills the
store up to `c'`. -/
theorem rehashSubTreeDmp_spec {c' w : Nat}
    (hs : Rehashing h c' s s) (hw : w * 2 ^ k ≤ c) (hcc : c < c') (hc' : c' ≤ (w + 1) * 2 ^ k)
    (hkept : ∀ m q, m ≤ h → q * 2 ^ m < c → nodeAt s h m q ≠ emptyValue m)
    (hnew : ∀ q, c ≤ q → q < c' → nodeAt s h 0 q ≠ emptyValue 0)
    (hcall : rehashSubTreeDmp s k w = .ok (s', dmp)) : Filled s' c' ∧ Rehashing h c' s s' := by
  unfold rehashSubTreeDmp at hcall
  rw [ite_error_eq_ok, hs.height, not_lt] at hcall
  obtain ⟨hk, hcall⟩ := hcall
  obtain ⟨hs', _⟩ := Prod.mk.inj (Except.ok.inj hcall)
  have hleaves : ∀ q, w * 2 ^ k ≤ q → q < (w + 1) * 2 ^ k → q < c' →
      nodeAt s h 0 q ≠ emptyValue 0 := by
    intro q _ _ hq
    by_cases hqc : q < c
    · exact hkept 0 q (Nat.zero_le h) (by rw [pow_zero, mul_one]; exact hqc)
    · exact hnew q (by omega) hq
  -- ===== the sub-tree, then the path above it =====
  obtain ⟨hs₁, _, hmarks⟩ := rehashRecursive_spec hu k w s hk hs hleaves
  have htop : nodeAt (rehashRecursive k ⟨h - k, w⟩ s).1 h k w ≠ emptyValue k :=
    hmarks k w (le_refl k) (le_refl _) (by omega) (by omega)
  obtain ⟨hs₂, habove⟩ := rehashFromNodeToLevel_spec hu (h - k) k w _ (by omega) hs₁.again htop
  change rehashFromNodeToLevel.go (h - k) _ _ = s' at hs'
  rw [hs'] at hs₂ habove
  refine ⟨⟨hs₂.valid, ?_⟩, hs₁.trans hs₂⟩
  intro m q hm
  rw [hs₂.height] at hm ⊢
  constructor
  · intro hempty
    by_contra hq
    revert hempty
    by_cases hqc : q * 2 ^ m < c
    · exact hs₂.keeps m q hm (hs₁.keeps m q hm (hkept m q hm hqc))
    · by_cases hmk : m ≤ k
      · exact hs₂.keeps m q hm (hmarks m q hmk (by omega) (by omega) (by omega))
      · -- a node above the window that begins in it begins where the window begins
        obtain ⟨d, rfl⟩ : ∃ d, m = k + d := ⟨m - k, by omega⟩
        have hstart : q * 2 ^ (k + d) = q * 2 ^ d * 2 ^ k := by ring
        have hlo : w ≤ q * 2 ^ d := Nat.le_of_mul_le_mul_right (by omega) (Nat.two_pow_pos k)
        have hhi : q * 2 ^ d < w + 1 := Nat.lt_of_mul_lt_mul_right (a := 2 ^ k) (by omega)
        have hpath : w / 2 ^ d = q := by
          rw [show w = q * 2 ^ d by omega, Nat.mul_div_cancel _ (Nat.two_pow_pos d)]
        have hnode := habove d (by omega)
        rw [hpath] at hnode
        exact hnode
  · intro hq
    by_contra hne
    have hlt := hs₂.below m q hm hne
    omega

include hu in
/-- **ONE WINDOW.**  Setting the window in which a filled store ends to its old leaves,
some non-empty ones and zeros fills the store further. -/
theorem setSubTreeDmp_spec {c' w : Nat} {g : Nat → Hash} (hf : Filled s c) (hw : w * 2 ^ k ≤ c)
    (hcc : c < c') (hc' : c' ≤ (w + 1) * 2 ^ k) (hold : ∀ q, q < c → g q = getLeafValue s q)
    (hnew : ∀ q, c ≤ q → q < c' → g q ≠ emptyValue 0) (hpad : ∀ q, c' ≤ q → g q = emptyValue 0)
    (hcall : setSubTreeDmp s k w ((range' (w * 2 ^ k) (2 ^ k)).map g) = .ok (s', dmp)) :
    Filled s' c' ∧ getHeight s' = getHeight s ∧ getLeafValue s' = g := by
  have hwindow : (w + 1) * 2 ^ k = w * 2 ^ k + 2 ^ k := by ring
  have hmarks := hf.empty_iff
  generalize hh : getHeight s = h at hmarks
  have hleafOld : ∀ q, nodeAt s h 0 q = emptyValue 0 ↔ c ≤ q := fun q => by
    rw [← getLeafValue_eq_nodeAt hh, hf.leaf_eq]
  -- ===== the call =====
  unfold setSubTreeDmp at hcall
  obtain ⟨p, hp, hcall⟩ := bind_eq_ok.mp hcall
  rw [← shl64_eq_ok hp, ite_error_eq_ok, length_map, length_range', Nat.sub_self,
    replicate_zero, Nat.mul_comm (2 ^ k) w] at hcall
  replace hcall := hcall.2
  dsimp only at hcall
  rw [append_nil] at hcall
  -- ===== the leaves =====
  obtain ⟨hv₁, hh₁, hframe, hread⟩ := setRun_spec g (2 ^ k) (w * 2 ^ k) s hf.valid hh (by
    intro q h1 h2
    by_cases hq : q < c
    · exact Or.inr (by rw [hold q hq, getLeafValue_eq_nodeAt hh])
    · exact Or.inl ((hleafOld q).mpr (by omega)))
  generalize setRun s (w * 2 ^ k) ((range' (w * 2 ^ k) (2 ^ k)).map g) = s₁
    at hcall hv₁ hh₁ hframe hread
  have hleaf : ∀ q, nodeAt s₁ h 0 q = g q := by
    intro q
    by_cases hq : w * 2 ^ k ≤ q ∧ q < w * 2 ^ k + 2 ^ k
    · exact hread q hq.1 hq.2
    · rw [hframe 0 q (Nat.zero_le h) (by omega)]
      by_cases hqc : q < c
      · rw [hold q hqc, getLeafValue_eq_nodeAt hh]
      · rw [hpad q (by omega)]
        exact (hleafOld q).mpr (by omega)
  -- ===== the nodes before the rehash =====
  have hkept : ∀ m q, m ≤ h → q * 2 ^ m < c → nodeAt s₁ h m q ≠ emptyValue m := by
    intro m q hm hq
    by_cases hm0 : m = 0
    · subst hm0
      rw [pow_zero, mul_one] at hq
      rw [hleaf, hold q hq, getLeafValue_eq_nodeAt hh, Ne, hleafOld]
      omega
    · rw [hframe m q hm (by omega), Ne, hmarks m q hm]
      omega
  have hbelow : ∀ m q, m ≤ h → nodeAt s₁ h m q ≠ emptyValue m → q * 2 ^ m < c' := by
    intro m q hm hne
    by_contra hq
    apply hne
    by_cases hm0 : m = 0
    · subst hm0
      rw [pow_zero, mul_one] at hq
      exact (hleaf q).trans (hpad q (by omega))
    · rw [hframe m q hm (by omega), hmarks m q hm]
      omega
  obtain ⟨hfilled, hrehashed⟩ := rehashSubTreeDmp_spec hu (Rehashing.refl hv₁ hh₁ hbelow) hw hcc hc'
    hkept (fun q h1 h2 => by rw [hleaf]; exact hnew q h1 h2) hcall
  refine ⟨hfilled, hrehashed.height, ?_⟩
  funext q
  rw [getLeafValue_eq_nodeAt hrehashed.height, hrehashed.leaves, hleaf]

/-! ## §3. Calls. -/

/-- What appending non-zero leaves to a filled store leaves behind. -/
structure AppendedTo (s : S) (c : Nat) (leaves : List Hash) (s' : S) : Prop where
  filled : Filled s' (c + leaves.length)
  height : getHeight s' = getHeight s
  leaves_eq : getLeafValue s' = writeRun (getLeafValue s) c leaves

theorem AppendedTo.trans {s₁ s₂ : S} {vs ws : List Hash} (h₁ : AppendedTo s c vs s₁)
    (h₂ : AppendedTo s₁ (c + vs.length) ws s₂) : AppendedTo s c (vs ++ ws) s₂ where
  filled := by
    rw [length_append, ← Nat.add_assoc]
    exact h₂.filled
  height := h₂.height.trans h₁.height
  leaves_eq := by rw [h₂.leaves_eq, h₁.leaves_eq, writeRun_append]

include hu in
/-- **One window of the call**, whose leaves are those before the append index, the chunk
and zeros. -/
theorem appendWindow_spec
    {w n : Nat} {chunk : List Hash} (hf : Filled s (w * 2 ^ k + n)) (hpos : 0 < chunk.length)
    (hfit : n + chunk.length ≤ 2 ^ k) (hne : ∀ leaf ∈ chunk, leaf ≠ emptyValue 0)
    (hcall : setSubTreeDmp s k w ((range' (w * 2 ^ k) n).map (getLeafValue s) ++ chunk ++
      replicate (2 ^ k - (n + chunk.length)) (emptyValue 0)) = .ok (s', dmp)) :
    AppendedTo s (w * 2 ^ k + n) chunk s' := by
  have hwindow : (w + 1) * 2 ^ k = w * 2 ^ k + 2 ^ k := by ring
  rw [← map_writeRun_window hfit (fun j h1 _ => (hf.leaf_eq j).mpr (by omega))] at hcall
  obtain ⟨hfilled, hheight, hleaves⟩ := setSubTreeDmp_spec hu hf (Nat.le_add_right _ n)
    (show w * 2 ^ k + n < w * 2 ^ k + n + chunk.length by omega) (by omega)
    (fun q hq => writeRun_frame _ (by omega))
    (by
      intro q h1 h2
      obtain ⟨d, rfl⟩ : ∃ d, q = w * 2 ^ k + n + d := ⟨q - (w * 2 ^ k + n), by omega⟩
      rw [writeRun_of_lt _ (show d < chunk.length by omega)]
      exact hne _ (getElem_mem _))
    (by
      intro q hq
      rw [writeRun_frame _ (by omega)]
      exact (hf.leaf_eq q).mpr (by omega))
    hcall
  exact ⟨hfilled, hheight, hleaves⟩

omit [MerkleZeroHasher Hash] [LawfulMerkleStore S] in
theorem appendChunks_nil [MerkleHasher Hash] (k p : Nat) (z : Hash) (n w : Nat) (s : S) :
    appendChunks k p z n w [] s = .ok (s, []) := by
  cases n with
  | zero => rfl
  | succ n => rfl

/-- The window at the append index, then the chunks behind it, if leaves are left for them. -/
theorem AppendedTo.chunks {s₁ s₂ : S} {w o n : Nat} {leaves : List Hash}
    {rest : List (SpidermanUpdateProof Hash)} (ho : o ≤ 2 ^ k)
    (h₁ : AppendedTo s (w * 2 ^ k + o) (leaves.take (2 ^ k - o)) s₁)
    (hrest : appendChunks k (2 ^ k) (emptyValue 0) n (w + 1) (leaves.drop (2 ^ k - o)) s₁ =
      .ok (s₂, rest)) (h₂ : Filled s₁ ((w + 1) * 2 ^ k) →
      AppendedTo s₁ ((w + 1) * 2 ^ k) (leaves.drop (2 ^ k - o)) s₂) :
    AppendedTo s (w * 2 ^ k + o) leaves s₂ := by
  by_cases hshort : leaves.length ≤ 2 ^ k - o
  · rw [drop_of_length_le hshort, appendChunks_nil] at hrest
    cases hrest
    rwa [take_of_length_le hshort] at h₁
  · have hnext : w * 2 ^ k + o + (leaves.take (2 ^ k - o)).length = (w + 1) * 2 ^ k := by
      rw [length_take, Nat.succ_mul]
      omega
    have hf₁ := h₁.filled
    rw [hnext] at hf₁
    have h₂ := h₂ hf₁
    rw [← hnext] at h₂
    have h₁₂ := h₁.trans h₂
    rw [take_append_drop] at h₁₂
    exact h₁₂

include hu in
/-- The chunks behind the first window. -/
theorem appendChunks_spec (n w : Nat) {leaves : List Hash} {s s' : S}
    {proofs : List (SpidermanUpdateProof Hash)} (hf : Filled s (w * 2 ^ k))
    (hlen : leaves.length ≤ n) (hne : ∀ leaf ∈ leaves, leaf ≠ emptyValue 0)
    (hcall : appendChunks k (2 ^ k) (emptyValue 0) n w leaves s = .ok (s', proofs)) :
    AppendedTo s (w * 2 ^ k) leaves s' := by
  induction n generalizing w leaves s proofs with
  | zero =>
    obtain rfl : leaves = [] := length_eq_zero_iff.mp (by omega)
    cases hcall
    exact ⟨hf, rfl, (writeRun_nil _ _).symm⟩
  | succ n ih =>
    have hpow : 0 < 2 ^ k := Nat.two_pow_pos k
    unfold appendChunks at hcall
    split at hcall
    next hempty =>
      obtain rfl := isEmpty_iff.mp hempty
      cases hcall
      exact ⟨hf, rfl, (writeRun_nil _ _).symm⟩
    next hempty =>
      have hlpos := length_pos_of_ne_nil (mt isEmpty_iff.mpr hempty)
      dsimp only at hcall
      obtain ⟨⟨s₁, dmp⟩, hwin, hcall⟩ := bind_eq_ok.mp hcall
      obtain ⟨⟨s₂, rest⟩, hrest, hcall⟩ := bind_eq_ok.mp hcall
      obtain ⟨rfl, _⟩ := Prod.mk.inj (pure_eq_ok.mp hcall)
      dsimp only at hrest
      have htake : (leaves.take (2 ^ k)).length = min (2 ^ k) leaves.length :=
        length_take
      rw [← nil_append (leaves.take (2 ^ k)),
        ← map_nil (f := getLeafValue s), ← range'_zero (s := w * 2 ^ k),
        length_append, length_map, length_range'] at hwin
      have h₁ : AppendedTo s (w * 2 ^ k) (leaves.take (2 ^ k)) s₁ :=
        appendWindow_spec hu hf (by omega) (by omega)
          (fun leaf hleaf => hne leaf (mem_of_mem_take hleaf)) hwin
      exact h₁.chunks (o := 0) hpow.le hrest (fun hf₁ => ih (w + 1) hf₁
        (by rw [length_drop]; omega)
        (fun leaf hleaf => hne leaf (mem_of_mem_drop hleaf)) hrest)

variable [DecidableEq Hash]

/-- The search reads the node table. -/
theorem findFirstZeroLeafIndex_eq_firstEmpty (hh : getHeight s = h) (n i : Nat)
    (hn : n ≤ h) : findFirstZeroLeafIndex s n ⟨h - n, i⟩ =
      firstEmpty emptyValue (fun l i => getNodeValue s ⟨l, i⟩) h n i := by
  have hzero : ∀ n, n ≤ h → getZeroHashForLevel s (h - n) = emptyValue n := by
    intro n hn
    rw [zero_eq, hh, show h - (h - n) = n by omega, getZeroHash_eq_zeroAt]
  induction n generalizing i with
  | zero =>
    unfold findFirstZeroLeafIndex firstEmpty
    rw [hh, firstLeafChild_index i hn, hzero 0 hn, pow_zero, mul_one, Nat.sub_zero]
  | succ n ih =>
    unfold findFirstZeroLeafIndex firstEmpty
    rw [hh, firstLeafChild_index i hn, hzero (n + 1) hn,
      leftChild_mk, rightChild_mk, show h - (n + 1) + 1 = h - n by omega,
      ih (2 * i) (by omega), ih (2 * i + 1) (by omega)]

/-- **The append index of a filled store** is the number of its leaves. -/
theorem findNextAppendIndex_eq_ok {index : Nat} (hf : Filled s c)
    (h : findNextAppendIndex s = .ok index) : index = c := by
  have hsearch := findFirstZeroLeafIndex_eq_firstEmpty (s := s) rfl (getHeight s) 0 (le_refl _)
  have hfilled : FilledTo emptyValue (fun l i => getNodeValue s ⟨l, i⟩) (getHeight s) c :=
    fun n i hn _ => hf.empty_iff n i hn
  rw [firstEmpty_eq hfilled (getHeight s) 0 (le_refl _) (by rw [Nat.zero_add, one_mul]),
    Nat.sub_self, Nat.zero_mul, Nat.max_zero] at hsearch
  unfold findNextAppendIndex at h
  rw [show newRoot = ⟨0, 0⟩ from rfl, hsearch] at h
  by_cases hfull : (0 + 1) * 2 ^ getHeight s ≤ c
  · rw [if_pos hfull] at h
    cases h
  · rw [if_neg hfull] at h
    injection h with h
    exact h.symm

include hu in
/-- **ONE CALL** that appends non-zero leaves to a filled store. -/
theorem appendLeavesSpiderMan_spec {leaves : List Hash} {proofs : List (SpidermanUpdateProof Hash)}
    (hf : Filled s c) (hne : ∀ leaf ∈ leaves, leaf ≠ emptyValue 0)
    (hcall : appendLeavesSpiderMan s k leaves = .ok (s', proofs)) : AppendedTo s c leaves s' := by
  unfold appendLeavesSpiderMan at hcall
  split at hcall
  next hempty =>
    obtain rfl := isEmpty_iff.mp hempty
    cases hcall
    exact ⟨hf, rfl, (writeRun_nil _ _).symm⟩
  next hempty =>
    have hlpos := length_pos_of_ne_nil (mt isEmpty_iff.mpr hempty)
    obtain ⟨p, hp, hcall⟩ := bind_eq_ok.mp hcall
    obtain ⟨maxLeaves, _, hcall⟩ := bind_eq_ok.mp hcall
    obtain ⟨index, hindex, hcall⟩ := bind_eq_ok.mp hcall
    obtain rfl := findNextAppendIndex_eq_ok hf hindex
    rw [ite_error_eq_ok] at hcall
    replace hcall := hcall.2
    dsimp only at hcall
    obtain ⟨⟨s₁, dmp⟩, hwin, hcall⟩ := bind_eq_ok.mp hcall
    obtain ⟨⟨s₂, rest⟩, hrest, hcall⟩ := bind_eq_ok.mp hcall
    obtain ⟨rfl, _⟩ := Prod.mk.inj (pure_eq_ok.mp hcall)
    dsimp only at hrest
    have hzero : getZeroHashForLevel s (getHeight s) = emptyValue 0 := by
      rw [zero_eq, Nat.sub_self, getZeroHash_eq_zeroAt]
    obtain rfl := shl64_eq_ok hp
    have hmod : index % 2 ^ k < 2 ^ k := Nat.mod_lt _ (Nat.two_pow_pos k)
    have hsplit : index / 2 ^ k * 2 ^ k + index % 2 ^ k = index := Nat.div_add_mod' index (2 ^ k)
    rw [hzero] at hwin hrest
    generalize index % 2 ^ k = off at *
    generalize index / 2 ^ k = w at *
    subst hsplit
    have htake : (leaves.take (2 ^ k - off)).length = min (2 ^ k - off) leaves.length :=
      length_take
    -- ===== the first window, then the chunks behind it =====
    have h₁ := appendWindow_spec hu hf (by omega) (by omega)
      (fun leaf hleaf => hne leaf (mem_of_mem_take hleaf)) hwin
    exact h₁.chunks hmod.le hrest (fun hf₁ => appendChunks_spec hu leaves.length (w + 1) hf₁
      (by rw [length_drop]; omega)
      (fun leaf hleaf => hne leaf (mem_of_mem_drop hleaf)) hrest)

/-! ## §4. Runs of calls. -/

/-- Every call of a run appends non-zero leaves, in windows that fit into the tree (higher
windows panic). -/
def NonZeroCalls (h : Nat) (calls : List (Nat × List Hash)) : Prop :=
  ∀ call ∈ calls, call.1 ≤ h ∧ ∀ leaf ∈ call.2, leaf ≠ getZeroHash 0

include hu in
/-- **RUN: the taken leaves stay** through every call. -/
theorem appendCalls_spec (calls : List (Nat × List Hash)) {s : S} {c : Nat} (hf : Filled s c)
    (hcalls : NonZeroCalls h calls) : ∃ c', Filled (appendCalls s calls) c' ∧
      ∀ q, q < c → getLeafValue (appendCalls s calls) q = getLeafValue s q := by
  induction calls generalizing s c with
  | nil => exact ⟨c, hf, fun _ _ => rfl⟩
  | cons call calls ih =>
    have hstep : ∃ c₁, c ≤ c₁ ∧ Filled (appendCall s call) c₁ ∧
        ∀ q, q < c → getLeafValue (appendCall s call) q = getLeafValue s q := by
      unfold appendCall
      split
      next s' proofs hcall =>
        have happended := appendLeavesSpiderMan_spec hu hf
          (hcalls call (mem_cons_self ..)).2 hcall
        refine ⟨_, Nat.le_add_right _ _, happended.filled, ?_⟩
        intro q hq
        rw [happended.leaves_eq, writeRun_frame _ (by omega)]
      next => exact ⟨c, le_refl c, hf, fun _ _ => rfl⟩
    obtain ⟨c₁, hle, hf₁, hkeep₁⟩ := hstep
    obtain ⟨c', hf', hkeep⟩ := ih hf₁ (fun call' hmem =>
      hcalls call' (mem_cons_of_mem _ hmem))
    refine ⟨c', hf', ?_⟩
    intro q hq
    exact (hkeep q (by omega)).trans (hkeep₁ q hq)

include hu in
/-- **APPENDED LEAVES STAY WHERE THEY WERE PUT**, in every store whose leaves are taken
from the left, through every run of calls that append non-zero leaves. -/
theorem appended_leaves_stay {s s' : S} {c : Nat}
    (hf : Filled s c) (before after : List (Nat × List Hash)) (k : Nat) (leaves : List Hash)
    (hcalls : NonZeroCalls (getHeight s) (before ++ (k, leaves) :: after))
    {index : Nat} {proofs : List (SpidermanUpdateProof Hash)}
    (hindex : findNextAppendIndex (appendCalls s before) = .ok index)
    (hcall : appendLeavesSpiderMan (appendCalls s before) k leaves = .ok (s', proofs))
    (j : Nat) (hj : j < leaves.length) :
    getLeafValue (appendCalls s (before ++ (k, leaves) :: after)) (index + j) = leaves[j] := by
  have hbefore : NonZeroCalls (getHeight s) before := fun call hmem =>
    hcalls call (mem_append_left _ hmem)
  have hafter : NonZeroCalls (getHeight s) after := fun call hmem =>
    hcalls call (mem_append_right _ (mem_cons_of_mem _ hmem))
  have hthis := hcalls (k, leaves) (mem_append_right _ (mem_cons_self ..))
  obtain ⟨c₁, hf₁, _⟩ := appendCalls_spec hu before hf hbefore
  obtain rfl := findNextAppendIndex_eq_ok hf₁ hindex
  have happended := appendLeavesSpiderMan_spec hu hf₁ hthis.2 hcall
  obtain ⟨_, _, hkeep⟩ := appendCalls_spec hu after happended.filled hafter
  have hrun : appendCalls s (before ++ (k, leaves) :: after) = appendCalls s' after := by
    have hstep : appendCall (appendCalls s before) (k, leaves) = s' := by
      unfold appendCall
      rw [hcall]
    unfold appendCalls at hstep ⊢
    rw [foldl_append, foldl_cons, hstep]
  rw [hrun, hkeep _ (Nat.add_lt_add_left hj index), happended.leaves_eq, writeRun_of_lt _ hj]

end

/-- A new store is filled up to its first leaf. -/
theorem filled_new {Hash : Type} [MerkleZeroHasher Hash] [DecidableEq Hash] (height : Nat) :
    Filled (SimpleMemoryMerkleStoreV3.new height : StoreV3 Hash) 0 where
  valid := trivial
  empty_iff m q hm := by
    refine ⟨fun _ => Nat.zero_le _, fun _ => ?_⟩
    have hm' : m ≤ height := hm
    show getZeroHash (height - (height - m)) = _
    rw [show height - (height - m) = m by omega, getZeroHash_eq_zeroAt]

/-- Two leaves, one call each, in windows of two. -/
theorem appended_leaves_stay_two :
    getLeafValue (appendCalls (SimpleMemoryMerkleStoreV3.new 1 : SimpleMemoryMerkleStoreV3 SymHash)
      [(1, [leaf 7]), (1, [leaf 8])]) 0 = leaf 7 :=
  appended_leaves_stay (emptyUnique_of_injective (fun a b c d h => node.inj h))
    (filled_new 1) [] [(1, [leaf 8])] 1 [leaf 7]
    (by unfold NonZeroCalls; decide) rfl rfl 0 (by decide)

/-- **A ZERO LEAF MAKES THE NEXT CALL ERASE WHAT IS BEHIND IT.**  The first call puts
leaf 7 at index 1, behind a zero leaf.  The second call appends at index 0, states that
leaf 1 was zero, and sets it to zero. -/
theorem zero_leaf_append_erases :
    getLeafValue (appendCalls (SimpleMemoryMerkleStoreV3.new 1 : SimpleMemoryMerkleStoreV3 SymHash)
        [(1, [zero, .leaf 7])]) 1 = leaf 7 ∧
      getLeafValue (appendCalls
        (SimpleMemoryMerkleStoreV3.new 1 : SimpleMemoryMerkleStoreV3 SymHash)
        [(1, [zero, .leaf 7]), (1, [.leaf 8])]) 1 = zero := by
  refine ⟨rfl, rfl⟩

end PsyNode.Store
