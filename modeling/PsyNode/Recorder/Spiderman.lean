/-
PsyNode.Recorder.Spiderman
**BATCHED UPDATES WINDOW BY WINDOW.**

`append_leaves_spider_man` and `update_leaves_spider_man` work on aligned
windows of `2 ^ k` leaves.  One window is: write leaves inside it, rehash it
and the path above it, and return a Spiderman proof (`window_spec`).  A whole
call is a chain of windows, each proof starting at the root the previous one
ended at (`VerifiedChain`).

`append_leaves_spider_man` states zeros for every old leaf from the append
index on, so its proofs are good where those leaves are zero (`Appended.chain`);
the tree is settled in any case.
-/
import PsyNode.Recorder.Tree

namespace PsyNode.Recorder.SimpleMemoryMerkleRecorderStore

open Merkle Lib.WriteLog Lib.Merkle Lib List Nat Function

variable {Hash : Type} [MerkleZeroHasher Hash] [DecidableEq Hash] (st : RecorderStore Hash)

/-- Every stored internal node is the hash of its two children. -/
def TreeSettled : Prop :=
  Settled twoToOne st.table st.height

omit [DecidableEq Hash] in
theorem treeSettled_new (height : Nat) : (new height : RecorderStore Hash).TreeSettled := by
  unfold TreeSettled
  rw [table_new]
  exact settled_zero getZeroValue height

variable {st} in
theorem TreeSettled.setLeaf (hs : st.TreeSettled) (index : Nat) (value : Hash) :
    (st.setLeaf index value).1.TreeSettled := by
  unfold TreeSettled
  rw [height_setLeaf]
  exact setLeafFrom_settled hs index value

/-- The leaf values of the window `i` of `2 ^ k` leaves. -/
def windowLeaves (k i : Nat) : List Hash :=
  (List.range' (i * 2 ^ k) (2 ^ k)).map (st.table st.height)

/-- Each proof verifies and starts at the root where the previous one ended. -/
def VerifiedChain : Hash → List (SpidermanUpdateProof Hash) → Hash → Prop
  | oldRoot, [], newRoot => oldRoot = newRoot
  | oldRoot, proof :: proofs, newRoot =>
    proof.verify = true ∧ proof.topLineProof.oldRoot = oldRoot ∧
      VerifiedChain proof.topLineProof.newRoot proofs newRoot

theorem VerifiedChain.append {r₁ r₂ r₃ : Hash} {ps qs : List (SpidermanUpdateProof Hash)}
    (hp : VerifiedChain r₁ ps r₂) (hq : VerifiedChain r₂ qs r₃) :
    VerifiedChain r₁ (ps ++ qs) r₃ := by
  induction ps generalizing r₁ with
  | nil => rw [show r₁ = r₂ from hp]; exact hq
  | cons p ps ih => exact ⟨hp.1, hp.2.1, ih hp.2.2⟩

/-! ## §1. One window. -/

/-- The ancestors of a window that lie at or above its root form one column. -/
theorem aboveSpan_window {h k i l j : Nat} (hk : k ≤ h) (hl : l ≤ h - k)
    (hj : AboveSpan h (i * 2 ^ k) (i * 2 ^ k + 2 ^ k - 1) l j) : j = i / 2 ^ (h - k - l) := by
  obtain ⟨_, hlo, hhi⟩ := hj
  have hpos : 0 < 2 ^ k := by positivity
  have hexp : h - l = k + (h - k - l) := by omega
  rw [hexp, pow_add, ← Nat.div_div_eq_div_mul] at hlo hhi
  rw [Nat.mul_div_cancel _ hpos] at hlo
  have htop : (i * 2 ^ k + 2 ^ k - 1) / 2 ^ k = i := by
    rw [Nat.div_eq_of_lt_le]
    · omega
    · rw [Nat.add_mul]; omega
  rw [htop] at hhi
  omega

/-- **ONE WINDOW.**  From a settled store, leaf writes inside the window followed
by `rehash_sub_tree_dmp` of height at least 1 settle the store again and give a
verifying delta proof of the window's root. -/
theorem window_spec {st₀ st₁ st₂ : RecorderStore Hash} {k i : Nat} {dmp : DeltaMerkleProofCore Hash}
    (hs : st₀.TreeSettled) (hh : st₀.height ≤ 64) (hheight : st₁.height = st₀.height)
    (hw : ∀ l j, ¬ (l = st₀.height ∧ i * 2 ^ k ≤ j ∧ j ≤ i * 2 ^ k + 2 ^ k - 1) →
      st₁.table l j = st₀.table l j) (hk : 1 ≤ k) (hi : i * 2 ^ k < 2 ^ st₀.height)
    (hcall : st₁.rehashSubTreeDmp k i = .ok (st₂, dmp)) :
    st₂.TreeSettled ∧ st₂.height = st₀.height ∧
      (∀ j, st₂.table st₀.height j = st₁.table st₀.height j) ∧
      (⟨dmp, st₀.windowLeaves k i, st₂.windowLeaves k i⟩ :
        SpidermanUpdateProof Hash).verify = true ∧
      dmp.oldRoot = st₀.getRoot ∧ dmp.newRoot = st₂.getRoot ∧ dmp.index = i := by
  set h := st₀.height with hdef
  -- ===== the call =====
  obtain ⟨hkh, hst₂, hdmp⟩ := rehashSubTreeDmp_eq_ok hcall
  rw [hheight] at hkh hdmp
  have hi' : i < 2 ^ (h - k) := by
    rw [← Nat.sub_add_cancel hkh, pow_add] at hi
    exact Nat.lt_of_mul_lt_mul_right hi
  have hheight₂ : st₂.height = h := by
    rw [hst₂, (writes_rehashSubTree st₁ k i).height, hheight]
  have htable : st₂.table =
      rehashSpan twoToOne st₁.table h (i * 2 ^ k) (i * 2 ^ k + 2 ^ k - 1) := by
    rw [hst₂, table_rehashSubTree st₁ i hk (by omega), hheight]
  -- ===== the tables =====
  have hsettled : Settled twoToOne st₂.table h := by
    rw [htable]; exact Settled.rehashSpan_of_leaf_writes hs hw
  have hleaf : ∀ j, st₂.table h j = st₁.table h j := by
    intro j; rw [htable, rehashSpan_leaf]
  have hoff : ∀ l, 0 < l → l ≤ h - k → ∀ j, j ≠ i / 2 ^ (h - k - l) →
      st₂.table l j = st₀.table l j := by
    intro l _ hl j hj
    rw [htable, rehashSpan_frame, hw l j (by omega)]
    intro habove
    exact hj (aboveSpan_window hkh hl habove)
  have hroot₁ : st₁.getRoot = st₀.getRoot := hw 0 0 (by omega)
  have hvalue₁ : st₁.table (h - k) i = st₀.table (h - k) i := hw (h - k) i (by omega)
  -- ===== the proof =====
  obtain ⟨hpath, hold, hnew⟩ := climb_path_update hs hsettled (sub_le h k) i hoff
  rw [div_eq_of_lt hi'] at hold hnew
  have hdmp' : dmp = ⟨st₀.table 0 0, st₀.table (h - k) i, st₂.table 0 0, st₂.table (h - k) i, i,
      path st₀.table (h - k) i⟩ := by
    rw [hdmp, hpath, hvalue₁, hroot₁]
    rfl
  refine ⟨by unfold TreeSettled; rw [hheight₂]; exact hsettled, hheight₂, hleaf, ?_, ?_, ?_, ?_⟩
  · have hverify : dmp.verify = true := by
      rw [DeltaMerkleProofCore.verify_iff, hdmp']
      exact ⟨by rw [path_length]; omega, hold, hnew⟩
    have holdValue : dmp.oldValue = subRoot twoToOne (st₀.table h) k i := by
      rw [hdmp']; exact hs.eq_subRoot k hkh i
    have hnewValue : dmp.newValue = subRoot twoToOne (st₂.table h) k i := by
      rw [hdmp']; exact hsettled.eq_subRoot k hkh i
    simp [SpidermanUpdateProof.verify, hverify, windowLeaves, ← hdef, hheight₂,
      computeRootFromLeaves_window, holdValue, hnewValue]
  · rw [hdmp']; rfl
  · rw [hdmp']; rfl
  · rw [hdmp']

/-! ## §2. Appending. -/

/-- The leaves from `a` to `e` are zero. -/
def ZeroLeaves (st : RecorderStore Hash) (a e : Nat) : Prop :=
  ∀ j, a ≤ j → j < e → st.table st.height j = getZeroHash 0

/-- What appending `written` from leaf `start` on, in windows from `id` to leaf `stop`, leaves
behind: a settled tree with exactly those leaves new, and, where the leaves were zero before,
proofs of consecutive windows that verify one after another. -/
structure Appended (st : RecorderStore Hash) (id start stop : Nat) (written : List Hash)
    (st' : RecorderStore Hash) (proofs : List (SpidermanUpdateProof Hash)) : Prop where
  settled : st'.TreeSettled
  height_eq : st'.height = st.height
  leaves : st'.table st.height = (st.setRun st.height start written).table st.height
  chain : ZeroLeaves st start stop → VerifiedChain st.getRoot proofs st'.getRoot
  windows : proofs.map (fun proof => proof.topLineProof.index) = List.range' id proofs.length

theorem Appended.nil {st : RecorderStore Hash} (hs : st.TreeSettled)
    (id start stop : Nat) : Appended st id start stop [] st [] :=
  ⟨hs, rfl, rfl, fun _ => rfl, rfl⟩

variable {proofs : List (SpidermanUpdateProof Hash)} {st st' : RecorderStore Hash}

/-- **Appends compose** where the second starts behind the first. -/
theorem Appended.trans {st st₁ st₂ : RecorderStore Hash} {id id' start start' stop stop' : Nat}
    {ws ws' : List Hash} {ps ps' : List (SpidermanUpdateProof Hash)}
    (h : Appended st id start stop ws st₁ ps) (h' : Appended st₁ id' start' stop' ws' st₂ ps')
    (hid : id' = id + ps.length) (hstart : start' = start + ws.length) (hstop : stop ≤ stop') :
    Appended st id start stop' (ws ++ ws') st₂ (ps ++ ps') where
  settled := h'.settled
  height_eq := h'.height_eq.trans h.height_eq
  leaves := by
    have hleaves := h'.leaves
    rw [h.height_eq] at hleaves
    rw [hleaves, table_setRun_level, h.leaves, table_setRun_level, table_setRun_level, hstart,
      writeRun_append]
  chain := by
    intro hzero
    refine (h.chain fun j h1 h2 => hzero j h1 (by omega)).append (h'.chain fun j h1 h2 => ?_)
    -- the leaves behind the written ones stay zero
    rw [h.height_eq, h.leaves, table_setRun_frame st _ _ _ (by omega)]
    exact hzero j (by omega) h2
  windows := by
    rw [map_append, h.windows, h'.windows, length_append, hid, range'_append_1]

section
variable {k p : Nat} (hp : 2 ^ k = p) (hk : 1 ≤ k)
include hp hk

section
variable {id : Nat} {written : List Hash} {proof : SpidermanUpdateProof Hash} (hs : st.TreeSettled)
  (hh : st.height ≤ 64) (hid : id * p < 2 ^ st.height)
include hs hh hid

/-- One window of an append, written from offset `c` on.  Where it is zero from there on, the two
lists of leaves are the window before and after. -/
theorem appendWindow_spec {c : Nat} (hfit : c + written.length ≤ p)
    (hcall : st.appendWindow k id (id * p + c) written
      ((range' (id * p) c).map (st.table st.height) ++ replicate (p - c) (getZeroHash 0))
      ((range' (id * p) c).map (st.table st.height) ++ written ++
        replicate (p - (c + written.length)) (getZeroHash 0)) = .ok (st', proof)) :
    Appended st id (id * p + c) (id * p + p) written st' [proof] := by
  subst hp
  unfold appendWindow at hcall
  obtain ⟨⟨st₂, dmp⟩, hdmp, hcall⟩ := bind_eq_ok.mp hcall
  obtain ⟨rfl, rfl⟩ := Prod.mk.inj (pure_eq_ok.mp hcall)
  have hheight := (writes_setRun st st.height (id * 2 ^ k + c) written).height
  obtain ⟨hs', hheight', hleaf, hverify, hor, hnr, hindex⟩ := window_spec hs hh hheight
    (fun l j hout => table_setRun_frame st _ _ _ (by omega)) hk hid hdmp
  refine ⟨hs', hheight', funext hleaf, fun hzero => ⟨?_, hor, hnr⟩, congrArg (fun i => [i]) hindex⟩
  have hold := @map_writeRun_window Hash _ [] _ _ _ _ (by rw [length_nil]; omega) hzero
  rw [writeRun_nil, append_nil, length_nil, Nat.add_zero] at hold
  rw [← hold, ← map_writeRun_window hfit (fun j h1 h2 => hzero j (by omega) h2),
    ← table_setRun_level, ← funext hleaf]
  rw [windowLeaves, windowLeaves, hheight'] at hverify
  exact hverify

/-- A window that is written from its first leaf on. -/
theorem appendWindow_aligned (hfit : written.length ≤ p)
    (hcall : st.appendWindow k id (id * p) written (replicate p (getZeroHash 0))
      (written ++ replicate (p - written.length) (getZeroHash 0)) = .ok (st', proof)) :
    Appended st id (id * p) (id * p + p) written st' [proof] :=
  appendWindow_spec (c := 0) hp hk hs hh hid (by omega) (by simpa using hcall)

end

/-- The full windows between the first and the last, with one proof for each. -/
theorem appendMiddle_spec (cur n t : Nat) {leaves : List Hash}
    {proofs : List (SpidermanUpdateProof Hash)} (hs : st.TreeSettled) (hh : st.height ≤ 64)
    (hlen : n * p ≤ leaves.length) (hcap : (cur + t + 1) * p + n * p ≤ 2 ^ st.height)
    (hcall : appendMiddle k p cur n t leaves st = .ok (st', proofs)) :
    Appended st (cur + t + 1) ((cur + t + 1) * p) ((cur + t + 1) * p + n * p)
      (leaves.take (n * p)) st' proofs ∧ proofs.length = n := by
  have hpos : 0 < p := by rw [← hp]; positivity
  induction n generalizing t leaves st st' proofs with
  | zero =>
    cases hcall
    rw [Nat.zero_mul, take_zero]
    exact ⟨Appended.nil hs _ _ _, rfl⟩
  | succ n ih =>
    obtain ⟨⟨st₁, proof⟩, hwin, hcall⟩ := bind_eq_ok.mp hcall
    obtain ⟨⟨st₂, rest⟩, hrest, hcall⟩ := bind_eq_ok.mp hcall
    obtain ⟨rfl, rfl⟩ := Prod.mk.inj (pure_eq_ok.mp hcall)
    have hnext : (cur + (t + 1) + 1) * p = (cur + t + 1) * p + p := by ring
    have hsucc : (n + 1) * p = p + n * p := by ring
    have htake : (leaves.take p).length = p := by rw [length_take]; omega
    rw [show 1 + cur + t = cur + t + 1 by ring] at hwin
    have hfirst : Appended st (cur + t + 1) ((cur + t + 1) * p) ((cur + t + 1) * p + p)
        (leaves.take p) st₁ [proof] :=
      appendWindow_aligned hp hk hs hh (by omega) htake.le
        (by rw [htake, Nat.sub_self, replicate_zero, append_nil]; exact hwin)
    have hheight₁ := hfirst.height_eq
    obtain ⟨hafter, hlength⟩ := ih (t + 1) hfirst.settled (by omega)
      (by rw [length_drop]; omega) (by rw [hheight₁]; omega) hrest
    rw [hnext] at hafter
    rw [hsucc, take_add, ← Nat.add_assoc ((cur + t + 1) * p)]
    exact ⟨hfirst.trans hafter (by rw [length_singleton]; omega) (by omega) (by omega),
      by simp [hlength]⟩

end

variable {p : Nat}

/-- The window count of an append: with `count` windows, the last leaf written
lies in the last of them. -/
theorem ceilDivUsize_bounds {x cur n : Nat} (hp : 0 < p) (hcount : ceilDivUsize x p - cur = n + 1) :
    cur * p + n * p < x ∧ x ≤ cur * p + n * p + p := by
  unfold ceilDivUsize at hcount
  have hc : (x + p - 1) / p = cur + n + 1 := by omega
  have h1 := div_mul_le_self (x + p - 1) p
  have h2 := lt_div_mul_add (a := x + p - 1) hp
  rw [hc] at h1 h2
  have hexp : (cur + n + 1) * p = cur * p + n * p + p := by ring
  omega

theorem ceilDivUsize_bound (hp : 0 < p) (x : Nat) : x ≤ ceilDivUsize x p * p := by
  unfold ceilDivUsize
  have h := lt_div_mul_add (a := x + p - 1) hp
  omega

/-- **`append_leaves_spider_man_at_index`.**  The store is settled afterwards and, where the leaves
from the append index to the end of the last window were zero, the returned proofs verify one
after another. -/
theorem appendWindows_spec {k index : Nat} {leaves : List Hash}
    (hp : 2 ^ k = p) (hk : 1 ≤ k) (hs : st.TreeSettled) (hh : st.height ≤ 64)
    (hcap : index + leaves.length ≤ 2 ^ st.height)
    (hcall : st.appendWindows k p index leaves = .ok (st', proofs)) :
    Appended st (index / p) index (ceilDivUsize (index + leaves.length) p * p) leaves st'
      proofs := by
  have hpos : 0 < p := by rw [← hp]; positivity
  have hsplit : index / p * p + index % p = index := div_add_mod' index p
  have hmod : index % p < p := mod_lt _ hpos
  have hand : index &&& (p - 1) = index % p := by
    rw [← hp]; exact and_two_pow_sub_one_eq_mod index k
  unfold appendWindows at hcall
  dsimp only at hcall
  rw [hand, show st.getLeafValue = st.table st.height from rfl] at hcall
  generalize hcli : index % p = cli at *
  generalize hcur : index / p = cur at *
  cases hcount : ceilDivUsize (index + leaves.length) p - cur with
  | zero =>
    rw [hcount, if_pos rfl] at hcall
    cases hcall
    have hempty : leaves = [] := by
      rw [← length_eq_zero_iff]
      have hceil := ceilDivUsize_bound hpos (index + leaves.length)
      have hle := Nat.mul_le_mul_right p
        (show ceilDivUsize (index + leaves.length) p ≤ cur by omega)
      omega
    rw [hempty]
    exact Appended.nil hs _ _ _
  | succ n =>
    obtain ⟨hbelow, habove⟩ := ceilDivUsize_bounds hpos hcount
    have hceil : ceilDivUsize (index + leaves.length) p * p = cur * p + n * p + p := by
      rw [show ceilDivUsize (index + leaves.length) p = cur + n + 1 by omega]; ring
    rw [hceil]
    rw [hcount, if_neg (by omega), bind_eq_ok] at hcall
    obtain ⟨⟨st₁, first⟩, hfirst, hcall⟩ := hcall
    obtain ⟨⟨st₂, middle⟩, hmiddle, hcall⟩ := bind_eq_ok.mp hcall
    dsimp only at hmiddle hcall
    -- ===== first window =====
    have hadded : (leaves.take (p - cli)).length ≤ p - cli := by
      rw [length_take]; exact Nat.min_le_left _ _
    rw [length_map, length_range'] at hfirst
    have h₁ := appendWindow_spec hp hk hs hh (by omega) (by omega) hfirst
    have hheight₁ := h₁.height_eq
    rw [hsplit] at h₁
    cases n with
    | zero =>
      -- one window only
      rw [if_neg (by omega)] at hcall
      cases hmiddle
      obtain ⟨rfl, rfl⟩ := Prod.mk.inj (pure_eq_ok.mp hcall)
      rw [take_of_length_le (by omega)] at h₁
      rw [Nat.zero_mul, Nat.add_zero]
      exact h₁
    | succ m =>
      have hm : (m + 1) * p = m * p + p := by ring
      have hcur1 : (cur + 0 + 1) * p = cur * p + p := by ring
      have hlastid : (cur + (m + 1)) * p = cur * p + p + m * p := by ring
      rw [if_pos (by omega), bind_eq_ok] at hcall
      obtain ⟨⟨st₃, last⟩, hlast, hcall⟩ := hcall
      obtain ⟨rfl, rfl⟩ := Prod.mk.inj (pure_eq_ok.mp hcall)
      -- ===== full windows =====
      rw [show m + 1 + 1 - 2 = m by omega] at hmiddle hlast
      have htake : (leaves.take (p - cli)).length = p - cli := by
        rw [length_take]; omega
      obtain ⟨h₂, hmiddleLength⟩ := appendMiddle_spec hp hk cur m 0 h₁.settled (by omega)
        (by rw [length_drop]; omega) (by rw [hheight₁]; omega) hmiddle
      have h₁₂ := h₁.trans h₂ rfl (by omega) (by omega)
      rw [← take_add] at h₁₂
      have hheight₂ := h₁₂.height_eq
      have htake₂ : (leaves.take (p - cli + m * p)).length = p - cli + m * p := by
        rw [length_take]; omega
      -- ===== last window =====
      rw [show cur + (m + 1 + 1 - 1) = cur + (m + 1) by omega,
        show cur + (m + 1 + 1) - 1 = cur + (m + 1) by omega] at hlast
      have h₃ := appendWindow_aligned hp hk h₁₂.settled (by omega) (by rw [hheight₂]; omega)
        (by rw [length_drop]; omega) hlast
      have h₁₂₃ := h₁₂.trans h₃
        (by rw [length_append, length_singleton]; omega) (by omega) (by omega)
      rw [take_append_drop, hlastid] at h₁₂₃
      rw [show cur * p + (m + 1) * p + p = cur * p + p + m * p + p by omega]
      exact h₁₂₃

theorem appendLeavesSpiderManAtIndex_spec {k index : Nat} {leaves : List Hash} (hk : 1 ≤ k)
    (hs : st.TreeSettled)
    (h : st.appendLeavesSpiderManAtIndex k index leaves = .ok (st', proofs)) :
    Writes st st' ∧ Appended st (index / 2 ^ k) index
      (ceilDivUsize (index + leaves.length) (2 ^ k) * 2 ^ k) leaves st' proofs := by
  obtain ⟨lps, hlps, h⟩ := bind_eq_ok.mp h
  obtain ⟨maxLeaves, hmax, h⟩ := bind_eq_ok.mp h
  obtain ⟨hcap, h⟩ := ite_error_eq_ok.mp h
  have hheight := shl64_lt hmax
  rw [← shl64_eq_ok hmax] at hcap
  rw [← shl64_eq_ok hlps] at h
  exact ⟨((Follows.start st).appendWindows h).writes,
    appendWindows_spec rfl hk hs (by omega) (by omega) h⟩

/-! ## §3. Updating. -/

omit [MerkleZeroHasher Hash] [DecidableEq Hash] in
/-- Setting one entry of a window. -/
theorem map_range'_set (f g : Nat → Hash) (a n i : Nat) (v : Hash) (hlo : a ≤ i)
    (hself : g i = v) (hother : ∀ j, j ≠ i → g j = f j) :
    ((range' a n).map f).set (i - a) v = (range' a n).map g := by
  apply ext_getElem
  · rw [length_set, length_map, length_map]
  · intro m _ hm
    rw [getElem_set, getElem_map, getElem_map, getElem_range'_1]
    split
    next heq => rw [show a + m = i by omega, hself]
    next hne => rw [hother _ (by omega)]

/-- The text of the capacity check. -/
def capacityError (index maxLeaves : Nat) : String :=
  s!"leaf index {index} exceeds tree capacity {maxLeaves}"

/-- The updates `group`, all of the window `id` and inside the tree, are written. -/
structure WroteWindow (p maxLeaves id : Nat) (group : List (Nat × Hash))
    (st st' : RecorderStore Hash) : Prop where
  inside : ∀ u ∈ group, u.1 / p = id ∧ u.1 < maxLeaves
  height : st'.height = st.height
  table : st'.table = update st.table st.height (replay (st.table st.height) group)

/-- **THE INNER LOOP** writes the updates of one window, up to an index outside the tree or to the
first update of another window; then the new leaves are those of the window. -/
theorem writeUpdates_spec {maxLeaves id : Nat} (updates : List (Nat × Hash))
    {newLeaves : List Hash} {result : Except String (List (Nat × Hash) × List Hash)}
    (hnew : newLeaves = (range' (id * p) p).map (st.table st.height))
    (h : writeUpdates p maxLeaves id updates newLeaves st = (result, st')) :
    ∃ group rest, updates = group ++ rest ∧ WroteWindow p maxLeaves id group st st' ∧
      ((∃ v later, rest = v :: later ∧ v.1 / p = id ∧ maxLeaves ≤ v.1 ∧
          result = .error (capacityError v.1 maxLeaves)) ∨
        (∀ v ∈ rest.head?, v.1 / p ≠ id) ∧
          result = .ok (rest, (range' (id * p) p).map (st'.table st.height))) := by
  have hstop : WroteWindow p maxLeaves id [] st st := ⟨by simp, rfl, (update_eq_self _ _).symm⟩
  induction updates generalizing newLeaves st with
  | nil =>
    cases h
    exact ⟨[], [], rfl, hstop, .inr ⟨by simp, by rw [hnew]⟩⟩
  | cons u us ih =>
    unfold writeUpdates at h
    split at h
    next hin =>
      split at h
      next hout =>
        cases h
        exact ⟨[], u :: us, rfl, hstop, .inl ⟨u, us, rfl, hin, hout, rfl⟩⟩
      next hlt =>
        have hlo : id * p ≤ u.1 := by rw [← hin]; exact div_mul_le_self u.1 p
        have hset : newLeaves.set (u.1 - id * p) u.2 =
            (range' (id * p) p).map
              ((st.setNodeValue ⟨st.height, u.1⟩ u.2).table
                (st.setNodeValue ⟨st.height, u.1⟩ u.2).height) := by
          rw [hnew, setNodeValue_height, table_setNodeValue]
          exact map_range'_set _ _ _ _ _ _ hlo (Table.set_self _ _ _ _)
            (fun j hj => Table.set_of_ne _ _ (by simp [hj]))
        obtain ⟨group, rest, rfl, ⟨hgroup, hheight, htable⟩, hend⟩ :=
          ih hset h ⟨by simp, rfl, (update_eq_self _ _).symm⟩
        rw [setNodeValue_height] at hheight htable hend
        refine ⟨u :: group, rest, rfl, ⟨forall_mem_cons.mpr ⟨⟨hin, not_le.mp hlt⟩, hgroup⟩,
          hheight, ?_⟩, hend⟩
        rw [htable, table_setNodeValue, Table.set_level, Table.set_eq_update, update_idem]
        rfl
    next hout =>
      cases h
      refine ⟨[], u :: us, rfl, hstop, .inr ⟨?_, by rw [hnew]⟩⟩
      intro v hv
      rw [head?_cons, Option.mem_some_iff] at hv
      rwa [← hv]

/-- **THE ROUNDS OF `update_leaves_spider_man`** over sorted updates: each writes and rehashes one
window, unless it meets an index outside the tree or the windows are higher than the tree. -/
inductive UpdateRounds (k p maxLeaves : Nat) : List (Nat × Hash) → RecorderStore Hash →
    Except String (List (SpidermanUpdateProof Hash)) → RecorderStore Hash → Prop
  | done {st : RecorderStore Hash} : UpdateRounds k p maxLeaves [] st (.ok []) st
  | outside {id : Nat} {v : Nat × Hash} {group rest : List (Nat × Hash)}
      {st st' : RecorderStore Hash} (hw : WroteWindow p maxLeaves id group st st')
      (hv : v.1 / p = id) (hout : maxLeaves ≤ v.1) :
      UpdateRounds k p maxLeaves (group ++ v :: rest) st (.error (capacityError v.1 maxLeaves)) st'
  | tooHigh {id : Nat} {group rest : List (Nat × Hash)} {st st' : RecorderStore Hash}
      (hw : WroteWindow p maxLeaves id group st st') (hne : group ≠ [])
      (hrest : ∀ v ∈ rest.head?, v.1 / p ≠ id) (hk : st.height < k) :
      UpdateRounds k p maxLeaves (group ++ rest) st (.error "attempt to subtract with overflow") st'
  | window {id : Nat} {group rest : List (Nat × Hash)} {st st₁ st₂ st' : RecorderStore Hash}
      {dmp : DeltaMerkleProofCore Hash} {result : Except String (List (SpidermanUpdateProof Hash))}
      (hw : WroteWindow p maxLeaves id group st st₁) (hne : group ≠ [])
      (hrest : ∀ v ∈ rest.head?, v.1 / p ≠ id) (hdmp : st₁.rehashSubTreeDmp k id = .ok (st₂, dmp))
      (hlater : UpdateRounds k p maxLeaves rest st₂ result st') :
      UpdateRounds k p maxLeaves (group ++ rest) st (result.map (⟨dmp, (range' (id * p) p).map
        st.getLeafValue, (range' (id * p) p).map (st₁.table st.height)⟩ :: ·)) st'

/-- The outer loop makes these rounds. -/
theorem updateWindows_rounds {k maxLeaves : Nat} (fuel : Nat) {updates : List (Nat × Hash)}
    {result : Except String (List (SpidermanUpdateProof Hash))} (hlen : updates.length ≤ fuel)
    (h : updateWindows k p maxLeaves fuel updates st = (result, st')) :
    UpdateRounds k p maxLeaves updates st result st' := by
  induction fuel generalizing updates st st' result with
  | zero =>
    obtain rfl : updates = [] := length_eq_zero_iff.mp (by omega)
    cases h
    exact .done
  | succ fuel ih =>
    cases updates with
    | nil =>
      cases h
      exact .done
    | cons u us =>
      unfold updateWindows at h
      dsimp only at h
      split at h
      next e st₁ hwrite =>
        cases h
        obtain ⟨group, rest, hsplit, hw, ⟨v, later, rfl, hv, hout, he⟩ | ⟨_, he⟩⟩ :=
          writeUpdates_spec _ rfl hwrite
        · cases he
          rw [hsplit]
          exact .outside hw hv hout
        · cases he
      next rest newLeaves st₁ hwrite =>
        obtain ⟨group, _, hsplit, hw, ⟨_, _, _, _, _, he⟩ | ⟨hrest, he⟩⟩ :=
          writeUpdates_spec _ rfl hwrite
        · cases he
        cases he
        -- the window has its first update
        have hne : group ≠ [] := by
          rintro rfl
          exact hrest u (by rw [← nil_append rest, ← hsplit]; rfl) rfl
        have hlength : rest.length ≤ fuel := by
          have hpos := length_pos_of_ne_nil hne
          rw [hsplit, length_append] at hlen
          omega
        rw [hsplit]
        split at h
        next e hrehash =>
          cases h
          unfold rehashSubTreeDmp at hrehash
          split at hrehash
          next hk =>
            cases hrehash
            exact .tooHigh hw hne hrest (by rw [← hw.height]; exact hk)
          next => cases hrehash
        next st₂ dmp hdmp =>
          split at h
          next e st₃ hrec =>
            cases h
            exact .window hw hne hrest hdmp (ih hlength hrec)
          next results st₃ hrec =>
            cases h
            exact .window hw hne hrest hdmp (ih hlength hrec)

/-- A call that returns: no index is there twice, `1 << height` is a `u64`, and the windows were
updated in order. -/
theorem updateLeavesSpiderMan_eq_ok {k : Nat} {ids : List Nat} {leaves : List Hash}
    (h : st.updateLeavesSpiderMan k ids leaves = (.ok proofs, st')) :
    let sorted := (ids.zip leaves).insertionSort (fun a b => a.1 ≤ b.1)
    firstDuplicate sorted = none ∧ st.height < 64 ∧
      updateWindows k (2 ^ k) (2 ^ st.height) sorted.length sorted st = (.ok proofs, st') := by
  unfold updateLeavesSpiderMan at h
  split at h
  next => cases h
  next =>
    split at h
    next p maxLeaves hp hmax =>
      rw [shl64_eq_ok hp, shl64_eq_ok hmax]
      dsimp only at h
      split at h
      next => cases h
      next hnone => exact ⟨hnone, shl64_lt hmax, h⟩
    next => cases h

end PsyNode.Recorder.SimpleMemoryMerkleRecorderStore
