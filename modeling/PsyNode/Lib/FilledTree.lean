/-
PsyNode.Lib.FilledTree
**TREES FILLED FROM THE LEFT.**  A tree of height `h` whose first `c` leaves are
taken and whose others are empty, and the search for the place of the next leaf: in a
filled tree it finds `c` (`firstEmpty_eq`).
-/
import PsyNode.Lib.MerkleTable

namespace PsyNode.Lib.Merkle

open List Function

variable {H : Type} {hash : H → H → H} {z : H} (f : Nat → H)

/-- The leaves with `vs` written from `c` on. -/
def writeRun (c : Nat) (vs : List H) : Nat → H :=
  fun j => if c ≤ j then (vs[j - c]?).getD (f j) else f j

/-- **Runs compose** where the second starts behind the first. -/
theorem writeRun_append (c : Nat) (vs ws : List H) :
    writeRun (writeRun f c vs) (c + vs.length) ws = writeRun f c (vs ++ ws) := by
  funext j
  unfold writeRun
  by_cases hc : c ≤ j
  · by_cases hlen : c + vs.length ≤ j
    · rw [if_pos hlen, if_pos hc, if_pos hc, getElem?_append_right (by omega),
        getElem?_eq_none (l := vs) (by omega), Nat.sub_sub]
      rfl
    · rw [if_neg hlen, if_pos hc, if_pos hc, getElem?_append_left (by omega)]
  · rw [if_neg (by omega), if_neg hc, if_neg hc]

theorem writeRun_nil (c : Nat) : writeRun f c [] = f := by
  funext j
  unfold writeRun
  split
  next => rfl
  next => rfl

variable {vs : List H}

/-- The written leaves. -/
theorem writeRun_of_lt {c j : Nat} (h : j < vs.length) : writeRun f c vs (c + j) = vs[j] := by
  unfold writeRun
  rw [if_pos (Nat.le_add_right c j), Nat.add_sub_cancel_left, getElem?_eq_getElem h]
  rfl

/-- The other leaves. -/
theorem writeRun_frame {c j : Nat} (h : ¬ (c ≤ j ∧ j < c + vs.length)) :
    writeRun f c vs j = f j := by
  unfold writeRun
  split
  next hc =>
    rw [getElem?_eq_none (by omega)]
    rfl
  next => rfl

/-- A run of writes changes one level, inside its span. -/
theorem update_writeRun_frame (T : Table H) {l c l' j : Nat}
    (h : ¬ (l' = l ∧ c ≤ j ∧ j < c + vs.length)) :
    update T l (writeRun (T l) c vs) l' j = T l' j := by
  by_cases hl : l' = l
  · subst hl
    rw [update_self, writeRun_frame _ (fun hj => h ⟨rfl, hj⟩)]
  · rw [update_of_ne hl]

/-- One node written, then a run behind it, is a longer run. -/
theorem update_writeRun_cons (T : Table H) (l c : Nat) (v : H) (vs : List H) :
    update (T.set l c v) l (writeRun (T.set l c v l) (c + 1) vs) =
      update T l (writeRun (T l) c (v :: vs)) := by
  have hone : update (T l) c v = writeRun (T l) c [v] := by
    funext j
    by_cases hj : j = c
    · rw [hj, update_self]
      exact (writeRun_of_lt (T l) (j := 0) (by simp : 0 < [v].length)).symm
    · rw [update_of_ne hj, writeRun_frame _ (by rw [length_singleton]; omega)]
  rw [Table.set_level, Table.set_eq_update, update_idem, hone]
  exact congrArg _ (writeRun_append (T l) c [v] vs)

/-- Reading a run back. -/
theorem map_writeRun (c : Nat) (vs : List H) : (range' c vs.length).map (writeRun f c vs) = vs := by
  apply ext_getElem
  · rw [length_map, length_range']
  · intro n _ hn
    rw [getElem_map, getElem_range'_1, writeRun_of_lt f hn]

/-- The values of a span of empty leaves. -/
theorem map_range'_eq_replicate {f : Nat → H} {a n : Nat}
    (hz : ∀ j, a ≤ j → j < a + n → f j = z) : (range' a n).map f = replicate n z := by
  rw [eq_replicate_iff]
  refine ⟨by rw [length_map, length_range'], ?_⟩
  intro b hb
  obtain ⟨j, hj, rfl⟩ := mem_map.mp hb
  rw [mem_range'_1] at hj
  exact hz j hj.1 hj.2

/-- **A window with a run written into it**, when everything behind the run is empty: the
leaves before the run, the run, and empty leaves. -/
theorem map_writeRun_window {f : Nat → H} {a n w : Nat} (hfit : n + vs.length ≤ w)
    (hzero : ∀ j, a + n + vs.length ≤ j → j < a + w → f j = z) :
    (range' a w).map (writeRun f (a + n) vs) =
      (range' a n).map f ++ vs ++ replicate (w - (n + vs.length)) z := by
  have hrange : range' a w =
      range' a n ++ range' (a + n) vs.length ++
        range' (a + n + vs.length) (w - (n + vs.length)) := by
    rw [range'_append_1, Nat.add_assoc a n, range'_append_1,
      show n + vs.length + (w - (n + vs.length)) = w by omega]
  have hfront : (range' a n).map (writeRun f (a + n) vs) = (range' a n).map f := by
    apply map_congr_left
    intro j hj
    rw [mem_range'_1] at hj
    exact writeRun_frame f (by omega)
  have hback : (range' (a + n + vs.length) (w - (n + vs.length))).map
      (writeRun f (a + n) vs) = replicate (w - (n + vs.length)) z := by
    apply map_range'_eq_replicate
    intro j h1 h2
    rw [writeRun_frame f (by omega)]
    exact hzero j h1 (by omega)
  rw [hrange, map_append, map_append, map_writeRun, hfront, hback]

/-- No hash but that of two empty sub-trees is the value of an empty sub-tree. -/
def EmptyUnique (hash : H → H → H) (z : H) : Prop :=
  ∀ n a b, hash a b = zeroAt hash z (n + 1) → a = zeroAt hash z n ∧ b = zeroAt hash z n

theorem EmptyUnique.hash_eq_iff (hu : EmptyUnique hash z) {n : Nat} {a b : H} :
    hash a b = zeroAt hash z (n + 1) ↔ a = zeroAt hash z n ∧ b = zeroAt hash z n := by
  constructor
  · exact hu n a b
  · intro h
    rw [h.1, h.2]
    rfl

/-- A hash without collisions leaves the empty sub-trees alone. -/
theorem emptyUnique_of_injective (hinj : ∀ a b c d, hash a b = hash c d → a = c ∧ b = d) :
    EmptyUnique hash z :=
  fun n a b h => hinj a b (zeroAt hash z n) (zeroAt hash z n) h

/-- The nodes of a tree of height `h` whose leaves are taken up to `c`. -/
def FilledTo (zero : Nat → H) (T : Table H) (h c : Nat) : Prop :=
  ∀ n i, n ≤ h → (i + 1) * 2 ^ n ≤ 2 ^ h → (T (h - n) i = zero n ↔ c ≤ i * 2 ^ n)

variable {T : Table H}

/-- **In a settled tree the leaves decide which nodes are empty.** -/
theorem Settled.filledTo {h c : Nat} (hT : Settled hash T h)
    (hu : EmptyUnique hash z) (hfull : ∀ j, j < c → T h j ≠ z)
    (hempty : ∀ j, c ≤ j → j < 2 ^ h → T h j = z) : FilledTo (zeroAt hash z) T h c := by
  intro n
  induction n with
  | zero =>
    intro i _ hi
    rw [pow_zero, mul_one] at hi ⊢
    show T h i = z ↔ c ≤ i
    by_cases hc : c ≤ i
    · exact ⟨fun _ => hc, fun _ => hempty i hc (by omega)⟩
    · exact ⟨fun h => absurd h (hfull i (by omega)), fun h => absurd h hc⟩
  | succ n ih =>
    intro i hn hi
    obtain ⟨hstart, hmiddle, hend, hwhole⟩ := halves n i
    have hpos : 0 < 2 ^ n := by positivity
    have hnode := hT (h - (n + 1)) (by omega) i
    unfold HashedAt at hnode
    rw [show h - (n + 1) + 1 = h - n by omega] at hnode
    rw [hnode, hu.hash_eq_iff, ih (2 * i) (by omega) (by omega),
      ih (2 * i + 1) (by omega) (by omega)]
    omega

section
variable [DecidableEq H]

/-- The first leaf of the first empty node, left to right, of the sub-tree `i` of
height `n`. -/
def firstEmpty (zero : Nat → H) (T : Table H) (h : Nat) : Nat → Nat → Option Nat
  | 0, i => if T h i = zero 0 then some i else none
  | n + 1, i =>
    if T (h - (n + 1)) i = zero (n + 1) then some (i * 2 ^ (n + 1))
    else (firstEmpty zero T h n (2 * i)).or (firstEmpty zero T h n (2 * i + 1))

/-- **THE SEARCH FINDS THE END OF THE FILLED PART**, if it lies in the sub-tree. -/
theorem firstEmpty_eq {zero : Nat → H} {h c : Nat} (hf : FilledTo zero T h c)
    (n i : Nat) (hn : n ≤ h) (hi : (i + 1) * 2 ^ n ≤ 2 ^ h) :
    firstEmpty zero T h n i =
      if (i + 1) * 2 ^ n ≤ c then none else some (max c (i * 2 ^ n)) := by
  induction n generalizing i with
  | zero =>
    have hleaf := hf 0 i hn hi
    rw [Nat.sub_zero] at hleaf
    rw [pow_zero, mul_one] at hi hleaf ⊢
    rw [mul_one]
    unfold firstEmpty
    by_cases hc : c ≤ i
    · rw [if_pos (hleaf.mpr hc), if_neg (by omega), Nat.max_eq_right hc]
    · rw [if_neg (fun h => hc (hleaf.mp h)), if_pos (by omega)]
  | succ n ih =>
    obtain ⟨hstart, hmiddle, hend, hwhole⟩ := halves n i
    have hpos : 0 < 2 ^ n := by positivity
    have hnode := hf (n + 1) i hn hi
    unfold firstEmpty
    by_cases hc : c ≤ i * 2 ^ (n + 1)
    · rw [if_pos (hnode.mpr hc), if_neg (by omega), Nat.max_eq_right hc]
    · rw [if_neg (fun h => hc (hnode.mp h)), ih (2 * i) (by omega) (by omega),
        ih (2 * i + 1) (by omega) (by omega), Nat.max_eq_left (by omega)]
      -- the end lies in the left half or not
      by_cases hleft : (2 * i + 1) * 2 ^ n ≤ c
      · rw [if_pos hleft, Option.none_or, hend, hwhole, Nat.max_eq_left (by omega),
          Nat.max_eq_left (by omega)]
      · rw [if_neg hleft, Option.some_or, if_neg (by omega), Nat.max_eq_left (by omega)]

end

end PsyNode.Lib.Merkle
