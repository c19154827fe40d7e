/-
PsyNode.Lib.GrowingTree
**TREES THAT GROW FROM LEFT TO RIGHT.**

When leaves are only ever appended, the tree as it was after leaf `j` can be
read off any later tree: cut the leaves after `j` off (`cutAfter`).  Climbing a path with
the right siblings replaced by empty trees computes its root (`climbAppend_path`).
-/
import PsyNode.Lib.MerkleTable

namespace PsyNode.Lib.Merkle

variable {H : Type}

/-- The leaves as they were when `j` was the last one. -/
def cutAfter (z : H) (leaf : Nat → H) (j : Nat) : Nat → H :=
  fun i => if i ≤ j then leaf i else z

variable {hash : H → H → H} {z : H} {leaf : Nat → H}

theorem cutAfter_eq_self {j : Nat} (h : ∀ i, j < i → leaf i = z) : cutAfter z leaf j = leaf := by
  funext i
  unfold cutAfter
  split
  next => rfl
  next hi => exact (h i (by omega)).symm

/-- A sub-tree with all its leaves before the cut is as in the full tree. -/
theorem subRoot_cutAfter_of_le {k i j : Nat} (h : (i + 1) * 2 ^ k - 1 ≤ j) :
    subRoot hash (cutAfter z leaf j) k i = subRoot hash leaf k i := by
  apply subRoot_congr
  intro m _ hm
  unfold cutAfter
  rw [if_pos (by omega)]

/-- A sub-tree with all its leaves after the cut is empty. -/
theorem subRoot_cutAfter_of_lt {k i j : Nat} (h : j < i * 2 ^ k) :
    subRoot hash (cutAfter z leaf j) k i = zeroAt hash z k := by
  apply subRoot_eq_zeroAt
  intro m hm _
  unfold cutAfter
  rw [if_neg (by omega)]

/-- A collision-free hash has the same root only for the same leaves. -/
theorem eq_of_subRoot_eq (hinj : ∀ a b c d, hash a b = hash c d → a = c ∧ b = d)
    {f g : Nat → H} (k i : Nat) (h : subRoot hash f k i = subRoot hash g k i) (j : Nat)
    (hlo : i * 2 ^ k ≤ j) (hhi : j < (i + 1) * 2 ^ k) : f j = g j := by
  induction k generalizing i with
  | zero =>
    rw [show j = i by omega]
    exact h
  | succ k ih =>
    obtain ⟨hleft, hright⟩ := hinj _ _ _ _ h
    obtain ⟨hstart, hmiddle, hend, hwhole⟩ := halves k i
    by_cases hj : j < (2 * i + 1) * 2 ^ k
    · exact ih (2 * i) hleft (by omega) hj
    · exact ih (2 * i + 1) hright (by omega) (by omega)

/-- If the leaves cut at `k` and at `k'` agree, nothing but empty leaves came in between. -/
theorem cutAfter_eq_of_between {k j k' : Nat} (hkj : k ≤ j) (hjk : j ≤ k')
    (h : cutAfter z leaf k = cutAfter z leaf k') : cutAfter z leaf j = cutAfter z leaf k' := by
  funext m
  have hm := congrFun h m
  unfold cutAfter at hm ⊢
  by_cases hmj : m ≤ j
  · rw [if_pos hmj, if_pos (by omega)]
  · rw [if_neg (by omega)] at hm
    rw [if_neg hmj]
    exact hm

/-- Climb a path of siblings starting at level `n` above the leaves, with every
right sibling taken to be empty. -/
def climbAppend (hash : H → H → H) (z : H) : Nat → H → Nat → List H → H
  | _, v, _, [] => v
  | n, v, i, s :: ss =>
    climbAppend hash z (n + 1) (if i % 2 = 0 then hash v (zeroAt hash z n) else hash s v)
      (i / 2) ss

/-- One step of the climb: the sub-tree on the column of leaf `i`, cut at `i`, with
an empty right sibling or the left sibling as it is in any later tree. -/
theorem subRoot_cutAfter_parent {i j : Nat} (hij : i ≤ j) (n : Nat) : (if i / 2 ^ n % 2 = 0 then
        hash (subRoot hash (cutAfter z leaf i) n (i / 2 ^ n)) (zeroAt hash z n)
      else hash (subRoot hash (cutAfter z leaf j) n (sibling (i / 2 ^ n)))
        (subRoot hash (cutAfter z leaf i) n (i / 2 ^ n))) =
      subRoot hash (cutAfter z leaf i) (n + 1) (i / 2 ^ (n + 1)) := by
  have hlo : i / 2 ^ n * 2 ^ n ≤ i := Nat.div_mul_le_self i (2 ^ n)
  have hhi : i < (i / 2 ^ n + 1) * 2 ^ n := by
    rw [Nat.add_mul, one_mul]; exact Nat.lt_div_mul_add (by positivity)
  rw [subRoot, pow_succ, ← Nat.div_div_eq_div_mul]
  generalize i / 2 ^ n = q at hlo hhi ⊢
  unfold sibling
  split
  next heven =>
    -- the right sibling starts after `i`
    rw [show 2 * (q / 2) = q by omega, subRoot_cutAfter_of_lt hhi]
  next hodd =>
    -- the left sibling ends before `i`
    obtain ⟨p, rfl⟩ : ∃ p, q = p + 1 := ⟨q - 1, by omega⟩
    rw [show 2 * ((p + 1) / 2) = p by omega, Nat.add_sub_cancel,
      @subRoot_cutAfter_of_le H hash z leaf n p j (by omega),
      @subRoot_cutAfter_of_le H hash z leaf n p i (by omega)]

/-- **THE APPEND ROOT.**  Along the path of leaf `i` in a tree cut at `j ≥ i`, from
level `n` above the leaves on, the climb gives the whole tree cut at `i`. -/
theorem climbAppend_path (i j : Nat) (hij : i ≤ j) (l n : Nat) :
    climbAppend hash z n (subRoot hash (cutAfter z leaf i) n (i / 2 ^ n)) (i / 2 ^ n)
        (path (fun l' q => subRoot hash (cutAfter z leaf j) (l + n - l') q) l (i / 2 ^ n)) =
      subRoot hash (cutAfter z leaf i) (l + n) (i / 2 ^ (l + n)) := by
  induction l generalizing n with
  | zero => rw [Nat.zero_add]; rfl
  | succ l ih =>
    rw [path, climbAppend, show l + 1 + n - (l + 1) = n by omega, subRoot_cutAfter_parent hij n,
      Nat.div_div_eq_div_mul, ← pow_succ]
    have hstep := ih (n + 1)
    rw [show l + (n + 1) = l + 1 + n by ring] at hstep
    exact hstep

/-- **A FRONTIER** of `n` leaves, read from level `l` up: at every set bit of `n` the root
of the complete sub-tree on the left of the column of leaf `n`.  The entries at the other
levels are left over from smaller trees. -/
def KeepsLeft (hash : H → H → H) (leaf : Nat → H) (n : Nat) : Nat → List H → Prop
  | _, [] => True
  | l, left :: frontier =>
    (n / 2 ^ l % 2 = 1 → left = subRoot hash leaf l (sibling (n / 2 ^ l))) ∧
      KeepsLeft hash leaf n (l + 1) frontier

/-- A later leaf does not touch the sub-trees of a frontier. -/
theorem KeepsLeft.congr {f g : Nat → H} {n : Nat} (hfg : ∀ j < n, f j = g j)
    {frontier : List H} {l : Nat} (h : KeepsLeft hash f n l frontier) :
    KeepsLeft hash g n l frontier := by
  induction frontier generalizing l with
  | nil => trivial
  | cons left frontier ih =>
    refine ⟨fun hodd => (h.1 hodd).trans (subRoot_congr l _ fun j _ hj => hfg j ?_), ih h.2⟩
    have hlo : n / 2 ^ l * 2 ^ l ≤ n := Nat.div_mul_le_self n (2 ^ l)
    generalize n / 2 ^ l = q at hodd hj hlo
    unfold sibling at hj
    rw [if_neg (by omega), Nat.sub_add_cancel (by omega)] at hj
    omega

end PsyNode.Lib.Merkle
