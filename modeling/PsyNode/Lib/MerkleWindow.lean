/-
PsyNode.Lib.MerkleWindow
**WINDOWS OPENED AGAINST A ROOT.**  A climb whose siblings come with the proof,
not from the tree, and a two-to-one hash without collisions:

  * a climb that ends in the root of a tree started from the sub-tree root at
    its place;
  * the same siblings then lead from any other content of that sub-tree to the
    root of the tree with that content.

Both are `climb_eq_subRoot`.  A window is written as a function on its own
positions; `opened_window` says the same about windows.
-/
import PsyNode.Lib.GrowingTree

namespace PsyNode.Lib.Merkle

variable {H : Type} {hash : H → H → H} {f g : Nat → H}

/-! ## §1. Moving a window. -/

theorem subRoot_shift (k c i : Nat) :
    subRoot hash (fun j => f (c * 2 ^ k + j)) k i = subRoot hash f k (c + i) := by
  induction k generalizing c i with
  | zero =>
    show f (c * 2 ^ 0 + i) = f (c + i)
    rw [pow_zero, mul_one]
  | succ k ih =>
    have hc : c * 2 ^ (k + 1) = (2 * c) * 2 ^ k := by ring
    unfold subRoot
    simp only [hc]
    rw [ih (2 * c) (2 * i), ih (2 * c) (2 * i + 1)]
    rw [show 2 * c + 2 * i = 2 * (c + i) by ring,
      show 2 * c + (2 * i + 1) = 2 * (c + i) + 1 by ring]

/-- The tree `f` with the window `i` of `2 ^ k` leaves replaced by `w`. -/
def replaceWindow (f w : Nat → H) (k i : Nat) : Nat → H :=
  fun j => if i * 2 ^ k ≤ j ∧ j < (i + 1) * 2 ^ k then w (j - i * 2 ^ k) else f j

theorem subRoot_replaceWindow (f w : Nat → H) (k i : Nat) :
    subRoot hash (replaceWindow f w k i) k i = subRoot hash w k 0 := by
  have hshift : subRoot hash (fun j => replaceWindow f w k i (i * 2 ^ k + j)) k 0 =
      subRoot hash (replaceWindow f w k i) k (i + 0) := subRoot_shift k i 0
  rw [Nat.add_zero] at hshift
  rw [← hshift]
  apply subRoot_congr
  intro j _ hj
  unfold replaceWindow
  rw [if_pos ⟨by omega, by rw [Nat.succ_mul]; omega⟩, Nat.add_sub_cancel_left]

/-! ## §2. Climbs that end in a known root. -/

/-- The place of a sub-tree under node `q`, one level further down. -/
theorem place_succ (q i n : Nat) :
    q * 2 ^ (n + 1) + i % 2 ^ (n + 1) = 2 * (q * 2 ^ n + i / 2 % 2 ^ n) + i % 2 := by
  have hmod : i % (2 * 2 ^ n) = i % 2 + 2 * (i / 2 % 2 ^ n) := Nat.mod_mul
  rw [show 2 ^ (n + 1) = 2 * 2 ^ n by ring, hmod]
  ring

section
variable (hinj : ∀ a b c d, hash a b = hash c d → a = c ∧ b = d)
include hinj

/-- **AN OPENING IS THE TREE'S**: the value is the sub-tree root at its place, and with the same
siblings every other content of that sub-tree leads to the root of the tree that has it. -/
theorem climb_eq_subRoot (ss : List H) (k i q : Nat) (v : H)
    (h : climb hash v i ss = subRoot hash f (k + ss.length) q) :
    v = subRoot hash f k (q * 2 ^ ss.length + i % 2 ^ ss.length) ∧
    ∀ g : Nat → H, (∀ j, j / 2 ^ k ≠ q * 2 ^ ss.length + i % 2 ^ ss.length → g j = f j) →
      climb hash (subRoot hash g k (q * 2 ^ ss.length + i % 2 ^ ss.length)) i ss =
        subRoot hash g (k + ss.length) q := by
  induction ss generalizing k i v with
  | nil =>
    simp only [List.length_nil, pow_zero, mul_one, Nat.mod_one, add_zero] at h ⊢
    exact ⟨h, fun g _ => rfl⟩
  | cons s ss ih =>
    simp only [List.length_cons] at h ⊢
    rw [place_succ, show k + (ss.length + 1) = k + 1 + ss.length by omega] at *
    rw [climb] at h
    obtain ⟨hparent, hreplace⟩ := ih (k + 1) (i / 2) _ h
    generalize q * 2 ^ ss.length + i / 2 % 2 ^ ss.length = p at hparent hreplace ⊢
    -- the value is the child `c` of `p`, and `s` is the other child
    obtain ⟨c, hc⟩ : ∃ c, 2 * p + i % 2 = c := ⟨_, rfl⟩
    have hp : c / 2 = p := by omega
    have hchildren : ∀ g : Nat → H, subRoot hash g (k + 1) p =
        if i % 2 = 0 then hash (subRoot hash g k c) (subRoot hash g k (sibling c))
        else hash (subRoot hash g k (sibling c)) (subRoot hash g k c) := by
      intro g
      rw [show i % 2 = c % 2 by omega, hash_sibling_eq hash (fun _ => subRoot hash g k) 0, hp]
      rfl
    rw [hchildren] at hparent
    obtain ⟨hv, hs⟩ : v = subRoot hash f k c ∧ s = subRoot hash f k (sibling c) := by
      split at hparent
      next => exact hinj _ _ _ _ hparent
      next => exact (hinj _ _ _ _ hparent).symm
    rw [hc]
    refine ⟨hv, ?_⟩
    intro g hg
    have hsibling : s = subRoot hash g k (sibling c) := by
      rw [hs]
      apply subRoot_congr
      intro j hlo hhi
      refine (hg j ?_).symm
      rw [Nat.div_eq_of_lt_le hlo hhi]
      exact sibling_ne c
    rw [climb, hsibling, ← hchildren]
    refine hreplace g ?_
    intro j hj
    refine hg j ?_
    rintro rfl
    rw [Nat.div_div_eq_div_mul, ← pow_succ] at hp
    exact hj hp

/-- **AN OPENED WINDOW**: its leaves are those of the tree at its place, and a window with other
leaves climbs to the root of the tree that has them there. -/
theorem opened_window {w : Nat → H} {k i : Nat} {ss : List H}
    (h : climb hash (subRoot hash w k 0) i ss = subRoot hash f (k + ss.length) 0) :
    (∀ j, j < 2 ^ k → w j = f (i % 2 ^ ss.length * 2 ^ k + j)) ∧
    ∀ w' : Nat → H, climb hash (subRoot hash w' k 0) i ss =
      subRoot hash (replaceWindow f w' k (i % 2 ^ ss.length)) (k + ss.length) 0 := by
  obtain ⟨hleaf, hreplace⟩ := climb_eq_subRoot hinj ss k i 0 _ h
  rw [Nat.zero_mul, Nat.zero_add] at hleaf hreplace
  constructor
  · intro j hj
    have hshift : subRoot hash (fun j => f (i % 2 ^ ss.length * 2 ^ k + j)) k 0 =
        subRoot hash f k (i % 2 ^ ss.length + 0) := subRoot_shift k _ 0
    rw [Nat.add_zero] at hshift
    rw [← hshift] at hleaf
    exact eq_of_subRoot_eq hinj k 0 hleaf j (by omega) (by omega)
  · intro w'
    rw [← subRoot_replaceWindow f w' k (i % 2 ^ ss.length)]
    refine hreplace _ ?_
    intro j hj
    exact if_neg (fun hin => hj (Nat.div_eq_of_lt_le hin.1 hin.2))

end

end PsyNode.Lib.Merkle
