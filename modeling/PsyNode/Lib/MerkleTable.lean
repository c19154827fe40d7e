/-
PsyNode.Lib.MerkleTable
**BINARY MERKLE TREES AS NODE TABLES.**

A tree of height `h` is looked at as a table that gives the value stored at
every (level, index) pair; level 0 holds the root and level `h` the leaves.
Nothing is assumed about the two-to-one hash: every statement holds for an
arbitrary `hash : H → H → H`, collisions included.

A table whose internal nodes hold the hashes of their children is *settled*, and then
determined by its leaves (`Settled.eq_subRoot`).  Recomputing the ancestors of a span
settles a table in which only they were dirty (`rehashSpan_settledOff`).
-/
import Mathlib.Tactic

namespace PsyNode.Lib.Merkle

open List Function

variable {H : Type}

/-! ## §1. Tables, and what it means for one to be settled. -/

/-- The value stored at every (level, index) pair. -/
abbrev Table (H : Type) := Nat → Nat → H

variable (T : Table H)

/-- Write one node. -/
def Table.set (l i : Nat) (v : H) : Table H :=
  fun l' i' => if l' = l ∧ i' = i then v else T l' i'

variable (l i : Nat)

theorem Table.set_self (v : H) : T.set l i v l i = v := by
  simp [Table.set]

theorem Table.set_of_ne {l i l' i' : Nat} (v : H) (h : ¬ (l' = l ∧ i' = i)) :
    T.set l i v l' i' = T l' i' := by
  simp [Table.set, h]

theorem Table.set_level (v : H) : T.set l i v l = update (T l) i v := by
  funext j
  simp [Table.set, update_apply]

theorem Table.set_eq_update (v : H) : T.set l i v = update T l (update (T l) i v) := by
  funext l'
  by_cases hl : l' = l
  · rw [hl, update_self, Table.set_level]
  · rw [update_of_ne hl]
    exact funext fun i' => T.set_of_ne v (fun h => hl h.1)

/-- The node `(l, i)` holds the hash of its two children. -/
def HashedAt (hash : H → H → H) (T : Table H) (l i : Nat) : Prop :=
  T l i = hash (T (l + 1) (2 * i)) (T (l + 1) (2 * i + 1))

/-- Every internal node outside `dirty` holds the hash of its two children. -/
def SettledOff (hash : H → H → H) (T : Table H) (h : Nat) (dirty : Nat → Nat → Prop) : Prop :=
  ∀ l, l < h → ∀ i, ¬ dirty l i → HashedAt hash T l i

/-- Every internal node holds the hash of its two children. -/
def Settled (hash : H → H → H) (T : Table H) (h : Nat) : Prop :=
  ∀ l, l < h → ∀ i, HashedAt hash T l i

variable {hash : H → H → H}

theorem HashedAt.congr {T T' : Table H} {l i : Nat} (hT : HashedAt hash T l i)
    (hself : T' l i = T l i) (hleft : T' (l + 1) (2 * i) = T (l + 1) (2 * i))
    (hright : T' (l + 1) (2 * i + 1) = T (l + 1) (2 * i + 1)) : HashedAt hash T' l i := by
  unfold HashedAt at *
  rw [hself, hleft, hright, hT]

/-! ## §2. Sub-tree roots computed from the leaves alone. -/

/-- The root of the sub-tree of height `k` whose position among the sub-trees
of that height is `i`, computed from the leaf values. -/
def subRoot (hash : H → H → H) (leaf : Nat → H) : Nat → Nat → H
  | 0, i => leaf i
  | k + 1, i => hash (subRoot hash leaf k (2 * i)) (subRoot hash leaf k (2 * i + 1))

/-- The value of an empty sub-tree of height `k`. -/
def zeroAt (hash : H → H → H) (z : H) : Nat → H
  | 0 => z
  | k + 1 => hash (zeroAt hash z k) (zeroAt hash z k)

/-- The halves of a sub-tree. -/
theorem halves (n i : Nat) :
    2 * i * 2 ^ n = i * 2 ^ (n + 1) ∧ (2 * i + 1) * 2 ^ n = i * 2 ^ (n + 1) + 2 ^ n ∧
      (2 * i + 1 + 1) * 2 ^ n = i * 2 ^ (n + 1) + 2 ^ n + 2 ^ n ∧
      (i + 1) * 2 ^ (n + 1) = i * 2 ^ (n + 1) + 2 ^ n + 2 ^ n := by
  refine ⟨by ring, by ring, by ring, by ring⟩

/-- A sub-tree root depends only on the leaves under it. -/
theorem subRoot_congr {f g : Nat → H} (k i : Nat)
    (h : ∀ j, i * 2 ^ k ≤ j → j < (i + 1) * 2 ^ k → f j = g j) :
    subRoot hash f k i = subRoot hash g k i := by
  induction k generalizing i with
  | zero => exact h i (by simp) (by simp)
  | succ k ih =>
    obtain ⟨hstart, hmiddle, hend, hwhole⟩ := halves k i
    unfold subRoot
    rw [ih (2 * i) fun j h1 h2 => h j (by omega) (by omega),
      ih (2 * i + 1) fun j h1 h2 => h j (by omega) (by omega)]

/-- A sub-tree all of whose leaves are empty has the empty value. -/
theorem subRoot_eq_zeroAt {f : Nat → H} {z : H} (k i : Nat)
    (h : ∀ j, i * 2 ^ k ≤ j → j < (i + 1) * 2 ^ k → f j = z) :
    subRoot hash f k i = zeroAt hash z k := by
  rw [subRoot_congr k i h]
  clear h
  induction k generalizing i with
  | zero => rfl
  | succ k ih => rw [subRoot, zeroAt, ih, ih]

variable {h : Nat}

/-- **A SETTLED TABLE IS DETERMINED BY ITS LEAVES.** -/
theorem Settled.eq_subRoot {T : Table H} (hT : Settled hash T h) (k : Nat) (hk : k ≤ h) (i : Nat) :
    T (h - k) i = subRoot hash (T h) k i := by
  induction k generalizing i with
  | zero => rfl
  | succ k ih =>
    have hl : h - (k + 1) + 1 = h - k := by omega
    have hnode := hT (h - (k + 1)) (by omega) i
    unfold HashedAt at hnode
    rw [hl] at hnode
    rw [hnode, ih (by omega), ih (by omega), subRoot]

/-- The root of a settled table is the Merkle root of its leaves. -/
theorem Settled.root_eq {T : Table H} (hT : Settled hash T h) : T 0 0 = subRoot hash (T h) h 0 := by
  have := hT.eq_subRoot h (le_refl h) 0
  rwa [Nat.sub_self] at this

/-- The sub-tree roots of any leaf function form a settled table. -/
theorem settled_subRoot (hash : H → H → H) (leaf : Nat → H) (h : Nat) :
    Settled hash (fun l q => subRoot hash leaf (h - l) q) h := by
  intro l hl i
  show subRoot hash leaf (h - l) i = _
  rw [show h - l = h - (l + 1) + 1 by omega]
  rfl

/-- The empty tree is settled. -/
theorem settled_zero (z : H) (h : Nat) : Settled hash (fun l _ => zeroAt hash z (h - l)) h := by
  intro l hl i
  show zeroAt hash z (h - l) = _
  have : h - l = (h - (l + 1)) + 1 := by omega
  rw [this, zeroAt]

/-! ## §3. Rehashing the ancestors of a span. -/

/-- Recompute the nodes `a ..= c` of level `l` from their children. -/
def rehashLevel (hash : H → H → H) (T : Table H) (l a c : Nat) : Table H :=
  fun l' i => if l' = l ∧ a ≤ i ∧ i ≤ c
    then hash (T (l + 1) (2 * i)) (T (l + 1) (2 * i + 1)) else T l' i

/-- Recompute all ancestors of the nodes `a ..= c` of level `l`, one level at a
time, up to the root. -/
def rehashSpan (hash : H → H → H) : Table H → Nat → Nat → Nat → Table H
  | T, 0, _, _ => T
  | T, l + 1, a, c => rehashSpan hash (rehashLevel hash T l (a / 2) (c / 2)) l (a / 2) (c / 2)

/-- Rehashing a single node is one write. -/
theorem rehashLevel_single : rehashLevel hash T l i i =
      T.set l i (hash (T (l + 1) (2 * i)) (T (l + 1) (2 * i + 1))) := by
  funext l' i'
  unfold rehashLevel Table.set
  by_cases h : l' = l ∧ i' = i
  · obtain ⟨rfl, rfl⟩ := h; simp
  · rw [if_neg h, if_neg (by omega)]

/-- The strict ancestors of the nodes `a ..= c` of level `L`. -/
def AboveSpan (L a c : Nat) (l i : Nat) : Prop :=
  l < L ∧ a / 2 ^ (L - l) ≤ i ∧ i ≤ c / 2 ^ (L - l)

/-- The ancestors of the span are those of the parents' span, and the parents. -/
theorem aboveSpan_succ {L a c l i : Nat} : AboveSpan (L + 1) a c l i ↔
      AboveSpan L (a / 2) (c / 2) l i ∨ (l = L ∧ a / 2 ≤ i ∧ i ≤ c / 2) := by
  unfold AboveSpan
  rcases Nat.lt_trichotomy l L with hl | rfl | hl
  · have hp : L + 1 - l = (L - l) + 1 := by omega
    rw [hp, pow_succ', ← Nat.div_div_eq_div_mul, ← Nat.div_div_eq_div_mul]
    constructor
    · rintro ⟨_, h1, h2⟩; exact .inl ⟨hl, h1, h2⟩
    · rintro (⟨_, h1, h2⟩ | ⟨rfl, _⟩)
      · exact ⟨by omega, h1, h2⟩
      · omega
  · have hp : l + 1 - l = 1 := by omega
    rw [hp, pow_one]
    constructor
    · rintro ⟨_, h1, h2⟩; exact .inr ⟨rfl, h1, h2⟩
    · rintro (⟨hlt, _⟩ | ⟨_, h1, h2⟩)
      · omega
      · exact ⟨by omega, h1, h2⟩
  · constructor
    · rintro ⟨hlt, _⟩; omega
    · rintro (⟨hlt, _⟩ | ⟨rfl, _⟩) <;> omega

/-- A node that is no ancestor of the span has no child in it. -/
theorem not_child_of_not_aboveSpan {L a c l i j : Nat} (hclean : ¬ AboveSpan L a c l i)
    (hj : j = 2 * i ∨ j = 2 * i + 1) : ¬ (l + 1 = L ∧ a ≤ j ∧ j ≤ c) := by
  rintro ⟨rfl, hlo, hhi⟩
  refine hclean ⟨by omega, ?_, ?_⟩
  all_goals
    rw [Nat.add_sub_cancel_left, pow_one]
    omega

theorem rehashLevel_of_not {T : Table H} {l a c l' i : Nat} (h : ¬ (l' = l ∧ a ≤ i ∧ i ≤ c)) :
    rehashLevel hash T l a c l' i = T l' i := by
  simp [rehashLevel, h]

/-- Rehashing one level moves the dirt one level up. -/
theorem rehashLevel_settledOff {T : Table H} {L a c : Nat} (hL : L < h) {E : Nat → Nat → Prop}
    (hT : SettledOff hash T h (fun l i => AboveSpan (L + 1) a c l i ∨ E l i)) :
    SettledOff hash (rehashLevel hash T L (a / 2) (c / 2)) h
      (fun l i => AboveSpan L (a / 2) (c / 2) l i ∨ E l i) := by
  intro l hl i hclean
  obtain ⟨hclean, hE⟩ := not_or.mp hclean
  by_cases hin : l = L ∧ a / 2 ≤ i ∧ i ≤ c / 2
  · -- a node of the rehashed level: it was just set to the hash of its children
    obtain ⟨rfl, hlo, hhi⟩ := hin
    unfold HashedAt
    simp [rehashLevel, hlo, hhi]
  · -- any other clean node: neither it nor its children were written
    have hold : HashedAt hash T l i := hT l hl i (by dsimp only; rw [aboveSpan_succ]; tauto)
    exact hold.congr (rehashLevel_of_not hin)
      (rehashLevel_of_not (not_child_of_not_aboveSpan hclean (.inl rfl)))
      (rehashLevel_of_not (not_child_of_not_aboveSpan hclean (.inr rfl)))

/-- **REHASHING A SPAN SETTLES THE TABLE.**  The ancestors of the span are not dirty
afterwards. -/
theorem rehashSpan_settledOff (L : Nat) (hL : L ≤ h) {E : Nat → Nat → Prop}
    (T : Table H) (a c : Nat) (hT : SettledOff hash T h (fun l i => AboveSpan L a c l i ∨ E l i)) :
    SettledOff hash (rehashSpan hash T L a c) h E := by
  induction L generalizing T a c with
  | zero =>
    intro l hl i hE
    exact hT l hl i (not_or.mpr ⟨by unfold AboveSpan; omega, hE⟩)
  | succ L ih =>
    exact ih (by omega) _ _ _ (rehashLevel_settledOff (by omega) hT)

/-- Only ancestors of the span are written. -/
theorem rehashSpan_frame (L : Nat) (T : Table H) (a c l i : Nat) (hout : ¬ AboveSpan L a c l i) :
    rehashSpan hash T L a c l i = T l i := by
  induction L generalizing T a c l i with
  | zero => rfl
  | succ L ih =>
    rw [aboveSpan_succ, not_or] at hout
    unfold rehashSpan
    rw [ih _ _ _ _ _ hout.1, rehashLevel_of_not hout.2]

theorem rehashSpan_leaf (L a c : Nat) : rehashSpan hash T L a c L = T L := by
  funext i
  exact rehashSpan_frame L T a c L i (by unfold AboveSpan; omega)

section
variable {T T' : Table H} {h a c : Nat} (hT : Settled hash T h)
  (hw : ∀ l i, ¬ (l = h ∧ a ≤ i ∧ i ≤ c) → T' l i = T l i)
include hT hw

/-- **THE UPDATE RULE.**  Write leaves inside a span, rehash above the span:
the table is settled again. -/
theorem Settled.rehashSpan_of_leaf_writes : Settled hash (rehashSpan hash T' h a c) h := by
  intro l hl i
  refine rehashSpan_settledOff (E := fun _ _ => False) h le_rfl T' a c ?_ l hl i id
  intro l hl i hclean
  have hclean := (not_or.mp hclean).1
  exact (hT l hl i).congr (hw _ _ (by omega))
    (hw _ _ (not_child_of_not_aboveSpan hclean (.inl rfl)))
    (hw _ _ (not_child_of_not_aboveSpan hclean (.inr rfl)))

end

/-! ## §4. Paths. -/

/-- The other child of the same parent. -/
def sibling (i : Nat) : Nat := if i % 2 = 0 then i + 1 else i - 1

/-- Hash a value upwards along a path of siblings, the low bit of the index
saying on which side the value stands. -/
def climb (hash : H → H → H) : H → Nat → List H → H
  | v, _, [] => v
  | v, i, s :: ss => climb hash (if i % 2 = 0 then hash v s else hash s v) (i / 2) ss

theorem climb_append (hash : H → H → H) (v : H) (i : Nat) (ss ts : List H) :
    climb hash v i (ss ++ ts) = climb hash (climb hash v i ss) (i / 2 ^ ss.length) ts := by
  induction ss generalizing v i with
  | nil => rw [nil_append, climb, length_nil, pow_zero, Nat.div_one]
  | cons s ss ih =>
    rw [cons_append, climb, climb, ih, length_cons, pow_succ', Nat.div_div_eq_div_mul]

/-- A climb reads only as many bits of the index as there are siblings. -/
theorem climb_mod (hash : H → H → H) (v : H) (i : Nat) (ss : List H) :
    climb hash v (i % 2 ^ ss.length) ss = climb hash v i ss := by
  induction ss generalizing v i with
  | nil => rfl
  | cons s ss ih =>
    rw [climb, climb, length_cons, pow_succ', Nat.mod_mul_right_mod, Nat.mod_mul_right_div_self, ih]

/-- The siblings met on the way from node `(l, i)` to the root. -/
def path (T : Table H) : Nat → Nat → List H
  | 0, _ => []
  | l + 1, i => T (l + 1) (sibling i) :: path T l (i / 2)

@[simp] theorem path_length : (path T l i).length = l := by
  induction l generalizing i with
  | zero => rfl
  | succ l ih => simp [path, ih]

/-- A node and its sibling, hashed in index order, are the parent's children. -/
theorem hash_sibling_eq (hash : H → H → H) (T : Table H) (l i : Nat) :
    (if i % 2 = 0 then hash (T l i) (T l (sibling i)) else hash (T l (sibling i)) (T l i)) =
      hash (T l (2 * (i / 2))) (T l (2 * (i / 2) + 1)) := by
  unfold sibling
  split
  · rw [show 2 * (i / 2) = i by omega]
  · rw [show 2 * (i / 2) = i - 1 by omega, show i - 1 + 1 = i by omega]

/-- Every node above `(l, i)` holds the hash of its two children. -/
def Column (hash : H → H → H) (T : Table H) : Nat → Nat → Prop
  | 0, _ => True
  | l + 1, i => HashedAt hash T l (i / 2) ∧ Column hash T l (i / 2)

/-- **PATH COMPLETENESS.**  The path of a node whose column is hashed leads to the value at the
top. -/
theorem Column.climb_path {T : Table H} {l i : Nat} (h : Column hash T l i) :
    climb hash (T l i) i (path T l i) = T 0 (i / 2 ^ l) := by
  induction l generalizing i with
  | zero => simp [climb, path]
  | succ l ih =>
    unfold path climb
    rw [hash_sibling_eq, ← h.1, ih h.2, pow_succ', Nat.div_div_eq_div_mul]

theorem climb_path {T : Table H} (hT : Settled hash T h) (l : Nat) (hl : l ≤ h)
    (i : Nat) : climb hash (T l i) i (path T l i) = T 0 (i / 2 ^ l) := by
  apply Column.climb_path
  induction l generalizing i with
  | zero => trivial
  | succ l ih => exact ⟨hT l hl _, ih (by omega) _⟩

theorem sibling_div_two (i : Nat) : sibling i / 2 = i / 2 := by
  unfold sibling; split <;> omega

theorem sibling_ne (i : Nat) : sibling i ≠ i := by
  unfold sibling; split <;> omega

/-- The path of a node does not see changes on the node's own column. -/
theorem path_congr {T T' : Table H}
    (h : ∀ l', 0 < l' → l' ≤ l → ∀ j, j ≠ i / 2 ^ (l - l') → T' l' j = T l' j) :
    path T' l i = path T l i := by
  induction l generalizing i with
  | zero => rfl
  | succ l ih =>
    unfold path
    rw [ih (i / 2), h (l + 1) (by omega) (le_refl _)]
    · simp [sibling_ne]
    · intro l' hpos hl' j hj
      refine h l' hpos (by omega) j ?_
      rwa [show l + 1 - l' = (l - l') + 1 by omega, pow_succ', ← Nat.div_div_eq_div_mul]

/-- Writing one leaf and rehashing its ancestors leaves the climbed value at the top,
whatever the rest of the table holds. -/
theorem rehashSpan_set_top (hash : H → H → H) (l : Nat) (T : Table H) (i : Nat) (v : H) :
    rehashSpan hash (T.set l i v) l i i 0 (i / 2 ^ l) = climb hash v i (path T l i) := by
  induction l generalizing T i v with
  | zero =>
    rw [pow_zero, Nat.div_one]
    exact Table.set_self ..
  | succ l ih =>
    have hparent := hash_sibling_eq hash (T.set (l + 1) i v) (l + 1) i
    rw [Table.set_self, Table.set_of_ne _ _ (by simp [sibling_ne])] at hparent
    -- the path above does not see the write at level `l + 1`
    have hpath : path (T.set (l + 1) i v) l (i / 2) = path T l (i / 2) := by
      apply path_congr
      intro l' _ hl' j _
      rw [Table.set_of_ne _ _ (by omega)]
    rw [rehashSpan, rehashLevel_single, pow_succ', ← Nat.div_div_eq_div_mul, ih, hpath, path,
      climb, hparent]

/-- **DELTA COMPLETENESS.**  Two settled tables that differ only below and on
the column of the node `(l, i)` share its path, and the path leads from the
old value to the old root and from the new value to the new root. -/
theorem climb_path_update {T T' : Table H} {l : Nat} (hT : Settled hash T h)
    (hT' : Settled hash T' h) (hl : l ≤ h) (i : Nat)
    (hoff : ∀ l', 0 < l' → l' ≤ l → ∀ j, j ≠ i / 2 ^ (l - l') → T' l' j = T l' j) :
    path T' l i = path T l i ∧
      climb hash (T l i) i (path T l i) = T 0 (i / 2 ^ l) ∧
      climb hash (T' l i) i (path T l i) = T' 0 (i / 2 ^ l) := by
  have hp := path_congr l i hoff
  refine ⟨hp, climb_path hT l hl i, ?_⟩
  rw [← hp]
  exact climb_path hT' l hl i

/-! ## §5. Filling in a proof. -/

/-- Write the siblings of a proof, from the leaf level up. -/
def setSiblings : Table H → Nat → List H → Table H
  | T, _, [] => T
  | T, i, s :: ss => setSiblings (T.set (ss.length + 1) (sibling i) s) (i / 2) ss

/-- Write a leaf and its siblings, then rehash the column. -/
def fillProof (hash : H → H → H) (T : Table H) (i : Nat) (v : H) (ss : List H) : Table H :=
  rehashSpan hash (setSiblings (T.set ss.length i v) i ss) ss.length i i

theorem setSiblings_frame {ss : List H} {T : Table H} {i l j : Nat}
    (h : ¬ (0 < l ∧ l ≤ ss.length ∧ j = sibling (i / 2 ^ (ss.length - l)))) :
    setSiblings T i ss l j = T l j := by
  induction ss generalizing T i with
  | nil => rfl
  | cons s ss ih =>
    rw [length_cons] at h
    have hhere : ¬ (l = ss.length + 1 ∧ j = sibling i) := by
      rintro ⟨rfl, rfl⟩
      simp at h
    rw [setSiblings, ih, Table.set_of_ne _ _ hhere]
    rintro ⟨hpos, hl, rfl⟩
    refine h ⟨hpos, by omega, ?_⟩
    rw [Nat.div_div_eq_div_mul, ← pow_succ', show ss.length - l + 1 = ss.length + 1 - l by omega]

theorem path_setSiblings (ss : List H) (i : Nat) : path (setSiblings T i ss) ss.length i = ss := by
  induction ss generalizing T i with
  | nil => rfl
  | cons s ss ih =>
    rw [length_cons, path, setSiblings, ih, setSiblings_frame (by omega), Table.set_self]

theorem rehashSpan_column : Column hash (rehashSpan hash T l i i) l i := by
  induction l generalizing T i with
  | zero => trivial
  | succ l ih =>
    refine ⟨?_, ih _ _⟩
    -- the levels from `l` down are not written again
    have hbelow : ∀ {m j}, l ≤ m → rehashSpan hash T (l + 1) i i m j =
        rehashLevel hash T l (i / 2) (i / 2) m j := by
      intro m j hm
      rw [rehashSpan, rehashSpan_frame]
      unfold AboveSpan
      omega
    unfold HashedAt
    rw [hbelow le_rfl, hbelow (by omega), hbelow (by omega), rehashLevel_single, Table.set_self,
      Table.set_of_ne _ _ (by omega), Table.set_of_ne _ _ (by omega)]

theorem path_rehashSpan : path (rehashSpan hash T l i i) l i = path T l i := by
  apply path_congr
  intro l _ _ j hj
  exact rehashSpan_frame _ _ _ _ _ _ (by unfold AboveSpan; omega)

/-- A filled proof can be read back, and only children of its column are written. -/
theorem fillProof_spec (i : Nat) (v : H) (ss : List H) :
    Column hash (fillProof hash T i v ss) ss.length i ∧
      fillProof hash T i v ss ss.length i = v ∧
      path (fillProof hash T i v ss) ss.length i = ss ∧
      ∀ l j, l < ss.length → j / 2 ≠ i / 2 ^ (ss.length - l) →
        fillProof hash T i v ss (l + 1) j = T (l + 1) j := by
  refine ⟨rehashSpan_column _ _ _, ?_, ?_, ?_⟩
  · rw [fillProof, rehashSpan_leaf, setSiblings_frame, Table.set_self]
    simp [(sibling_ne i).symm]
  · rw [fillProof, path_rehashSpan, path_setSiblings]
  · intro l j hl hj
    rw [show ss.length - l = ss.length - (l + 1) + 1 by omega, pow_succ,
      ← Nat.div_div_eq_div_mul] at hj
    rw [fillProof, rehashSpan_frame, setSiblings_frame, Table.set_of_ne]
    · rintro ⟨hl', rfl⟩
      simp [hl'] at hj
    · rintro ⟨_, _, rfl⟩
      exact hj (sibling_div_two _)
    · rintro ⟨_, hlo, hhi⟩
      rw [le_antisymm hhi hlo] at hj
      exact hj rfl

/-- **PROOFS OF ONE ROOT AGREE.**  A table changed only at children of one hashed column, its root
unchanged, keeps every other hashed column, if the hash has no collisions. -/
theorem Column.keep (hinj : ∀ a b c d, hash a b = hash c d → a = c ∧ b = d) {T T' : Table H}
    {l i i' : Nat} (h : Column hash T l i) (h' : Column hash T' l i')
    (hoff : ∀ m j, m < l → j / 2 ≠ i' / 2 ^ (l - m) → T' (m + 1) j = T (m + 1) j)
    (hroot : T' 0 (i / 2 ^ l) = T 0 (i / 2 ^ l)) :
    Column hash T' l i ∧ T' l i = T l i ∧ path T' l i = path T l i := by
  induction l generalizing i i' with
  | zero =>
    rw [pow_zero, Nat.div_one] at hroot
    exact ⟨trivial, hroot, rfl⟩
  | succ l ih =>
    rw [pow_succ', ← Nat.div_div_eq_div_mul] at hroot
    obtain ⟨hcolumn, htop, hpath⟩ := ih h.2 h'.2 (by
      intro m j hm hj
      rw [Nat.div_div_eq_div_mul, ← pow_succ', show l - m + 1 = l + 1 - m by omega] at hj
      exact hoff m j (by omega) hj) hroot
    -- both children are as before: by the hash on the changed column, else untouched
    have hchildren : T' (l + 1) (2 * (i / 2)) = T (l + 1) (2 * (i / 2)) ∧
        T' (l + 1) (2 * (i / 2) + 1) = T (l + 1) (2 * (i / 2) + 1) := by
      by_cases hsame : i / 2 = i' / 2
      · have hhash := h'.1
        rw [← hsame] at hhash
        exact hinj _ _ _ _ (hhash.symm.trans (htop.trans h.1))
      · have hone : l + 1 - l = 1 := by omega
        exact ⟨hoff l _ (by omega) (by rw [hone]; omega), hoff l _ (by omega) (by rw [hone]; omega)⟩
    have hchild : ∀ j, j / 2 = i / 2 → T' (l + 1) j = T (l + 1) j := by
      intro j hj
      rcases show j = 2 * (i / 2) ∨ j = 2 * (i / 2) + 1 by omega with hj | hj
      · rw [hj, hchildren.1]
      · rw [hj, hchildren.2]
    refine ⟨⟨h.1.congr htop hchildren.1 hchildren.2, hcolumn⟩, hchild i rfl, ?_⟩
    rw [path, path, hchild _ (sibling_div_two i), hpath]

/-- The table holds an opening: the column above the leaf is hashed, and reading gives it back. -/
structure Holds (hash : H → H → H) (T : Table H) (i : Nat) (v : H) (ss : List H) : Prop where
  column : Column hash T ss.length i
  value : T ss.length i = v
  path : path T ss.length i = ss

theorem Holds.top {T : Table H} {i : Nat} {v : H} {ss : List H} (h : Holds hash T i v ss) :
    T 0 (i / 2 ^ ss.length) = climb hash v i ss := by
  have hclimb := h.column.climb_path
  rw [h.value, h.path] at hclimb
  exact hclimb.symm

theorem holds_fillProof (T : Table H) (i : Nat) (v : H) (ss : List H) :
    Holds hash (fillProof hash T i v ss) i v ss := by
  obtain ⟨hcolumn, hvalue, hpath, _⟩ := @fillProof_spec H T hash i v ss
  exact ⟨hcolumn, hvalue, hpath⟩

/-- The tops of the other columns stay. -/
theorem fillProof_top {T : Table H} {i j : Nat} {v : H} {ss : List H} (h : j ≠ i / 2 ^ ss.length) :
    fillProof hash T i v ss 0 j = T 0 j := by
  rw [fillProof, rehashSpan_frame, setSiblings_frame (by omega), Table.set_of_ne]
  · rintro ⟨hlen, rfl⟩
    rw [← hlen] at h
    simp at h
  · rintro ⟨_, hlo, hhi⟩
    exact h (le_antisymm hhi hlo)

/-- An opening stays in the table when another one to the same value is filled in. -/
theorem Holds.fill (hinj : ∀ a b c d, hash a b = hash c d → a = c ∧ b = d) {T : Table H}
    {i i' : Nat} {v v' : H} {ss ss' : List H} (h : Holds hash T i v ss)
    (hlen : ss'.length = ss.length) (hroot : climb hash v' i' ss' = climb hash v i ss) :
    Holds hash (fillProof hash T i' v' ss') i v ss := by
  have hnew : Holds hash (fillProof hash T i' v' ss') i' v' ss' := holds_fillProof T i' v' ss'
  obtain ⟨_, _, _, hoff⟩ := @fillProof_spec H T hash i' v' ss'
  have htop : fillProof hash T i' v' ss' 0 (i / 2 ^ ss.length) = T 0 (i / 2 ^ ss.length) := by
    by_cases hsame : i / 2 ^ ss.length = i' / 2 ^ ss'.length
    · rw [hsame, hnew.top, hroot, ← hsame, h.top]
    · exact fillProof_top hsame
  have hcolumn := hnew.column
  rw [hlen] at hcolumn hoff
  obtain ⟨hkept, hvalue, hpath⟩ := h.column.keep hinj hcolumn hoff htop
  exact ⟨hkept, hvalue.trans h.value, hpath.trans h.path⟩

/-! ## §6. The root of a list of leaves, level by level. -/

/-- Hash neighbours in pairs. -/
def pairUp (hash : H → H → H) : List H → List H
  | a :: b :: rest => hash a b :: pairUp hash rest
  | _ => []

/-- Pairing a span of values that starts at an even index. -/
theorem pairUp_map (f : Nat → H) (n a : Nat) : pairUp hash ((range' (2 * a) (2 * n)).map f) =
      (range' a n).map (fun i => hash (f (2 * i)) (f (2 * i + 1))) := by
  induction n generalizing a with
  | zero => rfl
  | succ n ih =>
    rw [show 2 * (n + 1) = 2 * n + 1 + 1 by ring]
    simp only [range'_succ, map_cons, pairUp]
    rw [show 2 * a + 1 + 1 = 2 * (a + 1) by ring, ih (a + 1)]

/-- Pairing the roots of neighbouring sub-trees gives the roots one level up. -/
theorem pairUp_subRoot (f : Nat → H) (k n a : Nat) :
    pairUp hash ((range' (2 * a) (2 * n)).map (subRoot hash f k)) =
      (range' a n).map (subRoot hash f (k + 1)) :=
  pairUp_map (subRoot hash f k) n a

end PsyNode.Lib.Merkle
