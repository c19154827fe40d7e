/-
PsyNode.Lib.LongestChain
**CHAINS OF A DEPENDENCY RELATION.**

An element whose chains are all shorter than `r` is one that a layered sort has solved before
round `r`: the next round solves the elements that only depend on such ones
(`chainsBelow_succ`).  Bounded chains exclude a cycle, and where no round is left there is one.
-/
import Mathlib.Tactic

namespace PsyNode.Lib

variable {α : Type} {dep : α → α → Prop} {x : α} {r : Nat}

/-- From `x` on there is a chain of that many dependencies. -/
inductive ChainFrom (dep : α → α → Prop) : α → Nat → Prop
  | nil (x : α) : ChainFrom dep x 0
  | cons {x y : α} {k : Nat} (h : dep x y) (hy : ChainFrom dep y k) : ChainFrom dep x (k + 1)

/-- Every chain from `x` is shorter than `r`. -/
def ChainsBelow (dep : α → α → Prop) (r : Nat) (x : α) : Prop := ∀ k, ChainFrom dep x k → k < r

theorem not_chainsBelow_zero : ¬ ChainsBelow dep 0 x :=
  fun h => absurd (h 0 (.nil x)) (by omega)

theorem ChainsBelow.succ (h : ChainsBelow dep r x) : ChainsBelow dep (r + 1) x :=
  fun k hk => (h k hk).trans (Nat.lt_succ_self r)

theorem chainsBelow_succ : ChainsBelow dep (r + 1) x ↔ ∀ y, dep x y → ChainsBelow dep r y := by
  constructor
  · intro h y hxy k hk
    have hlt := h (k + 1) (.cons hxy hk)
    omega
  · intro h k hk
    cases hk with
    | nil => omega
    | cons hxy hk =>
      have hlt := h _ hxy _ hk
      omega

/-- An element that has chains of length `r`, but no longer ones. -/
theorem chainFrom_of_chainsBelow (h : ChainsBelow dep (r + 1) x) (hnot : ¬ ChainsBelow dep r x) :
    ChainFrom dep x r := by
  obtain ⟨k, hlong⟩ := not_forall.mp hnot
  obtain ⟨hk, hle⟩ := Classical.not_imp.mp hlong
  obtain rfl : k = r := by
    have hlt := h k hk
    omega
  exact hk

/-- **NO CYCLE** where the chains are bounded. -/
theorem ChainsBelow.not_transGen (h : ChainsBelow dep r x) : ¬ Relation.TransGen dep x x := by
  induction r generalizing x with
  | zero => exact absurd h not_chainsBelow_zero
  | succ r ih =>
    intro hcycle
    obtain ⟨y, hxy, hyx⟩ := Relation.TransGen.head'_iff.mp hcycle
    exact ih (chainsBelow_succ.mp h y hxy) (.tail' hyx hxy)

/-- **A CYCLE** where every element of a list depends on one of the list. -/
theorem exists_transGen_self {l : List α} (hne : l ≠ [])
    (hstep : ∀ x ∈ l, ∃ y ∈ l, dep x y) : ∃ x, Relation.TransGen dep x x := by
  by_contra hno
  -- on the list, a relation without a cycle has a minimal element
  let below (a b : {x // x ∈ l}) : Prop := Relation.TransGen dep b.1 a.1
  have : IsTrans _ below := ⟨fun _ _ _ hab hbc => hbc.trans hab⟩
  have : Std.Irrefl below := ⟨fun a ha => hno ⟨a.1, ha⟩⟩
  have : Finite {x // x ∈ l} := List.finite_toSet l
  obtain ⟨x, hx⟩ := List.exists_mem_of_ne_nil l hne
  obtain ⟨m, _, hmin⟩ :=
    (Finite.wellFounded_of_trans_of_irrefl below).has_min Set.univ ⟨⟨x, hx⟩, trivial⟩
  obtain ⟨y, hy, hdep⟩ := hstep m.1 m.2
  exact hmin ⟨y, hy⟩ trivial (.single hdep)

end PsyNode.Lib
