/-
PsyNode.Lib.Gadget
**CIRCUITS AS RELATIONS.**  A builder program adds wires and constraints to a circuit
and returns targets.  It denotes the values that these targets can take when all its
constraints hold for some values of the wires it added: whoever proves chooses the
wires, so a program is a relation and not a function.

`Computes c p v` is the specification of a gadget that is sound and complete at once:
its constraints can be met exactly when `p`, and then the targets have the value `v`.
-/
import Mathlib.Data.List.Basic

namespace PsyNode.Lib

/-- The results that some assignment of the wires allows. -/
def Circuit (α : Type) : Type := α → Prop

namespace Circuit

variable {α β : Type}

/-- The constraints hold for some values of the wires in between, and `a` is returned. -/
def Holds (c : Circuit α) (a : α) : Prop := c a

instance : Monad Circuit where
  pure a := fun b => b = a
  bind c f := fun b => ∃ a, c a ∧ f a b

/-- Wires without a constraint. -/
def virtual : Circuit α := fun _ => True

/-- A constraint. -/
def constrain (p : Prop) : Circuit Unit := fun _ => p

@[simp] theorem holds_pure {a b : α} : (pure a : Circuit α).Holds b ↔ b = a := Iff.rfl

variable {f : α → Circuit β} {c : Circuit α}

@[simp] theorem holds_bind {b : β} : (c >>= f).Holds b ↔ ∃ a, c.Holds a ∧ (f a).Holds b := Iff.rfl

@[simp] theorem holds_virtual {a : α} : (virtual : Circuit α).Holds a := trivial

variable {p : Prop}

@[simp] theorem holds_constrain {u : Unit} : (constrain p).Holds u ↔ p := Iff.rfl

/-- **SOUND AND COMPLETE**: the constraints can be met exactly when `p`, and then `v` is
returned. -/
def Computes (c : Circuit α) (p : Prop) (v : α) : Prop := ∀ a, c.Holds a ↔ p ∧ a = v

theorem Computes.pure (v : α) : (pure v : Circuit α).Computes True v := by
  intro a
  rw [holds_pure, true_and]

theorem Computes.constrain (p : Prop) : (constrain p).Computes p () := by
  intro u
  exact ⟨fun h => ⟨h, rfl⟩, fun h => h.1⟩

variable {v : α} {q : Prop}

/-- Sequencing: what follows is specified at the value that was returned. -/
theorem Computes.bind {w : β} (hc : c.Computes p v)
    (hf : p → (f v).Computes q w) : (c >>= f).Computes (p ∧ q) w := by
  intro b
  constructor
  · intro h
    obtain ⟨a, ha, hb⟩ := h
    obtain ⟨hp, rfl⟩ := (hc a).mp ha
    obtain ⟨hq, hw⟩ := (hf hp b).mp hb
    exact ⟨⟨hp, hq⟩, hw⟩
  · intro h
    obtain ⟨⟨hp, hq⟩, hw⟩ := h
    exact ⟨v, (hc v).mpr ⟨hp, rfl⟩, (hf hp b).mpr ⟨hq, hw⟩⟩

/-- The same, for a result that is not determined. -/
theorem Computes.holds_bind {b : β} (hc : c.Computes p v) :
    (c >>= f).Holds b ↔ p ∧ (f v).Holds b := by
  constructor
  · intro h
    obtain ⟨a, ha, hb⟩ := h
    obtain ⟨hp, rfl⟩ := (hc a).mp ha
    exact ⟨hp, hb⟩
  · intro h
    exact ⟨v, (hc v).mpr ⟨h.1, rfl⟩, h.2⟩

/-- A step whose constraints can always be met. -/
theorem Computes.then {w : β} (hc : c.Computes p v) (hp : p)
    (hf : (f v).Computes q w) : (c >>= f).Computes q w := by
  intro b
  rw [hc.bind (fun _ => hf) b, and_iff_right hp]

theorem Computes.congr {w : α} (hc : c.Computes p v)
    (hpq : p ↔ q) (hvw : q → v = w) : c.Computes q w := by
  intro a
  rw [hc a, hpq]
  constructor
  · intro h
    exact ⟨h.1, h.2.trans (hvw h.1)⟩
  · intro h
    exact ⟨h.1, h.2.trans (hvw h.1).symm⟩

/-- Soundness and completeness, shown one after the other. -/
theorem Computes.intro (hsound : ∀ a, c.Holds a → p ∧ a = v)
    (hcomplete : p → ∃ a, c.Holds a) : c.Computes p v := by
  intro a
  refine ⟨hsound a, ?_⟩
  intro h
  obtain ⟨a', ha'⟩ := hcomplete h.1
  obtain ⟨_, rfl⟩ := hsound a' ha'
  rw [h.2]
  exact ha'

/-- A loop whose steps can always be met is the loop of what the steps compute.  `encode` is how
the wires hold the state, `good` what the state satisfies. -/
theorem Computes.foldlM {σ ι : Type} (step : α → ι → Circuit α) (next : σ → ι → σ)
    (encode : σ → α) (good : σ → Prop) (l : List ι)
    (hstep : ∀ s, ∀ i ∈ l, good s → (step (encode s) i).Computes True (encode (next s i)) ∧
      good (next s i)) (s : σ) (hs : good s) :
    (l.foldlM step (encode s)).Computes True (encode (l.foldl next s)) ∧
      good (l.foldl next s) := by
  induction l generalizing s with
  | nil => exact ⟨Computes.pure _, hs⟩
  | cons i l ih =>
    obtain ⟨hone, hgood⟩ := hstep s i List.mem_cons_self hs
    obtain ⟨hrest, hlast⟩ := ih (fun s' j hj => hstep s' j (List.mem_cons_of_mem _ hj)) _ hgood
    exact ⟨hone.then trivial hrest, hlast⟩

end Circuit

end PsyNode.Lib
