/-
PsyNode.Lib.Interleave
**INTERLEAVED CALLS.**  Any number of calls share one state; each has a local
state of its own.  At every moment one call, or the surroundings, makes one
atomic step.

`Reachable.parts` is the rule for invariants: a part about the shared state, and
a part about each call.  A step of a call has to keep the shared part and its own
part, and must not disturb the part of any other call.
-/
import Mathlib.Logic.Relation
import Mathlib.Logic.Function.Basic

namespace PsyNode.Lib.Interleave

variable {I Shared Local : Type}

/-- What one call, and what the surroundings, can do in one atomic step. -/
structure System (I Shared Local : Type) where
  step : I → Local → Shared → Local → Shared → Prop
  env : Shared → Shared → Prop

/-- What all share, and what each has alone. -/
structure State (I Shared Local : Type) where
  shared : Shared
  locals : I → Local

variable [DecidableEq I]

/-- A step of one of them, or of the environment. -/
inductive Step (sys : System I Shared Local) : State I Shared Local → State I Shared Local → Prop
  | call {state : State I Shared Local} {i : I} {l : Local} {s : Shared}
      (h : sys.step i (state.locals i) state.shared l s) :
      Step sys state ⟨s, Function.update state.locals i l⟩
  | env {state : State I Shared Local} {s : Shared} (h : sys.env state.shared s) :
      Step sys state ⟨s, state.locals⟩

/-- The states of all runs from a start. -/
def Reachable (sys : System I Shared Local) :
    State I Shared Local → State I Shared Local → Prop := Relation.ReflTransGen (Step sys)

/-- **INVARIANTS OF INTERLEAVED CALLS.** -/
theorem Reachable.parts {sys : System I Shared Local} {G : Shared → Prop}
    {L : I → Local → Shared → Prop}
    (hglobal : ∀ i l s l' s', sys.step i l s l' s' → G s → L i l s → G s')
    (hown : ∀ i l s l' s', sys.step i l s l' s' → G s → L i l s → L i l' s')
    (hother : ∀ i l s l' s', sys.step i l s l' s' → ∀ j k, j ≠ i → L j k s → L j k s')
    (henv : ∀ s s', sys.env s s' → G s → G s' ∧ ∀ j k, L j k s → L j k s')
    {start state : State I Shared Local} (hstart : G start.shared)
    (hlocals : ∀ i, L i (start.locals i) start.shared) (h : Reachable sys start state) :
    G state.shared ∧ ∀ i, L i (state.locals i) state.shared := by
  induction h with
  | refl => exact ⟨hstart, hlocals⟩
  | tail _ hstep ih =>
    obtain ⟨hG, hL⟩ := ih
    cases hstep with
    | call h =>
      rename_i i l s
      refine ⟨hglobal i _ _ _ _ h hG (hL i), ?_⟩
      intro j
      dsimp only
      by_cases hj : j = i
      · rw [hj, Function.update_self]
        exact hown i _ _ _ _ h hG (hL i)
      · rw [Function.update_of_ne hj]
        exact hother i _ _ _ _ h j _ hj (hL j)
    | env h =>
      obtain ⟨hG', hL'⟩ := henv _ _ h hG
      exact ⟨hG', fun j => hL' j _ (hL j)⟩

end PsyNode.Lib.Interleave
