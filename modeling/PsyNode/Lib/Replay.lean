/-
PsyNode.Lib.Replay
**REPLAYING A LIST OF TRANSITIONS.**

  * `Links` — transitions given by their end points, each starting where the one
    before it ended;
  * `Accepted` — transitions that are checked against the state they start from and
    then change it by `step`.
-/
import Mathlib.Tactic

namespace PsyNode.Lib

section
variable {α : Type}

/-- From `a` to `b` along the transitions. -/
def Links (a : α) : List (α × α) → α → Prop
  | [], b => a = b
  | (x, y) :: ps, b => a = x ∧ Links y ps b

theorem links_append {a b : α} {ps qs : List (α × α)} :
    Links a (ps ++ qs) b ↔ ∃ c, Links a ps c ∧ Links c qs b := by
  induction ps generalizing a with
  | nil => simp [Links]
  | cons p ps ih => simp [Links, ih, and_assoc]

/-- Two neighbouring transitions meet, and can be taken as one. -/
theorem Links.merge {a b x y x' y' : α} {ps : List (α × α)}
    (h : Links a (ps ++ [(x, y), (x', y')]) b) : y = x' ∧ Links a (ps ++ [(x, y')]) b := by
  obtain ⟨c, hps, hx, hy, hb⟩ := links_append.mp h
  exact ⟨hy, links_append.mpr ⟨c, hps, hx, hb⟩⟩

end

section
variable {σ α : Type} (ok : σ → α → Prop) (step : σ → α → σ)

/-- Every transition passes its check in the state it starts from. -/
def Accepted : σ → List α → Prop
  | _, [] => True
  | s, a :: as => ok s a ∧ Accepted (step s a) as

variable {ok step}

theorem accepted_append {s : σ} {as bs : List α} : Accepted ok step s (as ++ bs) ↔
      Accepted ok step s as ∧ Accepted ok step (as.foldl step s) bs := by
  induction as generalizing s with
  | nil => simp [Accepted]
  | cons a as ih => simp [Accepted, ih, and_assoc]

/-- The check of one transition, after all earlier ones. -/
theorem Accepted.at {s : σ} {pre post : List α} {a : α}
    (h : Accepted ok step s (pre ++ a :: post)) : ok (pre.foldl step s) a :=
  (accepted_append.mp h).2.1

end

end PsyNode.Lib
