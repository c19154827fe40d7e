/-
PsyNode.Lib.ExceptBind
**INVERSION FOR FALLIBLE CODE.**  A chain of fallible steps returned `ok`
exactly when every step did; these lemmas peel a `do` block of `Except` apart
one step at a time.
-/
import Mathlib.Tactic

namespace PsyNode.Lib

open List

variable {ε α β : Type} {x : Except ε α} {f : α → Except ε β} {b : β}

@[simp] theorem bind_eq_ok : (x >>= f) = .ok b ↔ ∃ a, x = .ok a ∧ f a = .ok b := by
  cases x with
  | error e => simp [bind, Except.bind]
  | ok a => simp [bind, Except.bind]

variable {a : α}

@[simp] theorem pure_eq_ok {b : α} : (pure a : Except ε α) = .ok b ↔ a = b := by
  simp [pure, Except.pure]

theorem exists_of_isOk (h : x.isOk = true) : ∃ a, x = .ok a := by
  cases x with
  | error e => cases h
  | ok a => exact ⟨a, rfl⟩

variable {c : Prop} {e : ε}

/-- A guard that throws was passed. -/
theorem ite_error_eq_ok [Decidable c] {b : α} :
    (if c then .error e else x) = .ok b ↔ ¬ c ∧ x = .ok b := by
  split
  next h => simp [h]
  next h => simp [h]

/-- A guard whose other branch throws was passed. -/
theorem ite_else_error_eq_ok [Decidable c] {b : α} :
    (if c then x else .error e) = .ok b ↔ c ∧ x = .ok b := by
  split
  next h => simp [h]
  next h => simp [h]

/-- Go on only if a condition holds. -/
def require (c : Prop) [Decidable c] (e : ε) : Except ε Unit := if c then .ok () else .error e

@[simp] theorem require_eq_ok [Decidable c] {u : Unit} : require c e = .ok u ↔ c := by
  unfold require
  split
  next h => simp [h]
  next h => simp [h]

/-- Renaming the error keeps the result. -/
theorem mapError_eq_ok {ε' : Type} {f : ε → ε'} : x.mapError f = .ok a ↔ x = .ok a := by
  cases x with
  | error e => simp [Except.mapError]
  | ok b => simp [Except.mapError]

theorem map_eq_ok {f : α → β} : (f <$> x) = .ok b ↔ ∃ a, x = .ok a ∧ f a = b := by
  cases x with
  | error e => simp [Functor.map, Except.map]
  | ok a => simp [Functor.map, Except.map]

theorem ite_map_eq_ok [Decidable c] {f : α → β} :
    (if c then f <$> x else .error e) = .ok b ↔ c ∧ ∃ a, x = .ok a ∧ f a = b :=
  ite_else_error_eq_ok.trans (and_congr_right' map_eq_ok)

variable {l : List α}

/-- A loop that only checks. -/
theorem forM_eq_ok {f : α → Except ε PUnit} : l.forM f = .ok () ↔ ∀ a ∈ l, f a = .ok () := by
  induction l with
  | nil => simp [pure, Except.pure]
  | cons a l ih =>
    show (f a >>= fun _ => l.forM f) = .ok () ↔ _
    rw [bind_eq_ok, forall_mem_cons, ← ih]
    constructor
    · intro h
      obtain ⟨u, hu, hl⟩ := h
      exact ⟨hu, hl⟩
    · intro h
      exact ⟨(), h.1, h.2⟩

/-- A loop keeps what each of its iterations keeps, of the items done so far. -/
theorem foldlM_of_step {P : List β → α → Prop} {f : α → β → Except ε α} {l : List β}
    (hstep : ∀ done x rest a a', l = done ++ x :: rest → f a x = .ok a' → P done a →
      P (done ++ [x]) a') {a' : α} (h : l.foldlM f a = .ok a') (ha : P [] a) : P l a' := by
  have key (rest done : List β) (a : α) (hl : l = done ++ rest) (h : rest.foldlM f a = .ok a')
      (ha : P done a) : P l a' := by
    induction rest generalizing done a with
    | nil =>
      rw [foldlM_nil, pure_eq_ok] at h
      rw [hl, append_nil, ← h]
      exact ha
    | cons x rest ih =>
      rw [foldlM_cons, bind_eq_ok] at h
      obtain ⟨a₁, ha₁, h⟩ := h
      exact ih (done ++ [x]) a₁ (hl.trans (append_cons _ _ _)) h (hstep done x rest a a₁ hl ha₁ ha)
  exact key l [] a rfl h ha

/-- Every step of a loop returned. -/
theorem exists_of_foldlM_eq_ok {f : α → β → Except ε α} {l : List β} {b : α}
    (h : l.foldlM f a = .ok b) : ∀ x ∈ l, ∃ s s', f s x = .ok s' := by
  refine foldlM_of_step (P := fun done _ => ∀ x ∈ done, ∃ s s', f s x = .ok s') ?_ h (by simp)
  intro done x _ a a' _ hx hdone
  rw [forall_mem_append, forall_mem_singleton]
  exact ⟨hdone, a, a', hx⟩

/-- A loop over positions: what each iteration carries from its position to the next. -/
theorem foldlM_zipIdx_of_step {P : Nat → α → Prop} {f : α → β × Nat → Except ε α} {l : List β}
    (hstep : ∀ i b a a', l[i]? = some b → f a (b, i) = .ok a' → P i a → P (i + 1) a') {a' : α}
    (h : l.zipIdx.foldlM f a = .ok a') (ha : P 0 a) : P l.length a' := by
  have hloop := foldlM_of_step (P := fun done => P done.length) ?_ h ha
  · rwa [length_zipIdx] at hloop
  · rintro done ⟨b, i⟩ rest a a' hl hb hdone
    have hget : l.zipIdx[done.length]? = some (b, i) := by
      rw [hl, getElem?_append_right le_rfl, Nat.sub_self]
      rfl
    rw [getElem?_zipIdx, Nat.zero_add, Option.map_eq_some_iff] at hget
    obtain ⟨b', hb', hpair⟩ := hget
    cases hpair
    rw [length_append]
    exact hstep _ _ _ _ hb' hb hdone

/-- Of two lists side by side, an element of the first has one of the second. -/
theorem exists_of_forall₂ {R : α → β → Prop} {l : List α} {bs : List β} (h : Forall₂ R l bs) :
    ∀ a ∈ l, ∃ b ∈ bs, R a b := by
  induction h with
  | nil => simp
  | cons hb _ ih =>
    intro x hx
    rcases mem_cons.mp hx with rfl | hx
    · exact ⟨_, mem_cons_self, hb⟩
    · obtain ⟨b', hb', hx'⟩ := ih x hx
      exact ⟨b', mem_cons_of_mem _ hb', hx'⟩

section
variable {l : List α} {bs : List β}

/-- The inputs and the results of a traversal, side by side. -/
theorem mapM_eq_ok : l.mapM f = .ok bs ↔ Forall₂ (fun a b => f a = .ok b) l bs := by
  induction l generalizing bs with
  | nil => rw [mapM_nil, pure_eq_ok, forall₂_nil_left_iff, eq_comm]
  | cons a l ih =>
    simp only [mapM_cons, bind_eq_ok, pure_eq_ok, ih, forall₂_cons_left_iff]
    constructor
    · rintro ⟨b, hb, bs', hbs', rfl⟩
      exact ⟨b, bs', hb, hbs', rfl⟩
    · rintro ⟨b, bs', hb, hbs', rfl⟩
      exact ⟨b, hb, bs', hbs', rfl⟩

variable (h : l.mapM f = .ok bs)
include h

/-- What a collecting loop returns comes from the elements. -/
theorem exists_of_mapM_eq_ok : ∀ b ∈ bs, ∃ a ∈ l, f a = .ok b :=
  exists_of_forall₂ (mapM_eq_ok.mp h).flip

/-- A collecting loop reads every element. -/
theorem mem_of_mapM_eq_ok : ∀ a ∈ l, ∃ b ∈ bs, f a = .ok b :=
  exists_of_forall₂ (mapM_eq_ok.mp h)

end

/-- What a collecting loop keeps of each element. -/
theorem map_of_mapM_eq_ok {γ : Type} {g : β → γ} {k : α → γ} {bs : List β}
    (h : l.mapM f = .ok bs) (hkeep : ∀ a b, f a = .ok b → g b = k a) : bs.map g = l.map k := by
  rw [← forall₂_eq_eq_eq, forall₂_map_left_iff, forall₂_map_right_iff]
  exact ((mapM_eq_ok.mp h).imp hkeep).flip

/-- How fallible code ends: `q` of the value it returns, `r` of the error it throws. -/
def Ends (q : α → Prop) (r : ε → Prop) : Except ε α → Prop
  | .ok a => q a
  | .error e => r e

variable {r : ε → Prop} {q : α → Prop}

/-- Sequencing: the second step starts from what the first one ensures. -/
theorem Ends.bind {q' : β → Prop} (hx : Ends q r x)
    (hf : ∀ a, q a → Ends q' r (f a)) : Ends q' r (x >>= f) := by
  cases x with
  | error e => exact hx
  | ok a => exact hf a hx

theorem Ends.imp {q' : α → Prop} (h : Ends q r x) (hq : ∀ a, q a → q' a) : Ends q' r x := by
  cases x with
  | error e => exact h
  | ok a => exact hq a h

theorem Ends.mono {r' : ε → Prop} (h : Ends q r x) (hr : ∀ e, r e → r' e) : Ends q r' x := by
  cases x with
  | error e => exact hr e h
  | ok a => exact h

/-- What never throws returns. -/
theorem Ends.exists_ok (h : Ends q (fun _ => False) x) : ∃ a, x = .ok a ∧ q a := by
  cases x with
  | error e => exact h.elim
  | ok a => exact ⟨a, rfl, h⟩

/-- A guard that throws: the rest runs when it was passed. -/
theorem Ends.guard [Decidable c] (he : r e)
    (hx : ¬ c → Ends q r x) : Ends q r (if c then .error e else x) := by
  split
  next => exact he
  next h => exact hx h

theorem Ends.require [Decidable c] (he : r e) : Ends (fun _ => c) r (require c e) := by
  unfold Lib.require
  split
  next h => exact h
  next => exact he

/-- A loop of checks ensures what each check ensures of its element. -/
theorem Ends.forM_mem {f : α → Except ε PUnit}
    (hf : ∀ a ∈ l, Ends (fun _ => q a) r (f a)) : Ends (fun _ => ∀ a ∈ l, q a) r (l.forM f) := by
  induction l with
  | nil => intro a ha; cases ha
  | cons a l ih =>
    show Ends (fun _ => ∀ b ∈ a :: l, q b) r (f a >>= fun _ => l.forM f)
    apply (hf a mem_cons_self).bind
    intro _ ha
    apply (ih (fun b hb => hf b (mem_cons_of_mem _ hb))).imp
    intro _ hrest
    exact forall_mem_cons.mpr ⟨ha, hrest⟩

/-- A loop that only checks. -/
theorem Ends.forM {f : α → Except ε PUnit}
    (hf : ∀ a ∈ l, Ends (fun _ => True) r (f a)) : Ends (fun _ => True) r (l.forM f) :=
  (Ends.forM_mem hf).imp (fun _ _ => trivial)

/-- Errors of code elsewhere, seen as errors here. -/
theorem Ends.mapError {ε' : Type} {r : ε' → Prop} {f : ε → ε'} (hf : ∀ e, r (f e))
    (x : Except ε α) : Ends (fun _ => True) r (x.mapError f) := by
  cases x with
  | error e => exact hf e
  | ok a => trivial

variable {P : α → Prop}

/-- A loop keeps what every iteration over one of its elements keeps. -/
theorem Ends.foldlM_mem {f : α → β → Except ε α} (l : List β)
    (hf : ∀ a, ∀ b ∈ l, P a → Ends P r (f a b)) (a : α) (ha : P a) : Ends P r (l.foldlM f a) := by
  induction l generalizing a with
  | nil => exact ha
  | cons b l ih =>
    rw [foldlM_cons]
    exact (hf a b mem_cons_self ha).bind
      (ih (fun a' b' hb' => hf a' b' (mem_cons_of_mem _ hb')))

/-- A loop keeps what every iteration keeps. -/
theorem Ends.foldlM {f : α → β → Except ε α} (hf : ∀ a b, P a → Ends P r (f a b)) :
    ∀ (l : List β) (a : α), P a → Ends P r (l.foldlM f a) := by
  intro l
  exact Ends.foldlM_mem l (fun a b _ => hf a b)

/-- Keep the equation of the returned value. -/
theorem Ends.eq_ok (h : Ends q r x) : Ends (fun a => x = .ok a ∧ q a) r x := by
  cases x with
  | error e => exact h
  | ok a => exact ⟨rfl, h⟩

theorem Ends.of_ok (h : Ends q r x) (hx : x = .ok a) : q a := by
  rw [hx] at h
  exact h

theorem Ends.of_error (h : Ends q r x) (hx : x = .error e) : r e := by
  rw [hx] at h
  exact h

/-- How fallible code ends that keeps its state: `q` of the value it returns and the state
it leaves, `r` of the error it throws and the state it leaves. -/
def EndsIn {σ : Type} (q : α → σ → Prop) (r : ε → σ → Prop) : Except ε α × σ → Prop
  | (.ok a, s) => q a s
  | (.error e, s) => r e s

variable {σ : Type}

theorem EndsIn.imp {q q' : α → σ → Prop} {r r' : ε → σ → Prop} {x : Except ε α × σ}
    (h : EndsIn q r x) (hq : ∀ a s, q a s → q' a s) (hr : ∀ e s, r e s → r' e s) :
    EndsIn q' r' x := by
  obtain ⟨res, s⟩ := x
  cases res with
  | error e => exact hr e s h
  | ok a => exact hq a s h

/-- The same code with its state seen as `f` of it. -/
theorem EndsIn.map {τ : Type} {q : α → σ → Prop} {q' : α → τ → Prop} {r : ε → σ → Prop}
    {r' : ε → τ → Prop} {x : Except ε α × σ} (h : EndsIn q r x) (f : σ → τ)
    (hq : ∀ a s, q a s → q' a (f s)) (hr : ∀ e s, r e s → r' e (f s)) :
    EndsIn q' r' (x.1, f x.2) := by
  obtain ⟨res, s⟩ := x
  cases res with
  | error e => exact hr e s h
  | ok a => exact hq a s h

theorem EndsIn.of_eq {q : α → σ → Prop} {r : ε → σ → Prop} {x y : Except ε α × σ}
    (h : EndsIn q r x) (hxy : x = y) : EndsIn q r y := by
  rwa [← hxy]

end PsyNode.Lib
