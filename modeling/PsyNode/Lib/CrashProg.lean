/-
PsyNode.Lib.CrashProg
**PROGRAMS THAT MAY BE INTERRUPTED.**  A program talks to a world through
calls.  A call may answer, it may fail, and the process may die in it; in the
last two cases the world is one of those that the call may leave behind.

  * `run` is the run without interruptions;
  * `Exec` has all runs;
  * `Safe D crash post` is the invariant rule: every world in which a run ends
    without a result satisfies `crash`, every result satisfies `post`;
  * `Recovers` starts a program again and again, from the world that the run
    before left.
-/
import Mathlib.Tactic

namespace PsyNode.Lib

/-! ## §1. Programs and their runs. -/

/-- **CALLS TO A WORLD**: what a call answers and does when nothing goes wrong, and the worlds
that it may leave when something does. -/
structure Device (Call : Type) (Reply : Call → Type) (W : Type) where
  answer : (c : Call) → W → Except String (Reply c × W)
  leaves : Call → W → W → Prop
  leaves_self : ∀ c w, leaves c w w
  leaves_answer : ∀ c w r w', answer c w = .ok (r, w') → leaves c w w'

/-- **A PROGRAM** of calls; it sees whether a call failed. -/
inductive Prog (Call : Type) (Reply : Call → Type) (α : Type)
  | pure (a : α)
  | stop (message : String)
  | call (c : Call) (next : Except String (Reply c) → Prog Call Reply α)

namespace Prog

variable {Call : Type} {Reply : Call → Type} {W α β : Type}

/-- Runs `f` on the result. -/
def bind : Prog Call Reply α → (α → Prog Call Reply β) → Prog Call Reply β
  | .pure a, f => f a
  | .stop message, _ => .stop message
  | .call c next, f => .call c (fun reply => (next reply).bind f)

instance : Monad (Prog Call Reply) where
  pure := .pure
  bind := bind

/-- A call whose failure ends the program. -/
def attempt (c : Call) (context : String → String) : Prog Call Reply (Reply c) :=
  .call c (fun reply => match reply with
    | .ok r => .pure r
    | .error message => .stop (context message))

/-- The run in which no call is interrupted. -/
def run (D : Device Call Reply W) : Prog Call Reply α → W → Except String α × W
  | .pure a, w => (.ok a, w)
  | .stop message, w => (.error message, w)
  | .call c next, w =>
    match D.answer c w with
    | .ok (r, w') => (next (.ok r)).run D w'
    | .error message => (next (.error message)).run D w

/-- All runs, with their result, if the process lived to see it. -/
inductive Exec (D : Device Call Reply W) :
    Prog Call Reply α → W → Option (Except String α) → W → Prop
  | pure {a : α} {w : W} : Exec D (.pure a) w (some (.ok a)) w
  | stop {message : String} {w : W} : Exec D (.stop message) w (some (.error message)) w
  | answered {c : Call} {next : Except String (Reply c) → Prog Call Reply α} {w w₁ w' : W}
      {r : Reply c} {result : Option (Except String α)} (hanswer : D.answer c w = .ok (r, w₁))
      (hnext : Exec D (next (.ok r)) w₁ result w') : Exec D (.call c next) w result w'
  | failed {c : Call} {next : Except String (Reply c) → Prog Call Reply α} {w w₁ w' : W}
      {message : String} {result : Option (Except String α)} (hleaves : D.leaves c w w₁)
      (hnext : Exec D (next (.error message)) w₁ result w') : Exec D (.call c next) w result w'
  | died {c : Call} {next : Except String (Reply c) → Prog Call Reply α} {w w' : W}
      (hleaves : D.leaves c w w') : Exec D (.call c next) w none w'

/-- The run that dies in call number `n`, in the world that `left` says. -/
def runUntil (D : Device Call Reply W) (left : Call → W → W) :
    Nat → Prog Call Reply α → W → Option W
  | 0, .call c _, w => some (left c w)
  | n + 1, .call c next, w =>
    match D.answer c w with
    | .ok (r, w') => (next (.ok r)).runUntil D left n w'
    | .error message => (next (.error message)).runUntil D left n w
  | _, .pure _, _ | _, .stop _, _ => none

/-! ## §2. Single runs. -/

variable {D : Device Call Reply W}

/-- A run that dies is one of the runs. -/
theorem exec_runUntil {left : Call → W → W} (hleft : ∀ c w, D.leaves c w (left c w)) {n : Nat}
    {p : Prog Call Reply α} {w w' : W} (h : p.runUntil D left n w = some w') :
    Exec D p w none w' := by
  induction p generalizing n w with
  | pure a => cases n <;> cases h
  | stop message => cases n <;> cases h
  | call c next ih =>
    cases n with
    | zero =>
      rw [runUntil, Option.some.injEq] at h
      exact h ▸ .died (hleft c w)
    | succ n =>
      rw [runUntil] at h
      split at h
      next hanswer => exact .answered hanswer (ih _ h)
      next => exact .failed (D.leaves_self c w) (ih _ h)

/-- The run without interruptions is one of the runs. -/
theorem exec_run (p : Prog Call Reply α) (w : W) :
    Exec D p w (some (p.run D w).1) (p.run D w).2 := by
  induction p generalizing w with
  | pure a => exact .pure
  | stop message => exact .stop
  | call c next ih =>
    unfold run
    cases hc : D.answer c w with
    | ok answer => exact .answered hc (ih _ _)
    | error message => exact .failed (D.leaves_self c w) (ih _ _)

variable {p : Prog Call Reply α} {w : W} {f : α → Prog Call Reply β} {w' : W}

theorem run_bind {a : α} (h : p.run D w = (.ok a, w')) : (p >>= f).run D w = (f a).run D w' := by
  show (p.bind f).run D w = (f a).run D w'
  induction p generalizing w with
  | pure b =>
    rw [run, Prod.mk.injEq, Except.ok.injEq] at h
    rw [bind, h.1, h.2]
  | stop message =>
    rw [run, Prod.mk.injEq] at h
    exact absurd h.1 (by simp)
  | call c next ih =>
    unfold run at h
    rw [bind, run]
    cases hc : D.answer c w with
    | ok answer =>
      rw [hc] at h
      exact ih (.ok answer.1) h
    | error message =>
      rw [hc] at h
      exact ih (.error message) h

variable {context : String → String}

theorem run_attempt {c : Call} {r : Reply c}
    (h : D.answer c w = .ok (r, w')) : (attempt c context).run D w = (.ok r, w') := by
  unfold attempt
  rw [run, h]
  rfl

variable {items : List α} {body : β → α × Nat → Prog Call Reply β}

/-- A loop that takes one world of a sequence to the next. -/
theorem run_foldlM {state : Nat → β} {world : Nat → W} (h : ∀ i item, items[i]? = some item →
      (body (state i) (item, i)).run D (world i) = (.ok (state (i + 1)), world (i + 1))) :
    (items.zipIdx.foldlM body (state 0)).run D (world 0) =
      (.ok (state items.length), world items.length) := by
  have key (rest : List α) (k : Nat) (hrest : ∀ i item, rest[i]? = some item →
      (body (state (k + i)) (item, k + i)).run D (world (k + i)) =
        (.ok (state (k + i + 1)), world (k + i + 1))) :
      ((rest.zipIdx k).foldlM body (state k)).run D (world k) =
        (.ok (state (k + rest.length)), world (k + rest.length)) := by
    induction rest generalizing k with
    | nil => rfl
    | cons item rest ih =>
      have hfirst := hrest 0 item rfl
      rw [Nat.add_zero] at hfirst
      rw [List.zipIdx_cons, List.foldlM_cons, run_bind hfirst, ih (k + 1) (by
        intro i item' hitem
        have hstep := hrest (i + 1) item' (by simpa using hitem)
        rw [Nat.add_right_comm k 1 i]
        exact hstep), List.length_cons]
      rw [Nat.add_right_comm k 1, Nat.add_assoc k]
  simpa only [Nat.zero_add] using key items 0 (by simpa only [Nat.zero_add] using h)

variable {check : α → Prog Call Reply PUnit}

/-- A loop of checks. -/
theorem run_forM (h : ∀ item ∈ items, (check item).run D w = (.ok (), w)) :
    (items.forM check).run D w = (.ok (), w) := by
  induction items with
  | nil => rfl
  | cons item items ih =>
    show (check item >>= fun _ => items.forM check).run D w = _
    rw [run_bind (h item (by simp))]
    exact ih (fun item' hitem => h item' (List.mem_cons_of_mem _ hitem))

/-! ## §3. The invariant rule. -/

/-- **SAFE**: a run that ends without a result leaves a world in `crash`, and a result comes with
a world in `post`. -/
def Safe (D : Device Call Reply W) (crash : W → Prop) (post : α → W → Prop) :
    Prog Call Reply α → W → Prop
  | .pure a, w => post a w
  | .stop _, w => crash w
  | .call c next, w =>
    (∀ w', D.leaves c w w' → crash w' ∧ ∀ message, Safe D crash post (next (.error message)) w') ∧
      ∀ r w', D.answer c w = .ok (r, w') → Safe D crash post (next (.ok r)) w'

/-- How a run ended. -/
def EndsWith (crash : W → Prop) (post : α → W → Prop) : Option (Except String α) → W → Prop
  | some (.ok a), w => post a w
  | some (.error _), w => crash w
  | none, w => crash w

variable {crash : W → Prop}

theorem Safe.sound {post : α → W → Prop} {result : Option (Except String α)}
    (h : Safe D crash post p w) (hexec : Exec D p w result w') : EndsWith crash post result w' := by
  induction hexec with
  | pure => exact h
  | stop => exact h
  | answered hanswer _ ih => exact ih (h.2 _ _ hanswer)
  | failed hleaves _ ih => exact ih ((h.1 _ hleaves).2 _)
  | died hleaves => exact (h.1 _ hleaves).1

theorem Safe.bind {Q : α → W → Prop} {R : β → W → Prop} (h : Safe D crash Q p w)
    (hf : ∀ a w, Q a w → Safe D crash R (f a) w) : Safe D crash R (p >>= f) w := by
  show Safe D crash R (p.bind f) w
  induction p generalizing w with
  | pure a => exact hf a w h
  | stop message => exact h
  | call c next ih =>
    refine ⟨?_, ?_⟩
    · intro w' hleaves
      exact ⟨(h.1 w' hleaves).1, fun message => ih _ ((h.1 w' hleaves).2 message)⟩
    · intro r w' hanswer
      exact ih _ (h.2 r w' hanswer)

theorem Safe.mono {post post' : α → W → Prop} (h : Safe D crash post p w)
    (hpost : ∀ a w, post a w → post' a w) : Safe D crash post' p w := by
  induction p generalizing w with
  | pure a => exact hpost a w h
  | stop message => exact h
  | call c next ih =>
    refine ⟨?_, ?_⟩
    · intro w' hleaves
      exact ⟨(h.1 w' hleaves).1, fun message => ih _ ((h.1 w' hleaves).2 message)⟩
    · intro r w' hanswer
      exact ih _ (h.2 r w' hanswer)

theorem Safe.attempt {c : Call} {post : Reply c → W → Prop}
    (hcrash : ∀ w', D.leaves c w w' → crash w')
    (hpost : ∀ r w', D.answer c w = .ok (r, w') → post r w') :
    Safe D crash post (attempt c context) w :=
  ⟨fun w' hleaves => ⟨hcrash w' hleaves, fun _ => hcrash w' hleaves⟩, hpost⟩

/-- A loop with an invariant that counts the rounds. -/
theorem Safe.foldlM {I : Nat → β → W → Prop}
    {b : β} (h : ∀ i item b w, items[i]? = some item → I i b w →
      Safe D crash (I (i + 1)) (body b (item, i)) w) (hI : I 0 b w) :
    Safe D crash (I items.length) (items.zipIdx.foldlM body b) w := by
  have key (rest : List α) (k : Nat) (b : β) (w : W) (hrest : ∀ i item b w, rest[i]? = some item →
      I (k + i) b w → Safe D crash (I (k + i + 1)) (body b (item, k + i)) w) (hk : I k b w) :
      Safe D crash (I (k + rest.length)) ((rest.zipIdx k).foldlM body b) w := by
    induction rest generalizing k b w with
    | nil => exact hk
    | cons item rest ih =>
      refine Safe.bind (hrest 0 item b w rfl hk) ?_
      intro b' w' hk'
      rw [List.length_cons, Nat.add_comm rest.length 1, ← Nat.add_assoc]
      refine ih (k + 1) b' w' ?_ hk'
      intro i item' b w hitem hi
      rw [Nat.add_right_comm k 1 i] at hi ⊢
      exact hrest (i + 1) item' b w (by simpa using hitem) hi
  simpa only [Nat.zero_add] using key items 0 b w (by simpa only [Nat.zero_add] using h) hI

/-- A loop of checks collects what they found. -/
theorem Safe.forM {found : α → Prop}
    (h : ∀ item ∈ items, Safe D crash (fun _ w' => w' = w ∧ found item) (check item) w) :
    Safe D crash (fun _ w' => w' = w ∧ ∀ item ∈ items, found item) (items.forM check) w := by
  induction items with
  | nil => exact ⟨rfl, (by simp)⟩
  | cons item items ih =>
    show Safe D _ _ (check item >>= fun _ => items.forM check) w
    refine Safe.bind (h item (by simp)) ?_
    rintro _ _ ⟨rfl, hitem⟩
    refine Safe.mono (ih (fun item' hitem' => h item' (List.mem_cons_of_mem _ hitem'))) ?_
    rintro _ _ ⟨rfl, hitems⟩
    exact ⟨rfl, List.forall_mem_cons.mpr ⟨hitem, hitems⟩⟩

/-! ## §4. Recovery. -/

/-- The worlds of a program that is started again after each run. -/
inductive Recovers (D : Device Call Reply W) (main : W → Prog Call Reply α) (w₀ : W) : W → Prop
  | start : Recovers D main w₀ w₀
  | restart {w w' : W} {result : Option (Except String α)} (h : Recovers D main w₀ w)
      (hexec : Exec D (main w) w result w') : Recovers D main w₀ w'

/-- **RECOVERY INVARIANT**: what holds at the start, and wherever a run of the program from such a
world may end, holds in every world that is reached. -/
theorem Recovers.invariant {main : W → Prog Call Reply α} {w₀ : W} {I : W → Prop} (hstart : I w₀)
    (hsafe : ∀ w, I w → Safe D I (fun _ => I) (main w) w) (h : Recovers D main w₀ w) : I w := by
  induction h with
  | start => exact hstart
  | @restart w w' result _ hexec ih =>
    have hend := (hsafe w ih).sound hexec
    rcases result with _ | _ | _ <;> exact hend

end Prog

end PsyNode.Lib
