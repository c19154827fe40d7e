/-
PsyNode.Lib.StackMachine
**A MACHINE OVER A STACK OF AGGREGATION TREES.**

Its steps push an input, put a job on the topmost tree, or join the two topmost
trees under a job; a step may also change the state beside the stack alone.  A
streaming planner whose pending sub-trees are merged in the order of arrival is
such a machine, whatever decides when it merges.

Because only the top of the stack is touched, the inputs of the stack stay in
the order of their arrival and its jobs in the order of their creation.
-/
import PsyNode.Lib.AggTree

namespace PsyNode.Lib.Agg

open List

/-- The inputs of a stack, in the order they were pushed. -/
def stackInputs {I J : Type} (ts : List (AggTree I J)) : List I := ts.flatMap AggTree.inputs

/-- The jobs of a stack, in the order they were created. -/
def stackJobs {I J : Type} (ts : List (AggTree I J)) : List J := ts.flatMap AggTree.jobs

/-- What a machine's steps may do.  The first argument of `wrap` and `pair` is the
stack below the trees they take. -/
structure Machine (σ I J : Type) where
  idle : σ → σ → Prop
  shift : σ → I → σ → Prop
  wrap : List (AggTree I J) → σ → AggTree I J → J → σ → Prop
  pair : List (AggTree I J) → σ → AggTree I J → AggTree I J → J → σ → Prop

namespace Machine

variable {σ I J Id : Type}

/-- The stacks and states reached from an empty stack. -/
inductive Reached (M : Machine σ I J) (start : σ) : List (AggTree I J) → σ → Prop
  | start : Reached M start [] start
  | idle {ts s s'} : Reached M start ts s → M.idle s s' → Reached M start ts s'
  | shift {ts s i s'} : Reached M start ts s → M.shift s i s' →
      Reached M start (ts ++ [.input i]) s'
  | wrap {ts s t j s'} : Reached M start (ts ++ [t]) s → M.wrap ts s t j s' →
      Reached M start (ts ++ [.wrap j t]) s'
  | pair {ts s l r j s'} : Reached M start (ts ++ [l, r]) s → M.pair ts s l r j s' →
      Reached M start (ts ++ [.pair j l r]) s'

variable {M : Machine σ I J} {start : σ} {ts : List (AggTree I J)}

/-- **LOCAL TREE INVARIANTS.**  What every job has of its children when it is created,
every job of the stack has. -/
theorem Reached.each {w : J → AggTree I J → Prop} {p : J → AggTree I J → AggTree I J → Prop}
    (hw : ∀ {ts s t j s'}, M.wrap ts s t j s' → t.Each w p → w j t)
    (hp : ∀ {ts s l r j s'}, M.pair ts s l r j s' → l.Each w p → r.Each w p → p j l r) {s : σ}
    (h : M.Reached start ts s) : ∀ t ∈ ts, t.Each w p := by
  induction h with
  | start => intro t ht; cases ht
  | idle _ _ ih => exact ih
  | shift _ _ ih =>
    rw [forall_mem_append, forall_mem_singleton]
    exact ⟨ih, trivial⟩
  | wrap _ hstep ih =>
    rw [forall_mem_append, forall_mem_singleton] at ih ⊢
    exact ⟨ih.1, hw hstep ih.2, ih.2⟩
  | pair _ hstep ih =>
    rw [forall_mem_append, forall_mem_cons, forall_mem_singleton] at ih
    rw [forall_mem_append, forall_mem_singleton]
    obtain ⟨hts, hl, hr⟩ := ih
    exact ⟨hts, hp hstep hl hr, hl, hr⟩

/-- **SLOTS.**  If every new job takes the next slot of its level, the jobs of the stack
are slotted. -/
theorem Reached.slotted {level slot : J → Nat} (hw : ∀ {ts s t j s'}, M.wrap ts s t j s' →
      slot j = ((stackJobs (ts ++ [t])).filter (fun k => level k = level j)).length)
    (hp : ∀ {ts s l r j s'}, M.pair ts s l r j s' →
      slot j = ((stackJobs (ts ++ [l, r])).filter (fun k => level k = level j)).length) {s : σ}
    (h : M.Reached start ts s) : Slotted level slot (stackJobs ts) := by
  induction h with
  | start => exact slotted_nil
  | idle _ _ ih => exact ih
  | shift _ _ ih => simpa [stackJobs, AggTree.jobs] using ih
  | wrap _ hstep ih => simpa [stackJobs, AggTree.jobs] using ih.concat (hw hstep)
  | pair _ hstep ih => simpa [stackJobs, AggTree.jobs] using ih.concat (hp hstep)

end Machine

end PsyNode.Lib.Agg
