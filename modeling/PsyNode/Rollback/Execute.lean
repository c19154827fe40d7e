/-
PsyNode.Rollback.Execute
**EXECUTION OF A ROLLBACK PLAN** — `execute_rollback_plan` as a program of calls
to a store and to the file that holds the plan.

Any of the calls may fail, and the process may die in any of them.  What is left
then is the store before the call, the store after it, or something in between
that the store itself describes (`torn`); the file of the plan is replaced in
one step, so it holds the old plan or the new one.
-/
import PsyNode.Lib.CrashProg
import PsyNode.Rollback.Decode

namespace PsyNode.Rollback

open Lib
open Prog hiding pure

/-! ## §1. The store and the file of the plan. -/

inductive RollbackOutcome
  | completed
  | reconciled
deriving DecidableEq

/-- The functions of `RollbackExecutionStore`, and `persist` of `RollbackProgressStore`. -/
inductive RollbackCall
  | latestCheckpointMarker
  | pendingCounterHighWater
  | deleteNatsConsumers (plan : RollbackPlan) (targets : List RollbackNatsConsumerTarget)
  | verifyNatsConsumersAbsent (plan : RollbackPlan) (targets : List RollbackNatsConsumerTarget)
  | executePhase (plan : RollbackPlan) (phase : ExecutableRollbackPhase)
  | verifyPhase (plan : RollbackPlan) (phase : ExecutableRollbackPhase)
  | deletePostTargetBackups (plan : RollbackPlan)
  | writeLatestCheckpointMarker (targetCheckpointId : Nat)
  | persist (plan : RollbackPlan)

/-- What a call returns. -/
abbrev RollbackCall.Reply : RollbackCall → Type
  | .latestCheckpointMarker | .pendingCounterHighWater => Nat
  | _ => Unit

/-- Calls that make many changes.  The others only read, or replace one row or one file. -/
def RollbackCall.mayTear : RollbackCall → Bool
  | .deleteNatsConsumers .. | .executePhase .. | .deletePostTargetBackups .. => true
  | _ => false

/-- `RollbackExecutionStore`, as what its functions read and write. -/
structure RollbackExecutionStore (σ : Type) where
  latestCheckpointMarker : σ → Nat
  pendingCounterHighWater : σ → Nat
  deleteNatsConsumers : RollbackPlan → List RollbackNatsConsumerTarget → σ → σ
  verifyNatsConsumersAbsent :
    RollbackPlan → List RollbackNatsConsumerTarget → σ → Except String Unit
  executePhase : RollbackPlan → ExecutableRollbackPhase → σ → σ
  verifyPhase : RollbackPlan → ExecutableRollbackPhase → σ → Except String Unit
  deletePostTargetBackups : RollbackPlan → σ → σ
  writeLatestCheckpointMarker : Nat → σ → σ
  /-- stores that a call may leave when it is interrupted half way -/
  torn : RollbackCall → σ → σ → Prop

/-- The store, and the plan as it was last persisted. -/
structure World (σ : Type) where
  store : σ
  persisted : RollbackPlan

namespace RollbackExecutionStore

variable {σ : Type} (store : RollbackExecutionStore σ)

/-- A call that is not interrupted. -/
def answer (call : RollbackCall) (w : World σ) : Except String (call.Reply × World σ) :=
  match call with
  | .latestCheckpointMarker => .ok (store.latestCheckpointMarker w.store, w)
  | .pendingCounterHighWater => .ok (store.pendingCounterHighWater w.store, w)
  | .deleteNatsConsumers plan targets =>
    .ok ((), ⟨store.deleteNatsConsumers plan targets w.store, w.persisted⟩)
  | .verifyNatsConsumersAbsent plan targets =>
    (store.verifyNatsConsumersAbsent plan targets w.store).map (fun _ => ((), w))
  | .executePhase plan phase => .ok ((), ⟨store.executePhase plan phase w.store, w.persisted⟩)
  | .verifyPhase plan phase => (store.verifyPhase plan phase w.store).map (fun _ => ((), w))
  | .deletePostTargetBackups plan =>
    .ok ((), ⟨store.deletePostTargetBackups plan w.store, w.persisted⟩)
  | .writeLatestCheckpointMarker targetCheckpointId =>
    .ok ((), ⟨store.writeLatestCheckpointMarker targetCheckpointId w.store, w.persisted⟩)
  | .persist plan => .ok ((), ⟨w.store, plan⟩)

/-- What an interrupted call leaves. -/
def Leaves (call : RollbackCall) (w w' : World σ) : Prop :=
  w' = w ∨ (∃ reply, store.answer call w = .ok (reply, w')) ∨
    call.mayTear ∧ store.torn call w.store w'.store ∧ w'.persisted = w.persisted

/-- **THE WORLD OF A ROLLBACK.** -/
def device : Device RollbackCall RollbackCall.Reply (World σ) where
  answer := store.answer
  leaves := store.Leaves
  leaves_self := fun _ _ => Or.inl rfl
  leaves_answer := fun _ _ r _ h => Or.inr (Or.inl ⟨r, h⟩)

end RollbackExecutionStore

/-! ## §2. The program. -/

/-- Programs of these calls. -/
abbrev RollbackProg := Prog RollbackCall RollbackCall.Reply

/-- A call whose failure ends the rollback. -/
abbrev attempt (call : RollbackCall) (context : String → String) : RollbackProg call.Reply :=
  Prog.attempt call context

/-- The result of a computation without calls. -/
def ofExcept {α : Type} : Except String α → RollbackProg α
  | .ok a => .pure a
  | .error message => .stop message

def requireMarker (expected : Nat) (context : String) : RollbackProg Unit := do
  let actual ← attempt .latestCheckpointMarker id
  if actual ≠ expected then
    .stop s!"checkpoint marker changed {context}: expected {expected}, got {actual}"
  else pure ()

variable (plan : RollbackPlan)

def requireCounterNotRegressed : RollbackProg Unit := do
  let actual ← attempt .pendingCounterHighWater id
  if actual ≠ plan.latestPendingId then
    .stop (s!"pending counter mismatch: current {actual}, frozen RP high-water " ++
      s!"{plan.latestPendingId}")
  else pure ()

variable (phase : ExecutableRollbackPhase)

/-- The effect of a data phase. -/
def executeData : RollbackProg Unit :=
  let context := fun _ => s!"rollback phase {phase.table} ({phase.api}) failed"
  match phase.operation with
  | .natsConsumers targets =>
    attempt (.deleteNatsConsumers plan targets) context
  | _ => attempt (.executePhase plan phase) context

/-- The check of a data phase. -/
def verifyData (context : String) : RollbackProg Unit :=
  let context := fun _ => s!"{context} for {phase.table} ({phase.api})"
  match phase.operation with
  | .natsConsumers targets =>
    attempt (.verifyNatsConsumersAbsent plan targets) context
  | _ => attempt (.verifyPhase plan phase) context

/-- A phase that changes data: neither the final check nor the marker. -/
def ExecutableRollbackPhase.isData : Bool :=
  ¬ (phase.isMarker ∨ phase.isVerify)

def verifyComplete (phases : List ExecutableRollbackPhase)
    (expectedMarker : Nat) : RollbackProg Unit := do
  requireMarker expectedMarker "during postcondition checks"
  phases.forM (fun phase =>
    if ¬ phase.isData then pure ()
    else do
      verifyData plan phase "postcondition failed"
      requireMarker expectedMarker "during postcondition checks")

/-- `status = Completed`, for the phase at an index. -/
def RollbackPlan.completePhase (index : Nat) : RollbackPlan :=
  { plan with
    phases := plan.phases.modify index (fun phase => { phase with status := .completed }) }

/-- The status of the phase at an index is `Completed`. -/
def RollbackPlan.isCompleted (index : Nat) : Bool :=
  plan.phases[index]?.any (fun phase => phase.status = .completed)

/-- The only write that commits; there is none when the rollback changes no checkpoint. -/
def writeMarker : RollbackProg Unit :=
  if plan.latestCheckpointId ≠ plan.targetCheckpointId then
    attempt (.writeLatestCheckpointMarker plan.targetCheckpointId)
      (fun _ => "failed to write rollback commit marker")
  else pure ()

/-- The marker phase: everything is checked again before the commit. -/
def commitMarker (phases : List ExecutableRollbackPhase) : RollbackProg Unit := do
  requireCounterNotRegressed plan
  attempt (.deletePostTargetBackups plan)
    (fun _ => "failed to delete post-target gatherer backups")
  verifyComplete plan phases plan.latestCheckpointId
  writeMarker plan
  requireMarker plan.targetCheckpointId "after marker phase"

variable (phases : List ExecutableRollbackPhase)

/-- What a pending phase does. -/
def runPending (plan : RollbackPlan) (phase : ExecutableRollbackPhase) : RollbackProg Unit :=
  if phase.isMarker then commitMarker plan phases
  else if phase.isVerify then verifyComplete plan phases plan.latestCheckpointId
  else do
    executeData plan phase
    requireMarker plan.latestCheckpointId "after phase"

/-- One round of the loop of `execute_rollback_plan`. -/
def runPhase (plan : RollbackPlan) (item : ExecutableRollbackPhase × Nat) :
    RollbackProg RollbackPlan :=
  if plan.isCompleted item.2 then pure plan
  else do
    requireMarker plan.latestCheckpointId "before phase"
    runPending phases plan item.1
    let plan := plan.completePhase item.2
    attempt (.persist plan)
      (fun _ => s!"failed to persist completion of phase {item.1.table}")
    pure plan

/-- What reconciling a pending phase checks. -/
def reconcilePending (plan : RollbackPlan) (phase : ExecutableRollbackPhase) : RollbackProg Unit :=
  if phase.isMarker then requireMarker plan.targetCheckpointId "reconciling marker"
  else if phase.isVerify then verifyComplete plan phases plan.targetCheckpointId
  else verifyData plan phase "reconciliation failed"

/-- One round of the loop of `reconcile_target`. -/
def reconcilePhase (plan : RollbackPlan) (item : ExecutableRollbackPhase × Nat) :
    RollbackProg RollbackPlan :=
  if plan.isCompleted item.2 then pure plan
  else do
    reconcilePending phases plan item.1
    let plan := plan.completePhase item.2
    attempt (.persist plan) id
    pure plan

def reconcileTarget (plan : RollbackPlan) (phases : List ExecutableRollbackPhase) :
    RollbackProg Unit := do
  attempt (.deletePostTargetBackups plan)
    (fun _ => "failed to delete post-target gatherer backups")
  verifyComplete plan phases plan.targetCheckpointId
  let plan ← phases.zipIdx.foldlM (reconcilePhase phases) plan
  requireCounterNotRegressed plan

/-- The loop of `execute_rollback_plan` and the checks after it. -/
def rollBack (plan : RollbackPlan) (phases : List ExecutableRollbackPhase) : RollbackProg Unit := do
  let plan ← phases.zipIdx.foldlM (runPhase phases) plan
  requireMarker plan.targetCheckpointId "after rollback"
  requireCounterNotRegressed plan

/-- The marker stands at the target, and this is not where the rollback starts from. -/
def RollbackPlan.committed (plan : RollbackPlan) (marker : Nat) : Bool :=
  marker = plan.targetCheckpointId ∧ (plan.latestCheckpointId ≠ plan.targetCheckpointId ∨
    plan.phases.all (fun phase => phase.status = .completed))

def executeRollbackPlan (plan : RollbackPlan) : RollbackProg RollbackOutcome := do
  ofExcept (validateRollbackPlan plan)
  let phases ← ofExcept (decodeAllPhases plan)
  let marker ← attempt .latestCheckpointMarker id
  if marker ≠ plan.latestCheckpointId ∧ marker ≠ plan.targetCheckpointId then
    .stop (s!"rollback marker mismatch: current {marker}, RP latest {plan.latestCheckpointId}, " ++
      s!"RP target {plan.targetCheckpointId}")
  else do
    requireCounterNotRegressed plan
    if plan.committed marker then do
      reconcileTarget plan phases
      pure .reconciled
    else do
      rollBack plan phases
      pure .completed

/-- A restart runs the plan as it was last persisted. -/
def recover {σ : Type} (w : World σ) : RollbackProg RollbackOutcome :=
  executeRollbackPlan w.persisted

/-! ## §3. What the pieces do. -/

section
variable {σ : Type} (store : RollbackExecutionStore σ)

namespace RollbackExecutionStore

/-- The effect of a data phase on the store. -/
def effect (plan : RollbackPlan) (phase : ExecutableRollbackPhase) : σ → σ :=
  match phase.operation with
  | .natsConsumers targets => store.deleteNatsConsumers plan targets
  | _ => store.executePhase plan phase

/-- The check of a data phase. -/
def check (plan : RollbackPlan) (phase : ExecutableRollbackPhase) : σ → Except String Unit :=
  match phase.operation with
  | .natsConsumers targets => store.verifyNatsConsumersAbsent plan targets
  | _ => store.verifyPhase plan phase

/-- A store that the interrupted effect of a data phase may leave half way. -/
def tornEffect (plan : RollbackPlan) (phase : ExecutableRollbackPhase) : σ → σ → Prop :=
  match phase.operation with
  | .natsConsumers targets => store.torn (.deleteNatsConsumers plan targets)
  | _ => store.torn (.executePhase plan phase)

end RollbackExecutionStore

variable {store} {crash : World σ → Prop} {w : World σ} {plan : RollbackPlan}

theorem ofExcept_safe {α : Type} {x : Except String α} {post : α → World σ → Prop}
    (hcrash : crash w) (hpost : ∀ a, x = .ok a → post a w) :
    Safe store.device crash post (ofExcept x) w := by
  cases x with
  | error message => exact hcrash
  | ok a => exact hpost a rfl

/-- A call that only reads leaves the world as it is. -/
theorem read_safe {call : RollbackCall} {context : String → String}
    {post : call.Reply → World σ → Prop} (hread : call.mayTear = false) (hcrash : crash w)
    (hanswer : ∀ reply w', store.answer call w = .ok (reply, w') → w' = w ∧ post reply w') :
    Safe store.device crash post (attempt call context) w := by
  refine Prog.Safe.attempt ?_ (fun reply w' h => (hanswer reply w' h).2)
  rintro w' (rfl | ⟨reply, hreply⟩ | ⟨htear, _⟩)
  · exact hcrash
  · rw [(hanswer reply w' hreply).1]
    exact hcrash
  · rw [hread] at htear
    cases htear

/-- A call that writes leaves the world before it, the one after it, or a torn one. -/
theorem write_safe {call : RollbackCall} {context : String → String} {r : call.Reply}
    {post : call.Reply → World σ → Prop} {w' : World σ}
    (hanswer : store.answer call w = .ok (r, w'))
    (hbefore : crash w) (hafter : crash w')
    (htorn : call.mayTear → ∀ s, store.torn call w.store s → crash ⟨s, w.persisted⟩)
    (hpost : post r w') : Safe store.device crash post (attempt call context) w := by
  refine Prog.Safe.attempt ?_ ?_
  · rintro ⟨s, persisted⟩ (heq | ⟨reply, h⟩ | ⟨htear, hs, rfl⟩)
    · exact heq ▸ hbefore
    · cases hanswer.symm.trans h
      exact hafter
    · exact htorn htear s hs
  · intro reply w₁ h
    cases hanswer.symm.trans h
    exact hpost

variable {context : String} {expected : Nat}

theorem requireMarker_safe (hcrash : crash w) :
    Safe store.device crash (fun _ w' => w' = w ∧ store.latestCheckpointMarker w.store = expected)
      (requireMarker expected context) w := by
  refine Safe.bind (Q := fun r w' =>
    w' = w ∧ r = store.latestCheckpointMarker w.store) (read_safe rfl hcrash ?_) ?_
  · rintro r w' ⟨⟩
    exact ⟨rfl, rfl, rfl⟩
  · rintro r w' ⟨rfl, rfl⟩
    split
    next => exact hcrash
    next h => exact ⟨rfl, not_not.mp h⟩

theorem requireMarker_run (h : store.latestCheckpointMarker w.store = expected) :
    (requireMarker expected context).run store.device w = (.ok (), w) := by
  unfold requireMarker
  rw [Prog.run_bind (Prog.run_attempt (r := store.latestCheckpointMarker w.store) rfl),
    if_neg (not_not.mpr h)]
  rfl

theorem requireCounter_safe (hcrash : crash w) : Prog.Safe store.device crash
      (fun _ w' => w' = w ∧ store.pendingCounterHighWater w.store = plan.latestPendingId)
      (requireCounterNotRegressed plan) w := by
  refine Safe.bind (Q := fun r w' =>
    w' = w ∧ r = store.pendingCounterHighWater w.store) (read_safe rfl hcrash ?_) ?_
  · rintro r w' ⟨⟩
    exact ⟨rfl, rfl, rfl⟩
  · rintro r w' ⟨rfl, rfl⟩
    split
    next => exact hcrash
    next h => exact ⟨rfl, not_not.mp h⟩

theorem requireCounter_run (h : store.pendingCounterHighWater w.store = plan.latestPendingId) :
    (requireCounterNotRegressed plan).run store.device w = (.ok (), w) := by
  unfold requireCounterNotRegressed
  rw [Prog.run_bind (Prog.run_attempt (r := store.pendingCounterHighWater w.store) rfl),
    if_neg (not_not.mpr h)]
  rfl

variable {phase : ExecutableRollbackPhase}

/-- Checks leave the world as it is. -/
theorem verifyData_safe (hcrash : crash w) :
    Safe store.device crash (fun _ w' => w' = w ∧ store.check plan phase w.store = .ok ())
      (verifyData plan phase context) w := by
  have hcall : ∀ {call : RollbackCall} {x : Except String Unit} {message : String → String},
      (hreply : call.Reply = Unit) → call.mayTear = false →
      store.answer call w = x.map (fun _ => (cast hreply.symm (), w)) →
      Safe store.device crash (fun _ w' => w' = w ∧ x = .ok ()) (attempt call message) w := by
    intro call x message hreply hread hanswer
    refine read_safe hread hcrash ?_
    intro reply w' h
    rw [hanswer] at h
    cases x with
    | error message => cases h
    | ok u =>
      simp only [Except.map, Except.ok.injEq, Prod.mk.injEq] at h
      exact ⟨h.2.symm, h.2.symm, rfl⟩
  unfold verifyData RollbackExecutionStore.check
  cases phase.operation
  all_goals exact hcall rfl rfl rfl

theorem verifyData_run (h : store.check plan phase w.store = .ok ()) :
    (verifyData plan phase context).run store.device w = (.ok (), w) := by
  unfold RollbackExecutionStore.check at h
  unfold verifyData
  cases hop : phase.operation
  all_goals
    simp only [hop] at h
    refine Prog.run_attempt ?_
    show Except.map _ _ = _
    rw [h]
    rfl

variable {post : Unit → World σ → Prop}

/-- The effect of a data phase, and what is left when it is interrupted. -/
theorem executeData_safe (hbefore : crash w)
    (hafter : crash ⟨store.effect plan phase w.store, w.persisted⟩)
    (htorn : ∀ s, store.tornEffect plan phase w.store s → crash ⟨s, w.persisted⟩)
    (hpost : post () ⟨store.effect plan phase w.store, w.persisted⟩) :
    Safe store.device crash post (executeData plan phase) w := by
  unfold RollbackExecutionStore.effect at hafter hpost
  unfold RollbackExecutionStore.tornEffect at htorn
  unfold executeData
  cases hop : phase.operation
  all_goals
    simp only [hop] at hafter htorn hpost
    exact write_safe rfl hbefore hafter (fun _ => htorn) hpost

theorem executeData_run : (executeData plan phase).run store.device w =
      (.ok (), ⟨store.effect plan phase w.store, w.persisted⟩) := by
  unfold executeData RollbackExecutionStore.effect
  cases phase.operation
  all_goals exact Prog.run_attempt rfl

theorem verifyComplete_safe {phases : List ExecutableRollbackPhase} (hcrash : crash w) :
    Prog.Safe store.device crash (fun _ w' => w' = w ∧ ∀ phase ∈ phases, phase.isData →
      store.check plan phase w.store = .ok ()) (verifyComplete plan phases expected) w := by
  refine Prog.Safe.bind (requireMarker_safe hcrash) ?_
  rintro _ _ ⟨rfl, _⟩
  refine Safe.forM ?_
  intro phase _
  split
  next hdata => exact ⟨rfl, fun h => absurd h hdata⟩
  next =>
    refine Safe.bind (verifyData_safe hcrash) ?_
    rintro _ _ ⟨rfl, hcheck⟩
    exact Safe.mono (requireMarker_safe hcrash) (fun _ _ h => ⟨h.1, fun _ => hcheck⟩)

theorem verifyComplete_run {phases : List ExecutableRollbackPhase}
    (hmarker : store.latestCheckpointMarker w.store = expected)
    (hcheck : ∀ phase ∈ phases, phase.isData → store.check plan phase w.store = .ok ()) :
    (verifyComplete plan phases expected).run store.device w = (.ok (), w) := by
  unfold verifyComplete
  rw [run_bind (requireMarker_run hmarker)]
  refine run_forM ?_
  intro phase hphase
  split
  next => rfl
  next hdata =>
    rw [run_bind (verifyData_run (hcheck phase hphase (not_not.mp hdata)))]
    exact requireMarker_run hmarker

/-- The file of the plan is replaced in one step. -/
theorem persist_safe {message : String → String}
    (hbefore : crash w) (hafter : crash ⟨w.store, plan⟩) (hpost : post () ⟨w.store, plan⟩) :
    Safe store.device crash post (attempt (.persist plan) message) w :=
  write_safe rfl hbefore hafter (fun htear => absurd htear Bool.false_ne_true) hpost

end

end PsyNode.Rollback
