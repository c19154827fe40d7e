/-
PsyNode.Realm.Run
**ADDING ENDCAPS** — runs of the realm's planner before its finalization.  Between calls
the job stragglers are a binary counter of perfect trees.
-/
import PsyNode.Coordinator.Run
import PsyNode.Realm.Plan

namespace PsyNode.Realm

open Merkle Guta Recorder Store Lib.Agg Lib List
open RealmGUTAPlanner

variable {F Hash : Type}

/-! ## §1. What adding an EndCap does. -/

variable (planner : RealmGUTAPlanner F Hash)

/-- The part of the planner that says what is planned. -/
def core : RealmPlannerConfig Hash × JobTable F Hash ×
    Option (EndCap F Hash) × List (PlannedFutureEndCapJob F Hash) :=
  (planner.toRealmPlannerConfig, planner.toJobTable, planner.endCapStraggler,
    planner.acceptedEndCapJobs)

/-- What an addition returns: a count or an error, with the planner and the user tree. -/
abbrev AddResult (F Hash : Type) :=
  Except (RealmPlannerError Hash) Nat × RealmGUTAPlanner F Hash × RecorderStore Hash

/-- An addition that returns 0 or fails, and leaves plan and user tree alone. -/
structure Skips (planner : RealmGUTAPlanner F Hash) (s : RecorderStore Hash)
    (r : AddResult F Hash) : Prop where
  result : r.1 = .ok 0 ∨ ∃ e, r.1 = .error e
  core_eq : core r.2.1 = core planner
  tree_eq : r.2.2 = s

/-- The EndCap of an addition that returned 1. -/
def acceptedItem (item : EndCap F Hash) : Except (RealmPlannerError Hash) Nat → List (EndCap F Hash)
  | .ok 1 => [item]
  | _ => []

/-- An addition keeps `inv`, which may speak of the EndCaps accepted so far. -/
def Kept (inv : List (EndCap F Hash) → RealmGUTAPlanner F Hash → RecorderStore Hash → Prop)
    (accepted : List (EndCap F Hash)) (item : EndCap F Hash) : AddResult F Hash → Prop :=
  EndsIn (fun n st => n = 0 ∧ inv accepted st.1 st.2 ∨ n = 1 ∧ inv (accepted ++ [item]) st.1 st.2)
    (fun e st => (∃ message, e = .panicked message) ∨ inv accepted st.1 st.2)

variable {planner' : RealmGUTAPlanner F Hash} {s s' : RecorderStore Hash} {r : AddResult F Hash}
  {inv : List (EndCap F Hash) → RealmGUTAPlanner F Hash → RecorderStore Hash → Prop}
  {item : EndCap F Hash}

/-- A call leaves `inv` for the EndCaps accepted after it, unless it panicked. -/
def Leaves (inv : List (EndCap F Hash) → RealmGUTAPlanner F Hash → RecorderStore Hash → Prop)
    (accepted : List (EndCap F Hash)) : AddResult F Hash → Prop :=
  EndsIn (fun _ st => inv accepted st.1 st.2)
    (fun e st => (∃ message, e = .panicked message) ∨ inv accepted st.1 st.2)

/-- What an addition accepted is what it returned 1 for. -/
theorem Kept.leaves {accepted : List (EndCap F Hash)} (h : Kept inv accepted item r) :
    Leaves inv (accepted ++ acceptedItem item r.1) r := by
  obtain ⟨res, planner', s'⟩ := r
  cases res with
  | error e =>
    show Leaves inv (accepted ++ []) _
    rw [append_nil]
    exact h
  | ok n =>
    rcases h with ⟨rfl, h⟩ | ⟨rfl, h⟩
    · show inv (accepted ++ []) planner' s'
      rw [append_nil]
      exact h
    · exact h

/-- A skipped EndCap changes nothing that the plan's invariants speak of. -/
theorem Skips.kept {accepted : List (EndCap F Hash)} {planner : RealmGUTAPlanner F Hash}
    (h : Skips planner s r) (hinv : inv accepted r.2.1 s) : Kept inv accepted item r := by
  obtain ⟨res, planner', s'⟩ := r
  obtain ⟨hres, _, rfl⟩ := h
  rcases hres with rfl | ⟨e, rfl⟩
  · exact Or.inl ⟨rfl, hinv⟩
  · exact Or.inr hinv

/-- What slot `i` holds while EndCaps are added: pairs of EndCaps stand on level 0. -/
def Full (i : Nat) (t : PlanTree F Hash) : Prop :=
  t.Perfect (i + 1) ∧ ∀ k ∈ t.jobs, k.level ≤ i

theorem carries_full : Carries (Full : Nat → PlanTree F Hash → Prop) where
  height_pos := by
    intro i t h
    rw [h.1.1]
    exact Nat.succ_pos i
  level_le := fun h => h.2
  pair := by
    intro i l r j hl hr hj
    exact ⟨hl.1.pair hr.1 j, pair_level_le hl.2 hr.2 hj⟩

/-- The stack of a planner: what waits on the levels, and the waiting EndCap on top. -/
def stack (ws : List (Option (PlanTree F Hash))) (straggler : Option (EndCap F Hash)) :
    List (PlanTree F Hash) :=
  occupied ws ++ straggler.toList.map .input

variable [QFelt64 F]

theorem updateUserLeaf_ends (planner : RealmGUTAPlanner F Hash) (leaf : PQEDUserLeaf F Hash) :
    Ends (fun planner' => core planner' = core planner) (· ≠ .doesNotReturn)
      (planner.updateUserLeaf leaf) := by
  unfold updateUserLeaf
  dsimp only
  split
  next =>
    split
    next => exact rfl
    next =>
      intro h
      cases h
  next => exact rfl

theorem refreshValidatorLeaf_core (item : EndCap F Hash) :
    core (planner.refreshValidatorLeaf item) = core planner := by
  unfold refreshValidatorLeaf
  split
  next => rfl
  next => rfl

variable [MerkleZeroHasher Hash] [DecidableEq Hash]

/-- A leaf that is there, or that is declared missing, is not initialized. -/
theorem initializeLeaf_eq_self {config : RealmPlannerConfig Hash}
    (h : s.getLeafValue (config.leafIndex item) = getZeroValue →
      item.oldUserLeafHash = getZeroValue) : initializeLeaf config s item = s := by
  unfold initializeLeaf
  dsimp only
  split
  next hmissing => exact absurd ((h hmissing.2).symm ▸ hmissing.2) hmissing.1
  next => rfl

variable [HashTo4Felts F Hash] [FieldQHasher F Hash]

/-- **WHAT ADDING ONE ENDCAP CAN DO** to the plan and to the user tree. -/
inductive Adds (job : PlannedFutureEndCapJob F Hash) (planner : RealmGUTAPlanner F Hash)
    (s : RecorderStore Hash) : AddResult F Hash → Prop
  | skips {r : AddResult F Hash} (h : Skips planner s r) : Adds job planner s r
  | parked {planner' : RealmGUTAPlanner F Hash} (hnone : planner.endCapStraggler = none)
      (hcore : core planner' = (planner.toRealmPlannerConfig, planner.toJobTable,
        some job.queueItem, planner.acceptedEndCapJobs ++ [job])) :
      Adds job planner s (.ok 1, planner', s)
  | paired {planner' : RealmGUTAPlanner F Hash} {left : EndCap F Hash} {table : JobTable F Hash}
      {s' : RecorderStore Hash}
      (checkpointTree : AppendOnlyStore Hash)
      (hsome : planner.endCapStraggler = some left)
      (hpair : pairEndCaps planner.toRealmPlannerConfig checkpointTree left job.queueItem
        planner.toJobTable s = (.ok (), table, s'))
      (hcore : core planner' = (planner.toRealmPlannerConfig, table, none,
        planner.acceptedEndCapJobs ++ [job])) :
      Adds job planner s (.ok 1, planner', s')
  | stuck {planner' : RealmGUTAPlanner F Hash} {left : EndCap F Hash} {table : JobTable F Hash}
      {s' : RecorderStore Hash} {e : RealmPlannerError Hash}
      (checkpointTree : AppendOnlyStore Hash)
      (hsome : planner.endCapStraggler = some left)
      (hpair : pairEndCaps planner.toRealmPlannerConfig checkpointTree left job.queueItem
        planner.toJobTable s = (.error e, table, s'))
      (hcore : core planner' = (planner.toRealmPlannerConfig, table, none,
        planner.acceptedEndCapJobs)) :
      Adds job planner s (.error e, planner', s')

variable {planner : RealmGUTAPlanner F Hash}
  (cpTree : AppendOnlyStore Hash)

/-- The common end of both ways of adding an EndCap. -/
theorem acceptEndCap_adds (job : PlannedFutureEndCapJob F Hash) (payload : ContractUpdatePayload)
    (planner : RealmGUTAPlanner F Hash) (s : RecorderStore Hash) :
    Adds job planner s (acceptEndCap cpTree job payload planner s) := by
  unfold acceptEndCap
  dsimp only
  split
  next e _ => exact .skips ⟨Or.inr ⟨e, rfl⟩, rfl, rfl⟩
  next planner₁ hupdate =>
    have hcore : core (planner₁.refreshValidatorLeaf job.queueItem) = core planner := by
      rw [refreshValidatorLeaf_core, (updateUserLeaf_ends _ _).of_ok hupdate]
      rfl
    obtain ⟨hconfig, htable, hstraggler, haccepted⟩ := by
      simpa only [core, Prod.mk.injEq] using hcore
    rw [hstraggler, hconfig, htable]
    split
    next hnone =>
      refine .parked hnone ?_
      simp only [core, countEndCap, haccepted]
    next left hsome =>
      rcases hpair : pairEndCaps planner.toRealmPlannerConfig cpTree left job.queueItem
        planner.toJobTable s with ⟨res, table, s'⟩
      cases res with
      | error e =>
        refine .stuck cpTree hsome hpair ?_
        simp only [core, haccepted]
      | ok u =>
        refine .paired cpTree hsome hpair ?_
        simp only [core, countEndCap, haccepted]

variable (ext : Externals) (cpTree : AppendOnlyStore Hash)

/-- **`add_end_cap_job`** either leaves plan and tree as they are, or adds an EndCap of the
realm whose declared old leaf is the tree's, after setting a missing leaf. -/
theorem addEndCapJob_cases (contractUpdates : Option Bytes) (item : EndCap F Hash)
    (planner : RealmGUTAPlanner F Hash) (s : RecorderStore Hash) :
    Skips planner s (addEndCapJob ext cpTree contractUpdates item planner s) ∨
    (planner.InRealm item.userId ∧
      (s.getLeafValue (planner.leafIndex item) = item.oldUserLeafHash ∨
        s.getLeafValue (planner.leafIndex item) = getZeroValue) ∧
      ∃ data, Adds ⟨item, data⟩ planner (initializeLeaf planner.toRealmPlannerConfig s item)
        (addEndCapJob ext cpTree contractUpdates item planner s)) := by
  unfold addEndCapJob
  dsimp only
  split
  next => exact Or.inl ⟨Or.inr ⟨_, rfl⟩, rfl, rfl⟩
  next =>
    split
    next => exact Or.inl ⟨Or.inl rfl, rfl, rfl⟩
    next hrealm =>
      split
      next => exact Or.inl ⟨Or.inl rfl, rfl, rfl⟩
      next hleaf =>
        rw [not_not] at hrealm
        rw [not_and_or, not_not, not_not] at hleaf
        refine Or.inr ⟨hrealm, hleaf, ?_⟩
        split
        next =>
          -- a future checkpoint: the EndCap is kept for later
          split
          next => exact ⟨[], .skips ⟨Or.inl rfl, rfl, rfl⟩⟩
          next => exact ⟨[], .skips ⟨Or.inl rfl, rfl, rfl⟩⟩
        next =>
          split
          next => exact ⟨[], .skips ⟨Or.inl rfl, rfl, rfl⟩⟩
          next _ data =>
            split
            next => exact ⟨data, .skips ⟨Or.inr ⟨_, rfl⟩, rfl, rfl⟩⟩
            next => exact ⟨data, .skips ⟨Or.inl rfl, rfl, rfl⟩⟩
            next payload _ => exact ⟨data, acceptEndCap_adds _ _ payload _ _⟩

/-- **`add_future_end_cap_job`** either leaves plan and tree as they are, or adds an EndCap
of the realm that starts from the leaf after all accepted EndCaps. -/
theorem addFutureEndCapJob_cases (job : PlannedFutureEndCapJob F Hash)
    (planner : RealmGUTAPlanner F Hash) (s : RecorderStore Hash) :
    Skips planner s (addFutureEndCapJob ext cpTree job planner s) ∨
    (planner.InRealm job.queueItem.userId ∧
      planner.logicalOldLeaf s job.queueItem = job.queueItem.oldUserLeafHash ∧
      Adds job planner s (addFutureEndCapJob ext cpTree job planner s)) := by
  unfold addFutureEndCapJob
  dsimp only
  split
  next => exact Or.inl ⟨Or.inr ⟨_, rfl⟩, rfl, rfl⟩
  next =>
    split
    next => exact Or.inl ⟨Or.inl rfl, rfl, rfl⟩
    next hrealm =>
      split
      next => exact Or.inl ⟨Or.inl rfl, rfl, rfl⟩
      next =>
        split
        next => exact Or.inl ⟨Or.inl rfl, rfl, rfl⟩
        next hleaf =>
          rw [not_not] at hrealm hleaf
          refine Or.inr ⟨hrealm, hleaf, ?_⟩
          split
          next => exact .skips ⟨Or.inr ⟨_, rfl⟩, rfl, rfl⟩
          next => exact .skips ⟨Or.inl rfl, rfl, rfl⟩
          next payload _ => exact acceptEndCap_adds _ _ payload _ _

/-! ## §2. Runs of calls. -/

/-- A call that adds EndCaps, with the checkpoint tree and the answer of the temporary store
it meets. -/
inductive RealmCall (F Hash : Type)
  | addEndCapJob (checkpointTree : AppendOnlyStore Hash)
      (contractUpdates : Option Bytes) (item : EndCap F Hash)
  | addFutureEndCapJobs (checkpointTree : AppendOnlyStore Hash)
      (jobs : List (PlannedFutureEndCapJob F Hash))

/-- The EndCaps of a batch for which `add_future_end_cap_job` returned 1; the batch ends at
the first error. -/
def acceptedFuture (ext : Externals) (checkpointTree : AppendOnlyStore Hash) :
    List (PlannedFutureEndCapJob F Hash) → RealmGUTAPlanner F Hash →
    RecorderStore Hash → List (EndCap F Hash)
  | [], _, _ => []
  | job :: jobs, planner, s =>
    match addFutureEndCapJob ext checkpointTree job planner s with
    | (.error _, _, _) => []
    | (.ok n, planner', s') =>
      acceptedItem job.queueItem (.ok n) ++
        acceptedFuture ext checkpointTree jobs planner' s'

/-- What a call returns and leaves. -/
def RealmCall.result : RealmCall F Hash → RealmGUTAPlanner F Hash → RecorderStore Hash →
    AddResult F Hash
  | .addEndCapJob checkpointTree contractUpdates item, planner, s =>
    RealmGUTAPlanner.addEndCapJob ext checkpointTree contractUpdates item planner s
  | .addFutureEndCapJobs checkpointTree jobs, planner, s =>
    RealmGUTAPlanner.addFutureEndCapJobs ext checkpointTree 0 jobs planner s

/-- The EndCaps a call accepts. -/
def RealmCall.accepted : RealmCall F Hash → RealmGUTAPlanner F Hash → RecorderStore Hash →
    List (EndCap F Hash)
  | .addEndCapJob checkpointTree contractUpdates item, planner, s =>
    acceptedItem item
      (RealmGUTAPlanner.addEndCapJob ext checkpointTree contractUpdates item planner s).1
  | .addFutureEndCapJobs checkpointTree jobs, planner, s =>
    acceptedFuture ext checkpointTree jobs planner s

/-- **A RUN OF CALLS**: the EndCaps accepted on the way, and the state it ends in.  A call
that returns an error leaves a state in which the next one is made; there is none after a
panic. -/
def runCalls (ext : Externals) : List (RealmCall F Hash) → RealmGUTAPlanner F Hash →
    RecorderStore Hash →
    Option (List (EndCap F Hash) × RealmGUTAPlanner F Hash × RecorderStore Hash)
  | [], planner, s => some ([], planner, s)
  | call :: calls, planner, s =>
    match call.result ext planner s with
    | (.error (.panicked _), _, _) => none
    | (_, planner', s') =>
      (runCalls ext calls planner' s').map
        (fun rest => (call.accepted ext planner s ++ rest.1, rest.2))

/-- `cond` of every call of a run, in the state the call is made in. -/
def Throughout (ext : Externals)
    (cond : RealmCall F Hash → RealmGUTAPlanner F Hash → RecorderStore Hash → Prop) :
    List (RealmCall F Hash) → RealmGUTAPlanner F Hash → RecorderStore Hash → Prop
  | [], _, _ => True
  | call :: calls, planner, s => cond call planner s ∧
      Throughout ext cond calls (call.result ext planner s).2.1 (call.result ext planner s).2.2

instance decidableThroughout (ext : Externals)
    (cond : RealmCall F Hash → RealmGUTAPlanner F Hash → RecorderStore Hash → Prop)
    [∀ call planner s, Decidable (cond call planner s)] :
    (calls : List (RealmCall F Hash)) → (planner : RealmGUTAPlanner F Hash) →
    (s : RecorderStore Hash) → Decidable (Throughout ext cond calls planner s)
  | [], _, _ => .isTrue trivial
  | _ :: calls, _, _ =>
    have := decidableThroughout ext cond calls
    inferInstanceAs (Decidable (_ ∧ _))

variable {cond : RealmCall F Hash → RealmGUTAPlanner F Hash → RecorderStore Hash → Prop}
  {calls : List (RealmCall F Hash)} {accepted : List (EndCap F Hash)}

section
variable {ext : Externals} {ok : PlannedFutureEndCapJob F Hash → Prop}

/-- A batch keeps what each of its additions keeps, as long as less than `N` EndCaps are
accepted. -/
theorem addFutureEndCapJobs_keeps {cpTree : AppendOnlyStore Hash}
    {N : Nat} (hfuture : ∀ {job planner s accepted}, ok job → inv accepted planner s →
      accepted.length < N → Kept inv accepted job.queueItem
        (addFutureEndCapJob ext cpTree job planner s))
    (jobs : List (PlannedFutureEndCapJob F Hash)) (count : Nat) (accepted : List (EndCap F Hash))
    (planner : RealmGUTAPlanner F Hash) (s : RecorderStore Hash) (hok : ∀ job ∈ jobs, ok job)
    (hinv : inv accepted planner s)
    (hN : (accepted ++ acceptedFuture ext cpTree jobs planner s).length < N) :
    Leaves inv (accepted ++ acceptedFuture ext cpTree jobs planner s)
      (addFutureEndCapJobs ext cpTree count jobs planner s) := by
  induction jobs generalizing count accepted planner s with
  | nil =>
    rw [acceptedFuture, append_nil]
    exact hinv
  | cons job jobs ih =>
    have hlt : accepted.length < N :=
      lt_of_le_of_lt (prefix_append _ _).length_le hN
    have hjob := (hfuture (hok job (mem_cons_self ..)) hinv hlt).leaves
    rw [acceptedFuture] at hN
    rw [addFutureEndCapJobs, acceptedFuture]
    rcases hres : addFutureEndCapJob ext cpTree job planner s with ⟨res, planner', s'⟩
    rw [hres] at hjob hN
    cases res with
    | error e => exact hjob
    | ok n =>
      rw [← append_assoc] at hN ⊢
      exact ih (count + n) _ planner' s' (fun j hj => hok j (mem_cons_of_mem _ hj)) hjob hN

/-- A run goes on from what its first call leaves, unless that panicked. -/
theorem runCalls_cons {call : RealmCall F Hash}
    (h : runCalls ext (call :: calls) planner s = some (accepted, planner', s')) :
    (∀ message, (call.result ext planner s).1 ≠ .error (.panicked message)) ∧
      ∃ rest, runCalls ext calls (call.result ext planner s).2.1 (call.result ext planner s).2.2 =
          some (rest, planner', s') ∧
        accepted = call.accepted ext planner s ++ rest := by
  rw [runCalls] at h
  rcases hres : call.result ext planner s with ⟨res, planner₁, s₁⟩
  rw [hres] at h
  have hrest : (∀ message, res ≠ .error (.panicked message)) ∧
      (runCalls ext calls planner₁ s₁).map
        (fun rest => (call.accepted ext planner s ++ rest.1, rest.2)) =
          some (accepted, planner', s') := by
    cases res with
    | ok n => exact ⟨by simp, h⟩
    | error e =>
      cases e with
      | panicked message => cases h
      | _ => exact ⟨by simp, h⟩
  obtain ⟨hne, hmap⟩ := hrest
  obtain ⟨⟨rest, st⟩, hrun, heq⟩ := Option.map_eq_some_iff.mp hmap
  obtain ⟨hacc, hst⟩ := Prod.mk.inj heq
  exact ⟨hne, rest, by rw [hrun]; exact congrArg (fun x => some (rest, x)) hst, hacc.symm⟩

/-- **THE RUN RULE.**  What every addition keeps, under a condition on the state it is made
in, holds after every run that meets the condition throughout and accepts less than `N`
EndCaps. -/
theorem runCalls_keeps {N : Nat} (hbatch : ∀ {cpTree jobs planner s},
      cond (.addFutureEndCapJobs cpTree jobs) planner s → ∀ job ∈ jobs, ok job)
    (hadd : ∀ {cpTree contractUpdates item planner s accepted},
      cond (.addEndCapJob cpTree contractUpdates item) planner s →
      inv accepted planner s → accepted.length < N → Kept inv accepted item
        (addEndCapJob ext cpTree contractUpdates item planner s))
    (hfuture : ∀ {cpTree job planner s accepted}, ok job → inv accepted planner s →
      accepted.length < N → Kept inv accepted job.queueItem
        (addFutureEndCapJob ext cpTree job planner s))
    (calls : List (RealmCall F Hash)) {before accepted : List (EndCap F Hash)}
    {planner planner' : RealmGUTAPlanner F Hash} {s s' : RecorderStore Hash}
    (hcond : Throughout ext cond calls planner s) (hinv : inv before planner s)
    (hrun : runCalls ext calls planner s = some (accepted, planner', s'))
    (hN : (before ++ accepted).length < N) : inv (before ++ accepted) planner' s' := by
  -- one call, whatever it returns
  have hcall : ∀ {call : RealmCall F Hash} {planner s before}, cond call planner s →
      inv before planner s → (before ++ call.accepted ext planner s).length < N →
      Leaves inv (before ++ call.accepted ext planner s) (call.result ext planner s) := by
    intro call planner s before hcond hinv hN
    cases call with
    | addEndCapJob cpTree contractUpdates item =>
      exact (hadd hcond hinv (lt_of_le_of_lt (prefix_append _ _).length_le hN)).leaves
    | addFutureEndCapJobs cpTree jobs =>
      exact addFutureEndCapJobs_keeps hfuture jobs 0 before planner s (hbatch hcond) hinv hN
  induction calls generalizing before accepted planner s with
  | nil =>
    obtain ⟨rfl, rfl, rfl⟩ : [] = accepted ∧ planner = planner' ∧ s = s' := by
      simpa only [runCalls, Option.some.injEq, Prod.mk.injEq] using hrun
    rw [append_nil]
    exact hinv
  | cons call calls ih =>
    obtain ⟨hfirst, hrest⟩ := hcond
    obtain ⟨hne, rest, hrun₁, rfl⟩ := runCalls_cons hrun
    rw [← append_assoc] at hN ⊢
    have h := hcall hfirst hinv (lt_of_le_of_lt (prefix_append _ _).length_le hN)
    rcases hres : call.result ext planner s with ⟨res, planner₁, s₁⟩
    rw [hres] at h hne hrun₁ hrest
    have hinv₁ : inv (before ++ call.accepted ext planner s) planner₁ s₁ := by
      cases res with
      | ok n => exact h
      | error e =>
        rcases h with ⟨message, he⟩ | h
        · exact absurd (congrArg Except.error he) (hne message)
        · exact h
    exact ih hrest hinv₁ hrun₁ hN

end

/-! ## §3. The counter. -/

section
variable {config : RealmPlannerConfig Hash}
  {O : RecorderStore Hash → RecorderStore Hash → Prop}
  {start : RecorderStore Hash}

variable (config O start) in
/-- **THE COUNTER.**  The plan between two additions. -/
structure Counter (accepted : List (EndCap F Hash)) (table : JobTable F Hash)
    (straggler : Option (EndCap F Hash)) (s : RecorderStore Hash)
    (ws : List (Option (PlanTree F Hash))) : Prop where
  length : ws.length = maxRealmProvingLevels
  waiting : Waiting table 0 ws
  slots : SlotsOf Full 0 ws
  planned : Planned table (stackJobs (occupied ws))
  counted : Counted table
  inputs : stackInputs (stack ws straggler) = accepted
  reached : (machine config O).Reached start (stack ws straggler) s

variable (config O start) in
/-- The plan of a planner that is adding EndCaps. -/
structure Adding (accepted : List (EndCap F Hash)) (planner : RealmGUTAPlanner F Hash)
    (s : RecorderStore Hash) : Prop where
  config_eq : planner.toRealmPlannerConfig = config
  accepted_eq : planner.acceptedEndCapJobs.map PlannedFutureEndCapJob.queueItem = accepted
  counter : ∃ ws, Counter config O start accepted planner.toJobTable planner.endCapStraggler s ws

variable {ws : List (Option (PlanTree F Hash))} {table : JobTable F Hash}

/-- The last slot would hold `2 ^ 32` EndCaps. -/
theorem Counter.last_free {straggler : Option (EndCap F Hash)}
    (h : Counter config O start accepted table straggler s ws) (hbound : accepted.length < 2 ^ 30) :
    ws.getLast? = some none := by
  have hlen : ws.length = 32 := h.length
  rw [getLast?_eq_getElem?, hlen]
  rcases hw : ws[32 - 1]? with _ | w
  · rw [getElem?_eq_none_iff] at hw
    omega
  · cases w with
    | none => rfl
    | some t =>
      obtain ⟨hfull, hmem⟩ := h.slots.of_getElem? hw
      have hmem' : t ∈ stack ws straggler := mem_append_left _ hmem
      have hle : t.inputs.length ≤ (stackInputs (stack ws straggler)).length :=
        (sublist_flatten_of_mem (mem_map_of_mem hmem')).length_le
      rw [hfull.1.2, h.inputs] at hle
      omega

variable {left right : EndCap F Hash}

/-- The invariant speaks of the plan only. -/
theorem Adding.of_core (h : Adding config O start accepted planner s)
    (hcore : core planner' = core planner) : Adding config O start accepted planner' s := by
  obtain ⟨hconfig, htable, hstraggler, haccepted⟩ := by
    simpa only [core, Prod.mk.injEq] using hcore
  exact ⟨hconfig.trans h.config_eq, haccepted ▸ h.accepted_eq, by
    rw [htable, hstraggler]
    exact h.counter⟩

/-- The user tree may change between additions. -/
theorem Adding.idle (h : Adding config O start accepted planner s)
    (hO : O s s') : Adding config O start accepted planner s' := by
  obtain ⟨hconfig, hjobs, ws, hc⟩ := h
  exact ⟨hconfig, hjobs, ws, hc.length, hc.waiting, hc.slots, hc.planned, hc.counted, hc.inputs,
    hc.reached.idle hO⟩

/-- **PAIRING** an admitted EndCap with the waiting one joins them and lets the pair climb, unless
an assertion fails. -/
theorem Counter.pairEndCaps (h : Counter config O start accepted table (some left) s ws)
    (cpTree : AppendOnlyStore Hash)
    (hrealm : config.InRealm right.userId) (hbound : accepted.length < 2 ^ 30) :
    EndsIn (fun _ st => ∃ ws', Counter config O start (accepted ++ [right]) st.1 none st.2 ws')
      (fun e _ => ∃ message, e = .panicked message)
      (pairEndCaps config cpTree left right table s) := by
  have hreached := h.reached.shift (i := right) ⟨rfl, hrealm⟩
  have hstack : stack ws (some left) ++ [.input right] =
      occupied ws ++ [.input left, .input right] := by
    simp [stack]
  rw [hstack] at hreached
  unfold RealmGUTAPlanner.pairEndCaps
  rcases hleft : config.writeEndCap s left with ⟨s₁, leftDmp⟩
  rcases hright : config.writeEndCap s₁ right with ⟨s₂, rightDmp⟩
  dsimp only
  rw [hright]
  dsimp only
  split
  next message _ => exact ⟨message, rfl⟩
  next =>
    set slot := table.jobLevelCounts.getD 0 0 with hslot
    set j := twoEndCapJob config cpTree left right leftDmp rightDmp slot with hj
    have hjobs : stackJobs (occupied ws ++ [.input left, .input right]) =
        stackJobs (occupied ws) := by simp [stackJobs, AggTree.jobs]
    have hfull : Full 0 (.pair j (.input left) (.input right) : PlanTree F Hash) := by
      refine ⟨(AggTree.perfect_input left).pair (AggTree.perfect_input right) j, ?_⟩
      intro k hk
      obtain rfl : k = j := by simpa [AggTree.jobs] using hk
      exact le_rfl
    have hlevels : j.level + ws.length = maxRealmProvingLevels := (Nat.zero_add _).trans h.length
    refine (insertJobAtLevel_ends (j := j) carries_full hlevels h.waiting h.slots hfull
      (hjobs ▸ h.planned) h.counted hslot (by simp [AggTree.jobs]) hreached
      (Pairs.twoEndCap cpTree slot hleft hright)).map (fun table => (table, s₂)) ?_ ?_
    · intro _ table' hins
      obtain ⟨ws', hins⟩ := hins
      have hnone : stack ws' none = occupied ws' := append_nil _
      refine ⟨ws', hins.length.trans h.length, hins.waiting, hins.slots, hins.planned,
        hins.counted, ?_, ?_⟩
      · rw [hnone, hins.inputs, ← h.inputs]
        simp [stackInputs, stack, AggTree.inputs]
      · rw [hnone]
        exact hins.reached
    · intro e _ herr
      exact absurd (h.last_free hbound) herr.2.2

variable {job : PlannedFutureEndCapJob F Hash}
  (ha : Adding config O start accepted planner s) (hbound : accepted.length < 2 ^ 30)

include ha hbound in
/-- **ONE ADDITION** keeps the counter. -/
theorem Adds.adding (h : Adds job planner s r) (hrealm : planner.InRealm job.queueItem.userId) :
    Kept (Adding config O start) accepted job.queueItem r := by
  cases h with
  | skips h => exact h.kept (ha.of_core h.core_eq)
  | parked hnone hcore =>
    obtain ⟨hconfig, hjobs, ws, hc⟩ := ha
    obtain ⟨hconfig', htable, hstraggler, haccepted⟩ := by
      simpa only [core, Prod.mk.injEq] using hcore
    have hstack : stack ws (some job.queueItem) = stack ws none ++ [.input job.queueItem] := by
      simp [stack]
    rw [hnone] at hc
    refine Or.inr ⟨rfl, hconfig'.trans hconfig, ?_, ws, ?_⟩
    · rw [haccepted, map_append, hjobs]
      rfl
    · rw [htable, hstraggler]
      refine ⟨hc.length, hc.waiting, hc.slots, hc.planned, hc.counted, ?_, ?_⟩
      · rw [hstack, stackInputs, flatMap_append]
        exact congrArg (· ++ [job.queueItem]) hc.inputs
      · rw [hstack]
        exact hc.reached.shift ⟨rfl, hconfig ▸ hrealm⟩
  | paired cpTree hsome hpair hcore =>
    obtain ⟨hconfig, hjobs, ws, hc⟩ := ha
    obtain ⟨hconfig', htable, hstraggler, haccepted⟩ := by
      simpa only [core, Prod.mk.injEq] using hcore
    rw [hsome] at hc
    rw [hconfig] at hpair hrealm
    obtain ⟨ws', hc'⟩ := (hc.pairEndCaps cpTree hrealm hbound).of_eq hpair
    refine Or.inr ⟨rfl, hconfig'.trans hconfig, ?_, ws', ?_⟩
    · rw [haccepted, map_append, hjobs]
      rfl
    · rw [htable, hstraggler]
      exact hc'
  | stuck cpTree hsome hpair hcore =>
    obtain ⟨hconfig, _, ws, hc⟩ := ha
    rw [hsome] at hc
    rw [hconfig] at hpair hrealm
    exact Or.inl ((hc.pairEndCaps cpTree hrealm hbound).of_eq hpair)

/-! ## §4. From a new planner on. -/

/-- A planner as `new` makes it, with whatever validator it is given. -/
def Created (planner : RealmGUTAPlanner F Hash) : Prop :=
  planner = { RealmGUTAPlanner.new planner.chainId planner.realmIdU64 planner.realmSubIdU64
      planner.currentCheckpointRoot planner.currentCheckpointId planner.uniquePendingId
      planner.startRealmRoot planner.realmTreeHeight planner.globalUserTreeHeight
      planner.gutaCircuitWhitelist with
    validatorProofs := planner.validatorProofs
    currentValidatorUserLeaf := planner.currentValidatorUserLeaf }

/-- A new planner has planned nothing. -/
theorem Created.adding (h : Created planner) :
    Adding planner.toRealmPlannerConfig O s [] planner s := by
  refine ⟨rfl, by rw [h]; rfl, replicate maxRealmProvingLevels none, ?_⟩
  have hempty : stack (replicate maxRealmProvingLevels (none : Option (PlanTree F Hash)))
      planner.endCapStraggler = [] := by
    rw [stack, occupied_replicate_none, h]
    rfl
  refine ⟨length_replicate, ?_, slotsOf_replicate_none _ _, ?_, ?_, ?_, ?_⟩
  · rw [Waiting, h]
    rfl
  · rw [occupied_replicate_none, h]
    exact ⟨rfl, rfl, rfl, rfl⟩
  · rw [Counted, h]
    rfl
  · rw [hempty]
    rfl
  · rw [hempty]
    exact .start

variable {cpTree : AppendOnlyStore Hash} {ext : Externals}

include ha hbound in
/-- `add_end_cap_job` keeps the counter if the tree may be initialised in between. -/
theorem addEndCapJob_adding {contractUpdates : Option Bytes}
    (hO : planner.InRealm item.userId → O s (initializeLeaf config s item)) :
    Kept (Adding config O start) accepted item
      (addEndCapJob ext cpTree contractUpdates item planner s) := by
  rcases addEndCapJob_cases ext cpTree contractUpdates item planner s with
    hskip | ⟨hrealm, _, data, hadds⟩
  · exact hskip.kept (ha.of_core hskip.core_eq)
  · rw [ha.config_eq] at hadds
    exact hadds.adding (ha.idle (hO hrealm)) hbound hrealm

include ha hbound in
theorem addFutureEndCapJob_adding : Kept (Adding config O start) accepted job.queueItem
      (addFutureEndCapJob ext cpTree job planner s) := by
  rcases addFutureEndCapJob_cases ext cpTree job planner s with
    hskip | ⟨hrealm, _, hadds⟩
  · exact hskip.kept (ha.of_core hskip.core_eq)
  · exact hadds.adding ha hbound hrealm

/-- **EVERY RUN KEEPS THE COUNTER**, if the user tree changes between additions only as `O`
allows. -/
theorem runCalls_adding (hO : ∀ {cpTree contractUpdates item planner s},
      cond (.addEndCapJob cpTree contractUpdates item) planner s →
      planner.toRealmPlannerConfig = config → planner.InRealm item.userId →
      O s (initializeLeaf config s item)) (hcond : Throughout ext cond calls planner s)
    (ha : Adding config O start [] planner s)
    (hrun : runCalls ext calls planner s = some (accepted, planner', s'))
    (hbound : accepted.length < 2 ^ 30) : Adding config O start accepted planner' s' := by
  exact runCalls_keeps (fun _ _ _ => trivial)
    (fun hc (ha : Adding config O start _ _ _) hb => addEndCapJob_adding ha hb (hO hc ha.config_eq))
    (fun _ ha hb => addFutureEndCapJob_adding ha hb) calls hcond ha hrun hbound

theorem throughout_true (ext : Externals) (calls : List (RealmCall F Hash))
    (planner : RealmGUTAPlanner F Hash) (s : RecorderStore Hash) :
    Throughout ext (fun _ _ _ => True) calls planner s := by
  induction calls generalizing planner s with
  | nil => trivial
  | cons call calls ih => exact ⟨trivial, ih _ _⟩

/-- The counter after a run of a new planner, whatever else is written to the tree. -/
theorem Created.runCalls (h : Created planner)
    (hrun : Realm.runCalls ext calls planner s = some (accepted, planner', s'))
    (hbound : accepted.length < 2 ^ 30) :
    Adding planner.toRealmPlannerConfig (fun _ _ => True) s accepted planner' s' :=
  runCalls_adding (fun _ _ _ => trivial) (throughout_true ext calls planner s) h.adding hrun hbound

end

/-! ## §5. A sample realm. -/

open Coordinator (sampleCheckpointTree)

/-- The account of a user after a number of transactions. -/
def sampleUserLeaf (userId nonce : Nat) : PQEDUserLeaf Nat SymHash :=
  ⟨.zero, .zero, 0, nonce, 0, 0, userId⟩

/-- A user's EndCap from one number of transactions to another. -/
def sampleEndCap (userId oldNonce newNonce : Nat) : EndCap Nat SymHash where
  jobId := ⟨.generateStandardProof, 7, .userEndCap, 4, 0, userId, .standardProof, 0⟩
  submissionNonce := 0
  oldUserLeafHash := (sampleUserLeaf userId oldNonce).qfhash
  newUserLeafHash := (sampleUserLeaf userId newNonce).qfhash
  newUserLeaf := sampleUserLeaf userId newNonce
  stats := ⟨1, 0, 1, 1, 1⟩

/-- Contract updates without payload, submitted with nonce 0. -/
def sampleExternals : Externals where
  singleBatch := fun _ _ _ _ => .ok (0, [], [])
  doubleBatch := fun _ _ _ _ => .ok ([], [])
  imtBatch := fun _ => .ok []
  sha256Limbs := fun _ => .ok [0]

variable (userIds : List Nat)

/-- The user tree of four users in which these ones have registered. -/
def sampleUserTree : RecorderStore SymHash :=
  userIds.foldl (fun tree userId => (tree.setLeaf userId (sampleUserLeaf userId 0).qfhash).1)
    (.new 2)

/-- A realm's planner over that tree; the validator is user 3. -/
def samplePlanner : RealmGUTAPlanner Nat SymHash :=
  let proof : MerkleProofCore SymHash := ⟨.zero, .zero, 0, []⟩
  let checkpointProof : MerkleProofCore SymHash :=
    { proof with root := (sampleCheckpointTree [.leaf 1]).getRoot }
  { RealmGUTAPlanner.new 1 0 0 (.leaf 1) 0 7 (sampleUserTree userIds).getRoot 2 4 (.leaf 50) with
    validatorProofs := some
      { validator := ⟨3, [], []⟩
        validatorUserLeaf := sampleUserLeaf 3 0
        anchorCheckpointLeaf :=
          ⟨.zero, ⟨0, 0, 0, 0, 0, ⟨0, 0, 0⟩, 0, .zero, ⟨.zero, .zero, .zero⟩, []⟩⟩
        anchorCheckpointTreeProof := proof
        checkpointLeaf := ⟨⟨.zero, .zero⟩, ⟨.zero, .zero, .zero, .zero, .zero, .zero⟩⟩
        checkpointTreeProof := checkpointProof
        oldRealmRootProof := proof
        validatorTreeProof := proof
        validatorUserTreeProof := proof }
    currentValidatorUserLeaf := some (sampleUserLeaf 3 0) }

theorem created_samplePlanner : Created (samplePlanner userIds) := rfl

/-- `add_end_cap_job` with one checkpoint known and contract updates stored. -/
def sampleAdd (item : EndCap Nat SymHash) : RealmCall Nat SymHash :=
  .addEndCapJob (sampleCheckpointTree [.leaf 1]) (some []) item

/-- Two EndCaps are paired, and a deferred one waits. -/
def sampleRealmCalls : List (RealmCall Nat SymHash) :=
  [sampleAdd (sampleEndCap 0 0 1), sampleAdd (sampleEndCap 1 0 1),
    .addFutureEndCapJobs (sampleCheckpointTree [.leaf 1]) [⟨sampleEndCap 0 1 2, []⟩]]

end PsyNode.Realm
