/-
PsyNode.Coordinator.Run
**RUNS OF THE COORDINATOR'S PLANNER.**  A whole run ends in one tree, of least height, over
the submissions in the order of their arrival.
-/
import PsyNode.Coordinator.Rewards

namespace PsyNode.Coordinator

open Merkle Guta Recorder Store Lib.Agg Lib List AggTree
open CoordinatorGUTAPlanner

variable {F Hash : Type} [QFelt64 F] [MerkleZeroHasher Hash] [DecidableEq Hash]
  [HashTo4Felts F Hash] [FieldQHasher F Hash] {E : CallContext Hash → Prop}
  {O : RecorderStore Hash → RecorderStore Hash → Prop} {start s : RecorderStore Hash}
  {ts : List (PlanTree F Hash)}

/-! ## §1. Adding submissions. -/

variable {ctx : CallContext Hash} {added : List (Submission F Hash)}
  {ws : List (Option (PlanTree F Hash))} {planner : CoordinatorGUTAPlanner F Hash}

/-- **THE CARRY** from slot `k` on, with a perfect tree of height `k` in hand. -/
theorem carry_ends (hctx : E ctx) {k : Nat} {c : PlanTree F Hash} (hslots : Slots k ws)
    (hc : Perfect k c) (h : Stacked E O start added (occupied ws ++ [c]) planner s) :
    Ends (fun res => ∃ ws', res.1 = ws'.map (Option.map nodeOf) ∧ Slots k ws' ∧
        Stacked E O start added (occupied ws') res.2.1 res.2.2 ∧ config res.2.1 = config planner)
      (· ≠ .invalidPair) (carry ctx (ws.map (Option.map nodeOf)) (nodeOf c) planner s) := by
  induction ws generalizing k c planner s with
  | nil => exact ⟨[some c], rfl, ⟨hc, trivial⟩, h, rfl⟩
  | cons w ws ih =>
    cases w with
    | none =>
      -- a free slot: park the tree
      exact ⟨some c :: ws, rfl, ⟨hc, hslots⟩, h, rfl⟩
    | some l =>
      obtain ⟨hl, hws⟩ := hslots
      -- a sibling waits: join it with the tree in hand and carry on
      rw [occupied_concat] at h
      refine Ends.bind (createAggregateJob_ends hctx h (Slots.height_pos hws) ?_) ?_
      · rw [hl.1, hc.1]
        exact id
      intro res hres
      obtain ⟨node, planner₁, s₁⟩ := res
      obtain ⟨j, rfl, h₁, honly₁⟩ := hres
      refine Ends.bind (ih hws (hl.pair hc j) h₁) ?_
      intro res hres
      obtain ⟨waiting, planner₂, s₂⟩ := res
      obtain ⟨ws', rfl, hslots', h₂, honly₂⟩ := hres
      exact ⟨none :: ws', rfl, hslots', h₂, honly₂.trans honly₁⟩

variable (E O start) in
/-- The planner's binary counter holds these trees, over these submissions. -/
structure Counter (added : List (Submission F Hash)) (ws : List (Option (PlanTree F Hash)))
    (planner : CoordinatorGUTAPlanner F Hash) (s : RecorderStore Hash) : Prop where
  waitingNodes : planner.waitingNodes = ws.map (Option.map nodeOf)
  slots : Slots 0 ws
  inputs : stackInputs (occupied ws) = added
  planned : Planned planner (stackJobs (occupied ws))
  reached : (machine E O).Reached start (occupied ws) s

/-- The queue and the notes of the planner do not touch its counter. -/
theorem Counter.noted (h : Counter E O start added ws planner s)
    (realms : QProvingJobDataID → Option Nat) (committed : Bool)
    (queued : List (PlannerNode F Hash)) : Counter E O start added ws { planner with
      inputJobToRealm := realms, hasCommittedUpdates := committed, queuedUpdates := queued } s :=
  ⟨h.waitingNodes, h.slots, h.inputs, ⟨h.planned.jobLevels, h.planned.jobWitnesses⟩, h.reached⟩

theorem addRealmJobInternal_ends (hctx : E ctx) (h : Counter E O start added ws planner s)
    (job : Submission F Hash) :
    Ends (fun res => (∃ ws', Counter E O start (added ++ [job]) ws' res.1 res.2) ∧
        config res.1 = config planner)
      (· ≠ .invalidPair) (addRealmJobInternal ctx planner s (leafNode job)) := by
  unfold addRealmJobInternal
  rw [h.waitingNodes]
  have hstacked : Stacked E O start (added ++ [job]) (occupied ws ++ [.input job]) planner s := by
    refine ⟨?_, ?_, h.reached.shift rfl⟩
    · simp [← h.inputs, stackInputs, inputs]
    · simpa [stackJobs, jobs] using h.planned
  refine Ends.bind (carry_ends hctx h.slots (perfect_input job) hstacked) ?_
  intro res hres
  obtain ⟨waiting, planner', s'⟩ := res
  obtain ⟨ws', rfl, hslots, h', honly⟩ := hres
  exact ⟨⟨ws', rfl, hslots, h'.inputs, ⟨h'.planned.jobLevels, h'.planned.jobWitnesses⟩,
    h'.reached⟩, honly⟩

theorem addQueuedUpdates_ends (hctx : E ctx) {jobs : List (Submission F Hash)}
    (h : Counter E O start added ws planner s) :
    Ends (fun res => (∃ ws', Counter E O start (added ++ jobs) ws' res.1 res.2) ∧
        config res.1 = config planner)
      (· ≠ .invalidPair) (addQueuedUpdates ctx (jobs.map leafNode) planner s) := by
  induction jobs generalizing added ws planner s with
  | nil => exact ⟨⟨ws, by simpa using h⟩, rfl⟩
  | cons job jobs ih =>
    refine Ends.bind (addRealmJobInternal_ends hctx h job) ?_
    intro res hres
    obtain ⟨⟨ws', h'⟩, honly⟩ := hres
    have hrest := ih h'
    rw [append_assoc, singleton_append] at hrest
    refine hrest.imp ?_
    intro res hres
    exact ⟨hres.1, hres.2.trans honly⟩

/-! ## §2. A run of the planner. -/

/-- One call of `add_realm_job`, and what other code did to the user tree before it. -/
structure RealmJobCall (F Hash : Type) where
  ctx : CallContext Hash
  job : Submission F Hash
  others : RecorderStore Hash → RecorderStore Hash

/-- A sequence of `add_realm_job` calls. -/
def addRealmJobs : List (RealmJobCall F Hash) → CoordinatorGUTAPlanner F Hash → RecorderStore Hash →
    Except (PlannerError Hash) (CoordinatorGUTAPlanner F Hash × RecorderStore Hash)
  | [], planner, s => .ok (planner, s)
  | call :: calls, planner, s => do
    let (planner, s) ← addRealmJob call.ctx planner (call.others s) call.job
    addRealmJobs calls planner s

/-- The call of `finalize_with_reward_ids`. -/
structure FinalizeCall (F Hash : Type) where
  ctx : CallContext Hash
  args : FinalizeArgs F Hash
  others : RecorderStore Hash → RecorderStore Hash

/-- **A WHOLE RUN**: a new planner, the realms' jobs, finalization. -/
def planBlock (syncedRoot : Hash) (calls : List (RealmJobCall F Hash))
    (fin : FinalizeCall F Hash) (s : RecorderStore Hash) :
    Except (PlannerError Hash) (FinalizeOutput F Hash × RecorderStore Hash) := do
  let (planner, s) ← addRealmJobs calls (.new syncedRoot) s
  finalizeWithRewardIds fin.ctx fin.args planner (fin.others s)

/-- The calls that put nodes into the counter: those from the first one on that sees
another checkpoint root than the planner started with. -/
def committing (syncedRoot : Hash) (calls : List (RealmJobCall F Hash)) :
    List (RealmJobCall F Hash) :=
  calls.dropWhile (fun call => call.ctx.currentCheckpointRoot = syncedRoot)

variable (E O start) in
/-- Between two calls: the submissions so far are in the counter or, after them, queued. -/
structure Arrived (syncedRoot : Hash) (arrivals : List (Submission F Hash))
    (planner : CoordinatorGUTAPlanner F Hash) (s : RecorderStore Hash) : Prop where
  syncedRoot_eq : planner.currentSyncedCheckpointRoot = syncedRoot
  split : ∃ added queued ws, arrivals = added ++ queued ∧
    planner.queuedUpdates = queued.map leafNode ∧
    (planner.hasCommittedUpdates = true → queued = []) ∧ Counter E O start added ws planner s

variable {syncedRoot : Hash} {arrivals : List (Submission F Hash)}

theorem arrived_new (syncedRoot : Hash) (s : RecorderStore Hash) :
    Arrived E O s syncedRoot [] (new (F := F) syncedRoot) s where
  syncedRoot_eq := rfl
  split := ⟨[], [], [], rfl, rfl, fun _ => rfl, rfl, trivial, rfl, ⟨rfl, rfl⟩, .start⟩

/-- The realm of a submission. -/
def realmOf (job : Submission F Hash) : Nat :=
  toU64Value job.header.header.stateTransition.nodeIndex

/-- What `input_job_to_realm` holds after these submissions. -/
def notedRealms (jobs : List (Submission F Hash)) (realms : QProvingJobDataID → Option Nat) :
    QProvingJobDataID → Option Nat :=
  jobs.foldl (fun realms job => Function.update realms job.jobId (some (realmOf job))) realms

variable (h : Arrived E O start syncedRoot arrivals planner s)

include h in
/-- **ONE SUBMISSION.** -/
theorem addRealmJob_ends
    (hctx : planner.hasCommittedUpdates = true ∨ ctx.currentCheckpointRoot ≠ syncedRoot → E ctx)
    (job : Submission F Hash) :
    Ends (fun res => Arrived E O start syncedRoot (arrivals ++ [job]) res.1 res.2 ∧
        (res.1.hasCommittedUpdates = true ↔
          planner.hasCommittedUpdates = true ∨ ctx.currentCheckpointRoot ≠ syncedRoot) ∧
        res.1.inputJobToRealm = notedRealms [job] planner.inputJobToRealm)
      (· ≠ .invalidPair) (addRealmJob ctx planner s job) := by
  obtain ⟨hsynced, added, queued, ws, rfl, hqueue, hempty, hcounter⟩ := h
  unfold addRealmJob
  dsimp only
  split
  next hcommitted =>
    obtain rfl := hempty hcommitted
    refine (addRealmJobInternal_ends (hctx (Or.inl hcommitted)) (hcounter.noted _ _ _) job).imp ?_
    intro res hres
    obtain ⟨⟨ws', hws'⟩, hconfig⟩ := hres
    simp only [config, Prod.mk.injEq] at hconfig
    obtain ⟨hq, hb, hroot, hrealms⟩ := hconfig
    refine ⟨⟨hroot.trans hsynced, added ++ [job], [], ws', by simp, ?_, fun _ => rfl, hws'⟩, ?_,
      hrealms⟩
    · rw [hq, hqueue]
    · rw [hb]
      simp [hcommitted]
  next hcommitted =>
    split
    next hroot =>
      rw [hsynced] at hroot
      have hE := hctx (Or.inr hroot)
      rw [hqueue]
      refine Ends.bind (addQueuedUpdates_ends hE (hcounter.noted _ _ _)) ?_
      intro res hres
      obtain ⟨⟨ws₁, hws₁⟩, hconfig₁⟩ := hres
      refine (addRealmJobInternal_ends hE hws₁ job).imp ?_
      intro res hres
      obtain ⟨⟨ws', hws'⟩, hconfig⟩ := hres
      have hconfig := hconfig.trans hconfig₁
      simp only [config, Prod.mk.injEq] at hconfig
      obtain ⟨hq, hb, hsync, hrealms⟩ := hconfig
      refine ⟨⟨hsync.trans hsynced, added ++ queued ++ [job], [], ws', by simp, hq, fun _ => rfl,
        hws'⟩, ?_, hrealms⟩
      rw [hb]
      simp [hroot]
    next hroot =>
      rw [hsynced, not_not] at hroot
      refine ⟨⟨hsynced, added, queued ++ [job], ws, by simp, ?_, ?_, hcounter.noted _ _ _⟩, ?_, rfl⟩
      · show planner.queuedUpdates ++ [leafNode job] = _
        rw [hqueue, map_append, map_singleton]
      · intro hb
        exact absurd hb hcommitted
      · simp [hroot]

variable {s' : RecorderStore Hash}

theorem Counter.idle (h : Counter E O start added ws planner s)
    (hO : O s s') : Counter E O start added ws planner s' :=
  ⟨h.waitingNodes, h.slots, h.inputs, h.planned, h.reached.idle hO⟩

include h in
theorem Arrived.idle (hO : O s s') : Arrived E O start syncedRoot arrivals planner s' := by
  obtain ⟨hsynced, added, queued, ws, harr, hqueue, hempty, hcounter⟩ := h
  exact ⟨hsynced, added, queued, ws, harr, hqueue, hempty, hcounter.idle hO⟩

include h in
/-- **ALL SUBMISSIONS.**  Only contexts of committing calls are used. -/
theorem addRealmJobs_ends {calls : List (RealmJobCall F Hash)}
    (hE : ∀ call ∈ if planner.hasCommittedUpdates = true then calls
      else committing syncedRoot calls, E call.ctx)
    (hO : ∀ call ∈ calls, ∀ s, O s (call.others s)) :
    Ends (fun res => Arrived E O start syncedRoot (arrivals ++ calls.map (·.job)) res.1 res.2 ∧
        res.1.inputJobToRealm = notedRealms (calls.map (·.job)) planner.inputJobToRealm)
      (· ≠ .invalidPair) (addRealmJobs calls planner s) := by
  induction calls generalizing arrivals planner s with
  | nil =>
    rw [map_nil, append_nil]
    exact ⟨h, rfl⟩
  | cons call calls ih =>
    -- a call that adds nodes is the first of the committing ones
    have hhead : planner.hasCommittedUpdates = true ∨
        call.ctx.currentCheckpointRoot ≠ syncedRoot →
        (if planner.hasCommittedUpdates = true then call :: calls
          else committing syncedRoot (call :: calls)) = call :: calls := by
      intro hor
      split
      next => rfl
      next hb =>
        have hne := hor.resolve_left hb
        simp [committing, hne]
    refine Ends.bind (addRealmJob_ends (h.idle (hO call mem_cons_self _)) ?_ call.job) ?_
    · intro hor
      exact hE call (by rw [hhead hor]; exact mem_cons_self)
    intro res hres
    obtain ⟨planner', s'⟩ := res
    obtain ⟨harrived, hcommitted, hrealms⟩ := hres
    have hrest := ih harrived ?_ (fun c hc => hO c (mem_cons_of_mem _ hc))
    · rw [append_assoc, singleton_append] at hrest
      rw [hrealms] at hrest
      exact hrest
    intro c hc
    by_cases hor : planner.hasCommittedUpdates = true ∨
        call.ctx.currentCheckpointRoot ≠ syncedRoot
    · rw [if_pos (hcommitted.mpr hor)] at hc
      exact hE c (by rw [hhead hor]; exact mem_cons_of_mem _ hc)
    · rw [if_neg (fun hb => hor (hcommitted.mp hb))] at hc
      obtain ⟨hb, hroot⟩ := not_or.mp hor
      rw [not_not] at hroot
      refine hE c ?_
      rw [if_neg hb]
      simpa [committing, hroot] using hc

/-! ## §3. Finalization. -/

/-- **THE FOLDING** of the slots from `k` on over a balanced tree that fits below them. -/
theorem foldActiveNodes_ends (hctx : E ctx) {k : Nat} {r : PlanTree F Hash} (hslots : Slots k ws)
    (hbal : r.Balanced) (hlt : r.inputs.length < 2 ^ k)
    (h : Stacked E O start added (occupied ws ++ [r]) planner s) :
    Ends (fun res => ∃ t, res.1 = nodeOf t ∧ t.Balanced ∧
        Stacked E O start added [t] res.2.1 res.2.2 ∧ config res.2.1 = config planner)
      (· ≠ .invalidPair)
      (foldActiveNodes ctx (nodeOf r) ((ws.filterMap id).map nodeOf) planner s) := by
  induction ws generalizing k r planner s with
  | nil => exact ⟨r, rfl, hbal, h, rfl⟩
  | cons w ws ih =>
    cases w with
    | none =>
      have hpow : 2 ^ k < 2 ^ (k + 1) := Nat.pow_lt_pow_right (by omega) (by omega)
      exact ih hslots hbal (by omega) h
    | some l =>
      obtain ⟨hl, hws⟩ := hslots
      rw [occupied_concat] at h
      -- a leaf on the left leaves no room for a tree on the right
      have hleaf : l.height = 0 → r.height = 0 := by
        intro h0
        have hk : k = 0 := by rw [← hl.1, h0]
        have hpos : 0 < r.inputs.length := length_pos_of_ne_nil r.inputs_ne_nil
        rw [hk] at hlt
        omega
      refine Ends.bind (createAggregateJob_ends hctx h (Slots.height_pos hws) hleaf) ?_
      intro res hres
      obtain ⟨node, planner₁, s₁⟩ := res
      obtain ⟨j, rfl, h₁, hconfig₁⟩ := hres
      have hfits : (pair j l r).inputs.length < 2 ^ (k + 1) := by
        rw [inputs, length_append, hl.2, pow_succ]
        omega
      refine (ih hws (hbal.pair_perfect hl hlt j) hfits h₁).imp ?_
      intro res hres
      obtain ⟨t, hnode, hbal', h', hconfig'⟩ := hres
      exact ⟨t, hnode, hbal', h', hconfig'.trans hconfig₁⟩

variable (E O start) in
/-- **THE ROOT** of a block: the tree all submissions were joined into, or a lone
submission promoted to a root transition. -/
inductive Rooted : PlanTree F Hash → RecorderStore Hash → Prop
  | joined {j l r s} : (machine E O).Reached start [.pair j l r] s → Rooted (.pair j l r) s
  | promoted {i ctx w h ct s s'} : (machine E O).Reached start [.input i] s → E ctx →
      promotionCircuit ctx (leafNode i) s = .ok (w, h, ct, s') →
      Rooted (.wrap (promotionJob ctx (leafNode i) w h ct) (.input i)) s'

/-- A first job is recorded in a planner that has none. -/
theorem createSingletRootPromotionJob_eq (h : Planned planner []) (i : Submission F Hash) :
    createSingletRootPromotionJob ctx planner s (leafNode i) =
      (promotionCircuit ctx (leafNode i) s >>= fun (w, hd, ct, s') =>
        .ok (hd, record planner (promotionJob ctx (leafNode i) w hd ct), s')) := by
  have hlevels : planner.jobLevels = [] := h.jobLevels
  unfold createSingletRootPromotionJob record
  simp only [hlevels]
  rfl

variable (E O start) in
/-- What finalization has built once the root's header is known. -/
structure Finished (t root : PlanTree F Hash) (header : GutaHeader F Hash)
    (planner : CoordinatorGUTAPlanner F Hash) (s : RecorderStore Hash) : Prop where
  rooted : Rooted E O start root s
  inputs : root.inputs = t.inputs
  height : root.height = max 1 t.height
  header_eq : header = (nodeOf root).header
  planned : ∃ planner₁, Planned planner₁ root.jobs ∧ SameJobs planner₁ planner

/-- The planner is what the walk from the last job of the planned root leaves. -/
def Walked (args : FinalizeArgs F Hash) (root : PlanTree F Hash)
    (realms : QProvingJobDataID → Option Nat) (planner : CoordinatorGUTAPlanner F Hash) : Prop :=
  ∃ planner₁ rootJob, Planned planner₁ root.jobs ∧ planner₁.inputJobToRealm = realms ∧
    planner₁.jobLevels.flatten.getLast? = some rootJob ∧
    updateRewardTreeConfig (planner₁.jobLevels.flatten.length + 1) rootJob.jobId
      args.rewardTreeRootLevel args.rewardTreeRootIndex planner₁ = .ok planner

theorem finalizeRoot_ends (hctx : E ctx) (args : FinalizeArgs F Hash) {t : PlanTree F Hash}
    (hplanned : Planned planner t.jobs) (hreached : (machine E O).Reached start [t] s) :
    Ends (fun res => ∃ root, Finished E O start t root res.1 res.2.1 res.2.2 ∧
        Walked args root planner.inputJobToRealm res.2.1)
      (· ≠ .invalidPair) (finalizeRoot ctx args planner s (nodeOf t)) := by
  unfold finalizeRoot
  -- the root before reward keys are given out
  refine Ends.bind (q := fun res => ∃ root, Finished E O start t root res.1 res.2.1 res.2.2 ∧
    Planned res.2.1 root.jobs ∧ res.2.1.inputJobToRealm = planner.inputJobToRealm) ?_ ?_
  · have hjoined : Joined t := reached_joined hreached t (mem_singleton_self t)
    cases t with
    | input i =>
      have htype : (nodeOf (.input i : PlanTree F Hash)).nodeType = .inputLeaf := rfl
      rw [if_pos htype, nodeOf, createSingletRootPromotionJob_eq hplanned]
      refine (promotionCircuit_ends ctx (leafNode i) s).eq_ok.bind ?_
      intro res hres
      obtain ⟨w, hd, ct, s'⟩ := res
      exact ⟨_, ⟨.promoted hreached hctx hres.1, rfl, rfl, rfl, _, hplanned.record _, rfl, rfl⟩,
        hplanned.record _, rfl⟩
    | wrap j c => exact absurd hjoined.1 id
    | pair j l r =>
      have htype : (nodeOf (.pair j l r)).nodeType ≠ .inputLeaf := by
        rw [hjoined.nodeType, if_neg (by simp [height])]
        simp
      rw [if_neg htype]
      refine ⟨_, ⟨.joined hreached, rfl, ?_, rfl, planner, hplanned, rfl, rfl⟩, hplanned, rfl⟩
      rw [height]
      omega
  · intro res hres
    obtain ⟨header, planner₁, s₁⟩ := res
    obtain ⟨root, ⟨hrooted, hinputs, hheight, hheader, _⟩, hplanned₁, hrealms⟩ := hres
    dsimp only at hplanned₁ hrealms ⊢
    split
    next => simp [Ends]
    next rootJob hlast =>
      refine (updateRewardTreeConfig_ends _ _ _ _ planner₁ planner₁ ⟨rfl, rfl⟩).eq_ok.bind ?_
      intro planner₂ hwalk
      exact ⟨root, ⟨hrooted, hinputs, hheight, hheader, planner₁, hplanned₁, hwalk.2⟩, planner₁,
        rootJob, hplanned₁, hrealms, hlast, hwalk.1⟩

variable (E O start) in
/-- What `finalize_with_reward_ids` returns for these submissions. -/
structure Outcome (arrivals : List (Submission F Hash)) (root : PlanTree F Hash)
    (out : FinalizeOutput F Hash) (s : RecorderStore Hash) : Prop where
  rooted : Rooted E O start root s
  inputs : root.inputs = arrivals
  height : root.height = max 1 (Nat.clog 2 arrivals.length)
  header : out.rootGutaHeader = (nodeOf root).header
  jobLevels : out.jobLevels.map (List.map unkeyed) =
    (levelTable labels.level PlannedJob.metadata (levelCount labels.level root.jobs)
      root.jobs).map (List.map unkeyed)
  witnesses : out.savedWitnesses = root.jobs.map (fun j => (j.metadata.jobId, j.witness))

omit [DecidableEq Hash] in
theorem finalizeNoChange_ends (ctx : CallContext Hash) (args : FinalizeArgs F Hash)
    (planner : CoordinatorGUTAPlanner F Hash) :
    Ends (fun _ => True) (· ≠ .invalidPair) (finalizeNoChange ctx args planner) := by
  refine (currentCheckpointIndex_ends ctx).bind fun _ _ => ?_
  refine (historicalCheckpointProof_ends ctx _ _).bind fun _ _ => ?_
  trivial

include h in
theorem replayQueuedUpdates_ends (hctx : E ctx) :
    Ends (fun res => (∃ ws, Counter E O start arrivals ws res.1 res.2) ∧
        res.1.inputJobToRealm = planner.inputJobToRealm) (· ≠ .invalidPair)
      (replayQueuedUpdates ctx planner s) := by
  obtain ⟨_, added, queued, ws, rfl, hqueue, hempty, hcounter⟩ := h
  unfold replayQueuedUpdates
  split
  next hcommitted =>
    rw [hempty hcommitted, append_nil]
    exact ⟨⟨ws, hcounter⟩, rfl⟩
  next =>
    rw [hqueue]
    exact (addQueuedUpdates_ends hctx (hcounter.noted _ _ [])).imp fun res hres =>
      ⟨hres.1, congrArg (fun c => c.2.2.2) hres.2⟩

/-- Folding the counter and finishing its root. -/
theorem finalizeActiveNodes_ends (hctx : E ctx) (args : FinalizeArgs F Hash)
    (hslots : Slots 0 ws) (h : Stacked E O start added (occupied ws) planner s) :
    Ends (fun res => added ≠ [] → ∃ t root, t.Balanced ∧ t.inputs = added ∧
          Finished E O start t root res.1 res.2.1 res.2.2 ∧
          Walked args root planner.inputJobToRealm res.2.1)
      (· ≠ .invalidPair)
      (finalizeActiveNodes ctx args planner s ((ws.filterMap id).map nodeOf)) := by
  rcases hslots.first with ⟨hnone, hocc⟩ | ⟨k, r, ws', hsome, hocc, hr, hslots'⟩
  · -- no node is waiting, so nothing arrived
    rw [hnone]
    refine (finalizeNoChange_ends ctx args planner).bind ?_
    intro res _ hne
    rw [hocc] at h
    exact absurd h.inputs.symm hne
  · have hfits : r.inputs.length < 2 ^ (k + 1) := by
      rw [hr.2]
      exact Nat.pow_lt_pow_right (by omega) (by omega)
    rw [hocc] at h
    rw [hsome]
    refine (foldActiveNodes_ends hctx hslots' hr.balanced hfits h).bind ?_
    intro res hres
    obtain ⟨node, planner₁, s₁⟩ := res
    obtain ⟨t, rfl, hbal, h₁, hconfig₁⟩ := hres
    have hplanned : Planned planner₁ t.jobs := by simpa [stackJobs] using h₁.planned
    refine (finalizeRoot_ends hctx args hplanned h₁.reached).imp ?_
    intro res hres _
    obtain ⟨root, hroot, hwalked⟩ := hres
    have hrealms : planner₁.inputJobToRealm = planner.inputJobToRealm :=
      congrArg (fun c => c.2.2.2) hconfig₁
    refine ⟨t, root, hbal, ?_, hroot, hrealms ▸ hwalked⟩
    simpa [stackInputs] using h₁.inputs

/-- What was planned is what is returned. -/
theorem Finished.outcome {t root : PlanTree F Hash} {header : GutaHeader F Hash}
    (h : Finished E O start t root header planner s) (hbal : t.Balanced)
    (hinputs : t.inputs = arrivals) : Outcome E O start arrivals root
      ⟨planner.jobLevels, planner.inputRealmRewardKeys, header, planner.jobWitnesses⟩ s := by
  obtain ⟨planner₁, hplanned, hsame⟩ := h.planned
  refine ⟨h.rooted, h.inputs.trans hinputs, ?_, h.header_eq, ?_, ?_⟩
  · rw [h.height, hbal, hinputs]
  · rw [hsame.1, hplanned.jobLevels]
  · exact hsame.2.trans hplanned.jobWitnesses

variable (E O start) in
/-- A run returns what the walk over its root leaves. -/
def Completes (arrivals : List (Submission F Hash)) (args : FinalizeArgs F Hash)
    (realms : QProvingJobDataID → Option Nat) (res : FinalizeOutput F Hash × RecorderStore Hash) :
    Prop :=
  ∃ root, Outcome E O start arrivals root res.1 res.2 ∧
    ∃ planner', Walked args root realms planner' ∧
    res.1.jobLevels = planner'.jobLevels ∧
    res.1.inputRealmRewardKeys = planner'.inputRealmRewardKeys

include h in
/-- **FINALIZATION.** -/
theorem finalizeWithRewardIds_ends (hctx : E ctx) (args : FinalizeArgs F Hash) :
    Ends (fun res => arrivals ≠ [] →
        Completes E O start arrivals args planner.inputJobToRealm res)
      (· ≠ .invalidPair) (finalizeWithRewardIds ctx args planner s) := by
  unfold finalizeWithRewardIds
  refine (replayQueuedUpdates_ends h hctx).bind ?_
  intro res hres
  obtain ⟨planner₁, s₁⟩ := res
  obtain ⟨⟨ws, hws⟩, hrealms⟩ := hres
  -- the active nodes from the right are the occupied slots from the lowest on
  have hactive : (planner₁.waitingNodes.reverse.filterMap id).reverse =
      (ws.filterMap id).map nodeOf := by
    rw [hws.waitingNodes, filterMap_reverse, reverse_reverse, filterMap_map, map_filterMap]
    rfl
  have hstacked : Stacked E O start arrivals (occupied ws)
      { planner₁ with waitingNodes := [] } s₁ :=
    ⟨hws.inputs, ⟨hws.planned.jobLevels, hws.planned.jobWitnesses⟩, hws.reached⟩
  dsimp only
  rw [hactive]
  refine (finalizeActiveNodes_ends hctx args hws.slots hstacked).bind ?_
  intro res hres
  obtain ⟨header, planner₂, s₂⟩ := res
  have hout : arrivals ≠ [] → Completes E O start arrivals args planner.inputJobToRealm
      (⟨planner₂.jobLevels, planner₂.inputRealmRewardKeys, header, planner₂.jobWitnesses⟩, s₂) := by
    intro hne
    obtain ⟨t, root, hbal, hinputs, hfinished, hwalked⟩ := hres hne
    exact ⟨root, hfinished.outcome hbal hinputs, planner₂, hrealms ▸ hwalked, rfl, rfl⟩
  split
  next =>
    cases args.saveWitnesses planner₂.jobWitnesses with
    | error e => exact fun h => absurd h (by simp)
    | ok u => exact hout
  next => exact hout

/-- **EVERY RUN** ends in one tree over the submissions, built by joins in contexts of
committing calls or of the finalization. -/
theorem planBlock_ends (syncedRoot : Hash) (calls : List (RealmJobCall F Hash))
    (fin : FinalizeCall F Hash) (s : RecorderStore Hash)
    (hcalls : ∀ call ∈ committing syncedRoot calls, E call.ctx) (hfin : E fin.ctx)
    (hothers : ∀ call ∈ calls, ∀ s, O s (call.others s)) (hlast : ∀ s, O s (fin.others s)) :
    Ends (fun res => calls ≠ [] → Completes E O s (calls.map (·.job)) fin.args
        (notedRealms (calls.map (·.job)) (fun _ => none)) res)
      (· ≠ .invalidPair) (planBlock syncedRoot calls fin s) := by
  unfold planBlock
  refine (addRealmJobs_ends (arrived_new syncedRoot s) hcalls hothers).bind ?_
  intro res hres
  obtain ⟨planner, s'⟩ := res
  obtain ⟨harrived, hrealms⟩ := hres
  rw [nil_append] at harrived
  refine (finalizeWithRewardIds_ends (harrived.idle (hlast s')) hfin fin.args).imp ?_
  intro res hout hne
  rw [hrealms] at hout
  exact hout (by simpa using hne)

/-! ## §4. A sample block. -/

variable (leaves : List SymHash)

/-- A checkpoint tree of height two with the given leaves. -/
def sampleCheckpointTree : AppendOnlyStore SymHash :=
  (PsyDashMemoryAppendOnlyMerkleStore.appendLeaves 0 leaves (.new 2)).toOption.getD (.new 2)

/-- The root of the checkpoint tree with these leaves. -/
def sampleRoot : SymHash := (sampleCheckpointTree leaves).getRoot

/-- The context of a call when the checkpoint tree has these leaves. -/
def sampleContext : CallContext SymHash :=
  ⟨7, sampleRoot leaves, sampleCheckpointTree leaves⟩

/-- A submission of a realm at the given checkpoint root, for a user tree of height two. -/
def sampleSubmission (checkpointTreeRoot : SymHash) (realmId : Nat) (oldValue newValue : SymHash) :
    Submission Nat SymHash where
  header :=
    { header :=
        { gutaCircuitWhitelist := .leaf 50
          checkpointTreeRoot := checkpointTreeRoot
          stateTransition := ⟨oldValue, newValue, realmId, 2⟩
          stats := ⟨1, 0, 1, 1, 1⟩
          totalAggregationProofsGenerated := 1 }
      newTagTreeNodeValue := .leaf 60 }
  jobId := .newProofJobId 7 2 .realmFinalizeGUTA 0 realmId

/-- A call with that submission; nothing else writes the user tree. -/
def sampleCall (job : Submission Nat SymHash) :
    RealmJobCall Nat SymHash := ⟨sampleContext leaves, job, id⟩

/-- Three submissions: two are queued until the checkpoint root moves, and the last one is
for a realm that already submitted. -/
def sampleCalls : List (RealmJobCall Nat SymHash) :=
  [sampleCall [.leaf 1] (sampleSubmission (sampleRoot [.leaf 1]) 0 .zero (.leaf 10)),
    sampleCall [.leaf 1] (sampleSubmission (sampleRoot [.leaf 1]) 1 .zero (.leaf 11)),
    sampleCall [.leaf 1, .leaf 2]
      (sampleSubmission (sampleRoot [.leaf 1, .leaf 2]) 0 (.leaf 10) (.leaf 12))]

/-- Finalization with the given checkpoint leaves. -/
def sampleFinalize : FinalizeCall Nat SymHash where
  ctx := sampleContext leaves
  args :=
    { rewardTreeRootLevel := 0
      rewardTreeRootIndex := 0
      mostRecentCheckpointGlobalStateRoots := ⟨.zero, .zero, .zero, .zero, .zero, .zero⟩
      mostRecentCheckpointStatsHash := .zero
      gutaCircuitWhitelist := .leaf 50
      saveWitnesses := fun _ => .ok () }
  others := id

/-- The sample block is planned, with two jobs. -/
theorem planBlock_sample : ∃ out s', planBlock (sampleRoot [.leaf 1]) sampleCalls
    (sampleFinalize [.leaf 1, .leaf 2]) (.new 2) = .ok (out, s') ∧
      out.jobLevels.flatten.length = 2 := ⟨_, _, rfl, rfl⟩

end PsyNode.Coordinator
