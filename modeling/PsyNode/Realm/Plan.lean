/-
PsyNode.Realm.Plan
**WHAT THE REALM'S PLANNER BUILDS** — the planner refines a machine over a stack
of aggregation trees.

The job stragglers, from the highest level down, and the waiting EndCap are the
trees of a stack: `machine` pushes an admitted EndCap, joins the two topmost
trees, or puts a job on a single tree.
-/
import PsyNode.Lib.StackMachine
import PsyNode.Realm.Planner

namespace PsyNode.Realm

open Merkle Guta Recorder Store Lib.Agg Lib List AggTree

/-! ## §1. Planned jobs and their trees. -/

/-- A queued EndCap. -/
abbrev EndCap (F Hash : Type) := PsyRealmUserUpdateQueueItem F Hash

/-- A job the planner created, with everything it recorded about it. -/
structure PlannedJob (F Hash : Type) where
  header : GutaHeader F Hash
  metadata : ProvingJob Hash
  witness : RealmGutaWitness F Hash
  level : Nat
  slot : Nat

/-- Aggregation trees of a realm. -/
abbrev PlanTree (F Hash : Type) := AggTree (EndCap F Hash) (PlannedJob F Hash)

variable {k : Nat}

section
variable {F Hash : Type}

/-- The header that waits on a level for this job. -/
def PlannedJob.guta (j : PlannedJob F Hash) : JobHeader F Hash :=
  ⟨j.header, j.metadata.jobId⟩

/-- The header of a tree; an EndCap alone has none. -/
def topGuta (t : PlanTree F Hash) : Option (JobHeader F Hash) :=
  t.top.map PlannedJob.guta

/-- How the planner names EndCaps and jobs. -/
def labels : Labels (EndCap F Hash) (PlannedJob F Hash) QProvingJobDataID where
  inputId := fun item => item.jobId
  jobId := fun j => j.metadata.jobId
  deps := fun j => j.metadata.metadata.dependencies
  level := fun j => j.level

variable {t : PlanTree F Hash}

theorem topGuta_jobId {g : JobHeader F Hash}
    (h : topGuta t = some g) : t.rootId labels = g.jobId := by
  cases t with
  | input i => exact absurd h (by simp [topGuta, top])
  | wrap | pair =>
    cases h
    rfl

/-- A tree with a job on top has a header. -/
theorem exists_topGuta (h : 0 < t.height) : ∃ g, topGuta t = some g := by
  cases t with
  | input i => exact absurd h (by simp [height])
  | wrap j c => exact ⟨_, rfl⟩
  | pair j l r => exact ⟨_, rfl⟩

/-! ## §2. The job table. -/

/-- Where the planner has noted its jobs. -/
def positions (js : List (PlannedJob F Hash)) : QProvingJobDataID → Option (Nat × Nat) :=
  js.foldl (fun noted j => Function.update noted j.metadata.jobId (some (j.level, j.slot)))
    (fun _ => none)

/-- The planner has recorded exactly these jobs. -/
structure Planned (table : JobTable F Hash) (js : List (PlannedJob F Hash)) : Prop where
  plannedJobs : table.plannedJobs =
    levelTable labels.level PlannedJob.metadata maxRealmProvingLevels js
  jobLevelMap : table.jobLevelMap = positions js
  totalJobs : table.totalJobs = js.length
  savedWitnesses : table.savedWitnesses = js.map (fun j => (j.metadata.jobId, j.witness))

/-- Save the witness of a job and put it on its level. -/
def record (table : JobTable F Hash) (j : PlannedJob F Hash) : JobTable F Hash :=
  (table.saveWitness j.metadata.jobId j.witness).push j.metadata.jobId j.level j.slot j.metadata

section
variable {table : JobTable F Hash} {js : List (PlannedJob F Hash)} (h : Planned table js)
include h

/-- The slots and the level counters are not part of the plan. -/
theorem Planned.counters (counts : List Nat) (stragglers : List (Option (JobHeader F Hash))) :
    Planned { table with jobLevelCounts := counts, jobStragglers := stragglers } js :=
  ⟨h.plannedJobs, h.jobLevelMap, h.totalJobs, h.savedWitnesses⟩

theorem Planned.record (j : PlannedJob F Hash) : Planned (record table j) (js ++ [j]) := by
  refine ⟨?_, ?_, ?_, ?_⟩
  · show table.plannedJobs.modify j.level _ = _
    rw [levelTable_concat, h.plannedJobs]
    rfl
  · show Function.update table.jobLevelMap _ _ = _
    rw [positions, foldl_append, h.jobLevelMap]
    rfl
  · show table.totalJobs + 1 = _
    rw [h.totalJobs, length_append, length_singleton]
  · show table.savedWitnesses ++ _ = _
    rw [h.savedWitnesses, map_append, map_singleton]

/-- The number of jobs on a level. -/
theorem Planned.length_level (hk : k < maxRealmProvingLevels) :
    (table.plannedJobs.getD k []).length = (js.filter (fun j => j.level = k)).length := by
  rw [h.plannedJobs, getD_eq_getElem?_getD, levelTable_getElem? _ _ _ hk, Option.getD_some,
    length_map]
  rfl

end

/-- The job stragglers are the headers of these trees, from level `k` on; the lower levels
are empty. -/
def Waiting (table : JobTable F Hash) (k : Nat) (ws : List (Option (PlanTree F Hash))) : Prop :=
  table.jobStragglers = List.replicate k none ++ ws.map (fun w => w.bind topGuta)

section
variable {table : JobTable F Hash} {w : Option (PlanTree F Hash)}
  {ws : List (Option (PlanTree F Hash))}

theorem Waiting.getD (h : Waiting table k (w :: ws)) :
    table.jobStragglers.getD k none = w.bind topGuta := by
  rw [h, getD_eq_getElem?_getD, getElem?_append_right (by simp)]
  simp

theorem Waiting.set (h : Waiting table k (w :: ws))
    (w' : Option (PlanTree F Hash)) : table.jobStragglers.set k (w'.bind topGuta) =
      replicate k none ++ (w' :: ws).map (fun w => w.bind topGuta) := by
  rw [h, set_append_right _ _ (by simp)]
  simp

/-- Counts and levels agree: the next position of a level is the number of its jobs. -/
def Counted (table : JobTable F Hash) : Prop :=
  table.jobLevelCounts = table.plannedJobs.map List.length

theorem Counted.getD (h : Counted table) (k : Nat) :
    table.jobLevelCounts.getD k 0 = (table.plannedJobs.getD k []).length := by
  rw [h, getD_eq_getElem?_getD, getD_eq_getElem?_getD, getElem?_map]
  cases table.plannedJobs[k]? with
  | none => rfl
  | some jobs => rfl

end

/-- Counting a job that was put on a level. -/
theorem map_length_modify {α : Type} (levels : List (List α)) (k : Nat) (a : α) :
    (levels.modify k (· ++ [a])).map length = (levels.map length).modify k (· + 1) := by
  apply ext_getElem?
  intro i
  rw [getElem?_map, getElem?_modify, getElem?_modify, getElem?_map]
  cases levels[i]? with
  | none => rfl
  | some jobs =>
    by_cases hik : k = i
    · simp [hik]
    · simp [hik]

/-- A new job may stand on its level: in the next free slot, above all jobs it combines. -/
structure Fits (js below : List (PlannedJob F Hash)) (j : PlannedJob F Hash) : Prop where
  slot : j.slot = (js.filter (fun k => k.level = j.level)).length
  above : ∀ k ∈ below, k.level < j.level
  level_lt : j.level < maxRealmProvingLevels

/-- No job stands above the one that joins two trees. -/
theorem pair_level_le {i : Nat} {l r : PlanTree F Hash} {j : PlannedJob F Hash}
    (hl : ∀ k ∈ l.jobs, k.level ≤ i) (hr : ∀ k ∈ r.jobs, k.level ≤ i) (hj : j.level = i + 1) :
    ∀ k ∈ (pair j l r).jobs, k.level ≤ i + 1 := by
  rw [jobs, forall_mem_append, forall_mem_append, forall_mem_singleton]
  exact ⟨⟨fun k hk => Nat.le_succ_of_le (hl k hk), fun k hk => Nat.le_succ_of_le (hr k hk)⟩, hj.le⟩

end

/-! ## §3. Joins and promotions. -/

section
variable {F Hash : Type} [QFelt64 F] [MerkleZeroHasher Hash] [DecidableEq Hash]
  [HashTo4Felts F Hash] [FieldQHasher F Hash] (config : RealmPlannerConfig Hash)

variable (checkpointTree : AppendOnlyStore Hash)

/-- The job of two EndCaps. -/
def twoEndCapJob (left right : EndCap F Hash)
    (leftDmp rightDmp : DeltaMerkleProofCore Hash) (slot : Nat) : PlannedJob F Hash :=
  let witness : GUTAVerifyTwoEndCapCircuitInputV2 F Hash :=
    ⟨config.endCapInput checkpointTree left, leftDmp, config.endCapInput checkpointTree right,
      rightDmp⟩
  let header := witness.getNewGutaHeader config.globalUserTreeHeight config.gutaCircuitWhitelist
  { header := header
    metadata :=
      { jobId := QProvingJobDataID.gutaTwoEndCapWitness config.uniquePendingId 0 slot
        metadata :=
          { expectedPublicInputsHash := header.qfhash
            rewardTreeNodeIndex := 0
            rewardTreeNodeLevel := 0
            rewardTreeHashMode := .noHashChildren
            rewardTreeNodeChildren := 0
            dependencies := [left.jobId, right.jobId] } }
    witness := .twoEndCap witness
    level := 0
    slot := slot }

/-- The job of two aggregates. -/
def linearJob (uniquePendingId : Nat) (left right : JobHeader F Hash)
    (level slot : Nat) : PlannedJob F Hash :=
  let witness : GUTAVerifyTwoGUTALinearCircuitInput F Hash := ⟨left.header, right.header⟩
  let new := witness.getJobWitnessAndNewGuta uniquePendingId (level % 2 ^ 8) slot left.jobId
    right.jobId
  { header := new.2.header
    metadata := new.1
    witness := .twoGUTALinear witness
    level := level
    slot := slot }

/-- The job of an aggregate and the last EndCap. -/
def leftGutaRightEndCapJob (left : JobHeader F Hash) (right : EndCap F Hash)
    (rightDmp : DeltaMerkleProofCore Hash) (level slot : Nat) : PlannedJob F Hash :=
  let witness : GUTAVerifyLeftGUTARightEndCapCircuitInputV2 F Hash :=
    ⟨left.header, config.endCapInput checkpointTree right, rightDmp⟩
  let new := witness.getJobWitnessAndNewGuta config.uniquePendingId (level % 2 ^ 8) slot
    left.jobId right.jobId
  { header := new.2.header
    metadata := new.1
    witness := .leftGUTARightEndCap witness
    level := level
    slot := slot }

/-- The job of the only EndCap. -/
def singleEndCapJob
    (rewardTreeRootLevel rewardTreeRootIndex : Nat) (item : EndCap F Hash)
    (dmp : DeltaMerkleProofCore Hash) : PlannedJob F Hash :=
  let witness : VerifySingleEndCapInputV2 F Hash :=
    ⟨config.gutaCircuitWhitelist, config.endCapInput checkpointTree item, dmp,
      item.newUserLeaf.userId⟩
  let header := witness.getNewGutaHeader config.globalUserTreeHeight
  { header := header
    metadata :=
      { jobId := QProvingJobDataID.gutaSingleEndCapWitness config.uniquePendingId 0 0 0
        metadata :=
          { expectedPublicInputsHash := header.qfhash
            rewardTreeNodeIndex := rewardTreeRootIndex
            rewardTreeNodeLevel := rewardTreeRootLevel
            rewardTreeHashMode := .noHashChildren
            rewardTreeNodeChildren := 0
            dependencies := [item.jobId] } }
    witness := .singleEndCap witness
    level := 0
    slot := 0 }

/-- The job that upgrades the root to another checkpoint. -/
def upgradeJob (uniquePendingId : Nat) (root : JobHeader F Hash)
    (proof : MerkleProofCore Hash) (level : Nat) : PlannedJob F Hash :=
  let input : VerifyGUTAToCapUpgradeCheckpointCircuitInputSimple F Hash :=
    ⟨root.header, [], proof, root.header.totalAggregationProofsGenerated⟩
  { header := input.getNewGutaHeader
    metadata :=
      { jobId := QProvingJobDataID.newProofJobId uniquePendingId 0
          .gutaVerifyToCapWithCheckpointUpgrade level 0
        metadata :=
          { expectedPublicInputsHash := input.getNewGutaHeader.qfhash
            rewardTreeHashMode := .liftChild
            rewardTreeNodeIndex := 0
            rewardTreeNodeLevel := 0
            rewardTreeNodeChildren := 1
            dependencies := [root.jobId] } }
    witness := .toCapUpgradeCheckpoint input
    level := level
    slot := 0 }

/-- **THE JOINS** of two trees, with what they write to the user tree. -/
inductive Pairs (config : RealmPlannerConfig Hash) (s : RecorderStore Hash) :
    PlanTree F Hash → PlanTree F Hash → PlannedJob F Hash → RecorderStore Hash → Prop
  | twoEndCap {left right : EndCap F Hash} {s₁ s₂ : RecorderStore Hash}
      {leftDmp rightDmp : DeltaMerkleProofCore Hash}
      (checkpointTree : AppendOnlyStore Hash) (slot : Nat)
      (hleft : config.writeEndCap s left = (s₁, leftDmp))
      (hright : config.writeEndCap s₁ right = (s₂, rightDmp)) :
      Pairs config s (.input left) (.input right)
        (twoEndCapJob config checkpointTree left right leftDmp rightDmp slot) s₂
  | linear {l r : PlanTree F Hash} {left right : JobHeader F Hash}
      (level slot : Nat) (hl : topGuta l = some left) (hr : topGuta r = some right) :
      Pairs config s l r (linearJob config.uniquePendingId left right level slot) s
  | leftGutaRightEndCap {l : PlanTree F Hash}
      {left : JobHeader F Hash} {right : EndCap F Hash}
      {s₁ : RecorderStore Hash} {rightDmp : DeltaMerkleProofCore Hash}
      (checkpointTree : AppendOnlyStore Hash) (level slot : Nat)
      (hl : topGuta l = some left) (hright : config.writeEndCap s right = (s₁, rightDmp)) :
      Pairs config s l (.input right)
        (leftGutaRightEndCapJob config checkpointTree left right rightDmp level slot) s₁

/-- **THE PROMOTIONS** of one tree below the fee job. -/
inductive Wraps (config : RealmPlannerConfig Hash) (s : RecorderStore Hash) :
    PlanTree F Hash → PlannedJob F Hash → RecorderStore Hash → Prop
  | singleEndCap {item : EndCap F Hash} {s₁ : RecorderStore Hash}
      {dmp : DeltaMerkleProofCore Hash}
      (checkpointTree : AppendOnlyStore Hash) (rewardLevel rewardIndex : Nat)
      (hdmp : config.writeEndCap s item = (s₁, dmp)) :
      Wraps config s (.input item)
        (singleEndCapJob config checkpointTree rewardLevel rewardIndex item dmp) s₁
  | upgrade {t : PlanTree F Hash} {root : JobHeader F Hash}
      (proof : MerkleProofCore Hash) (level : Nat) (ht : topGuta t = some root) :
      Wraps config s t (upgradeJob config.uniquePendingId root proof level) s

/-! ## §4. The machine. -/

/-- **THE REALM'S MACHINE.**  An admitted EndCap is pushed without touching the user tree;
jobs take the next slot of a level above what they combine.  Between these steps the tree
may change as `O` allows. -/
def machine (O : RecorderStore Hash → RecorderStore Hash → Prop) :
    Machine (RecorderStore Hash) (EndCap F Hash) (PlannedJob F Hash) where
  idle := O
  shift := fun s item s' => s' = s ∧ config.InRealm item.userId
  wrap := fun ts s t j s' => Fits (stackJobs (ts ++ [t])) t.jobs j ∧ Wraps config s t j s'
  pair := fun ts s l r j s' => (∀ t ∈ ts, 0 < t.height) ∧
    Fits (stackJobs (ts ++ [l, r])) (l.jobs ++ r.jobs) j ∧ Pairs config s l r j s'

variable {config : RealmPlannerConfig Hash} {O : RecorderStore Hash → RecorderStore Hash → Prop}
  {start s : RecorderStore Hash} {ts : List (PlanTree F Hash)} {j : PlannedJob F Hash}
  {s' : RecorderStore Hash}

variable {l r : PlanTree F Hash}

/-- Every job names what it combines. -/
theorem Pairs.deps
    (h : Pairs config s l r j s') : labels.deps j = [l.rootId labels, r.rootId labels] := by
  cases h with
  | twoEndCap => rfl
  | linear level slot hl hr =>
    rw [topGuta_jobId hl, topGuta_jobId hr]
    rfl
  | leftGutaRightEndCap checkpointTree level slot hl hright =>
    rw [topGuta_jobId hl]
    rfl

theorem Wraps.deps {t : PlanTree F Hash}
    (h : Wraps config s t j s') : labels.deps j = [t.rootId labels] := by
  cases h with
  | singleEndCap => rfl
  | upgrade proof level ht =>
    rw [topGuta_jobId ht]
    rfl

section
variable (h : (machine config O).Reached start ts s)
include h

theorem reached_wired : ∀ t ∈ ts, t.Wired labels := by
  refine Machine.Reached.each ?_ ?_ h
  · intro ts s t j s' hstep _
    exact hstep.2.deps
  · intro ts s l r j s' hstep _ _
    exact hstep.2.2.deps

theorem reached_leveled : ∀ t ∈ ts, t.Leveled labels := by
  refine Machine.Reached.each ?_ ?_ h
  · intro ts s t j s' hstep _
    exact hstep.1.above
  · intro ts s l r j s' hstep _ _
    exact hstep.2.1.above

theorem reached_level_lt : ∀ t ∈ ts, ∀ j ∈ t.jobs, j.level < maxRealmProvingLevels := by
  intro t ht
  refine Each.forall_jobs ?_
  refine Machine.Reached.each ?_ ?_ h t ht
  · intro ts s t j s' hstep _
    exact hstep.1.level_lt
  · intro ts s l r j s' hstep _ _
    exact hstep.2.1.level_lt

theorem reached_slotted : Slotted labels.level PlannedJob.slot (stackJobs ts) := by
  refine Machine.Reached.slotted ?_ ?_ h
  · intro ts s t j s' hstep
    exact hstep.1.slot
  · intro ts s l r j s' hstep
    exact hstep.2.1.slot

end

/-! ## §5. Inserting a job. -/

/-- What the slots of the counter have to satisfy for a carry: a tree in slot `i` has a
job on top and no job above level `i`, and two trees of one slot join to one of the next. -/
structure Carries (P : Nat → PlanTree F Hash → Prop) : Prop where
  height_pos : ∀ {i t}, P i t → 0 < t.height
  level_le : ∀ {i t}, P i t → ∀ k ∈ t.jobs, k.level ≤ i
  pair : ∀ {i l r j}, P i l → P i r → j.level = i + 1 → P (i + 1) (.pair j l r)

variable {ws : List (Option (PlanTree F Hash))} {table : JobTable F Hash}

/-- What a carry from slot `k` on leaves. -/
structure Inserted (config : RealmPlannerConfig Hash)
    (O : RecorderStore Hash → RecorderStore Hash → Prop)
    (start s : RecorderStore Hash) (P : Nat → PlanTree F Hash → Prop) (k : Nat)
    (ws : List (Option (PlanTree F Hash))) (c : PlanTree F Hash) (table : JobTable F Hash)
    (ws' : List (Option (PlanTree F Hash))) : Prop where
  waiting : Waiting table k ws'
  length : ws'.length = ws.length
  slots : SlotsOf P k ws'
  inputs : stackInputs (occupied ws') = stackInputs (occupied ws ++ [c])
  planned : Planned table (stackJobs (occupied ws'))
  counted : Counted table
  reached : (machine config O).Reached start (occupied ws') s
  occupied_le : (occupied ws').length ≤ (occupied ws).length + 1

variable {P : Nat → PlanTree F Hash → Prop}

/-- **THE JOIN** of the two trees on top, by a job that is the next one of its level. -/
theorem Counted.reached_pair (hcounted : Counted table) (hP : Carries P)
    (hslots : SlotsOf P k ws) (hplanned : Planned table (stackJobs (occupied ws ++ [l, r])))
    (hslot : j.slot = table.jobLevelCounts.getD j.level 0)
    (habove : ∀ i ∈ l.jobs ++ r.jobs, i.level < j.level) (hlt : j.level < maxRealmProvingLevels)
    (hreached : (machine config O).Reached start (occupied ws ++ [l, r]) s)
    (hpairs : Pairs config s l r j s') :
    (machine config O).Reached start (occupied ws ++ [.pair j l r]) s' := by
  refine hreached.pair ⟨?_, ⟨?_, habove, hlt⟩, hpairs⟩
  · intro t ht
    obtain ⟨i, _, hi⟩ := hslots.exists_of_mem t ht
    exact hP.height_pos hi
  · rw [hslot, hcounted.getD]
    exact hplanned.length_level hlt

/-- **THE CARRY** from slot `k` on, with a tree of slot `k` in hand whose job stands on its
level but is not counted yet.  It fails only when the last slot is taken. -/
theorem aggregateFrom_ends (hP : Carries P) (ws : List (Option (PlanTree F Hash))) (k : Nat)
    (c : PlanTree F Hash) (g : JobHeader F Hash)
    (table : JobTable F Hash) (hne : ws ≠ []) (hlen : k + ws.length = maxRealmProvingLevels)
    (hwait : Waiting table k ws) (hslots : SlotsOf P k ws) (hc : P k c) (hg : topGuta c = some g)
    (hplanned : Planned table (stackJobs (occupied ws ++ [c])))
    (hcount : table.jobLevelCounts.modify k (· + 1) = table.plannedJobs.map length)
    (hreached : (machine config O).Reached start (occupied ws ++ [c]) s) :
    EndsIn (fun _ table' => ∃ ws', Inserted config O start s P k ws c table' ws')
      (fun e _ => e = .exceededLevelsDuringAggregation ∧ ws.getLast? ≠ some none)
      (JobTable.aggregateFrom config.uniquePendingId ws.length k g table) := by
  induction ws generalizing k c g table with
  | nil => exact absurd rfl hne
  | cons w ws ih =>
    rw [length_cons] at hlen
    cases w with
    | none =>
      -- a free slot: the tree waits there
      have hfree : table.jobStragglers.getD k none = none := hwait.getD
      have hpark := hwait.set (some c)
      rw [Option.bind_some, hg] at hpark
      rw [length_cons, JobTable.aggregateFrom]
      simp only [hfree]
      exact ⟨some c :: ws, ⟨hpark, rfl, ⟨hc, hslots⟩, rfl, hplanned.counters _ _, hcount, hreached,
        by simp [occupied]⟩⟩
    | some l =>
      obtain ⟨hl, hws⟩ := hslots
      obtain ⟨gl, hgl⟩ := exists_topGuta (hP.height_pos hl)
      have htaken : table.jobStragglers.getD k none = some gl := hwait.getD.trans hgl
      have htake := hwait.set none
      rw [Option.bind_none] at htake
      rw [length_cons, JobTable.aggregateFrom]
      simp only [htaken]
      by_cases hlast : k = maxRealmProvingLevels - 1
      · have hnil : ws = [] := length_eq_zero_iff.mp (by omega)
        rw [if_pos hlast, hnil]
        exact ⟨rfl, by simp⟩
      · rw [if_neg hlast]
        have hne : ws ≠ [] := by
          intro hnil
          rw [hnil, length_nil] at hlen
          exact hlast (by omega)
        have hk : k + 1 < maxRealmProvingLevels := by
          have := length_pos_of_ne_nil hne
          omega
        -- the join of the straggler with the current tree
        have hcounted : Counted { table with
          jobLevelCounts := table.jobLevelCounts.modify k (· + 1) } := hcount
        rw [occupied_concat] at hplanned hreached
        set slot := (table.jobLevelCounts.modify k (· + 1)).getD (k + 1) 0 with hslot
        set j := linearJob config.uniquePendingId gl g (k + 1) slot with hj
        have habove : ∀ i ∈ l.jobs ++ c.jobs, i.level < k + 1 := forall_mem_append.mpr
          ⟨fun i hi => Nat.lt_succ_of_le (hP.level_le hl i hi),
            fun i hi => Nat.lt_succ_of_le (hP.level_le hc i hi)⟩
        have hreached' := hcounted.reached_pair (j := j) hP hws (hplanned.counters _ _) hslot habove
          hk hreached (Pairs.linear (k + 1) slot hgl hg)
        set table₁ : JobTable F Hash := { table with
          jobLevelCounts := table.jobLevelCounts.modify k (· + 1)
          jobStragglers := table.jobStragglers.set k none } with htable₁
        have hplanned' : Planned (record table₁ j)
            (stackJobs (occupied ws ++ [.pair j l c])) := by
          simpa [stackJobs, jobs] using (hplanned.counters _ _).record j
        have hwait' : Waiting (record table₁ j) (k + 1) ws := by
          show table.jobStragglers.set k none = _
          rw [htake, replicate_succ', append_assoc]
          rfl
        refine (ih (k + 1) (.pair j l c) j.guta _ hne (by omega) hwait' hws
          (hP.pair hl hc rfl) rfl hplanned' ?_ hreached').imp ?_ ?_
        · show (table.jobLevelCounts.modify k (· + 1)).modify (k + 1) (· + 1) =
            (table.plannedJobs.modify (k + 1) (· ++ [j.metadata])).map length
          rw [map_length_modify, hcount]
        · intro _ table' hins
          obtain ⟨ws', hins⟩ := hins
          refine ⟨none :: ws', ⟨?_, ?_, hins.slots, ?_, hins.planned, hins.counted,
            hins.reached, ?_⟩⟩
          · rw [Waiting, hins.waiting, replicate_succ', append_assoc]
            rfl
          · rw [length_cons, length_cons, hins.length]
          · rw [occupied_concat]
            refine hins.inputs.trans ?_
            simp [stackInputs, inputs]
          · have hle := hins.occupied_le
            rw [occupied, occupied, length_append]
            omega
        · intro e _ herr
          refine ⟨herr.1, ?_⟩
          rw [getLast?_cons, Option.getD_of_ne_none ?_]
          · exact herr.2
          · simpa using hne

/-- **`insert_job_at_level`** puts a job whose children are on top of the stack on its level, and
lets it climb.  It fails only when the last slot is taken or there is none. -/
theorem insertJobAtLevel_ends (hP : Carries P)
    (hlen : j.level + ws.length = maxRealmProvingLevels) (hwait : Waiting table j.level ws)
    (hslots : SlotsOf P j.level ws) (hc : P j.level (.pair j l r))
    (hplanned : Planned table (stackJobs (occupied ws ++ [l, r]))) (hcounted : Counted table)
    (hslot : j.slot = table.jobLevelCounts.getD j.level 0)
    (habove : ∀ i ∈ l.jobs ++ r.jobs, i.level < j.level)
    (hreached : (machine config O).Reached start (occupied ws ++ [l, r]) s)
    (hpairs : Pairs config s l r j s') :
    EndsIn (fun _ table' => ∃ ws', Inserted config O start s' P j.level ws (.pair j l r) table' ws')
      (fun e _ => (∀ message, e ≠ .panicked message) ∧ e ≠ .doesNotReturn ∧
        ws.getLast? ≠ some none)
      (JobTable.insertJobAtLevel config.uniquePendingId
        (table.saveWitness j.metadata.jobId j.witness) j.guta j.level j.metadata) := by
  unfold JobTable.insertJobAtLevel
  by_cases hfull : maxRealmProvingLevels ≤ j.level
  · rw [if_pos hfull]
    have hnil : ws = [] := length_eq_zero_iff.mp (by omega)
    exact ⟨by simp, by simp, by simp [hnil]⟩
  · rw [if_neg hfull]
    have hne : ws ≠ [] := by
      intro hnil
      rw [hnil, length_nil] at hlen
      omega
    have hleft : maxRealmProvingLevels - j.level = ws.length := by omega
    have hjobs : stackJobs (occupied ws ++ [.pair j l r]) =
        stackJobs (occupied ws ++ [l, r]) ++ [j] := by simp [stackJobs, jobs]
    have hreached' := hcounted.reached_pair hP hslots hplanned hslot habove (not_le.mp hfull)
      hreached hpairs
    rw [hleft, show (table.saveWitness j.metadata.jobId j.witness).jobLevelCounts.getD j.level 0 =
      j.slot from hslot.symm]
    refine (aggregateFrom_ends hP ws j.level (.pair j l r) j.guta (record table j) hne hlen hwait
      hslots hc rfl (by rw [hjobs]; exact hplanned.record j) ?_ hreached').imp (fun _ _ h => h) ?_
    · show table.jobLevelCounts.modify j.level (· + 1) =
        (table.plannedJobs.modify j.level (· ++ [j.metadata])).map length
      rw [map_length_modify, hcounted]
    · intro e _ herr
      rw [herr.1]
      exact ⟨by simp, by simp, herr.2⟩

end

end PsyNode.Realm
