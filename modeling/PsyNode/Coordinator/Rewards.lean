/-
PsyNode.Coordinator.Rewards
**REWARD KEYS** — `update_reward_tree_config` walks the dependencies from the
root and writes a position of the reward tree into every job it meets.

It changes nothing else (`updateRewardTreeConfig_ends`), and on a planned tree
it visits every node with its key and returns (`updateRewardTreeConfig_visits`).
-/
import PsyNode.Coordinator.Plan
import PsyNode.Guta.RewardKeys

namespace PsyNode.Coordinator

open Guta Lib.Agg Lib List Function
open Option hiding map_map
open CoordinatorGUTAPlanner

variable {F Hash : Type}

/-- A job without its reward key. -/
def unkeyed (job : ProvingJob Hash) : ProvingJob Hash :=
  job.updateLevelAndIndex 0 0

/-- The dependencies recorded under an id. -/
def lookup (levels : List (List (ProvingJob Hash)))
    (jobId : QProvingJobDataID) : Option (List QProvingJobDataID) :=
  (levels.flatten.find? (fun job => job.jobId = jobId)).map (fun job => job.metadata.dependencies)

variable {levels levels' : List (List (ProvingJob Hash))}
  {jobId : QProvingJobDataID}

theorem lookup_eq_none (h : jobId ∉ levels.flatten.map (·.jobId)) : lookup levels jobId = none := by
  rw [lookup, map_eq_none_iff, find?_eq_none]
  intro job hjob hid
  exact h (mem_map.mpr ⟨job, hjob, by simpa using hid⟩)

/-- With distinct ids, a job's dependencies are found under its id. -/
theorem lookup_of_mem (hnodup : (levels.flatten.map (·.jobId)).Nodup)
    {job : ProvingJob Hash} (h : job ∈ levels.flatten) :
    lookup levels job.jobId = some job.metadata.dependencies := by
  have hfind : levels.flatten.find? (fun k => k.jobId = job.jobId) = some job := by
    obtain ⟨pre, post, heq⟩ := append_of_mem h
    rw [heq] at hnodup ⊢
    rw [find?_eq_some_iff_append]
    refine ⟨by simp, pre, post, rfl, ?_⟩
    intro k hk
    rw [map_append, nodup_append] at hnodup
    simpa using hnodup.2.2 _ (mem_map_of_mem hk) _ (by simp)
  rw [lookup, hfind, map_some]

theorem updateFirst_snd (jobId : QProvingJobDataID) (level index : Nat)
    (jobs : List (ProvingJob Hash)) :
    (updateFirst jobId level index jobs).map Prod.snd =
      (jobs.find? (fun job => job.jobId = jobId)).map (fun job => job.metadata.dependencies) := by
  induction jobs with
  | nil => rfl
  | cons job jobs ih =>
    by_cases h : job.jobId = jobId
    · simp [updateFirst, h]
    · simp only [updateFirst, h, if_false, Option.map_map, find?_cons, decide_false]
      exact ih

variable {jobs jobs' : List (ProvingJob Hash)} {deps : List QProvingJobDataID}

/-- **THE SEARCH** returns the dependencies recorded under the id. -/
theorem updateFirstInLevels_snd (jobId : QProvingJobDataID) (level index : Nat)
    (levels : List (List (ProvingJob Hash))) :
    (updateFirstInLevels jobId level index levels).map Prod.snd = lookup levels jobId := by
  induction levels with
  | nil => rfl
  | cons jobs levels ih =>
    have hjobs := updateFirst_snd jobId level index jobs
    unfold lookup
    rw [flatten_cons, find?_append]
    unfold updateFirstInLevels
    cases hfirst : updateFirst jobId level index jobs with
    | some res =>
      rw [hfirst, map_some, eq_comm, map_eq_some_iff] at hjobs
      obtain ⟨job, hjob, hdeps⟩ := hjobs
      simp [hjob, hdeps]
    | none =>
      rw [hfirst, map_none, eq_comm, map_eq_none_iff] at hjobs
      rw [hjobs, none_or]
      rw [Option.map_map]
      exact ih

variable {key : Nat × Nat}

theorem map_rekey_of_not_mem (h : jobId ∉ jobs.map (·.jobId)) :
    jobs.map (rekey jobId key) = jobs := by
  refine (map_congr_left ?_).trans (map_id jobs)
  intro job hjob
  refine if_neg ?_
  intro heq
  exact h (heq ▸ mem_map_of_mem (f := (·.jobId)) hjob)

theorem map_map_rekey_of_not_mem (h : jobId ∉ levels.flatten.map (·.jobId)) :
    levels.map (map (rekey jobId key)) = levels := by
  refine (map_congr_left ?_).trans (map_id levels)
  intro jobs hjobs
  refine map_rekey_of_not_mem ?_
  intro hmem
  rw [map_flatten] at h
  exact h (mem_flatten.mpr ⟨_, mem_map_of_mem hjobs, hmem⟩)

/-- The search changes a reward key only; with distinct ids, the first job with an id is the
only one. -/
theorem updateFirst_spec {level index : Nat}
    (h : updateFirst jobId level index jobs = some (jobs', deps)) :
    jobs'.map unkeyed = jobs.map unkeyed ∧ jobId ∈ jobs.map (·.jobId) ∧
      ((jobs.map (·.jobId)).Nodup → jobs' = jobs.map (rekey jobId (level, index))) := by
  induction jobs generalizing jobs' with
  | nil => exact absurd h (by simp [updateFirst])
  | cons job jobs ih =>
    simp only [map_cons, nodup_cons]
    by_cases hid : job.jobId = jobId
    · simp only [updateFirst, hid, if_true, some.injEq, Prod.mk.injEq] at h
      obtain ⟨rfl, _⟩ := h
      refine ⟨rfl, by simp [hid], fun hnodup => ?_⟩
      rw [map_rekey_of_not_mem (hid ▸ hnodup.1), rekey, if_pos hid]
    · simp only [updateFirst, hid, if_false, map_eq_some_iff] at h
      obtain ⟨⟨rest, deps'⟩, hrest, heq⟩ := h
      cases heq
      obtain ⟨hkeys, hmem, hrekey⟩ := ih hrest
      refine ⟨by rw [map_cons, hkeys], mem_cons_of_mem _ hmem, fun hnodup => ?_⟩
      rw [hrekey hnodup.2, rekey, if_neg hid]

theorem updateFirstInLevels_spec {level index : Nat}
    (h : updateFirstInLevels jobId level index levels = some (levels', deps)) :
    levels'.map (map unkeyed) = levels.map (map unkeyed) ∧
      jobId ∈ levels.flatten.map (·.jobId) ∧ ((levels.flatten.map (·.jobId)).Nodup →
        levels' = levels.map (map (rekey jobId (level, index)))) := by
  induction levels generalizing levels' with
  | nil => exact absurd h (by simp [updateFirstInLevels])
  | cons jobs levels ih =>
    rw [flatten_cons, map_append, nodup_append]
    unfold updateFirstInLevels at h
    cases hfirst : updateFirst jobId level index jobs with
    | some res =>
      rw [hfirst] at h
      cases h
      obtain ⟨hkeys, hmem, hrekey⟩ := updateFirst_spec hfirst
      refine ⟨by rw [map_cons, map_cons, hkeys], mem_append_left _ hmem, ?_⟩
      rintro ⟨hjobs, _, hdisjoint⟩
      -- the id does not occur on later levels
      rw [hrekey hjobs, map_cons, map_map_rekey_of_not_mem]
      intro hmem'
      exact hdisjoint _ hmem _ hmem' rfl
    | none =>
      rw [hfirst] at h
      simp only [map_eq_some_iff] at h
      obtain ⟨⟨rest, deps'⟩, hrest, heq⟩ := h
      cases heq
      obtain ⟨hkeys, hmem, hrekey⟩ := ih hrest
      refine ⟨by rw [map_cons, map_cons, hkeys], mem_append_right _ hmem, ?_⟩
      rintro ⟨_, hlevels, hdisjoint⟩
      rw [hrekey hlevels, map_cons, map_rekey_of_not_mem]
      intro hmem'
      exact hdisjoint _ hmem' _ hmem rfl

/-- Two planners that differ in reward keys only. -/
def SameJobs (planner planner' : CoordinatorGUTAPlanner F Hash) : Prop :=
  planner'.jobLevels.map (List.map unkeyed) = planner.jobLevels.map (List.map unkeyed) ∧
    planner'.jobWitnesses = planner.jobWitnesses

/-- **REWARD KEYS ONLY.**  `update_reward_tree_config` leaves the jobs as they are. -/
theorem updateRewardTreeConfig_ends (depth : Nat) (jobId : QProvingJobDataID) (level index : Nat)
    (start planner : CoordinatorGUTAPlanner F Hash) (h : SameJobs start planner) :
    Ends (SameJobs start) (· ≠ .invalidPair)
      (updateRewardTreeConfig depth jobId level index planner) := by
  induction depth generalizing jobId level index planner with
  | zero => simp [updateRewardTreeConfig, Ends]
  | succ depth ih =>
    unfold updateRewardTreeConfig
    split
    next =>
      split
      next => exact h
      next => exact h
    next jobLevels deps hfound =>
      apply Ends.foldlM
      · intro planner' dep hplanner'
        exact ih _ _ _ planner' hplanner'
      · exact ⟨(updateFirstInLevels_spec hfound).1.trans h.1, h.2⟩

/-! ## Visits. -/

/-- What `update_reward_tree_config` writes when it meets a node. -/
def visitNode (node : Submission F Hash ⊕ PlannedJob F Hash) (key : Nat × Nat)
    (planner : CoordinatorGUTAPlanner F Hash) : CoordinatorGUTAPlanner F Hash :=
  match node with
  | .inl job =>
    match planner.inputJobToRealm job.jobId with
    | some realmId => { planner with
        inputRealmRewardKeys :=
          update planner.inputRealmRewardKeys realmId (some ⟨key.1, key.2⟩) }
    | none => planner
  | .inr j => { planner with
      jobLevels := planner.jobLevels.map (List.map (rekey j.metadata.jobId key)) }

/-- The ids are distinct, and the dependencies recorded under them are `deps`. -/
def Recorded (deps : QProvingJobDataID → Option (List QProvingJobDataID))
    (planner : CoordinatorGUTAPlanner F Hash) : Prop :=
  (planner.jobLevels.flatten.map (·.jobId)).Nodup ∧ lookup planner.jobLevels = deps

theorem lookup_map_rekey (jobId : QProvingJobDataID) (key : Nat × Nat)
    (levels : List (List (ProvingJob Hash))) :
    lookup (levels.map (map (rekey jobId key))) = lookup levels := by
  funext id
  unfold lookup
  rw [← map_flatten, find?_map, Option.map_map]
  simp only [comp_def, rekey_jobId, rekey_dependencies]

theorem Recorded.visitNode {deps : QProvingJobDataID → Option (List QProvingJobDataID)}
    (node : Submission F Hash ⊕ PlannedJob F Hash) (key : Nat × Nat)
    (planner : CoordinatorGUTAPlanner F Hash) (h : Recorded deps planner) :
    Recorded deps (visitNode node key planner) := by
  cases node with
  | inl job =>
    unfold Coordinator.visitNode
    dsimp only
    split
    next => exact h
    next => exact h
  | inr j =>
    refine ⟨?_, (lookup_map_rekey _ _ _).trans h.2⟩
    show (((planner.jobLevels.map (map (rekey _ key))).flatten).map (·.jobId)).Nodup
    rw [← map_flatten, map_map]
    simpa only [comp_def, rekey_jobId] using h.1

/-- **THE WALK** over a planned tree visits its nodes with their keys, and returns. -/
theorem updateRewardTreeConfig_visits {t : PlanTree F Hash} (depth level index : Nat)
    {planner : CoordinatorGUTAPlanner F Hash} (hw : t.Wired labels)
    (hnodup : (planner.jobLevels.flatten.map (·.jobId)).Nodup)
    (hin : ∀ i ∈ t.inputs, lookup planner.jobLevels (labels.inputId i) = none)
    (hjobs : ∀ j ∈ t.jobs, lookup planner.jobLevels (labels.jobId j) = some (labels.deps j))
    (hdepth : t.height < depth) :
    updateRewardTreeConfig depth (t.rootId labels) level index planner =
      .ok ((t.visits childKey (level, index)).foldl (fun p v => visitNode v.1 v.2 p) planner) := by
  refine AggTree.walk_visits childKey
    (fun n id key (p : CoordinatorGUTAPlanner F Hash) => updateRewardTreeConfig n id key.1 key.2 p)
    visitNode (Recorded (lookup planner.jobLevels)) Recorded.visitNode hw ?_ ?_ depth
    (level, index) planner hdepth ⟨hnodup, rfl⟩
  · intro i hi n key p hp
    have hnone := hin i hi
    rw [← hp.2, ← updateFirstInLevels_snd _ key.1 key.2, map_eq_none_iff] at hnone
    rw [updateRewardTreeConfig, hnone]
    unfold visitNode
    have hid : labels.inputId i = i.jobId := rfl
    rw [hid]
    cases hrealm : p.inputJobToRealm i.jobId with
    | none => simp only [hrealm]
    | some realmId => simp only [hrealm]
  · intro j hj hle n key p hp
    have hkey : ∀ i < 2, (key.2 <<< 1) % 2 ^ 64 + i = (2 * key.2 + i) % 2 ^ 64 := by omega
    -- a found job is given its key, and its dependencies are walked
    have hlookup := hjobs j hj
    rw [← hp.2, ← updateFirstInLevels_snd _ key.1 key.2, map_eq_some_iff] at hlookup
    obtain ⟨⟨levels, deps⟩, hres, hdeps⟩ := hlookup
    obtain rfl := (updateFirstInLevels_spec hres).2.2 hp.1
    rw [updateRewardTreeConfig, hres, ← hdeps]
    rw [← hdeps] at hle
    rcases deps with _ | ⟨a, _ | ⟨b, _ | ⟨c, ds⟩⟩⟩
    · rfl
    · simp only [zipIdx_cons, zipIdx_nil, foldlM_cons, hkey 0 (by omega)]
      rfl
    · simp only [zipIdx_cons, zipIdx_nil, foldlM_cons, hkey 0 (by omega), hkey 1 (by omega)]
      rfl
    · simp at hle

/-- The jobs after the visits of a tree. -/
theorem visits_jobLevels (t : PlanTree F Hash) (key : Nat × Nat)
    (planner : CoordinatorGUTAPlanner F Hash) :
    ((t.visits childKey key).foldl (fun p v => visitNode v.1 v.2 p) planner).jobLevels =
      planner.jobLevels.map (map (rekeyAll (keyWrites labels t key))) := by
  refine levels_foldl_visits jobLevels ?_ (fun _ _ _ => rfl) t key planner
  intro job k p
  unfold visitNode
  dsimp only
  split
  next => rfl
  next => rfl

/-- The realms' keys after the visits of a tree: the last one written for each realm. -/
theorem visits_inputRealmRewardKeys (t : PlanTree F Hash) (key : Nat × Nat)
    (planner : CoordinatorGUTAPlanner F Hash) (realmOf : Submission F Hash → Nat)
    (hrealms : ∀ job ∈ t.inputs, planner.inputJobToRealm job.jobId = some (realmOf job)) :
    ((t.visits childKey key).foldl (fun p v => visitNode v.1 v.2 p) planner).inputRealmRewardKeys =
      (t.inputVisits childKey key).foldl
        (fun keys v => update keys (realmOf v.1) (some ⟨v.2.1, v.2.2⟩))
        planner.inputRealmRewardKeys := by
  rw [← t.inputVisits_fst childKey key] at hrealms
  unfold AggTree.inputVisits at hrealms ⊢
  generalize t.visits childKey key = vs at hrealms ⊢
  induction vs generalizing planner with
  | nil => rfl
  | cons v vs ih =>
    obtain ⟨node, k⟩ := v
    rw [foldl_cons]
    cases node with
    | inl job =>
      have hrealm := hrealms job (by simp)
      have hvisit : visitNode (.inl job) k planner = { planner with
          inputRealmRewardKeys := update planner.inputRealmRewardKeys (realmOf job)
            (some ⟨k.1, k.2⟩) } := by
        unfold visitNode
        simp only [hrealm]
      rw [ih _ ?_, hvisit]
      · rfl
      · rw [hvisit]
        intro i hi
        exact hrealms i (mem_cons_of_mem _ hi)
    | inr j =>
      exact ih _ hrealms

end PsyNode.Coordinator
