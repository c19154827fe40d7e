/-
PsyNode.Realm.Rewards
**REWARD KEYS OF A REALM** — `update_reward_tree_config` finds a job by its noted
position, writes a position of the reward tree into it, and goes on to its
children.

It changes nothing else (`updateRewardTreeConfig_sameJobs`), and on a planned tree
it visits every node with its key and returns (`updateRewardTreeConfig_visits`).
-/
import PsyNode.Coordinator.Rewards
import PsyNode.Realm.Plan

namespace PsyNode.Realm

open Merkle Guta Lib.Agg Lib List JobTable
open Coordinator (unkeyed map_rekey_of_not_mem map_map_rekey_of_not_mem)

variable {F Hash : Type}

/-- Two job tables that differ in reward keys only. -/
structure SameJobs (table table' : JobTable F Hash) : Prop where
  plannedJobs : table'.plannedJobs.map (List.map unkeyed) =
    table.plannedJobs.map (List.map unkeyed)
  jobLevelMap : table'.jobLevelMap = table.jobLevelMap
  totalJobs : table'.totalJobs = table.totalJobs
  savedWitnesses : table'.savedWitnesses = table.savedWitnesses

theorem SameJobs.refl (table : JobTable F Hash) : SameJobs table table := ⟨rfl, rfl, rfl, rfl⟩

theorem SameJobs.trans {a b c : JobTable F Hash} (hab : SameJobs a b) (hbc : SameJobs b c) :
    SameJobs a c :=
  ⟨hbc.plannedJobs.trans hab.plannedJobs, hbc.jobLevelMap.trans hab.jobLevelMap,
    hbc.totalJobs.trans hab.totalJobs, hbc.savedWitnesses.trans hab.savedWitnesses⟩

/-- Where a job is found. -/
def jobAt (table : JobTable F Hash) (position : Nat × Nat) : Option (ProvingJob Hash) :=
  (table.plannedJobs.getD position.1 [])[position.2]?

variable {table table' : JobTable F Hash} {job : ProvingJob Hash}
  {position : Nat × Nat}

variable {levels : List (List (ProvingJob Hash))}

/-- The jobs before and after a found one, on other levels and on its own. -/
theorem exists_split (h : (levels.getD position.1 [])[position.2]? = some job) :
    ∃ before left right after, levels = before ++ (left ++ job :: right) :: after ∧
      ∀ job', levels.modify position.1 (·.set position.2 job') =
        before ++ (left ++ job' :: right) :: after := by
  obtain ⟨a, b⟩ := position
  rw [getD_eq_getElem?_getD] at h
  cases hjobs : levels[a]? with
  | none =>
    rw [hjobs] at h
    cases h
  | some jobs =>
    rw [hjobs, Option.getD_some] at h
    obtain ⟨ha, hgetA⟩ := List.getElem?_eq_some_iff.mp hjobs
    obtain ⟨hb, hgetB⟩ := List.getElem?_eq_some_iff.mp h
    refine ⟨levels.take a, jobs.take b, jobs.drop (b + 1), levels.drop (a + 1), ?_, fun job' => ?_⟩
    · rw [← hgetB, getElem_cons_drop, take_append_drop, ← hgetA, getElem_cons_drop,
        take_append_drop]
    · rw [modify_eq_take_cons_drop ha, hgetA, set_eq_take_append_cons_drop, if_pos hb]

/-- Writing a reward key into the job at a position. -/
theorem sameJobs_setKey
    (h : jobAt table position = some job) (level index : Nat) : SameJobs table { table with
      plannedJobs := table.plannedJobs.modify position.1
        (·.set position.2 (job.updateLevelAndIndex level index)) } := by
  refine ⟨?_, rfl, rfl, rfl⟩
  obtain ⟨before, left, right, after, hlevels, hset⟩ := exists_split h
  rw [hset, hlevels]
  simp only [map_append, map_cons]
  rfl

/-- **REWARD KEYS ONLY.**  `update_reward_tree_config` leaves the jobs as they are. -/
theorem updateRewardTreeConfig_sameJobs (depth : Nat) {jobId : QProvingJobDataID}
    {level index : Nat}
    {table table' : JobTable F Hash}
    (h : table.updateRewardTreeConfig depth jobId level index = .ok table') :
    SameJobs table table' := by
  induction depth generalizing jobId level index table table' with
  | zero => exact absurd h (by simp [updateRewardTreeConfig])
  | succ depth ih =>
    unfold updateRewardTreeConfig at h
    split at h
    next =>
      cases h
      exact .refl table
    next =>
      split at h
      next => cases h
      next position _ =>
        split at h
        next => cases h
        next job hjob =>
          obtain ⟨table₂, hleft, hright⟩ := bind_eq_ok.mp h
          have hjob : jobAt table position = some job := hjob
          have hkey := sameJobs_setKey hjob level index
          have hchild : ∀ {child : QProvingJobDataID} {l i : Nat} {t t' : JobTable F Hash},
              (if child.circuitType ≠ .userEndCap then t.updateRewardTreeConfig depth child l i
                else .ok t) = .ok t' → SameJobs t t' := by
            intro child l i t t' h
            split at h
            next => exact ih h
            next => exact Except.ok.inj h ▸ .refl _
          refine hkey.trans (SameJobs.trans (b := table₂) ?_ ?_)
          · split at hleft
            next => exact hchild hleft
            next => exact Except.ok.inj hleft ▸ .refl _
          · split at hright
            next => exact hchild hright
            next => exact Except.ok.inj hright ▸ .refl _

/-! ## Jobs that can be found. -/

/-- A planned job can be found with its id and its dependencies. -/
def Noted (table : JobTable F Hash) (j : PlannedJob F Hash) : Prop :=
  ∃ position job, table.jobLevelMap (labels.jobId j) = some position ∧
    jobAt table position = some job ∧ job.jobId = labels.jobId j ∧
    job.metadata.dependencies = labels.deps j

theorem SameJobs.jobAt (h : SameJobs table table') (position : Nat × Nat) :
    (jobAt table' position).map unkeyed = (jobAt table position).map unkeyed := by
  have hlevel := congrArg (fun levels => (levels[position.1]?.getD [])[position.2]?) h.plannedJobs
  have hempty : ∀ o : Option (List (ProvingJob Hash)),
      (o.map (map unkeyed)).getD [] = (o.getD []).map unkeyed := by
    intro o
    cases o with
    | none => rfl
    | some jobs => rfl
  simpa only [getElem?_map, hempty, Realm.jobAt, getD_eq_getElem?_getD] using hlevel

variable {j : PlannedJob F Hash}

theorem SameJobs.noted (h : SameJobs table table') (hj : Noted table j) : Noted table' j := by
  obtain ⟨position, job, hmap, hjob, hid, hdeps⟩ := hj
  have hsame := h.jobAt position
  rw [hjob, Option.map_some, Option.map_eq_some_iff] at hsame
  obtain ⟨job', hjob', hkey⟩ := hsame
  refine ⟨position, job', by rw [h.jobLevelMap, hmap], hjob', ?_, ?_⟩
  · rw [← hid]
    exact congrArg (fun job => job.jobId) hkey
  · rw [← hdeps]
    exact congrArg (fun job => job.metadata.dependencies) hkey

/-- With distinct ids, writing a key at a job's position is writing it under its id. -/
theorem modify_set_eq_rekey (hnodup : (levels.flatten.map (·.jobId)).Nodup)
    (h : (levels.getD position.1 [])[position.2]? = some job) (key : Nat × Nat) :
    levels.modify position.1 (·.set position.2 (job.updateLevelAndIndex key.1 key.2)) =
      levels.map (map (rekey job.jobId key)) := by
  obtain ⟨before, left, right, after, rfl, hset⟩ := exists_split h
  simp only [flatten_append, flatten_cons, map_append, map_cons, nodup_append, nodup_cons,
    mem_append, mem_cons] at hnodup
  obtain ⟨_, ⟨⟨_, ⟨hright, _⟩, hleft⟩, _, hafter⟩, hbefore⟩ := hnodup
  rw [hset, map_append, map_cons, map_append, map_cons,
    map_map_rekey_of_not_mem (fun hmem => hbefore _ hmem _ (Or.inl (Or.inr (Or.inl rfl))) rfl),
    map_map_rekey_of_not_mem (fun hmem => hafter _ (Or.inr (Or.inl rfl)) _ hmem rfl),
    map_rekey_of_not_mem (fun hmem => hleft _ hmem _ (Or.inl rfl) rfl),
    map_rekey_of_not_mem hright, rekey, if_pos rfl]

/-! ## Visits. -/

variable (node : EndCap F Hash ⊕ PlannedJob F Hash)

/-- What `update_reward_tree_config` writes when it meets a node. -/
def visitNode (key : Nat × Nat) (table : JobTable F Hash) : JobTable F Hash :=
  match node with
  | .inl _ => table
  | .inr j => { table with
      plannedJobs := table.plannedJobs.map (List.map (rekey j.metadata.jobId key)) }

theorem unkeyed_rekey (jobId : QProvingJobDataID) (key : Nat × Nat)
    (job : ProvingJob Hash) : unkeyed (rekey jobId key job) = unkeyed job := by
  unfold rekey
  split
  next => rfl
  next => rfl

theorem SameJobs.visitNode (key : Nat × Nat) (table' : JobTable F Hash)
    (h : SameJobs table table') : SameJobs table (visitNode node key table') := by
  cases node with
  | inl item => exact h
  | inr j =>
    refine h.trans ⟨?_, rfl, rfl, rfl⟩
    show (table'.plannedJobs.map (map (rekey j.metadata.jobId key))).map
      (map unkeyed) = _
    rw [map_map]
    refine map_congr_left ?_
    intro jobs _
    rw [Function.comp_apply, map_map]
    exact map_congr_left (fun job _ => unkeyed_rekey _ _ _)

theorem SameJobs.flatten_ids (h : SameJobs table table') :
    table'.plannedJobs.flatten.map (·.jobId) = table.plannedJobs.flatten.map (·.jobId) := by
  have hmap := congrArg (fun levels => levels.flatten.map (·.jobId)) h.plannedJobs
  simp only [← map_flatten, map_map] at hmap
  exact hmap

/-- **THE WALK** over a planned tree visits its nodes with their keys, and returns. -/
theorem updateRewardTreeConfig_visits {t : PlanTree F Hash} (depth level index : Nat)
    (hw : t.Wired labels) (hnodup : (table.plannedJobs.flatten.map (·.jobId)).Nodup)
    (hin : ∀ i ∈ t.inputs, i.jobId.circuitType = .userEndCap)
    (htypes : ∀ j ∈ t.jobs, (labels.jobId j).circuitType ≠ .userEndCap)
    (hjobs : ∀ j ∈ t.jobs, Noted table j) (hdepth : t.height < depth) :
    table.updateRewardTreeConfig depth (t.rootId labels) level index =
      .ok ((t.visits childKey (level, index)).foldl (fun p v => visitNode v.1 v.2 p) table) := by
  -- a dependency that is an EndCap is skipped, which is what the walk does with it anyway
  have hchild : ∀ (n : Nat) (child : QProvingJobDataID) (l i : Nat) (table₁ : JobTable F Hash),
      (if child.circuitType ≠ ProvingJobCircuitType.userEndCap then
        table₁.updateRewardTreeConfig (n + 1) child l i else .ok table₁) =
      table₁.updateRewardTreeConfig (n + 1) child l i := by
    intro n child l i table₁
    split
    next => rfl
    next h =>
      rw [not_not] at h
      rw [updateRewardTreeConfig, if_pos h]
  refine AggTree.walk_visits childKey
    (fun n id key (p : JobTable F Hash) => p.updateRewardTreeConfig n id key.1 key.2)
    visitNode (SameJobs table) SameJobs.visitNode hw ?_ ?_ depth (level, index) table hdepth
    (.refl table)
  · intro i hi n key p _
    exact if_pos (hin i hi)
  · intro j hj hle n key p hp
    obtain ⟨position, job, hmap, hjob, hid, hdeps⟩ := hp.noted (hjobs j hj)
    have hget : (p.plannedJobs.getD position.1 [])[position.2]? = some job := hjob
    have hset := modify_set_eq_rekey (hp.flatten_ids ▸ hnodup) hget key
    have hleft : key.2 * 2 % 2 ^ 64 = (2 * key.2 + 0) % 2 ^ 64 := by omega
    have hright : (key.2 * 2 + 1) % 2 ^ 64 = (2 * key.2 + 1) % 2 ^ 64 := by omega
    rw [hid] at hset
    rw [updateRewardTreeConfig, if_neg (htypes j hj)]
    simp only [hmap, hget, hset, hdeps, hchild, hleft, hright]
    rcases hds : labels.deps j with _ | ⟨a, _ | ⟨b, _ | ⟨c, ds⟩⟩⟩
    · rfl
    · rfl
    · exact bind_congr fun p => (bind_pure _).symm
    · simp [hds] at hle

variable {js : List (PlannedJob F Hash)}

/-- With distinct ids, a job's position is noted under its id. -/
theorem positions_of_mem (hnodup : (js.map labels.jobId).Nodup)
    (hj : j ∈ js) : positions js (labels.jobId j) = some (j.level, j.slot) := by
  induction js using reverseRecOn with
  | nil => cases hj
  | append_singleton js k ih =>
    rw [map_append, nodup_append] at hnodup
    rw [positions, foldl_append]
    show Function.update (positions js) k.metadata.jobId _ _ = _
    rcases mem_append.mp hj with hj | hj
    · have hne : labels.jobId j ≠ k.metadata.jobId :=
        hnodup.2.2 _ (mem_map_of_mem hj) _ (by simp [labels])
      rw [Function.update_of_ne hne]
      exact ih hnodup.1 hj
    · rw [mem_singleton.mp hj]
      exact Function.update_self ..

/-- Every job of a planned table can be found. -/
theorem Planned.noted (h : Planned table js)
    (hnodup : (js.map labels.jobId).Nodup) (hslots : Slotted labels.level PlannedJob.slot js)
    (hlevels : ∀ j ∈ js, j.level < maxRealmProvingLevels) : ∀ j ∈ js, Noted table j := by
  intro j hj
  refine ⟨(j.level, j.slot), j.metadata, ?_, ?_, rfl, rfl⟩
  · rw [h.jobLevelMap]
    exact positions_of_mem hnodup hj
  · rw [jobAt, h.plannedJobs, getD_eq_getElem?_getD,
      levelTable_getElem? _ _ _ (hlevels j hj), Option.getD_some, getElem?_map]
    exact congrArg (Option.map PlannedJob.metadata) (hslots.getElem? hj)

end PsyNode.Realm
