/-
PsyNode.Coordinator.RewardKeys
**THE REWARD KEYS OF A BLOCK** — every run of the coordinator's planner gives its
jobs the positions of a binary tree below the position it was given, and reports
for every realm that submitted once the position at which its submission is
consumed (`coordinator_keyed`).
-/
import PsyNode.Coordinator.Checkpoint
import PsyNode.Coordinator.Schedule

namespace PsyNode.Coordinator

open Merkle Guta Recorder Lib.Agg List
open CoordinatorGUTAPlanner

variable {F Hash : Type}

/-! ## §1. Noted realms. -/

/-- The last write to a key, when all of them agree. -/
theorem foldl_update_of_unique {α β γ : Type} [DecidableEq β] {f : α → β} {g : α → γ}
    {vs : List α} {v : α} (hv : v ∈ vs) (hunique : ∀ w ∈ vs, f w = f v → g w = g v) (m : β → γ) :
    (vs.foldl (fun m w => Function.update m (f w) (g w)) m) (f v) = g v := by
  induction vs using reverseRecOn with
  | nil => cases hv
  | append_singleton vs w ih =>
    rw [foldl_append, foldl_cons, foldl_nil]
    by_cases hw : f w = f v
    · rw [← hw, Function.update_self]
      exact hunique w (by simp) hw
    · rw [Function.update_of_ne (Ne.symm hw)]
      rcases mem_append.mp hv with hv | hv
      · exact ih hv (fun x hx => hunique x (mem_append_left _ hx))
      · exact absurd (congrArg f (mem_singleton.mp hv)).symm hw

/-- The last element of a list of lists that ends in a singleton. -/
theorem getLast?_flatten {α : Type} {ls : List (List α)} {a : α} (h : ls.getLast? = some [a]) :
    ls.flatten.getLast? = some a := by
  have hconcat : (ls.dropLast ++ [[a]]).flatten.getLast? = some a := by
    rw [flatten_append, flatten_singleton]
    exact getLast?_concat
  rwa [dropLast_append_getLast? _ h] at hconcat

/-- The recorded jobs are those of the root. -/
theorem Planned.flatten_perm {planner : CoordinatorGUTAPlanner F Hash}
    {js : List (PlannedJob F Hash)} (h : Planned planner js) :
    planner.jobLevels.flatten.Perm (js.map PlannedJob.metadata) := by
  rw [h.jobLevels]
  exact levelTable_flatten_perm labels.level PlannedJob.metadata
    ((levelCount_le labels.level).mp (le_refl (levelCount labels.level js)))

variable [QFelt64 F]

variable {job : Submission F Hash}

theorem notedRealms_of_mem {jobs : List (Submission F Hash)}
    (hids : ∀ a ∈ jobs, ∀ b ∈ jobs, a.jobId = b.jobId → realmOf a = realmOf b) (hjob : job ∈ jobs)
    (realms : QProvingJobDataID → Option Nat) :
    notedRealms jobs realms job.jobId = some (realmOf job) := by
  refine foldl_update_of_unique (f := fun job : Submission F Hash => job.jobId)
    (g := fun job => some (realmOf job)) hjob ?_ realms
  intro other hother hid
  exact congrArg some (hids other hother job hjob hid)

/-! ## §2. The keys. -/

/-- **THE KEYS OF A BLOCK**: those of the jobs, and those of the submissions of realms
that submitted once. -/
structure BlockKeyed (calls : List (RealmJobCall F Hash)) (args : FinalizeArgs F Hash)
    (out : FinalizeOutput F Hash) : Prop where
  jobs : ∃ rootJob, out.jobLevels.flatten.getLast? = some rootJob ∧
    RewardKeyed out.jobLevels.flatten rootJob.jobId args.rewardTreeRootLevel
      args.rewardTreeRootIndex
  /-- A realm's key is the one position at which its submission is consumed. -/
  inputs : (∀ a ∈ calls, ∀ b ∈ calls, a.job.jobId = b.job.jobId → realmOf a.job = realmOf b.job) →
    ∀ call ∈ calls, (calls.map (fun call => realmOf call.job)).count (realmOf call.job) = 1 →
      ∃ key : Nat × Nat,
        out.inputRealmRewardKeys (realmOf call.job) = some ⟨key.1, key.2⟩ ∧
        ∀ k, ConsumedAt out.jobLevels.flatten call.job.jobId k ↔ k = key

/-- **THE WALKED TREE** of a block, as far as its output shows it. -/
structure WalkedTree (root : PlanTree F Hash) (key : Nat × Nat) (planned : List (ProvingJob Hash))
    (keys : Nat → Option NodeKey) (out : FinalizeOutput F Hash) : Prop where
  wired : root.Wired labels
  height_le : root.height ≤ 32
  nodup : (root.jobs.map labels.jobId).Nodup
  not_job : ∀ i ∈ root.inputs, labels.inputId i ∉ root.jobs.map labels.jobId
  root_job : root.rootId labels ∈ root.jobs.map labels.jobId
  last : ∃ rootJob, out.jobLevels.flatten.getLast? = some rootJob ∧
    rootJob.jobId = root.rootId labels
  lists : Lists labels planned root.jobs
  jobs : out.jobLevels.flatten = planned.map (rekeyAll (keyWrites labels root key))
  inputs : (∀ a ∈ root.inputs, ∀ b ∈ root.inputs, a.jobId = b.jobId → realmOf a = realmOf b) →
    out.inputRealmRewardKeys = (root.inputVisits childKey key).foldl
      (fun keys v => Function.update keys (realmOf v.1) (some ⟨v.2.1, v.2.2⟩)) keys

variable {root : PlanTree F Hash} {out : FinalizeOutput F Hash}

/-- A realm that submitted once is given the position at which its submission is consumed. -/
theorem WalkedTree.consumed {key : Nat × Nat} {planned : List (ProvingJob Hash)}
    {keys : Nat → Option NodeKey} (h : WalkedTree root key planned keys out)
    (hsame : ∀ a ∈ root.inputs, ∀ b ∈ root.inputs, a.jobId = b.jobId → realmOf a = realmOf b)
    (hjob : job ∈ root.inputs) (honce : (root.inputs.map realmOf).count (realmOf job) = 1) :
    ∃ k : Nat × Nat, out.inputRealmRewardKeys (realmOf job) = some ⟨k.1, k.2⟩ ∧
      ∀ k', ConsumedAt out.jobLevels.flatten job.jobId k' ↔ k' = k := by
  have hfst := root.inputVisits_fst childKey key
  obtain ⟨v, hv, hvjob⟩ := mem_map.mp (hfst.symm ▸ hjob)
  -- the realm's only visit
  have hunique : ∀ w ∈ root.inputVisits childKey key, realmOf w.1 = realmOf v.1 → w = v := by
    intro w hw hrealm
    refine AggTree.eq_of_count_flatMap_eq_one (f := fun v => [realmOf v.1]) ?_ hw hv
      (mem_singleton.mpr hrealm.symm) (mem_singleton_self _)
    rw [← hfst, map_map] at honce
    rw [hvjob, ← map_eq_flatMap]
    exact honce
  refine ⟨v.2, ?_, ?_⟩
  · rw [h.inputs hsame, ← hvjob]
    refine foldl_update_of_unique (f := fun v : Submission F Hash × Nat × Nat => realmOf v.1)
      (g := fun v => some ⟨v.2.1, v.2.2⟩) hv ?_ keys
    intro w hw hrealm
    rw [hunique w hw hrealm]
  · intro k
    rw [h.jobs]
    refine (consumedAt_iff h.lists h.nodup h.wired h.root_job (h.not_job job hjob)).trans ?_
    constructor
    · intro hvisit
      obtain ⟨i', hi', hid⟩ := hvisit
      have hinput : i' ∈ root.inputs := hfst ▸ mem_map_of_mem (f := Prod.fst) hi'
      have hrealm : realmOf i' = realmOf v.1 := by
        rw [hvjob]
        exact hsame i' hinput job hjob hid
      exact congrArg Prod.snd (hunique (i', k) hi' hrealm)
    · intro hk
      exact ⟨v.1, hk ▸ hv, by rw [hvjob]⟩

/-! ## §3. The walk. -/

variable [MerkleZeroHasher Hash] [DecidableEq Hash] [HashTo4Felts F Hash] [FieldQHasher F Hash]
  {E : CallContext Hash → Prop} {O : RecorderStore Hash → RecorderStore Hash → Prop}
  {start s : RecorderStore Hash} {arrivals : List (Submission F Hash)}
  {planner' : CoordinatorGUTAPlanner F Hash} {args : FinalizeArgs F Hash}

/-- The walk of a finalization starts at the root and visits its tree. -/
theorem Outcome.visited {realms : QProvingJobDataID → Option Nat}
    (h : Outcome E O start arrivals root out s) (hn : arrivals.length ≤ 2 ^ 32)
    (hids : ∀ job ∈ arrivals, job.jobId ∉ out.jobLevels.flatten.map (·.jobId))
    (hwalked : Walked args root realms planner') (hlevels : out.jobLevels = planner'.jobLevels) :
    ∃ planner₁, Planned planner₁ root.jobs ∧ planner₁.inputJobToRealm = realms ∧
      planner' = (root.visits childKey (args.rewardTreeRootLevel, args.rewardTreeRootIndex)).foldl
        (fun p v => visitNode v.1 v.2 p) planner₁ := by
  obtain ⟨planner₁, rootJob, hplanned, hrealms, hlast, hwalk⟩ := hwalked
  refine ⟨planner₁, hplanned, hrealms, ?_⟩
  have hsame := (updateRewardTreeConfig_ends _ _ _ _ planner₁ planner₁ ⟨rfl, rfl⟩).of_ok hwalk
  have hflat : out.jobLevels.flatten.map unkeyed = planner₁.jobLevels.flatten.map unkeyed := by
    rw [hlevels, map_flatten, hsame.1, map_flatten]
  have hflatIds : out.jobLevels.flatten.map (·.jobId) =
      planner₁.jobLevels.flatten.map (·.jobId) := by
    have hmap := congrArg (map (fun job => job.jobId)) hflat
    rw [map_map, map_map] at hmap
    exact hmap
  -- the last job is the root
  have hroot : rootJob.jobId = root.rootId labels := by
    obtain ⟨job, hjob, hid, _⟩ := h.last_eq
    have hlast' : out.jobLevels.flatten.getLast? = some job := by
      exact getLast?_flatten hjob
    have hmap := congrArg getLast? hflatIds
    rw [getLast?_map, getLast?_map, hlast, hlast'] at hmap
    rw [← hid]
    exact (Option.some.inj hmap).symm
  have hperm := hplanned.flatten_perm
  have hnodup : (planner₁.jobLevels.flatten.map (·.jobId)).Nodup := by
    have hperm' := hperm.map (·.jobId)
    rw [map_map] at hperm'
    exact hperm'.nodup_iff.mpr (h.rooted.jobId_nodup (by rw [h.inputs]; exact hn))
  have hlength : planner₁.jobLevels.flatten.length = root.jobs.length := by
    rw [hperm.length_eq, length_map]
  have hvisits := updateRewardTreeConfig_visits (planner₁.jobLevels.flatten.length + 1)
    args.rewardTreeRootLevel args.rewardTreeRootIndex h.rooted.wired hnodup ?_ ?_ ?_
  · rw [hroot, hvisits] at hwalk
    exact (Except.ok.inj hwalk).symm
  · intro i hi
    refine lookup_eq_none ?_
    rw [← hflatIds]
    exact hids i (h.inputs ▸ hi)
  · intro j hj
    have hmem := hperm.mem_iff.mpr (mem_map_of_mem (f := PlannedJob.metadata) hj)
    exact lookup_of_mem hnodup hmem
  · rw [hlength]
    exact Nat.lt_succ_of_le root.height_le_jobs_length

variable {fin : FinalizeCall F Hash} {s' : RecorderStore Hash} {syncedRoot : Hash}

/-- The keys a block without submissions is given. -/
theorem planBlock_nil_keyed
    (hok : planBlock syncedRoot [] fin s = .ok (out, s')) : BlockKeyed [] fin.args out := by
  obtain ⟨input, hblock⟩ := planBlock_nil hok
  obtain ⟨job, hjobs, hkey, hdeps⟩ := hblock.job
  refine ⟨⟨job, by rw [hjobs]; rfl, ?_⟩, fun _ call hcall => absurd hcall (by simp)⟩
  rw [hjobs, flatten_singleton]
  refine ⟨by simp, ⟨job, by simp, rfl, hkey⟩, ?_, ?_⟩
  · intro x hx n d hd
    rw [mem_singleton.mp hx, hdeps] at hd
    cases hd
  · intro hlevel hindex x hx n hn
    rw [mem_singleton.mp hx, hkey]
    exact childKey_exact (w := []) hlevel hindex ⟨by simp, by simp⟩ hn

theorem Outcome.walkedTree (h : Outcome E O start arrivals root out s)
    (hn : arrivals.length ≤ 2 ^ 32)
    (hids : ∀ job ∈ arrivals, job.jobId ∉ out.jobLevels.flatten.map (·.jobId))
    (hwalked : Walked args root (notedRealms arrivals (fun _ => none)) planner')
    (hlevels : out.jobLevels = planner'.jobLevels)
    (hkeys : out.inputRealmRewardKeys = planner'.inputRealmRewardKeys) : ∃ planned keys,
      WalkedTree root (args.rewardTreeRootLevel, args.rewardTreeRootIndex) planned keys out := by
  obtain ⟨planner₁, hplanned, hrealms, rfl⟩ := h.visited hn hids hwalked hlevels
  have hclog : Nat.clog 2 arrivals.length ≤ 32 := Nat.clog_le_of_le_pow hn
  obtain ⟨rootJob, hlast, hrootId, _⟩ := h.last_eq
  have hlast' := getLast?_flatten hlast
  refine ⟨planner₁.jobLevels.flatten, planner₁.inputRealmRewardKeys, ?_⟩
  refine ⟨h.rooted.wired, by rw [h.height]; omega,
    h.rooted.jobId_nodup (by rw [h.inputs]; exact hn), ?_, ?_,
    ⟨rootJob, hlast', hrootId⟩, ?_, ?_, ?_⟩
  · intro i hi
    rw [← h.lists.jobId_perm.mem_iff]
    exact hids i (h.inputs ▸ hi)
  · rw [← h.lists.jobId_perm.mem_iff, ← hrootId]
    exact mem_map_of_mem (f := (·.jobId)) (mem_of_getLast? hlast')
  · have hmap := hplanned.flatten_perm.map (fun job => (job.jobId, job.metadata.dependencies))
    rw [map_map] at hmap
    exact hmap
  · rw [hlevels, visits_jobLevels, map_flatten]
  · intro hsame
    rw [hkeys]
    refine visits_inputRealmRewardKeys root _ planner₁ realmOf ?_
    intro job hjob
    rw [hrealms, ← h.inputs]
    exact notedRealms_of_mem hsame hjob _

/-- **THE REWARD KEYS OF A BLOCK.** -/
theorem coordinator_keyed {calls : List (RealmJobCall F Hash)}
    (hok : planBlock syncedRoot calls fin s = .ok (out, s'))
    (hlevel : fin.args.rewardTreeRootLevel < 2 ^ 8) (hindex : fin.args.rewardTreeRootIndex < 2 ^ 64)
    (hn : calls.length ≤ 2 ^ 32)
    (hids : ∀ call ∈ calls, call.job.jobId ∉ out.jobLevels.flatten.map (·.jobId)) :
    BlockKeyed calls fin.args out := by
  by_cases hcalls : calls = []
  · subst hcalls
    exact planBlock_nil_keyed hok
  have hends := planBlock_ends (E := fun _ => True) (O := fun _ _ => True) syncedRoot calls fin s
    (fun _ _ => trivial) trivial (fun _ _ _ => trivial) (fun _ => trivial)
  obtain ⟨root, houtcome, planner', hwalked, hlevels, hkeys⟩ := hends.of_ok hok hcalls
  have hids' : ∀ job ∈ calls.map (·.job), job.jobId ∉ out.jobLevels.flatten.map (·.jobId) := by
    intro job hjob
    obtain ⟨call, hcall, rfl⟩ := mem_map.mp hjob
    exact hids call hcall
  obtain ⟨planned, keys, hwalk⟩ := houtcome.walkedTree (by rwa [length_map]) hids' hwalked
    hlevels hkeys
  obtain ⟨rootJob, hlast, hrootId⟩ := hwalk.last
  refine ⟨⟨rootJob, hlast, ?_⟩, ?_⟩
  · rw [hwalk.jobs, hrootId]
    exact .of_visits hlevel hindex hwalk.height_le hwalk.lists hwalk.nodup hwalk.wired
      hwalk.root_job hwalk.not_job
  · intro hrealmIds call hcall honce
    have hinputs := houtcome.inputs
    refine hwalk.consumed ?_ ?_ ?_
    · intro a ha b hb hid
      rw [hinputs] at ha hb
      obtain ⟨x, hx, rfl⟩ := mem_map.mp ha
      obtain ⟨y, hy, rfl⟩ := mem_map.mp hb
      exact hrealmIds x hx y hy hid
    · rw [hinputs]
      exact mem_map_of_mem (f := (·.job)) hcall
    · rw [hinputs, map_map]
      exact honce

end PsyNode.Coordinator
