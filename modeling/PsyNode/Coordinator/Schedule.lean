/-
PsyNode.Coordinator.Schedule
**THE COORDINATOR'S SCHEDULE IS ONE TREE.**

Whatever the split between queued and directly added submissions, the returned
levels are the jobs of one tree of least height over the submissions in the
order of their arrival; its top is the last job of the last level.

Job ids hold the level and the position in it as 32-bit numbers.  Up to
`2 ^ 32` submissions they are distinct, and the tree can be read back from the
ids alone.
-/
import PsyNode.Coordinator.Run

namespace PsyNode.Coordinator

open Merkle Guta Recorder Lib.Agg List AggTree
open CoordinatorGUTAPlanner

variable {F Hash : Type} [QFelt64 F] [MerkleZeroHasher Hash] [DecidableEq Hash]
  [HashTo4Felts F Hash] [FieldQHasher F Hash] {E : CallContext Hash → Prop}
  {O : RecorderStore Hash → RecorderStore Hash → Prop} {start s : RecorderStore Hash}
  {t root : PlanTree F Hash}

/-! ## §1. The planned tree. -/

section
variable (h : Rooted E O start root s)
include h

theorem Rooted.wired : root.Wired labels := by
  cases h with
  | joined hreached => exact (reached_joined hreached _ (mem_singleton_self _)).wired
  | promoted => exact ⟨rfl, trivial⟩

theorem Rooted.levelIsHeight : root.LevelIsHeight labels := by
  cases h with
  | joined hreached => exact (reached_joined hreached _ (mem_singleton_self _)).levelIsHeight
  | promoted => exact ⟨rfl, trivial⟩

theorem Rooted.slotted : Slotted labels.level PlannedJob.slot root.jobs := by
  cases h with
  | joined hreached =>
    have hslots := reached_slotted hreached
    rwa [stackJobs, flatMap_singleton] at hslots
  | promoted => exact slotted_nil.concat rfl

/-- The job on top of the root carries the returned header. -/
theorem Rooted.top : ∃ j, root.top = some j ∧ j.metadata.jobId = root.rootId labels ∧
      j.metadata.metadata.expectedPublicInputsHash = (nodeOf root).header.qfhash := by
  cases h with
  | joined hreached =>
    obtain ⟨⟨ctx, slot, w, hd, ct, rfl⟩, _⟩ :=
      reached_joined hreached _ (mem_singleton_self _)
    exact ⟨_, rfl, rfl, rfl⟩
  | promoted => exact ⟨_, rfl, rfl, rfl⟩

end

/-! ## §2. Job ids. -/

omit [MerkleZeroHasher Hash] [DecidableEq Hash] in
/-- A job's id holds its level and slot. -/
theorem Joined.jobId_eq (h : Joined t) : ∀ j ∈ t.jobs, ∃ goal ct, j.metadata.jobId =
    .newProofJobId goal (labels.level j % 2 ^ 32) ct 0 (j.slot % 2 ^ 32) := by
  refine Each.forall_jobs (Each.imp (fun _ _ => False.elim) ?_ h)
  rintro _ l r ⟨ctx, slot, w, hd, ct, rfl⟩
  exact ⟨ctx.uniquePendingId, ct, rfl⟩

theorem Rooted.jobId_eq (h : Rooted E O start root s) :
    ∀ j ∈ root.jobs, ∃ goal ct, j.metadata.jobId =
      .newProofJobId goal (labels.level j % 2 ^ 32) ct 0 (j.slot % 2 ^ 32) := by
  cases h with
  | joined hreached => exact (reached_joined hreached _ (mem_singleton_self _)).jobId_eq
  | promoted => exact forall_mem_singleton.mpr ⟨_, _, rfl⟩

omit [MerkleZeroHasher Hash] [DecidableEq Hash] in
/-- `n` leaves are joined by `n - 1` jobs. -/
theorem Joined.jobs_length (h : Joined t) : t.jobs.length + 1 = t.inputs.length := by
  induction t with
  | input i => rfl
  | wrap j c _ => exact absurd h.1 id
  | pair j l r ihl ihr =>
    have hl := ihl h.2.1
    have hr := ihr h.2.2
    simp only [jobs, inputs, length_append, length_singleton]
    omega

theorem Rooted.jobs_length_le (h : Rooted E O start root s) :
    root.jobs.length ≤ root.inputs.length := by
  cases h with
  | joined hreached =>
    have := (reached_joined hreached _ (mem_singleton_self _)).jobs_length
    omega
  | promoted => exact le_rfl

/-- **DISTINCT IDS**, as long as slots fit in 32 bits. -/
theorem Rooted.jobId_nodup (h : Rooted E O start root s) (hn : root.inputs.length ≤ 2 ^ 32) :
    (root.jobs.map labels.jobId).Nodup := by
  have hslots := h.slotted.nodup
  have hle := h.jobs_length_le
  rw [List.Nodup, pairwise_map] at hslots ⊢
  refine hslots.imp_of_mem ?_
  intro j k hj hk hne heq
  apply hne
  obtain ⟨goal, ct, hidj⟩ := h.jobId_eq j hj
  obtain ⟨goal', ct', hidk⟩ := h.jobId_eq k hk
  have hids := hidj.symm.trans (heq.trans hidk)
  simp only [QProvingJobDataID.newProofJobId, QProvingJobDataID.mk.injEq] at hids
  -- levels and slots are below the number of jobs, so the casts lose nothing
  have hlevel := fun i hi => (h.levelIsHeight.level_lt i hi).trans_le root.height_le_jobs_length
  have hslotj := h.slotted.slot_lt hj
  have hslotk := h.slotted.slot_lt hk
  have hlevelj := hlevel j hj
  have hlevelk := hlevel k hk
  rw [Nat.mod_eq_of_lt (by omega), Nat.mod_eq_of_lt (by omega), Nat.mod_eq_of_lt (by omega),
    Nat.mod_eq_of_lt (by omega)] at hids
  rw [hids.2.2.2.1, hids.2.2.2.2.2.1]

/-! ## §3. The returned levels. -/

variable {arrivals : List (Submission F Hash)} {out : FinalizeOutput F Hash}

section
variable (h : Outcome E O start arrivals root out s)
include h

/-- Level by level, the returned jobs are the jobs of the root. -/
theorem Outcome.flatten_perm :
    (out.jobLevels.flatten.map unkeyed).Perm (root.jobs.map (fun j => unkeyed j.metadata)) := by
  rw [map_flatten, h.jobLevels, ← map_flatten]
  have hperm := levelTable_flatten_perm labels.level PlannedJob.metadata
    ((levelCount_le labels.level).mp (le_refl (levelCount labels.level root.jobs)))
  simpa [map_map, Function.comp_def] using hperm.map unkeyed

theorem Outcome.lists : Lists labels out.jobLevels.flatten root.jobs := by
  have hperm := h.flatten_perm.map (fun job => (job.jobId, job.metadata.dependencies))
  rw [map_map, map_map] at hperm
  exact hperm

/-- The levels are the heights of the tree. -/
theorem Outcome.level_eq {k : Nat} (hk : k < root.height) : out.jobLevels[k]?.map (map unkeyed) =
      some ((root.atHeight (k + 1)).map (fun j => unkeyed j.metadata)) := by
  have hlevel := congrArg (fun ls => ls[k]?) h.jobLevels
  simp only [getElem?_map] at hlevel
  rw [hlevel, h.rooted.levelIsHeight.levelCount_jobs, levelTable_getElem? _ _ _ hk,
    h.rooted.levelIsHeight.atHeight_succ, Option.map_some, map_map]
  rfl

theorem Outcome.length_eq : out.jobLevels.length = root.height := by
  have hlength := congrArg length h.jobLevels
  rw [length_map, length_map, levelTable_length, h.rooted.levelIsHeight.levelCount_jobs] at hlength
  exact hlength

/-- The last level holds the topmost job alone. -/
theorem Outcome.last_eq :
    ∃ job, out.jobLevels.getLast? = some [job] ∧ job.jobId = root.rootId labels ∧
      job.metadata.expectedPublicInputsHash = out.rootGutaHeader.qfhash := by
  obtain ⟨j, htop, hid, hhash⟩ := h.rooted.top
  have hpos : 0 < root.height := by rw [h.height]; omega
  have hlast := h.level_eq (show root.height - 1 < root.height by omega)
  rw [Nat.sub_add_cancel hpos, atHeight_height, htop, ← h.length_eq,
    ← getLast?_eq_getElem?, Option.map_eq_some_iff] at hlast
  obtain ⟨level, hlevel, hmap⟩ := hlast
  -- a level with one job, which differs from the planned one in its reward key only
  obtain ⟨job, rfl, hjob⟩ := map_eq_singleton_iff.mp hmap
  refine ⟨job, hlevel, ?_, ?_⟩
  · rw [← hid]
    exact congrArg (fun job => job.jobId) hjob
  · rw [h.header, ← hhash]
    exact congrArg (fun job => job.metadata.expectedPublicInputsHash) hjob

end

/-- **THE SCHEDULE OF A BLOCK**: the returned levels are the jobs of the tree `t`. -/
structure Schedules (t : PlanTree F Hash) (calls : List (RealmJobCall F Hash))
    (out : FinalizeOutput F Hash) : Prop where
  /-- Left to right, the leaves are the submissions in the order of their arrival. -/
  leaves : t.inputs = calls.map (·.job)
  height : t.height = max 1 (Nat.clog 2 calls.length)
  /-- The dependencies of a job are its children, left before right. -/
  wired : t.Wired labels
  levels_length : out.jobLevels.length = t.height
  /-- Up to reward keys, level `k` holds exactly the jobs of height `k + 1`. -/
  levels : ∀ k < t.height, out.jobLevels[k]?.map (List.map unkeyed) =
    some ((t.atHeight (k + 1)).map (fun j => unkeyed j.metadata))
  /-- The last level holds the root alone, and its header is returned. -/
  root : ∃ job, out.jobLevels.getLast? = some [job] ∧ job.jobId = t.rootId labels ∧
    job.metadata.expectedPublicInputsHash = out.rootGutaHeader.qfhash
  header : out.rootGutaHeader = (nodeOf t).header
  /-- Root and dependencies together name every leaf and every job once. -/
  named_once : (t.rootId labels :: out.jobLevels.flatten.flatMap (·.metadata.dependencies)).Perm
    (calls.map (·.job.jobId) ++ out.jobLevels.flatten.map (·.jobId))
  distinct_ids : calls.length ≤ 2 ^ 32 → (out.jobLevels.flatten.map (·.jobId)).Nodup
  /-- Every job but the root is a dependency of exactly one job. -/
  one_parent : calls.length ≤ 2 ^ 32 →
    (∀ call ∈ calls, call.job.jobId ∉ out.jobLevels.flatten.map (·.jobId)) →
    ∀ job ∈ out.jobLevels.flatten, job.jobId ≠ t.rootId labels →
      ∃ p ∈ out.jobLevels.flatten, job.jobId ∈ p.metadata.dependencies ∧
        ∀ q ∈ out.jobLevels.flatten, job.jobId ∈ q.metadata.dependencies → q = p
  /-- Reading the dependencies down from the root gives the submissions. -/
  reached : calls.length ≤ 2 ^ 32 →
    (∀ call ∈ calls, call.job.jobId ∉ out.jobLevels.flatten.map (·.jobId)) →
    reach (lookup out.jobLevels) t.height (t.rootId labels) = calls.map (·.job.jobId)

theorem Outcome.schedules {calls : List (RealmJobCall F Hash)}
    (h : Outcome E O start (calls.map (·.job)) root out s) : Schedules root calls out := by
  have hlength : root.inputs.length = calls.length := by rw [h.inputs, length_map]
  have hnamed := h.lists.named_once h.rooted.wired
  rw [h.inputs, map_map] at hnamed
  have hnodup : calls.length ≤ 2 ^ 32 → (out.jobLevels.flatten.map (·.jobId)).Nodup := by
    intro hn
    exact h.lists.jobId_perm.nodup_iff.mpr (h.rooted.jobId_nodup (hlength ▸ hn))
  refine ⟨h.inputs, ?_, h.rooted.wired, h.length_eq, fun k hk => h.level_eq hk, h.last_eq,
    h.header, hnamed, hnodup, ?_, ?_⟩
  · rw [h.height, length_map]
  · intro hn hids job hjob hroot
    refine exists_unique_parent hnamed (hnodup hn) ?_ hjob hroot
    intro i hi
    obtain ⟨call, hcall, rfl⟩ := mem_map.mp hi
    exact hids call hcall
  · intro hn hids
    rw [reach_rootId h.rooted.wired ?_ ?_ le_rfl, h.inputs, map_map]
    · rfl
    · intro i hi
      rw [h.inputs] at hi
      obtain ⟨call, hcall, rfl⟩ := mem_map.mp hi
      exact lookup_eq_none (hids call hcall)
    · intro j hj
      -- the returned job of `j`, which may differ in its reward key
      obtain ⟨job, hjob, hid, hdeps⟩ := h.lists.exists_listed hj
      rw [← hid, ← hdeps]
      exact lookup_of_mem (hnodup hn) hjob

/-- **THE COORDINATOR'S SCHEDULE.**  No run of the planner meets a leaf left of an
aggregate; and a successful run over at least one submission returns the jobs of one tree,
of least height, over the submissions in the order of their arrival. -/
theorem coordinator_schedule_is_tree (syncedRoot : Hash) (calls : List (RealmJobCall F Hash))
    (fin : FinalizeCall F Hash) (s : SimpleMemoryMerkleRecorderStore Hash) :
    planBlock syncedRoot calls fin s ≠ .error .invalidPair ∧
      ∀ out s', calls ≠ [] → planBlock syncedRoot calls fin s = .ok (out, s') →
        ∃ t, Schedules t calls out := by
  have hends := planBlock_ends (E := fun _ => True) (O := fun _ _ => True) syncedRoot calls fin s
    (fun _ _ => trivial) trivial (fun _ _ _ => trivial) (fun _ => trivial)
  refine ⟨fun herror => hends.of_error herror rfl, ?_⟩
  intro out s' hne hok
  obtain ⟨root, hroot, _⟩ := hends.of_ok hok hne
  exact ⟨root, hroot.schedules⟩

/-- The sample block is scheduled as a tree of height two. -/
theorem coordinator_schedule_is_tree_three_submissions :
    ∃ out s' t, planBlock (sampleRoot [.leaf 1]) sampleCalls
        (sampleFinalize [.leaf 1, .leaf 2]) (.new 2) = .ok (out, s') ∧
      t.height = 2 ∧ Schedules t sampleCalls out := by
  obtain ⟨out, s', hok, _⟩ := planBlock_sample
  obtain ⟨t, ht⟩ := (coordinator_schedule_is_tree _ _ _ _).2 out s' (by simp [sampleCalls]) hok
  exact ⟨out, s', t, hok, ht.height.trans (by decide), ht⟩

end PsyNode.Coordinator
