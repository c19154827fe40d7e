/-
PsyNode.Realm.Schedule
**A REALM'S SCHEDULE IS ONE TREE.**

Whatever the order of the calls, and whatever is skipped or fails on the way, a
finalization that returns an output returns the jobs of one binary tree over the
accepted EndCaps, in the order of their acceptance; the fee job is its top and
stands alone on the last level.
-/
import PsyNode.Realm.Finalize

namespace PsyNode.Realm

open Merkle Guta Recorder Store Lib.Agg Lib List AggTree PlannedJob
open Coordinator (unkeyed lookup lookup_eq_none lookup_of_mem sampleCheckpointTree)
open RealmGUTAPlanner

variable {F Hash : Type} [QFelt64 F]

/-! ## §1. The number of proofs. -/

/-- The number of proofs below a tree, as its header counts them. -/
def treeTotal (t : PlanTree F Hash) : F :=
  (t.top.map (fun j => j.header.totalAggregationProofsGenerated)).getD 0

variable {t : PlanTree F Hash}

theorem treeTotal_of_topGuta {g : JobHeader F Hash}
    (h : topGuta t = some g) : treeTotal t = g.header.totalAggregationProofsGenerated := by
  obtain ⟨j, hj, rfl⟩ := Option.map_eq_some_iff.mp h
  rw [treeTotal, hj]
  rfl

/-- **THE COUNT** in a header is the number of jobs. -/
theorem treeTotal_eq (h : t.Each
      (fun j c => j.header.totalAggregationProofsGenerated = treeTotal c + fromU64Value 1)
      (fun j l r => j.header.totalAggregationProofsGenerated =
        treeTotal l + treeTotal r + fromU64Value 1)) (hlt : t.jobs.length < 2 ^ 63) :
    treeTotal t = fromU64Value t.jobs.length := by
  induction t with
  | input i => exact QFelt64.fromU64Value_zero.symm
  | wrap j c ih =>
    simp only [jobs, length_append, length_singleton] at hlt ⊢
    rw [QFelt64.fromU64Value_add _ _ hlt, ← ih h.2 (by omega)]
    exact h.1
  | pair j l r ihl ihr =>
    simp only [jobs, length_append, length_singleton] at hlt ⊢
    rw [QFelt64.fromU64Value_add _ _ hlt, QFelt64.fromU64Value_add _ _ (by omega),
      ← ihl h.2.1 (by omega), ← ihr h.2.2 (by omega)]
    exact h.1

variable [MerkleZeroHasher Hash] [DecidableEq Hash] [HashTo4Felts F Hash] [FieldQHasher F Hash]
  {config : RealmPlannerConfig Hash} {O : RecorderStore Hash → RecorderStore Hash → Prop}
  {start s s' : RecorderStore Hash} {accepted : List (EndCap F Hash)} {j : PlannedJob F Hash}

theorem Pairs.total {l r : PlanTree F Hash} (h : Pairs config s l r j s') :
    j.header.totalAggregationProofsGenerated =
      treeTotal l + treeTotal r + fromU64Value 1 := by
  cases h with
  | twoEndCap =>
    show (fromU64Value 1 : F) = 0 + 0 + fromU64Value 1
    rw [zero_add, zero_add]
  | linear level slot hl hr =>
    rw [treeTotal_of_topGuta hl, treeTotal_of_topGuta hr]
    rfl
  | leftGutaRightEndCap checkpointTree level slot hl hright =>
    rw [treeTotal_of_topGuta hl]
    show _ = _ + 0 + fromU64Value 1
    rw [add_zero]
    rfl

theorem Wraps.total (h : Wraps config s t j s') :
    j.header.totalAggregationProofsGenerated = treeTotal t + fromU64Value 1 := by
  cases h with
  | singleEndCap =>
    show (fromU64Value 1 : F) = 0 + fromU64Value 1
    rw [zero_add]
  | upgrade proof level ht =>
    rw [treeTotal_of_topGuta ht]
    rfl

/-- Every header counts its children's proofs and its own. -/
theorem reached_total {ts : List (PlanTree F Hash)} (h : (machine config O).Reached start ts s) :
    ∀ t ∈ ts, t.Each
      (fun j c => j.header.totalAggregationProofsGenerated = treeTotal c + fromU64Value 1)
      (fun j l r => j.header.totalAggregationProofsGenerated =
        treeTotal l + treeTotal r + fromU64Value 1) := by
  refine Machine.Reached.each ?_ ?_ h
  · intro ts s t j s' hstep _
    exact hstep.2.total
  · intro ts s l r j s' hstep _ _
    exact hstep.2.2.total

/-! ## §2. The returned levels. -/

variable {fin : PlannedJob F Hash} {out : RealmFinalizeOutput F Hash}
  {planner' : RealmGUTAPlanner F Hash} {job : ProvingJob Hash}

section
variable (h : Finalized config O start accepted s t fin out planner' s')
include h

theorem Finalized.level_lt : ∀ j ∈ t.jobs ++ [fin], j.level < maxRealmProvingLevels :=
  h.fits.all_level_lt h.reached

theorem Finalized.wired : (wrap fin t).Wired labels :=
  ⟨h.pays.deps, reached_wired h.reached t (mem_singleton_self t)⟩

theorem Finalized.leveled : (wrap fin t).Leveled labels :=
  ⟨h.fits.above, reached_leveled h.reached t (mem_singleton_self t)⟩

/-- Level by level, the returned jobs are the jobs of the tree and the fee job. -/
theorem Finalized.flatten_perm : (out.jobIds.flatten.map unkeyed).Perm
      ((t.jobs ++ [fin]).map (fun j => unkeyed j.metadata)) := by
  rw [map_flatten, h.jobIds, ← map_flatten, flatten_filter_ne_nil]
  have hperm := levelTable_flatten_perm labels.level metadata h.level_lt
  simpa [map_map, Function.comp_def] using hperm.map unkeyed

theorem Finalized.lists : Lists labels out.jobIds.flatten (wrap fin t).jobs := by
  have hperm := h.flatten_perm.map (fun job => (job.jobId, job.metadata.dependencies))
  rw [map_map, map_map] at hperm
  exact hperm

theorem Finalized.length_eq : out.jobIds.flatten.length = (t.jobs ++ [fin]).length := by
  have hlength := h.flatten_perm.length_eq
  rwa [length_map, length_map] at hlength

end

/-- The level noted under a job's id. -/
def notedLevel (js : List (PlannedJob F Hash)) (job : ProvingJob Hash) : Nat :=
  ((positions js job.jobId).getD (0, 0)).1

section
variable (h : Finalized config O start accepted s t fin out planner' s')
include h

theorem Finalized.notedLevel_eq (hj : j ∈ t.jobs ++ [fin]) (hid : job.jobId = labels.jobId j) :
    notedLevel (t.jobs ++ [fin]) job = j.level := by
  rw [notedLevel, hid, positions_of_mem (h.pays.jobId_nodup h.reached) hj]
  rfl

/-- The returned levels are in the order of the noted ones. -/
theorem Finalized.ascending : Ascending (notedLevel (t.jobs ++ [fin])) out.jobIds := by
  have htable : Ascending (notedLevel (t.jobs ++ [fin]))
      ((levelTable labels.level metadata maxRealmProvingLevels
        (t.jobs ++ [fin])).filter (· ≠ [])) :=
    (levelTable_ascending labels.level metadata
      (fun j hj => h.notedLevel_eq hj rfl)).filter _
  -- reward keys leave the ids alone
  have hkeys : Ascending (notedLevel (t.jobs ++ [fin])) (out.jobIds.map (map unkeyed)) := by
    rw [h.jobIds]
    exact (ascending_map (f := unkeyed)).mpr htable
  exact (ascending_map (f := unkeyed)).mp hkeys

/-- The fee job stands alone on the last level. -/
theorem Finalized.last_eq :
    ∃ job, out.jobIds.getLast? = some [job] ∧ job.jobId = out.gutaHeader.jobId := by
  have hsplit : levelTable labels.level metadata maxRealmProvingLevels
      (t.jobs ++ [fin]) =
      levelTable labels.level metadata fin.level (t.jobs ++ [fin]) ++ [[fin.metadata]] ++
        replicate (maxRealmProvingLevels - (fin.level + 1)) [] := by
    have hbelow : ∀ j ∈ t.jobs ++ [fin], labels.level j < fin.level + 1 := by
      rw [forall_mem_append, forall_mem_singleton]
      exact ⟨fun j hj => Nat.lt_succ_of_lt (h.fits.above j hj), Nat.lt_succ_self _⟩
    have hgrow := levelTable_grow labels.level metadata hbelow
      (maxRealmProvingLevels - (fin.level + 1))
    rw [Nat.add_sub_cancel' h.fits.level_lt] at hgrow
    rw [hgrow]
    rw [levelTable, levelTable, range_succ, map_append, map_singleton]
    -- nothing else stands on the level of the fee job
    rw [filter_append, filter_eq_nil_iff.mpr]
    · simp [labels]
    · intro j hj
      have hne : labels.level j ≠ fin.level := (h.fits.above j hj).ne
      simpa only [decide_eq_true_eq] using hne
  have hfilter : (levelTable labels.level metadata maxRealmProvingLevels
      (t.jobs ++ [fin])).filter (· ≠ []) =
      (levelTable labels.level metadata fin.level (t.jobs ++ [fin])).filter (· ≠ []) ++
        [[fin.metadata]] := by
    rw [hsplit, filter_append, filter_append]
    simp
  have hlast := congrArg getLast? h.jobIds
  rw [hfilter, getLast?_map, map_append, map_singleton, getLast?_concat,
    Option.map_eq_some_iff] at hlast
  obtain ⟨level, hlevel, hmap⟩ := hlast
  obtain ⟨job, rfl, hjob⟩ := map_eq_singleton_iff.mp hmap
  refine ⟨job, hlevel, ?_⟩
  rw [h.header]
  exact congrArg (fun job => job.jobId) hjob

/-- An EndCap's id is no job's. -/
theorem Finalized.endCap_not_job (hids : EndCapIds accepted) {item : EndCap F Hash}
    (hitem : item ∈ accepted) : item.jobId ∉ out.jobIds.flatten.map (·.jobId) := by
  intro hmem
  obtain ⟨j, hj, hid⟩ := mem_map.mp (h.lists.jobId_perm.mem_iff.mp hmem)
  have htype : j.metadata.jobId.circuitType = .userEndCap :=
    (congrArg QProvingJobDataID.circuitType hid).trans (hids item hitem)
  rcases mem_append.mp hj with hj | hj
  · exact (reached_named h.reached t (mem_singleton_self t) j hj).not_endCap htype
  · rw [mem_singleton.mp hj, h.pays.circuitType] at htype
    cases htype

/-- A dependency that is a returned job is on an earlier level. -/
theorem Finalized.dep_lt (hids : EndCapIds accepted) {a b : Nat}
    {A B : List (ProvingJob Hash)} (ha : out.jobIds[a]? = some A)
    (hb : out.jobIds[b]? = some B) {child : ProvingJob Hash}
    (hchild : child ∈ A) (hjob : job ∈ B) (hdep : child.jobId ∈ job.metadata.dependencies) :
    a < b := by
  have hchild' : child ∈ out.jobIds.flatten :=
    mem_flatten.mpr ⟨A, mem_of_getElem? ha, hchild⟩
  have hjob' : job ∈ out.jobIds.flatten :=
    mem_flatten.mpr ⟨B, mem_of_getElem? hb, hjob⟩
  obtain ⟨p, hp, hpid, hpdeps⟩ := h.lists.exists_planned hjob'
  rw [hpdeps] at hdep
  refine h.ascending.index_lt ha hb hchild hjob ?_
  rcases dep_cases h.wired h.leveled hp hdep with ⟨item, hitem, hid⟩ | ⟨k, hk, hid, hlt⟩
  · -- an EndCap is not a job
    rw [AggTree.inputs, h.inputs] at hitem
    refine absurd ?_ (h.endCap_not_job hids hitem)
    exact mem_map.mpr ⟨child, hchild', hid⟩
  · rw [h.notedLevel_eq hk hid, h.notedLevel_eq hp hpid]
    exact hlt

end

/-! ## §3. The schedule. -/

/-- **THE SCHEDULE OF A REALM**: the returned levels form one binary aggregation tree over
the accepted EndCaps. -/
structure Schedules (accepted : List (EndCap F Hash)) (out : RealmFinalizeOutput F Hash)
    (planner' : RealmGUTAPlanner F Hash) : Prop where
  /-- The final job, whose header is returned, stands alone on the last level. -/
  final : ∃ job, out.jobIds.getLast? = some [job] ∧ job.jobId = out.gutaHeader.jobId
  /-- Every other job is a dependency of exactly one job, and not of itself. -/
  one_parent : ∀ job ∈ out.jobIds.flatten, job.jobId ≠ out.gutaHeader.jobId →
    ∃ p ∈ out.jobIds.flatten, p.jobId ≠ job.jobId ∧ job.jobId ∈ p.metadata.dependencies ∧
      ∀ q ∈ out.jobIds.flatten, job.jobId ∈ q.metadata.dependencies → q = p
  binary : ∀ job ∈ out.jobIds.flatten, job.metadata.dependencies.length = 1 ∨
    job.metadata.dependencies.length = 2
  /-- A dependency that is a planned job is on a strictly lower level. -/
  lower_level : ∀ (a b : Nat) (A B : List (ProvingJob Hash)),
    out.jobIds[a]? = some A → out.jobIds[b]? = some B →
    ∀ child ∈ A, ∀ job ∈ B, child.jobId ∈ job.metadata.dependencies → a < b
  distinct_ids : (out.jobIds.flatten.map (·.jobId)).Nodup
  /-- Reading the dependencies down from the final job gives the accepted EndCaps. -/
  reached : reach (lookup out.jobIds) out.jobIds.flatten.length out.gutaHeader.jobId =
    accepted.map (·.jobId)
  total_jobs : planner'.totalJobs = out.jobIds.flatten.length
  total_proofs : toU64Value out.gutaHeader.header.totalAggregationProofsGenerated =
    out.jobIds.flatten.length

/-- The count in the final header. -/
theorem Finalized.total_proofs (h : Finalized config O start accepted s t fin out planner' s') :
    toU64Value out.gutaHeader.header.totalAggregationProofsGenerated =
      out.jobIds.flatten.length := by
  have hlt := reached_jobs_length_lt h.reached
  have htotal := treeTotal_eq (reached_total h.reached t (mem_singleton_self t)) (by omega)
  have hheader : out.gutaHeader.header.totalAggregationProofsGenerated =
      fromU64Value (t.jobs.length + 1) := by
    rw [h.header]
    cases h.pays with
    | fee input level slot ht =>
      show fromU64Value (toU64Value _ + 1) = _
      rw [← treeTotal_of_topGuta ht, htotal, QFelt64.toU64Value_fromU64Value _ (by omega)]
  rw [hheader, QFelt64.toU64Value_fromU64Value _ (by omega), h.length_eq, length_append,
    length_singleton]

theorem Finalized.schedules (h : Finalized config O start accepted s t fin out planner' s')
    (hids : EndCapIds accepted) : Schedules accepted out planner' := by
  have hnodup : (out.jobIds.flatten.map (·.jobId)).Nodup :=
    h.lists.jobId_perm.nodup_iff.mpr (h.pays.jobId_nodup h.reached)
  have hrootId : (wrap fin t).rootId labels = out.gutaHeader.jobId := by
    rw [h.header]
    rfl
  refine ⟨h.last_eq, ?_, ?_,
    fun a b A B ha hb child hchild job hjob => h.dep_lt hids ha hb hchild hjob,
    hnodup, ?_, ?_, h.total_proofs⟩
  · intro job hjob hroot
    have hnamed := h.lists.named_once h.wired
    rw [AggTree.inputs, h.inputs, hrootId] at hnamed
    obtain ⟨p, hp, hdep, hunique⟩ := exists_unique_parent hnamed hnodup (by
      intro i hi
      obtain ⟨item, hitem, rfl⟩ := mem_map.mp hi
      exact h.endCap_not_job hids hitem) hjob hroot
    refine ⟨p, hp, ?_, hdep, hunique⟩
    -- a job that named itself would be below itself
    intro hself
    obtain ⟨A, hA, hpA⟩ := mem_flatten.mp hp
    obtain ⟨a, ha⟩ := mem_iff_getElem?.mp hA
    exact absurd (h.dep_lt hids ha ha hpA hpA (hself ▸ hdep)) (lt_irrefl a)
  · intro job hjob
    obtain ⟨j, hj, _, hdeps⟩ := h.lists.exists_planned hjob
    rw [hdeps]
    have heach : (wrap fin t).Each
        (fun j _ => (labels.deps j).length = 1 ∨ (labels.deps j).length = 2)
        (fun j _ _ => (labels.deps j).length = 1 ∨ (labels.deps j).length = 2) := by
      refine Each.imp ?_ ?_ h.wired
      · intro j c hdeps
        exact Or.inl (by rw [hdeps]; rfl)
      · intro j l r hdeps
        exact Or.inr (by rw [hdeps]; rfl)
    exact heach.forall_jobs j hj
  · have hheight : (wrap fin t).height ≤ out.jobIds.flatten.length := by
      rw [h.length_eq]
      exact height_le_jobs_length (.wrap fin t)
    rw [← hrootId, AggTree.reach_rootId h.wired ?_ ?_ hheight, AggTree.inputs, h.inputs]
    · rfl
    · intro item hitem
      rw [AggTree.inputs, h.inputs] at hitem
      exact lookup_eq_none (h.endCap_not_job hids hitem)
    · intro j hj
      obtain ⟨job, hjob, hid, hdeps⟩ := h.lists.exists_listed hj
      rw [← hid, ← hdeps]
      exact lookup_of_mem hnodup hjob
  · rw [h.totalJobs, h.length_eq]

/-- **A REALM'S SCHEDULE.**  A finalization that returns an output after any run of
additions returns one aggregation tree over the accepted EndCaps. -/
theorem realm_schedule_is_tree (ext : Externals) (calls : List (RealmCall F Hash))
    {planner planner₁ planner₂ : RealmGUTAPlanner F Hash}
    {tree tree₁ tree₂ : SimpleMemoryMerkleRecorderStore Hash} {accepted : List (EndCap F Hash)}
    (checkpointTree : PsyDashMemoryAppendOnlyMerkleStore Hash) (rewardLevel rewardIndex : Nat)
    {out : RealmFinalizeOutput F Hash} (hcreated : Created planner)
    (hrun : runCalls ext calls planner tree = some (accepted, planner₁, tree₁))
    (hids : EndCapIds accepted) (hbound : accepted.length < 2 ^ 30)
    (hfinal : finalizeWithRewardIds ext checkpointTree rewardLevel rewardIndex planner₁ tree₁ =
      .ok (some out, planner₂, tree₂)) : Schedules accepted out planner₂ := by
  obtain ⟨s₁, t, fin, hfinalized, _⟩ := (hcreated.runCalls hrun hbound).exists_finalized hfinal
  exact hfinalized.schedules hids

/-- The sample realm: three EndCaps, one of them deferred, are scheduled in three jobs. -/
theorem realm_schedule_is_tree_three_endCaps :
    ∃ planner₁ tree₁ out planner₂ tree₂,
      runCalls sampleExternals sampleRealmCalls (samplePlanner [0, 1, 3])
          (sampleUserTree [0, 1, 3]) =
        some ([sampleEndCap 0 0 1, sampleEndCap 1 0 1, sampleEndCap 0 1 2], planner₁, tree₁) ∧
      finalizeWithRewardIds sampleExternals (sampleCheckpointTree [.leaf 1]) 0 0 planner₁ tree₁ =
        .ok (some out, planner₂, tree₂) ∧
      out.jobIds.map List.length = [1, 1, 1] ∧
      Schedules [sampleEndCap 0 0 1, sampleEndCap 1 0 1, sampleEndCap 0 1 2] out planner₂ := by
  obtain ⟨planner₁, tree₁, out, planner₂, tree₂, hrun, hfinal, hlevels⟩ :=
    exists_of_sampleOutput sampleOutput_levels
  refine ⟨planner₁, tree₁, out, planner₂, tree₂, hrun, hfinal, hlevels, ?_⟩
  exact realm_schedule_is_tree sampleExternals sampleRealmCalls _ 0 0 (created_samplePlanner _)
    hrun (by simp [EndCapIds, sampleEndCap]) (by decide) hfinal

end PsyNode.Realm
