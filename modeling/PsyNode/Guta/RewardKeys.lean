/-
PsyNode.Guta.RewardKeys
**KEYS OF THE REWARD TREE** — both planners give their jobs positions of the
reward tree by walking down from the final job.
-/
import PsyNode.Guta.Job
import PsyNode.Lib.TreeWalk

namespace PsyNode.Guta

open Lib.Agg List AggTree

variable {Hash : Type}

/-! ## §1. Positions. -/

/-- The position of the `n`-th child; the `u8` level and the `u64` index wrap. -/
def childKey (key : Nat × Nat) (n : Nat) : Nat × Nat :=
  ((key.1 + 1) % 2 ^ 8, (2 * key.2 + n) % 2 ^ 64)

/-- The position at the end of a way down. -/
theorem foldl_childKey {level index : Nat} (hlevel : level < 2 ^ 8) (hindex : index < 2 ^ 64)
    (w : List Nat) : w.foldl childKey (level, index) = ((level + w.length) % 2 ^ 8,
      (index * 2 ^ w.length + Nat.ofDigits 2 w.reverse) % 2 ^ 64) := by
  induction w using reverseRecOn with
  | nil =>
    show (level, index) = ((level + 0) % 2 ^ 8, (index * 1 + 0) % 2 ^ 64)
    rw [Prod.mk.injEq]
    omega
  | append_singleton w b ih =>
    have hpow : index * 2 ^ (w.length + 1) = 2 * (index * 2 ^ w.length) := by ring
    rw [foldl_append, foldl_cons, foldl_nil, ih, length_append,
      length_singleton, reverse_append, reverse_singleton, singleton_append,
      Nat.ofDigits_cons, hpow]
    simp only [childKey, Prod.mk.injEq]
    omega

/-- A way of at most 64 turns can be read off the position it leads to. -/
theorem foldl_childKey_inj {level index : Nat} (hlevel : level < 2 ^ 8) (hindex : index < 2 ^ 64)
    {w w' : List Nat} (hw : w.length ≤ 64 ∧ ∀ b ∈ w, b < 2) (hw' : w'.length ≤ 64 ∧ ∀ b ∈ w', b < 2)
    (h : w.foldl childKey (level, index) = w'.foldl childKey (level, index)) : w = w' := by
  rw [foldl_childKey hlevel hindex, foldl_childKey hlevel hindex, Prod.mk.injEq] at h
  obtain ⟨hlevels, hindices⟩ := h
  have hlength : w.length = w'.length := by omega
  have hlt : ∀ {v : List Nat}, v.length ≤ 64 ∧ (∀ b ∈ v, b < 2) →
      Nat.ofDigits 2 v.reverse < 2 ^ 64 := by
    intro v hv
    have hpow := Nat.ofDigits_lt_base_pow_length (b := 2) (l := v.reverse) (by omega)
      (fun b hb => hv.2 b (mem_reverse.mp hb))
    rw [length_reverse] at hpow
    exact hpow.trans_le (Nat.pow_le_pow_right (by omega) hv.1)
  have hdigits : Nat.ofDigits 2 w.reverse = Nat.ofDigits 2 w'.reverse := by
    have hleft := hlt hw
    have hright := hlt hw'
    rw [hlength] at hindices
    omega
  refine reverse_injective (Nat.ofDigits_inj_of_len_eq (by omega) (by simpa using hlength)
    ?_ ?_ hdigits)
  · exact fun b hb => hw.2 b (mem_reverse.mp hb)
  · exact fun b hb => hw'.2 b (mem_reverse.mp hb)

/-- Near the top of the tree nothing wraps. -/
theorem childKey_exact {level index : Nat} (hlevel : level + 33 < 2 ^ 8)
    (hindex : (index + 1) * 2 ^ 33 ≤ 2 ^ 64) {w : List Nat} (hw : w.length < 33 ∧ ∀ b ∈ w, b < 2)
    {n : Nat} (hn : n < 2) : childKey (w.foldl childKey (level, index)) n =
      ((w.foldl childKey (level, index)).1 + 1, 2 * (w.foldl childKey (level, index)).2 + n) := by
  have hvalue := Nat.ofDigits_lt_base_pow_length (b := 2) (l := w.reverse) (by omega)
    (fun b hb => hw.2 b (mem_reverse.mp hb))
  rw [length_reverse] at hvalue
  have hroom : 2 * ((index + 1) * 2 ^ w.length) ≤ 2 ^ 64 := by
    calc 2 * ((index + 1) * 2 ^ w.length) = (index + 1) * 2 ^ (w.length + 1) := by ring
      _ ≤ (index + 1) * 2 ^ 33 :=
          Nat.mul_le_mul_left _ (Nat.pow_le_pow_right (by omega) (by omega))
      _ ≤ 2 ^ 64 := hindex
  rw [Nat.add_mul, Nat.one_mul] at hroom
  rw [foldl_childKey (by omega) (by omega)]
  simp only [childKey, Prod.mk.injEq]
  omega

/-! ## §2. Writing keys. -/

/-- The position written into a job. -/
def PsyProvingJobMetadataWithJobId.rewardKey (job : ProvingJob Hash) : Nat × Nat :=
  (job.metadata.rewardTreeNodeLevel, job.metadata.rewardTreeNodeIndex)

variable (jobId : QProvingJobDataID)

/-- A job after a key was written under an id. -/
def rekey (key : Nat × Nat) (job : ProvingJob Hash) : ProvingJob Hash :=
  if job.jobId = jobId then job.updateLevelAndIndex key.1 key.2 else job

/-- A job after a number of such writes. -/
def rekeyAll (writes : List (QProvingJobDataID × (Nat × Nat)))
    (job : ProvingJob Hash) : ProvingJob Hash :=
  writes.foldl (fun job w => rekey w.1 w.2 job) job

@[simp] theorem rekey_jobId (key : Nat × Nat) (job : ProvingJob Hash) :
    (rekey jobId key job).jobId = job.jobId := by
  unfold rekey
  split
  next => rfl
  next => rfl

@[simp] theorem rekey_dependencies (key : Nat × Nat) (job : ProvingJob Hash) :
    (rekey jobId key job).metadata.dependencies = job.metadata.dependencies := by
  unfold rekey
  split
  next => rfl
  next => rfl

@[simp] theorem rekeyAll_jobId (writes : List (QProvingJobDataID × (Nat × Nat)))
    (job : ProvingJob Hash) : (rekeyAll writes job).jobId = job.jobId := by
  induction writes generalizing job with
  | nil => rfl
  | cons w writes ih => exact (ih _).trans (rekey_jobId _ _ _)

variable {writes : List (QProvingJobDataID × (Nat × Nat))}

variable {job : ProvingJob Hash}

theorem rekeyAll_of_not_mem (h : job.jobId ∉ writes.map Prod.fst) : rekeyAll writes job = job := by
  induction writes with
  | nil => rfl
  | cons w writes ih =>
    rw [map_cons, mem_cons, not_or] at h
    show rekeyAll writes (rekey w.1 w.2 job) = job
    rw [rekey, if_neg h.1, ih h.2]

/-- With one write for an id, the job has that key afterwards. -/
theorem rekeyAll_of_mem (hnodup : (writes.map Prod.fst).Nodup) {key : Nat × Nat}
    (h : (job.jobId, key) ∈ writes) :
    rekeyAll writes job = job.updateLevelAndIndex key.1 key.2 := by
  induction writes generalizing job with
  | nil => cases h
  | cons w writes ih =>
    rw [map_cons, nodup_cons] at hnodup
    show rekeyAll writes (rekey w.1 w.2 job) = _
    rcases mem_cons.mp h with rfl | h
    · rw [rekey, if_pos rfl]
      exact rekeyAll_of_not_mem hnodup.1
    · have hne : job.jobId ≠ w.1 := by
        intro heq
        exact hnodup.1 (heq ▸ mem_map_of_mem (f := Prod.fst) h)
      rw [rekey, if_neg hne]
      exact ih hnodup.2 h

/-! ## §3. The keys of a schedule. -/

/-- **THE REWARD KEYS OF A SCHEDULE** that starts at the position `(level, index)`. -/
structure RewardKeyed (jobs : List (ProvingJob Hash))
    (rootId : QProvingJobDataID) (level index : Nat) : Prop where
  distinct : (jobs.map (·.rewardKey)).Nodup
  root : ∃ job ∈ jobs, job.jobId = rootId ∧ job.rewardKey = (level, index)
  /-- The `n`-th dependency of a job, if it is a job, is its `n`-th child. -/
  child : ∀ job ∈ jobs, ∀ n d, job.metadata.dependencies[n]? = some d →
    ∀ dep ∈ jobs, dep.jobId = d → dep.rewardKey = childKey job.rewardKey n
  /-- From a position near the top, levels and indices are those of the numbers. -/
  no_wrap : level + 33 < 2 ^ 8 → (index + 1) * 2 ^ 33 ≤ 2 ^ 64 →
    ∀ job ∈ jobs, ∀ n < 2, childKey job.rewardKey n =
      (job.rewardKey.1 + 1, 2 * job.rewardKey.2 + n)

/-- An id is a dependency of one of the jobs, at the position `key` below it. -/
def ConsumedAt (jobs : List (ProvingJob Hash)) (jobId : QProvingJobDataID)
    (key : Nat × Nat) : Prop :=
  ∃ job ∈ jobs, ∃ n, job.metadata.dependencies[n]? = some jobId ∧ key = childKey job.rewardKey n

section
variable {I J : Type} {L : Labels I J QProvingJobDataID} {t : AggTree I J} {key : Nat × Nat}

/-- The jobs are planned ones, as far as ids and dependencies say. -/
def Lists (L : Labels I J QProvingJobDataID) (jobs : List (ProvingJob Hash)) (js : List J) : Prop :=
  (jobs.map (fun job => (job.jobId, job.metadata.dependencies))).Perm
    (js.map (fun j => (L.jobId j, L.deps j)))

section
variable {jobs : List (ProvingJob Hash)} {js : List J}

theorem Lists.jobId_perm (h : Lists L jobs js) : (jobs.map (·.jobId)).Perm (js.map L.jobId) := by
  have hfst := h.map Prod.fst
  rwa [map_map, map_map] at hfst

theorem Lists.exists_planned (h : Lists L jobs js) (hjob : job ∈ jobs) :
    ∃ j ∈ js, job.jobId = L.jobId j ∧ job.metadata.dependencies = L.deps j := by
  obtain ⟨j, hj, heq⟩ := mem_map.mp (h.mem_iff.mp (mem_map_of_mem hjob))
  exact ⟨j, hj, (congrArg Prod.fst heq).symm, (congrArg Prod.snd heq).symm⟩

theorem Lists.exists_listed (h : Lists L jobs js) {j : J} (hj : j ∈ js) :
    ∃ job ∈ jobs, job.jobId = L.jobId j ∧ job.metadata.dependencies = L.deps j := by
  obtain ⟨job, hjob, heq⟩ := mem_map.mp (h.mem_iff.mpr (mem_map_of_mem hj))
  exact ⟨job, hjob, congrArg Prod.fst heq, congrArg Prod.snd heq⟩

/-- **EVERY NODE IS NAMED ONCE** by the root or a dependency. -/
theorem Lists.named_once (h : Lists L jobs t.jobs) (hwired : t.Wired L) :
    (t.rootId L :: jobs.flatMap (·.metadata.dependencies)).Perm
      (t.inputs.map L.inputId ++ jobs.map (·.jobId)) := by
  have hdeps : (jobs.flatMap (·.metadata.dependencies)).Perm (t.jobs.flatMap L.deps) := by
    have hperm := h.flatMap_right Prod.snd
    rwa [flatMap_map, flatMap_map] at hperm
  exact (hdeps.cons _).trans
    ((rootId_cons_deps_perm hwired).trans (h.jobId_perm.symm.append_left _))

end

/-- The keys a walk over the tree writes under the ids of jobs. -/
def keyWrites (L : Labels I J QProvingJobDataID) (t : AggTree I J) (key : Nat × Nat) :
    List (QProvingJobDataID × (Nat × Nat)) :=
  (t.jobVisits childKey key).map (fun v => (L.jobId v.1, v.2))

/-- The jobs of a state after the visits of a tree, each of which writes its key under the
id of the visited job. -/
theorem levels_foldl_visits {S : Type} (levels : S → List (List (ProvingJob Hash)))
    {visit : I ⊕ J → Nat × Nat → S → S} (hinput : ∀ i k s, levels (visit (.inl i) k s) = levels s)
    (hjob : ∀ j k s, levels (visit (.inr j) k s) = (levels s).map (map (rekey (L.jobId j) k)))
    (t : AggTree I J) (key : Nat × Nat) (s : S) :
    levels ((t.visits childKey key).foldl (fun s v => visit v.1 v.2 s) s) =
      (levels s).map (map (rekeyAll (keyWrites L t key))) := by
  unfold keyWrites jobVisits
  generalize t.visits childKey key = vs
  induction vs generalizing s with
  | nil =>
    refine ((map_congr_left ?_).trans (map_id _)).symm
    exact fun jobs _ => map_id jobs
  | cons v vs ih =>
    obtain ⟨node, k⟩ := v
    rw [foldl_cons, ih]
    cases node with
    | inl i =>
      rw [hinput]
      rfl
    | inr j =>
      rw [hjob, map_map]
      refine map_congr_left ?_
      intro jobs _
      exact map_map

theorem keyWrites_nodup (hnodup : (t.jobs.map L.jobId).Nodup) :
    ((keyWrites L t key).map Prod.fst).Nodup := by
  have hperm := (t.jobVisits_perm childKey key).map L.jobId
  rw [map_map] at hperm
  rw [keyWrites, map_map]
  exact hperm.nodup_iff.mpr hnodup

variable {k : Nat × Nat}

theorem mem_jobs_of_visit {j : J} (h : (j, k) ∈ t.jobVisits childKey key) : j ∈ t.jobs :=
  (t.jobVisits_perm childKey key).mem_iff.mp (mem_map_of_mem (f := Prod.fst) h)

/-- The job of a visited one has the key of the visit. -/
theorem rekeyAll_of_visit (hnodup : (t.jobs.map L.jobId).Nodup) {j : J}
    (h : (j, k) ∈ t.jobVisits childKey key) (hid : job.jobId = L.jobId j) :
    rekeyAll (keyWrites L t key) job = job.updateLevelAndIndex k.1 k.2 :=
  rekeyAll_of_mem (keyWrites_nodup hnodup) (hid ▸ mem_map.mpr ⟨(j, k), h, rfl⟩)

/-- Jobs with the same id are visited with the same key. -/
theorem key_eq_of_jobId_eq (hnodup : (t.jobs.map L.jobId).Nodup) {p q : J} {k k' : Nat × Nat}
    (hp : (p, k) ∈ t.jobVisits childKey key) (hq : (q, k') ∈ t.jobVisits childKey key)
    (hid : L.jobId p = L.jobId q) : k = k' := by
  obtain rfl := inj_on_of_nodup_map hnodup (mem_jobs_of_visit hp) (mem_jobs_of_visit hq) hid
  have hjobs := (t.jobVisits_perm childKey key).nodup_iff.mpr (List.Nodup.of_map _ hnodup)
  exact congrArg Prod.snd (inj_on_of_nodup_map hjobs hp hq rfl)

/-- What a visited node is, given that its id is a job's. -/
theorem exists_jobVisit (hinputs : ∀ i ∈ t.inputs, L.inputId i ∉ t.jobs.map L.jobId)
    {node : I ⊕ J} (hnode : (node, k) ∈ t.visits childKey key)
    (hid : nodeId L node ∈ t.jobs.map L.jobId) :
    ∃ q, (q, k) ∈ t.jobVisits childKey key ∧ nodeId L node = L.jobId q := by
  cases node with
  | inl i =>
    have hvisit := (mem_inputVisits childKey).mpr hnode
    have hmem : i ∈ t.inputs := by
      rw [← t.inputVisits_fst childKey key]
      exact mem_map_of_mem (f := Prod.fst) hvisit
    exact absurd hid (hinputs i hmem)
  | inr q => exact ⟨q, (mem_jobVisits childKey).mpr hnode, rfl⟩

/-- The ways down a tree that is not too high. -/
theorem words_short (hheight : t.height ≤ 32) {w : List Nat} (hw : w ∈ t.words) :
    w.length < 33 ∧ ∀ b ∈ w, b < 2 := by
  obtain ⟨hlength, hbits⟩ := length_le_of_mem_words hw
  exact ⟨by omega, hbits⟩

variable {level index : Nat} (hlevel : level < 2 ^ 8) (hindex : index < 2 ^ 64)
  (hheight : t.height ≤ 32)

include hlevel hindex hheight in
theorem jobVisits_childKey_nodup : ((t.jobVisits childKey (level, index)).map Prod.snd).Nodup := by
  refine jobVisits_keys_nodup childKey ?_
  intro w hw w' hw' heq
  have hshort := words_short hheight hw
  have hshort' := words_short hheight hw'
  exact foldl_childKey_inj hlevel hindex ⟨by omega, hshort.2⟩ ⟨by omega, hshort'.2⟩ heq

variable {planned : List (ProvingJob Hash)} (hperm : Lists L planned t.jobs)
  (hnodup : (t.jobs.map L.jobId).Nodup)
include hperm hnodup

/-- The jobs of a list after the keys of a tree were written, as far as ids and
dependencies say. -/
theorem exists_visit_of_mem {job : ProvingJob Hash}
    (hjob : job ∈ planned.map (rekeyAll (keyWrites L t key))) :
    ∃ j, (j, job.rewardKey) ∈ t.jobVisits childKey key ∧ job.jobId = L.jobId j ∧
      job.metadata.dependencies = L.deps j := by
  obtain ⟨x, hx, rfl⟩ := mem_map.mp hjob
  obtain ⟨j, hj, hid, hdeps⟩ := hperm.exists_planned hx
  obtain ⟨v, hv, rfl⟩ := mem_map.mp ((t.jobVisits_perm childKey key).mem_iff.mpr hj)
  rw [rekeyAll_of_visit hnodup hv hid]
  exact ⟨v.1, hv, hid, hdeps⟩

include hlevel hindex hheight in
/-- **THE KEYS OF A WALK.**  Jobs into which the keys of a tree's visits were written have
the keys of the tree. -/
theorem RewardKeyed.of_visits (hwired : t.Wired L) (hroot : t.rootId L ∈ t.jobs.map L.jobId)
    (hinputs : ∀ i ∈ t.inputs, L.inputId i ∉ t.jobs.map L.jobId) :
    RewardKeyed (planned.map (rekeyAll (keyWrites L t (level, index)))) (t.rootId L) level
      index := by
  have hvisit := @exists_visit_of_mem Hash I J L t (level, index) planned hperm hnodup
  have hidPerm := hperm.jobId_perm
  have hids : ((planned.map (rekeyAll (keyWrites L t (level, index)))).map (·.jobId)).Nodup := by
    rw [map_map]
    simpa only [Function.comp_def, rekeyAll_jobId] using hidPerm.nodup_iff.mpr hnodup
  refine ⟨?_, ?_, ?_, ?_⟩
  · refine (List.Nodup.of_map _ hids).map_on ?_
    intro x hx y hy hxy
    obtain ⟨p, hp, hpid, _⟩ := hvisit hx
    obtain ⟨q, hq, hqid, _⟩ := hvisit hy
    rw [← hxy] at hq
    have hpq := inj_on_of_nodup_map (jobVisits_childKey_nodup hlevel hindex hheight) hp hq rfl
    obtain rfl : p = q := congrArg Prod.fst hpq
    exact inj_on_of_nodup_map hids hx hy (hpid.trans hqid.symm)
  · obtain ⟨node, hnode, hnodeId⟩ := exists_root_visit childKey L t (level, index)
    obtain ⟨q, hq, hqid⟩ := exists_jobVisit hinputs hnode (hnodeId ▸ hroot)
    obtain ⟨x, hx, hxid⟩ := mem_map.mp (hidPerm.mem_iff.mpr hroot)
    have hmem := mem_map_of_mem (f := rekeyAll (keyWrites L t (level, index))) hx
    have hid := (rekeyAll_jobId (keyWrites L t (level, index)) x).trans hxid
    obtain ⟨p, hp, hpid, _⟩ := hvisit hmem
    refine ⟨_, hmem, hid, key_eq_of_jobId_eq hnodup hp hq ?_⟩
    rw [← hpid, hid, hnodeId, hqid]
  · intro x hx n d hd dep hdep hdid
    obtain ⟨p, hp, hpid, hpdeps⟩ := hvisit hx
    obtain ⟨p', hp', hpid', _⟩ := hvisit hdep
    rw [hpdeps] at hd
    obtain ⟨node, hnode, hnodeId⟩ :=
      visits_dep childKey hwired hd ((mem_jobVisits childKey).mp hp)
    have hjob : nodeId L node ∈ t.jobs.map L.jobId := by
      rw [← hnodeId, ← hdid, ← hidPerm.mem_iff]
      obtain ⟨y, hy, rfl⟩ := mem_map.mp hdep
      rw [rekeyAll_jobId]
      exact mem_map_of_mem (f := (·.jobId)) hy
    obtain ⟨q, hq, hqid⟩ := exists_jobVisit hinputs hnode hjob
    refine key_eq_of_jobId_eq hnodup hp' hq ?_
    rw [← hpid', hdid, hnodeId, hqid]
  · intro hlevel' hindex' x hx n hn
    obtain ⟨p, hp, _⟩ := hvisit hx
    have hkey : x.rewardKey ∈ (t.visits childKey (level, index)).map Prod.snd :=
      mem_map_of_mem (f := Prod.snd) ((mem_jobVisits childKey).mp hp)
    rw [visits_keys] at hkey
    obtain ⟨w, hw, hwkey⟩ := mem_map.mp hkey
    rw [← hwkey]
    exact childKey_exact hlevel' hindex' (words_short hheight hw) hn

/-- **WHERE AN INPUT IS CONSUMED.**  An input is consumed at the positions at which the
walk meets its id. -/
theorem consumedAt_iff (hwired : t.Wired L) (hroot : t.rootId L ∈ t.jobs.map L.jobId) {i : I}
    (hi : L.inputId i ∉ t.jobs.map L.jobId) :
    ConsumedAt (planned.map (rekeyAll (keyWrites L t key))) (L.inputId i) k ↔
      ∃ i', (i', k) ∈ t.inputVisits childKey key ∧ L.inputId i' = L.inputId i := by
  constructor
  · intro h
    obtain ⟨job, hjob, n, hdep, rfl⟩ := h
    obtain ⟨p, hp, _, hpdeps⟩ := exists_visit_of_mem hperm hnodup hjob
    rw [hpdeps] at hdep
    obtain ⟨node, hnode, hnodeId⟩ :=
      visits_dep childKey hwired hdep ((mem_jobVisits childKey).mp hp)
    cases node with
    | inl i' => exact ⟨i', (mem_inputVisits childKey).mpr hnode, hnodeId.symm⟩
    | inr q =>
      have hq := mem_jobs_of_visit ((mem_jobVisits childKey).mpr hnode)
      exact absurd (hnodeId ▸ mem_map_of_mem (f := L.jobId) hq) hi
  · intro h
    obtain ⟨i', hvisit, hid⟩ := h
    rcases visits_parent childKey hwired ((mem_inputVisits childKey).mp hvisit)
      with ⟨hrootId, _⟩ | ⟨p, kp, n, hp, hdep, hk⟩
    · -- the root is a job
      rw [hrootId] at hroot
      have hjob : L.inputId i' ∈ t.jobs.map L.jobId := hroot
      exact absurd (hid ▸ hjob) hi
    · -- the job that was planned for the parent has its key
      have hvisited := (mem_jobVisits childKey).mpr hp
      obtain ⟨x, hx, hxid, hxdeps⟩ := hperm.exists_listed (mem_jobs_of_visit hvisited)
      refine ⟨_, mem_map_of_mem hx, n, ?_⟩
      rw [rekeyAll_of_visit hnodup hvisited hxid, ← hid]
      exact ⟨hxdeps ▸ hdep, hk⟩

end

end PsyNode.Guta
