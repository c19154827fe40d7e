/-
PsyNode.Realm.Finalize
**FINALIZATION** — what is left of the counter becomes one tree, and the fee job
goes on top of it.
-/
import PsyNode.Realm.Names
import PsyNode.Realm.Rewards
import PsyNode.Realm.Run

namespace PsyNode.Realm

open Merkle Guta Recorder Store Lib.Agg Lib List AggTree JobTable Ends
open Coordinator (unkeyed sampleCheckpointTree)
open RealmGUTAPlanner

variable {F Hash : Type} {table : JobTable F Hash} {ws rest : List (Option (PlanTree F Hash))}
  {g root : JobHeader F Hash} {c t : PlanTree F Hash} {k n : Nat}

/-! ## §1. The slots. -/

/-- What slot `i` holds while stragglers are promoted. -/
def Risen (i : Nat) (t : PlanTree F Hash) : Prop := 0 < t.height ∧ ∀ k ∈ t.jobs, k.level ≤ i

theorem carries_risen : Carries (Risen : Nat → PlanTree F Hash → Prop) where
  height_pos := fun h => h.1
  level_le := fun h => h.2
  pair := by
    intro i l r j hl hr hj
    exact ⟨Nat.succ_pos _, pair_level_le hl.2 hr.2 hj⟩

/-- The search over levels finds the lowest occupied slot. -/
theorem firstStraggler_lowest (hws : ws = replicate n none ++ some t :: rest)
    (hg : topGuta t = some g) (k : Nat) :
    firstStraggler (ws.map (fun w => w.bind topGuta)) k = some (k + n, g) := by
  subst hws
  induction n generalizing k with
  | zero => simp [firstStraggler, hg]
  | succ n ih =>
    rw [show k + (n + 1) = k + 1 + n by omega]
    exact ih (k + 1)

theorem firstStraggler_replicate_none (n k : Nat) : firstStraggler
      ((replicate n (none : Option (PlanTree F Hash))).map (fun w => w.bind topGuta)) k =
      none := by
  induction n generalizing k with
  | zero => rfl
  | succ n ih => exact ih (k + 1)

/-- `find_next_straggler_level` from a level on: nothing, or the lowest tree there. -/
theorem findNextStraggler_cases {P : Nat → PlanTree F Hash → Prop} (hP : Carries P)
    {p ws : List (Option (PlanTree F Hash))} (hwait : Waiting table 0 (p ++ ws))
    (hlen : p.length = k) (hslots : SlotsOf P k ws) :
    table.findNextStraggler k = none ∧ occupied ws = [] ∨
      ∃ n t g rest, ws = replicate n none ++ some t :: rest ∧ P (k + n) t ∧
        SlotsOf P (k + n + 1) rest ∧ topGuta t = some g ∧
        table.findNextStraggler k = some (k + n, g) := by
  have hdrop : table.findNextStraggler k =
      firstStraggler (ws.map (fun w => w.bind topGuta)) k := by
    rw [findNextStraggler, hwait, replicate_zero, nil_append, map_append,
      drop_left' (by rw [length_map, hlen])]
  rw [hdrop]
  rcases exists_lowest ws with ⟨hnil, hws⟩ | ⟨n, t, rest, hws⟩
  · left
    rw [hws, firstStraggler_replicate_none, occupied_replicate_none]
    exact ⟨rfl, rfl⟩
  · right
    rw [hws, slotsOf_replicate_append] at hslots
    obtain ⟨ht, hrest⟩ := hslots
    obtain ⟨g, hg⟩ := exists_topGuta (hP.height_pos ht)
    exact ⟨n, t, g, rest, hws, ht, hrest, hg, firstStraggler_lowest hws hg k⟩

/-- Taking the tree out of slot `n`, below which all slots are empty. -/
theorem Waiting.take_lowest (h : Waiting table 0 (replicate n none ++ some t :: rest)) :
    table.jobStragglers.set n none =
      replicate (n + 1) none ++ rest.map (fun w => w.bind topGuta) := by
  have hstragglers : table.jobStragglers =
      replicate n none ++ (some t :: rest).map (fun w => w.bind topGuta) := by
    rw [h, replicate_zero, nil_append, map_append, map_replicate]
    rfl
  rw [hstragglers, set_append_right _ _ (by simp), replicate_succ', append_assoc]
  simp

/-! ## §2. The level above all jobs. -/

theorem lt_freshLevel {levels : List (List (ProvingJob Hash))}
    (h : levels.getD k [] ≠ []) : k < freshLevel levels := by
  induction levels generalizing k with
  | nil => exact absurd rfl h
  | cons jobs levels ih =>
    rw [freshLevel]
    cases k with
    | zero =>
      rw [getD_cons_zero] at h
      split
      next => exact Nat.one_pos
      next => exact Nat.succ_pos _
    | succ k =>
      have hlt := ih h
      rw [if_neg (by omega)]
      omega

/-- Leaving out empty levels and reward keys commute. -/
theorem filter_ne_nil_unkeyed (levels : List (List (ProvingJob Hash))) :
    (levels.filter (· ≠ [])).map (map unkeyed) =
      (levels.map (map unkeyed)).filter (· ≠ []) := by
  rw [filter_map]
  refine congrArg (map _) (filter_congr ?_)
  simp

variable {j fin : PlannedJob F Hash} {js : List (PlannedJob F Hash)}

/-- The fresh level is above all planned jobs. -/
theorem Planned.level_lt_freshLevel (h : Planned table js)
    (hlevels : ∀ j ∈ js, j.level < maxRealmProvingLevels) :
    ∀ j ∈ js, j.level < freshLevel table.plannedJobs := by
  intro j hj
  refine lt_freshLevel ?_
  rw [h.plannedJobs, getD_eq_getElem?_getD, levelTable_getElem? _ _ _ (hlevels j hj),
    Option.getD_some]
  refine ne_nil_of_mem (mem_map_of_mem (mem_filter.mpr ⟨hj, ?_⟩))
  simp [labels]

/-- A job on the fresh level is alone there. -/
theorem fits_freshLevel (h : Planned table js) (hlevels : ∀ k ∈ js, k.level < maxRealmProvingLevels)
    (hlevel : j.level = freshLevel table.plannedJobs) (hslot : j.slot = 0)
    (hlt : j.level < maxRealmProvingLevels) : Fits js js j := by
  have habove : ∀ k ∈ js, k.level < j.level := by
    intro k hk
    rw [hlevel]
    exact h.level_lt_freshLevel hlevels k hk
  refine ⟨?_, habove, hlt⟩
  rw [hslot, eq_comm, length_eq_zero_iff, filter_eq_nil_iff]
  intro k hk
  have := habove k hk
  simpa using this.ne

/-! ## §3. Promotions. -/

variable [QFelt64 F] [MerkleZeroHasher Hash] [DecidableEq Hash] [HashTo4Felts F Hash]
  [FieldQHasher F Hash] {config : RealmPlannerConfig Hash}
  {O : RecorderStore Hash → RecorderStore Hash → Prop} {start s : RecorderStore Hash}
  {accepted : List (EndCap F Hash)}

variable (config O start accepted) in
/-- The plan while stragglers are promoted: a counter of trees of any shape. -/
structure Merging (table : JobTable F Hash) (s : RecorderStore Hash)
    (ws : List (Option (PlanTree F Hash))) : Prop where
  length : ws.length = maxRealmProvingLevels
  waiting : Waiting table 0 ws
  slots : SlotsOf Risen 0 ws
  planned : Planned table (stackJobs (occupied ws))
  counted : Counted table
  inputs : stackInputs (occupied ws) = accepted
  reached : (machine config O).Reached start (occupied ws) s

/-- A counter without a waiting EndCap. -/
theorem Counter.merging (h : Counter config O start accepted table none s ws) :
    Merging config O start accepted table s ws := by
  have hstack : stack ws none = occupied ws := append_nil _
  have hinputs := h.inputs
  have hreached := h.reached
  rw [hstack] at hinputs hreached
  refine ⟨h.length, h.waiting, ?_, h.planned, h.counted, hinputs, hreached⟩
  refine h.slots.imp ?_
  intro i t ht
  exact ⟨carries_full.height_pos ht, ht.2⟩

/-- A job that was inserted above the slots it came from. -/
theorem Inserted.merging {rest ws' : List (Option (PlanTree F Hash))}
    (h : Inserted config O start s Risen k rest c table ws')
    (hlen : k + rest.length = maxRealmProvingLevels)
    (hinputs : stackInputs (occupied rest ++ [c]) = accepted) :
    Merging config O start accepted table s (replicate k none ++ ws') := by
  have hocc := occupied_replicate_append k ws'
  refine ⟨?_, ?_, ?_, ?_, h.counted, ?_, ?_⟩
  · rw [length_append, length_replicate, h.length, hlen]
  · rw [Waiting, h.waiting, replicate_zero, nil_append, map_append, map_replicate]
    rfl
  · rw [slotsOf_replicate_append, Nat.zero_add]
    exact h.slots
  · rw [hocc]
    exact h.planned
  · rw [hocc, h.inputs, hinputs]
  · rw [hocc]
    exact h.reached

/-- **ONE PROMOTION.**  Two trees from the slots up to `k` are joined by a job on the next level:
what a promotion leaves, if it fits. -/
theorem insertJobAtLevel_merging {l r : PlanTree F Hash} {s₁ : RecorderStore Hash}
    {stragglers : List (Option (JobHeader F Hash))}
    (hlevel : j.level = k + 1) (hslot : j.slot = table.jobLevelCounts.getD (k + 1) 0)
    (hlen : k + 1 + rest.length = maxRealmProvingLevels)
    (hwait : Waiting { table with jobStragglers := stragglers } (k + 1) rest)
    (hrest : SlotsOf Risen (k + 1) rest) (hl : ∀ i ∈ l.jobs, i.level ≤ k)
    (hr : ∀ i ∈ r.jobs, i.level ≤ k)
    (hplanned : Planned table (stackJobs (occupied rest ++ [l, r]))) (hcounted : Counted table)
    (hinputs : stackInputs (occupied rest ++ [l, r]) = accepted)
    (hreached : (machine config O).Reached start (occupied rest ++ [l, r]) s)
    (hpairs : Pairs config s l r j s₁) :
    EndsIn (fun _ table' => ∃ ws, Merging config O start accepted table' s₁ ws ∧
        (occupied ws).length ≤ (occupied rest).length + 1)
      (fun e _ => e ≠ .doesNotReturn)
      (insertJobAtLevel config.uniquePendingId
        (saveWitness { table with jobStragglers := stragglers } j.metadata.jobId j.witness) j.guta
        (k + 1) j.metadata) := by
  have hc : Risen (k + 1) (.pair j l r) := ⟨Nat.succ_pos _, pair_level_le hl hr hlevel⟩
  have habove : ∀ i ∈ l.jobs ++ r.jobs, i.level < k + 1 :=
    fun i hi => Nat.lt_succ_of_le ((mem_append.mp hi).elim (hl i) (hr i))
  rw [← hlevel] at hslot hlen hwait hrest hc habove ⊢
  refine (insertJobAtLevel_ends carries_risen hlen hwait hrest hc (hplanned.counters _ _) hcounted
    hslot habove hreached hpairs).imp ?_ (fun _ _ herr => herr.2.1)
  rintro _ table' ⟨ws', hins⟩
  refine ⟨replicate j.level none ++ ws', hins.merging hlen ?_, ?_⟩
  · rw [← hinputs]
    simp [stackInputs, AggTree.inputs]
  · rw [occupied_replicate_append]
    exact hins.occupied_le

variable {item : EndCap F Hash}

/-- The waiting EndCap joins the lowest tree. -/
theorem Counter.join_lowest {s₁ : RecorderStore Hash} {rightDmp : DeltaMerkleProofCore Hash}
    (h : Counter config O start accepted table (some item) s ws) (cpTree : AppendOnlyStore Hash)
    (hws : ws = replicate n none ++ some t :: rest) (ht : Full n t)
    (hrest : SlotsOf Full (n + 1) rest) (hg : topGuta t = some g)
    (hright : config.writeEndCap s item = (s₁, rightDmp)) (j : PlannedJob F Hash)
    (hj : j = leftGutaRightEndCapJob config cpTree g item rightDmp (n + 1)
      (table.jobLevelCounts.getD (n + 1) 0)) :
    EndsIn (fun _ table' => ∃ ws', Merging config O start accepted table' s₁ ws')
      (fun e _ => e ≠ .doesNotReturn)
      (insertJobAtLevel config.uniquePendingId
        (saveWitness { table with jobStragglers := table.jobStragglers.set n none }
          j.metadata.jobId j.witness) j.guta (n + 1) j.metadata) := by
  subst hj
  have hlen := h.length
  have hocc : occupied ws = occupied rest ++ [t] := by
    rw [hws, occupied_replicate_append]
    rfl
  have hwait := (hws ▸ h.waiting : Waiting table 0 _).take_lowest
  rw [hws, length_append, length_replicate, length_cons] at hlen
  have hstack : stack ws (some item) = occupied rest ++ [t, .input item] := by
    simp [stack, hocc]
  have hjobs : stackJobs (occupied ws) = stackJobs (occupied rest ++ [t, .input item]) := by
    rw [hocc]
    simp [stackJobs, jobs]
  have hrisen : SlotsOf Risen (n + 1) rest :=
    hrest.imp (fun i t ht => ⟨carries_full.height_pos ht, ht.2⟩)
  refine (insertJobAtLevel_merging rfl rfl (by omega) hwait hrisen ht.2 (by simp [jobs])
    (hjobs ▸ h.planned) h.counted (hstack ▸ h.inputs) (hstack ▸ h.reached)
    (Pairs.leftGutaRightEndCap cpTree (n + 1) _ hg hright)).imp ?_ (fun _ _ herr => herr)
  rintro _ table' ⟨ws', hmerging, _⟩
  exact ⟨ws', hmerging⟩

variable {planner : RealmGUTAPlanner F Hash} (ext : Externals)
  (cpTree : AppendOnlyStore Hash)
  (hconfig : planner.toRealmPlannerConfig = config)

include hconfig in
/-- **`finalize_promote_end_cap_stragglers`** joins the waiting EndCap with the lowest tree;
if there is none, it is the only EndCap. -/
theorem finalizePromoteEndCapStragglers_ends
    (hc : Counter config O start accepted planner.toJobTable planner.endCapStraggler s ws) :
    Ends (fun res => res.2.1.toRealmPlannerConfig = config ∧
        ((res.1 = none ∧ ∃ ws', Merging config O start accepted res.2.1.toJobTable res.2.2 ws') ∨
          ∃ item, res.1 = some item ∧ accepted = [item] ∧ Planned res.2.1.toJobTable [] ∧
            (machine config O).Reached start [.input item] res.2.2))
      (· ≠ .doesNotReturn) (finalizePromoteEndCapStragglers cpTree planner s) := by
  unfold finalizePromoteEndCapStragglers
  cases hstraggler : planner.endCapStraggler with
  | none =>
    rw [hstraggler] at hc
    exact ⟨hconfig, Or.inl ⟨rfl, ws, hc.merging⟩⟩
  | some item =>
    rw [hstraggler] at hc
    dsimp only
    rcases findNextStraggler_cases carries_full (k := 0) (p := []) hc.waiting rfl hc.slots with
      ⟨hfind, hnil⟩ | ⟨n, t, g, rest, hws, ht, hrest, hg, hfind⟩
    · have hstack : stack ws (some item) = [.input item] := by simp [stack, hnil]
      have hinputs := hc.inputs
      have hreached := hc.reached
      have hplanned := hc.planned
      rw [hstack] at hinputs hreached
      rw [hnil] at hplanned
      rw [hfind]
      exact ⟨hconfig, Or.inr ⟨item, rfl, hinputs.symm, hplanned, hreached⟩⟩
    · rw [Nat.zero_add] at hfind ht hrest
      rw [hfind]
      dsimp only
      rcases hright : planner.writeEndCap s item with ⟨s₁, rightDmp⟩
      dsimp only
      have hright' : config.writeEndCap s item = (s₁, rightDmp) := by rw [← hconfig, hright]
      have hjoin := hc.join_lowest cpTree hws ht hrest hg hright' _ rfl
      rw [← hconfig] at hjoin ⊢
      split
      next heq => exact hjoin.of_eq heq
      next heq => exact ⟨rfl, Or.inl ⟨rfl, hjoin.of_eq heq⟩⟩

/-- **ONE ROUND** of `finalize_promote_guta_stragglers`: the two lowest trees join, the
higher one left. -/
theorem Merging.join_lowest {m : Nat} {l r : PlanTree F Hash} {left right : JobHeader F Hash}
    (h : Merging config O start accepted table s ws)
    (hws : ws = replicate m none ++ some r :: (replicate n none ++ some l :: rest))
    (hr : Risen m r) (hl : Risen (m + 1 + n) l) (hrest : SlotsOf Risen (m + 1 + n + 1) rest)
    (hleft : topGuta l = some left) (hright : topGuta r = some right) (j : PlannedJob F Hash)
    (hj : j = linearJob config.uniquePendingId left right (m + 1 + n + 1)
      (table.jobLevelCounts.getD (m + 1 + n + 1) 0)) :
    EndsIn (fun _ table' => ∃ ws', Merging config O start accepted table' s ws' ∧
        (occupied ws').length < (occupied ws).length)
      (fun e _ => e ≠ .doesNotReturn)
      (insertJobAtLevel config.uniquePendingId
        (saveWitness { table with
          jobStragglers := (table.jobStragglers.set (m + 1 + n) none).set m none }
          j.metadata.jobId j.witness) j.guta (m + 1 + n + 1) j.metadata) := by
  subst hj
  have hlen := h.length
  have hocc : occupied ws = occupied rest ++ [l, r] := by
    rw [hws, occupied_replicate_append]
    show occupied (replicate n none ++ some l :: rest) ++ [r] = _
    rw [occupied_replicate_append]
    simp [occupied]
  rw [hws] at hlen
  simp only [length_append, length_replicate, length_cons] at hlen
  have hwait : Waiting { table with
      jobStragglers := (table.jobStragglers.set (m + 1 + n) none).set m none } (m + 1 + n + 1)
      rest := by
    -- taking the two lowest trees out, one after the other
    show (table.jobStragglers.set (m + 1 + n) none).set m none = _
    rw [set_comm _ _ (by omega)]
    have hfirst := (hws ▸ h.waiting : Waiting table 0 _).take_lowest
    have hsecond : Waiting { table with jobStragglers := table.jobStragglers.set m none } 0
        (replicate (m + 1 + n) none ++ some l :: rest) := by
      show table.jobStragglers.set m none = _
      rw [hfirst, replicate_add (m + 1) n, append_assoc]
      simp only [map_append, map_replicate, Option.bind_none, replicate_zero, nil_append]
    exact hsecond.take_lowest
  refine (insertJobAtLevel_merging rfl rfl (by omega) hwait hrest hl.2
    (fun k hk => (hr.2 k hk).trans (by omega)) (hocc ▸ h.planned) h.counted (hocc ▸ h.inputs)
    (hocc ▸ h.reached) (Pairs.linear _ _ hleft hright)).imp ?_ (fun _ _ herr => herr)
  rintro _ table' ⟨ws', hmerging, hle⟩
  refine ⟨ws', hmerging, ?_⟩
  rw [hocc, length_append]
  exact Nat.lt_of_le_of_lt hle (by simp)

/-- **`finalize_promote_guta_stragglers`** ends with one tree: every round leaves fewer. -/
theorem finalizePromoteGutaStragglers_ends (rounds : Nat) {table : JobTable F Hash}
    {ws : List (Option (PlanTree F Hash))} (h : Merging config O start accepted table s ws)
    (hlt : (occupied ws).length < rounds) :
    Ends (fun res => res.1 = none ∧ accepted = [] ∨
        ∃ level g t ws', res.1 = some (level, g) ∧ topGuta t = some g ∧ occupied ws' = [t] ∧
          Merging config O start accepted res.2 s ws')
      (· ≠ .doesNotReturn)
      (table.finalizePromoteGutaStragglers config.uniquePendingId rounds) := by
  induction rounds generalizing table ws with
  | zero => exact absurd hlt (Nat.not_lt_zero _)
  | succ rounds ih =>
    rw [finalizePromoteGutaStragglers]
    rcases findNextStraggler_cases carries_risen (k := 0) (p := []) h.waiting rfl h.slots with
      ⟨hfind, hnil⟩ | ⟨m, r, right, above, hws, hr, habove, hright, hfind⟩
    · have hinputs := h.inputs
      rw [hnil] at hinputs
      rw [hfind]
      exact Or.inl ⟨rfl, hinputs.symm⟩
    · rw [Nat.zero_add] at hfind hr habove
      rw [hfind]
      dsimp only
      have hwait' : Waiting table 0 ((replicate m none ++ [some r]) ++ above) := by
        rw [append_assoc]
        exact hws ▸ h.waiting
      have hlen : (replicate m none ++ [some r]).length = m + 1 := by simp
      rcases findNextStraggler_cases carries_risen hwait' hlen habove with
        ⟨hnext, hnil⟩ | ⟨n, l, left, rest, hws', hl, hrest, hleft, hnext⟩
      · rw [hnext]
        refine Or.inr ⟨m, right, r, ws, rfl, hright, ?_, h⟩
        rw [hws, occupied_replicate_append]
        show occupied above ++ [r] = _
        rw [hnil]
        rfl
      · rw [hnext]
        dsimp only
        have hjoin := h.join_lowest (by rw [hws, hws']) hr hl hrest hleft hright _ rfl
        split
        next heq => exact hjoin.of_eq heq
        next heq =>
          obtain ⟨ws', hmerging, hless⟩ := hjoin.of_eq heq
          exact ih hmerging (by omega)

/-! ## §4. The fee job. -/

/-- The fee delta against the user tree `s`. -/
structure FeeDelta (config : RealmPlannerConfig Hash) (s : RecorderStore Hash)
    (validatorUserId : Nat) (delta : DeltaMerkleProofCore Hash) : Prop where
  index : delta.index = validatorUserId - config.realmUserMinId
  oldValue : delta.oldValue = s.getLeafValue delta.index
  oldRoot : delta.oldRoot = s.getRoot
  newRoot : delta.newRoot = computeRootMerkleProofGeneric delta.newValue delta.index delta.siblings
  siblings : delta.siblings = (s.getLeaf delta.index).siblings

/-- The fee job on a root. -/
def feeJob (realmId : Nat) (root : JobHeader F Hash)
    (input : RealmFinalizeGUTAInput F Hash) (level slot : Nat) : PlannedJob F Hash :=
  let header := finalGutaHeader root.header input.validatorFeeDeltaProof.newRoot
  { header := header
    metadata :=
      { jobId := QProvingJobDataID.realmFinalizeGuta input.checkpointTreeProof.index
          (realmId % 2 ^ 32)
        metadata :=
          { expectedPublicInputsHash := header.qfhash
            rewardTreeNodeIndex := 0
            rewardTreeNodeLevel := 0
            rewardTreeHashMode := .hashChildrenStandard
            rewardTreeNodeChildren := 2
            dependencies := [root.jobId] } }
    witness := .realmFinalize input
    level := level
    slot := slot }

/-- **PAYING THE FEES** of a tree into the validator's leaf. -/
inductive Pays (config : RealmPlannerConfig Hash) (s : RecorderStore Hash) :
    PlanTree F Hash → PlannedJob F Hash → RecorderStore Hash → Prop
  | fee {t : PlanTree F Hash} {root : JobHeader F Hash}
      {validatorUserId : Nat} (input : RealmFinalizeGUTAInput F Hash) (level slot : Nat)
      (ht : topGuta t = some root) (hinput : input.rootGutaHeader = root.header)
      (hrealm : config.InRealm validatorUserId)
      (hroot : root.header.stateTransition.newNodeValue = s.getRoot)
      (hdelta : FeeDelta config s validatorUserId input.validatorFeeDeltaProof) :
      Pays config s t (feeJob config.realmIdU64 root input level slot)
        (s.setLeaf input.validatorFeeDeltaProof.index input.validatorFeeDeltaProof.newValue).1

theorem feeDelta_ends (proofs : RealmGUTAValidatorProofs F Hash)
    (header : GutaHeader F Hash) (leaf : PQEDUserLeaf F Hash)
    (planner : RealmGUTAPlanner F Hash) (s : RecorderStore Hash) :
    Ends (fun res => header.stateTransition.newNodeValue = s.getRoot ∧
        FeeDelta planner.toRealmPlannerConfig s proofs.validator.validatorUserId res.2)
      (· ≠ .doesNotReturn) (feeDelta proofs header leaf planner s) := by
  refine guard nofun ?_
  intro hleaf
  refine guard nofun ?_
  intro _
  refine guard nofun ?_
  intro hroot
  rw [not_not] at hleaf hroot
  exact ⟨hroot, rfl, hleaf, rfl, rfl, rfl⟩

section
omit [MerkleZeroHasher Hash] [DecidableEq Hash] [HashTo4Felts F Hash] [FieldQHasher F Hash]

theorem checkValidator_ends (proofs : RealmGUTAValidatorProofs F Hash)
    (planner : RealmGUTAPlanner F Hash) :
    Ends (fun _ => planner.InRealm proofs.validator.validatorUserId) (· ≠ .doesNotReturn)
      (checkValidator ext proofs planner) := by
  unfold checkValidator
  split
  next => exact nofun
  next =>
    refine (mapError (fun _ => nofun) _).bind ?_
    intro _ _
    refine (mapError (fun _ => nofun) _).bind ?_
    intro _ _
    refine guard nofun ?_
    intro _
    refine guard nofun ?_
    intro _
    refine guard nofun ?_
    intro hrealm
    exact not_not.mp hrealm

end

variable (config O start accepted) in
/-- All accepted EndCaps are in one tree, and its jobs are all that is planned. -/
structure OneTree (table : JobTable F Hash) (s : RecorderStore Hash) (t : PlanTree F Hash)
    (root : JobHeader F Hash) : Prop where
  root_eq : topGuta t = some root
  inputs : t.inputs = accepted
  planned : Planned table t.jobs
  reached : (machine config O).Reached start [t] s

theorem OneTree.level_lt (h : OneTree config O start accepted table s t root) :
    ∀ j ∈ t.jobs, j.level < maxRealmProvingLevels :=
  reached_level_lt h.reached t (mem_singleton_self t)

variable (h : OneTree config O start accepted planner.toJobTable s t root)

include hconfig h in
/-- **THE CHECKPOINT UPGRADE** puts a job on the tree, or leaves it. -/
theorem upgradeRoot_ends (proofs : RealmGUTAValidatorProofs F Hash) :
    Ends (fun res => res.2.toRealmPlannerConfig = config ∧
        ∃ t', OneTree config O start accepted res.2.toJobTable s t' res.1)
      (· ≠ .doesNotReturn) (upgradeRoot cpTree proofs planner root) := by
  unfold upgradeRoot
  split
  next => exact ⟨hconfig, t, h⟩
  next =>
    refine (mapError (fun _ => nofun) _).bind ?_
    intro p _
    refine guard nofun ?_
    intro _
    refine guard nofun ?_
    intro hroom
    rw [not_not] at hroom
    set level := freshLevel planner.plannedJobs with hlevel
    set j := upgradeJob config.uniquePendingId root p level with hj
    have hfits : Fits t.jobs t.jobs j :=
      fits_freshLevel h.planned h.level_lt hlevel rfl (Nat.lt_of_succ_lt hroom)
    refine ⟨hconfig, .wrap j t, ?_, h.inputs, ?_, ?_⟩
    · rw [hconfig]
      rfl
    · rw [hconfig]
      exact h.planned.record j
    · have hstep : (machine config O).wrap [] s t j s := by
        refine ⟨?_, Wraps.upgrade p level h.root_eq⟩
        simpa [stackJobs] using hfits
      have hreached : (machine config O).Reached start ([] ++ [t]) s := h.reached
      exact hreached.wrap hstep

variable (config O start accepted) in
/-- What `append_realm_finalize_guta` leaves: the fee job `fin` on the tree `t`, which was
complete in `s`. -/
structure Appended (s : RecorderStore Hash) (t : PlanTree F Hash) (fin : PlannedJob F Hash)
    (table : JobTable F Hash) (s' : RecorderStore Hash) : Prop where
  inputs : t.inputs = accepted
  reached : (machine config O).Reached start [t] s
  fits : Fits t.jobs t.jobs fin
  pays : Pays config s t fin s'
  planned : Planned table (t.jobs ++ [fin])

include hconfig h in
/-- **`append_realm_finalize_guta`** puts the fee job on the tree. -/
theorem appendRealmFinalizeGuta_ends : Ends (fun res => res.2.1.toRealmPlannerConfig = config ∧
        ∃ t' fin, Appended config O start accepted s t' fin res.2.1.toJobTable res.2.2 ∧
          res.1 = fin.guta)
      (· ≠ .doesNotReturn) (appendRealmFinalizeGuta ext cpTree planner s root) := by
  unfold appendRealmFinalizeGuta
  split
  next => exact nofun
  next proofs _ =>
    refine (upgradeRoot_ends cpTree hconfig h proofs).bind ?_
    intro res hres
    obtain ⟨root, planner⟩ := res
    obtain ⟨hconfig, t, h⟩ := hres
    dsimp only at hconfig h ⊢
    refine (checkValidator_ends ext proofs planner).bind ?_
    intro checked hrealm
    refine (feeDelta_ends proofs root.header checked.1 planner s).bind ?_
    intro paid hpaid
    obtain ⟨hroot, hdelta⟩ := hpaid
    refine guard nofun ?_
    intro hlevel
    refine guard nofun ?_
    intro _
    rw [not_le] at hlevel
    -- the fresh level is empty, so the position of the job is 0
    set level := freshLevel planner.plannedJobs with hfresh
    have hempty : (planner.plannedJobs.getD level []).length = 0 := by
      rw [h.planned.length_level hlevel, length_eq_zero_iff, filter_eq_nil_iff]
      intro k hk
      have := h.planned.level_lt_freshLevel h.level_lt k hk
      simpa using (hfresh ▸ this).ne
    rw [hempty]
    refine (updateUserLeaf_ends _ paid.1).bind ?_
    intro planner' hcore
    simp only [core, Prod.mk.injEq] at hcore
    obtain ⟨hconfig', htable, _, _⟩ := hcore
    have hrealmId := congrArg RealmPlannerConfig.realmIdU64 hconfig
    set input := realmFinalizeInput proofs root.header checked.1 checked.2.1 checked.2.2 paid.2
      planner s with hinput
    refine ⟨hconfig'.trans hconfig, t, feeJob config.realmIdU64 root input level 0,
      ⟨h.inputs, h.reached, ?_, ?_, ?_⟩, ?_⟩
    · exact fits_freshLevel h.planned h.level_lt hfresh rfl hlevel
    · have hdelta' : FeeDelta config s proofs.validator.validatorUserId
          input.validatorFeeDeltaProof := hconfig ▸ hdelta
      exact Pays.fee input level 0 h.root_eq rfl (hconfig ▸ hrealm) hroot hdelta'
    · rw [htable, ← hrealmId]
      exact h.planned.record (feeJob planner.realmIdU64 root input level 0)
    · rw [← hrealmId]
      rfl

/-! ## §5. The output. -/

/-- Every EndCap has the id of an EndCap, as the edge handler gives it. -/
def EndCapIds (accepted : List (EndCap F Hash)) : Prop :=
  ∀ item ∈ accepted, item.jobId.circuitType = .userEndCap

variable (config O start accepted) in
/-- **WHAT A FINALIZATION RETURNS**: up to reward keys, the jobs of one tree and the fee job. -/
structure Finalized (s : RecorderStore Hash) (t : PlanTree F Hash) (fin : PlannedJob F Hash)
    (out : RealmFinalizeOutput F Hash) (planner' : RealmGUTAPlanner F Hash)
    (s' : RecorderStore Hash) : Prop where
  inputs : t.inputs = accepted
  reached : (machine config O).Reached start [t] s
  fits : Fits t.jobs t.jobs fin
  pays : Pays config s t fin s'
  header : out.gutaHeader = fin.guta
  jobIds : out.jobIds.map (List.map unkeyed) =
    ((levelTable labels.level PlannedJob.metadata maxRealmProvingLevels (t.jobs ++ [fin])).filter
      (· ≠ [])).map (List.map unkeyed)
  totalJobs : planner'.totalJobs = (t.jobs ++ [fin]).length
  totalProofsGenerated : out.totalProofsGenerated = planner'.totalJobs
  savedWitnesses : planner'.savedWitnesses =
    (t.jobs ++ [fin]).map (fun j => (j.metadata.jobId, j.witness))
  oldRealmRoot : out.oldRealmRoot = config.startRealmRoot
  newRealmRoot : out.newRealmRoot = s'.getRoot

variable {s' : RecorderStore Hash}

theorem Pays.deps (h : Pays config s t fin s') : labels.deps fin = [t.rootId labels] := by
  cases h with
  | fee input level slot ht =>
    rw [topGuta_jobId ht]
    rfl

theorem Pays.circuitType (h : Pays config s t fin s') :
    fin.metadata.jobId.circuitType = .realmFinalizeGUTA := by
  cases h with
  | fee => rfl

/-- All ids are distinct, the fee job's included. -/
theorem Pays.jobId_nodup (h : Pays config s t fin s')
    (hreached : (machine config O).Reached start [t] s) :
    ((t.jobs ++ [fin]).map labels.jobId).Nodup := by
  rw [map_append, nodup_append]
  refine ⟨reached_jobId_nodup hreached, nodup_singleton _, ?_⟩
  intro a ha b hb hab
  obtain ⟨j, hj, rfl⟩ := mem_map.mp ha
  rw [map_singleton, mem_singleton] at hb
  have hnot := (reached_named hreached t (mem_singleton_self t) j hj).not_finalize
  refine hnot (Eq.trans ?_ h.circuitType)
  exact congrArg QProvingJobDataID.circuitType (hab.trans hb)

theorem Fits.all_level_lt (h : Fits t.jobs t.jobs fin)
    (hreached : (machine config O).Reached start [t] s) :
    ∀ j ∈ t.jobs ++ [fin], j.level < maxRealmProvingLevels := by
  rw [forall_mem_append, forall_mem_singleton]
  exact ⟨reached_level_lt hreached t (mem_singleton_self t), h.level_lt⟩

/-- **THE REWARD KEYS** are given out by a walk over the tree under the fee job. -/
theorem Appended.rewards (h : Appended config O start accepted s t fin table s')
    (hids : EndCapIds accepted) (level index : Nat) :
    table.updateRewardTreeConfig (table.totalJobs + 1) (labels.jobId fin) level index =
      .ok (((wrap fin t).visits childKey (level, index)).foldl
        (fun p v => visitNode v.1 v.2 p) table) := by
  have hslotted : Slotted labels.level PlannedJob.slot (t.jobs ++ [fin]) := by
    have hjobs := reached_slotted h.reached
    rw [stackJobs, flatMap_singleton] at hjobs
    exact hjobs.concat h.fits.slot
  have hwired : (wrap fin t).Wired labels :=
    ⟨h.pays.deps, reached_wired h.reached t (mem_singleton_self t)⟩
  have hnodup := h.pays.jobId_nodup h.reached
  have hlevels := h.fits.all_level_lt h.reached
  refine updateRewardTreeConfig_visits _ level index hwired ?_ ?_ ?_ ?_ ?_
  · have hperm := (levelTable_flatten_perm labels.level PlannedJob.metadata hlevels).map (·.jobId)
    rw [map_map] at hperm
    rw [h.planned.plannedJobs]
    exact hperm.nodup_iff.mpr hnodup
  · intro i hi
    exact hids i (h.inputs ▸ hi)
  · intro j hj
    rcases mem_append.mp hj with hj | hj
    · exact (reached_named h.reached t (mem_singleton_self t) j hj).not_endCap
    · rw [mem_singleton.mp hj]
      have htype : (labels.jobId fin).circuitType = .realmFinalizeGUTA := h.pays.circuitType
      rw [htype]
      simp
  · exact h.planned.noted hnodup hslotted hlevels
  · rw [h.planned.totalJobs]
    exact Nat.lt_succ_of_le (height_le_jobs_length (.wrap fin t))

/-- The returned jobs have the keys of the tree under the fee job. -/
def Keyed (rewardLevel rewardIndex : Nat) (t : PlanTree F Hash) (fin : PlannedJob F Hash)
    (out : RealmFinalizeOutput F Hash) : Prop :=
  out.jobIds.flatten = (levelTable labels.level PlannedJob.metadata maxRealmProvingLevels
    (t.jobs ++ [fin])).flatten.map
      (rekeyAll (keyWrites labels (.wrap fin t) (rewardLevel, rewardIndex)))

variable (rewardLevel rewardIndex : Nat)

include hconfig h in
/-- **THE END OF A FINALIZATION.** -/
theorem finalizeRoot_ends : Ends (fun res => ∃ t' fin,
        Finalized config O start accepted s t' fin res.1 res.2.1 res.2.2 ∧
        (EndCapIds accepted → Keyed rewardLevel rewardIndex t' fin res.1))
      (fun e => EndCapIds accepted → e ≠ .doesNotReturn)
      (finalizeRoot ext cpTree rewardLevel rewardIndex planner s root) := by
  unfold finalizeRoot
  refine ((appendRealmFinalizeGuta_ends ext cpTree hconfig h).mono
    (fun _ he _ => he)).bind ?_
  intro res hres
  obtain ⟨header, planner₁, s'⟩ := res
  obtain ⟨hconfig₁, t', fin, happended, rfl⟩ := hres
  dsimp only at hconfig₁ happended ⊢
  refine bind (q := fun table => SameJobs planner₁.toJobTable table ∧
    (EndCapIds accepted → table.plannedJobs = planner₁.plannedJobs.map (map
      (rekeyAll (keyWrites labels (.wrap fin t') (rewardLevel, rewardIndex)))))) ?_ ?_
  · cases hupdate : planner₁.toJobTable.updateRewardTreeConfig (planner₁.totalJobs + 1)
      fin.guta.jobId rewardLevel rewardIndex with
    | ok table =>
      refine ⟨updateRewardTreeConfig_sameJobs _ hupdate, ?_⟩
      intro hids
      have hok := happended.rewards hids rewardLevel rewardIndex
      rw [Except.ok.inj (hupdate.symm.trans hok)]
      exact levels_foldl_visits plannedJobs (fun _ _ _ => rfl) (fun _ _ _ => rfl) _ _ _
    | error e =>
      intro hids
      exact absurd (hupdate.symm.trans (happended.rewards hids rewardLevel rewardIndex)) nofun
  · intro table htable
    obtain ⟨hsame, hkeyed⟩ := htable
    refine ⟨t', fin, ⟨happended.inputs, happended.reached, happended.fits, happended.pays, rfl, ?_,
      ?_, rfl, ?_, ?_, rfl⟩, ?_⟩
    · show (table.plannedJobs.filter (· ≠ [])).map (map unkeyed) = _
      rw [filter_ne_nil_unkeyed, hsame.plannedJobs, ← filter_ne_nil_unkeyed,
        happended.planned.plannedJobs]
    · exact hsame.totalJobs.trans happended.planned.totalJobs
    · exact hsame.savedWitnesses.trans happended.planned.savedWitnesses
    · exact congrArg RealmPlannerConfig.startRealmRoot hconfig₁
    · intro hids
      show (table.plannedJobs.filter (· ≠ [])).flatten = _
      rw [flatten_filter_ne_nil, hkeyed hids, happended.planned.plannedJobs, map_flatten]

include hconfig in
/-- The job of the only EndCap. -/
theorem promoteSingleEndCap_oneTree (hplanned : Planned planner.toJobTable [])
    (hreached : (machine config O).Reached start [.input item] s) :
    let res := promoteSingleEndCap cpTree rewardLevel rewardIndex planner s item
    res.2.1.toRealmPlannerConfig = config ∧
      ∃ t, OneTree config O start [item] res.2.1.toJobTable res.2.2 t res.1 := by
  intro res
  rcases hdmp : config.writeEndCap s item with ⟨s₁, dmp⟩
  have hempty : (planner.plannedJobs.getD 0 []).length = 0 :=
    hplanned.length_level (by decide)
  set j := singleEndCapJob config cpTree rewardLevel rewardIndex item dmp with hj
  have hres : res = (j.guta, { planner with toJobTable := record planner.toJobTable j }, s₁) := by
    show promoteSingleEndCap cpTree rewardLevel rewardIndex planner s item = _
    unfold promoteSingleEndCap
    simp only [hconfig, hdmp, hempty]
    rfl
  rw [hres]
  refine ⟨hconfig, .wrap j (.input item), rfl, rfl, hplanned.record j, ?_⟩
  have hstep : (machine config O).wrap [] s (.input item) j s₁ :=
    ⟨⟨rfl, by simp [jobs], Nat.succ_pos 31⟩, Wraps.singleEndCap cpTree _ _ hdmp⟩
  have hreached' : (machine config O).Reached start ([] ++ [.input item]) s := hreached
  exact hreached'.wrap hstep

/-- **`finalize_with_reward_ids`** returns nothing for a planner that accepted nothing, and
otherwise one tree under the fee job; it always returns. -/
theorem finalizeWithRewardIds_ends (h : Adding config O start accepted planner s) :
    Ends (fun res => res.1 = none ∨ ∃ out s₁ t fin, res.1 = some out ∧
        Finalized config O start accepted s₁ t fin out res.2.1 res.2.2 ∧
        (EndCapIds accepted → Keyed rewardLevel rewardIndex t fin out))
      (fun e => EndCapIds accepted → e ≠ .doesNotReturn)
      (finalizeWithRewardIds ext cpTree rewardLevel rewardIndex planner s) := by
  obtain ⟨hconfig, _, ws, hc⟩ := h
  unfold finalizeWithRewardIds
  refine guard (fun _ => (by simp)) ?_
  intro _
  split
  next => exact Or.inl rfl
  next =>
    refine ((finalizePromoteEndCapStragglers_ends cpTree hconfig hc).mono
      (fun _ he _ => he)).bind ?_
    intro res hres
    obtain ⟨single, planner₁, s₁⟩ := res
    obtain ⟨hconfig₁, ⟨rfl, ws', hmerging⟩ | ⟨item, rfl, rfl, hplanned, hreached⟩⟩ := hres
    · -- the promotions leave one tree
      dsimp only at hconfig₁ hmerging ⊢
      have hrounds : (occupied ws').length < maxRealmProvingLevels + 1 := by
        rw [← hmerging.length]
        exact Nat.lt_succ_of_le (length_occupied_le ws')
      have hpromote := finalizePromoteGutaStragglers_ends _ hmerging hrounds
      rw [← hconfig₁] at hpromote
      refine (hpromote.mono (fun _ he _ => he)).bind ?_
      intro res hres
      obtain ⟨root, table⟩ := res
      rcases hres with ⟨rfl, _⟩ | ⟨level, g, t, ws₂, rfl, hg, hocc, hmerging₂⟩
      · exact fun _ => (by simp)
      · dsimp only at hmerging₂ ⊢
        have hinputs := hmerging₂.inputs
        have hplanned := hmerging₂.planned
        have hreached := hmerging₂.reached
        rw [hocc] at hinputs hplanned hreached
        have honeTree : OneTree config O start accepted
            { table with jobStragglers := table.jobStragglers.set level none } s₁ t g := by
          refine ⟨hg, ?_, ?_, hconfig₁ ▸ hreached⟩
          · simpa [stackInputs] using hinputs
          · rw [stackJobs, flatMap_singleton] at hplanned
            exact hplanned.counters _ _
        refine bind (finalizeRoot_ends ext cpTree ?_ honeTree rewardLevel rewardIndex) ?_
        · exact hconfig₁
        intro res hres
        obtain ⟨t', fin, hfinal⟩ := hres
        exact Or.inr ⟨res.1, s₁, t', fin, rfl, hfinal⟩
    · -- the only EndCap
      dsimp only at hconfig₁ hplanned hreached ⊢
      refine guard (fun _ => (by simp)) ?_
      intro _
      obtain ⟨hconfig₂, t, honeTree⟩ := promoteSingleEndCap_oneTree cpTree hconfig₁
        rewardLevel rewardIndex hplanned hreached
      refine bind (finalizeRoot_ends ext cpTree hconfig₂ honeTree rewardLevel
        rewardIndex) ?_
      intro res hres
      obtain ⟨t', fin, hfinal⟩ := hres
      exact Or.inr ⟨res.1, _, t', fin, rfl, hfinal⟩

/-- What a finalization that returned an output returned. -/
theorem Adding.exists_finalized {rewardLevel rewardIndex : Nat} {out : RealmFinalizeOutput F Hash}
    {planner' : RealmGUTAPlanner F Hash} {ext : Externals} {cpTree : AppendOnlyStore Hash}
    (h : Adding config O start accepted planner s)
    (hfinal : finalizeWithRewardIds ext cpTree rewardLevel rewardIndex planner s =
      .ok (some out, planner', s')) :
    ∃ s₁ t fin, Finalized config O start accepted s₁ t fin out planner' s' ∧
      (EndCapIds accepted → Keyed rewardLevel rewardIndex t fin out) := by
  rcases (finalizeWithRewardIds_ends ext cpTree rewardLevel rewardIndex h).of_ok hfinal with
    hnone | ⟨out', s₁, t, fin, hout, hfinalized⟩
  · cases hnone
  · obtain rfl : out = out' := Option.some.inj hout
    exact ⟨s₁, t, fin, hfinalized⟩

/-! ## §6. The sample realm's output. -/

/-- What a run of the sample realm accepts and returns. -/
def sampleOutput (calls : List (RealmCall Nat SymHash)) (userIds : List Nat) :
    Option (List (EndCap Nat SymHash) × Option (RealmFinalizeOutput Nat SymHash)) :=
  (runCalls sampleExternals calls (samplePlanner userIds) (sampleUserTree userIds)).bind
    (fun run =>
      (finalizeWithRewardIds sampleExternals (sampleCheckpointTree [.leaf 1]) 0 0 run.2.1
        run.2.2).toOption.map (fun fin => (run.1, fin.1)))

/-- Three EndCaps, one of them deferred, are scheduled on three levels. -/
theorem sampleOutput_levels : (sampleOutput sampleRealmCalls [0, 1, 3]).map
      (fun res => (res.1, res.2.map (fun out => out.jobIds.map length))) =
      some ([sampleEndCap 0 0 1, sampleEndCap 1 0 1, sampleEndCap 0 1 2], some [1, 1, 1]) := by
  decide +kernel

/-- Reading a run off what was evaluated of its output. -/
theorem exists_of_sampleOutput {α : Type} {f : RealmFinalizeOutput Nat SymHash → α} {x : α}
    {calls : List (RealmCall Nat SymHash)} {userIds : List Nat}
    {accepted : List (EndCap Nat SymHash)}
    (h : (sampleOutput calls userIds).map (fun res => (res.1, res.2.map f)) =
      some (accepted, some x)) : ∃ planner₁ tree₁ out planner₂ tree₂,
      runCalls sampleExternals calls (samplePlanner userIds) (sampleUserTree userIds) =
        some (accepted, planner₁, tree₁) ∧
      finalizeWithRewardIds sampleExternals (sampleCheckpointTree [.leaf 1]) 0 0 planner₁ tree₁ =
        .ok (some out, planner₂, tree₂) ∧
      f out = x := by
  obtain ⟨⟨accepted', output⟩, hout, heq⟩ := Option.map_eq_some_iff.mp h
  obtain ⟨rfl, hx⟩ := Prod.mk.inj heq
  obtain ⟨out, rfl, hfx⟩ := Option.map_eq_some_iff.mp hx
  obtain ⟨⟨accepted', planner₁, tree₁⟩, hrun, hmap⟩ := Option.bind_eq_some_iff.mp hout
  obtain ⟨⟨output, planner₂, tree₂⟩, hok, heq'⟩ := Option.map_eq_some_iff.mp hmap
  cases heq'
  refine ⟨planner₁, tree₁, out, planner₂, tree₂, hrun, ?_, hfx⟩
  cases hfinal : finalizeWithRewardIds sampleExternals (sampleCheckpointTree [.leaf 1]) 0 0
    planner₁ tree₁ with
  | error e =>
    rw [hfinal] at hok
    cases hok
  | ok res =>
    rw [hfinal] at hok
    exact congrArg Except.ok (Option.some.inj hok)

end PsyNode.Realm
