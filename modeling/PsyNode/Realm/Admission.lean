/-
PsyNode.Realm.Admission
**WHICH ENDCAPS A REALM ADMITS** — every accepted EndCap should start from the
leaf its user has after all EndCaps accepted before it.

A deferred EndCap is checked against the EndCap that still waits to be paired;
`add_end_cap_job` looks at the user tree only.  Runs in which no EndCap is added
that way while one of the same user waits do chain (`realm_endCaps_chain`); the
others need not (`realm_endCaps_race`).

An EndCap that is skipped leaves planner and tree alone, up to the list of the
deferred ones, unless the call had already written the declared old leaf of a user
without one (`addEndCapJob_skipped_iff`, `addEndCapJob_skipped_writes`).
-/
import PsyNode.Realm.Run

namespace PsyNode.Realm

open Merkle Guta Recorder Store Lib.Agg Lib List
open RealmGUTAPlanner SimpleMemoryMerkleRecorderStore

variable {F Hash : Type}

/-! ## §1. The leaves of users. -/

variable [QFelt64 F] (leaves : Nat → Hash)

variable (item : EndCap F Hash)

/-- An EndCap sets the leaf of its user. -/
def applyEndCap : Nat → Hash :=
  Function.update leaves item.userId item.newUserLeafHash

variable (items : List (EndCap F Hash))

/-- The leaves after these EndCaps. -/
def leavesAfter : Nat → Hash :=
  items.foldl applyEndCap leaves

theorem leavesAfter_append (items more : List (EndCap F Hash)) :
    leavesAfter leaves (items ++ more) = leavesAfter (leavesAfter leaves items) more :=
  foldl_append ..

variable (userId : Nat)

theorem leavesAfter_concat : leavesAfter leaves (items ++ [item]) userId =
      if userId = item.userId then item.newUserLeafHash else leavesAfter leaves items userId := by
  rw [leavesAfter_append]
  exact Function.update_apply ..

/-- A leaf has the value of an EndCap of its user, or none is for that user. -/
theorem leavesAfter_cases :
    ((∀ item ∈ items, item.userId ≠ userId) ∧ leavesAfter leaves items userId = leaves userId) ∨
      ∃ item ∈ items, item.userId = userId ∧
        leavesAfter leaves items userId = item.newUserLeafHash := by
  induction items using List.reverseRecOn with
  | nil => exact Or.inl ⟨by simp, rfl⟩
  | append_singleton items last ih =>
    rw [leavesAfter_concat]
    by_cases hlast : last.userId = userId
    · right
      exact ⟨last, by simp, hlast, if_pos hlast.symm⟩
    · rw [if_neg (Ne.symm hlast)]
      rcases ih with ⟨hnone, heq⟩ | ⟨item, hitem, huser, heq⟩
      · left
        rw [forall_mem_append, forall_mem_singleton]
        exact ⟨⟨hnone, hlast⟩, heq⟩
      · right
        exact ⟨item, mem_append_left _ hitem, huser, heq⟩

variable [MerkleZeroHasher Hash] (config : RealmPlannerConfig Hash)

/-- The leaf of a user in the realm's tree. -/
def userLeaf (tree : RecorderStore Hash) (userId : Nat) : Hash :=
  tree.getLeafValue (userId - config.realmUserMinId)

/-- An EndCap may start from `leaves` after `accepted`: from its user's leaf, or from
anything if the leaf was missing and this is the user's first EndCap. -/
def MayStart (accepted : List (EndCap F Hash)) (userId : Nat) (value : Hash) : Prop :=
  value = leavesAfter leaves accepted userId ∨
    leaves userId = getZeroValue ∧ ∀ item ∈ accepted, item.userId ≠ userId

/-- **THE ACCEPTED ENDCAPS CHAIN** from these leaves. -/
structure Chained (leaves : Nat → Hash) (accepted : List (EndCap F Hash)) : Prop where
  /-- Every EndCap starts where the EndCaps accepted before it left its user's leaf. -/
  starts : ∀ pre item post, accepted = pre ++ item :: post →
    MayStart leaves pre item.userId item.oldUserLeafHash
  /-- Two EndCaps of a user start from one value only if the leaf returned to it. -/
  returns : ∀ pre first between second post,
    accepted = pre ++ first :: (between ++ second :: post) → first.userId = second.userId →
    first.oldUserLeafHash = second.oldUserLeafHash →
    ∃ item ∈ first :: between, item.userId = first.userId ∧
      item.newUserLeafHash = first.oldUserLeafHash

theorem Chained.of_starts {leaves : Nat → Hash} {accepted : List (EndCap F Hash)}
    (h : ∀ pre item post, accepted = pre ++ item :: post →
      MayStart leaves pre item.userId item.oldUserLeafHash) : Chained leaves accepted := by
  refine ⟨h, ?_⟩
  intro pre first between second post heq huser hold
  have hsecond := h (pre ++ first :: between) second post (by rw [heq]; simp)
  rcases hsecond with hstart | ⟨_, hnone⟩
  · rw [leavesAfter_append, ← huser] at hstart
    rcases leavesAfter_cases (leavesAfter leaves pre) (first :: between) first.userId with
      ⟨hnone, _⟩ | ⟨item, hitem, hitemUser, hvalue⟩
    · exact absurd rfl (hnone first (mem_cons_self ..))
    · exact ⟨item, hitem, hitemUser, by rw [hold, hstart, hvalue]⟩
  · exact absurd huser (hnone first (by simp))

/-! ## §2. One addition. -/

/-- The leaf a user has once the waiting EndCap is written. -/
def logicalLeaf (straggler : Option (EndCap F Hash))
    (tree : RecorderStore Hash) (userId : Nat) : Hash :=
  match straggler.filter (fun straggler => straggler.userId = userId) with
  | some straggler => straggler.newUserLeafHash
  | none => userLeaf config tree userId

section
variable {config : RealmPlannerConfig Hash} {s : RecorderStore Hash} {leaves : Nat → Hash}
  {accepted : List (EndCap F Hash)} {straggler : Option (EndCap F Hash)} {userId : Nat}

@[simp] theorem logicalLeaf_none :
    logicalLeaf (F := F) config none s userId = userLeaf config s userId := rfl

theorem logicalLeaf_some : logicalLeaf config (some item) s userId =
      if userId = item.userId then item.newUserLeafHash else userLeaf config s userId := by
  rw [logicalLeaf, Option.filter_some]
  by_cases h : userId = item.userId
  · rw [if_pos (decide_eq_true h.symm), if_pos h]
  · rw [if_neg (by simpa using Ne.symm h), if_neg h]

theorem logicalLeaf_of_ne (h : ∀ item ∈ straggler, item.userId ≠ userId) :
    logicalLeaf config straggler s userId = userLeaf config s userId := by
  cases straggler with
  | none => rfl
  | some item => rw [logicalLeaf_some, if_neg (Ne.symm (h item rfl))]

/-- What is known of the leaves while EndCaps are added. -/
structure Follows (config : RealmPlannerConfig Hash) (leaves : Nat → Hash)
    (accepted : List (EndCap F Hash)) (straggler : Option (EndCap F Hash))
    (tree : RecorderStore Hash) : Prop where
  starts : ∀ pre item post, accepted = pre ++ item :: post →
    MayStart leaves pre item.userId item.oldUserLeafHash
  /-- Every leaf, with the waiting EndCap written, is as the next EndCap may find it. -/
  logical : ∀ userId, config.InRealm userId →
    MayStart leaves accepted userId (logicalLeaf config straggler tree userId)
  inRealm : ∀ item ∈ straggler, config.InRealm item.userId
  nonzero : ∀ item ∈ accepted, item.newUserLeafHash ≠ getZeroValue

/-- A missing leaf belongs to a user without accepted EndCaps. -/
theorem MayStart.of_zero (h : MayStart leaves accepted userId getZeroValue)
    (hnonzero : ∀ item ∈ accepted, item.newUserLeafHash ≠ getZeroValue) :
    leaves userId = getZeroValue ∧ ∀ item ∈ accepted, item.userId ≠ userId := by
  rcases h with hvalue | hfirst
  · rcases leavesAfter_cases leaves accepted userId with ⟨hnone, heq⟩ | ⟨item, hitem, _, heq⟩
    · exact ⟨by rw [← heq, ← hvalue], hnone⟩
    · exact absurd (heq.symm.trans hvalue.symm) (hnonzero item hitem)
  · exact hfirst

variable {item : EndCap F Hash}

/-- **ACCEPTING AN ENDCAP** that starts from its user's leaf, whether it is written at once
or waits: all that matters is that the leaves, with what waits written, have changed by it. -/
theorem Follows.accept {straggler' : Option (EndCap F Hash)} {s' : RecorderStore Hash}
    (h : Follows config leaves accepted straggler s) (hrealm : config.InRealm item.userId)
    (hstart : logicalLeaf config straggler s item.userId = item.oldUserLeafHash)
    (hnonzero : item.newUserLeafHash ≠ getZeroValue)
    (hinRealm : ∀ other ∈ straggler', config.InRealm other.userId)
    (hself : logicalLeaf config straggler' s' item.userId = item.newUserLeafHash)
    (hothers : ∀ userId, config.InRealm userId → userId ≠ item.userId →
      logicalLeaf config straggler' s' userId = logicalLeaf config straggler s userId) :
    Follows config leaves (accepted ++ [item]) straggler' s' := by
  refine ⟨?_, ?_, hinRealm, ?_⟩
  · intro pre other post heq
    rcases prefix_concat_iff.mp (show pre ++ [other] <+: accepted ++ [item] from
      ⟨post, by simp [heq]⟩) with hlast | ⟨post', hpost⟩
    · obtain ⟨rfl, rfl⟩ := append_singleton_inj.mp hlast
      rw [← hstart]
      exact h.logical other.userId hrealm
    · exact h.starts pre other post' (by simpa using hpost.symm)
  · intro userId huser
    by_cases hsame : userId = item.userId
    · left
      rw [hsame, hself, leavesAfter_concat, if_pos rfl]
    · rw [hothers userId huser hsame]
      rcases h.logical userId huser with hvalue | ⟨hzero, hnone⟩
      · left
        rw [hvalue, leavesAfter_concat, if_neg hsame]
      · right
        rw [forall_mem_append, forall_mem_singleton]
        exact ⟨hzero, hnone, Ne.symm hsame⟩
  · rw [forall_mem_append, forall_mem_singleton]
    exact ⟨h.nonzero, hnonzero⟩

variable [DecidableEq Hash]

/-- Users of a realm have different leaves. -/
theorem userLeaf_setLeaf {other : Nat} (hrealm : config.InRealm userId)
    (hother : config.InRealm other) (value : Hash) :
    userLeaf config (s.setLeaf (other - config.realmUserMinId) value).1 userId =
      if userId = other then value else userLeaf config s userId := by
  unfold userLeaf
  rw [getLeafValue_setLeaf]
  unfold RealmPlannerConfig.InRealm at hrealm hother
  by_cases h : userId = other
  · rw [if_pos h, h, Function.update_self]
  · rw [if_neg h, Function.update_of_ne (by omega)]

/-- **INITIALISING A LEAF** for an EndCap whose user has none waiting: the leaf becomes the
declared one. -/
theorem Follows.initializeLeaf (h : Follows config leaves accepted straggler s)
    (hstraggler : ∀ other ∈ straggler, other.userId ≠ item.userId)
    (hrealm : config.InRealm item.userId)
    (hleaf : s.getLeafValue (config.leafIndex item) = item.oldUserLeafHash ∨
      s.getLeafValue (config.leafIndex item) = getZeroValue) :
    Follows config leaves accepted straggler (initializeLeaf config s item) ∧
      logicalLeaf config straggler (initializeLeaf config s item) item.userId =
        item.oldUserLeafHash := by
  unfold RealmGUTAPlanner.initializeLeaf
  dsimp only
  split
  next hmissing =>
    -- the leaf is missing, so the user has no accepted EndCap
    have hfirst := h.logical item.userId hrealm
    rw [logicalLeaf_of_ne hstraggler] at hfirst
    have hzero : userLeaf config s item.userId = getZeroValue := hmissing.2
    rw [hzero] at hfirst
    have hnone := hfirst.of_zero h.nonzero
    refine ⟨⟨h.starts, ?_, h.inRealm, h.nonzero⟩, ?_⟩
    · intro userId huser
      by_cases hsame : userId = item.userId
      · rw [hsame]
        exact Or.inr hnone
      · -- the other leaves stay
        have hlogical := h.logical userId huser
        have hkept : userLeaf config (s.setLeaf (item.userId - config.realmUserMinId)
            item.oldUserLeafHash).1 userId = userLeaf config s userId :=
          (userLeaf_setLeaf huser hrealm item.oldUserLeafHash).trans (if_neg hsame)
        unfold logicalLeaf at hlogical ⊢
        rwa [← hkept] at hlogical
    · rw [logicalLeaf_of_ne hstraggler]
      exact (userLeaf_setLeaf hrealm hrealm _).trans (if_pos rfl)
  next hpresent =>
    refine ⟨h, ?_⟩
    rw [logicalLeaf_of_ne hstraggler]
    rcases hleaf with hleaf | hleaf
    · exact hleaf
    · by_contra hne
      exact hpresent ⟨hne, hleaf⟩

/-- Writing an EndCap's leaf. -/
theorem userLeaf_writeEndCap (hitem : config.InRealm item.userId)
    (hrealm : config.InRealm userId) : userLeaf config (config.writeEndCap s item).1 userId =
      if userId = item.userId then item.newUserLeafHash else userLeaf config s userId :=
  userLeaf_setLeaf hrealm hitem item.newUserLeafHash

variable [HashTo4Felts F Hash] [FieldQHasher F Hash]

/-- Pairing writes the waiting EndCap, then the new one. -/
theorem pairEndCaps_tree (config : RealmPlannerConfig Hash)
    (checkpointTree : AppendOnlyStore Hash) (left right : EndCap F Hash)
    (table : JobTable F Hash) (s : RecorderStore Hash) :
    (pairEndCaps config checkpointTree left right table s).2.2 =
      (config.writeEndCap (config.writeEndCap s left).1 right).1 := by
  unfold pairEndCaps
  dsimp only
  split
  next => rfl
  next => rfl

/-- What holds while EndCaps are added: the plan, and the leaves. -/
structure AddingInOrder (config : RealmPlannerConfig Hash) (start : RecorderStore Hash)
    (leaves : Nat → Hash) (accepted : List (EndCap F Hash)) (planner : RealmGUTAPlanner F Hash)
    (s : RecorderStore Hash) : Prop where
  adding : Adding config (fun _ _ => True) start accepted planner s
  follows : Follows config leaves accepted planner.endCapStraggler s

variable {start : RecorderStore Hash} {planner : RealmGUTAPlanner F Hash}

theorem AddingInOrder.of_core {planner' : RealmGUTAPlanner F Hash}
    (h : AddingInOrder config start leaves accepted planner s)
    (hcore : core planner' = core planner) :
    AddingInOrder config start leaves accepted planner' s := by
  refine ⟨h.adding.of_core hcore, ?_⟩
  simp only [core, Prod.mk.injEq] at hcore
  rw [hcore.2.2.1]
  exact h.follows

variable {job : PlannedFutureEndCapJob F Hash}

/-- **ONE ADDITION** of an EndCap that starts from its user's leaf. -/
theorem Adds.inOrder {r : AddResult F Hash} (h : Adds job planner s r)
    (hrealm : planner.InRealm job.queueItem.userId)
    (hstart : logicalLeaf config planner.endCapStraggler s job.queueItem.userId =
      job.queueItem.oldUserLeafHash)
    (hnonzero : job.queueItem.newUserLeafHash ≠ getZeroValue)
    (ha : AddingInOrder config start leaves accepted planner s)
    (hbound : accepted.length < 2 ^ 30) :
    Kept (AddingInOrder config start leaves) accepted job.queueItem r := by
  have hadding := h.adding ha.adding hbound hrealm
  have hconfig := ha.adding.config_eq
  rw [hconfig] at hrealm
  cases h with
  | skips h => exact h.kept (ha.of_core h.core_eq)
  | parked hnone hcore =>
    refine Or.inr ⟨rfl, (Or.resolve_left hadding (by simp)).2, ?_⟩
    simp only [core, Prod.mk.injEq] at hcore
    rw [hcore.2.2.1]
    have hfollows := ha.follows
    rw [hnone] at hfollows hstart
    refine hfollows.accept hrealm hstart hnonzero ?_ ?_ ?_
    · intro other hother
      obtain rfl := Option.mem_some_iff.mp hother
      exact hrealm
    · rw [logicalLeaf_some, if_pos rfl]
    · intro userId _ hne
      rw [logicalLeaf_none, logicalLeaf_some, if_neg hne]
  | @paired planner' left table s' checkpointTree hsome hpair hcore =>
    refine Or.inr ⟨rfl, (Or.resolve_left hadding (by simp)).2, ?_⟩
    simp only [core, Prod.mk.injEq] at hcore
    rw [hcore.2.2.1]
    have hfollows := ha.follows
    rw [hsome] at hfollows hstart
    have hleft : config.InRealm left.userId := hfollows.inRealm left rfl
    have htree : s' = (config.writeEndCap (config.writeEndCap s left).1 job.queueItem).1 := by
      have htree := pairEndCaps_tree planner.toRealmPlannerConfig checkpointTree left
        job.queueItem planner.toJobTable s
      rw [hpair, hconfig] at htree
      exact htree
    refine hfollows.accept hrealm hstart hnonzero (by simp) ?_ ?_
    · rw [logicalLeaf_none, htree, userLeaf_writeEndCap hrealm hrealm, if_pos rfl]
    · intro userId huser hne
      rw [logicalLeaf_none, htree, userLeaf_writeEndCap hrealm huser, if_neg hne,
        userLeaf_writeEndCap hleft huser, logicalLeaf_some]
  | @stuck planner' left table s' e checkpointTree hsome hpair hcore =>
    -- an assertion failed: the levels suffice
    obtain ⟨_, _, ws, hc⟩ := ha.adding
    rw [hsome] at hc
    rw [hconfig] at hpair
    have hends := hc.pairEndCaps checkpointTree hrealm hbound
    rw [hpair] at hends
    exact Or.inl hends

/-! ## §3. Runs. -/

/-- **NO RACE**: an EndCap is added by `add_end_cap_job` only while none of its user waits,
and no EndCap leaves a missing leaf. -/
def Unraced : RealmCall F Hash → RealmGUTAPlanner F Hash → RecorderStore Hash → Prop
  | .addEndCapJob _ _ item, planner, _ =>
    (∀ straggler ∈ planner.endCapStraggler, straggler.userId ≠ item.userId) ∧
      item.newUserLeafHash ≠ getZeroValue
  | .addFutureEndCapJobs _ jobs, _, _ =>
    ∀ job ∈ jobs, job.queueItem.newUserLeafHash ≠ getZeroValue

instance decidableUnraced : (call : RealmCall F Hash) → (planner : RealmGUTAPlanner F Hash) →
    (tree : RecorderStore Hash) → Decidable (Unraced call planner tree)
  | .addEndCapJob .., _, _ => inferInstanceAs (Decidable (_ ∧ _))
  | .addFutureEndCapJobs _ jobs, _, _ => inferInstanceAs (Decidable (∀ job ∈ jobs, _))

variable {ext : Externals} {checkpointTree : AppendOnlyStore Hash}

theorem addEndCapJob_inOrder {contractUpdates : Option Bytes}
    (hunraced : Unraced (.addEndCapJob checkpointTree contractUpdates item) planner s)
    (ha : AddingInOrder config start leaves accepted planner s)
    (hbound : accepted.length < 2 ^ 30) :
    Kept (AddingInOrder config start leaves) accepted item
      (addEndCapJob ext checkpointTree contractUpdates item planner s) := by
  rcases addEndCapJob_cases ext checkpointTree contractUpdates item planner s with
    hskip | ⟨hrealm, hleaf, data, hadds⟩
  · exact hskip.kept (ha.of_core hskip.core_eq)
  · rw [ha.adding.config_eq] at hadds hleaf
    obtain ⟨hfollows, hstart⟩ := ha.follows.initializeLeaf hunraced.1
      (ha.adding.config_eq ▸ hrealm) hleaf
    exact hadds.inOrder hrealm hstart hunraced.2 ⟨ha.adding.idle trivial, hfollows⟩ hbound

theorem addFutureEndCapJob_inOrder (hnonzero : job.queueItem.newUserLeafHash ≠ getZeroValue)
    (ha : AddingInOrder config start leaves accepted planner s)
    (hbound : accepted.length < 2 ^ 30) :
    Kept (AddingInOrder config start leaves) accepted job.queueItem
      (addFutureEndCapJob ext checkpointTree job planner s) := by
  rcases addFutureEndCapJob_cases ext checkpointTree job planner s with
    hskip | ⟨hrealm, hleaf, hadds⟩
  · exact hskip.kept (ha.of_core hskip.core_eq)
  · have hstart : logicalLeaf config planner.endCapStraggler s job.queueItem.userId =
        job.queueItem.oldUserLeafHash := by
      rw [← hleaf, ← ha.adding.config_eq]
      rfl
    exact hadds.inOrder hrealm hstart hnonzero ha hbound

end

variable [DecidableEq Hash] [HashTo4Felts F Hash] [FieldQHasher F Hash]

/-- **ADMITTED ENDCAPS CHAIN.**  In every run without a race, every accepted EndCap starts
from the leaf that the EndCaps accepted before it left. -/
theorem realm_endCaps_chain (ext : Externals) (calls : List (RealmCall F Hash))
    {planner planner₁ : RealmGUTAPlanner F Hash} {tree tree₁ : SimpleMemoryMerkleRecorderStore Hash}
    {accepted : List (EndCap F Hash)} (hcreated : Created planner)
    (hrun : runCalls ext calls planner tree = some (accepted, planner₁, tree₁))
    (hunraced : Throughout ext Unraced calls planner tree) (hbound : accepted.length < 2 ^ 30) :
    Chained (userLeaf planner.toRealmPlannerConfig tree) accepted := by
  have hfollows : Follows planner.toRealmPlannerConfig (userLeaf planner.toRealmPlannerConfig tree)
      ([] : List (EndCap F Hash)) planner.endCapStraggler tree := by
    rw [show planner.endCapStraggler = none by rw [hcreated]; rfl]
    refine ⟨?_, fun userId _ => Or.inl rfl, by simp, by simp⟩
    intro pre item post h
    exact absurd h (by simp)
  have hend := runCalls_keeps (fun hunraced => hunraced) addEndCapJob_inOrder
    addFutureEndCapJob_inOrder calls hunraced ⟨hcreated.adding, hfollows⟩ hrun hbound
  exact .of_starts hend.follows.starts

/-- Two EndCaps of a user, the second one deferred, with another user's between them. -/
theorem realm_endCaps_chain_three :
    ∃ planner₁ tree₁,
      runCalls sampleExternals sampleRealmCalls (samplePlanner [0, 1, 3])
          (sampleUserTree [0, 1, 3]) =
        some ([sampleEndCap 0 0 1, sampleEndCap 1 0 1, sampleEndCap 0 1 2], planner₁, tree₁) ∧
      Chained (userLeaf (samplePlanner [0, 1, 3]).toRealmPlannerConfig (sampleUserTree [0, 1, 3]))
        [sampleEndCap 0 0 1, sampleEndCap 1 0 1, sampleEndCap 0 1 2] := by
  have haccepted : (runCalls sampleExternals sampleRealmCalls (samplePlanner [0, 1, 3])
      (sampleUserTree [0, 1, 3])).map Prod.fst =
      some [sampleEndCap 0 0 1, sampleEndCap 1 0 1, sampleEndCap 0 1 2] := by
    decide +kernel
  obtain ⟨⟨accepted, planner₁, tree₁⟩, hrun, rfl⟩ := Option.map_eq_some_iff.mp haccepted
  refine ⟨planner₁, tree₁, hrun, ?_⟩
  exact realm_endCaps_chain sampleExternals sampleRealmCalls (created_samplePlanner _) hrun
    (by decide +kernel) (by decide)

/-- **A RACE**: while the first EndCap of user 0 waits, a second one that starts from the same
leaf is accepted too. -/
theorem realm_endCaps_race :
    Created (samplePlanner [0, 1, 3]) ∧
      (runCalls sampleExternals [sampleAdd (sampleEndCap 0 0 1), sampleAdd (sampleEndCap 0 0 2)]
        (samplePlanner [0, 1, 3]) (sampleUserTree [0, 1, 3])).map Prod.fst =
        some [sampleEndCap 0 0 1, sampleEndCap 0 0 2] ∧
      ¬ Chained
        (userLeaf (samplePlanner [0, 1, 3]).toRealmPlannerConfig (sampleUserTree [0, 1, 3]))
        [sampleEndCap 0 0 1, sampleEndCap 0 0 2] := by
  refine ⟨created_samplePlanner _, by decide +kernel, ?_⟩
  intro h
  obtain ⟨item, hitem, _, hnew⟩ :=
    h.returns [] (sampleEndCap 0 0 1) [] (sampleEndCap 0 0 2) [] rfl rfl rfl
  -- only the first EndCap lies between, and its new leaf is another one
  rw [mem_singleton.mp hitem] at hnew
  exact absurd hnew (by decide +kernel)

/-! ## §4. Skipped EndCaps. -/

/-- An addition that only may have kept the EndCap for a later checkpoint. -/
structure OnlyDefers (planner : RealmGUTAPlanner F Hash) (s : RecorderStore Hash)
    (r : AddResult F Hash) : Prop where
  tree_eq : r.2.2 = s
  planner_eq : r.2.1 =
    { planner with futurePendingEndCapJobs := r.2.1.futurePendingEndCapJobs }

/-- Once the contract updates are read, an EndCap is counted or the call fails. -/
theorem acceptEndCap_ne_skipped (checkpointTree : AppendOnlyStore Hash)
    (job : PlannedFutureEndCapJob F Hash) (payload : ContractUpdatePayload)
    (planner : RealmGUTAPlanner F Hash) (s : RecorderStore Hash) :
    (acceptEndCap checkpointTree job payload planner s).1 ≠ .ok 0 := by
  unfold acceptEndCap
  dsimp only
  split
  next => simp
  next =>
    split
    next => simp
    next =>
      split
      next => simp
      next => simp

/-- The skips behind the write of a missing leaf: the EndCap is of a later checkpoint, or has no
stored contract updates, or those of another submission. -/
def SkipsLate (ext : Externals) (contractUpdates : Option Bytes) (item : EndCap F Hash)
    (config : RealmPlannerConfig Hash) : Prop :=
  config.currentCheckpointId < toU64Value item.newUserLeaf.lastCheckpointId ∨
  contractUpdates = none ∨
  ∃ data batch, contractUpdates = some data ∧
    ext.singleBatch data config.chainId config.realmIdU64 config.realmSubIdU64 = .ok batch ∧
    batch.1 ≠ item.submissionNonce

omit [QFelt64 F] [MerkleZeroHasher Hash] [DecidableEq Hash] [HashTo4Felts F Hash]
  [FieldQHasher F Hash] in
theorem readContractUpdates_eq_none {ext : Externals} {config : RealmPlannerConfig Hash}
    {data : Bytes} {submissionNonce : Nat} :
    readContractUpdates ext config data submissionNonce = .ok none ↔ ∃ batch,
      ext.singleBatch data config.chainId config.realmIdU64 config.realmSubIdU64 = .ok batch ∧
      batch.1 ≠ submissionNonce := by
  unfold readContractUpdates
  simp only [bind_eq_ok, mapError_eq_ok]
  refine exists_congr fun batch => and_congr_right fun _ => ?_
  split
  next hne => exact iff_of_true rfl hne
  next heq =>
    refine iff_of_false (fun h => ?_) heq
    simp only [bind_eq_ok] at h
    obtain ⟨_, _, _, _, h⟩ := h
    cases h

/-- Behind the write of a missing leaf a call either skips, up to the deferred EndCaps, or counts
the EndCap or fails. -/
theorem addEndCapJob_late (ext : Externals)
    (checkpointTree : AppendOnlyStore Hash) (contractUpdates : Option Bytes)
    (item : EndCap F Hash) (planner : RealmGUTAPlanner F Hash) (s : RecorderStore Hash)
    (hpreimage : item.newUserLeaf.qfhash = item.newUserLeafHash)
    (hrealm : planner.InRealm item.userId)
    (hleaf : ¬ (s.getLeafValue (planner.leafIndex item) ≠ item.oldUserLeafHash ∧
      s.getLeafValue (planner.leafIndex item) ≠ getZeroValue)) :
    let r := addEndCapJob ext checkpointTree contractUpdates item planner s
    (SkipsLate ext contractUpdates item planner.toRealmPlannerConfig ∧ r.1 = .ok 0 ∧
        OnlyDefers planner (initializeLeaf planner.toRealmPlannerConfig s item) r) ∨
      ¬ SkipsLate ext contractUpdates item planner.toRealmPlannerConfig ∧ r.1 ≠ .ok 0 := by
  unfold addEndCapJob
  dsimp only
  rw [if_neg (not_not.mpr hpreimage), if_neg (not_not.mpr hrealm), if_neg hleaf]
  split
  next hfuture =>
    refine .inl ⟨.inl hfuture, ?_⟩
    split
    next => exact ⟨rfl, rfl, rfl⟩
    next => exact ⟨rfl, rfl, rfl⟩
  next hnow =>
    cases contractUpdates with
    | none => exact .inl ⟨.inr (.inl rfl), rfl, rfl, rfl⟩
    | some data =>
      have hlate : SkipsLate ext (some data) item planner.toRealmPlannerConfig ↔
          readContractUpdates ext planner.toRealmPlannerConfig data item.submissionNonce =
            .ok none := by
        rw [readContractUpdates_eq_none]
        simp [SkipsLate, hnow]
      rw [hlate]
      dsimp only
      cases hread : readContractUpdates ext planner.toRealmPlannerConfig data
          item.submissionNonce with
      | error e => exact .inr ⟨by simp, by simp⟩
      | ok payload =>
        cases payload with
        | none => exact .inl ⟨rfl, rfl, rfl, rfl⟩
        | some payload => exact .inr ⟨by simp, acceptEndCap_ne_skipped _ _ payload _ _⟩

/-- **WHEN A SKIPPED ENDCAP LEAVES NO TRACE** but its entry among the deferred ones: unless a
missing leaf of its user was set to a declared one before the skip. -/
theorem addEndCapJob_skipped_iff (ext : Externals)
    (checkpointTree : PsyDashMemoryAppendOnlyMerkleStore Hash) (contractUpdates : Option Bytes)
    (item : EndCap F Hash) (planner : RealmGUTAPlanner F Hash)
    (s : SimpleMemoryMerkleRecorderStore Hash) :
    ((addEndCapJob ext checkpointTree contractUpdates item planner s).1 = .ok 0 →
      OnlyDefers planner s (addEndCapJob ext checkpointTree contractUpdates item planner s)) ↔
    item.newUserLeaf.qfhash ≠ item.newUserLeafHash ∨ ¬ planner.InRealm item.userId ∨
      s.getLeafValue (planner.leafIndex item) ≠ getZeroValue ∨
      item.oldUserLeafHash = getZeroValue ∨
      ¬ SkipsLate ext contractUpdates item planner.toRealmPlannerConfig := by
  by_cases hpreimage : item.newUserLeaf.qfhash = item.newUserLeafHash
  swap
  · refine iff_of_true (fun hskipped => ?_) (.inl hpreimage)
    unfold addEndCapJob at hskipped
    rw [if_pos hpreimage] at hskipped
    cases hskipped
  by_cases hrealm : planner.InRealm item.userId
  swap
  · refine iff_of_true (fun _ => ?_) (.inr (.inl hrealm))
    unfold addEndCapJob
    dsimp only
    rw [if_neg (not_not.mpr hpreimage), if_pos hrealm]
    exact ⟨rfl, rfl⟩
  by_cases hother : s.getLeafValue (planner.leafIndex item) ≠ item.oldUserLeafHash ∧
      s.getLeafValue (planner.leafIndex item) ≠ getZeroValue
  · refine iff_of_true (fun _ => ?_) (.inr (.inr (.inl hother.2)))
    unfold addEndCapJob
    dsimp only
    rw [if_neg (not_not.mpr hpreimage), if_neg (not_not.mpr hrealm), if_pos hother]
    exact ⟨rfl, rfl⟩
  rcases addEndCapJob_late ext checkpointTree contractUpdates item planner s hpreimage hrealm
    hother with ⟨hlate, hskipped, hdefers⟩ | ⟨hlate, hne⟩
  swap
  · exact iff_of_true (fun hskipped => absurd hskipped hne) (.inr (.inr (.inr (.inr hlate))))
  by_cases hwrites : s.getLeafValue (planner.leafIndex item) = getZeroValue ∧
      item.oldUserLeafHash ≠ getZeroValue
  · -- the leaf of the user is the declared one afterwards
    refine iff_of_false (fun hnone => ?_) (by simp [hpreimage, hrealm, hwrites, hlate])
    have htree := hdefers.tree_eq.symm.trans (hnone hskipped).tree_eq
    unfold initializeLeaf at htree
    dsimp only at htree
    rw [if_pos ⟨hwrites.1 ▸ hwrites.2.symm, hwrites.1⟩] at htree
    have hvalue := congrArg (fun st => st.getLeafValue (planner.leafIndex item)) htree
    rw [getLeafValue_setLeaf, Function.update_self, hwrites.1] at hvalue
    exact hwrites.2 hvalue
  · rw [initializeLeaf_eq_self (fun hzero => by
      by_contra hold
      exact hwrites ⟨hzero, hold⟩)] at hdefers
    refine iff_of_true (fun _ => hdefers) ?_
    by_cases hzero : s.getLeafValue (planner.leafIndex item) = getZeroValue
    · exact .inr (.inr (.inr (.inl (by_contra fun hold => hwrites ⟨hzero, hold⟩))))
    · exact .inr (.inr (.inl hzero))

open Coordinator (sampleCheckpointTree)

/-- An EndCap without stored contract updates, of a user who has a leaf. -/
theorem addEndCapJob_skipped_no_updates :
    (addEndCapJob sampleExternals (sampleCheckpointTree [.leaf 1]) none (sampleEndCap 0 0 1)
        (samplePlanner [0, 1, 3]) (sampleUserTree [0, 1, 3])).1 = .ok 0 ∧
      OnlyDefers (samplePlanner [0, 1, 3]) (sampleUserTree [0, 1, 3])
        (addEndCapJob sampleExternals (sampleCheckpointTree [.leaf 1]) none (sampleEndCap 0 0 1)
          (samplePlanner [0, 1, 3]) (sampleUserTree [0, 1, 3])) :=
  ⟨rfl, (addEndCapJob_skipped_iff _ _ _ _ _ _).mpr
    (.inr (.inr (.inl (by decide +kernel)))) rfl⟩

/-- **A SKIPPED ENDCAP THAT LEAVES A TRACE**: user 0 has no leaf; the EndCap is skipped for
want of contract updates, and its declared old leaf stays in the tree. -/
theorem addEndCapJob_skipped_writes :
    (addEndCapJob sampleExternals (sampleCheckpointTree [.leaf 1]) none (sampleEndCap 0 0 1)
        (samplePlanner [1, 3]) (sampleUserTree [1, 3])).1 = .ok 0 ∧
      (addEndCapJob sampleExternals (sampleCheckpointTree [.leaf 1]) none (sampleEndCap 0 0 1)
        (samplePlanner [1, 3]) (sampleUserTree [1, 3])).2.2.getLeafValue 0 =
          (sampleUserLeaf 0 0).qfhash ∧
      (sampleUserTree [1, 3]).getLeafValue 0 = getZeroValue ∧
      ¬ OnlyDefers (samplePlanner [1, 3]) (sampleUserTree [1, 3])
        (addEndCapJob sampleExternals (sampleCheckpointTree [.leaf 1]) none (sampleEndCap 0 0 1)
          (samplePlanner [1, 3]) (sampleUserTree [1, 3])) := by
  refine ⟨rfl, by decide +kernel, by decide +kernel, ?_⟩
  intro h
  have hroot := congrArg getRoot h.tree_eq
  exact absurd hroot (by decide +kernel)

end PsyNode.Realm
