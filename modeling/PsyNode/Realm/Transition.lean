/-
PsyNode.Realm.Transition
**THE ROOT TRANSITIONS OF A REALM'S PLAN** — the headers that the planned jobs
combine should meet, and together lead from the root the realm started with to
the root of its user tree.

The user tree is written when EndCaps are paired or promoted, in the order in
which the jobs are created; the transitions of the stack therefore link the
start root with the current one (`Linked`), as long as nothing else writes to
the tree.  Setting the missing leaf of a new user is such a write
(`realm_roots_break`); runs without one do link (`realm_roots_meet`).
-/
import PsyNode.Lib.Replay
import PsyNode.Realm.Schedule

namespace PsyNode.Realm

open Merkle Guta Recorder Store Lib.Agg Lib List Nat
open AggTree hiding input
open Coordinator (unkeyed sampleCheckpointTree)
open RealmGUTAPlanner SimpleMemoryMerkleRecorderStore

variable {F Hash : Type}

/-! ## §1. What a job verifies. -/

/-- The aggregation headers a circuit input names. -/
def RealmGutaWitness.headers {F Hash : Type} : RealmGutaWitness F Hash → List (GutaHeader F Hash)
  | .twoEndCap _ => []
  | .leftGUTARightEndCap input => [input.leftHeader]
  | .twoGUTALinear input => [input.leftHeader, input.rightHeader]
  | .singleEndCap _ => []
  | .toCapUpgradeCheckpoint input => [input.gutaProofHeader]
  | .realmFinalize input => [input.rootGutaHeader]

/-- **THE ROOTS MEET**: what the left input ends with, the right one starts from.  The fee
delta of the final job is its right input. -/
def RealmGutaWitness.RootsMeet {F Hash : Type} : RealmGutaWitness F Hash → Prop
  | .twoEndCap input => input.leftGlobalUserTreeDeltaMerkleProof.newRoot =
      input.rightGlobalUserTreeDeltaMerkleProof.oldRoot
  | .leftGUTARightEndCap input => input.leftHeader.stateTransition.newNodeValue =
      input.rightGlobalUserTreeDeltaMerkleProof.oldRoot
  | .twoGUTALinear input => input.leftHeader.stateTransition.newNodeValue =
      input.rightHeader.stateTransition.oldNodeValue
  | .singleEndCap _ => True
  | .toCapUpgradeCheckpoint _ => True
  | .realmFinalize input => input.rootGutaHeader.stateTransition.newNodeValue =
      input.validatorFeeDeltaProof.oldRoot

/-- The header of a tree that has one. -/
def treeHeader (t : PlanTree F Hash) : Option (GutaHeader F Hash) :=
  (topGuta t).map (fun guta => guta.header)

/-- A job verifies the headers of its children, and their roots meet. -/
structure Verifies (j : PlannedJob F Hash) (children : List (PlanTree F Hash)) : Prop where
  headers : j.witness.headers = children.filterMap treeHeader
  meet : j.witness.RootsMeet

/-- The root transition of a tree that has a header. -/
def transition (t : PlanTree F Hash) : Option (Hash × Hash) :=
  (topGuta t).map (fun guta =>
    (guta.header.stateTransition.oldNodeValue, guta.header.stateTransition.newNodeValue))

variable {guta : JobHeader F Hash} {t : PlanTree F Hash}

theorem transition_of_topGuta (h : topGuta t = some guta) :
    transition t = some (guta.header.stateTransition.oldNodeValue,
      guta.header.stateTransition.newNodeValue) := by
  rw [transition, h]
  rfl

theorem transition_input (item : EndCap F Hash) : transition (.input item) = none := rfl

theorem treeHeader_of_topGuta (h : topGuta t = some guta) : treeHeader t = some guta.header := by
  rw [treeHeader, h]
  rfl

/-! ## §2. The users of a realm. -/

/-- The users of the realm have leaves in its tree. -/
def Ranged (config : RealmPlannerConfig Hash) : Prop :=
  ∀ userId, config.InRealm userId → userId - config.realmUserMinId < 2 ^ config.realmTreeHeight

/-- The user ids of a realm, computed with 64 bits, number the leaves of its tree. -/
theorem realm_range (realmId treeHeight userId : Nat)
    (hlo : (realmId <<< treeHeight) % 2 ^ 64 ≤ userId)
    (hhi : userId ≤ (((realmId + 1) <<< treeHeight) % 2 ^ 64 + (2 ^ 64 - 1)) % 2 ^ 64) :
    userId - (realmId <<< treeHeight) % 2 ^ 64 < 2 ^ treeHeight := by
  rw [shiftLeft_eq] at hlo hhi ⊢
  have huser : userId < 2 ^ 64 := lt_of_le_of_lt hhi (mod_lt _ (by norm_num))
  by_cases h : treeHeight < 64
  · -- the ids are a multiple of the tree's size, below the multiple after it
    obtain ⟨k, hk⟩ : ∃ k, 2 ^ 64 = 2 ^ treeHeight * k := Nat.pow_dvd_pow 2 h.le
    have hmin : realmId * 2 ^ treeHeight % 2 ^ 64 = 2 ^ treeHeight * (realmId % k) := by
      rw [hk, mul_comm realmId, mul_mod_mul_left]
    have hend : (realmId + 1) * 2 ^ treeHeight % 2 ^ 64 =
        2 ^ treeHeight * ((realmId + 1) % k) := by
      rw [hk, mul_comm (realmId + 1), mul_mod_mul_left]
    have hlt : realmId % k < k := by
      refine mod_lt _ (Nat.pos_of_ne_zero ?_)
      intro hzero
      rw [hzero, Nat.mul_zero] at hk
      exact absurd hk (by norm_num)
    rw [hend, ← mod_add_mod realmId k 1] at hhi
    by_cases hlast : realmId % k + 1 = k
    · rw [← hlast, mul_succ] at hk
      omega
    · have hle : 2 ^ treeHeight * (realmId % k + 1) ≤ 2 ^ 64 := by
        rw [hk]
        exact Nat.mul_le_mul_left _ hlt
      have hpos : 0 < 2 ^ treeHeight := Nat.two_pow_pos _
      rw [mod_eq_of_lt (by omega : realmId % k + 1 < k)] at hhi
      rw [mul_succ] at hle hhi
      omega
  · have hmin : realmId * 2 ^ treeHeight % 2 ^ 64 = 0 := by
      exact mod_eq_zero_of_dvd (Dvd.dvd.mul_left (Nat.pow_dvd_pow 2 (not_lt.mp h)) _)
    rw [hmin, Nat.sub_zero]
    exact lt_of_lt_of_le huser (Nat.pow_le_pow_right (by norm_num) (not_lt.mp h))

variable {planner : RealmGUTAPlanner F Hash}

theorem Created.ranged (h : Created planner) : Ranged planner.toRealmPlannerConfig := by
  intro userId hrealm
  have hmin : planner.realmUserMinId = (planner.realmIdU64 <<< planner.realmTreeHeight) % 2 ^ 64 :=
    congrArg (fun planner => planner.realmUserMinId) h
  have hmax : planner.realmUserMaxId =
      (((planner.realmIdU64 + 1) <<< planner.realmTreeHeight) % 2 ^ 64 + (2 ^ 64 - 1)) % 2 ^ 64 :=
    congrArg (fun planner => planner.realmUserMaxId) h
  unfold RealmPlannerConfig.InRealm at hrealm
  rw [hmin, hmax, not_or, not_lt, not_lt] at hrealm
  rw [hmin]
  exact realm_range _ _ _ hrealm.1 hrealm.2

/-! ## §3. Linked stacks. -/

variable [QFelt64 F] [MerkleZeroHasher Hash]

/-- The transition of a new job. -/
def jobTransition (j : PlannedJob F Hash) : Hash × Hash :=
  (j.header.stateTransition.oldNodeValue, j.header.stateTransition.newNodeValue)

/-- What a new job leaves: its children's headers meet, and the transitions of the stack
link the same root with the new one. -/
structure Extends (config : RealmPlannerConfig Hash) (a : Hash) (ps : List (Hash × Hash))
    (j : PlannedJob F Hash) (children : List (PlanTree F Hash))
    (s' : RecorderStore Hash) : Prop where
  verifies : Verifies j children
  links : Links a (ps ++ [jobTransition j]) s'.getRoot
  height : s'.height = config.realmTreeHeight

/-- **LINKED STACKS**: from the root of `start` to the root of `s`, with every job
verifying children that meet. -/
structure Linked (config : RealmPlannerConfig Hash)
    (start s : RecorderStore Hash) (ts : List (PlanTree F Hash)) : Prop where
  links : Links start.getRoot (ts.filterMap transition) s.getRoot
  height : s.height = config.realmTreeHeight
  inRealm : ∀ item ∈ stackInputs ts, config.InRealm item.userId
  verifies : ∀ t ∈ ts, t.Each (fun j c => Verifies j [c]) (fun j l r => Verifies j [l, r])

variable {config : RealmPlannerConfig Hash} {s s' start : RecorderStore Hash}
  {j : PlannedJob F Hash} {ts : List (PlanTree F Hash)}

/-- The topmost trees are replaced by one with a new job. -/
theorem Linked.join {children : List (PlanTree F Hash)} (h : Linked config start s (ts ++ children))
    (hinputs : t.inputs = stackInputs children)
    (htransition : transition t = some (jobTransition j))
    (heach : t.Each (fun j c => Verifies j [c]) (fun j l r => Verifies j [l, r]))
    (hext : Extends config start.getRoot (ts.filterMap transition) j children s') :
    Linked config start s' (ts ++ [t]) := by
  refine ⟨?_, hext.height, ?_, ?_⟩
  · rw [filterMap_append, filterMap_cons, htransition]
    exact hext.links
  · have hsame : stackInputs (ts ++ [t]) = stackInputs (ts ++ children) := by
      simp only [stackInputs, flatMap_append] at hinputs ⊢
      rw [flatMap_singleton, hinputs]
    rw [hsame]
    exact h.inRealm
  · rw [forall_mem_append, forall_mem_singleton]
    exact ⟨fun t ht => h.verifies t (mem_append_left _ ht), heach⟩

/-! ## §4. One job. -/

variable [DecidableEq Hash] {item : EndCap F Hash}

/-- No leaf is set outside of a job: an EndCap added by `add_end_cap_job` finds its user's
leaf in the tree, unless it starts from a missing one itself. -/
def LeafPresent : RealmCall F Hash → RealmGUTAPlanner F Hash → RecorderStore Hash → Prop
  | .addEndCapJob _ _ item, planner, tree =>
    planner.InRealm item.userId → tree.getLeafValue (planner.leafIndex item) = getZeroValue →
      item.oldUserLeafHash = getZeroValue
  | .addFutureEndCapJobs .., _, _ => True

instance decidableLeafPresent : (call : RealmCall F Hash) → (planner : RealmGUTAPlanner F Hash) →
    (tree : RecorderStore Hash) → Decidable (LeafPresent call planner tree)
  | .addEndCapJob .., _, _ => inferInstanceAs (Decidable (_ → _ → _))
  | .addFutureEndCapJobs .., _, _ => .isTrue trivial

section
variable (hranged : Ranged config) (hheight : s.height = config.realmTreeHeight)
include hranged hheight

/-- Writing an EndCap's leaf moves the root along the delta proof. -/
theorem writeEndCap_roots {dmp : DeltaMerkleProofCore Hash}
    (hrealm : config.InRealm item.userId) (h : config.writeEndCap s item = (s', dmp)) :
    dmp.oldRoot = s.getRoot ∧ dmp.newRoot = s'.getRoot ∧ s'.height = config.realmTreeHeight := by
  have hindex : config.leafIndex item < 2 ^ s.height := by
    rw [hheight]
    exact hranged item.userId hrealm
  obtain ⟨hold, hnew⟩ := s.setLeaf_roots hindex item.newUserLeafHash
  cases h
  exact ⟨hold, hnew, (s.height_setLeaf _ _).trans hheight⟩

variable [HashTo4Felts F Hash] [FieldQHasher F Hash] {a : Hash} {ps : List (Hash × Hash)}

/-- **A JOIN** of linked trees. -/
theorem Pairs.extends {l r : PlanTree F Hash} (h : Pairs config s l r j s')
    (hrealm : ∀ item ∈ l.inputs ++ r.inputs, config.InRealm item.userId)
    (hlinks : Links a (ps ++ [l, r].filterMap transition) s.getRoot) :
    Extends config a ps j [l, r] s' := by
  cases h with
  | @twoEndCap left right s₁ s₂ leftDmp rightDmp checkpointTree slot hleft hright =>
    -- neither child has a header: the new transition starts at the current root
    simp only [filterMap_cons, transition_input, filterMap_nil, append_nil] at hlinks
    obtain ⟨hold, hmid, hheight₁⟩ := writeEndCap_roots hranged hheight
      (hrealm left (by simp [inputs])) hleft
    obtain ⟨hmid', hnew, hheight₂⟩ := writeEndCap_roots hranged hheight₁
      (hrealm right (by simp [inputs])) hright
    refine ⟨⟨rfl, hmid.trans hmid'.symm⟩, ?_, hheight₂⟩
    exact links_append.mpr ⟨_, hlinks, hold.symm, hnew⟩
  | @linear l r left right level slot hl hr =>
    simp only [filterMap_cons, transition_of_topGuta hl, transition_of_topGuta hr,
      filterMap_nil] at hlinks
    obtain ⟨hmeet, hlinks'⟩ := hlinks.merge
    refine ⟨⟨?_, hmeet⟩, hlinks', hheight⟩
    simp only [filterMap_cons, treeHeader_of_topGuta hl, treeHeader_of_topGuta hr]
    rfl
  | @leftGutaRightEndCap l left right s₁ rightDmp checkpointTree level slot hl hright =>
    simp only [filterMap_cons, transition_of_topGuta hl, transition_input, filterMap_nil] at hlinks
    obtain ⟨c, hps, hstart, hend⟩ := links_append.mp hlinks
    obtain ⟨hold, hnew, hheight₁⟩ := writeEndCap_roots hranged hheight
      (hrealm right (by simp [inputs])) hright
    refine ⟨⟨?_, hend.trans hold.symm⟩, ?_, hheight₁⟩
    · simp only [filterMap_cons, treeHeader_of_topGuta hl]
      rfl
    · exact links_append.mpr ⟨c, hps, hstart, hnew⟩

/-- **A PROMOTION** of a linked tree. -/
theorem Wraps.extends (h : Wraps config s t j s')
    (hrealm : ∀ item ∈ t.inputs, config.InRealm item.userId)
    (hlinks : Links a (ps ++ [t].filterMap transition) s.getRoot) :
    Extends config a ps j [t] s' := by
  cases h with
  | @singleEndCap item s₁ dmp checkpointTree rewardLevel rewardIndex hdmp =>
    simp only [filterMap_cons, transition_input, filterMap_nil, append_nil] at hlinks
    obtain ⟨hold, hnew, hheight₁⟩ := writeEndCap_roots hranged hheight
      (hrealm item (by simp [inputs])) hdmp
    exact ⟨⟨rfl, trivial⟩, links_append.mpr ⟨_, hlinks, hold.symm, hnew⟩, hheight₁⟩
  | @upgrade t root proof level ht =>
    -- without siblings the transition is lifted by nothing
    simp only [filterMap_cons, transition_of_topGuta ht, filterMap_nil] at hlinks
    refine ⟨⟨?_, trivial⟩, hlinks, hheight⟩
    simp only [filterMap_cons, treeHeader_of_topGuta ht]
    rfl

end

/-! ## §5. The whole stack. -/

variable [HashTo4Felts F Hash] [FieldQHasher F Hash]

/-- **EVERY REACHED STACK IS LINKED**, if only the machine writes to the tree. -/
theorem reached_linked (hranged : Ranged config) (hstart : start.height = config.realmTreeHeight)
    (h : (machine config Eq).Reached start ts s) : Linked config start s ts := by
  induction h with
  | start => exact ⟨rfl, hstart, by simp [stackInputs], by simp⟩
  | idle _ heq ih => exact heq ▸ ih
  | @shift ts s item s' _ hstep ih =>
    obtain ⟨rfl, hrealm⟩ := hstep
    refine ⟨?_, ih.height, ?_, ?_⟩
    · rw [filterMap_append]
      show Links _ (ts.filterMap transition ++ []) _
      rw [append_nil]
      exact ih.links
    · rw [stackInputs, flatMap_append, flatMap_singleton, inputs, forall_mem_append,
        forall_mem_singleton]
      exact ⟨ih.inRealm, hrealm⟩
    · rw [forall_mem_append, forall_mem_singleton]
      exact ⟨ih.verifies, trivial⟩
  | @wrap ts s t j s' _ hstep ih =>
    have hlinks := ih.links
    rw [filterMap_append] at hlinks
    have hrealm : ∀ item ∈ t.inputs, config.InRealm item.userId := fun item hitem =>
      ih.inRealm item (by simp [stackInputs, hitem])
    have hext := hstep.2.extends hranged ih.height hrealm hlinks
    refine ih.join (by simp [stackInputs, inputs]) rfl ⟨hext.verifies, ?_⟩ hext
    exact ih.verifies t (by simp)
  | @pair ts s l r j s' _ hstep ih =>
    have hlinks := ih.links
    rw [filterMap_append] at hlinks
    have hrealm : ∀ item ∈ l.inputs ++ r.inputs, config.InRealm item.userId := fun item hitem =>
      ih.inRealm item (by rw [mem_append] at hitem; simp [stackInputs, hitem])
    have hext := hstep.2.2.extends hranged ih.height hrealm hlinks
    refine ih.join (by simp [stackInputs, inputs]) rfl
      ⟨hext.verifies, ih.verifies l (by simp), ih.verifies r (by simp)⟩ hext

/-- **THE FEE JOB** on a linked tree ends in the root after the fees are paid. -/
theorem Pays.linked {fin : PlannedJob F Hash} (h : Pays config s t fin s')
    (hranged : Ranged config) (hlinked : Linked config start s [t]) :
    Verifies fin [t] ∧ fin.header.stateTransition.oldNodeValue = start.getRoot ∧
      fin.header.stateTransition.newNodeValue = s'.getRoot := by
  cases h with
  | @fee root validatorUserId input level slot ht hinput hrealm hroot hdelta =>
    have hlinks := hlinked.links
    rw [filterMap_cons, transition_of_topGuta ht] at hlinks
    have hindex : input.validatorFeeDeltaProof.index < 2 ^ s.height := by
      rw [hdelta.index, hlinked.height]
      exact hranged validatorUserId hrealm
    refine ⟨⟨?_, ?_⟩, hlinks.1.symm, ?_⟩
    · simp only [filterMap_cons, treeHeader_of_topGuta ht, filterMap_nil]
      exact congrArg (fun header => [header]) hinput
    · show input.rootGutaHeader.stateTransition.newNodeValue = _
      rw [hinput, hroot, hdelta.oldRoot]
    · show input.validatorFeeDeltaProof.newRoot = _
      rw [hdelta.newRoot, hdelta.siblings]
      exact s.getRoot_setLeaf hindex input.validatorFeeDeltaProof.newValue

/-! ## §6. Runs. -/

/-- **THE PLAN'S ROOTS MEET**: the jobs form one tree over the accepted EndCaps, every job
verifies its children's headers, which meet, and the final header leads from the root the
realm started with to the root of its tree. -/
structure RootsMeet (startRealmRoot : Hash) (accepted : List (EndCap F Hash))
    (out : RealmFinalizeOutput F Hash) (planner : RealmGUTAPlanner F Hash)
    (tree : RecorderStore Hash) (t : PlanTree F Hash) : Prop where
  inputs : t.inputs = accepted
  /-- The dependencies of every job are its children. -/
  wired : t.Wired labels
  jobs : (out.jobIds.flatten.map unkeyed).Perm (t.jobs.map (fun j => unkeyed j.metadata))
  witnesses : planner.savedWitnesses = t.jobs.map (fun j => (j.metadata.jobId, j.witness))
  verifies : t.Each (fun j c => Verifies j [c]) (fun j l r => Verifies j [l, r])
  oldNodeValue : out.gutaHeader.header.stateTransition.oldNodeValue = startRealmRoot
  newNodeValue : out.gutaHeader.header.stateTransition.newNodeValue = tree.getRoot

/-- **A REALM'S ROOTS MEET** in every run in which no leaf is set outside of a job. -/
theorem realm_roots_meet (ext : Externals) (calls : List (RealmCall F Hash))
    {planner planner₁ planner₂ : RealmGUTAPlanner F Hash}
    {tree tree₁ tree₂ : SimpleMemoryMerkleRecorderStore Hash} {accepted : List (EndCap F Hash)}
    (checkpointTree : PsyDashMemoryAppendOnlyMerkleStore Hash) (rewardLevel rewardIndex : Nat)
    {out : RealmFinalizeOutput F Hash} (hcreated : Created planner)
    (hroot : planner.startRealmRoot = tree.getRoot)
    (hheight : tree.height = planner.realmTreeHeight)
    (hrun : runCalls ext calls planner tree = some (accepted, planner₁, tree₁))
    (hpresent : Throughout ext LeafPresent calls planner tree) (hbound : accepted.length < 2 ^ 30)
    (hfinal : finalizeWithRewardIds ext checkpointTree rewardLevel rewardIndex planner₁ tree₁ =
      .ok (some out, planner₂, tree₂)) :
    ∃ t, RootsMeet planner.startRealmRoot accepted out planner₂ tree₂ t := by
  have hadding : Adding planner.toRealmPlannerConfig Eq tree accepted planner₁ tree₁ := by
    refine runCalls_adding ?_ hpresent hcreated.adding hrun hbound
    intro checkpointTree contractUpdates item planner s hpresent hconfig hrealm
    rw [← hconfig]
    exact (initializeLeaf_eq_self (hpresent hrealm)).symm
  obtain ⟨s₁, t, fin, hfinalized, _⟩ := hadding.exists_finalized hfinal
  have hlinked := reached_linked hcreated.ranged hheight hfinalized.reached
  obtain ⟨hfin, hold, hnew⟩ := hfinalized.pays.linked hcreated.ranged hlinked
  refine ⟨.wrap fin t, hfinalized.inputs, hfinalized.wired, hfinalized.flatten_perm,
    hfinalized.savedWitnesses, ⟨hfin, hlinked.verifies t (mem_singleton_self t)⟩, ?_, ?_⟩
  · rw [hfinalized.header, hroot]
    exact hold
  · rw [hfinalized.header]
    exact hnew

/-- Three EndCaps of registered users. -/
theorem realm_roots_meet_three_endCaps :
    ∃ planner₁ tree₁ out planner₂ tree₂ t,
      runCalls sampleExternals sampleRealmCalls (samplePlanner [0, 1, 3])
          (sampleUserTree [0, 1, 3]) =
        some ([sampleEndCap 0 0 1, sampleEndCap 1 0 1, sampleEndCap 0 1 2], planner₁, tree₁) ∧
      finalizeWithRewardIds sampleExternals (sampleCheckpointTree [.leaf 1]) 0 0 planner₁ tree₁ =
        .ok (some out, planner₂, tree₂) ∧
      RootsMeet (sampleUserTree [0, 1, 3]).getRoot
        [sampleEndCap 0 0 1, sampleEndCap 1 0 1, sampleEndCap 0 1 2] out planner₂ tree₂ t := by
  obtain ⟨planner₁, tree₁, out, planner₂, tree₂, hrun, hfinal, _⟩ :=
    exists_of_sampleOutput sampleOutput_levels
  obtain ⟨t, ht⟩ := realm_roots_meet sampleExternals sampleRealmCalls _ 0 0
    (created_samplePlanner _) rfl (by decide +kernel) hrun (by decide +kernel) (by decide) hfinal
  exact ⟨planner₁, tree₁, out, planner₂, tree₂, t, hrun, hfinal, ht⟩

/-- **A LEAF SET OUTSIDE OF A JOB**: while the EndCap of user 1 waits, the missing leaf of
user 0 is set, so the aggregate starts from a root the realm did not start with. -/
theorem realm_roots_break :
    Created (samplePlanner [1, 3]) ∧
    (samplePlanner [1, 3]).startRealmRoot = (sampleUserTree [1, 3]).getRoot ∧
    (sampleUserTree [1, 3]).height = (samplePlanner [1, 3]).realmTreeHeight ∧
    ∃ planner₁ tree₁ out planner₂ tree₂,
      runCalls sampleExternals [sampleAdd (sampleEndCap 1 0 1), sampleAdd (sampleEndCap 0 0 1)]
          (samplePlanner [1, 3]) (sampleUserTree [1, 3]) =
        some ([sampleEndCap 1 0 1, sampleEndCap 0 0 1], planner₁, tree₁) ∧
      finalizeWithRewardIds sampleExternals (sampleCheckpointTree [.leaf 1]) 0 0 planner₁ tree₁ =
        .ok (some out, planner₂, tree₂) ∧
      out.gutaHeader.header.stateTransition.oldNodeValue = (sampleUserTree [0, 1, 3]).getRoot ∧
      ¬ ∃ t, RootsMeet (samplePlanner [1, 3]).startRealmRoot
        [sampleEndCap 1 0 1, sampleEndCap 0 0 1] out planner₂ tree₂ t := by
  have hroot : (sampleOutput
      [sampleAdd (sampleEndCap 1 0 1), sampleAdd (sampleEndCap 0 0 1)] [1, 3]).map
      (fun res => (res.1, res.2.map
        (fun out => out.gutaHeader.header.stateTransition.oldNodeValue))) =
      some ([sampleEndCap 1 0 1, sampleEndCap 0 0 1],
        some (sampleUserTree [0, 1, 3]).getRoot) := by
    decide +kernel
  obtain ⟨planner₁, tree₁, out, planner₂, tree₂, hrun, hfinal, hold⟩ :=
    exists_of_sampleOutput hroot
  refine ⟨created_samplePlanner _, rfl, by decide +kernel, planner₁, tree₁, out, planner₂, tree₂,
    hrun, hfinal, hold, ?_⟩
  intro hmeet
  obtain ⟨t, ht⟩ := hmeet
  exact absurd (hold.symm.trans ht.oldNodeValue) (by decide +kernel)

end PsyNode.Realm
