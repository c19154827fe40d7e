/-
PsyNode.Coordinator.State
**THE STATE TRANSITION OF A BLOCK.**

A submission is written to the user tree when it is first aggregated, so up to two
submissions wait on the stack without being written.  `Applied` says where a block
stands: the user tree is the start tree with the submissions of all AGGREGATED
trees written in the order of their arrival, each of them was checked against the
tree at that point, and the aggregates' root transitions link the start root to the
current root.
-/
import PsyNode.Lib.Replay
import PsyNode.Coordinator.Schedule

namespace PsyNode.Coordinator

open Merkle Guta Recorder Lib.Agg Lib.Merkle Lib List
open AggTree hiding input
open CoordinatorGUTAPlanner SimpleMemoryMerkleRecorderStore

/-! ## §1. Writing headers. -/

/-- The left input of an aggregation ends at the root where the right one starts. -/
def GutaWitness.RootsMeet {F Hash : Type} : GutaWitness F Hash → Prop
  | .twoGUTAUpgradeCheckpoint input => input.leftGlobalUserTreeDeltaMerkleProof.newRoot =
      input.rightGlobalUserTreeDeltaMerkleProof.oldRoot
  | .twoGUTA input => input.leftGlobalUserTreeDeltaMerkleProof.newRoot =
      input.rightGlobalUserTreeDeltaMerkleProof.oldRoot
  | .twoGUTALinear input => input.leftHeader.stateTransition.newNodeValue =
      input.rightHeader.stateTransition.oldNodeValue
  | .leftLinearRightLeafUpgradeCheckpoint input => input.leftHeader.stateTransition.newNodeValue =
      input.rightGlobalUserTreeDeltaMerkleProof.oldRoot
  -- one input only
  | .toCap _ => True
  | .toCapUpgradeCheckpoint _ => True
  | .noChange _ => True

section
variable {F Hash : Type} [QFelt64 F] [MerkleZeroHasher Hash]

/-- The realm leaf a header updates. -/
def leafIndex (header : GutaHeader F Hash) : Nat :=
  toU64Value header.stateTransition.nodeIndex

/-- Promotion lifts both values of the transition to the root. -/
theorem getNewStateTransition_eq_climb (header : GutaHeader F Hash)
    (siblings : List Hash) : (getNewStateTransition header siblings).oldNodeValue =
        climb twoToOne header.stateTransition.oldNodeValue (leafIndex header) siblings ∧
      (getNewStateTransition header siblings).newNodeValue =
        climb twoToOne header.stateTransition.newNodeValue (leafIndex header) siblings := by
  unfold getNewStateTransition
  cases siblings with
  | nil => exact ⟨rfl, rfl⟩
  | cons x xs =>
    simp only [length_cons, Nat.succ_ne_zero, if_false, computeRootMerkleProofGeneric_eq_climb]
    exact ⟨rfl, rfl⟩

variable [DecidableEq Hash] (s : RecorderStore Hash)

/-- Write a header's new value to its leaf. -/
def applyHeader (header : GutaHeader F Hash) : RecorderStore Hash :=
  (s.setELeaf (leafIndex header) header.stateTransition.newNodeValue).1

/-- The header starts from the value its leaf has. -/
def StartsFrom (header : GutaHeader F Hash) : Prop :=
  s.getELeafValue (leafIndex header) = header.stateTransition.oldNodeValue

/-- A tree whose leaves at the effective height are hashed up to the root. -/
def EffectivelySettled : Prop :=
  Settled twoToOne s.table s.effectiveHeight

/-- The header's leaf lies in the tree. -/
def InRange (header : GutaHeader F Hash) : Prop :=
  leafIndex header < 2 ^ s.effectiveHeight

variable {s : RecorderStore Hash} {header : GutaHeader F Hash}

omit [DecidableEq Hash] in
theorem effectivelySettled_new (height : Nat) :
    EffectivelySettled (new height : RecorderStore Hash) := by
  unfold EffectivelySettled
  rw [table_new]
  exact settled_zero _ height

theorem applyHeader_written (hs : EffectivelySettled s) (hi : InRange s header) :
    LeafWritten s s.effectiveHeight (leafIndex header) header.stateTransition.newNodeValue
      (applyInputLeafUpdateToGlobalTree s header) :=
  setLeafFrom_written hs hi _

theorem effectiveHeight_setELeaf (s : RecorderStore Hash) (index : Nat)
    (value : Hash) : (s.setELeaf index value).1.effectiveHeight = s.effectiveHeight :=
  Writes.effectiveHeight (writes_setPath _ _ _ _)

theorem EffectivelySettled.setELeaf (hs : EffectivelySettled s) (index : Nat) (value : Hash) :
    EffectivelySettled (s.setELeaf index value).1 := by
  unfold EffectivelySettled
  rw [effectiveHeight_setELeaf]
  exact setLeafFrom_settled hs index value

/-- The leaves after a write. -/
theorem getELeafValue_setELeaf (s : RecorderStore Hash) (index : Nat) (value : Hash) :
    (s.setELeaf index value).1.getELeafValue = Function.update s.getELeafValue index value := by
  funext i
  show (s.setELeaf index value).1.table (s.setELeaf index value).1.effectiveHeight i = _
  rw [effectiveHeight_setELeaf]
  exact congrFun (setLeafFrom_leaves s s.effectiveHeight index value) i

/-- The value of a leaf after a write. -/
theorem getELeafValue_applyHeader (s : RecorderStore Hash) (header : GutaHeader F Hash) (i : Nat) :
    (applyHeader s header).getELeafValue i =
      if leafIndex header = i then header.stateTransition.newNodeValue else s.getELeafValue i := by
  unfold applyHeader
  rw [getELeafValue_setELeaf]
  by_cases h : leafIndex header = i
  · rw [if_pos h, ← h, Function.update_self]
  · rw [if_neg h, Function.update_of_ne (Ne.symm h)]

/-- **A PENDING UPDATE** is read as if it were written. -/
theorem getLeafValueAfterPendingUpdates_one (s : RecorderStore Hash)
    (header : GutaHeader F Hash) (i : Nat) :
    getLeafValueAfterPendingUpdates s [(leafIndex header, header.stateTransition.newNodeValue)] i =
      (applyHeader s header).getELeafValue i := by
  rw [getELeafValue_applyHeader]
  unfold getLeafValueAfterPendingUpdates
  by_cases h : leafIndex header = i
  · simp [h]
  · simp [h]

/-- The headers were written one after the other, each to the leaf it starts from, and the
transitions lead from the start root to the current root. -/
structure AppliedTo (start : RecorderStore Hash)
    (headers : List (GutaHeader F Hash)) (transitions : List (Hash × Hash))
    (s : RecorderStore Hash) : Prop where
  settled : EffectivelySettled s
  effectiveHeight : s.effectiveHeight = start.effectiveHeight
  tree : s = headers.foldl applyHeader start
  accepted : Accepted StartsFrom applyHeader start headers
  linked : Links start.getRoot transitions s.getRoot

/-- **WHAT WAS WRITTEN**, in a tree that need not hold the leaves: the headers, one after the
other, each to the leaf it starts from. -/
structure Wrote (start : RecorderStore Hash)
    (headers : List (GutaHeader F Hash)) (s : RecorderStore Hash) : Prop where
  tree : s = headers.foldl applyHeader start
  accepted : Accepted StartsFrom applyHeader start headers

variable {start s' : RecorderStore Hash} {dmp : DeltaMerkleProofCore Hash}
  {headers : List (GutaHeader F Hash)} {transitions : List (Hash × Hash)}

theorem Wrote.write (h : Wrote start headers s) (hstart : StartsFrom s header)
    (hdmp : applyInputLeafUpdateToGlobalTree s header = (s', dmp)) :
    Wrote start (headers ++ [header]) s' := by
  have hs' : applyHeader s header = s' := congrArg Prod.fst hdmp
  refine ⟨?_, ?_⟩
  · rw [foldl_append, ← h.tree]
    exact hs'.symm
  · rw [accepted_append, ← h.tree]
    exact ⟨h.accepted, hstart, trivial⟩

/-- **AN ACCOUNT OF A BLOCK**: it goes on with a header that `ok` allows, written to the leaf it
starts from, and joins its last two transitions, which meet if `P` holds. -/
structure Account (P : Prop) (ok : GutaHeader F Hash → Prop)
    (A : List (GutaHeader F Hash) → List (Hash × Hash) → RecorderStore Hash → Prop) : Prop where
  write : ∀ {headers transitions s header s' dmp}, A headers transitions s → ok header →
    StartsFrom s header → applyInputLeafUpdateToGlobalTree s header = (s', dmp) →
    A (headers ++ [header]) (transitions ++ [(dmp.oldRoot, dmp.newRoot)]) s'
  merge : ∀ {headers transitions s a b c d}, A headers (transitions ++ [(a, b), (c, d)]) s →
    (P → b = c) ∧ A headers (transitions ++ [(a, d)]) s

/-- The delta proof of a write is the next root transition. -/
theorem account_appliedTo (start : RecorderStore Hash) :
    Account True (InRange start) (AppliedTo (F := F) start) where
  write := by
    intro headers transitions s header s' dmp h hi hstart hdmp
    have hi' : InRange s header := by
      unfold InRange
      rw [h.effectiveHeight]
      exact hi
    have hw := applyHeader_written h.settled hi'
    have hs' : applyHeader s header = s' := congrArg Prod.fst hdmp
    rw [hdmp] at hw
    obtain ⟨htree, haccepted⟩ := Wrote.write ⟨h.tree, h.accepted⟩ hstart hdmp
    refine ⟨hs' ▸ h.settled.setELeaf _ _, ?_, htree, haccepted, ?_⟩
    · rw [← hs', applyHeader, effectiveHeight_setELeaf, h.effectiveHeight]
    · rw [links_append]
      exact ⟨s.getRoot, h.linked, hw.oldRoot.symm, hw.newRoot⟩
  merge := fun h => ⟨fun _ => h.linked.merge.1, h.settled, h.effectiveHeight, h.tree, h.accepted,
    h.linked.merge.2⟩

variable {P : Prop} {ok : GutaHeader F Hash → Prop}
  {A : List (GutaHeader F Hash) → List (Hash × Hash) → RecorderStore Hash → Prop}

/-- **TWO LEAVES**, the right one checked against the pending value of the left one. -/
theorem Account.write_two (hA : Account P ok A) {left right : GutaHeader F Hash}
    (h : A headers transitions s) (hil : ok left) (hir : ok right) (hleft : StartsFrom s left)
    (hright : getLeafValueAfterPendingUpdates s
      [(leafIndex left, left.stateTransition.newNodeValue)] (leafIndex right) =
        right.stateTransition.oldNodeValue)
    {s₁ s₂ : RecorderStore Hash} {leftDmp rightDmp : DeltaMerkleProofCore Hash}
    (hleftDmp : applyInputLeafUpdateToGlobalTree s left = (s₁, leftDmp))
    (hrightDmp : applyInputLeafUpdateToGlobalTree s₁ right = (s₂, rightDmp)) :
    (P → leftDmp.newRoot = rightDmp.oldRoot) ∧ A (headers ++ [left, right])
      (transitions ++ [(leftDmp.oldRoot, rightDmp.newRoot)]) s₂ := by
  have hs₁ : applyHeader s left = s₁ := congrArg Prod.fst hleftDmp
  have hstart : StartsFrom s₁ right := by
    rw [getLeafValueAfterPendingUpdates_one, hs₁] at hright
    exact hright
  have htwo := hA.write (hA.write h hil hleft hleftDmp) hir hstart hrightDmp
  rw [append_assoc, append_assoc] at htwo
  exact hA.merge htwo

variable {w : GutaWitness F Hash} {ctx : CallContext Hash}
  {hd : GutaHeader F Hash}

/-- What a promotion writes and returns. -/
theorem Promotes.applied {node : PlannerNode F Hash} (h : Promotes ctx node s w hd s')
    (hs : EffectivelySettled s) (hi : InRange s node.header) :
    StartsFrom s node.header ∧ s' = applyHeader s node.header ∧ w.RootsMeet ∧
      hd.stateTransition.oldNodeValue = s.getRoot ∧
      hd.stateTransition.newNodeValue = s'.getRoot ∧ hd.stats = node.header.stats ∧
      hd.totalAggregationProofsGenerated =
        node.header.totalAggregationProofsGenerated + fromU64Value 1 := by
  have hw := applyHeader_written hs hi
  cases h with
  | toCap hold _ hdmp | toCapUpgrade hold _ hdmp =>
    -- both circuits lift the transition along the siblings of the written leaf
    have hstart : StartsFrom s node.header := hold
    rw [hdmp] at hw
    refine ⟨hold, (congrArg Prod.fst hdmp).symm, trivial, ?_, ?_, rfl, rfl⟩
    · refine (getNewStateTransition_eq_climb node.header _).1.trans ?_
      rw [← hstart]
      exact hw.oldClimb
    · exact (getNewStateTransition_eq_climb node.header _).2.trans hw.newClimb

/-- Every circuit adds the statistics of its inputs and counts itself. -/
theorem Aggregates.sums {left right : PlannerNode F Hash}
    (h : Aggregates ctx left right s w hd s') :
    hd.stats = left.header.stats.combineWith right.header.stats ∧
      hd.totalAggregationProofsGenerated = left.header.totalAggregationProofsGenerated +
        right.header.totalAggregationProofsGenerated + fromU64Value 1 := by
  cases h with
  | leavesUpgrade => exact ⟨rfl, rfl⟩
  | leaves => exact ⟨rfl, rfl⟩
  | linear => exact ⟨rfl, rfl⟩
  | mixed => exact ⟨rfl, rfl⟩

end

/-! ## §2. The invariant of a block. -/

section
variable {F Hash : Type}

/-- The header of a submission. -/
def headerOf (job : Submission F Hash) : GutaHeader F Hash := job.header.header

/-- The trees of a stack that are not lone submissions. -/
def aggregates (ts : List (PlanTree F Hash)) : List (PlanTree F Hash) :=
  ts.filter (fun t => 0 < t.height)

/-- The root transition of a tree. -/
def rootTransition (t : PlanTree F Hash) : Hash × Hash :=
  ((nodeOf t).header.stateTransition.oldNodeValue, (nodeOf t).header.stateTransition.newNodeValue)

variable {ts : List (PlanTree F Hash)} {t l r : PlanTree F Hash} {j : PlannedJob F Hash}

theorem aggregates_append (h : ∀ t ∈ ts, 0 < t.height)
    (us : List (PlanTree F Hash)) : aggregates (ts ++ us) = ts ++ aggregates us := by
  unfold aggregates
  rw [filter_append, filter_eq_self.mpr (fun t ht => by simpa using h t ht)]

theorem aggregates_pair : aggregates [.pair j l r] = [.pair j l r] := by
  simp [aggregates, AggTree.height]

/-- **AN ACCOUNT OF A STACK**: of its aggregates, whose inputs meet if `P` holds. -/
structure Accounted (P : Prop) (A : List (GutaHeader F Hash) →
    List (Hash × Hash) → RecorderStore Hash → Prop) (ts : List (PlanTree F Hash))
    (s : RecorderStore Hash) : Prop where
  account : A ((stackInputs (aggregates ts)).map headerOf) ((aggregates ts).map rootTransition) s
  meets : ∀ t ∈ ts, ∀ j ∈ t.jobs, P → j.witness.RootsMeet

variable [QFelt64 F]

/-- The header of a tree sums up its inputs, and counts its jobs. -/
def SumsUp (t : PlanTree F Hash) : Prop :=
  (nodeOf t).header.stats = GUTAStats.sum (t.inputs.map (fun i => (headerOf i).stats)) ∧
    (nodeOf t).header.totalAggregationProofsGenerated =
      (t.inputs.map (fun i => (headerOf i).totalAggregationProofsGenerated)).sum +
        t.jobs.length • fromU64Value 1

/-- Every join adds up what it combines. -/
def AddsUp : PlanTree F Hash → Prop :=
  Each (fun _ _ => False) (fun j l r =>
    j.node.header.stats = (nodeOf l).header.stats.combineWith (nodeOf r).header.stats ∧
      j.node.header.totalAggregationProofsGenerated =
        (nodeOf l).header.totalAggregationProofsGenerated +
          (nodeOf r).header.totalAggregationProofsGenerated + fromU64Value 1)

theorem AddsUp.sumsUp (h : AddsUp t) : SumsUp t := by
  induction t with
  | input i =>
    refine ⟨(GUTAStats.sum_singleton _).symm, ?_⟩
    simp [inputs, jobs, nodeOf, leafNode, headerOf]
  | wrap j c _ => exact absurd h.1 id
  | pair j l r ihl ihr =>
    obtain ⟨⟨hstats, htotal⟩, hl, hr⟩ := h
    obtain ⟨hlstats, hltotal⟩ := ihl hl
    obtain ⟨hrstats, hrtotal⟩ := ihr hr
    refine ⟨?_, ?_⟩
    · rw [inputs, map_append, GUTAStats.sum_append, ← hlstats, ← hrstats]
      exact hstats
    · rw [inputs, map_append, sum_append, jobs, length_append,
        length_append, length_singleton, add_nsmul, add_nsmul, one_nsmul]
      refine htotal.trans ?_
      rw [hltotal, hrtotal]
      abel

end

section
variable {F Hash : Type} [QFelt64 F] [MerkleZeroHasher Hash] [DecidableEq Hash]
  [HashTo4Felts F Hash] [FieldQHasher F Hash] {E : CallContext Hash → Prop}
  {start s : RecorderStore Hash} {ts : List (PlanTree F Hash)} {t l r : PlanTree F Hash}

/-- **WHERE A BLOCK STANDS.** -/
structure Applied (start : RecorderStore Hash) (ts : List (PlanTree F Hash))
    (s : RecorderStore Hash) : Prop where
  appliedTo : AppliedTo start ((stackInputs (aggregates ts)).map headerOf)
    ((aggregates ts).map rootTransition) s
  meets : ∀ t ∈ ts, ∀ j ∈ t.jobs, j.witness.RootsMeet

variable {j : PlannedJob F Hash} {s' : RecorderStore Hash}
  {hd : GutaHeader F Hash} {w : GutaWitness F Hash} {ctx : CallContext Hash}
  {P : Prop} {ok : GutaHeader F Hash → Prop}
  {A : List (GutaHeader F Hash) → List (Hash × Hash) → RecorderStore Hash → Prop}

section
variable (hA : Account P ok A)
include hA

/-- **ONE AGGREGATION**: the leaves among its inputs are written, left before right, its inputs'
roots meet, and its header spans both. -/
theorem Aggregates.account (hagg : Aggregates ctx (nodeOf l) (nodeOf r) s w hd s') (hl : Joined l)
    (hr : Joined r) (hin : ∀ i ∈ l.inputs ++ r.inputs, ok (headerOf i))
    (h : A ((stackInputs (ts ++ aggregates [l, r])).map headerOf)
      ((ts ++ aggregates [l, r]).map rootTransition) s) : (P → w.RootsMeet) ∧
      A ((stackInputs ts ++ (l.inputs ++ r.inputs)).map headerOf) (ts.map rootTransition ++
        [(hd.stateTransition.oldNodeValue, hd.stateTransition.newNodeValue)]) s' := by
  cases hagg with
  | leavesUpgrade hleftType hrightType hleft hright hleftDmp hrightDmp
  | leaves hleftType hrightType hleft hright hleftDmp hrightDmp =>
    obtain ⟨i, rfl⟩ := hl.eq_input hleftType
    obtain ⟨k, rfl⟩ := hr.eq_input hrightType
    -- two lone submissions: nothing of them was written
    have hnone : A ((stackInputs ts).map headerOf) (ts.map rootTransition) s := by
      simpa [aggregates, AggTree.height] using h
    rw [map_append]
    exact hA.write_two hnone (hin i (by simp [inputs])) (hin k (by simp [inputs]))
      hleft hright hleftDmp hrightDmp
  | linear hleftType hrightType =>
    have hlpos := hl.height_pos hleftType
    have hrpos := hr.height_pos hrightType
    have hboth : aggregates [l, r] = [l, r] := by simp [aggregates, hlpos, hrpos]
    have hinputs : stackInputs (ts ++ [l, r]) = stackInputs ts ++ (l.inputs ++ r.inputs) := by
      simp [stackInputs]
    rw [hboth, hinputs, map_append (f := rootTransition)] at h
    exact hA.merge h
  | mixed hleftType hrightType hright hrightDmp =>
    have hlpos := hl.height_pos hleftType
    obtain ⟨k, rfl⟩ := hr.eq_input hrightType
    have hleft : aggregates [l, .input k] = [l] := by simp [aggregates, hlpos, AggTree.height]
    have hinputs :
        (stackInputs ts ++ (l.inputs ++ (.input k : PlanTree F Hash).inputs)).map headerOf =
        (stackInputs (ts ++ [l])).map headerOf ++ [headerOf k] := by
      simp [stackInputs, inputs]
    rw [hleft] at h
    have hwritten := hA.write h (hin k (by simp [inputs])) hright hrightDmp
    rw [map_append (f := rootTransition), append_assoc] at hwritten
    rw [hinputs]
    exact hA.merge hwritten

/-- **ONE JOIN** keeps the account. -/
theorem Accounted.pair (h : Accounted P A (ts ++ [l, r]) s) (hl : Joined l) (hr : Joined r)
    (hin : ∀ i ∈ stackInputs (ts ++ [l, r]), ok (headerOf i))
    (hstep : (machine E (fun s s' => s' = s)).pair ts s l r j s') :
    Accounted P A (ts ++ [.pair j l r]) s' := by
  obtain ⟨hts, ctx, w, hd, ct, _, hok, hj⟩ := hstep
  obtain ⟨happ, hmeets⟩ := h
  rw [aggregates_append hts] at happ
  obtain ⟨hmeet, happ'⟩ := (aggregateCircuit_eq_ok hok).account hA hl hr
    (fun i hi => hin i (by simpa [stackInputs] using Or.inr (by simpa using hi))) happ
  have htransition : rootTransition (.pair j l r) =
      (hd.stateTransition.oldNodeValue, hd.stateTransition.newNodeValue) := by
    rw [hj]
    rfl
  constructor
  · rw [aggregates_append hts]
    simpa [aggregates, AggTree.height, htransition, stackInputs, inputs] using happ'
  · rw [forall_mem_append] at hmeets ⊢
    rw [forall_mem_singleton, jobs, forall_mem_append, forall_mem_append, forall_mem_singleton]
    exact ⟨hmeets.1, ⟨hmeets.2 l (by simp), hmeets.2 r (by simp)⟩, by rw [hj]; exact hmeet⟩

/-- **A WHOLE RUN** keeps the account, when nothing else writes the user tree. -/
theorem reached_accounted (hstart : A [] [] start)
    (h : (machine E (fun s s' => s' = s)).Reached start ts s)
    (hin : ∀ i ∈ stackInputs ts, ok (headerOf i)) : Accounted P A ts s := by
  induction h with
  | start => exact ⟨hstart, fun t ht => absurd ht (by simp)⟩
  | idle _ hidle ih =>
    rw [hidle]
    exact ih hin
  | shift _ hshift ih =>
    have hrest := ih (fun i hi => hin i (by simpa [stackInputs] using Or.inl (by
      simpa [stackInputs] using hi)))
    rw [hshift]
    refine ⟨?_, ?_⟩
    · simpa [aggregates, AggTree.height] using hrest.account
    · rw [forall_mem_append, forall_mem_singleton]
      exact ⟨hrest.meets, by simp [jobs]⟩
  | wrap _ hstep _ => exact absurd hstep id
  | @pair ts _ l r _ _ hreached hstep ih =>
    have hin' : ∀ i ∈ stackInputs (ts ++ [l, r]), ok (headerOf i) :=
      fun i hi => hin i (by simpa [stackInputs, inputs] using hi)
    exact (ih hin').pair hA (reached_joined hreached _ (by simp))
      (reached_joined hreached _ (by simp)) hin' hstep

end

theorem reached_applied (hs : EffectivelySettled start)
    (h : (machine E (fun s s' => s' = s)).Reached start ts s)
    (hrange : ∀ i ∈ stackInputs ts, InRange start (headerOf i)) : Applied start ts s := by
  obtain ⟨happ, hmeets⟩ := reached_accounted (account_appliedTo start)
    ⟨hs, rfl, rfl, trivial, rfl⟩ h hrange
  exact ⟨happ, fun t ht j hj => hmeets t ht j hj trivial⟩

/-- The headers of the aggregates are written in the order of arrival, whatever their leaves. -/
theorem reached_wrote (h : (machine E (fun s s' => s' = s)).Reached start ts s) :
    Wrote start ((stackInputs (aggregates ts)).map headerOf) s := by
  have haccount :
      Account (F := F) False (fun _ => True) (fun headers _ s => Wrote start headers s) :=
    ⟨fun h _ hstart hdmp => h.write hstart hdmp, fun h => ⟨False.elim, h⟩⟩
  exact (reached_accounted haccount ⟨rfl, trivial⟩ h (fun _ _ => trivial)).account

/-! ## §3. Sums. -/

variable {O : RecorderStore Hash → RecorderStore Hash → Prop}

theorem reached_addsUp (h : (machine E O).Reached start ts s) : ∀ t ∈ ts, AddsUp t := by
  refine Machine.Reached.each ?_ ?_ h
  · intro ts s t j s' hstep _
    exact hstep
  · intro ts s l r j s' hstep _ _
    obtain ⟨_, ctx, w, hd, ct, _, hok, rfl⟩ := hstep
    exact (aggregateCircuit_eq_ok hok).sums

/-! ## §4. The block. -/

/-- **THE EFFECT OF A BLOCK** whose root is `t`. -/
structure Effect (start : RecorderStore Hash) (t : PlanTree F Hash)
    (s : RecorderStore Hash) : Prop where
  accepted : Accepted StartsFrom applyHeader start (t.inputs.map headerOf)
  tree : s = (t.inputs.map headerOf).foldl applyHeader start
  meets : ∀ j ∈ t.jobs, j.witness.RootsMeet
  transition : rootTransition t = (start.getRoot, s.getRoot)
  sums : SumsUp t

theorem Rooted.effect (hs : EffectivelySettled start) (h : Rooted E (fun s s' => s' = s) start t s)
    (hrange : ∀ i ∈ t.inputs, InRange start (headerOf i)) : Effect start t s := by
  cases h with
  | @joined j l r _ hreached =>
    obtain ⟨happ, hmeets⟩ := reached_applied hs hreached (by simpa [stackInputs] using hrange)
    rw [aggregates_pair, stackInputs, flatMap_singleton] at happ
    obtain ⟨hold, hnew⟩ := happ.linked
    exact ⟨happ.accepted, happ.tree, hmeets _ (mem_singleton_self _),
      Prod.ext hold.symm hnew, (reached_addsUp hreached _ (mem_singleton_self _)).sumsUp⟩
  | @promoted i ctx w hd ct s₀ _ hreached _ hok =>
    obtain ⟨happ, _⟩ := reached_applied hs hreached
      (by simpa [stackInputs, inputs] using hrange)
    -- nothing was aggregated yet, so the tree is still the start tree
    have hs₀ : s₀ = start := happ.tree
    subst hs₀
    obtain ⟨hstart, htree, hmeets, hold, hnew, hstats, htotal⟩ :=
      (promotionCircuit_eq_ok hok).applied happ.settled
        (hrange i (by simp [inputs]))
    refine ⟨⟨hstart, trivial⟩, htree, ?_, Prod.ext hold hnew, ?_, ?_⟩
    · intro j hj
      simp only [jobs, nil_append, mem_singleton] at hj
      rw [hj]
      exact hmeets
    · exact hstats.trans (GUTAStats.sum_singleton _).symm
    · refine htotal.trans ?_
      simp [inputs, jobs, leafNode, headerOf]

/-- A block writes the headers of its root's inputs in the order of arrival. -/
theorem Rooted.wrote (h : Rooted E (fun s s' => s' = s) start t s) :
    Wrote start (t.inputs.map headerOf) s := by
  cases h with
  | @joined j l r _ hreached =>
    have hwrote := reached_wrote hreached
    rwa [aggregates_pair, stackInputs, flatMap_singleton] at hwrote
  | @promoted i ctx w hd ct s₀ _ hreached _ hok =>
    have hwrote : Wrote start [] s₀ := reached_wrote hreached
    cases promotionCircuit_eq_ok hok with
    | toCap hold _ hdmp | toCapUpgrade hold _ hdmp => exact hwrote.write hold hdmp

variable {out : FinalizeOutput F Hash}

/-- Every job of the root is in the returned levels. -/
theorem Outcome.length_jobs {arrivals : List (Submission F Hash)} {root : PlanTree F Hash}
    (h : Outcome E O start arrivals root out s) :
    out.jobLevels.flatten.length = root.jobs.length := by
  have hlength := h.lists.jobId_perm.length_eq
  rwa [length_map, length_map] at hlength

variable {syncedRoot : Hash} {calls : List (RealmJobCall F Hash)} {fin : FinalizeCall F Hash}
  {out : FinalizeOutput F Hash} {s' : RecorderStore Hash} (hne : calls ≠ [])
  (hothers : ∀ call ∈ calls, call.others = id) (hlast : fin.others = id)
include hne hothers hlast

/-- The outcome of a block over a user tree that nothing else writes. -/
theorem planBlock_outcome (hok : planBlock syncedRoot calls fin s = .ok (out, s')) :
    ∃ root, Outcome (fun _ => True) (fun s s' => s' = s) s (calls.map (·.job)) root out s' := by
  have hends := planBlock_ends (E := fun _ => True) (O := fun s s' => s' = s) syncedRoot calls fin s
    (fun _ _ => trivial) trivial (fun call hcall s => by rw [hothers call hcall]; rfl)
    (fun s => by rw [hlast]; rfl)
  obtain ⟨root, houtcome, _⟩ := hends.of_ok hok hne
  exact ⟨root, houtcome⟩

/-- **THE STATE TRANSITION OF A BLOCK.**  Over a hashed user tree that nothing else writes,
with every submission's leaf in the tree, a successful run

  * checked every header against the value its leaf had after all earlier headers;
  * leaves the start tree with all new values written in the order of arrival;
  * joined only inputs whose roots meet;
  * returns a header from the start root to the final root, with the sum of all statistics
    and the sum of all counts plus one for each planned job. -/
theorem coordinator_block_transition
    (hsettled : EffectivelySettled s) (hrange : ∀ call ∈ calls, InRange s (headerOf call.job))
    (hok : planBlock syncedRoot calls fin s = .ok (out, s')) :
    (∀ pre header post, calls.map (fun call => headerOf call.job) = pre ++ header :: post →
      (pre.foldl applyHeader s).getELeafValue (leafIndex header) =
        header.stateTransition.oldNodeValue) ∧
    s' = (calls.map (fun call => headerOf call.job)).foldl applyHeader s ∧
    (∀ w ∈ out.savedWitnesses, w.2.RootsMeet) ∧
    out.rootGutaHeader.stateTransition.oldNodeValue = s.getRoot ∧
    out.rootGutaHeader.stateTransition.newNodeValue = s'.getRoot ∧
    out.rootGutaHeader.stats =
      GUTAStats.sum (calls.map (fun call => (headerOf call.job).stats)) ∧
    out.rootGutaHeader.totalAggregationProofsGenerated =
      (calls.map (fun call => (headerOf call.job).totalAggregationProofsGenerated)).sum +
        out.jobLevels.flatten.length • fromU64Value 1 := by
  obtain ⟨root, houtcome⟩ := planBlock_outcome hne hothers hlast hok
  have hinputs : ∀ {β : Type} (f : Submission F Hash → β),
      root.inputs.map f = calls.map (fun call => f call.job) := by
    intro β f
    rw [houtcome.inputs, map_map]
    rfl
  have heffect := houtcome.rooted.effect hsettled (by
    intro i hi
    rw [houtcome.inputs] at hi
    obtain ⟨call, hcall, rfl⟩ := mem_map.mp hi
    exact hrange call hcall)
  obtain ⟨haccepted, htree, hmeets, htransition, hstats, htotal⟩ := heffect
  rw [hinputs] at haccepted htree hstats htotal
  refine ⟨?_, htree, ?_, ?_, ?_, ?_, ?_⟩
  · intro pre header post heq
    rw [heq] at haccepted
    exact haccepted.at
  · intro w hw
    rw [houtcome.witnesses] at hw
    obtain ⟨j, hj, rfl⟩ := mem_map.mp hw
    exact hmeets j hj
  · rw [houtcome.header]
    exact congrArg Prod.fst htransition
  · rw [houtcome.header]
    exact congrArg Prod.snd htransition
  · rw [houtcome.header, hstats]
  · rw [houtcome.header, htotal, houtcome.length_jobs]

end

/-- The sample block over an empty user tree of height two. -/
theorem coordinator_block_transition_three_submissions :
    ∃ out s', planBlock (sampleRoot [.leaf 1]) sampleCalls
        (sampleFinalize [.leaf 1, .leaf 2]) (.new 2) = .ok (out, s') ∧
      out.rootGutaHeader.stateTransition.oldNodeValue =
        .node (.node .zero .zero) (.node .zero .zero) ∧
      out.rootGutaHeader.stateTransition.newNodeValue = s'.getRoot ∧
      out.rootGutaHeader.totalAggregationProofsGenerated = 5 := by
  obtain ⟨out, s', hok, hjobs⟩ := planBlock_sample
  obtain ⟨_, _, _, hold, hnew, _, htotal⟩ := coordinator_block_transition (by simp [sampleCalls])
    (by simp [sampleCalls, sampleCall]) rfl (effectivelySettled_new 2)
    (by simp [sampleCalls, sampleCall, sampleSubmission, InRange, headerOf, leafIndex,
      SimpleMemoryMerkleRecorderStore.new, toU64Value]) hok
  exact ⟨out, s', hok, hold, hnew, by rw [htotal, hjobs]; rfl⟩

end PsyNode.Coordinator
