/-
PsyNode.Coordinator.RegisterUser
**REGISTERING USERS** (`register_user_gatherer.rs`).  Cycles of the gatherer share one
registration tree and one cursor, the next free registration id.  A cycle takes its keys at
the cursor, appends their leaves when it is finalized, or, when the last changes have to be
reverted, goes back to the nodes of the recorder's last commit.

A cycle copies the coordinator's shared status when it is created, and reads whether to revert when
it is finalized.  Blocks of finalized cycles are committed, in their order, at any time in between,
and that changes the status (`processor_shared_status.rs`).
-/
import PsyNode.Recorder.SameNodes
import PsyNode.Recorder.Spiderman
import PsyNode.UserId.Strategy

namespace PsyNode.Coordinator

open Merkle Recorder Lib.Merkle Lib SimpleMemoryMerkleRecorderStore

variable {Hash : Type} [MerkleZeroHasher Hash] [DecidableEq Hash] [ToString Hash]

/-- What the gatherer copies of the shared status: `next_user_id` of the block state, two of the
last committed state roots. -/
structure RegistrationStatus (Hash : Type) where
  nextUserId : Nat
  userTreeRoot : Hash
  userRegistrationTreeRoot : Hash
deriving DecidableEq

/-- One accepted key: the row of its user and the leaf, which is the hash of the key. -/
structure RegisteredUser (Hash : Type) where
  userId : Nat
  publicKey : Hash × Hash
  leaf : Hash

/-- The gatherer, with the status as it was when it was created. -/
structure RegisterUserGatherer (Hash : Type) where
  sharedStatus : RegistrationStatus Hash
  registered : List (RegisteredUser Hash)
  nextUserId : Nat

/-- The network's constants, whether the build checks overflows, and the planner of the jobs for
non-empty groups of proofs. -/
structure RegistrationConfig (Hash : Type) where
  checked : Bool
  coordinatorHeight : Nat
  realmHeight : Nat
  groupRealmHeight : Nat
  batchSubTreeHeight : Nat
  batchSubTreeHeight_pos : 1 ≤ batchSubTreeHeight
  batchMaxSubTrees : Nat
  planJobs : Hash → List (List (SpidermanUpdateProof Hash)) → Except String Nat

/-- What a finalized cycle hands on. -/
structure RegisterUserOutput (Hash : Type) where
  startNextUserId : Nat
  startUserRegistrationTreeHash : Hash
  registered : List (RegisteredUser Hash)
  nextUserId : Nat
  endUserRegistrationTreeHash : Hash
  changes : NodeKey → Option Hash
  totalJobs : Nat
  blockTime : Nat

namespace RegisterUserGatherer

/-- `create_new_with_tree`. -/
def createNewWithTree (status : RegistrationStatus Hash) (tree : RecorderStore Hash)
    (lastJobNextUserId : Nat) : Except String (RegisterUserGatherer Hash) := do
  require (tree.getLeafValue lastJobNextUserId = getZeroHash 0)
    (s!"Starting next user id {lastJobNextUserId} does not match tree zero hash " ++
      toString (tree.getLeafValue lastJobNextUserId))
  require (lastJobNextUserId ≠ 0 → tree.getLeafValue (lastJobNextUserId - 1) ≠ getZeroHash 0)
    (s!"The leaf before the next user id {lastJobNextUserId} minus one does not exist in tree, " ++
      "cannot continue")
  return ⟨status, [], lastJobNextUserId⟩

variable (config : RegistrationConfig Hash)

/-- `update_from_queue_item_with_tree`. -/
def updateFromQueueItemWithTree (g : RegisterUserGatherer Hash) (item : Hash × Hash) :
    Except String (RegisterUserGatherer Hash) := do
  let userId ← UserId.getUserIdFromUserRegistrationId config.checked config.coordinatorHeight
    config.realmHeight config.groupRealmHeight g.nextUserId
  return { g with
    registered := g.registered ++ [⟨userId, item, twoToOne item.1 item.2⟩]
    nextUserId := g.nextUserId + 1 }

/-- `reset_for_revert`. -/
def resetForRevert (g : RegisterUserGatherer Hash) : RegisterUserGatherer Hash :=
  { g with registered := [], nextUserId := g.sharedStatus.nextUserId }

/-- The tree that the revert path leaves: the range it clears ends at the cursor that
`reset_for_revert` has just set. -/
def revertedTree (g : RegisterUserGatherer Hash) (tree : RecorderStore Hash) : RecorderStore Hash :=
  tree.revertChanges.clearChangesRemoveCommittedLeavesAndRehash g.sharedStatus.nextUserId
    g.resetForRevert.nextUserId

/-- The revert path, with the tree and the cursor reset. -/
def revertWithTree (g : RegisterUserGatherer Hash) (tree : RecorderStore Hash) :
    Except String (RegisterUserGatherer Hash × RecorderStore Hash × Nat) := do
  let expected := g.sharedStatus.userTreeRoot
  let root := (g.revertedTree tree).getRoot
  require (root = expected)
    s!"After revert, user registration tree root mismatch: expected {expected}, got {root}"
  return (g.resetForRevert, g.revertedTree tree, g.sharedStatus.nextUserId)

/-- `finalize_with_tree`, with the tree and the cursor it leaves. -/
def finalizeWithTree (needsRevert : Bool) (blockTime : Nat) (g : RegisterUserGatherer Hash)
    (tree : RecorderStore Hash) (lastJobNextUserId : Nat) :
    Except String (RegisterUserOutput Hash × RecorderStore Hash × Nat) := do
  let (g, tree, lastJobNextUserId) ←
    (if needsRevert then g.revertWithTree tree else .ok (g, tree.commitChanges, lastJobNextUserId))
  let startStateRoot := tree.getRoot
  let (tree, proofs) ← (if g.registered.isEmpty then .ok (tree, []) else
    tree.appendLeavesSpiderManAtIndex config.batchSubTreeHeight
      (g.nextUserId - g.registered.length) (g.registered.map (·.leaf)))
  (List.range' lastJobNextUserId (g.nextUserId - lastJobNextUserId)).forM fun i =>
    require (tree.getLeafValue i ≠ getZeroHash 0)
      (s!"After finalize, user registration tree leaf for user id {i} is zero hash, " ++
        "expected non-zero hash")
  let totalJobs ← (if proofs.isEmpty then .ok 1 else
    config.planJobs startStateRoot (proofs.toChunks config.batchMaxSubTrees))
  return ({
    startNextUserId := g.sharedStatus.nextUserId
    startUserRegistrationTreeHash := startStateRoot
    registered := g.registered
    nextUserId := g.nextUserId
    endUserRegistrationTreeHash := tree.getRoot
    changes := tree.updatedNodes
    totalJobs, blockTime }, tree, g.nextUserId)

/-! ## §2. One cycle. -/

variable {config} {g : RegisterUserGatherer Hash} {tree tree' : RecorderStore Hash}

/-- **A FINALIZATION THAT DOES NOT REVERT** commits the tree it finds and appends its leaves. -/
theorem finalizeWithTree_appends {blockTime next next' : Nat} {output : RegisterUserOutput Hash}
    (hnext : g.nextUserId = next + g.registered.length)
    (hsettled : tree.commitChanges.TreeSettled)
    (h : g.finalizeWithTree config false blockTime tree next = .ok (output, tree', next')) :
    Writes tree.commitChanges tree' ∧ tree'.TreeSettled ∧ next' = g.nextUserId ∧
      tree'.getLeafValue = writeRun tree.commitChanges.getLeafValue next
        (g.registered.map (·.leaf)) := by
  obtain ⟨_, hstart, h⟩ := bind_eq_ok.mp h
  cases hstart
  obtain ⟨⟨tree₁, proofs⟩, happend, h⟩ := bind_eq_ok.mp h
  obtain ⟨_, _, h⟩ := bind_eq_ok.mp h
  obtain ⟨_, _, h⟩ := bind_eq_ok.mp h
  cases h
  by_cases hempty : g.registered.isEmpty
  · rw [if_pos hempty] at happend
    cases happend
    rw [List.isEmpty_iff.mp hempty]
    exact ⟨.refl _, hsettled, rfl, (writeRun_nil _ _).symm⟩
  · rw [if_neg hempty, hnext, Nat.add_sub_cancel] at happend
    obtain ⟨hw, happended⟩ :=
      appendLeavesSpiderManAtIndex_spec config.batchSubTreeHeight_pos hsettled happend
    refine ⟨hw, happended.settled, rfl, ?_⟩
    show tree'.table tree'.height = _
    rw [happended.height_eq, happended.leaves, table_setRun_level]
    rfl

/-- **A FINALIZATION THAT REVERTS** shows the nodes of the last commit, if its root is the one that
the status names. -/
theorem finalizeWithTree_reverts (blockTime next : Nat)
    (hsettled : Settled twoToOne tree.lastCommit.table tree.height)
    (hroot : tree.lastCommit.getRoot = g.sharedStatus.userTreeRoot) :
    ∃ output tree', g.finalizeWithTree config true blockTime tree next =
      .ok (output, tree', g.sharedStatus.nextUserId) ∧ tree'.Clean ∧
      SameNodes tree' tree.lastCommit := by
  obtain ⟨hclean, hsame⟩ := clearChanges_spec g.sharedStatus.nextUserId
    (show Settled twoToOne tree.revertChanges.lastCommit.table _ from hsettled)
    (show _ = g.revertedTree tree from rfl)
  have hrevert : g.revertWithTree tree =
      .ok (g.resetForRevert, g.revertedTree tree, g.sharedStatus.nextUserId) :=
    bind_eq_ok.2 ⟨(), require_eq_ok.2 (hsame.getRoot.trans hroot), rfl⟩
  refine ⟨_, _, bind_eq_ok.2 ⟨_, hrevert, bind_eq_ok.2 ⟨(_, []), rfl,
    bind_eq_ok.2 ⟨(), ?_, rfl⟩⟩⟩, hclean, hsame⟩
  simp [resetForRevert, pure, Except.pure]

theorem createNewWithTree_eq {status : RegistrationStatus Hash} {next : Nat}
    (h : createNewWithTree status tree next = .ok g) : g = ⟨status, [], next⟩ := by
  obtain ⟨_, _, h⟩ := bind_eq_ok.mp h
  obtain ⟨_, _, h⟩ := bind_eq_ok.mp h
  cases h
  rfl

end RegisterUserGatherer

/-! ## §3. Runs. -/

/-- The shared tree, cursor and status, the open gatherer, the trees and cursors of the finalized
cycles that are not in a block yet, and those of the last committed block. -/
structure RegistrationState (Hash : Type) where
  tree : RecorderStore Hash
  lastJobNextUserId : Nat
  status : RegistrationStatus Hash
  shouldRevertLastChanges : Bool
  gatherer : Option (RegisterUserGatherer Hash)
  finalized : List (RecorderStore Hash × Nat)
  committed : RecorderStore Hash × Nat

/-- What can happen next. -/
inductive RegistrationStep (Hash : Type) where
  | create
  | gather (item : Hash × Hash)
  | finalize (blockTime : Nat)
  | commitBlock (userTreeRoot : Hash)
  | setRevert (shouldRevertLastChanges : Bool)

namespace RegistrationState

/-- The coordinator after a start on a committed tree. -/
def start (userTreeRoot : Hash) (committed : RecorderStore Hash × Nat) : RegistrationState Hash :=
  ⟨committed.1, committed.2, ⟨committed.2, userTreeRoot, committed.1.getRoot⟩, false, none, [],
    committed⟩

variable (config : RegistrationConfig Hash)

/-- One step.  A revert abandons the finalized cycles; its own is the next to be committed. -/
def step (s : RegistrationState Hash) :
    RegistrationStep Hash → Except String (RegistrationState Hash)
  | .create => do
    let g ← RegisterUserGatherer.createNewWithTree s.status s.tree s.lastJobNextUserId
    return { s with gatherer := some g }
  | .gather item => do
    let g ← s.gatherer.elim (.error "no gatherer") .ok
    let g ← g.updateFromQueueItemWithTree config item
    return { s with gatherer := some g }
  | .finalize blockTime => do
    let g ← s.gatherer.elim (.error "no gatherer") .ok
    let (_, cycle) ← g.finalizeWithTree config s.shouldRevertLastChanges blockTime s.tree
      s.lastJobNextUserId
    return { s with
      tree := cycle.1
      lastJobNextUserId := cycle.2
      gatherer := none
      finalized := (if s.shouldRevertLastChanges then [] else s.finalized) ++ [cycle] }
  | .commitBlock userTreeRoot =>
    match s.finalized with
    | [] => .error "no finalized cycle"
    | cycle :: rest => .ok { s with
      status := ⟨cycle.2, userTreeRoot, cycle.1.getRoot⟩
      shouldRevertLastChanges := false
      finalized := rest
      committed := cycle }
  | .setRevert flag => .ok { s with shouldRevertLastChanges := flag }

/-- A run of steps. -/
def run (s : RegistrationState Hash) (steps : List (RegistrationStep Hash)) :
    Except String (RegistrationState Hash) := steps.foldlM (step config) s

/-- **WHEN A REVERT CAN RESTORE THE COMMITTED TREE**: no block was committed since the gatherer was
created, the recorder's last commit was made at the tree of the last committed block, and that
block has the same user tree root and registration tree root. -/
structure Restorable (s : RegistrationState Hash) (g : RegisterUserGatherer Hash) : Prop where
  snapshot : g.sharedStatus = s.status
  base : SameNodes s.tree.lastCommit s.committed.1
  roots : s.status.userTreeRoot = s.status.userRegistrationTreeRoot

/-- The states of the runs from `init` in which every finalization that reverts is restorable. -/
inductive Reached (init : RegistrationState Hash) : RegistrationState Hash → Prop
  | init : Reached init init
  | step {s s' : RegistrationState Hash} (event : RegistrationStep Hash) (hs : Reached init s)
      (hrestorable : ∀ blockTime g, event = .finalize blockTime →
        s.shouldRevertLastChanges = true → s.gatherer = some g → s.Restorable g)
      (hstep : s.step config event = .ok s') : Reached init s'

/-- A settled tree over a settled last commit, without leaves from `next` on. -/
structure Numbered (tree : RecorderStore Hash) (next : Nat) : Prop where
  journaled : tree.Journaled
  settled : tree.TreeSettled
  committed : tree.lastCommit.TreeSettled
  free : ∀ i, next ≤ i → tree.getLeafValue i = getZeroHash 0

omit [DecidableEq Hash] [ToString Hash] in
theorem Numbered.of_clean {tree : RecorderStore Hash} {next : Nat} (h : tree.Clean)
    (hfree : ∀ i, next ≤ i → tree.getLeafValue i = getZeroHash 0) : Numbered tree next where
  journaled := h.journaled
  settled := h.settled
  committed := h.lastCommit_eq.symm ▸ h.settled
  free := hfree

/-- **THE INVARIANT**: all trees are numbered, the open gatherer counts from the cursor, and the
status is that of the last committed block. -/
structure Good (s : RegistrationState Hash) : Prop where
  tree : Numbered s.tree s.lastJobNextUserId
  opened : ∀ g, s.gatherer = some g → g.nextUserId = s.lastJobNextUserId + g.registered.length
  finalized : ∀ cycle ∈ s.finalized, Numbered cycle.1 cycle.2
  committed : Numbered s.committed.1 s.committed.2
  nextUserId : s.status.nextUserId = s.committed.2
  root : s.status.userRegistrationTreeRoot = s.committed.1.getRoot

variable {config} {s s' : RegistrationState Hash} {g : RegisterUserGatherer Hash}

/-- **A REVERT** of a restorable state leaves the committed tree and its cursor. -/
theorem Good.finalizeWithTree_reverts (hs : s.Good) (hrestorable : s.Restorable g)
    (blockTime : Nat) :
    ∃ output tree', g.finalizeWithTree config true blockTime s.tree s.lastJobNextUserId =
      .ok (output, tree', s.committed.2) ∧ tree'.Clean ∧ SameNodes tree' s.committed.1 := by
  have hroot : s.tree.lastCommit.getRoot = g.sharedStatus.userTreeRoot := by
    rw [hrestorable.snapshot, hrestorable.roots, hs.root]
    exact hrestorable.base.getRoot
  obtain ⟨output, tree', hok, hclean, hsame⟩ := RegisterUserGatherer.finalizeWithTree_reverts
    blockTime s.lastJobNextUserId hs.tree.committed hroot
  rw [hrestorable.snapshot, hs.nextUserId] at hok
  exact ⟨output, tree', hok, hclean, hsame.trans hrestorable.base⟩

/-- **STEP: a finalization** leaves a numbered tree. -/
theorem Good.finalize_numbered (hs : s.Good) (hg : s.gatherer = some g)
    (hrestorable : s.shouldRevertLastChanges = true → s.Restorable g) {blockTime : Nat}
    {output : RegisterUserOutput Hash} {cycle : RecorderStore Hash × Nat}
    (h : g.finalizeWithTree config s.shouldRevertLastChanges blockTime s.tree s.lastJobNextUserId =
      .ok (output, cycle)) : Numbered cycle.1 cycle.2 := by
  cases hrevert : s.shouldRevertLastChanges with
  | true =>
    obtain ⟨_, tree', hok, hclean, hsame⟩ :=
      hs.finalizeWithTree_reverts (hrestorable hrevert) blockTime
    rw [hrevert, hok] at h
    cases h
    exact .of_clean hclean fun i hi => by rw [hsame.getLeafValue, hs.committed.free i hi]
  | false =>
    rw [hrevert] at h
    have hopened := hs.opened g hg
    have hsame := hs.tree.journaled.sameNodes_commitChanges
    have hjournaled := journaled_lastCommit s.tree.commitChanges
    obtain ⟨hw, hsettled, hnext, hleaves⟩ := RegisterUserGatherer.finalizeWithTree_appends hopened
      (hsame.settled hs.tree.settled) h
    refine ⟨hjournaled.of_writes hw, hsettled, ?_, fun i hi => ?_⟩
    · exact (sameNodes_lastCommit_of_writes hw).settled (hsame.settled hs.tree.settled)
    · rw [hleaves, writeRun_frame _ (by rw [List.length_map]; omega), hsame.getLeafValue]
      exact hs.tree.free i (by omega)

omit [MerkleZeroHasher Hash] [DecidableEq Hash] [ToString Hash] in
theorem gatherer_eq_some (h : s.gatherer.elim (.error "no gatherer") .ok = Except.ok g) :
    s.gatherer = some g := by
  cases hs : s.gatherer with
  | none => rw [hs] at h; cases h
  | some _ => rw [hs] at h; cases h; rfl

/-- **STEP: the invariant.** -/
theorem Good.step (hs : s.Good) (event : RegistrationStep Hash)
    (hrestorable : ∀ blockTime g, event = .finalize blockTime →
      s.shouldRevertLastChanges = true → s.gatherer = some g → s.Restorable g)
    (hstep : s.step config event = .ok s') : s'.Good := by
  cases event with
  | create =>
    obtain ⟨g, hg, hstep⟩ := bind_eq_ok.mp hstep
    cases hstep
    refine { hs with opened := fun _ heq => Option.some.inj heq ▸ ?_ }
    rw [RegisterUserGatherer.createNewWithTree_eq hg]
    rfl
  | gather item =>
    obtain ⟨g, hg, hstep⟩ := bind_eq_ok.mp hstep
    obtain ⟨g', hg', hstep⟩ := bind_eq_ok.mp hstep
    cases hstep
    obtain ⟨_, _, hg'⟩ := bind_eq_ok.mp hg'
    cases hg'
    have hopened := hs.opened g (gatherer_eq_some hg)
    refine { hs with opened := fun _ heq => Option.some.inj heq ▸ ?_ }
    show g.nextUserId + 1 = _ + (g.registered ++ [_]).length
    rw [List.length_append, hopened]
    rfl
  | finalize blockTime =>
    obtain ⟨g, hg, hstep⟩ := bind_eq_ok.mp hstep
    obtain ⟨⟨output, cycle⟩, hcycle, hstep⟩ := bind_eq_ok.mp hstep
    cases hstep
    have hg := gatherer_eq_some hg
    have htree := hs.finalize_numbered hg (fun h => hrestorable blockTime g rfl h hg) hcycle
    refine { hs with tree := htree, opened := by simp, finalized := fun c hc => ?_ }
    rcases List.mem_append.mp hc with hc | hc
    · split at hc
      · cases hc
      · exact hs.finalized c hc
    · exact List.mem_singleton.mp hc ▸ htree
  | commitBlock userTreeRoot =>
    simp only [RegistrationState.step] at hstep
    split at hstep
    next => cases hstep
    next cycle rest hfinalized =>
      cases hstep
      have hall := hs.finalized
      rw [hfinalized] at hall
      exact { hs with
        finalized := fun c hc => hall c (List.mem_cons_of_mem _ hc)
        committed := hall _ List.mem_cons_self
        nextUserId := rfl
        root := rfl }
  | setRevert flag =>
    cases hstep
    exact { hs with }

/-- **RUN: the invariant**, from a committed tree. -/
theorem Reached.good {userTreeRoot : Hash} {committed : RecorderStore Hash × Nat}
    (hclean : committed.1.Clean)
    (hfree : ∀ i, committed.2 ≤ i → committed.1.getLeafValue i = getZeroHash 0)
    (hreached : Reached config (start userTreeRoot committed) s) : s.Good := by
  induction hreached with
  | init =>
    have htree := Numbered.of_clean hclean hfree
    exact ⟨htree, by simp [start], by simp [start], htree, rfl, rfl⟩
  | step event _ hrestorable hstep hs => exact hs.step event hrestorable hstep

/-- **WHAT A REVERT RESTORES.**  In a run from a committed tree, a finalization that finds the
revert flag set returns, and leaves exactly the leaves registered below the committed
`next_user_id`, the committed registration root and the cursor at that id, if at it and at every
earlier revert the committed tree is restorable. -/
theorem registration_revert_restores (config : RegistrationConfig Hash) (userTreeRoot : Hash)
    (committed : RecorderStore Hash × Nat) (hclean : committed.1.Clean)
    (hfree : ∀ i, committed.2 ≤ i → committed.1.getLeafValue i = getZeroHash 0)
    (s : RegistrationState Hash) (hreached : Reached config (start userTreeRoot committed) s)
    (g : RegisterUserGatherer Hash) (hg : s.gatherer = some g)
    (hrevert : s.shouldRevertLastChanges = true) (hrestorable : s.Restorable g) (blockTime : Nat) :
    ∃ s', s.step config (.finalize blockTime) = .ok s' ∧
      (∀ i, s'.tree.getLeafValue i =
        if i < s.status.nextUserId then s.committed.1.getLeafValue i else getZeroHash 0) ∧
      s'.tree.getRoot = s.status.userRegistrationTreeRoot ∧
      s'.lastJobNextUserId = s.status.nextUserId := by
  have hs := hreached.good hclean hfree
  obtain ⟨output, tree', hok, -, hsame⟩ := hs.finalizeWithTree_reverts hrestorable blockTime
  rw [← hrevert] at hok
  rw [hs.nextUserId, hs.root]
  refine ⟨_, bind_eq_ok.2 ⟨g, by rw [hg]; rfl, bind_eq_ok.2 ⟨_, hok, rfl⟩⟩, fun i => ?_,
    hsame.getRoot, rfl⟩
  rw [show tree'.getLeafValue i = _ from congrFun hsame.getLeafValue i]
  split
  next => rfl
  next hge => exact hs.committed.free i (Nat.le_of_not_lt hge)

/-- Trees of four leaves, in windows of two. -/
def sampleConfig : RegistrationConfig SymHash :=
  ⟨true, 1, 1, 1, 1, le_rfl, 1, fun _ groups => .ok groups.length⟩

/-- A chain without users. -/
def noUsers : RegistrationState SymHash := start (getZeroHash 2) (.new 2, 0)

/-- The tree with the leaf of one user. -/
def oneUserTree : RecorderStore SymHash :=
  ((new 2).setLeaf 0 (.node (.leaf 1) (.leaf 2))).1.commitChanges

/-- A chain with one user. -/
def oneUser : RegistrationState SymHash := start oneUserTree.getRoot (oneUserTree, 1)

/-- A cycle with one key. -/
def sampleCycle (n : Nat) : List (RegistrationStep SymHash) :=
  [.create, .gather (.leaf n, .leaf (n + 1)), .finalize 1]

/-- **TWO CYCLES AHEAD OF THE BLOCKS** are not reverted: the second has committed the leaf of the
first to the recorder, and the range that is cleared is empty.  **A BLOCK COMMITTED AFTER THE
CREATION** of the reverting gatherer is lost: the user of the block is dropped. -/
theorem registration_revert_two_cycles_ahead :
    (noUsers.run sampleConfig (sampleCycle 1 ++ sampleCycle 3 ++
      [.create, .setRevert true, .finalize 1])).map (·.lastJobNextUserId) = .error
        ("After revert, user registration tree root mismatch: " ++
          s!"expected {noUsers.tree.getRoot}, got {oneUserTree.getRoot}") ∧
    (noUsers.run sampleConfig (sampleCycle 1 ++
      [.create, .commitBlock oneUserTree.getRoot, .setRevert true, .finalize 1])).map
        (fun s => (s.status.nextUserId, s.lastJobNextUserId, s.tree.getRoot)) =
      .ok (1, 0, getZeroHash 2) := by
  decide +kernel

/-- One user is committed; a cycle with a second one is reverted. -/
theorem registration_revert_restores_one_user : ∃ s s',
    oneUser.run sampleConfig (sampleCycle 3 ++ [.create, .setRevert true]) = .ok s ∧
    s.step sampleConfig (.finalize 1) = .ok s' ∧ s'.lastJobNextUserId = 1 ∧
    s'.tree.getLeafValue 0 = .node (.leaf 1) (.leaf 2) ∧ s'.tree.getLeafValue 1 = .zero := by
  have hnew : (new 2 : RecorderStore SymHash).Clean := ⟨rfl, rfl, treeSettled_new 2⟩
  obtain ⟨hclean, hsame⟩ := hnew.commit_setLeaf 0 (.node (.leaf 1) (.leaf 2))
  have hleaf (i : Nat) : oneUserTree.getLeafValue i =
      if i = 0 then .node (.leaf 1) (.leaf 2) else .zero := by
    rw [oneUserTree, hsame.getLeafValue, getLeafValue_setLeaf, Function.update_apply]
    rfl
  obtain ⟨s, hrun⟩ := exists_of_isOk (show (oneUser.run sampleConfig
    (sampleCycle 3 ++ [.create, .setRevert true])).isOk by decide +kernel)
  have hsteps := hrun
  simp only [run, sampleCycle, List.cons_append, List.nil_append, List.foldlM_cons,
    List.foldlM_nil, bind_eq_ok, pure_eq_ok] at hsteps
  obtain ⟨s₁, h₁, s₂, h₂, s₃, h₃, s₄, h₄, s₅, h₅, rfl⟩ := hsteps
  have hinit : Reached sampleConfig oneUser oneUser := .init
  have hopen := (hinit.step _ (by simp) h₁).step _ (by simp) h₂
  have hgood := hopen.good hclean (fun i hi => (hleaf i).trans (if_neg (by omega)))
  obtain ⟨g₁, hg₁, e⟩ := bind_eq_ok.mp h₁
  cases e
  obtain ⟨_, e, h⟩ := bind_eq_ok.mp h₂
  cases e
  obtain ⟨g₂, hg₂, e⟩ := bind_eq_ok.mp h
  cases e
  have hclosed := (hopen.step _ (by simp [oneUser, start]) h₃).step _ (by simp) h₄
  obtain ⟨_, e, h⟩ := bind_eq_ok.mp h₃
  cases e
  obtain ⟨⟨_, cycle⟩, hcycle, e⟩ := bind_eq_ok.mp h
  cases e
  obtain ⟨g₃, hg₃, e⟩ := bind_eq_ok.mp h₄
  cases e
  cases h₅
  have hbase : SameNodes cycle.1.lastCommit oneUserTree.commitChanges.lastCommit :=
    sameNodes_lastCommit_of_writes (RegisterUserGatherer.finalizeWithTree_appends
      (hgood.opened g₂ rfl) (hclean.commitChanges_eq.symm ▸ hclean.settled) hcycle).1
  rw [show oneUserTree.commitChanges = _ from hclean.commitChanges_eq,
    hclean.lastCommit_eq] at hbase
  obtain ⟨s', hstep, hleaves, -, hcursor⟩ := registration_revert_restores sampleConfig
    oneUserTree.getRoot (oneUserTree, 1) hclean (fun i hi => (hleaf i).trans (if_neg (by omega))) _
    (hclosed.step (.setRevert true) (by simp) rfl) g₃ rfl rfl
    ⟨by rw [RegisterUserGatherer.createNewWithTree_eq hg₃], hbase, rfl⟩ 1
  exact ⟨_, s', hrun, hstep, hcursor, (hleaves 0).trans (hleaf 0), hleaves 1⟩

end RegistrationState

end PsyNode.Coordinator
