/-
PsyNode.Coordinator.Gatherer
**THE COORDINATOR'S GUTA UPDATE GATHERER** — `CoordinatorGUTAUpdateGatherer` and the
reader of its backup file.

A cycle opens a backup file, hands every queue item to the planner, and is
finalized into one block.  Three things outlive a cycle: the user tree, the old
realm roots of its updates (`last_old_realm_roots`), and the backup file.
-/
import PsyNode.Coordinator.Checkpoint
import PsyNode.Coordinator.State
import PsyNode.Ffs.Layout

namespace PsyNode.Coordinator

open Merkle Guta Recorder Store Lib.ByteCodec Lib List GUTAStats
open CoordinatorGUTAPlanner
open Ffs (Q256BitHash fromOwned32Bytes intoOwned32Bytes)

/-! ## §1. Items and errors. -/

/-- The serialization of a queue item: `FIXED_SIZE` and `psy_ser_from_slice`. -/
structure ItemCodec (F Hash : Type) where
  fixedSize : Nat
  fixedSize_pos : 0 < fixedSize
  psySerFromSlice : Bytes → Except String (Submission F Hash)

/-- What makes a call of the gatherer, or reading a backup file, fail. -/
inductive GathererError (Hash : Type)
  | itemSize (expected got : Nat)
  | decode (message : String)
  /-- The file system or the temporary store. -/
  | io (message : String)
  | planner (error : PlannerError Hash)
  | finalizing (error : PlannerError Hash)
  | fileTooSmall (length : Nat)
  | magicMismatch (magic : Nat)
  | startRootMismatch (fileRoot treeRoot : Hash)
  | notAMultiple (size remaining : Nat)

/-- `COORDINATOR_GUTA_UPDATE_GATHERER_BACKUP_MAGIC_U32`. -/
def COORDINATOR_GUTA_UPDATE_GATHERER_BACKUP_MAGIC_U32 : Nat := 0x32424743

def GUTA_REWARDS_TREE_OFFSET_ROOT_LEVEL : Nat := 2

def GUTA_REWARDS_TREE_OFFSET_ROOT_INDEX : Nat := 0

/-! ## §2. The gatherer. -/

/-- A file open for writing: its bytes, and where the next ones go. -/
structure OpenFile where
  content : Bytes
  position : Nat

/-- `write_all` overwrites what is there; `set_len` is never called. -/
def OpenFile.write (file : OpenFile) (bytes : Bytes) : OpenFile where
  content := file.content.take file.position ++ bytes ++
    file.content.drop (file.position + bytes.length)
  position := file.position + bytes.length

/-- The file that had the bytes `existing` when it was opened, with `written` written to it. -/
def OpenFile.overwritten (existing written : Bytes) : OpenFile :=
  ⟨written ++ existing.drop written.length, written.length⟩

theorem OpenFile.write_overwritten (existing written bytes : Bytes) :
    (overwritten existing written).write bytes = overwritten existing (written ++ bytes) := by
  simp [write, overwritten, drop_append]

theorem OpenFile.foldl_write_overwritten (existing : Bytes) (items : List Bytes)
    (written : Bytes) : items.foldl write (overwritten existing written) =
      overwritten existing (written ++ items.flatten) := by
  induction items generalizing written with
  | nil => simp
  | cons item items ih =>
    rw [foldl_cons, write_overwritten, ih, flatten_cons, append_assoc]

/-- `CoordinatorGUTAUpdateGatherer`. -/
structure CoordinatorGUTAUpdateGatherer (F Hash : Type) where
  lastCommittedCheckpointRoot : Hash
  gutaPlanner : CoordinatorGUTAPlanner F Hash
  uniquePendingId : Nat
  gutaStats : GUTAStats F
  totalGutaProofsGenerated : F
  oldRealmRoots : List (Nat × Hash)
  startGlobalUserTreeRoot : Hash
  newCoordinatorGutaFile : OpenFile
  totalGutaInputs : Nat

/-- `CoordinatorGUTAUpdateGathererOutputDatabase`; the two byte fields are given by the map
whose entries they list. -/
structure CoordinatorGUTAUpdateGathererOutputDatabase (F Hash : Type) where
  updateGlobalUserTreeNodes : NodeKey → Option Hash
  newRealmGutaRewardTreeNodeKeys : Nat → Option NodeKey
  gutaStats : GUTAStats F
  totalGutaProofsGenerated : F
  totalGutaInputs : Nat
  startGlobalUserTreeRoot : Hash
  endGlobalUserTreeRoot : Hash
  rootGutaHeader : Option (GlobalUserTreeAggregatorHeader F Hash)

structure CoordinatorGUTAUpdateGathererOutput (F Hash : Type) where
  dbOutput : CoordinatorGUTAUpdateGathererOutputDatabase F Hash
  jobIds : List (List (PsyProvingJobMetadataWithJobId Hash))

/-- A queue item, and what the call reads from and hands to the outside. -/
structure UpdateCall (Hash : Type) where
  item : Bytes
  currentCheckpointRoot : Hash
  checkpointTree : AppendOnlyStore Hash
  /-- `set_proof_miner_rewards_tree_value` of the temporary store. -/
  setProofMinerRewardsTreeValue : Nat → QProvingJobDataID → Hash → Except String Unit
  writeFile : Except String Unit

/-- What `finalize_with_tree` reads from the shared status and the checkpoint tree. -/
structure GathererFinalizeCall (F Hash : Type) where
  shouldRevertLastChanges : Bool
  lastCommittedCheckpointStateRoots : PQEDCheckpointGlobalStateRoots Hash
  lastCommittedCheckpointStatsHash : Hash
  /-- The checkpoint root a reverting cycle gives to its new planner. -/
  revertCheckpointRoot : Hash
  currentCheckpointRoot : Hash
  checkpointTree : AppendOnlyStore Hash
  coordinatorGutaUpdatesCircuitWhitelist : Hash
  saveWitnesses : List (QProvingJobDataID × GutaWitness F Hash) → Except String Unit
  flushFile : Except String Unit
  syncFile : Except String Unit

/-- What a finalized cycle leaves: its output, the shared old realm roots, the user tree and
the backup file. -/
structure FinishedCycle (F Hash : Type) where
  output : CoordinatorGUTAUpdateGathererOutput F Hash
  lastOldRealmRoots : List (Nat × Hash)
  tree : RecorderStore Hash
  file : Bytes

section
variable {F Hash : Type} [QFelt64 F] [MerkleZeroHasher Hash] [DecidableEq Hash]
  [HashTo4Felts F Hash] [FieldQHasher F Hash]

/-- `create_new_with_tree`; `createFile` gives the bytes of a file that is already there, since
`file_like_fs_create` opens without truncating. -/
def createNewWithTree [Q256BitHash Hash] (createFile : Except String Bytes) (uniquePendingId : Nat)
    (checkpointRoot : Hash) (tree : RecorderStore Hash) :
    Except (GathererError Hash) (CoordinatorGUTAUpdateGatherer F Hash) := do
  let existing ← createFile.mapError .io
  .ok { lastCommittedCheckpointRoot := checkpointRoot
        gutaPlanner := .new checkpointRoot
        uniquePendingId := uniquePendingId
        gutaStats := getZeroValue
        totalGutaProofsGenerated := 0
        oldRealmRoots := []
        startGlobalUserTreeRoot := tree.getRoot
        newCoordinatorGutaFile :=
          (OpenFile.write ⟨existing, 0⟩
            (leBytes 4 COORDINATOR_GUTA_UPDATE_GATHERER_BACKUP_MAGIC_U32)).write
            (intoOwned32Bytes tree.getRoot)
        totalGutaInputs := 0 }

variable (codec : ItemCodec F Hash)

/-- `update_from_queue_item_with_tree`.  A failed call ends the cycle, so what it did before
it failed is not kept. -/
def updateFromQueueItemWithTree
    (gatherer : CoordinatorGUTAUpdateGatherer F Hash) (tree : RecorderStore Hash)
    (call : UpdateCall Hash) : Except (GathererError Hash) (CoordinatorGUTAUpdateGatherer F Hash ×
      RecorderStore Hash) := do
  require (call.item.length = codec.fixedSize) (.itemSize codec.fixedSize call.item.length)
  let updateHeader ← (codec.psySerFromSlice call.item).mapError .decode
  (call.setProofMinerRewardsTreeValue gatherer.uniquePendingId updateHeader.jobId
    updateHeader.header.newTagTreeNodeValue).mapError .io
  call.writeFile.mapError .io
  let header := updateHeader.header.header
  let (gutaPlanner, tree) ← (gatherer.gutaPlanner.addRealmJob
    ⟨gatherer.uniquePendingId, call.currentCheckpointRoot, call.checkpointTree⟩ tree
    updateHeader).mapError .planner
  .ok ({ gatherer with
          lastCommittedCheckpointRoot := call.currentCheckpointRoot
          gutaPlanner := gutaPlanner
          gutaStats := gatherer.gutaStats.combineWith header.stats
          totalGutaProofsGenerated :=
            gatherer.totalGutaProofsGenerated + header.totalAggregationProofsGenerated
          oldRealmRoots := gatherer.oldRealmRoots ++
            [(toU64Value header.stateTransition.nodeIndex, header.stateTransition.oldNodeValue)]
          newCoordinatorGutaFile := gatherer.newCoordinatorGutaFile.write call.item
          totalGutaInputs := gatherer.totalGutaInputs + 1 }, tree)

def updateFromManyQueueItemsWithTree (codec : ItemCodec F Hash) : List (UpdateCall Hash) →
    CoordinatorGUTAUpdateGatherer F Hash → RecorderStore Hash →
    Except (GathererError Hash) (CoordinatorGUTAUpdateGatherer F Hash × RecorderStore Hash)
  | [], gatherer, tree => .ok (gatherer, tree)
  | call :: calls, gatherer, tree => do
    let (gatherer, tree) ← updateFromQueueItemWithTree codec gatherer tree call
    updateFromManyQueueItemsWithTree codec calls gatherer tree

/-- The undoing of the last cycle: drop what this cycle wrote, then set the old realm roots
of the last cycle, from the first to the last. -/
def revertLastChanges (lastOldRealmRoots : List (Nat × Hash))
    (tree : RecorderStore Hash) : RecorderStore Hash :=
  lastOldRealmRoots.foldl (fun tree old => (tree.setELeafNoProof old.1 old.2).1) tree.revertChanges

/-- The arguments that `finalize_with_tree` gives to the planner. -/
def GathererFinalizeCall.args (call : GathererFinalizeCall F Hash) : FinalizeArgs F Hash where
  rewardTreeRootLevel := GUTA_REWARDS_TREE_OFFSET_ROOT_LEVEL
  rewardTreeRootIndex := GUTA_REWARDS_TREE_OFFSET_ROOT_INDEX
  mostRecentCheckpointGlobalStateRoots := call.lastCommittedCheckpointStateRoots
  mostRecentCheckpointStatsHash := call.lastCommittedCheckpointStatsHash
  gutaCircuitWhitelist := call.coordinatorGutaUpdatesCircuitWhitelist
  saveWitnesses := call.saveWitnesses

def finalizeWithTree (gatherer : CoordinatorGUTAUpdateGatherer F Hash)
    (lastOldRealmRoots : List (Nat × Hash)) (tree : RecorderStore Hash)
    (call : GathererFinalizeCall F Hash) : Except (GathererError Hash) (FinishedCycle F Hash) := do
  let tree :=
    if call.shouldRevertLastChanges then revertLastChanges lastOldRealmRoots tree else tree
  -- the counters of the gatherer are kept when the planner is replaced
  let gutaPlanner :=
    if call.shouldRevertLastChanges then .new call.revertCheckpointRoot else gatherer.gutaPlanner
  call.flushFile.mapError .io
  let (plan, tree) ← (gutaPlanner.finalizeWithRewardIds
    ⟨gatherer.uniquePendingId, call.currentCheckpointRoot, call.checkpointTree⟩ call.args
    tree).mapError .finalizing
  let addedProofs := (plan.jobLevels.map List.length).sum
  call.syncFile.mapError .io
  .ok { output :=
          { dbOutput :=
              { updateGlobalUserTreeNodes := tree.updatedNodes
                newRealmGutaRewardTreeNodeKeys := plan.inputRealmRewardKeys
                gutaStats := gatherer.gutaStats
                totalGutaProofsGenerated :=
                  gatherer.totalGutaProofsGenerated + fromU64Value addedProofs
                totalGutaInputs := gatherer.totalGutaInputs
                startGlobalUserTreeRoot := gatherer.startGlobalUserTreeRoot
                endGlobalUserTreeRoot := tree.getRoot
                rootGutaHeader := some plan.rootGutaHeader }
            jobIds := plan.jobLevels }
        lastOldRealmRoots := gatherer.oldRealmRoots
        tree := tree.commitChanges
        file := gatherer.newCoordinatorGutaFile.content }

/-- Everything one cycle is given. -/
structure GathererCycle (F Hash : Type) where
  uniquePendingId : Nat
  checkpointRoot : Hash
  createFile : Except String Bytes
  updates : List (UpdateCall Hash)
  finalize : GathererFinalizeCall F Hash

/-- **A CYCLE**: a new gatherer, the queue items, finalization.  The tree belongs to the
gatherer alone. -/
def runCycle [Q256BitHash Hash] (codec : ItemCodec F Hash) (cycle : GathererCycle F Hash)
    (lastOldRealmRoots : List (Nat × Hash)) (tree : RecorderStore Hash) :
    Except (GathererError Hash) (FinishedCycle F Hash) := do
  let gatherer ← createNewWithTree cycle.createFile cycle.uniquePendingId cycle.checkpointRoot tree
  let (gatherer, tree) ← updateFromManyQueueItemsWithTree codec cycle.updates gatherer tree
  finalizeWithTree gatherer lastOldRealmRoots tree cycle.finalize

/-! ## §3. The backup reader. -/

/-- What the reader has summed up and written. -/
structure ReadState (F Hash : Type) where
  curGutaStats : GUTAStats F
  totalGutaProofsGenerated : F
  tree : RecorderStore Hash
  changes : List (Nat × Hash)

/-- The loop of the reader over `count` items. -/
def readItems (codec : ItemCodec F Hash) : Nat → Bytes → ReadState F Hash →
    Except (GathererError Hash) (ReadState F Hash)
  | 0, _, st => .ok st
  | count + 1, file, st => do
    let item ← (codec.psySerFromSlice (file.take codec.fixedSize)).mapError .decode
    let header := item.header.header
    let index := toU64Value header.stateTransition.nodeIndex
    readItems codec count (file.drop codec.fixedSize)
      { curGutaStats := st.curGutaStats.combineWith header.stats
        totalGutaProofsGenerated :=
          st.totalGutaProofsGenerated + header.totalAggregationProofsGenerated
        tree := (st.tree.setELeaf index header.stateTransition.newNodeValue).1
        changes := st.changes ++ [(index, header.stateTransition.newNodeValue)] }

def readCoordinatorGutaUpdateGathererBackupFile [Q256BitHash Hash] (codec : ItemCodec F Hash)
    (file : Bytes) (tree : RecorderStore Hash) :
    Except (GathererError Hash) (CoordinatorGUTAUpdateGathererOutputDatabase F Hash ×
      RecorderStore Hash) := do
  require (36 ≤ file.length) (.fileTooSmall file.length)
  let magic := ofLeBytes (file.take 4)
  require (magic = COORDINATOR_GUTA_UPDATE_GATHERER_BACKUP_MAGIC_U32) (.magicMismatch magic)
  let startGlobalUserTreeRoot : Hash := fromOwned32Bytes ((file.drop 4).take 32)
  require (startGlobalUserTreeRoot = tree.getRoot)
    (.startRootMismatch startGlobalUserTreeRoot tree.getRoot)
  let remainingAfterStart := file.length - 36
  require (remainingAfterStart % codec.fixedSize = 0)
    (.notAMultiple codec.fixedSize remainingAfterStart)
  let expectedCount := remainingAfterStart / codec.fixedSize
  let st ← readItems codec expectedCount (file.drop 36)
    ⟨getZeroValue, 0, tree.commitChanges, []⟩
  .ok ({ updateGlobalUserTreeNodes := st.tree.updatedNodes
         newRealmGutaRewardTreeNodeKeys := fun _ => none
         gutaStats := st.curGutaStats
         totalGutaProofsGenerated := st.totalGutaProofsGenerated
         totalGutaInputs := st.changes.length
         startGlobalUserTreeRoot := startGlobalUserTreeRoot
         endGlobalUserTreeRoot := st.tree.getRoot
         rootGutaHeader := none }, st.tree.commitChanges)

/-! ## §4. What a cycle did. -/

/-- The submission in a queue item. -/
def submission (call : UpdateCall Hash) : Option (Submission F Hash) :=
  (codec.psySerFromSlice call.item).toOption

/-- The submissions in the queue items. -/
def submissions (calls : List (UpdateCall Hash)) : List (Submission F Hash) :=
  calls.filterMap (submission codec)

/-- The call of `add_realm_job` for a queue item. -/
def realmJobCall (uniquePendingId : Nat) (call : UpdateCall Hash) (job : Submission F Hash) :
    RealmJobCall F Hash :=
  ⟨⟨uniquePendingId, call.currentCheckpointRoot, call.checkpointTree⟩, job, id⟩

/-- The calls of `add_realm_job` for the queue items. -/
def realmJobCalls (uniquePendingId : Nat)
    (calls : List (UpdateCall Hash)) : List (RealmJobCall F Hash) :=
  calls.filterMap (fun call => (submission codec call).map (realmJobCall uniquePendingId call))

variable {codec : ItemCodec F Hash} {call : UpdateCall Hash}

section
omit [QFelt64 F] [MerkleZeroHasher Hash] [DecidableEq Hash] [HashTo4Felts F Hash]
  [FieldQHasher F Hash]

section
variable {job : Submission F Hash} (h : codec.psySerFromSlice call.item = .ok job)
include h

theorem submission_eq_some : submission codec call = some job := by
  unfold submission
  rw [h]
  rfl

theorem submissions_cons (calls : List (UpdateCall Hash)) :
    submissions codec (call :: calls) = job :: submissions codec calls :=
  filterMap_cons_some (submission_eq_some h)

end

theorem map_job_realmJobCalls (codec : ItemCodec F Hash) (uniquePendingId : Nat)
    (calls : List (UpdateCall Hash)) :
    (realmJobCalls codec uniquePendingId calls).map (·.job) = submissions codec calls := by
  unfold realmJobCalls submissions
  rw [map_filterMap]
  refine filterMap_congr fun call _ => ?_
  rw [Option.map_map]
  exact Option.map_id'

/-- Nothing but the planner writes the tree. -/
theorem others_realmJobCalls (codec : ItemCodec F Hash) (uniquePendingId : Nat)
    (calls : List (UpdateCall Hash)) :
    ∀ call ∈ realmJobCalls codec uniquePendingId calls, call.others = id := by
  intro call hcall
  obtain ⟨update, _, hupdate⟩ := mem_filterMap.mp hcall
  obtain ⟨job, _, rfl⟩ := Option.map_eq_some_iff.mp hupdate
  rfl

end

/-- The realm of a submission and the root it starts from. -/
def oldRealmRoot (job : Submission F Hash) : Nat × Hash :=
  (realmOf job, (headerOf job).stateTransition.oldNodeValue)

/-- **WHAT THE ITEMS DID** to the gatherer and the tree. -/
structure Gathered (codec : ItemCodec F Hash) (calls : List (UpdateCall Hash))
    (gatherer : CoordinatorGUTAUpdateGatherer F Hash) (tree : RecorderStore Hash)
    (gatherer' : CoordinatorGUTAUpdateGatherer F Hash) (tree' : RecorderStore Hash) : Prop where
  size : ∀ call ∈ calls, call.item.length = codec.fixedSize
  decoded : ∀ call ∈ calls, ∃ job, codec.psySerFromSlice call.item = .ok job
  planned : addRealmJobs (realmJobCalls codec gatherer.uniquePendingId calls) gatherer.gutaPlanner
    tree = .ok (gatherer'.gutaPlanner, tree')
  uniquePendingId : gatherer'.uniquePendingId = gatherer.uniquePendingId
  startRoot : gatherer'.startGlobalUserTreeRoot = gatherer.startGlobalUserTreeRoot
  gutaStats : gatherer'.gutaStats = gatherer.gutaStats.combineWith
    (sum ((submissions codec calls).map (fun job => (headerOf job).stats)))
  totalProofs : gatherer'.totalGutaProofsGenerated = gatherer.totalGutaProofsGenerated +
    ((submissions codec calls).map (fun job => (headerOf job).totalAggregationProofsGenerated)).sum
  oldRealmRoots : gatherer'.oldRealmRoots =
    gatherer.oldRealmRoots ++ (submissions codec calls).map oldRealmRoot
  file : gatherer'.newCoordinatorGutaFile =
    (calls.map (·.item)).foldl OpenFile.write gatherer.newCoordinatorGutaFile
  totalInputs : gatherer'.totalGutaInputs = gatherer.totalGutaInputs + calls.length

variable {tree tree' : RecorderStore Hash}

variable {gatherer gatherer' : CoordinatorGUTAUpdateGatherer F Hash}

/-- **ONE ITEM.** -/
theorem updateFromQueueItemWithTree_eq_ok
    (hok : updateFromQueueItemWithTree codec gatherer tree call = .ok (gatherer', tree')) :
    ∃ job, call.item.length = codec.fixedSize ∧ codec.psySerFromSlice call.item = .ok job ∧
      gatherer.gutaPlanner.addRealmJob (realmJobCall gatherer.uniquePendingId call job).ctx tree
          job =
        .ok (gatherer'.gutaPlanner, tree') ∧
      gatherer' = { gatherer with
        lastCommittedCheckpointRoot := call.currentCheckpointRoot
        gutaPlanner := gatherer'.gutaPlanner
        gutaStats := gatherer.gutaStats.combineWith (headerOf job).stats
        totalGutaProofsGenerated :=
          gatherer.totalGutaProofsGenerated + (headerOf job).totalAggregationProofsGenerated
        oldRealmRoots := gatherer.oldRealmRoots ++ [oldRealmRoot job]
        newCoordinatorGutaFile := gatherer.newCoordinatorGutaFile.write call.item
        totalGutaInputs := gatherer.totalGutaInputs + 1 } := by
  unfold updateFromQueueItemWithTree at hok
  simp only [bind_eq_ok, require_eq_ok, mapError_eq_ok] at hok
  obtain ⟨_, hsize, job, hjob, _, _, _, _, ⟨planner, tree₁⟩, hplanner, hok⟩ := hok
  cases hok
  exact ⟨job, hsize, hjob, hplanner, rfl⟩

/-- **ALL ITEMS**, by induction over the list: the step is one item. -/
theorem updateFromManyQueueItemsWithTree_eq_ok (calls : List (UpdateCall Hash))
    {tree tree' : RecorderStore Hash}
    (hok : updateFromManyQueueItemsWithTree codec calls gatherer tree = .ok (gatherer', tree')) :
    Gathered codec calls gatherer tree gatherer' tree' := by
  induction calls generalizing gatherer tree with
  | nil =>
    cases hok
    exact ⟨by simp, by simp, rfl, rfl, rfl, (combineWith_zero _).symm, (add_zero _).symm,
      (append_nil _).symm, rfl, rfl⟩
  | cons call calls ih =>
    obtain ⟨⟨gatherer₁, tree₁⟩, hitem, hrest⟩ := bind_eq_ok.mp hok
    obtain ⟨job, hsize, hjob, hplanner, hgatherer⟩ := updateFromQueueItemWithTree_eq_ok hitem
    have htail := ih hrest
    have hjobs := submissions_cons hjob calls
    have hid : gatherer₁.uniquePendingId = gatherer.uniquePendingId := by rw [hgatherer]
    have hcalls : realmJobCalls codec gatherer.uniquePendingId (call :: calls) =
        realmJobCall gatherer.uniquePendingId call job ::
          realmJobCalls codec gatherer₁.uniquePendingId calls := by
      rw [hid]
      exact filterMap_cons_some (by rw [submission_eq_some hjob]; rfl)
    refine ⟨?_, ?_, ?_, ?_, ?_, ?_, ?_, ?_, ?_, ?_⟩
    · exact forall_mem_cons.mpr ⟨hsize, htail.size⟩
    · exact forall_mem_cons.mpr ⟨⟨job, hjob⟩, htail.decoded⟩
    · rw [hcalls]
      exact bind_eq_ok.mpr ⟨(gatherer₁.gutaPlanner, tree₁), hplanner, htail.planned⟩
    · rw [htail.uniquePendingId, hid]
    · rw [htail.startRoot, hgatherer]
    · rw [htail.gutaStats, hjobs, hgatherer]
      exact combineWith_assoc _ _ _
    · rw [htail.totalProofs, hjobs, hgatherer]
      simp [add_assoc]
    · rw [htail.oldRealmRoots, hjobs, hgatherer]
      simp
    · rw [htail.file, hgatherer]
      rfl
    · rw [htail.totalInputs, hgatherer, length_cons]
      show gatherer.totalGutaInputs + 1 + calls.length = _
      omega

/-- The call of the planner's finalization. -/
def GathererCycle.finalizeCall (cycle : GathererCycle F Hash) : FinalizeCall F Hash where
  ctx := ⟨cycle.uniquePendingId, cycle.finalize.currentCheckpointRoot,
    cycle.finalize.checkpointTree⟩
  args := cycle.finalize.args
  others := id

/-- **WHAT A CYCLE DID.**  `written` is the tree when finalization begins, `plan` what the
planner returned, `tree'` the tree it left. -/
structure CycleRun [Q256BitHash Hash] (codec : ItemCodec F Hash) (cycle : GathererCycle F Hash)
    (lastOldRealmRoots : List (Nat × Hash)) (tree : RecorderStore Hash)
    (done : FinishedCycle F Hash) (written : RecorderStore Hash)
    (plan : FinalizeOutput F Hash) (tree' : RecorderStore Hash) : Prop where
  size : ∀ call ∈ cycle.updates, call.item.length = codec.fixedSize
  decoded : ∀ call ∈ cycle.updates, ∃ job, codec.psySerFromSlice call.item = .ok job
  headers : ∃ headers : List (GlobalUserTreeAggregatorHeader F Hash),
    written = headers.foldl applyHeader tree
  idle : cycle.updates = [] → written = tree
  kept : cycle.finalize.shouldRevertLastChanges = false →
    planBlock cycle.checkpointRoot (realmJobCalls codec cycle.uniquePendingId cycle.updates)
      cycle.finalizeCall tree = .ok (plan, tree')
  reverted : cycle.finalize.shouldRevertLastChanges = true →
    planBlock cycle.finalize.revertCheckpointRoot [] cycle.finalizeCall
      (revertLastChanges lastOldRealmRoots written) = .ok (plan, tree')
  done_eq : done =
    { output :=
        { dbOutput :=
            { updateGlobalUserTreeNodes := tree'.updatedNodes
              newRealmGutaRewardTreeNodeKeys := plan.inputRealmRewardKeys
              gutaStats := sum
                ((submissions codec cycle.updates).map (fun job => (headerOf job).stats))
              totalGutaProofsGenerated := ((submissions codec cycle.updates).map
                (fun job => (headerOf job).totalAggregationProofsGenerated)).sum +
                  fromU64Value plan.jobLevels.flatten.length
              totalGutaInputs := cycle.updates.length
              startGlobalUserTreeRoot := tree.getRoot
              endGlobalUserTreeRoot := tree'.getRoot
              rootGutaHeader := some plan.rootGutaHeader }
          jobIds := plan.jobLevels }
      lastOldRealmRoots := (submissions codec cycle.updates).map oldRealmRoot
      tree := tree'.commitChanges
      file := done.file }
  file : ∃ existing, cycle.createFile = .ok existing ∧ done.file =
    (OpenFile.overwritten existing (leBytes 4 COORDINATOR_GUTA_UPDATE_GATHERER_BACKUP_MAGIC_U32 ++
      intoOwned32Bytes tree.getRoot ++ (cycle.updates.map (·.item)).flatten)).content

/-- The calls of `add_realm_job` write headers, nothing else. -/
theorem addRealmJobs_headers {syncedRoot : Hash} {calls : List (RealmJobCall F Hash)}
    {planner : CoordinatorGUTAPlanner F Hash} (hothers : ∀ call ∈ calls, call.others = id)
    (hok : addRealmJobs calls (.new syncedRoot) tree = .ok (planner, tree')) :
    ∃ headers : List (GlobalUserTreeAggregatorHeader F Hash),
      tree' = headers.foldl applyHeader tree := by
  have hends := addRealmJobs_ends (E := fun _ => True) (O := fun s s' => s' = s)
    (arrived_new syncedRoot tree) (fun _ _ => trivial)
    (fun call hcall s => by rw [hothers call hcall]; rfl)
  obtain ⟨harrived, _⟩ := hends.of_ok hok
  obtain ⟨_, _, ws, _, _, _, hcounter⟩ := harrived.split
  exact ⟨_, (reached_wrote hcounter.reached).tree⟩

variable {lastOldRealmRoots : List (Nat × Hash)} {done : FinishedCycle F Hash}

/-- **A CYCLE IS ONE RUN OF THE PLANNER.** -/
theorem runCycle_eq_ok [Q256BitHash Hash] {cycle : GathererCycle F Hash}
    (hok : runCycle codec cycle lastOldRealmRoots tree = .ok done) :
    ∃ written plan tree', CycleRun codec cycle lastOldRealmRoots tree done written plan tree' := by
  obtain ⟨gatherer₀, hnew, hok⟩ := bind_eq_ok.mp hok
  obtain ⟨⟨gatherer, written⟩, hitems, hfin⟩ := bind_eq_ok.mp hok
  unfold createNewWithTree at hnew
  simp only [bind_eq_ok, mapError_eq_ok] at hnew
  obtain ⟨existing, hexisting, hnew⟩ := hnew
  injection hnew with hnew
  have hgathered := updateFromManyQueueItemsWithTree_eq_ok _ hitems
  unfold finalizeWithTree at hfin
  simp only [bind_eq_ok, mapError_eq_ok] at hfin
  obtain ⟨_, _, ⟨plan, tree'⟩, hplan, _, _, hfin⟩ := hfin
  injection hfin with hdone
  have hplanned := hgathered.planned
  have hid := hgathered.uniquePendingId
  rw [← hnew] at hplanned hid
  rw [hid] at hplan
  refine ⟨written, plan, tree', hgathered.size, hgathered.decoded,
    addRealmJobs_headers (others_realmJobCalls _ _ _) hplanned, ?_, ?_, ?_, ?_, existing, hexisting,
    ?_⟩
  · intro hidle
    rw [hidle] at hplanned
    exact (congrArg Prod.snd (Except.ok.inj hplanned)).symm
  · intro hkeep
    rw [hkeep] at hplan
    exact bind_eq_ok.mpr ⟨(gatherer.gutaPlanner, written), hplanned, hplan⟩
  · intro hrevert
    rw [hrevert] at hplan
    exact bind_eq_ok.mpr ⟨(.new _, _), rfl, hplan⟩
  · rw [← hdone, ← length_flatten, hgathered.gutaStats, hgathered.totalProofs,
      hgathered.oldRealmRoots, hgathered.startRoot, hgathered.totalInputs, ← hnew,
      zero_combineWith, zero_add, zero_add, nil_append]
  · have hopen : gatherer₀.newCoordinatorGutaFile = OpenFile.overwritten existing
        (leBytes 4 COORDINATOR_GUTA_UPDATE_GATHERER_BACKUP_MAGIC_U32 ++
          intoOwned32Bytes tree.getRoot) := by
      rw [← hnew, ← OpenFile.write_overwritten]
      rfl
    rw [← hdone, hgathered.file, hopen, OpenFile.foldl_write_overwritten]

end

/-! ## §5. Sample cycles. -/

/-- A hash of one byte, small enough to be written to a file. -/
structure ByteHash where
  byte : UInt8
deriving DecidableEq

instance : MerkleZeroHasher ByteHash where
  twoToOne a b := ⟨3 * a.byte + 5 * b.byte + 1⟩
  getZeroValue := ⟨0⟩

instance : HashTo4Felts Nat ByteHash where
  default := ⟨0⟩
  to4Felts hash _ := hash.byte.toNat
  toU64Value_to4Felts_default := fun _ => rfl

instance : FieldQHasher Nat ByteHash where
  qHashMany felts := ⟨UInt8.ofNat felts.sum⟩
  qTwoToOne := twoToOne

instance : Q256BitHash ByteHash where
  fromOwned32Bytes bytes := ⟨bytes.headD 0⟩
  intoOwned32Bytes hash := hash.byte :: List.replicate 31 0

/-- A checkpoint tree of height two with one leaf. -/
def byteCheckpointTree : AppendOnlyStore ByteHash :=
  (PsyDashMemoryAppendOnlyMerkleStore.appendLeaves 0 [⟨1⟩] (.new 2)).toOption.getD (.new 2)

/-- Items of three bytes: the realm, its old and its new root. -/
def byteCodec : ItemCodec Nat ByteHash where
  fixedSize := 3
  fixedSize_pos := by decide
  psySerFromSlice
    | [realm, oldRoot, newRoot] => .ok
        { header :=
            { header :=
                { gutaCircuitWhitelist := ⟨50⟩
                  checkpointTreeRoot := byteCheckpointTree.getRoot
                  stateTransition := ⟨⟨oldRoot⟩, ⟨newRoot⟩, realm.toNat, 2⟩
                  stats := ⟨1, 0, 1, 1, 1⟩
                  totalAggregationProofsGenerated := 1 }
              newTagTreeNodeValue := ⟨60⟩ }
          jobId := .newProofJobId 7 2 .realmFinalizeGUTA 0 realm.toNat }
    | _ => .error "unexpected end of file"

/-- An update of a realm's root. -/
def byteUpdate (realm oldRoot newRoot : UInt8) : UpdateCall ByteHash where
  item := [realm, oldRoot, newRoot]
  currentCheckpointRoot := byteCheckpointTree.getRoot
  checkpointTree := byteCheckpointTree
  setProofMinerRewardsTreeValue := fun _ _ _ => .ok ()
  writeFile := .ok ()

/-- A cycle with these updates; the status has the given user tree root. -/
def byteCycle (shouldRevertLastChanges : Bool) (userTreeRoot : ByteHash)
    (updates : List (UpdateCall ByteHash)) : GathererCycle Nat ByteHash where
  uniquePendingId := 7
  checkpointRoot := byteCheckpointTree.getRoot
  createFile := .ok []
  updates := updates
  finalize :=
    { shouldRevertLastChanges := shouldRevertLastChanges
      lastCommittedCheckpointStateRoots := ⟨⟨0⟩, ⟨0⟩, userTreeRoot, ⟨0⟩, ⟨0⟩, ⟨0⟩⟩
      lastCommittedCheckpointStatsHash := ⟨0⟩
      revertCheckpointRoot := byteCheckpointTree.getRoot
      currentCheckpointRoot := byteCheckpointTree.getRoot
      checkpointTree := byteCheckpointTree
      coordinatorGutaUpdatesCircuitWhitelist := ⟨50⟩
      saveWitnesses := fun _ => .ok ()
      flushFile := .ok ()
      syncFile := .ok () }

end PsyNode.Coordinator
