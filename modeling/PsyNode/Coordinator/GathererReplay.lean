/-
PsyNode.Coordinator.GathererReplay
**REPLAYING A CYCLE.**  A cycle's updates are replayed twice: backwards, when the next cycle is
finalized with a revert, and forwards, from the backup file.
-/
import PsyNode.Coordinator.Gatherer
import PsyNode.Recorder.SameNodes

namespace PsyNode.Coordinator

open Lib.WriteLog Lib List
open Merkle Guta Recorder
open CoordinatorGUTAPlanner SimpleMemoryMerkleRecorderStore
open Ffs (Q256BitHash fromOwned32Bytes intoOwned32Bytes)
open Lib.ByteCodec (Bytes)

section
variable {F Hash : Type} [QFelt64 F] [MerkleZeroHasher Hash]

/-! ## §1. Leaf writes. -/

/-- Settled trees of one height with the same leaves have the same root, and, if the hash has no
collisions, only these. -/
theorem getRoot_eq_iff_leaves {a b : RecorderStore Hash} (ha : EffectivelySettled a)
    (hb : EffectivelySettled b) (hheight : a.effectiveHeight = b.effectiveHeight) :
    ((∀ i < 2 ^ b.effectiveHeight, a.getELeafValue i = b.getELeafValue i) →
      a.getRoot = b.getRoot) ∧
    (CollisionFree Hash → a.getRoot = b.getRoot →
      ∀ i < 2 ^ b.effectiveHeight, a.getELeafValue i = b.getELeafValue i) := by
  have hroot : a.getRoot = subRoot twoToOne a.getELeafValue b.effectiveHeight 0 :=
    hheight ▸ Settled.root_eq ha
  have hroot' : b.getRoot = subRoot twoToOne b.getELeafValue b.effectiveHeight 0 :=
    Settled.root_eq hb
  rw [hroot, hroot']
  constructor
  · intro hleaves
    exact subRoot_congr _ _ fun i _ hi => hleaves i (by rwa [Nat.zero_add, one_mul] at hi)
  · intro hinj h i hi
    exact eq_of_subRoot_eq hinj _ 0 h i (by omega) (by rwa [Nat.zero_add, one_mul])

variable [DecidableEq Hash]

/-- Leaf writes, one after the other. -/
def writeLeaves (s : RecorderStore Hash) (writes : List (Nat × Hash)) : RecorderStore Hash :=
  writes.foldl (fun s w => (s.setELeaf w.1 w.2).1) s

/-- The leaf write of a header. -/
def leafWrite (header : GutaHeader F Hash) : Nat × Hash :=
  (leafIndex header, header.stateTransition.newNodeValue)

variable {start s tree : RecorderStore Hash}
  {headers : List (GutaHeader F Hash)}

theorem foldl_applyHeader :
    headers.foldl applyHeader s = writeLeaves s (headers.map leafWrite) := by
  unfold writeLeaves
  rw [foldl_map]
  rfl

section
variable (writes : List (Nat × Hash))

theorem writes_writeLeaves (s : RecorderStore Hash) : Writes s (writeLeaves s writes) := by
  induction writes generalizing s with
  | nil => exact Writes.refl s
  | cons w ws ih => exact Writes.trans (writes_setPath _ _ _ _) (ih _)

theorem settled_writeLeaves (hs : EffectivelySettled s) :
    EffectivelySettled (writeLeaves s writes) := by
  induction writes generalizing s with
  | nil => exact hs
  | cons w ws ih => exact ih (hs.setELeaf w.1 w.2)

/-- The leaves are those of the writes replayed. -/
theorem getELeafValue_writeLeaves (s : RecorderStore Hash) :
    (writeLeaves s writes).getELeafValue = replay s.getELeafValue writes := by
  induction writes generalizing s with
  | nil => rfl
  | cons w ws ih =>
    show (writeLeaves (s.setELeaf w.1 w.2).1 ws).getELeafValue = _
    rw [ih, getELeafValue_setELeaf]
    rfl

theorem sameNodes_writeLeaves {a b : RecorderStore Hash} (h : SameNodes a b) :
    SameNodes (writeLeaves a writes) (writeLeaves b writes) := by
  induction writes generalizing a b with
  | nil => exact h
  | cons w ws ih => exact ih (h.setELeaf w.1 w.2)

end

theorem Wrote.writes (h : Wrote start headers s) : Writes start s := by
  rw [h.tree, foldl_applyHeader]
  exact writes_writeLeaves _ _

/-! ## §2. Backwards: the revert. -/

variable [HashTo4Felts F Hash] [FieldQHasher F Hash]

/-- **THE LIVE RUN** writes the headers in the order of arrival, whatever the order in which
the planner aggregates them. -/
theorem planBlock_wrote {syncedRoot : Hash} {calls : List (RealmJobCall F Hash)}
    {fin : FinalizeCall F Hash} {out : FinalizeOutput F Hash} {s s' : RecorderStore Hash}
    (hothers : ∀ call ∈ calls, call.others = id) (hlast : fin.others = id)
    (hok : planBlock syncedRoot calls fin s = .ok (out, s')) :
    Wrote s ((calls.map (·.job)).map headerOf) s' := by
  by_cases hne : calls = []
  · subst hne
    obtain ⟨input, hblock⟩ := planBlock_nil hok
    have htree := hblock.tree
    rw [hlast] at htree
    exact ⟨htree, trivial⟩
  · obtain ⟨root, houtcome⟩ := planBlock_outcome hne hothers hlast hok
    rw [← houtcome.inputs]
    exact houtcome.rooted.wrote

variable [Q256BitHash Hash] {codec : ItemCodec F Hash} {previous current : GathererCycle F Hash}
  {lastOldRealmRoots : List (Nat × Hash)} {tree : RecorderStore Hash}
  {log : Log NodeKey Hash} {donePrevious doneCurrent : FinishedCycle F Hash}

/-- A cycle that keeps its updates writes them, and commits. -/
theorem CycleRun.wrote {cycle : GathererCycle F Hash} {written tree' : RecorderStore Hash}
    {done : FinishedCycle F Hash} {plan : FinalizeOutput F Hash}
    (h : CycleRun codec cycle lastOldRealmRoots tree done written plan tree')
    (hkept : cycle.finalize.shouldRevertLastChanges = false) :
    Wrote tree ((submissions codec cycle.updates).map headerOf) tree' := by
  have hwrote := planBlock_wrote (others_realmJobCalls _ _ _) rfl (h.kept hkept)
  rwa [map_job_realmJobCalls] at hwrote

/-- The leaf writes of a cycle: the new roots of its updates, or, if it is reverted, the old roots
of the cycle before. -/
def GathererCycle.leafWrites (codec : ItemCodec F Hash) (cycle : GathererCycle F Hash)
    (lastOldRealmRoots : List (Nat × Hash)) : List (Nat × Hash) :=
  if cycle.finalize.shouldRevertLastChanges then lastOldRealmRoots
  else ((submissions codec cycle.updates).map headerOf).map leafWrite

/-- **WHAT A CYCLE LEAVES**: its tree, with its leaf writes.  Nothing is left of the updates of a
cycle that is reverted. -/
theorem CycleRun.sameNodes {cycle : GathererCycle F Hash} {written tree' : RecorderStore Hash}
    {done : FinishedCycle F Hash} {plan : FinalizeOutput F Hash} (htracks : Tracks tree log)
    (hclean : tree.journal = [])
    (h : CycleRun codec cycle lastOldRealmRoots tree done written plan tree') :
    (∃ log', Tracks tree' log') ∧
      SameNodes tree' (writeLeaves tree (cycle.leafWrites codec lastOldRealmRoots)) := by
  unfold GathererCycle.leafWrites
  split
  next hrevert =>
    have hwrites : Writes tree written := by
      obtain ⟨headers, hheaders⟩ := h.headers
      rw [hheaders, foldl_applyHeader]
      exact writes_writeLeaves _ _
    obtain ⟨input, hblock⟩ := planBlock_nil (h.reverted hrevert)
    have htree : tree' = writeLeaves written.revertChanges lastOldRealmRoots := hblock.tree
    obtain ⟨_, htracks₁⟩ := htracks.of_writes hwrites
    obtain ⟨_, htracks₂⟩ := (htracks₁.revertTo 0).of_writes
      (writes_writeLeaves lastOldRealmRoots _)
    rw [htree]
    exact ⟨⟨_, htracks₂⟩, sameNodes_writeLeaves _ (htracks.sameNodes_revertChanges hclean hwrites)⟩
  next hkept =>
    have hwrote := h.wrote (Bool.eq_false_iff.mpr hkept)
    obtain ⟨_, htracks₁⟩ := htracks.of_writes hwrote.writes
    refine ⟨⟨_, htracks₁⟩, ?_⟩
    rw [hwrote.tree, foldl_applyHeader]
    exact SameNodes.refl _

/-- **WHAT A REVERT LEAVES**: the writes of the previous cycle, and behind them the old realm roots
that it recorded, from the first to the last. -/
theorem revert_sameNodes (htracks : Tracks tree log) (hclean : tree.journal = [])
    (hprevious : runCycle codec previous lastOldRealmRoots tree = .ok donePrevious)
    (hrevert : current.finalize.shouldRevertLastChanges = true)
    (hcurrent : runCycle codec current donePrevious.lastOldRealmRoots donePrevious.tree =
      .ok doneCurrent) :
    SameNodes doneCurrent.tree (writeLeaves
      (writeLeaves tree (previous.leafWrites codec lastOldRealmRoots))
      ((submissions codec previous.updates).map oldRealmRoot)) := by
  obtain ⟨_, plan₁, tree₁, hrun₁⟩ := runCycle_eq_ok hprevious
  obtain ⟨written, plan₂, tree₂, hrun₂⟩ := runCycle_eq_ok hcurrent
  obtain ⟨⟨log₁, htracks₁⟩, hsame₁⟩ := hrun₁.sameNodes htracks hclean
  -- the previous cycle committed, so nothing is pending when the current one starts
  have htree₁ : donePrevious.tree = tree₁.commitChanges := by rw [hrun₁.done_eq]
  have hroots : donePrevious.lastOldRealmRoots =
      (submissions codec previous.updates).map oldRealmRoot := by rw [hrun₁.done_eq]
  rw [htree₁, hroots] at hrun₂
  obtain ⟨⟨log₂, htracks₂⟩, hsame₂⟩ := hrun₂.sameNodes htracks₁.commitChanges rfl
  rw [GathererCycle.leafWrites, if_pos hrevert] at hsame₂
  rw [hrun₂.done_eq]
  exact htracks₂.sameNodes_commitChanges.trans (hsame₂.trans (sameNodes_writeLeaves _
    (htracks₁.sameNodes_commitChanges.trans hsame₁)))

/-- The old realm roots that are written back when the cycle after `previous` is reverted: those
that `previous` recorded, and before them, if it was itself reverted, those of the cycle before. -/
def GathererCycle.undoWrites (codec : ItemCodec F Hash) (previous : GathererCycle F Hash)
    (lastOldRealmRoots : List (Nat × Hash)) : List (Nat × Hash) :=
  (if previous.finalize.shouldRevertLastChanges then lastOldRealmRoots else []) ++
    (submissions codec previous.updates).map oldRealmRoot

omit [MerkleZeroHasher Hash] [DecidableEq Hash] [HashTo4Felts F Hash] [FieldQHasher F Hash]
  [Q256BitHash Hash] in
/-- The updates of the previous cycle are all overwritten. -/
theorem replay_leafWrites (leaves : Nat → Hash) :
    replay (replay leaves (previous.leafWrites codec lastOldRealmRoots))
        ((submissions codec previous.updates).map oldRealmRoot) =
      replay leaves (previous.undoWrites codec lastOldRealmRoots) := by
  unfold GathererCycle.leafWrites GathererCycle.undoWrites
  split
  next => rw [replay_append]
  next =>
    rw [nil_append]
    refine replay_overwritten fun w hw => ?_
    rw [map_map] at hw
    obtain ⟨job, hjob, rfl⟩ := mem_map.mp hw
    exact ⟨oldRealmRoot job, mem_map_of_mem hjob, rfl⟩

/-- **THE REVERT** leads back to the user tree root at the start of the previous cycle, whatever the
current cycle accepted, if the last old root recorded for every realm is its root at that start;
and, if the hash has no collisions, only then. -/
theorem revert_restores_start_root_iff (htracks : Tracks tree log) (hclean : tree.journal = [])
    (hsettled : EffectivelySettled tree)
    (hprevious : runCycle codec previous lastOldRealmRoots tree = .ok donePrevious)
    (hrevert : current.finalize.shouldRevertLastChanges = true)
    (hcurrent : runCycle codec current donePrevious.lastOldRealmRoots donePrevious.tree =
      .ok doneCurrent) :
    ((∀ realm < 2 ^ tree.effectiveHeight, ∀ root,
        lastWrite (previous.undoWrites codec lastOldRealmRoots) realm = some root →
        root = tree.getELeafValue realm) → doneCurrent.tree.getRoot = tree.getRoot) ∧
    ((∀ x y z w : Hash, twoToOne x y = twoToOne z w → x = z ∧ y = w) →
      doneCurrent.tree.getRoot = tree.getRoot → ∀ realm < 2 ^ tree.effectiveHeight, ∀ root,
        lastWrite (previous.undoWrites codec lastOldRealmRoots) realm = some root →
        root = tree.getELeafValue realm) := by
  have hsame := revert_sameNodes htracks hclean hprevious hrevert hcurrent
  have hleaves : (writeLeaves (writeLeaves tree (previous.leafWrites codec lastOldRealmRoots))
      ((submissions codec previous.updates).map oldRealmRoot)).getELeafValue =
      replay tree.getELeafValue (previous.undoWrites codec lastOldRealmRoots) := by
    rw [getELeafValue_writeLeaves, getELeafValue_writeLeaves, replay_leafWrites]
  obtain ⟨hif, honlyIf⟩ := getRoot_eq_iff_leaves
    (settled_writeLeaves ((submissions codec previous.updates).map oldRealmRoot)
      (settled_writeLeaves (previous.leafWrites codec lastOldRealmRoots) hsettled)) hsettled
    ((writes_writeLeaves _ _).effectiveHeight.trans (writes_writeLeaves _ _).effectiveHeight)
  rw [hleaves] at hif honlyIf
  rw [hsame.getRoot]
  refine ⟨fun hlast => hif fun realm hrealm => ?_, fun hinj hroot realm hrealm root hlast => ?_⟩
  · rw [replay_eq_last]
    cases hwrite : lastWrite (previous.undoWrites codec lastOldRealmRoots) realm with
    | none => rfl
    | some root => exact hlast realm hrealm root hwrite
  · have hleaf := honlyIf hinj hroot realm hrealm
    rwa [replay_eq_last, hlast] at hleaf

end

/-- Realm 0 goes from 0 to 10, back to 0 and on to 5, realm 1 from 0 to 11; the next cycle, in which
realm 0 submits again, is reverted. -/
theorem revert_restores_start_root_four_updates :
    ∃ donePrevious doneCurrent,
      runCycle byteCodec (byteCycle false ⟨0⟩ [byteUpdate 0 0 10, byteUpdate 1 0 11,
        byteUpdate 0 10 0, byteUpdate 0 0 5]) [] (.new 2) = .ok donePrevious ∧
      runCycle byteCodec (byteCycle true ⟨0⟩ [byteUpdate 0 5 12]) donePrevious.lastOldRealmRoots
        donePrevious.tree = .ok doneCurrent ∧
      doneCurrent.tree.getRoot =
        (SimpleMemoryMerkleRecorderStore.new 2 : RecorderStore ByteHash).getRoot := by
  obtain ⟨donePrevious, hprevious, doneCurrent, hcurrent⟩ : ∃ donePrevious,
      runCycle byteCodec (byteCycle false ⟨0⟩ [byteUpdate 0 0 10, byteUpdate 1 0 11,
        byteUpdate 0 10 0, byteUpdate 0 0 5]) [] (.new 2) = .ok donePrevious ∧
      ∃ doneCurrent, runCycle byteCodec (byteCycle true ⟨0⟩ [byteUpdate 0 5 12])
        donePrevious.lastOldRealmRoots donePrevious.tree = .ok doneCurrent := ⟨_, rfl, _, rfl⟩
  have hiff := revert_restores_start_root_iff (tracks_new 2) rfl (effectivelySettled_new 2)
    hprevious rfl hcurrent
  exact ⟨donePrevious, doneCurrent, hprevious, hcurrent, hiff.1 (by decide)⟩

/-- Realm 0 submits twice to a cycle, from 0 to 10 and on to 12, and the next cycle is
reverted: the old roots 0 and 10 are set in this order, so the tree ends with the leaf 10. -/
theorem revert_replays_forwards :
    ∃ donePrevious doneCurrent,
      runCycle byteCodec (byteCycle false ⟨0⟩ [byteUpdate 0 0 10, byteUpdate 0 10 12]) []
        (.new 2) = .ok donePrevious ∧
      runCycle byteCodec (byteCycle true ⟨0⟩ []) donePrevious.lastOldRealmRoots
        donePrevious.tree = .ok doneCurrent ∧
      doneCurrent.tree.getRoot ≠
        (SimpleMemoryMerkleRecorderStore.new 2 : RecorderStore ByteHash).getRoot := by
  obtain ⟨donePrevious, hprevious, doneCurrent, hcurrent⟩ : ∃ donePrevious,
      runCycle byteCodec (byteCycle false ⟨0⟩ [byteUpdate 0 0 10, byteUpdate 0 10 12]) []
        (.new 2) = .ok donePrevious ∧
      ∃ doneCurrent, runCycle byteCodec (byteCycle true ⟨0⟩ [])
        donePrevious.lastOldRealmRoots donePrevious.tree = .ok doneCurrent := ⟨_, rfl, _, rfl⟩
  refine ⟨donePrevious, doneCurrent, hprevious, hcurrent, ?_⟩
  rw [(revert_sameNodes (tracks_new 2) rfl hprevious rfl hcurrent).getRoot]
  decide

/-! ## §3. Forwards: the backup file. -/

/-- A hash is written as 32 bytes and read back from them. -/
class LawfulQ256BitHash (Hash : Type) extends Q256BitHash Hash where
  length_intoOwned32Bytes : ∀ hash : Hash, (intoOwned32Bytes hash).length = 32
  fromOwned32Bytes_intoOwned32Bytes : ∀ hash : Hash, fromOwned32Bytes (intoOwned32Bytes hash) = hash

instance : LawfulQ256BitHash ByteHash where
  length_intoOwned32Bytes := fun _ => rfl
  fromOwned32Bytes_intoOwned32Bytes := fun _ => rfl

section
variable {F Hash : Type} {codec : ItemCodec F Hash} {calls : List (UpdateCall Hash)}

theorem length_items (hsize : ∀ call ∈ calls, call.item.length = codec.fixedSize) :
    (calls.map (·.item)).flatten.length = calls.length * codec.fixedSize := by
  rw [length_flatten, map_map, sum_eq_card_nsmul _ codec.fixedSize, length_map, smul_eq_mul]
  intro n hn
  obtain ⟨call, hcall, rfl⟩ := mem_map.mp hn
  exact hsize call hcall

variable [QFelt64 F] [MerkleZeroHasher Hash] [DecidableEq Hash]

/-- **THE LOOP OF THE READER** over the items of accepted updates. -/
theorem readItems_items (calls : List (UpdateCall Hash)) (st : ReadState F Hash)
    (hsize : ∀ call ∈ calls, call.item.length = codec.fixedSize)
    (hdecoded : ∀ call ∈ calls, ∃ job, codec.psySerFromSlice call.item = .ok job) :
    ∃ st', readItems codec calls.length (calls.map (·.item)).flatten st = .ok st' ∧
      st'.curGutaStats = st.curGutaStats.combineWith
        (GUTAStats.sum ((submissions codec calls).map (fun job => (headerOf job).stats))) ∧
      st'.tree = ((submissions codec calls).map headerOf).foldl applyHeader st.tree ∧
      st'.changes.length = st.changes.length + calls.length := by
  induction calls generalizing st with
  | nil =>
    exact ⟨st, rfl, (GUTAStats.combineWith_zero _).symm, rfl, rfl⟩
  | cons call calls ih =>
    obtain ⟨hlength, hsize⟩ := forall_mem_cons.mp hsize
    obtain ⟨⟨job, hjob⟩, hdecoded⟩ := forall_mem_cons.mp hdecoded
    have hjobs := submissions_cons hjob calls
    have htake : ((call :: calls).map (·.item)).flatten.take codec.fixedSize = call.item := by
      rw [map_cons, flatten_cons, take_left' hlength]
    have hdrop : ((call :: calls).map (·.item)).flatten.drop codec.fixedSize =
        (calls.map (·.item)).flatten := by
      rw [map_cons, flatten_cons, drop_left' hlength]
    -- one round of the loop, then the rest
    let st₁ : ReadState F Hash :=
      { curGutaStats := st.curGutaStats.combineWith (headerOf job).stats
        totalGutaProofsGenerated :=
          st.totalGutaProofsGenerated + (headerOf job).totalAggregationProofsGenerated
        tree := applyHeader st.tree (headerOf job)
        changes := st.changes ++ [leafWrite (headerOf job)] }
    obtain ⟨st', hread, hstats, htree, hchanges⟩ := ih st₁ hsize hdecoded
    refine ⟨st', ?_, ?_, ?_, ?_⟩
    · show readItems codec (calls.length + 1) _ st = _
      unfold readItems
      rw [htake, hdrop, hjob]
      exact hread
    · rw [hstats, hjobs]
      exact GUTAStats.combineWith_assoc _ _ _
    · rw [htree, hjobs]
      rfl
    · rw [hchanges, length_cons]
      show (st.changes ++ [_]).length + calls.length = _
      rw [length_append, length_singleton]
      omega

/-- The reader lists one change for every item. -/
theorem length_changes_readItems {count : Nat} {file : Bytes} {st st' : ReadState F Hash}
    (h : readItems codec count file st = .ok st') :
    st'.changes.length = st.changes.length + count := by
  induction count generalizing file st with
  | zero =>
    cases h
    rfl
  | succ count ih =>
    obtain ⟨item, _, h⟩ := bind_eq_ok.mp h
    rw [ih h, length_append, length_singleton]
    omega

/-- **THE READER COUNTS ALL BYTES** behind the header of the file. -/
theorem length_of_readCoordinatorGutaUpdateGathererBackupFile [Q256BitHash Hash] {file : Bytes}
    {tree tree' : RecorderStore Hash} {out : CoordinatorGUTAUpdateGathererOutputDatabase F Hash}
    (h : readCoordinatorGutaUpdateGathererBackupFile codec file tree = .ok (out, tree')) :
    file.length = 36 + out.totalGutaInputs * codec.fixedSize := by
  unfold readCoordinatorGutaUpdateGathererBackupFile at h
  simp only [bind_eq_ok, require_eq_ok] at h
  obtain ⟨_, hlong, _, _, _, _, _, hmod, st, hread, h⟩ := h
  injection h with h
  have hinputs : out.totalGutaInputs = (file.length - 36) / codec.fixedSize := by
    cases h
    exact (length_changes_readItems hread).trans (Nat.zero_add _)
  rw [hinputs, Nat.div_mul_cancel (Nat.dvd_of_mod_eq_zero hmod)]
  omega

/-- The checks of the reader pass on a file that starts with the root of its tree. -/
theorem readCoordinatorGutaUpdateGathererBackupFile_items [LawfulQ256BitHash Hash]
    (hsize : ∀ call ∈ calls, call.item.length = codec.fixedSize) (tree : RecorderStore Hash)
    {st : ReadState F Hash} (hread : readItems codec calls.length (calls.map (·.item)).flatten
      ⟨GUTAStats.getZeroValue, 0, tree.commitChanges, []⟩ = .ok st) :
    readCoordinatorGutaUpdateGathererBackupFile codec
        (leBytes 4 COORDINATOR_GUTA_UPDATE_GATHERER_BACKUP_MAGIC_U32 ++
          intoOwned32Bytes tree.getRoot ++ (calls.map (·.item)).flatten) tree =
      .ok ({ updateGlobalUserTreeNodes := st.tree.updatedNodes
             newRealmGutaRewardTreeNodeKeys := fun _ => none
             gutaStats := st.curGutaStats
             totalGutaProofsGenerated := st.totalGutaProofsGenerated
             totalGutaInputs := st.changes.length
             startGlobalUserTreeRoot := tree.getRoot
             endGlobalUserTreeRoot := st.tree.getRoot
             rootGutaHeader := none }, st.tree.commitChanges) := by
  have hmagic := length_leBytes 4 COORDINATOR_GUTA_UPDATE_GATHERER_BACKUP_MAGIC_U32
  have hroot := LawfulQ256BitHash.length_intoOwned32Bytes tree.getRoot
  have hitems := length_items hsize
  generalize hfile : leBytes 4 COORDINATOR_GUTA_UPDATE_GATHERER_BACKUP_MAGIC_U32 ++
    intoOwned32Bytes tree.getRoot ++ (calls.map (·.item)).flatten = file
  have hlength : file.length = 36 + calls.length * codec.fixedSize := by
    rw [← hfile, length_append, length_append, hmagic, hroot, hitems]
  have hcount : file.length - 36 = calls.length * codec.fixedSize := by omega
  have htake : file.take 4 = leBytes 4 COORDINATOR_GUTA_UPDATE_GATHERER_BACKUP_MAGIC_U32 := by
    rw [← hfile, append_assoc, take_left' hmagic]
  have hstart : (file.drop 4).take 32 = intoOwned32Bytes tree.getRoot := by
    rw [← hfile, append_assoc, drop_left' hmagic, take_left' hroot]
  have hrest : file.drop 36 = (calls.map (·.item)).flatten := by
    rw [← hfile, drop_left' (by rw [length_append, hmagic, hroot])]
  unfold readCoordinatorGutaUpdateGathererBackupFile
  rw [htake, hstart, hrest, hcount, LawfulQ256BitHash.fromOwned32Bytes_intoOwned32Bytes]
  simp only [bind_eq_ok, require_eq_ok]
  refine ⟨(), by omega, (), rfl, (), trivial, (), Nat.mul_mod_left _ _, st, ?_, rfl⟩
  rw [Nat.mul_div_cancel _ codec.fixedSize_pos]
  exact hread

variable [HashTo4Felts F Hash] [FieldQHasher F Hash]

/-- **THE BACKUP FILE REPLAYS THE CYCLE.**  Reading the file of a cycle that kept its updates, on
any tree that shows what the cycle started from, succeeds with the cycle's start root, end root,
statistics and number of inputs, and leaves a tree that shows what the cycle left, exactly if the
cycle wrote over all the bytes that the file had before. -/
theorem backup_replays_cycle_iff [LawfulQ256BitHash Hash] {codec : ItemCodec F Hash}
    {cycle : GathererCycle F Hash} {lastOldRealmRoots : List (Nat × Hash)} {existing : Bytes}
    {tree tree₀ : SimpleMemoryMerkleRecorderStore Hash} {log log₀ : Log SimpleMerkleNodeKey Hash}
    {done : FinishedCycle F Hash} (htracks : Tracks tree log) (htracks₀ : Tracks tree₀ log₀)
    (hstart : SameNodes tree₀ tree) (hkept : cycle.finalize.shouldRevertLastChanges = false)
    (hexisting : cycle.createFile = .ok existing)
    (hok : runCycle codec cycle lastOldRealmRoots tree = .ok done) :
    (∃ out tree', readCoordinatorGutaUpdateGathererBackupFile codec done.file tree₀ =
        .ok (out, tree') ∧
      out.startGlobalUserTreeRoot = done.output.dbOutput.startGlobalUserTreeRoot ∧
      out.endGlobalUserTreeRoot = done.output.dbOutput.endGlobalUserTreeRoot ∧
      out.gutaStats = done.output.dbOutput.gutaStats ∧
      out.totalGutaInputs = done.output.dbOutput.totalGutaInputs ∧
      ∀ key, tree'.getNodeValue key = done.tree.getNodeValue key) ↔
    existing.length ≤ 36 + cycle.updates.length * codec.fixedSize := by
  obtain ⟨written, plan, tree₁, hrun⟩ := runCycle_eq_ok hok
  obtain ⟨_, hexisting', hfile⟩ := hrun.file
  cases hexisting.symm.trans hexisting'
  have hlength : (leBytes 4 COORDINATOR_GUTA_UPDATE_GATHERER_BACKUP_MAGIC_U32 ++
      intoOwned32Bytes tree.getRoot ++ (cycle.updates.map (·.item)).flatten).length =
        36 + cycle.updates.length * codec.fixedSize := by
    rw [length_append, length_append, length_leBytes, length_items hrun.size,
      LawfulQ256BitHash.length_intoOwned32Bytes]
  replace hfile : done.file = _ ++ existing.drop (length _) := hfile
  have hinputs : done.output.dbOutput.totalGutaInputs = cycle.updates.length := by
    rw [hrun.done_eq]
  rw [← hstart.getRoot] at hfile hlength
  rw [hlength] at hfile
  constructor
  · -- a byte that is left over is counted, or refused
    rintro ⟨out, tree', hread, _, _, _, hsameInputs, _⟩
    have hcounted := length_of_readCoordinatorGutaUpdateGathererBackupFile hread
    rw [hsameInputs, hinputs, hfile, length_append, hlength, length_drop] at hcounted
    omega
  intro hle
  rw [drop_eq_nil_of_le hle, append_nil] at hfile
  have hwrote := hrun.wrote hkept
  obtain ⟨st, hread, hstats, htree, hchanges⟩ := readItems_items cycle.updates
    ⟨GUTAStats.getZeroValue, 0, tree₀.commitChanges, []⟩ hrun.size hrun.decoded
  rw [GUTAStats.zero_combineWith] at hstats
  -- both runs write the same leaves, to trees that show the same nodes
  have hsame : SameNodes st.tree tree₁ := by
    rw [htree, hwrote.tree, foldl_applyHeader, foldl_applyHeader]
    exact sameNodes_writeLeaves _ (htracks₀.sameNodes_commitChanges.trans hstart)
  obtain ⟨_, htracks₁⟩ := htracks.of_writes hwrote.writes
  obtain ⟨_, htracksRead⟩ := htracks₀.commitChanges.of_writes (by
    rw [htree, foldl_applyHeader]
    exact writes_writeLeaves _ _ : Writes tree₀.commitChanges st.tree)
  have hleft : SameNodes st.tree.commitChanges tree₁.commitChanges :=
    htracksRead.sameNodes_commitChanges.trans
      (hsame.trans htracks₁.sameNodes_commitChanges.symm)
  have hout := readCoordinatorGutaUpdateGathererBackupFile_items hrun.size tree₀ hread
  rw [← hfile] at hout
  refine ⟨_, _, hout, ?_⟩
  rw [hrun.done_eq]
  exact ⟨hstart.getRoot, hsame.getRoot, hstats, hchanges.trans (Nat.zero_add _),
    fun key => congrFun hleft.nodes key⟩

end

/-- A cycle that finds these bytes in its backup file. -/
def byteCycleOver (existing : Bytes) (updates : List (UpdateCall ByteHash)) :
    GathererCycle Nat ByteHash :=
  { byteCycle false ⟨0⟩ updates with createFile := .ok existing }

/-- The file of a cycle in which realm 0 submits twice, over a shorter one. -/
theorem backup_replays_cycle_twice :
    ∃ done out tree', runCycle byteCodec (byteCycleOver (replicate 40 9)
        [byteUpdate 0 0 10, byteUpdate 1 0 11, byteUpdate 0 10 12]) [] (.new 2) = .ok done ∧
      readCoordinatorGutaUpdateGathererBackupFile byteCodec done.file (.new 2) =
        .ok (out, tree') ∧
      out.endGlobalUserTreeRoot = done.output.dbOutput.endGlobalUserTreeRoot ∧
      out.totalGutaInputs = done.output.dbOutput.totalGutaInputs := by
  obtain ⟨done, hok⟩ : ∃ done, runCycle byteCodec (byteCycleOver (replicate 40 9)
      [byteUpdate 0 0 10, byteUpdate 1 0 11, byteUpdate 0 10 12]) [] (.new 2) = .ok done :=
    exists_of_isOk (by decide +kernel)
  obtain ⟨out, tree', hread, _, hend, _, hinputs, _⟩ := (backup_replays_cycle_iff
    (tracks_new 2) (tracks_new 2) (SameNodes.refl _) rfl rfl hok).mpr (by decide)
  exact ⟨done, out, tree', hok, hread, hend, hinputs⟩

/-- The backup file of a cycle on the empty tree with an update of realm 0 and one of realm 1. -/
def twoUpdatesFile : Bytes :=
  leBytes 4 COORDINATOR_GUTA_UPDATE_GATHERER_BACKUP_MAGIC_U32 ++
    intoOwned32Bytes (SimpleMemoryMerkleRecorderStore.new 2 : RecorderStore ByteHash).getRoot ++
    [0, 0, 10, 1, 0, 11]

/-- **A TAIL IS READ AS AN UPDATE**: a cycle with one update, over the file of a cycle of two with
the same start, leaves the second update of that file. -/
theorem backup_keeps_old_tail :
    ∃ done out tree', runCycle byteCodec (byteCycleOver twoUpdatesFile [byteUpdate 0 0 12]) []
        (.new 2) = .ok done ∧
      readCoordinatorGutaUpdateGathererBackupFile byteCodec done.file (.new 2) =
        .ok (out, tree') ∧
      done.output.dbOutput.totalGutaInputs = 1 ∧ out.totalGutaInputs = 2 := by
  obtain ⟨done, hok⟩ : ∃ done, runCycle byteCodec
      (byteCycleOver twoUpdatesFile [byteUpdate 0 0 12]) [] (.new 2) = .ok done :=
    exists_of_isOk (by decide +kernel)
  obtain ⟨_, _, _, hrun⟩ := runCycle_eq_ok hok
  obtain ⟨_, hexisting, hfile⟩ := hrun.file
  cases hexisting
  obtain ⟨⟨out, tree'⟩, hread⟩ : ∃ result, readCoordinatorGutaUpdateGathererBackupFile byteCodec
      done.file (.new 2) = .ok result := by
    rw [hfile]
    exact exists_of_isOk (by decide +kernel)
  have hlength := length_of_readCoordinatorGutaUpdateGathererBackupFile hread
  have hbytes : done.file.length = 42 := by
    rw [hfile]
    decide +kernel
  have hsize : byteCodec.fixedSize = 3 := rfl
  rw [hbytes, hsize] at hlength
  refine ⟨done, out, tree', hok, hread, by rw [hrun.done_eq]; rfl, ?_⟩
  omega

end PsyNode.Coordinator
