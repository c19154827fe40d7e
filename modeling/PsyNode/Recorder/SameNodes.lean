/-
PsyNode.Recorder.SameNodes
**STORES THAT SHOW THE SAME NODES.**  Two recorder stores can differ in what they have
committed and still show the same tree.  Reads and leaf writes do not tell them apart, and
committing or reverting only moves between them.
-/
import PsyNode.Recorder.Tree

namespace PsyNode.Recorder.SimpleMemoryMerkleRecorderStore

open Merkle Lib.WriteLog Lib.Merkle Lib

variable {Hash : Type} [MerkleZeroHasher Hash] [DecidableEq Hash]

/-- The stores show the same tree. -/
structure SameNodes (a b : RecorderStore Hash) : Prop where
  height : a.height = b.height
  effectiveHeight : a.effectiveHeight = b.effectiveHeight
  nodes : a.getNodeValue = b.getNodeValue

variable {a b c : RecorderStore Hash}

section
omit [DecidableEq Hash]

theorem SameNodes.refl (a : RecorderStore Hash) : SameNodes a a := ⟨rfl, rfl, rfl⟩

theorem SameNodes.symm (h : SameNodes a b) : SameNodes b a :=
  ⟨h.height.symm, h.effectiveHeight.symm, h.nodes.symm⟩

theorem SameNodes.trans (h : SameNodes a b) (h' : SameNodes b c) : SameNodes a c :=
  ⟨h.height.trans h'.height, h.effectiveHeight.trans h'.effectiveHeight, h.nodes.trans h'.nodes⟩

theorem SameNodes.getRoot (h : SameNodes a b) : a.getRoot = b.getRoot := congrFun h.nodes _

theorem SameNodes.getLeafValue (h : SameNodes a b) : a.getLeafValue = b.getLeafValue := by
  unfold SimpleMemoryMerkleRecorderStore.getLeafValue
  rw [h.nodes, h.height]

theorem SameNodes.settled (h : SameNodes a b) (hb : Settled twoToOne b.table b.height) :
    Settled twoToOne a.table a.height := by
  rw [h.height, show a.table = b.table from congrArg (fun read l i => read ⟨l, i⟩) h.nodes]
  exact hb

end

/-! ## §1. Writes. -/

theorem SameNodes.setNodeValue (h : SameNodes a b) (key : NodeKey) (value : Hash) :
    SameNodes (a.setNodeValue key value) (b.setNodeValue key value) := by
  refine ⟨?_, ?_, ?_⟩
  · rw [setNodeValue_height, setNodeValue_height, h.height]
  · rw [setNodeValue_effectiveHeight, setNodeValue_effectiveHeight, h.effectiveHeight]
  · rw [getNodeValue_setNodeValue, getNodeValue_setNodeValue, h.nodes]

theorem SameNodes.setPath (siblings : List Hash) {a b : RecorderStore Hash}
    (key : NodeKey) (value : Hash) (h : SameNodes a b) :
    SameNodes (setPath siblings key value a).1 (setPath siblings key value b).1 := by
  induction siblings generalizing a b key value with
  | nil =>
    exact h.setNodeValue key value
  | cons sibling siblings ih =>
    exact ih _ _ (h.setNodeValue key value)

/-- A leaf write reads only shown nodes. -/
theorem SameNodes.setELeaf (h : SameNodes a b) (index : Nat) (value : Hash) :
    SameNodes (a.setELeaf index value).1 (b.setELeaf index value).1 := by
  have hproof : a.getELeaf index = b.getELeaf index := by
    unfold getELeaf
    rw [h.nodes, h.effectiveHeight]
  show SameNodes
    (SimpleMemoryMerkleRecorderStore.setPath (a.getELeaf index).siblings
      ⟨a.effectiveHeight, index⟩ value a).1
    (SimpleMemoryMerkleRecorderStore.setPath (b.getELeaf index).siblings
      ⟨b.effectiveHeight, index⟩ value b).1
  rw [hproof, h.effectiveHeight]
  exact SameNodes.setPath _ _ _ h

/-! ## §2. Commits and reverts. -/

variable {st st' : RecorderStore Hash} {log : Log NodeKey Hash}

/-- The nodes of the last commit. -/
def lastCommit (st : RecorderStore Hash) : RecorderStore Hash :=
  { st with updatedNodes := fun _ => none, journal := [] }

/-- The nodes shown are those of the last commit with the journal on top. -/
def Journaled (st : RecorderStore Hash) : Prop :=
  st.getNodeValue = replay st.getLastCommitNode (st.journal.map JournalEntry.write)

section
omit [DecidableEq Hash]

theorem journaled_lastCommit (st : RecorderStore Hash) : Journaled st.lastCommit :=
  getNodeValue_eq_shown _

/-- **A COMMIT** keeps the nodes that are shown. -/
theorem Journaled.sameNodes_commitChanges (h : Journaled st) : SameNodes st.commitChanges st := by
  refine ⟨rfl, rfl, ?_⟩
  rw [getNodeValue_eq_shown, h]
  exact getLastCommitNode_foldl st st.journal st.nodes

theorem Tracks.sameNodes_commitChanges (h : Tracks st log) : SameNodes st.commitChanges st :=
  Journaled.sameNodes_commitChanges h.value_replay

end

theorem Journaled.setNodeValue (h : Journaled st) (key : NodeKey) (value : Hash) :
    Journaled (st.setNodeValue key value) := by
  by_cases hsame : st.getNodeValue key = value
  · rw [SimpleMemoryMerkleRecorderStore.setNodeValue, if_pos hsame]
    exact h
  · have hjournal : (st.setNodeValue key value).journal =
        st.journal ++ [⟨key, st.getNodeValue key, value⟩] := by
      simp [SimpleMemoryMerkleRecorderStore.setNodeValue, hsame]
    rw [Journaled, getNodeValue_setNodeValue, getLastCommitNode_setNodeValue, hjournal,
      List.map_append, List.map_singleton, replay_concat, h]
    rfl

theorem Journaled.of_writes (h : Journaled st) (hw : Writes st st') : Journaled st' := by
  obtain ⟨calls, rfl⟩ := hw
  induction calls generalizing st with
  | nil => exact h
  | cons call calls ih => exact ih (h.setNodeValue call.1 call.2)

/-- Writes do not touch the last commit. -/
theorem sameNodes_lastCommit_of_writes (hw : Writes st st') :
    SameNodes st'.lastCommit st.lastCommit :=
  ⟨hw.height, hw.effectiveHeight, show st'.getLastCommitNode = st.getLastCommitNode from
    hw.keeps getLastCommitNode_setNodeValue⟩

/-- From a store with nothing pending, a revert undoes all writes. -/
theorem Tracks.sameNodes_revertChanges (h : Tracks st log) (hclean : st.journal = [])
    (hw : Writes st st') : SameNodes st'.revertChanges st := by
  obtain ⟨writes, htracks⟩ := h.of_writes hw
  have hpending : log.pending = [] := by
    rw [← h.pending, hclean]
    rfl
  have hlog : (log.record (zeroNode st.height) writes).undoTo 0 = log :=
    log.undoTo_zero_of_no_commit _ hpending [.record _] (by simp [Event.Keeps])
  have hrevert := htracks.revertTo 0
  rw [hlog] at hrevert
  refine ⟨hw.height, hw.effectiveHeight, ?_⟩
  show (st'.revertTo 0).getNodeValue = _
  rw [hrevert.value, h.value]
  show log.value (zeroNode st'.height) = _
  rw [hw.height]

/-! ## §3. Clearing. -/

def setNodeValueNodesNoUpdated (st : RecorderStore Hash) (key : NodeKey)
    (value : Hash) : RecorderStore Hash :=
  { st with nodes := Function.update st.nodes key (some value) }

/-- The inner loop of `rehash_range_committed`, which writes to the committed nodes. -/
def rehashParentsCommitted (parentLevel : Nat) : Nat → Nat → RecorderStore Hash → RecorderStore Hash
  | 0, _, st => st
  | n + 1, parentIndex, st =>
    let leftVal := st.getNodeValue ⟨parentLevel + 1, parentIndex <<< 1⟩
    let rightVal := st.getNodeValue ⟨parentLevel + 1, (parentIndex <<< 1) + 1⟩
    rehashParentsCommitted parentLevel n (parentIndex + 1)
      (st.setNodeValueNodesNoUpdated ⟨parentLevel, parentIndex⟩ (twoToOne leftVal rightVal))

/-- `rehash_range_committed` on a half-open range of nodes. -/
def rehashRangeCommitted (st : RecorderStore Hash) (nodeBaseLevel start stop : Nat) :
    RecorderStore Hash :=
  if stop ≤ start then st else go nodeBaseLevel start stop st
where
  go : Nat → Nat → Nat → RecorderStore Hash → RecorderStore Hash
  | 0, _, _, st => st
  | parentLevel + 1, start, stop, st =>
    let parentStart := start >>> 1
    let parentEnd := ((stop - 1) >>> 1) + 1
    go parentLevel parentStart parentEnd
      (rehashParentsCommitted parentLevel (parentEnd - parentStart) parentStart st)

def clearChangesRemoveCommittedLeavesAndRehash (st : RecorderStore Hash)
    (startLeafIndex endLeafIndex : Nat) : RecorderStore Hash :=
  let cleared : RecorderStore Hash := { st with
    updatedNodes := fun _ => none
    journal := []
    nodes := fun key =>
      if key.level = st.height ∧ startLeafIndex ≤ key.index ∧ key.index < endLeafIndex then none
      else st.nodes key }
  cleared.rehashRangeCommitted st.height startLeafIndex (endLeafIndex + 1)

/-- A settled store without changes. -/
structure Clean (st : RecorderStore Hash) : Prop where
  updatedNodes : st.updatedNodes = fun _ => none
  journal : st.journal = []
  settled : Settled twoToOne st.table st.height

section
omit [DecidableEq Hash]

/-- Writing to a node what it holds. -/
theorem Clean.set (h : Clean st) (key : NodeKey) :
    Clean (st.setNodeValueNodesNoUpdated key (st.getNodeValue key)) ∧
      SameNodes (st.setNodeValueNodesNoUpdated key (st.getNodeValue key)) st := by
  have hnodes : (st.setNodeValueNodesNoUpdated key (st.getNodeValue key)).getNodeValue =
      st.getNodeValue := by
    funext k
    by_cases hk : k = key
    · simp [setNodeValueNodesNoUpdated, getNodeValue, h.updatedNodes, hk]
    · simp [setNodeValueNodesNoUpdated, getNodeValue, Function.update_of_ne hk]
  have hsame : SameNodes (st.setNodeValueNodesNoUpdated key (st.getNodeValue key)) st :=
    ⟨rfl, rfl, hnodes⟩
  exact ⟨⟨h.updatedNodes, h.journal, hsame.settled h.settled⟩, hsame⟩

theorem Clean.rehashParentsCommitted {level : Nat} (n : Nat) (i : Nat) {st : RecorderStore Hash}
    (h : Clean st) (hlevel : level < st.height) :
    Clean (rehashParentsCommitted level n i st) ∧
      SameNodes (rehashParentsCommitted level n i st) st := by
  induction n generalizing i st with
  | zero => exact ⟨h, .refl st⟩
  | succ n ih =>
    have hhashed : st.getNodeValue ⟨level, i⟩ = twoToOne
        (st.getNodeValue ⟨level + 1, i <<< 1⟩) (st.getNodeValue ⟨level + 1, (i <<< 1) + 1⟩) := by
      exact h.settled level hlevel i
    obtain ⟨hclean, hsame⟩ := h.set ⟨level, i⟩
    obtain ⟨hclean', hsame'⟩ := ih (i + 1) hclean hlevel
    have hstep := hsame'.trans hsame
    rw [hhashed] at hclean' hstep
    exact ⟨hclean', hstep⟩

theorem Clean.rehashRangeCommitted_go (level : Nat) (start stop : Nat) {st : RecorderStore Hash}
    (h : Clean st) (hlevel : level ≤ st.height) :
    Clean (rehashRangeCommitted.go level start stop st) ∧
      SameNodes (rehashRangeCommitted.go level start stop st) st := by
  induction level generalizing start stop st with
  | zero => exact ⟨h, .refl st⟩
  | succ level ih =>
    obtain ⟨hclean, hsame⟩ := h.rehashParentsCommitted
      (((stop - 1) >>> 1) + 1 - start >>> 1) (start >>> 1) hlevel
    obtain ⟨hclean', hsame'⟩ := ih _ _ hclean (by rw [hsame.height]; omega)
    exact ⟨hclean', hsame'.trans hsame⟩

/-- **CLEARING NO LEAF** shows the committed nodes, if they are settled. -/
theorem clearChanges_spec (i : Nat) (hsettled : Settled twoToOne st.lastCommit.table st.height)
    (hcleared : st.clearChangesRemoveCommittedLeavesAndRehash i i = st') :
    Clean st' ∧ SameNodes st' st.lastCommit := by
  have hnone : (fun key : NodeKey =>
      if key.level = st.height ∧ i ≤ key.index ∧ key.index < i then none else st.nodes key) =
      st.nodes := by
    funext key
    rw [if_neg (by omega)]
  unfold clearChangesRemoveCommittedLeavesAndRehash rehashRangeCommitted at hcleared
  rw [if_neg (by omega), hnone] at hcleared
  rw [← hcleared]
  exact Clean.rehashRangeCommitted_go _ _ _ ⟨rfl, rfl, hsettled⟩ (le_refl _)

theorem Clean.lastCommit_eq (h : Clean st) : st.lastCommit = st := by
  obtain ⟨nodes, updatedNodes, journal⟩ := st
  obtain ⟨rfl, rfl, _⟩ := h
  rfl

theorem Clean.commitChanges_eq (h : Clean st) : st.commitChanges = st := by
  obtain ⟨nodes, updatedNodes, journal⟩ := st
  obtain ⟨rfl, rfl, _⟩ := h
  rfl

end

omit [DecidableEq Hash] in
theorem Clean.journaled (h : Clean st) : Journaled st := h.lastCommit_eq ▸ journaled_lastCommit st

/-- A leaf that is written and committed. -/
theorem Clean.commit_setLeaf (h : Clean st) (i : Nat) (value : Hash) :
    Clean (st.setLeaf i value).1.commitChanges ∧
      SameNodes (st.setLeaf i value).1.commitChanges (st.setLeaf i value).1 := by
  have hw : Writes st (st.setLeaf i value).1 := writes_setPath st _ _ _
  have hsame := (h.journaled.of_writes hw).sameNodes_commitChanges
  refine ⟨⟨rfl, rfl, hsame.settled ?_⟩, hsame⟩
  rw [hw.height]
  exact setLeafFrom_settled h.settled i value

end PsyNode.Recorder.SimpleMemoryMerkleRecorderStore
