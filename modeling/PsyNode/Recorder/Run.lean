/-
PsyNode.Recorder.Run
**RUNS OF THE RECORDER STORE** — any sequence of its writing and journal
operations, failing calls included.

An operation acts on the store (`RecorderOp.apply`) and, in the abstract log,
is one event (`RecorderOp.event`): a writing operation records the arguments of
its calls of `set_node_value` (`RecorderOp.calls`), which do not depend on change
map and journal.  `apply_tracks` / `run_tracks` carry the relation along a run, and
the library's log rules then give the meaning of snapshots.

A snapshot is a POSITION in the journal.  It is restored exactly as long as
nothing was committed or undone below it since; otherwise the position may
hold other writes by then (`recorder_stale_snapshots`).
-/
import PsyNode.Recorder.Journal

namespace PsyNode.Recorder

open Merkle Lib.WriteLog Lib SymHash
open SimpleMemoryMerkleRecorderStore

/-- The operations of a run. -/
inductive RecorderOp (Hash : Type)
  | setLeaf (index : Nat) (value : Hash)
  | setELeaf (index : Nat) (value : Hash)
  | fastBatchSetLeaves (startIndex : Nat) (values : List Hash)
  | appendLeavesSpiderMan (subTreeHeight : Nat) (leaves : List Hash)
  | updateLeavesSpiderMan (subTreeHeight : Nat) (leafIndices : List Nat) (leaves : List Hash)
  | snapshot
  | revertTo (snapshot : Nat)
  | commitChanges
  | revertChanges

variable {Hash : Type} [MerkleZeroHasher Hash] [DecidableEq Hash]
  (st : RecorderStore Hash)

namespace RecorderOp

/-- The store after an operation, also when the operation returned an error. -/
def apply : RecorderOp Hash → RecorderStore Hash
  | setLeaf index value => (st.setLeaf index value).1
  | setELeaf index value => (st.setELeaf index value).1
  | fastBatchSetLeaves startIndex values => st.fastBatchSetLeaves startIndex values
  | appendLeavesSpiderMan subTreeHeight leaves =>
    match st.appendLeavesSpiderMan subTreeHeight leaves with
    | .ok (st', _) => st'
    | .error _ => st
  | updateLeavesSpiderMan subTreeHeight leafIndices leaves =>
    (st.updateLeavesSpiderMan subTreeHeight leafIndices leaves).2
  | snapshot => st
  | revertTo s => st.revertTo s
  | commitChanges => st.commitChanges
  | revertChanges => st.revertChanges

/-- The arguments of the calls of `set_node_value` that an operation makes, also when it bails
after some of them. -/
def calls : RecorderOp Hash → List (NodeKey × Hash)
  | setLeaf index value =>
    (CallLog.setPath (st.getLeaf index).siblings ⟨st.height, index⟩ value
      ⟨st.getNodeValue, []⟩).calls
  | setELeaf index value =>
    (CallLog.setPath (st.getELeaf index).siblings ⟨st.effectiveHeight, index⟩ value
      ⟨st.getNodeValue, []⟩).calls
  | fastBatchSetLeaves startIndex values =>
    (CallLog.fastBatchSetLeaves st.height ⟨st.getNodeValue, []⟩ startIndex values).calls
  | appendLeavesSpiderMan subTreeHeight leaves =>
    match st.appendLeavesSpiderMan subTreeHeight leaves, st.findNextAppendIndex,
      shl64 subTreeHeight with
    | .ok _, .ok appendIndex, .ok leavesPerSubtree =>
      (CallLog.appendWindows st.height subTreeHeight leavesPerSubtree appendIndex leaves
        ⟨st.getNodeValue, []⟩).calls
    | _, _, _ => []
  | updateLeavesSpiderMan subTreeHeight leafIndices leaves =>
    let sortedUpdates := (leafIndices.zip leaves).insertionSort (fun a b => a.1 ≤ b.1)
    match shl64 subTreeHeight, shl64 st.height, firstDuplicate sortedUpdates with
    | .ok leavesPerSubtree, .ok maxLeaves, none =>
      if leafIndices.length ≠ leaves.length then []
      else (CallLog.updateWindows st.height subTreeHeight leavesPerSubtree maxLeaves
        sortedUpdates.length sortedUpdates ⟨st.getNodeValue, []⟩).calls
    | _, _, _ => []
  | _ => []

/-- What an operation means in the abstract log. -/
def event (op : RecorderOp Hash) : Event NodeKey Hash :=
  match op with
  | revertTo s => .undoTo s
  | revertChanges => .undoTo 0
  | commitChanges => .commit
  | op => .record (op.calls st)

/-- The operations after which the snapshot `s` still stands for the same state. -/
def KeepsSnapshot (s : Nat) : RecorderOp Hash → Prop
  | revertTo s' => s ≤ s'
  | commitChanges => False
  | revertChanges => False
  | _ => True

/-- Every operation but a commit. -/
def NoCommit : RecorderOp Hash → Prop
  | commitChanges => False
  | _ => True

variable {op : RecorderOp Hash}

theorem KeepsSnapshot.event {s : Nat} (h : op.KeepsSnapshot s)
    (st : RecorderStore Hash) : (op.event st).Keeps s := by
  cases op <;> first | exact trivial | exact h | exact h.elim

theorem NoCommit.event (h : op.NoCommit) (st : RecorderStore Hash) : (op.event st).Keeps 0 := by
  cases op <;> first | exact trivial | exact Nat.zero_le _ | exact h.elim

/-- The operations that write. -/
def Writing : RecorderOp Hash → Prop
  | revertTo _ => False
  | commitChanges => False
  | revertChanges => False
  | _ => True

/-- **A WRITING OPERATION IS ITS CALLS OF `set_node_value`.** -/
theorem apply_eq_writeAll (st : RecorderStore Hash) (hop : op.Writing) :
    op.apply st = st.writeAll (op.calls st) := by
  have hstart := Follows.start st
  cases op with
  | setLeaf | setELeaf => exact (hstart.setPath _ _ _).store
  | fastBatchSetLeaves startIndex values => exact (hstart.fastBatchSetLeaves _ _).store
  | appendLeavesSpiderMan k leaves =>
    dsimp only [apply, calls]
    split
    next st' proofs hok =>
      obtain ⟨index, lps, hindex, hlps, hwindows⟩ := appendLeavesSpiderMan_eq_ok hok
      rw [hok, hindex, hlps]
      exact (hstart.appendWindows hwindows).store
    next e herror =>
      rw [herror]
      rfl
  | updateLeavesSpiderMan k leafIndices leaves =>
    dsimp only [apply, calls, SimpleMemoryMerkleRecorderStore.updateLeavesSpiderMan]
    rcases shl64 k with _ | lps
    · split <;> rfl
    rcases shl64 st.height with _ | maxLeaves
    · split <;> rfl
    rcases firstDuplicate ((leafIndices.zip leaves).insertionSort (fun a b => a.1 ≤ b.1)) with
      _ | index
    · dsimp only
      split
      next => rfl
      next => exact (hstart.updateWindows rfl _ _ _ _ _).store
    · split <;> rfl
  | snapshot => rfl
  | revertTo | commitChanges | revertChanges => exact hop.elim

/-- **STEP: one operation keeps the store and the log together.** -/
theorem apply_tracks {st : RecorderStore Hash}
    {log : Log NodeKey Hash} (h : Tracks st log) (op : RecorderOp Hash) :
    Tracks (op.apply st) (log.apply (zeroNode st.height) (op.event st)) := by
  by_cases hop : op.Writing
  · have hcalls := h.writeAll (op.calls st)
    rw [← apply_eq_writeAll st hop] at hcalls
    cases op with
    | revertTo | commitChanges | revertChanges => exact hop.elim
    | _ => exact hcalls
  · cases op with
    | revertTo s => exact h.revertTo s
    | commitChanges => exact h.commitChanges
    | revertChanges => exact h.revertTo 0
    | _ => exact absurd trivial hop

theorem apply_height (st : RecorderStore Hash) (op : RecorderOp Hash) :
    (op.apply st).height = st.height := by
  by_cases hop : op.Writing
  · rw [apply_eq_writeAll st hop]
    exact Writes.height ⟨_, rfl⟩
  · cases op with
    | revertTo | commitChanges | revertChanges => rfl
    | _ => exact absurd trivial hop

end RecorderOp

/-- The store after a run. -/
def run (ops : List (RecorderOp Hash)) : RecorderStore Hash :=
  ops.foldl RecorderOp.apply st

/-- The events of a run. -/
def runEvents (st : RecorderStore Hash) : List (RecorderOp Hash) → List (Event NodeKey Hash)
  | [] => []
  | op :: ops => op.event st :: runEvents (op.apply st) ops

/-- The log of a run that starts from a new store. -/
def runLog (height : Nat) (ops : List (RecorderOp Hash)) : Log NodeKey Hash :=
  Log.empty.applyAll (zeroNode height) (runEvents (new height) ops)

variable (ops : List (RecorderOp Hash))

/-- **RUN: the store and the log stay together.** -/
theorem run_tracks (st : RecorderStore Hash) (log : Log NodeKey Hash) (h : Tracks st log) :
    Tracks (run st ops) (log.applyAll (zeroNode st.height) (runEvents st ops)) := by
  induction ops generalizing st log with
  | nil => exact h
  | cons op ops ih =>
    have hrest := ih _ _ (RecorderOp.apply_tracks h op)
    rw [op.apply_height] at hrest
    exact hrest

/-- If every operation of a run has an event of a certain kind, so has the run. -/
theorem runEvents_all {P : RecorderOp Hash → Prop} {Q : Event NodeKey Hash → Prop}
    (hPQ : ∀ op st, P op → Q (op.event st)) (ops : List (RecorderOp Hash))
    (st : RecorderStore Hash) (hops : ∀ op ∈ ops, P op) : ∀ e ∈ runEvents st ops, Q e := by
  induction ops generalizing st with
  | nil => simp [runEvents]
  | cons op ops ih =>
    intro e he
    rcases List.mem_cons.mp he with rfl | he
    · exact hPQ op st (hops op (by simp))
    · exact ih _ (fun o ho => hops o (by simp [ho])) e he

/-! ## Snapshots, commits and reverts along runs. -/

theorem run_height (st : RecorderStore Hash) : (run st ops).height = st.height := by
  induction ops generalizing st with
  | nil => rfl
  | cons op ops ih => exact (ih _).trans (op.apply_height st)

section
variable {st : RecorderStore Hash} {log : Log NodeKey Hash}

omit [DecidableEq Hash] in
theorem pending_length_eq_snapshot (ht : Tracks st log) : log.pending.length = st.snapshot := by
  rw [← ht.pending, List.length_map]; rfl

section
variable (ht : Tracks st log) (later : List (RecorderOp Hash))
  (hlater : ∀ op ∈ later, op.KeepsSnapshot st.snapshot)
include ht later hlater

theorem keeps_snapshot : ∀ e ∈ runEvents st later, e.Keeps log.pending.length := by
  rw [pending_length_eq_snapshot ht]
  exact runEvents_all (fun op st h => h.event st) later st hlater

/-- After operations that keep the snapshot, reverting to it restores every node. -/
theorem revertTo_snapshot :
    ((run st later).revertTo st.snapshot).getNodeValue = st.getNodeValue := by
  have hrev := (run_tracks later st log ht).revertTo st.snapshot
  have hlog : (log.applyAll (zeroNode st.height) (runEvents st later)).undoTo st.snapshot =
      log := by
    rw [← pending_length_eq_snapshot ht]
    exact log.undoTo_of_keeps _ _ (keeps_snapshot ht later hlater)
  rw [hlog] at hrev
  have hheight : ((run st later).revertTo st.snapshot).height = st.height := run_height later st
  rw [hrev.value, ht.value, hheight]

/-- And before reverting, its values can be read. -/
theorem getNodeValueAt_snapshot : (run st later).getNodeValueAt st.snapshot = st.getNodeValue := by
  rw [(run_tracks later st log ht).getNodeValueAt, ← pending_length_eq_snapshot ht, run_height,
    log.valueAt_of_keeps _ _ (keeps_snapshot ht later hlater), ht.value]

end

/-- From a store with nothing pending, `revert_changes` leads back to it. -/
theorem revertChanges_of_no_commit (ht : Tracks st log) (hclean : st.journal = [])
    (later : List (RecorderOp Hash)) (hlater : ∀ op ∈ later, op.NoCommit) :
    (run st later).revertChanges.getNodeValue = st.getNodeValue := by
  have hpend : log.pending = [] := by rw [← ht.pending, hclean]; rfl
  have hkeep : ∀ e ∈ runEvents st later, e.Keeps 0 :=
    runEvents_all (fun op st h => h.event st) later st hlater
  have hrev : Tracks (run st later).revertChanges _ := (run_tracks later st log ht).revertTo 0
  rw [log.undoTo_zero_of_no_commit _ hpend _ hkeep] at hrev
  have hheight : (run st later).revertChanges.height = st.height := run_height later st
  rw [hrev.value, ht.value, hheight]

end

/-- **THE MEANING OF A RUN.**  From a new store, after any operations:

  * a node's value is the last write to it that was not undone, else the zero
    hash of its level;
  * a snapshot taken now can be read and restored after any further operations
    that neither commit nor revert below it;
  * a commit changes no value;
  * `revert_changes` restores the values of the last commit, or of the new
    store if there was none. -/
theorem recorder_run_is_undo_log (height : Nat) (ops : List (RecorderOp Hash)) :
    let st := run (new height) ops
    (∀ key, st.getNodeValue key = (runLog height ops).value (zeroNode height) key) ∧
    (∀ later : List (RecorderOp Hash), (∀ op ∈ later, op.KeepsSnapshot st.snapshot) →
      (∀ key, ((run st later).revertTo st.snapshot).getNodeValue key = st.getNodeValue key) ∧
      (∀ key, (run st later).getNodeValueAt st.snapshot key = st.getNodeValue key) ∧
      (∀ index, (run st later).getLeafAt st.snapshot index = st.getLeaf index)) ∧
    (∀ key, st.commitChanges.getNodeValue key = st.getNodeValue key) ∧
    (∀ later : List (RecorderOp Hash), (∀ op ∈ later, op.NoCommit) → ∀ key,
      (run st.commitChanges later).revertChanges.getNodeValue key =
        st.commitChanges.getNodeValue key) ∧
    ((∀ op ∈ ops, op.NoCommit) → ∀ key,
      st.revertChanges.getNodeValue key = zeroNode height key) := by
  intro st
  have ht : Tracks st (runLog height ops) := run_tracks ops _ _ (tracks_new height)
  have hheight : st.height = height := run_height ops (new height)
  refine ⟨?_, ?_, ?_, ?_, ?_⟩
  · intro key
    rw [ht.value, hheight]
  · intro later hlater
    have hat := getNodeValueAt_snapshot ht later hlater
    refine ⟨fun key => congrFun (revertTo_snapshot ht later hlater) key,
      fun key => congrFun hat key, fun index => ?_⟩
    unfold getLeafAt getLeaf
    rw [hat, run_height]
  · intro key
    rw [ht.commitChanges.value, Log.value_commit, ht.value]
    rfl
  · intro later hlater key
    exact congrFun (revertChanges_of_no_commit ht.commitChanges rfl later hlater) key
  · intro hops key
    exact congrFun (revertChanges_of_no_commit (tracks_new height) rfl ops hops) key

/-- On a tree of height 1: write leaf 0, snapshot, write leaf 1, revert to the
snapshot; the new store is the last commit. -/
theorem recorder_run_is_undo_log_height_one :
    ((run (run (new 1) [.setLeaf 0 (.leaf 7)]) [.setLeaf 1 (.leaf 8)]).revertTo 2).getNodeValue
        ⟨1, 0⟩ = leaf 7 ∧
      (run (new 1) [.setLeaf 0 (leaf 7)]).revertChanges.getNodeValue ⟨1, 0⟩ =
        zero := by
  have h := recorder_run_is_undo_log 1 [.setLeaf 0 (leaf 7)]
  refine ⟨?_, ?_⟩
  · exact (h.2.1 [.setLeaf 1 (.leaf 8)] (by simp [RecorderOp.KeepsSnapshot])).1 ⟨1, 0⟩
  · exact h.2.2.2.2 (by simp [RecorderOp.NoCommit]) ⟨1, 0⟩

/-- **STALE SNAPSHOTS.**  Snapshot 2 is taken after leaf 0 was written.  Reverting
to snapshot 0 and writing leaf 1 fills the journal up to position 2 again, so
reverting to 2 changes nothing.  And snapshot 0 of the new store no longer reads
as zero once the write of leaf 0 is committed. -/
theorem recorder_stale_snapshots :
    (run (new 1) [.setLeaf 0 (leaf 7)]).snapshot = 2 ∧
    (run (new 1) [.setLeaf 0 (leaf 7)]).getNodeValue ⟨1, 0⟩ = .leaf 7 ∧
    (run (new 1) [.setLeaf 0 (leaf 7), .snapshot, .revertTo 0, .setLeaf 1 (.leaf 8),
      .revertTo 2]).getNodeValue ⟨1, 0⟩ = .zero ∧
    (new 1 : SimpleMemoryMerkleRecorderStore SymHash).snapshot = 0 ∧
    (new 1 : SimpleMemoryMerkleRecorderStore SymHash).getNodeValue ⟨1, 0⟩ = .zero ∧
    (run (new 1) [.snapshot, .setLeaf 0 (leaf 7), .commitChanges]).getNodeValueAt 0
      ⟨1, 0⟩ = .leaf 7 := by
  decide

end PsyNode.Recorder
