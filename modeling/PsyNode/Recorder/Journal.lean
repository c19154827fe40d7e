/-
PsyNode.Recorder.Journal
**THE JOURNAL IS AN UNDO LOG.**

The recorder store is related to the abstract write log: the journal is the
pending part, the committed map the permanent part, and the change map always
shows the values of the whole log.  Three facts carry everything:

  * every writing operation is a sequence of `set_node_value` calls, whose arguments the same
    operation on a `CallLog` lists; the abstract log RECORDS them;
  * `commit_changes` is the log's commit;
  * `revert_to` is the log's `undoTo` — the change map it leaves behind shows
    exactly the values of the shortened log.

`Tracks` is the relation, `RecorderOp.apply_tracks` the step lemma over all
operations, `run_tracks` the run lemma.
-/
import PsyNode.Lib.ExceptBind
import PsyNode.Lib.WriteLog
import PsyNode.Recorder.Store

namespace PsyNode.Recorder

open Merkle Lib.WriteLog Lib List Function JournalEntry

variable {Hash : Type} [MerkleZeroHasher Hash]

/-- The write that a journal entry stands for. -/
def JournalEntry.write (e : JournalEntry Hash) : NodeKey × Hash := (e.key, e.newValue)

namespace SimpleMemoryMerkleRecorderStore

/-! ## §1. The relation to the abstract log. -/

/-- The value of a node that nothing was ever written to. -/
def zeroNode (height : Nat) (key : NodeKey) : Hash := getZeroHash (height - key.level)

/-- The values a store shows through a change map. -/
def shown (st : RecorderStore Hash) (updated : NodeKey → Option Hash) (key : NodeKey) : Hash :=
  (updated key).getD (st.getLastCommitNode key)

theorem getNodeValue_eq_shown (st : RecorderStore Hash) :
    st.getNodeValue = st.shown st.updatedNodes := by
  funext key
  cases st.updatedNodes key <;> rfl

/-- The loop of `commit_changes` replays the journal on the committed values. -/
theorem getLastCommitNode_foldl (st : RecorderStore Hash)
    (es : List (JournalEntry Hash)) (nodes : NodeKey → Option Hash) : getLastCommitNode { st with
      nodes := es.foldl (fun nodes e => update nodes e.key (some e.newValue)) nodes } =
      replay (getLastCommitNode { st with nodes := nodes })
        (es.map write) := by
  induction es generalizing nodes with
  | nil => rfl
  | cons e es ih =>
    rw [foldl_cons, ih, map_cons, replay, replay, foldl_cons]
    congr 1
    funext k
    unfold getLastCommitNode
    by_cases hk : k = e.key
    · subst hk; simp [write]
    · simp [write, update_of_ne hk]

variable {st st' : RecorderStore Hash}

/-- The store and the log agree: the journal is the pending part, the committed
values are those of the permanent part, the values shown are those of the
whole log, and each journal entry remembers the value it replaced. -/
structure Tracks (st : RecorderStore Hash) (log : Log NodeKey Hash) : Prop where
  pending : st.journal.map write = log.pending
  committed : st.getLastCommitNode = replay (zeroNode st.height) log.permanent
  value : st.getNodeValue = log.value (zeroNode st.height)
  chained : ∀ pre e suf, st.journal = pre ++ e :: suf →
    e.oldValue = replay st.getLastCommitNode (pre.map write) e.key

theorem tracks_new (height : Nat) : Tracks (new height : RecorderStore Hash) Log.empty where
  pending := rfl
  committed := rfl
  value := rfl
  chained := by
    intro pre e suf h
    exact absurd h (by simp [new])

variable {log : Log NodeKey Hash}

/-- The shown values are those of the journal replayed on the committed ones. -/
theorem Tracks.value_replay (h : Tracks st log) :
    st.getNodeValue = replay st.getLastCommitNode (st.journal.map write) := by
  rw [h.value, h.committed, h.pending, Log.value_eq_replay, replay_append]

/-- **STEP: commit.** -/
theorem Tracks.commitChanges (h : Tracks st log) : Tracks st.commitChanges log.commit := by
  have hlast : st.commitChanges.getLastCommitNode = st.getNodeValue := by
    rw [h.value_replay]
    exact getLastCommitNode_foldl st st.journal st.nodes
  have hvalue : st.commitChanges.getNodeValue = st.commitChanges.getLastCommitNode := by
    rw [getNodeValue_eq_shown]; rfl
  constructor
  · rfl
  · rw [hlast, h.value, Log.value_eq_replay]; rfl
  · rw [hvalue, hlast, Log.value_commit]; exact h.value
  · intro pre e suf hsplit
    exact absurd hsplit (by simp [SimpleMemoryMerkleRecorderStore.commitChanges])

/-- Reading at a snapshot reads the log at that position. -/
theorem Tracks.getNodeValueAt (h : Tracks st log) (s : Nat) :
    st.getNodeValueAt s = log.valueAt (zeroNode st.height) s := by
  funext key
  have hread : st.getNodeValueAt s key =
      replay st.getLastCommitNode
        ((st.journal.take (min s st.journal.length)).map write) key := by
    rw [replay_eq_last]
    unfold SimpleMemoryMerkleRecorderStore.getNodeValueAt replayNodeAt lastWrite
    rw [← map_reverse, find?_map]
    have hpred : ((fun w : NodeKey × Hash => decide (w.1 = key)) ∘
        write) = fun e => decide (e.key = key) := rfl
    rw [hpred]
    cases find? (fun e : JournalEntry Hash => decide (e.key = key))
      (st.journal.take (min s st.journal.length)).reverse <;> rfl
  rw [hread, Log.valueAt_eq_replay, replay_append, ← h.committed, ← take_eq_take_min, map_take,
    h.pending]

variable [DecidableEq Hash]

/-! ## §2. What the primitives do to the node values. -/

section
variable (st : RecorderStore Hash)

section
variable (key : NodeKey) (value : Hash)

@[simp] theorem setNodeValue_height : (st.setNodeValue key value).height = st.height := by
  unfold setNodeValue; dsimp only; split <;> rfl

@[simp] theorem setNodeValue_effectiveHeight :
    (st.setNodeValue key value).effectiveHeight = st.effectiveHeight := by
  unfold setNodeValue; dsimp only; split <;> rfl

@[simp] theorem getLastCommitNode_setNodeValue :
    (st.setNodeValue key value).getLastCommitNode = st.getLastCommitNode := by
  unfold setNodeValue; dsimp only; split <;> rfl

/-- **A WRITE** changes the value of its key and nothing else. -/
theorem getNodeValue_setNodeValue :
    (st.setNodeValue key value).getNodeValue = update st.getNodeValue key value := by
  by_cases hsame : st.getNodeValue key = value
  · have hst : st.setNodeValue key value = st := by simp [setNodeValue, hsame]
    rw [hst, ← hsame, update_eq_self]
  · have hst : (st.setNodeValue key value).updatedNodes =
        update st.updatedNodes key (some value) := by simp [setNodeValue, hsame]
    funext k
    rw [getNodeValue_eq_shown, getNodeValue_eq_shown]
    unfold shown
    rw [hst, getLastCommitNode_setNodeValue]
    by_cases hk : k = key
    · subst hk; simp
    · simp [update_of_ne hk]

end

end

/-! ## §3. The calls of `set_node_value`. -/

/-- The store after calls of `set_node_value`, given by their arguments. -/
def writeAll (st : RecorderStore Hash) (calls : List (NodeKey × Hash)) : RecorderStore Hash :=
  calls.foldl (fun st call => st.setNodeValue call.1 call.2) st

/-- `st'` is reached from `st` by calls of `set_node_value`. -/
def Writes (st st' : RecorderStore Hash) : Prop := ∃ calls, st' = st.writeAll calls

theorem Writes.refl (st : RecorderStore Hash) : Writes st st := ⟨[], rfl⟩

theorem Writes.trans {st st' st'' : RecorderStore Hash} (h : Writes st st')
    (h' : Writes st' st'') : Writes st st'' := by
  obtain ⟨calls, rfl⟩ := h
  obtain ⟨calls', rfl⟩ := h'
  exact ⟨calls ++ calls', foldl_append.symm⟩

theorem Writes.head {key : NodeKey} {value : Hash}
    (h : Writes (st.setNodeValue key value) st') : Writes st st' := by
  obtain ⟨calls, rfl⟩ := h
  exact ⟨(key, value) :: calls, rfl⟩

/-- What every write keeps, a sequence of writes keeps. -/
theorem Writes.keeps {α : Type} {f : RecorderStore Hash → α}
    (hf : ∀ st key value, f (setNodeValue st key value) = f st) (h : Writes st st') :
    f st' = f st := by
  obtain ⟨calls, rfl⟩ := h
  induction calls generalizing st with
  | nil => rfl
  | cons call calls ih =>
    refine Eq.trans ?_ (hf st call.1 call.2)
    exact ih

theorem Writes.height (h : Writes st st') : st'.height = st.height :=
  h.keeps setNodeValue_height

theorem Writes.effectiveHeight (h : Writes st st') : st'.effectiveHeight = st.effectiveHeight :=
  h.keeps setNodeValue_effectiveHeight

end SimpleMemoryMerkleRecorderStore

/-- Node values, and the arguments of the calls of `set_node_value` that led to them: a store
without change map and journal.  The functions below are those of the store, on a call log. -/
structure CallLog (Hash : Type) where
  read : NodeKey → Hash
  calls : List (NodeKey × Hash)

namespace CallLog

def set (log : CallLog Hash) (key : NodeKey) (value : Hash) : CallLog Hash :=
  ⟨update log.read key value, log.calls ++ [(key, value)]⟩

def setPath : List Hash → NodeKey → Hash → CallLog Hash → CallLog Hash
  | [], currentKey, currentValue, log => log.set currentKey currentValue
  | sibling :: siblings, currentKey, currentValue, log =>
    setPath siblings currentKey.parent
      (if currentKey.index &&& 1 = 0 then twoToOne currentValue sibling
        else twoToOne sibling currentValue)
      (log.set currentKey currentValue)

def setRun (level : Nat) : Nat → List Hash → CallLog Hash → CallLog Hash
  | _, [], log => log
  | start, v :: vs, log => setRun level (start + 1) vs (log.set ⟨level, start⟩ v)

/-- `rehash_from_node_to_level`, `n` levels up. -/
def rehashFrom : Nat → NodeKey → Hash → CallLog Hash → CallLog Hash
  | 0, _, _, log => log
  | n + 1, current, currentValue, log =>
    let siblingValue := log.read current.sibling
    let parentValue :=
      if current.index &&& 1 = 1 then twoToOne siblingValue currentValue
      else twoToOne currentValue siblingValue
    rehashFrom n current.parent parentValue (log.set current.parent parentValue)

def hashPairs (level base : Nat) : Nat → Nat → List Hash → CallLog Hash → CallLog Hash × List Hash
  | 0, _, childValues, log => (log, childValues)
  | n + 1, i, childValues, log =>
    let leftKey : NodeKey := ⟨level, i * 2 + base⟩
    let v := twoToOne (log.read leftKey) (log.read leftKey.sibling)
    hashPairs level base n (i + 1) (childValues ++ [v]) (log.set leftKey.parent v)

def foldWindow : Nat → NodeKey → List Hash → CallLog Hash → CallLog Hash × NodeKey × List Hash
  | 0, childBaseKey, childValues, log => (log, childBaseKey, childValues)
  | n + 1, childBaseKey, childValues, log =>
    let parentValues := Lib.Merkle.pairUp twoToOne childValues
    foldWindow n childBaseKey.parent parentValues
      (log.setRun (childBaseKey.level - 1) (childBaseKey.index >>> 1) parentValues)

def rehashSubTree (height : Nat) (log : CallLog Hash) : Nat → Nat → CallLog Hash
  | 0, _ => log
  | 1, i =>
    let leftKey : NodeKey := ⟨height, i * 2⟩
    let v := twoToOne (log.read leftKey) (log.read leftKey.sibling)
    let log := log.set leftKey.parent v
    log.rehashFrom leftKey.parent.level leftKey.parent (log.read leftKey.parent)
  | k + 2, i =>
    let base := log.hashPairs height (i * (1 <<< (k + 2))) (1 <<< (k + 1)) 0 []
    let top := base.1.foldWindow (k + 1)
      (SimpleMerkleNodeKey.parent ⟨height, i * (1 <<< (k + 2))⟩) base.2
    top.1.rehashFrom top.2.1.level top.2.1 (top.1.read top.2.1)

def rehashParents (parentLevel : Nat) : Nat → Nat → CallLog Hash → CallLog Hash
  | 0, _, log => log
  | n + 1, parentIndex, log =>
    let leftVal := log.read ⟨parentLevel + 1, parentIndex <<< 1⟩
    let rightVal := log.read ⟨parentLevel + 1, (parentIndex <<< 1) + 1⟩
    rehashParents parentLevel n (parentIndex + 1)
      (log.set ⟨parentLevel, parentIndex⟩ (twoToOne leftVal rightVal))

/-- `rehash_range` on a range that is not empty. -/
def rehashRange : Nat → Nat → Nat → CallLog Hash → CallLog Hash
  | 0, _, _, log => log
  | parentLevel + 1, start, stop, log =>
    let parentStart := start >>> 1
    let parentEnd := ((stop - 1) >>> 1) + 1
    rehashRange parentLevel parentStart parentEnd
      (rehashParents parentLevel (parentEnd - parentStart) parentStart log)

def fastBatchSetLeaves (height : Nat) (log : CallLog Hash) (startIndex : Nat)
    (values : List Hash) : CallLog Hash :=
  if values = [] then log
  else (log.setRun height startIndex values).rehashRange height startIndex
    (startIndex + values.length)

/-- One window of `append_leaves_spider_man_at_index`. -/
def appendWindow (height subTreeHeight subTreeId firstIndex : Nat) (written : List Hash)
    (log : CallLog Hash) : CallLog Hash :=
  (log.setRun height firstIndex written).rehashSubTree height subTreeHeight subTreeId

def appendMiddle (height subTreeHeight leavesPerSubtree curSubTreeId : Nat) :
    Nat → Nat → List Hash → CallLog Hash → CallLog Hash
  | 0, _, _, log => log
  | n + 1, t, leaves, log =>
    appendMiddle height subTreeHeight leavesPerSubtree curSubTreeId n (t + 1)
      (leaves.drop leavesPerSubtree) (log.appendWindow height subTreeHeight (1 + curSubTreeId + t)
        ((curSubTreeId + t + 1) * leavesPerSubtree) (leaves.take leavesPerSubtree))

def appendWindows (height subTreeHeight leavesPerSubtree appendIndex : Nat) (leaves : List Hash)
    (log : CallLog Hash) : CallLog Hash :=
  let curSubTreeId := appendIndex / leavesPerSubtree
  let curSubTreeLeafIndex := appendIndex &&& (leavesPerSubtree - 1)
  let subtreeCount :=
    SimpleMemoryMerkleRecorderStore.ceilDivUsize (appendIndex + leaves.length) leavesPerSubtree -
      curSubTreeId
  if subtreeCount = 0 then log
  else
    let leavesUsed := leavesPerSubtree - curSubTreeLeafIndex
    let log := log.appendWindow height subTreeHeight curSubTreeId
      (curSubTreeId * leavesPerSubtree + curSubTreeLeafIndex) (leaves.take leavesUsed)
    let log := log.appendMiddle height subTreeHeight leavesPerSubtree curSubTreeId
      (subtreeCount - 2) 0 (leaves.drop leavesUsed)
    if subtreeCount > 1 then
      log.appendWindow height subTreeHeight (curSubTreeId + (subtreeCount - 1))
        ((curSubTreeId + subtreeCount - 1) * leavesPerSubtree)
        (leaves.drop (leavesUsed + (subtreeCount - 2) * leavesPerSubtree))
    else log

/-- The inner loop of `update_leaves_spider_man`, with the updates that are left, or none if
it bails. -/
def writeUpdates (height leavesPerSubtree maxLeaves subTreeId : Nat) :
    List (Nat × Hash) → CallLog Hash → Option (List (Nat × Hash)) × CallLog Hash
  | [], log => (some [], log)
  | (index, value) :: rest, log =>
    if index / leavesPerSubtree = subTreeId then
      if index ≥ maxLeaves then (none, log)
      else writeUpdates height leavesPerSubtree maxLeaves subTreeId rest
        (log.set ⟨height, index⟩ value)
    else (some ((index, value) :: rest), log)

def updateWindows (height subTreeHeight leavesPerSubtree maxLeaves : Nat) :
    Nat → List (Nat × Hash) → CallLog Hash → CallLog Hash
  | 0, _, log => log
  | _ + 1, [], log => log
  | fuel + 1, update :: updates, log =>
    let subTreeId := update.1 / leavesPerSubtree
    let written := log.writeUpdates height leavesPerSubtree maxLeaves subTreeId (update :: updates)
    match written.1 with
    | none => written.2
    | some rest =>
      if height < subTreeHeight then written.2
      else updateWindows height subTreeHeight leavesPerSubtree maxLeaves fuel rest
        (written.2.rehashSubTree height subTreeHeight subTreeId)

end CallLog

namespace SimpleMemoryMerkleRecorderStore

variable [DecidableEq Hash] {st st' : RecorderStore Hash} {log : Log NodeKey Hash}

/-- The store is what the calls of the log make of `st₀`, and shows the values of the log. -/
structure Follows (st₀ st : RecorderStore Hash) (log : CallLog Hash) : Prop where
  store : st = st₀.writeAll log.calls
  read : st.getNodeValue = log.read

namespace Follows

theorem start (st : RecorderStore Hash) : Follows st st ⟨st.getNodeValue, []⟩ := ⟨rfl, rfl⟩

variable {st₀ st st' : RecorderStore Hash} {log : CallLog Hash}

variable (h : Follows st₀ st log)
include h

theorem writes : Writes st₀ st := ⟨log.calls, h.store⟩

theorem set (key : NodeKey) (value : Hash) :
    Follows st₀ (st.setNodeValue key value) (log.set key value) where
  store := by
    rw [h.store, CallLog.set, writeAll, writeAll, foldl_append]
    rfl
  read := by
    rw [getNodeValue_setNodeValue, h.read]
    rfl

theorem setPath (siblings : List Hash) (key : NodeKey)
    (value : Hash) : Follows st₀ (setPath siblings key value st).1
      (log.setPath siblings key value) := by
  induction siblings generalizing key value st log with
  | nil => exact h.set key value
  | cons sibling siblings ih => exact ih (h.set key value) _ _

theorem setRun (level start : Nat) (values : List Hash) :
    Follows st₀ (st.setRun level start values) (log.setRun level start values) := by
  induction values generalizing start st log with
  | nil => exact h
  | cons v vs ih => exact ih (h.set _ v) _

theorem rehashFrom (node : NodeKey) :
    Follows st₀ (st.rehashFromNodeToLevel node 0)
      (log.rehashFrom node.level node (log.read node)) := by
  have key (n : Nat) (current : NodeKey) (v : Hash) {st : RecorderStore Hash}
      {log : CallLog Hash} (h : Follows st₀ st log) :
      Follows st₀ (rehashFromNodeToLevel.go n current v st) (log.rehashFrom n current v) := by
    induction n generalizing current v st log with
    | zero => exact h
    | succ n ih =>
      rw [rehashFromNodeToLevel.go, h.read]
      exact ih _ _ (h.set _ _)
  rw [rehashFromNodeToLevel, h.read]
  exact key _ _ _ h

theorem hashPairs (level base n i : Nat) (vs : List Hash) :
    Follows st₀ (hashPairs level base n i vs st).1 (log.hashPairs level base n i vs).1 ∧
      (SimpleMemoryMerkleRecorderStore.hashPairs level base n i vs st).2 =
        (log.hashPairs level base n i vs).2 := by
  induction n generalizing i vs st log with
  | zero => exact ⟨h, rfl⟩
  | succ n ih =>
    rw [SimpleMemoryMerkleRecorderStore.hashPairs, h.read]
    exact ih (h.set _ _) _ _

theorem foldWindow (n : Nat) (key : NodeKey)
    (vs : List Hash) : Follows st₀ (foldWindow n key vs st).1 (log.foldWindow n key vs).1 ∧
      (SimpleMemoryMerkleRecorderStore.foldWindow n key vs st).2 = (log.foldWindow n key vs).2 := by
  induction n generalizing key vs st log with
  | zero => exact ⟨h, rfl⟩
  | succ n ih => exact ih (h.setRun _ _ _) _ _

theorem rehashSubTree (k i : Nat) :
    Follows st₀ (st.rehashSubTree k i) (log.rehashSubTree st.height k i) := by
  rcases k with _ | _ | k
  · exact h
  · rw [SimpleMemoryMerkleRecorderStore.rehashSubTree, h.read]
    exact (h.set _ _).rehashFrom _
  · rw [rehashSubTree_add_two]
    obtain ⟨hbase, hvalues⟩ := h.hashPairs st.height (i * (1 <<< (k + 2))) (1 <<< (k + 1)) 0 []
    obtain ⟨htop, hkey⟩ := hbase.foldWindow (k + 1)
      (SimpleMerkleNodeKey.parent ⟨st.height, i * (1 <<< (k + 2))⟩)
      (log.hashPairs st.height (i * (1 <<< (k + 2))) (1 <<< (k + 1)) 0 []).2
    dsimp only
    rw [hvalues, hkey]
    exact htop.rehashFrom _

theorem rehashParents (level n i : Nat) :
    Follows st₀ (rehashParents level n i st) (log.rehashParents level n i) := by
  induction n generalizing i st log with
  | zero => exact h
  | succ n ih =>
    rw [SimpleMemoryMerkleRecorderStore.rehashParents, h.read]
    exact ih (h.set _ _) _

theorem fastBatchSetLeaves (start : Nat) (values : List Hash) :
    Follows st₀ (st.fastBatchSetLeaves start values)
      (log.fastBatchSetLeaves st.height start values) := by
  have key (l start stop : Nat) {st : RecorderStore Hash} {log : CallLog Hash}
      (h : Follows st₀ st log) :
      Follows st₀ (rehashRange.go l start stop st) (log.rehashRange l start stop) := by
    induction l generalizing start stop st log with
    | zero => exact h
    | succ l ih => exact ih _ _ (h.rehashParents _ _ _)
  rw [SimpleMemoryMerkleRecorderStore.fastBatchSetLeaves, rehashRange,
    CallLog.fastBatchSetLeaves]
  rcases values with _ | ⟨v, vs⟩
  · rw [if_pos (by simp), if_pos rfl]
    exact h
  · rw [if_neg (by simp), if_neg (by simp)]
    exact key _ _ _ (h.setRun _ _ _)

theorem rehashSubTreeDmp {k i : Nat} {dmp : DeltaMerkleProofCore Hash}
    (hdmp : st.rehashSubTreeDmp k i = .ok (st', dmp)) :
    Follows st₀ st' (log.rehashSubTree st.height k i) := by
  unfold SimpleMemoryMerkleRecorderStore.rehashSubTreeDmp at hdmp
  obtain ⟨_, hdmp⟩ := ite_error_eq_ok.mp hdmp
  cases hdmp
  exact h.rehashSubTree k i

theorem appendWindow {k id first height : Nat} {written old new : List Hash}
    {proof : SpidermanUpdateProof Hash} (hheight : st.height = height)
    (hwindow : st.appendWindow k id first written old new = .ok (st', proof)) :
    Follows st₀ st' (log.appendWindow height k id first written) := by
  obtain ⟨⟨st₁, dmp⟩, hdmp, hwindow⟩ := bind_eq_ok.mp hwindow
  obtain ⟨rfl, _⟩ := Prod.mk.inj (pure_eq_ok.mp hwindow)
  have hrun := h.setRun st.height first written
  have hdone := hrun.rehashSubTreeDmp hdmp
  rw [hrun.writes.height, ← h.writes.height, hheight] at hdone
  exact hdone

theorem appendMiddle {k lps id height n t : Nat} {leaves : List Hash}
    {proofs : List (SpidermanUpdateProof Hash)}
    (hheight : st.height = height)
    (hmiddle : appendMiddle k lps id n t leaves st = .ok (st', proofs)) :
    Follows st₀ st' (log.appendMiddle height k lps id n t leaves) := by
  induction n generalizing t leaves st proofs log with
  | zero =>
    cases hmiddle
    exact h
  | succ n ih =>
    obtain ⟨⟨st₁, proof⟩, hwindow, hmiddle⟩ := bind_eq_ok.mp hmiddle
    obtain ⟨⟨st₂, rest⟩, hrest, hmiddle⟩ := bind_eq_ok.mp hmiddle
    obtain ⟨rfl, _⟩ := Prod.mk.inj (pure_eq_ok.mp hmiddle)
    have hnext := h.appendWindow hheight hwindow
    exact ih hnext (hnext.writes.height.trans (h.writes.height.symm.trans hheight)) hrest

theorem appendWindows {k lps index : Nat} {leaves : List Hash}
    {proofs : List (SpidermanUpdateProof Hash)}
    (hwindows : st.appendWindows k lps index leaves = .ok (st', proofs)) :
    Follows st₀ st' (log.appendWindows st.height k lps index leaves) := by
  unfold SimpleMemoryMerkleRecorderStore.appendWindows at hwindows
  unfold CallLog.appendWindows
  dsimp only at hwindows ⊢
  split at hwindows
  next hnone =>
    cases hwindows
    rw [if_pos hnone]
    exact h
  next hsome =>
    obtain ⟨⟨st₁, first⟩, hfirst, hwindows⟩ := bind_eq_ok.mp hwindows
    obtain ⟨⟨st₂, middle⟩, hmiddle, hwindows⟩ := bind_eq_ok.mp hwindows
    have hheight {st' : RecorderStore Hash} {log' : CallLog Hash} (h' : Follows st₀ st' log') :
        st'.height = st.height := h'.writes.height.trans h.writes.height.symm
    have hlog₁ := h.appendWindow rfl hfirst
    have hlog₂ := hlog₁.appendMiddle (hheight hlog₁) hmiddle
    rw [if_neg hsome]
    split at hwindows
    next hlarge =>
      obtain ⟨⟨st₃, last⟩, hlast, hwindows⟩ := bind_eq_ok.mp hwindows
      obtain ⟨rfl, _⟩ := Prod.mk.inj (pure_eq_ok.mp hwindows)
      rw [if_pos hlarge]
      exact hlog₂.appendWindow (hheight hlog₂) hlast
    next hsmall =>
      obtain ⟨rfl, _⟩ := Prod.mk.inj (pure_eq_ok.mp hwindows)
      rw [if_neg hsmall]
      exact hlog₂

theorem writeUpdates {height : Nat} (hheight : st.height = height)
    (lps maxLeaves id : Nat) (updates : List (Nat × Hash)) (newLeaves : List Hash) :
    Follows st₀ (writeUpdates lps maxLeaves id updates newLeaves st).2
        (log.writeUpdates height lps maxLeaves id updates).2 ∧
      (log.writeUpdates height lps maxLeaves id updates).1 =
        (writeUpdates lps maxLeaves id updates newLeaves st).1.toOption.map Prod.fst := by
  induction updates generalizing newLeaves st log with
  | nil => exact ⟨h, rfl⟩
  | cons update updates ih =>
    unfold SimpleMemoryMerkleRecorderStore.writeUpdates CallLog.writeUpdates
    rw [hheight]
    split
    next =>
      split
      next => exact ⟨h, rfl⟩
      next => exact ih (h.set _ _) ((setNodeValue_height _ _ _).trans hheight) _
    next => exact ⟨h, rfl⟩

theorem updateWindows {height : Nat} (hheight : st.height = height)
    (k lps maxLeaves fuel : Nat) (updates : List (Nat × Hash)) :
    Follows st₀ (updateWindows k lps maxLeaves fuel updates st).2
      (log.updateWindows height k lps maxLeaves fuel updates) := by
  induction fuel generalizing updates st log with
  | zero => exact h
  | succ fuel ih =>
    rcases updates with _ | ⟨update, updates⟩
    · exact h
    obtain ⟨hwritten, hrest⟩ := h.writeUpdates hheight lps maxLeaves (update.1 / lps)
      (update :: updates) ((range' (update.1 / lps * lps) lps).map st.getLeafValue)
    unfold SimpleMemoryMerkleRecorderStore.updateWindows CallLog.updateWindows
    dsimp only
    rw [hrest]
    -- follow the code: writes of the window, its rehash, the later windows
    split
    next e st₁ hst =>
      rw [hst] at hwritten ⊢
      exact hwritten
    next rest newLeaves st₁ hst =>
      rw [hst] at hwritten ⊢
      have hheight₁ := hwritten.writes.height.trans (h.writes.height.symm.trans hheight)
      show Follows st₀ _ (if height < k then _ else _)
      rw [SimpleMemoryMerkleRecorderStore.rehashSubTreeDmp, hheight₁]
      split
      next e herror =>
        rw [if_pos (by by_contra hk; rw [if_neg hk] at herror; cases herror)]
        exact hwritten
      next st₂ dmp hok =>
        obtain ⟨hk, hok⟩ := ite_error_eq_ok.mp hok
        cases hok
        have hnext := hwritten.rehashSubTree k (update.1 / lps)
        rw [hheight₁] at hnext
        have hlater :=
          ih hnext (hnext.writes.height.trans (h.writes.height.symm.trans hheight)) rest
        rw [if_neg hk]
        split
        next e st₃ hlast => rw [hlast] at hlater; exact hlater
        next results st₃ hlast => rw [hlast] at hlater; exact hlater

end Follows

section
variable (st : RecorderStore Hash)

theorem writes_setPath (siblings : List Hash) (key : NodeKey) (value : Hash) :
    Writes st (setPath siblings key value st).1 :=
  ((Follows.start st).setPath siblings key value).writes

theorem writes_setRun (level start : Nat) (values : List Hash) :
    Writes st (st.setRun level start values) :=
  ((Follows.start st).setRun level start values).writes

theorem writes_rehashFromNode (node : NodeKey) : Writes st (st.rehashFromNodeToLevel node 0) :=
  ((Follows.start st).rehashFrom node).writes

theorem writes_rehashSubTree (k i : Nat) : Writes st (st.rehashSubTree k i) :=
  ((Follows.start st).rehashSubTree k i).writes

end

theorem writes_rehashSubTreeDmp {k i : Nat} {dmp : DeltaMerkleProofCore Hash}
    (h : st.rehashSubTreeDmp k i = .ok (st', dmp)) : Writes st st' :=
  ((Follows.start st).rehashSubTreeDmp h).writes

/-- The windows of `append_leaves_spider_man`, when it succeeds. -/
theorem appendLeavesSpiderMan_eq_ok {k : Nat} {leaves : List Hash}
    {proofs : List (SpidermanUpdateProof Hash)}
    (h : st.appendLeavesSpiderMan k leaves = .ok (st', proofs)) :
    ∃ index lps, st.findNextAppendIndex = .ok index ∧ shl64 k = .ok lps ∧
      st.appendWindows k lps index leaves = .ok (st', proofs) := by
  obtain ⟨index, hindex, h⟩ := bind_eq_ok.mp h
  obtain ⟨lps, hlps, h⟩ := bind_eq_ok.mp h
  obtain ⟨_, _, h⟩ := bind_eq_ok.mp h
  exact ⟨index, lps, hindex, hlps, (ite_error_eq_ok.mp h).2⟩

/-! ## §4. Undoing. -/

/-- Undoing an entry shows its old value again. -/
theorem shown_undoEntry (st : RecorderStore Hash)
    (updated : NodeKey → Option Hash) (e : JournalEntry Hash) :
    st.shown (st.undoEntry updated e) = update (st.shown updated) e.key e.oldValue := by
  funext k
  unfold undoEntry shown
  by_cases hk : k = e.key
  · subst hk
    split
    next h => simp [getLastCommitNode, h]
    next h => simp
  · split <;> simp [update_of_ne hk]

/-- Dropping the changes that agree with the committed map shows the same. -/
theorem shown_retain (st : RecorderStore Hash) (updated : NodeKey → Option Hash) :
    st.shown (fun key =>
      match updated key with
      | some value => if st.nodes key = some value then none else some value
      | none => none) = st.shown updated := by
  funext k
  unfold shown getLastCommitNode
  cases hu : updated k with
  | none => simp [hu]
  | some v =>
    by_cases hsame : st.nodes k = some v
    · simp [hu, hsame]
    · simp [hu, hsame]

/-! ## §5. Writes and reverts in the log. -/

/-- **STEP: a write** records itself, or nothing when it changes nothing. -/
theorem Tracks.setNodeValue (h : Tracks st log) (key : NodeKey) (value : Hash) :
    Tracks (st.setNodeValue key value) (log.write (zeroNode st.height) (key, value)) := by
  rw [Log.write, ← h.value]
  by_cases hsame : st.getNodeValue key = value
  · have hst : st.setNodeValue key value = st := by
      simp [SimpleMemoryMerkleRecorderStore.setNodeValue, hsame]
    rw [if_pos hsame, hst]
    exact h
  · have hj : (st.setNodeValue key value).journal =
        st.journal ++ [⟨key, st.getNodeValue key, value⟩] := by
      simp [SimpleMemoryMerkleRecorderStore.setNodeValue, hsame]
    rw [if_neg hsame]
    constructor
    · rw [hj, map_append, h.pending]; rfl
    · rw [getLastCommitNode_setNodeValue, setNodeValue_height, h.committed]
    · rw [getNodeValue_setNodeValue, setNodeValue_height, h.value, Log.value_eq_replay,
        Log.value_eq_replay, ← append_assoc, replay_concat]
    · -- an entry is either the new last one or an old one
      intro pre e suf hsplit
      rw [hj] at hsplit
      rw [getLastCommitNode_setNodeValue]
      rcases prefix_concat_iff.mp (show pre ++ [e] <+: st.journal ++ [_] from
        ⟨suf, by rw [hsplit, append_assoc]; rfl⟩) with hlast | ⟨suf', hsuf⟩
      · obtain ⟨rfl, rfl⟩ := append_singleton_inj.mp hlast
        exact congrFun h.value_replay key
      · exact h.chained pre e suf' (by simpa using hsuf.symm)

theorem Tracks.writeAll (h : Tracks st log) (calls : List (NodeKey × Hash)) :
    Tracks (st.writeAll calls) (log.record (zeroNode st.height) calls) := by
  induction calls generalizing st log with
  | nil => exact h
  | cons call calls ih =>
    have hrest := ih (h.setNodeValue call.1 call.2)
    rw [setNodeValue_height] at hrest
    exact hrest

theorem Tracks.of_writes (hw : Writes st st') (h : Tracks st log) :
    ∃ writes, Tracks st' (log.record (zeroNode st.height) writes) := by
  obtain ⟨calls, rfl⟩ := hw
  exact ⟨calls, h.writeAll calls⟩

/-- Undoing a suffix of the journal, last entry first, shows the values of the
rest of the journal. -/
theorem shown_undo_suffix (st : RecorderStore Hash) (pre suf : List (JournalEntry Hash))
    (hchain : ∀ p e q, pre ++ suf = p ++ e :: q →
      e.oldValue = replay st.getLastCommitNode (p.map write) e.key)
    (updated : NodeKey → Option Hash)
    (hshown : st.shown updated = replay st.getLastCommitNode ((pre ++ suf).map write)) :
    st.shown (suf.reverse.foldl st.undoEntry updated) =
      replay st.getLastCommitNode (pre.map write) := by
  induction suf using reverseRecOn generalizing updated with
  | nil => simpa using hshown
  | append_singleton suf e ih =>
    rw [reverse_append, reverse_singleton, singleton_append, foldl_cons]
    apply ih
    · intro p e' q hsplit
      exact hchain p e' (q ++ [e]) (by rw [← append_assoc, hsplit]; simp)
    · have hold := hchain (pre ++ suf) e [] (by simp)
      have hmap : (pre ++ (suf ++ [e])).map write =
          (pre ++ suf).map write ++ [e.write] := by simp
      rw [shown_undoEntry, hshown, hmap, replay_concat, hold]
      simp only [write, update_idem, update_eq_self]

/-- **STEP: revert.** -/
theorem Tracks.revertTo (h : Tracks st log) (s : Nat) : Tracks (st.revertTo s) (log.undoTo s) := by
  have htake : st.journal.take (min s st.journal.length) = st.journal.take s :=
    take_eq_take_min.symm
  have hvalue : (st.revertTo s).getNodeValue =
      replay st.getLastCommitNode ((st.journal.take s).map write) := by
    have hretain := shown_retain st ((st.journal.drop (min s st.journal.length)).reverse.foldl
      st.undoEntry st.updatedNodes)
    have hundo := shown_undo_suffix st (st.journal.take (min s st.journal.length))
      (st.journal.drop (min s st.journal.length))
      (by rw [take_append_drop]; exact h.chained) st.updatedNodes
      (by rw [take_append_drop, ← h.value_replay, getNodeValue_eq_shown])
    rw [htake] at hundo
    exact hretain.trans hundo
  constructor
  · show (st.journal.take (min s st.journal.length)).map write = log.pending.take s
    rw [htake, ← h.pending, map_take]
  · exact h.committed
  · rw [hvalue, h.committed, Log.value_eq_replay]
    show _ = replay _ (log.permanent ++ log.pending.take s)
    rw [replay_append, map_take, h.pending]
    rfl
  · intro pre e suf hsplit
    have hs : st.journal.take (min s st.journal.length) = pre ++ e :: suf := hsplit
    refine h.chained pre e (suf ++ st.journal.drop (min s st.journal.length)) ?_
    rw [← cons_append, ← append_assoc, ← hs, take_append_drop]

end SimpleMemoryMerkleRecorderStore

end PsyNode.Recorder
