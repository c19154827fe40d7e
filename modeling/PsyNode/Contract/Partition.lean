/-
PsyNode.Contract.Partition
**THE BATCH INPUTS PARTITION THE ACCEPTED ITEMS.**

The gatherers cut the accepted items into windows by contract id; the gadgets find
the changed positions again by comparing leaves.  The two agree exactly if every item
changes its leaf.

Nothing asks whether an update changes its leaf, and one that does not is listed and
never taken.
-/
import Mathlib.Data.List.TakeWhile
import PsyNode.Contract.Gatherer
import PsyNode.Recorder.Updates

namespace PsyNode.Contract

open Merkle Recorder Lib.WriteLog Lib List

variable {F Hash : Type}

/-! ## §1. The changed positions of a window. -/

variable {proof : SpidermanUpdateProof Hash} {changed : Hash → Hash → Bool} {leaf : Nat → Hash}
  {group writes : List (Nat × Hash)}

/-- The proof shows ascending writes in its window of `p` leaves. -/
structure ShowsWrites (p : Nat) (leaf : Nat → Hash) (group : List (Nat × Hash))
    (proof : SpidermanUpdateProof Hash) : Prop where
  sorted : group.Pairwise (fun a b => a.1 < b.1)
  window : ∀ u ∈ group, u.1 / p = proof.topLineProof.index
  old : proof.webProofOldLeaves = (List.range' (proof.topLineProof.index * p) p).map leaf
  new : proof.webProofNewLeaves =
    (List.range' (proof.topLineProof.index * p) p).map (replay leaf group)

namespace ShowsWrites

variable {p : Nat} (hshows : ShowsWrites p leaf group proof)
include hshows

/-- The positions of a window, by the index of the leaves in the tree. -/
theorem positions_map_add : (positions changed proof).map (proof.topLineProof.index * p + ·) =
      (range' (proof.topLineProof.index * p) p).filter
        (fun j => changed (leaf j) (replay leaf group j)) := by
  have hlen : proof.webProofOldLeaves.length = p := by rw [hshows.old]; simp
  rw [range'_eq_map_range, filter_map]
  unfold positions
  rw [hlen]
  congr 1
  apply filter_congr
  intro i hi
  have hi : i < p := mem_range.mp hi
  simp [hshows.old, hshows.new, hi]

/-- With distinct keys each write is the last of its key. -/
theorem replay_eq {u : Nat × Hash} (hu : u ∈ group) : replay leaf group u.1 = u.2 := by
  have hnodup : (group.map (·.1)).Nodup :=
    List.Pairwise.imp (fun hlt => Nat.ne_of_lt hlt) (pairwise_map.mpr hshows.sorted)
  apply replay_of_written ⟨u, hu, rfl⟩
  intro v hv hvu
  rw [inj_on_of_nodup_map hnodup hv hu hvu]

/-- A changed position is one of the writes, and it changes its leaf. -/
theorem exists_changed (hsame : ∀ hash, changed hash hash = false) {j : Nat}
    (hj : j ∈ (positions changed proof).map (proof.topLineProof.index * p + ·)) :
    ∃ u ∈ group, u.1 = j ∧ changed (leaf u.1) u.2 = true := by
  rw [hshows.positions_map_add] at hj
  obtain ⟨_, hj⟩ := mem_filter.mp hj
  by_cases hwritten : ∃ u ∈ group, u.1 = j
  · obtain ⟨u, hu, rfl⟩ := hwritten
    rw [hshows.replay_eq hu] at hj
    exact ⟨u, hu, rfl, hj⟩
  · rw [replay_of_not_written (fun u hu huj => hwritten ⟨u, hu, huj⟩), hsame] at hj
    cases hj

/-- **THE CHANGED POSITIONS ARE THE WRITTEN ONES**, if every write changes its leaf. -/
theorem positions_eq (hp : 0 < p) (hsame : ∀ hash, changed hash hash = false)
    (hchanged : ∀ u ∈ group, changed (leaf u.1) u.2 = true) :
    (positions changed proof).map (proof.topLineProof.index * p + ·) = group.map (·.1) := by
  apply List.Pairwise.eq_of_mem_iff (r := (· < ·))
  · rw [hshows.positions_map_add]
    exact List.Pairwise.filter _ pairwise_lt_range'
  · exact pairwise_map.mpr hshows.sorted
  intro j
  constructor
  · intro hj
    obtain ⟨u, hu, rfl, _⟩ := hshows.exists_changed hsame hj
    exact mem_map_of_mem hu
  · intro hj
    obtain ⟨u, hu, rfl⟩ := mem_map.mp hj
    rw [hshows.positions_map_add, mem_filter, mem_range'_1]
    refine ⟨?_, ?_⟩
    · rw [← hshows.window u hu]
      exact ⟨Nat.div_mul_le_self u.1 p, Nat.lt_div_mul_add hp⟩
    · rw [hshows.replay_eq hu]
      exact hchanged u hu

/-- The leaves at the positions of a window. -/
theorem positions_leaves {f : Nat → Hash} {ids : List Nat} {leaves : List Hash}
    (hleaves : leaves = (range' (proof.topLineProof.index * p) p).map f)
    (hids : (positions changed proof).map (proof.topLineProof.index * p + ·) = ids) :
    (positions changed proof).map (fun i => leaves[i]?) = ids.map (fun j => some (f j)) := by
  rw [← hids, map_map]
  apply map_congr_left
  intro i hi
  have hi : i < p := by
    have := mem_range.mp (mem_filter.mp hi).1
    rwa [hshows.old, length_map, length_range'] at this
  simp [hleaves, hi]

end ShowsWrites

/-- A write at a changed position of any of the windows changes its leaf. -/
theorem changed_of_position {p : Nat} {proofs : List (SpidermanUpdateProof Hash)}
    (h : WindowProofs p leaf writes proofs) (hsorted : writes.Pairwise (fun a b => a.1 < b.1))
    (hsame : ∀ hash, changed hash hash = false) (hproof : proof ∈ proofs) {w : Nat × Hash}
    (hw : w ∈ writes)
    (hchanged : w.1 ∈ (positions changed proof).map (proof.topLineProof.index * p + ·)) :
    changed (leaf w.1) w.2 = true := by
  have hexists : ∃ u ∈ writes, u.1 = w.1 ∧ changed (leaf u.1) u.2 = true := by
    clear hw
    induction h with
    | nil => cases hproof
    | @cons group rest head proofs _ hin _ hold hnew _ ih =>
      obtain ⟨hsortedGroup, hsortedRest, _⟩ := pairwise_append.mp hsorted
      rcases mem_cons.mp hproof with rfl | hproof
      · obtain ⟨u, hu, hchange⟩ :=
          ShowsWrites.exists_changed ⟨hsortedGroup, hin, hold, hnew⟩ hsame hchanged
        exact ⟨u, mem_append_left _ hu, hchange⟩
      · obtain ⟨u, hu, hchange⟩ := ih hsortedRest hproof
        exact ⟨u, mem_append_right _ hu, hchange⟩
  obtain ⟨u, hu, hkey, hchange⟩ := hexists
  have hnodup : (writes.map (·.1)).Nodup :=
    List.Pairwise.imp (fun hlt => Nat.ne_of_lt hlt) (pairwise_map.mpr hsorted)
  rwa [inj_on_of_nodup_map hnodup hu hw hkey] at hchange

/-- A witness for every changed position and no more: `set_witness` takes them all. -/
theorem setPositions_accepts {α : Type} {missing unused : String} (pairs : List (Hash × Hash))
    {supplied : List α}
    (hlen : supplied.length = (pairs.filter (fun leaves => changed leaves.1 leaves.2)).length) :
    ∃ witness, setPositions changed missing unused pairs supplied = .ok witness := by
  induction pairs generalizing supplied with
  | nil =>
    obtain rfl : supplied = [] := length_eq_zero_iff.mp hlen
    exact ⟨[], rfl⟩
  | cons leaves rest ih =>
    unfold setPositions
    by_cases hchanged : changed leaves.1 leaves.2 = true
    · rw [filter_cons, if_pos hchanged] at hlen
      rw [if_pos hchanged]
      cases supplied with
      | nil => cases hlen
      | cons witness supplied =>
        obtain ⟨rest', hrest⟩ := ih (Nat.succ.inj hlen)
        exact ⟨some witness :: rest', by simp only [hrest]; rfl⟩
    · rw [filter_cons, if_neg hchanged] at hlen
      rw [if_neg hchanged]
      obtain ⟨rest', hrest⟩ := ih hlen
      exact ⟨none :: rest', by simp only [hrest]; rfl⟩

/-- A window takes one witness for each of its changed positions. -/
theorem ShowsWrites.setPositions {α : Type} {missing unused : String} {supplied : List α} {p : Nat}
    (hshows : ShowsWrites p leaf group proof)
    (hlen : (positions changed proof).length = supplied.length) :
    ∃ witness, setPositions changed missing unused
      (proof.webProofOldLeaves.zip proof.webProofNewLeaves) supplied = .ok witness := by
  refine setPositions_accepts _ ?_
  have hmap : ((positions changed proof).map _).length = _ :=
    congrArg length hshows.positions_map_add
  rw [length_map] at hmap
  rw [← hlen, hmap, hshows.old, hshows.new, zip_map', filter_map, length_map]
  rfl

/-! ## §2. What the inputs list, and what the tree sees. -/

/-- What an update item asks for: the contract, its new leaf, and the layout proof. -/
def QCBatchUpdateContractsCircuitInput.listed (input : QCBatchUpdateContractsCircuitInput F Hash) :
    List (Nat × PQEDContractLeafV2 F Hash × List UInt8) :=
  input.updatedContractIds.zip (input.newContractLeaves.zip input.layoutUpdateProofs)

/-- The contracts an input deploys, with their layout proofs. -/
def QCBatchDeployContractsCircuitInput.listed (input : QCBatchDeployContractsCircuitInput F Hash) :
    List (Nat × PQEDContractLeafV2 F Hash × List UInt8) :=
  input.contractIds.zip (input.contractLeaves.zip input.initialLayoutProofs)

/-- Numbering a list from a start. -/
theorem zip_range'_map {α β : Type} (f : α → β) (l : List α) (n : Nat) :
    (range' n l.length).zip (l.map f) = (l.zipIdx n).map (fun a => (a.2, f a.1)) := by
  induction l generalizing n with
  | nil => rfl
  | cons a l ih =>
    rw [length_cons, range'_succ, map_cons, zip_cons_cons, ih (n + 1)]
    rfl

theorem acceptDeploys_spec [DecidableEq Hash] {config : ContractGathererConfig F Hash}
    (items : List (PsyDeployContractQueueItemV2 F Hash)) {g g' : DeployContractGatherer F Hash}
    (h : items.foldlM (DeployContractGatherer.updateFromQueueItemWithTree config) g = .ok g') :
    g'.nextContractId = g.nextContractId + items.length ∧ g'.deployed = g.deployed ++
      items.map (fun item => ⟨item.contractLeaf, item.canonicalLayoutProof⟩) := by
  induction items generalizing g g' with
  | nil =>
    injection h with h
    rw [h]
    exact ⟨rfl, by simp⟩
  | cons item items ih =>
    rw [foldlM_cons, bind_eq_ok] at h
    obtain ⟨next, hnext, h⟩ := h
    unfold DeployContractGatherer.updateFromQueueItemWithTree at hnext
    simp only [bind_eq_ok, require_eq_ok, exists_const, pure_eq_ok] at hnext
    obtain ⟨_, _, rfl⟩ := hnext
    obtain ⟨hid, hdeployed⟩ := ih h
    dsimp only at hid hdeployed
    refine ⟨?_, ?_⟩
    · rw [hid, length_cons]
      omega
    · rw [hdeployed, map_cons, append_assoc]
      rfl

variable [QFelt64 F] [HashTo4Felts F Hash] [FieldQHasher F Hash]

/-- An update, as the tree sees it. -/
def UpdatedContract.write (u : UpdatedContract F Hash) : Nat × Hash :=
  (u.contractId, u.newLeaf.qfhash)

section
variable (contractId : Nat) (deployed : List (DeployedContract F Hash))

/-- Deploys under ascending ids, as the tree sees them. -/
def deployWrites : List (Nat × Hash) :=
  (deployed.zipIdx contractId).map (fun d => (d.2, d.1.contractLeaf.qfhash))

theorem deployWrites_fst :
    (deployWrites contractId deployed).map (·.1) = range' contractId deployed.length := by
  unfold deployWrites
  rw [← zip_range'_map (fun d : DeployedContract F Hash => d.contractLeaf.qfhash)]
  exact map_fst_zip (by simp)

theorem deployWrites_ascending :
    (deployWrites contractId deployed).Pairwise (fun a b => a.1 < b.1) := by
  apply pairwise_map.mp
  rw [deployWrites_fst]
  exact pairwise_lt_range'

end

/-- Cutting deploys apart. -/
theorem deployWrites_split {contractId : Nat} {deployed : List (DeployedContract F Hash)}
    {group rest : List (Nat × Hash)} (h : deployWrites contractId deployed = group ++ rest) :
    group.length ≤ deployed.length ∧
      deployWrites contractId (deployed.take group.length) = group ∧
      deployWrites (contractId + group.length) (deployed.drop group.length) = rest := by
  have hle : group.length ≤ deployed.length := by
    have := congrArg length h
    simp only [deployWrites, length_map, length_zipIdx, length_append] at this
    omega
  have hlen : (deployed.take group.length).length = group.length := by
    rw [length_take, Nat.min_eq_left hle]
  have happend : deployWrites contractId (deployed.take group.length) ++
      deployWrites (contractId + group.length) (deployed.drop group.length) = group ++ rest := by
    rw [← h]
    unfold deployWrites
    rw [← map_append]
    congr 1
    conv_rhs => rw [← take_append_drop group.length deployed, zipIdx_append, hlen]
  obtain ⟨hgroup, hrest⟩ := append_inj happend (by simp [deployWrites, hlen])
  exact ⟨hle, hgroup, hrest⟩

/-! ## §3. Updates. -/

variable [DecidableEq Hash]

/-- **AN INPUT LISTS THE CHANGES OF ITS WINDOW**: its contract ids are the changed positions in
ascending order, with leaves that hash to what the proof shows there, and the gadget takes it. -/
structure QCBatchUpdateContractsCircuitInput.ListsChanges (k : Nat)
    (input : QCBatchUpdateContractsCircuitInput F Hash) : Prop where
  ids : input.updatedContractIds = (positions isChanged input.spidermanUpdateProof).map
    (input.spidermanUpdateProof.topLineProof.index * 2 ^ k + ·)
  old : input.oldContractLeaves.map (fun leaf => some leaf.qfhash) =
    (positions isChanged input.spidermanUpdateProof).map
      (fun i => input.spidermanUpdateProof.webProofOldLeaves[i]?)
  new : input.newContractLeaves.map (fun leaf => some leaf.qfhash) =
    (positions isChanged input.spidermanUpdateProof).map
      (fun i => input.spidermanUpdateProof.webProofNewLeaves[i]?)
  accepted : ∃ witness, input.setWitness (2 ^ k) = .ok witness

variable {k : Nat}

open QCBatchUpdateContractsCircuitInput in
theorem listsChanges_ofWindow {window : List (UpdatedContract F Hash)} (hne : window ≠ [])
    (hshows : ShowsWrites (2 ^ k) leaf (window.map (·.write)) proof)
    (hleaf : ∀ u ∈ window, leaf u.contractId = u.oldLeaf.qfhash)
    (hchange : ∀ u ∈ window, u.oldLeaf.qfhash ≠ u.newLeaf.qfhash) :
    (ofWindow proof window).ListsChanges k := by
  have hids : (positions isChanged proof).map (proof.topLineProof.index * 2 ^ k + ·) =
      window.map (·.contractId) := by
    rw [hshows.positions_eq (Nat.two_pow_pos k) (by simp [isChanged]), map_map]
    · rfl
    · intro w hw
      obtain ⟨u, hu, rfl⟩ := mem_map.mp hw
      show decide (leaf u.contractId ≠ u.newLeaf.qfhash) = true
      rw [hleaf u hu, decide_eq_true_eq]
      exact hchange u hu
  have hnewLeaf : ∀ u ∈ window,
      replay leaf (window.map (·.write)) u.contractId = u.newLeaf.qfhash := by
    intro u hu
    exact hshows.replay_eq (mem_map_of_mem hu)
  refine ⟨hids.symm, ?_, ?_, ?_⟩
  · show _ = (positions isChanged proof).map (fun i => proof.webProofOldLeaves[i]?)
    rw [hshows.positions_leaves hshows.old hids]
    simp only [ofWindow, map_map]
    exact map_congr_left (fun u hu => congrArg some (hleaf u hu).symm)
  · show _ = (positions isChanged proof).map (fun i => proof.webProofNewLeaves[i]?)
    rw [hshows.positions_leaves hshows.new hids]
    simp only [ofWindow, map_map]
    exact map_congr_left (fun u hu => congrArg some (hnewLeaf u hu).symm)
  · have hlen := congrArg length hids
    rw [length_map] at hlen
    unfold setWitness
    simp only [bind_eq_ok, require_eq_ok, exists_const]
    refine (hshows.setPositions (hlen.trans (by
      simp [ofWindow]))).imp (fun _ h => ⟨?_, ?_, h⟩)
    · simp [ofWindow, hne]
    · show proof.webProofOldLeaves.length = _ ∧ proof.webProofNewLeaves.length = _
      rw [hshows.old, hshows.new]
      simp

variable {proofs : List (SpidermanUpdateProof Hash)}

/-- **EVERY WINDOW GETS ITS UPDATES.**  `leaf` are the leaves before the updates. -/
theorem assignWindows_spec
    (h : WindowProofs (2 ^ k) leaf writes proofs) {sorted : List (UpdatedContract F Hash)}
    (hmap : sorted.map (·.write) = writes) (hsorted : writes.Pairwise (fun a b => a.1 < b.1))
    (hleaf : ∀ u ∈ sorted, leaf u.contractId = u.oldLeaf.qfhash)
    (hchange : ∀ u ∈ sorted, u.oldLeaf.qfhash ≠ u.newLeaf.qfhash) :
    ∃ inputs, assignWindows (2 ^ k) proofs sorted = .ok inputs ∧
      inputs.flatMap (·.listed) =
        sorted.map (fun u => (u.contractId, u.newLeaf, u.layoutProof)) ∧
      ∀ input ∈ inputs, input.ListsChanges k := by
  induction h generalizing sorted with
  | nil =>
    obtain rfl := map_eq_nil_iff.mp hmap
    exact ⟨[], rfl, rfl, by simp⟩
  | @cons group rest proof proofs hne hin hout hold hnew _ ih =>
    obtain ⟨window, later, rfl, rfl, rfl⟩ := map_eq_append_iff.mp hmap
    obtain ⟨hsortedWindow, hsortedLater, _⟩ := pairwise_append.mp hsorted
    obtain ⟨inputs, hinputs, hlisted, hall⟩ := ih rfl hsortedLater
      (fun u hu => hleaf u (mem_append_right _ hu))
      (fun u hu => hchange u (mem_append_right _ hu))
    have hwindowNe : window ≠ [] := fun hnil => hne (by rw [hnil]; rfl)
    refine ⟨.ofWindow proof window :: inputs, ?_, ?_, ?_⟩
    · cases window with
      | nil => exact absurd rfl hwindowNe
      | cons update window =>
        have hfirst : update.contractId / 2 ^ k = proof.topLineProof.index :=
          hin update.write (mem_cons_self ..)
        -- the loop compares with the window of the first update, which is the proof's
        have htake : ∀ u ∈ update :: window,
            (u.contractId / 2 ^ k == update.contractId / 2 ^ k) = true := by
          intro u hu
          rw [beq_iff_eq, hfirst]
          exact hin u.write (mem_map_of_mem hu)
        have hdrop : ∀ u ∈ later, ¬ (u.contractId / 2 ^ k == update.contractId / 2 ^ k) = true := by
          intro u hu
          rw [beq_iff_eq, hfirst]
          exact hout u.write (mem_map_of_mem hu)
        show assignWindows (2 ^ k) (proof :: proofs) (update :: (window ++ later)) = _
        unfold assignWindows
        dsimp only
        rw [← cons_append, takeWhile_append_of_pos htake, dropWhile_append_of_pos htake,
          takeWhile_eq_nil_iff.mpr (fun hpos => hdrop _ (getElem_mem hpos)),
          dropWhile_eq_self_iff.mpr (fun hpos => hdrop _ (getElem_mem hpos)), append_nil, hinputs]
        rfl
    · rw [flatMap_cons, QCBatchUpdateContractsCircuitInput.listed,
        QCBatchUpdateContractsCircuitInput.ofWindow, zip_map', zip_map', hlisted, map_append]
    · intro input hinput
      rcases mem_cons.mp hinput with rfl | hinput
      · exact listsChanges_ofWindow hwindowNe ⟨hsortedWindow, hin, hold, hnew⟩
          (fun u hu => hleaf u (mem_append_left _ hu))
          (fun u hu => hchange u (mem_append_left _ hu))
      · exact hall input hinput

omit [QFelt64 F] [HashTo4Felts F Hash] [FieldQHasher F Hash] [DecidableEq Hash] in
/-- Every input has one of the proofs. -/
theorem assignWindows_proof_mem {p : Nat} {sorted : List (UpdatedContract F Hash)}
    {inputs : List (QCBatchUpdateContractsCircuitInput F Hash)}
    (h : assignWindows p proofs sorted = .ok inputs) :
    ∀ input ∈ inputs, input.spidermanUpdateProof ∈ proofs := by
  induction proofs generalizing sorted inputs with
  | nil =>
    cases h
    simp
  | cons proof proofs ih =>
    cases sorted with
    | nil => cases h
    | cons update sorted =>
      unfold assignWindows at h
      simp only [bind_eq_ok, pure_eq_ok] at h
      obtain ⟨later, hlater, rfl⟩ := h
      rw [forall_mem_cons]
      exact ⟨mem_cons_self .., fun input hinput => mem_cons_of_mem _ (ih hlater input hinput)⟩

/-! ## §4. Deploys. -/

variable [MerkleZeroHasher Hash]

/-- **AN INPUT LISTS THE ADDITIONS OF ITS WINDOW**: its contract ids are the changed positions
in ascending order, empty before and now with the hash of the contract's leaf, and the gadget
takes it. -/
structure QCBatchDeployContractsCircuitInput.ListsAdditions (k : Nat)
    (input : QCBatchDeployContractsCircuitInput F Hash) : Prop where
  ids : input.contractIds = (positions isChanged input.spidermanAppendProof).map
    (input.spidermanAppendProof.topLineProof.index * 2 ^ k + ·)
  old : ∀ i ∈ positions isChanged input.spidermanAppendProof,
    input.spidermanAppendProof.webProofOldLeaves[i]? = some (getZeroHash 0)
  new : input.contractLeaves.map (fun leaf => some leaf.qfhash) =
    (positions isChanged input.spidermanAppendProof).map
      (fun i => input.spidermanAppendProof.webProofNewLeaves[i]?)
  accepted : ∃ witness, input.setWitness (2 ^ k) = .ok witness

open QCBatchDeployContractsCircuitInput in
theorem listsAdditions_ofWindow {contractId : Nat} {window : List (DeployedContract F Hash)}
    (hne : window ≠ []) (hshows : ShowsWrites (2 ^ k) leaf (deployWrites contractId window) proof)
    (hleaf : ∀ w ∈ deployWrites contractId window, leaf w.1 = getZeroHash 0)
    (hzero : ∀ w ∈ deployWrites contractId window, w.2 ≠ getZeroHash 0) :
    getModifiedLeavesCount proof = window.length ∧
      (ofWindow proof contractId window).ListsAdditions k := by
  -- on writes of non-empty leaves to empty ones the two tests agree
  have hpositions : ∀ changed : Hash → Hash → Bool, (∀ hash, changed hash hash = false) →
      (∀ hash ≠ getZeroHash 0, changed (getZeroHash 0) hash = true) →
      (positions changed proof).map (proof.topLineProof.index * 2 ^ k + ·) =
        range' contractId window.length := by
    intro changed hsame hchanged
    rw [hshows.positions_eq (Nat.two_pow_pos k) hsame, deployWrites_fst]
    intro w hw
    rw [hleaf w hw]
    exact hchanged w.2 (hzero w hw)
  have hids := hpositions isChanged (by simp [isChanged])
    (fun hash hne => by simp [isChanged, Ne.symm hne])
  have hadded := hpositions isAdded (by simp [isAdded]) (fun hash hne => by simp [isAdded, hne])
  have hcount : (positions isChanged proof).length = window.length := by
    have := congrArg length hids
    simpa using this
  refine ⟨hcount, hids.symm, ?_, ?_, ?_⟩
  · show ∀ i ∈ positions isChanged proof, proof.webProofOldLeaves[i]? = _
    apply map_eq_map_iff.mp
    rw [hshows.positions_leaves hshows.old hids, ← deployWrites_fst, map_map]
    have hconst := congrArg (map (fun _ => some (getZeroHash 0 : Hash)))
      (hids.trans (deployWrites_fst contractId window).symm)
    rw [map_map, map_map] at hconst
    exact (map_congr_left (fun w hw => congrArg some (hleaf w hw))).trans hconst.symm
  · show _ = (positions isChanged proof).map (fun i => proof.webProofNewLeaves[i]?)
    rw [hshows.positions_leaves hshows.new hids, ← deployWrites_fst, map_map]
    have hnewLeaf : ∀ w ∈ deployWrites contractId window,
        some (replay leaf (deployWrites contractId window) w.1) = some w.2 :=
      fun w hw => congrArg some (hshows.replay_eq hw)
    refine Eq.trans ?_ (map_congr_left hnewLeaf).symm
    simp only [ofWindow, deployWrites, map_map]
    conv_lhs => rw [← zipIdx_map_fst contractId window, map_map]
    rfl
  · have hlen := congrArg length hadded
    rw [length_map] at hlen
    unfold setWitness
    simp only [bind_eq_ok, require_eq_ok, exists_const]
    refine (hshows.setPositions (hlen.trans (by
      simp [ofWindow]))).imp (fun _ h => ⟨?_, ?_, h⟩)
    · simp [ofWindow, hne]
    · show proof.webProofOldLeaves.length = _ ∧ proof.webProofNewLeaves.length = _
      rw [hshows.old, hshows.new]
      simp

variable {inputs : List (QCBatchDeployContractsCircuitInput F Hash)}

/-- **EVERY WINDOW GETS ITS DEPLOYS.** -/
theorem assignDeploys_spec (h : WindowProofs (2 ^ k) leaf writes proofs) {contractId : Nat}
    {deployed : List (DeployedContract F Hash)}
    (hwrites : deployWrites contractId deployed = writes)
    (hleaf : ∀ w ∈ writes, leaf w.1 = getZeroHash 0) (hzero : ∀ w ∈ writes, w.2 ≠ getZeroHash 0)
    (hinputs : assignDeploys proofs contractId deployed = .ok inputs) :
    inputs.flatMap (·.listed) = (deployed.zipIdx contractId).map
        (fun d => (d.2, d.1.contractLeaf, d.1.layoutProof)) ∧
      ∀ input ∈ inputs, input.ListsAdditions k := by
  induction h generalizing contractId deployed inputs with
  | nil =>
    cases hinputs
    obtain rfl : deployed = [] := by
      have := congrArg length hwrites
      simp only [deployWrites, length_map, length_zipIdx, length_nil] at this
      exact length_eq_zero_iff.mp this
    exact ⟨rfl, by simp⟩
  | @cons group rest proof proofs hne hin hout hold hnew _ ih =>
    obtain ⟨hle, hgroup, hrest⟩ := deployWrites_split hwrites
    have hlen : (deployed.take group.length).length = group.length := by
      rw [length_take, Nat.min_eq_left hle]
    rw [← hgroup] at hin hnew hne
    obtain ⟨hcount, hlists⟩ := listsAdditions_ofWindow (k := k)
      (fun hnil => hne (by rw [hnil]; rfl)) ⟨deployWrites_ascending _ _, hin, hold, hnew⟩
      (fun w hw => hleaf w (mem_append_left _ (hgroup ▸ hw)))
      (fun w hw => hzero w (mem_append_left _ (hgroup ▸ hw)))
    unfold assignDeploys at hinputs
    simp only [bind_eq_ok, require_eq_ok, exists_const, pure_eq_ok] at hinputs
    obtain ⟨_, _, later, hlater, rfl⟩ := hinputs
    rw [hcount, hlen] at hlater ⊢
    obtain ⟨hlisted, hall⟩ := ih hrest (fun w hw => hleaf w (mem_append_right _ hw))
      (fun w hw => hzero w (mem_append_right _ hw)) hlater
    refine ⟨?_, ?_⟩
    · rw [flatMap_cons, QCBatchDeployContractsCircuitInput.listed,
        QCBatchDeployContractsCircuitInput.ofWindow, zip_map', zip_range'_map, hlisted,
        ← map_append]
      congr 1
      conv_rhs => rw [← take_append_drop group.length deployed, zipIdx_append, hlen]
    · intro input hinput
      rcases mem_cons.mp hinput with rfl | hinput
      · exact hlists
      · exact hall input hinput

omit [QFelt64 F] [HashTo4Felts F Hash] [FieldQHasher F Hash] in
/-- Every input has one of the proofs. -/
theorem assignDeploys_proof_mem {contractId : Nat} {deployed : List (DeployedContract F Hash)}
    (h : assignDeploys proofs contractId deployed = .ok inputs) :
    ∀ input ∈ inputs, input.spidermanAppendProof ∈ proofs := by
  induction proofs generalizing contractId deployed inputs with
  | nil =>
    cases h
    simp
  | cons proof proofs ih =>
    unfold assignDeploys at h
    simp only [bind_eq_ok, require_eq_ok, exists_const, pure_eq_ok] at h
    obtain ⟨_, _, later, hlater, rfl⟩ := h
    rw [forall_mem_cons]
    exact ⟨mem_cons_self .., fun input hinput => mem_cons_of_mem _ (ih hlater input hinput)⟩

/-! ## §5. What was accepted. -/

/-- An update item and the record that accepting it on a tree leaves. -/
structure AcceptedAs (config : ContractGathererConfig F Hash) (tree : RecorderStore Hash)
    (item : PsyUpdateContractQueueItem F Hash) (u : UpdatedContract F Hash) : Prop where
  contractId : u.contractId = item.contractId
  oldLeaf : config.getContractLeaf item.contractId = some u.oldLeaf
  newLeaf : u.newLeaf = item.contractLeaf
  layoutProof : u.layoutProof = item.canonicalLayoutProof
  deployed : tree.getLeafValue u.contractId ≠ getZeroHash 0
  current : tree.getLeafValue u.contractId = u.oldLeaf.qfhash

variable {tree tree' : RecorderStore Hash} {config : ContractGathererConfig F Hash}

/-- What a cycle deploys, in which windows, and what it leaves of the leaves. -/
theorem finalizeDeploys_eq_ok {g : DeployContractGatherer F Hash}
    (h : g.finalizeDeploys k tree = .ok (inputs, tree')) :
    ∃ proofs, let writes := deployWrites (g.nextContractId - g.deployed.length) g.deployed
      WindowProofs (2 ^ k) tree.getLeafValue writes proofs ∧
      assignDeploys proofs (g.nextContractId - g.deployed.length) g.deployed = .ok inputs ∧
      (∀ w ∈ writes, tree.getLeafValue w.1 = getZeroHash 0) ∧
      tree'.getLeafValue = replay tree.getLeafValue writes := by
  unfold DeployContractGatherer.finalizeDeploys at h
  rw [ite_error_eq_ok] at h
  obtain ⟨_, h⟩ := h
  by_cases hempty : g.deployed.isEmpty
  · rw [if_pos hempty] at h
    cases h
    rw [isEmpty_iff.mp hempty]
    exact ⟨[], .nil, rfl, by simp [deployWrites], rfl⟩
  rw [if_neg hempty] at h
  obtain ⟨_, hfree, h⟩ := bind_eq_ok.mp h
  have hfree : ∀ j ∈ range' (g.nextContractId - g.deployed.length) g.deployed.length,
      tree.getLeafValue j = getZeroHash 0 := by
    intro j hj
    exact require_eq_ok.mp (forM_eq_ok.mp hfree j hj)
  split at h
  next => cases h
  next proofs candidate hproofs =>
    simp only [bind_eq_ok, pure_eq_ok] at h
    obtain ⟨inputs', hinputs, h⟩ := h
    cases h
    have hwrites : ((range' (g.nextContractId - g.deployed.length) g.deployed.length).zip
        (g.deployed.map (·.contractLeaf.qfhash))).insertionSort (fun a b => a.1 ≤ b.1) =
        deployWrites (g.nextContractId - g.deployed.length) g.deployed := by
      rw [zip_range'_map]
      exact ((deployWrites_ascending _ _).imp Nat.le_of_lt).insertionSort_eq
    obtain ⟨_, hwindows, hleaves⟩ := updateLeavesSpiderMan_proofs hwrites hproofs
    refine ⟨proofs, hwindows, hinputs, ?_, hleaves⟩
    intro w hw
    apply hfree
    rw [← deployWrites_fst]
    exact mem_map_of_mem hw

/-- **THE DEPLOYS OF A CYCLE** are listed under their ids, each at an addition of its window,
exactly if none of their leaves hashes to the empty leaf. -/
theorem finalizeDeploys_spec {g : DeployContractGatherer F Hash}
    (h : g.finalizeDeploys k tree = .ok (inputs, tree')) :
    (inputs.flatMap (·.listed) =
        (g.deployed.zipIdx (g.nextContractId - g.deployed.length)).map
          (fun d => (d.2, d.1.contractLeaf, d.1.layoutProof)) ∧
      ∀ input ∈ inputs, input.ListsAdditions k) ↔
    ∀ d ∈ g.deployed, d.contractLeaf.qfhash ≠ getZeroHash 0 := by
  obtain ⟨proofs, hwindows, hinputs, hfree, _⟩ := finalizeDeploys_eq_ok h
  constructor
  · rintro ⟨hlisted, hlists⟩ d hd
    -- the id of the deploy is listed, so the position differs from the empty leaf before
    obtain ⟨i, hi⟩ : ∃ i, (d, i) ∈ g.deployed.zipIdx (g.nextContractId - g.deployed.length) := by
      rw [← zipIdx_map_fst (g.nextContractId - g.deployed.length) g.deployed] at hd
      obtain ⟨⟨_, i⟩, hi, rfl⟩ := mem_map.mp hd
      exact ⟨i, hi⟩
    obtain ⟨input, hinput, hmem⟩ := mem_flatMap.mp (hlisted ▸ mem_map_of_mem hi)
    have hid : i ∈ input.contractIds := (of_mem_zip hmem).1
    have hwrite : (i, d.contractLeaf.qfhash) ∈
        deployWrites (g.nextContractId - g.deployed.length) g.deployed :=
      mem_map_of_mem (f := fun d => (d.2, d.1.contractLeaf.qfhash)) hi
    rw [(hlists input hinput).ids] at hid
    have hchanged := changed_of_position hwindows (deployWrites_ascending _ _) (by simp [isChanged])
      (assignDeploys_proof_mem hinputs input hinput) hwrite hid
    rw [hfree _ hwrite, isChanged, decide_eq_true_eq] at hchanged
    exact hchanged.symm
  · intro hzero
    refine assignDeploys_spec hwindows rfl hfree ?_ hinputs
    intro w hw
    obtain ⟨d, hd, rfl⟩ := mem_map.mp hw
    exact hzero d.1 (fst_mem_of_mem_zipIdx hd)

/-- What a cycle updates, in which windows. -/
theorem finalizeUpdates_eq_ok {updates : List (UpdatedContract F Hash)}
    {inputs : List (QCBatchUpdateContractsCircuitInput F Hash)}
    (h : finalizeUpdates k updates tree = .ok (inputs, tree')) :
    ∃ proofs, let sorted := updates.insertionSort (fun a b => a.contractId ≤ b.contractId)
      (sorted.map (·.write)).Pairwise (fun a b => a.1 < b.1) ∧
      WindowProofs (2 ^ k) tree.getLeafValue (sorted.map (·.write)) proofs ∧
      assignWindows (2 ^ k) proofs sorted = .ok inputs := by
  unfold finalizeUpdates at h
  by_cases hempty : updates.isEmpty
  · rw [if_pos hempty] at h
    cases h
    rw [isEmpty_iff.mp hempty]
    exact ⟨[], .nil, .nil, rfl⟩
  rw [if_neg hempty] at h
  split at h
  next => cases h
  next proofs tree₁ hproofs =>
    simp only [bind_eq_ok, pure_eq_ok] at h
    obtain ⟨inputs', hinputs, h⟩ := h
    cases h
    -- sorting the updates and sorting what the tree sees of them is the same
    have hsorted : ((updates.map (·.contractId)).zip
        (updates.map (·.newLeaf.qfhash))).insertionSort (fun a b => a.1 ≤ b.1) =
        (updates.insertionSort (fun a b => a.contractId ≤ b.contractId)).map (·.write) := by
      rw [zip_map']
      symm
      exact map_insertionSort _ _ _ _ (fun _ _ _ _ => Iff.rfl)
    obtain ⟨hascending, hwindows, _⟩ := updateLeavesSpiderMan_proofs hsorted hproofs
    rw [Nat.shiftLeft_eq, one_mul] at hinputs
    exact ⟨proofs, hascending, hwindows, hinputs⟩

/-- **THE UPDATES OF A CYCLE**, each of the leaf its contract has, are listed, each at a change
of its window, exactly if every one of them changes the leaf. -/
theorem finalizeUpdates_spec {updates : List (UpdatedContract F Hash)}
    {inputs : List (QCBatchUpdateContractsCircuitInput F Hash)}
    (hleaf : ∀ u ∈ updates, tree.getLeafValue u.contractId = u.oldLeaf.qfhash)
    (h : finalizeUpdates k updates tree = .ok (inputs, tree')) :
    ((inputs.flatMap (·.listed)).Perm
        (updates.map (fun u => (u.contractId, u.newLeaf, u.layoutProof))) ∧
      ∀ input ∈ inputs, input.ListsChanges k) ↔
    ∀ u ∈ updates, u.oldLeaf.qfhash ≠ u.newLeaf.qfhash := by
  obtain ⟨proofs, hascending, hwindows, hinputs⟩ := finalizeUpdates_eq_ok h
  have hperm := perm_insertionSort (fun a b => a.contractId ≤ b.contractId) updates
  constructor
  · rintro ⟨hlisted, hlists⟩ u hu
    obtain ⟨input, hinput, hmem⟩ := mem_flatMap.mp (hlisted.mem_iff.mpr (mem_map_of_mem hu))
    have hid : u.contractId ∈ input.updatedContractIds := (of_mem_zip hmem).1
    rw [(hlists input hinput).ids] at hid
    have hchanged := changed_of_position hwindows hascending (by simp [isChanged])
      (assignWindows_proof_mem hinputs input hinput)
      (mem_map_of_mem (f := UpdatedContract.write) (hperm.mem_iff.mpr hu)) hid
    rw [isChanged, decide_eq_true_eq] at hchanged
    exact hleaf u hu ▸ hchanged
  · intro hchange
    obtain ⟨_, hok, hlisted, hlists⟩ := assignWindows_spec hwindows rfl hascending
      (fun u hu => hleaf u (hperm.mem_iff.mp hu)) (fun u hu => hchange u (hperm.mem_iff.mp hu))
    cases hinputs.symm.trans hok
    rw [hlisted]
    exact ⟨hperm.map _, hlists⟩

variable [DecidableEq F]

theorem updateFromQueueItemWithTree_spec {updates updates' : List (UpdatedContract F Hash)}
    {item : PsyUpdateContractQueueItem F Hash}
    (h : updateFromQueueItemWithTree config tree updates item = .ok updates') :
    ∃ u, updates' = updates ++ [u] ∧ AcceptedAs config tree item u := by
  unfold updateFromQueueItemWithTree validateContractUpdate at h
  simp only [bind_eq_ok, require_eq_ok, exists_const] at h
  obtain ⟨_, _, h⟩ := h
  split at h
  next => cases h
  next old hold =>
    simp only [bind_eq_ok, require_eq_ok, exists_const, pure_eq_ok] at h
    obtain ⟨_, ⟨_, hexists, hcurrent, _⟩, _, rfl⟩ := h
    exact ⟨_, rfl, rfl, hold, rfl, rfl, hexists, hcurrent⟩

theorem acceptUpdates_spec (items : List (PsyUpdateContractQueueItem F Hash))
    {updates updates' : List (UpdatedContract F Hash)}
    (h : items.foldlM (updateFromQueueItemWithTree config tree) updates = .ok updates') :
    ∃ accepted, updates' = updates ++ accepted ∧
      (∀ u ∈ accepted, ∃ item ∈ items, AcceptedAs config tree item u) ∧
      (∀ item ∈ items, ∃ u ∈ accepted, AcceptedAs config tree item u) ∧
      accepted.map (fun u => (u.contractId, u.newLeaf, u.layoutProof)) = items.map
        (fun item => (item.contractId, item.contractLeaf, item.canonicalLayoutProof)) := by
  induction items generalizing updates updates' with
  | nil =>
    injection h with h
    exact ⟨[], by rw [append_nil, h], by simp, by simp, rfl⟩
  | cons item items ih =>
    rw [foldlM_cons, bind_eq_ok] at h
    obtain ⟨next, hnext, h⟩ := h
    obtain ⟨u, rfl, hu⟩ := updateFromQueueItemWithTree_spec hnext
    obtain ⟨accepted, rfl, hfrom, hto, hmap⟩ := ih h
    refine ⟨u :: accepted, by simp, ?_, ?_, ?_⟩
    · rw [forall_mem_cons]
      refine ⟨⟨item, mem_cons_self .., hu⟩, fun v hv => ?_⟩
      obtain ⟨item', hitem', h'⟩ := hfrom v hv
      exact ⟨item', mem_cons_of_mem _ hitem', h'⟩
    · rw [forall_mem_cons]
      refine ⟨⟨u, mem_cons_self .., hu⟩, fun item' hitem' => ?_⟩
      obtain ⟨v, hv, h'⟩ := hto item' hitem'
      exact ⟨v, mem_cons_of_mem _ hv, h'⟩
    · rw [map_cons, map_cons, hmap, hu.contractId, hu.newLeaf, hu.layoutProof]

/-! ## §6. The cycle. -/

/-- **WHEN THE INPUTS PARTITION THE ACCEPTED ITEMS.**  Every item is listed in one input, under
its contract's id and with its layout proof, every input lists the changes of its window, and
the gadgets take every input, exactly if every update changes the leaf of its contract and no
deployed leaf hashes to the empty leaf. -/
theorem finalize_with_tree_partitions_items_iff {k startNextContractId : Nat}
    {config : ContractGathererConfig F Hash} {tree : SimpleMemoryMerkleRecorderStore Hash}
    {deployItems : List (PsyDeployContractQueueItemV2 F Hash)}
    {updateItems : List (PsyUpdateContractQueueItem F Hash)}
    {deploy : DeployContractGatherer F Hash} {updates : List (UpdatedContract F Hash)}
    {deployInputs : List (QCBatchDeployContractsCircuitInput F Hash)}
    {updateInputs : List (QCBatchUpdateContractsCircuitInput F Hash)}
    (hdeploy : deployItems.foldlM (DeployContractGatherer.updateFromQueueItemWithTree config)
      ⟨startNextContractId, []⟩ = .ok deploy)
    (hupdate : updateItems.foldlM (updateFromQueueItemWithTree config tree) [] = .ok updates)
    (hfinalize : finalizeWithTree k deploy updates tree = .ok (deployInputs, updateInputs)) :
    ((deployInputs.flatMap (·.listed) = (deployItems.zipIdx startNextContractId).map
          (fun d => (d.2, d.1.contractLeaf, d.1.canonicalLayoutProof)) ∧
        ∀ input ∈ deployInputs, input.ListsAdditions k) ∧
      (updateInputs.flatMap (·.listed)).Perm (updateItems.map
          (fun item => (item.contractId, item.contractLeaf, item.canonicalLayoutProof))) ∧
        ∀ input ∈ updateInputs, input.ListsChanges k) ↔
    (∀ item ∈ deployItems, item.contractLeaf.qfhash ≠ getZeroHash 0) ∧
      ∀ item ∈ updateItems, ∀ oldLeaf, config.getContractLeaf item.contractId = some oldLeaf →
        oldLeaf.qfhash ≠ item.contractLeaf.qfhash := by
  obtain ⟨hid, hdeployed⟩ := acceptDeploys_spec deployItems hdeploy
  obtain ⟨accepted, hupdates, hfrom, hto, hmap⟩ := acceptUpdates_spec updateItems hupdate
  rw [nil_append] at hupdates hdeployed
  rw [← hupdates] at hfrom hto hmap
  unfold finalizeWithTree at hfinalize
  simp only [bind_eq_ok, pure_eq_ok] at hfinalize
  obtain ⟨first, hfirst, second, hsecond, heq⟩ := hfinalize
  cases heq
  have hcurrent : ∀ u ∈ updates, first.2.getLeafValue u.contractId = u.oldLeaf.qfhash := by
    intro u hu
    obtain ⟨item, _, h⟩ := hfrom u hu
    obtain ⟨_, _, _, hfree, hleaves⟩ := finalizeDeploys_eq_ok hfirst
    -- the deploys of the cycle went to other leaves
    rw [hleaves, ← h.current]
    apply replay_of_not_written
    intro w hw hwu
    exact h.deployed (by rw [← hwu]; exact hfree w hw)
  have hdeploys := finalizeDeploys_spec hfirst
  have hstart : deploy.nextContractId - deploy.deployed.length = startNextContractId := by
    rw [hid, hdeployed, length_map]
    exact Nat.add_sub_cancel ..
  rw [hstart, hdeployed, zipIdx_map, map_map, forall_mem_map] at hdeploys
  have hupdates := finalizeUpdates_spec hcurrent hsecond
  rw [hmap] at hupdates
  refine and_congr hdeploys (hupdates.trans ?_)
  constructor
  · intro hchange item hitem oldLeaf hold
    obtain ⟨u, hu, h⟩ := hto item hitem
    cases hold.symm.trans h.oldLeaf
    rw [← h.newLeaf]
    exact hchange u hu
  · intro hchange u hu
    obtain ⟨item, hitem, h⟩ := hfrom u hu
    rw [h.newLeaf]
    exact hchange item hitem u.oldLeaf h.oldLeaf

/-! A tree with contracts 0 and 1, and items for it. -/

/-- A contract leaf with a code root. -/
def sampleLeaf (code : Nat) : PQEDContractLeafV2 Nat SymHash :=
  ⟨3, .leaf 4, .leaf code, 2, .leaf 6, 1, 1⟩

/-- The tree with two deployed contracts. -/
def sampleTree : RecorderStore SymHash :=
  (((SimpleMemoryMerkleRecorderStore.new 2).setLeaf 0 (.leaf 1)).1.setLeaf 1
    (sampleLeaf 5).qfhash).1

/-- Contract 1 is committed with code root 5. -/
def sampleConfig : ContractGathererConfig Nat SymHash where
  cfcTreeRoot := fun _ _ => .leaf 4
  getContractLeaf := fun id => if id = 1 then some (sampleLeaf 5) else none
  hasCodeDefinition := fun _ => true

/-- A deploy item. -/
def sampleDeploy : PsyDeployContractQueueItemV2 Nat SymHash := ⟨sampleLeaf 7, [], 0, [7]⟩

/-- An update item of contract 1. -/
def sampleUpdate (code : Nat) : PsyUpdateContractQueueItem Nat SymHash :=
  ⟨1, sampleLeaf code, [], 0, [8]⟩

/-- One deploy, of contract 2, and one update that changes contract 1. -/
theorem finalize_with_tree_partitions_items_one_each :
    ∃ deploy updates deployInputs updateInputs,
      [sampleDeploy].foldlM (DeployContractGatherer.updateFromQueueItemWithTree sampleConfig)
        ⟨2, []⟩ = .ok deploy ∧
      [sampleUpdate 8].foldlM (updateFromQueueItemWithTree sampleConfig sampleTree) [] =
        .ok updates ∧
      finalizeWithTree 1 deploy updates sampleTree = .ok (deployInputs, updateInputs) ∧
      deployInputs.flatMap (·.listed) = [(2, sampleLeaf 7, [7])] ∧
      (updateInputs.flatMap (·.listed)).Perm [(1, sampleLeaf 8, [8])] := by
  have hdeploy : [sampleDeploy].foldlM
      (DeployContractGatherer.updateFromQueueItemWithTree sampleConfig) ⟨2, []⟩ = .ok _ := rfl
  have hupdate : [sampleUpdate 8].foldlM
      (updateFromQueueItemWithTree sampleConfig sampleTree) [] = .ok _ := rfl
  obtain ⟨⟨h1, _⟩, h2, _⟩ :=
    (finalize_with_tree_partitions_items_iff (k := 1) hdeploy hupdate rfl).mpr ⟨by decide, by
      intro item hitem oldLeaf hold
      rw [mem_singleton.mp hitem] at hold ⊢
      cases hold
      decide⟩
  exact ⟨_, _, _, _, hdeploy, hupdate, rfl, h1, h2⟩

/-- **AN UPDATE TO THE LEAF THE CONTRACT HAS** is accepted and listed, but its position does
not differ and `set_witness` refuses the input. -/
theorem unchanged_update_is_refused :
    ∃ updates input,
      [sampleUpdate 5].foldlM (updateFromQueueItemWithTree sampleConfig sampleTree) [] =
        .ok updates ∧
      finalizeWithTree 1 ⟨2, []⟩ updates sampleTree = .ok ([], [input]) ∧
      input.updatedContractIds = [1] ∧ positions isChanged input.spidermanUpdateProof = [] ∧
      input.setWitness 2 = .error "too many changed contract witnesses supplied" :=
  ⟨_, _, rfl, rfl, rfl, rfl, rfl⟩

end PsyNode.Contract
