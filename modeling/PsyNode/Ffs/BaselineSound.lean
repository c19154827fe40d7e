/-
PsyNode.Ffs.BaselineSound
**A BASELINE REPLAY RETURNS, AND WHAT IT ACCEPTS IS BOUND.**

`Ends q r` says of a step that it returns a value with `q` or an error with `r`;
with `r := Failure.Returned` it says that the step does not panic.  Each function of
the replay has one such lemma, and `replayStateUpdatesIntoTree_ends` chains them.
-/
import PsyNode.Ffs.Baseline

namespace PsyNode.Ffs

open Merkle Guta Recorder Lib.ByteCodec Lib.Merkle Lib Failure Ends Nat
open SimpleMemoryMerkleRecorderStore

/-! ## §1. Errors are returned.

Every step is a chain of checks that return an error; `Ends` carries what a step
that passed ensures to the steps after it. -/

/-- The failure is an error that is returned. -/
def Failure.Returned (failure : Failure) : Prop := failure ≠ .panic

theorem Failure.returned_error (message : String) : (error message).Returned := by
  unfold Returned
  simp

theorem require_ends {c : Prop} [Decidable c] (message : String) :
    Ends (fun _ => c) Returned (require c (error message)) :=
  require (returned_error message)

theorem requireWidth_ends (bytes : Bytes) (width : Nat) (what : String) :
    Ends (fun _ => bytes.length % width = 0) Returned (requireWidth bytes width what) := by
  apply (require_ends _).imp
  intro _ h
  rcases h with h | h
  · rw [h, List.length_nil, zero_mod]
  · exact h

theorem decodeDoubleIdNodeFfs_ends (bytes : Bytes) (width : Nat) :
    Ends (fun _ => True) Returned (decodeDoubleIdNodeFfs bytes width) := by
  exact (requireWidth_ends bytes width _).bind (fun _ _ => trivial)

theorem deserializeImtLeafFfsEntryV2_ends (data : Bytes) :
    Ends (fun _ => True) Returned (deserializeImtLeafFfsEntryV2 data) := by
  exact guard (returned_error _) (fun _ => trivial)

/-- The place of a node in the tree of its realm. -/
def localKey (height : Nat) (key : NodeKey) : NodeKey :=
  ⟨key.level - height, key.index % 2 ^ (key.level - height)⟩

theorem gutLocalKey_ends (key : NodeKey) (height realmId : Nat) :
    Ends (fun found => height ≤ key.level ∧
        key.index >>> (key.level - height) = realmId ∧ found = localKey height key)
      Returned (gutLocalKey key height realmId) := by
  apply (require_ends _).bind
  intro _ hlevel
  apply (require_ends _).bind
  intro _ hfits
  apply (require_ends _).bind
  intro _ hrealm
  show _ ∧ _ ∧ _
  by_cases hdeep : 64 ≤ key.level - height
  · -- a level that deep has only the index 0
    have hindex : key.index = 0 := hfits hdeep
    rw [if_pos hdeep] at hrealm
    rw [localKey, if_neg (by omega), if_pos hdeep, hindex, zero_shiftRight, zero_mod]
    exact ⟨hlevel, hrealm, rfl⟩
  · rw [if_neg hdeep] at hrealm
    refine ⟨hlevel, hrealm, ?_⟩
    rw [localKey]
    by_cases hroot : key.level - height = 0
    · rw [if_pos hroot, hroot, pow_zero, mod_one]
    · rw [if_neg hroot, if_neg hdeep, one_shiftLeft, and_two_pow_sub_one_eq_mod]

section
variable {Hash : Type} [Q256BitHash Hash] (order : IterOrder)
  (updates : PsyPreparedRealmBlockStateUpdates Hash)

omit [Q256BitHash Hash] in
theorem collectImtLeaves_ends : Ends (fun _ => True) Returned (collectImtLeaves updates) := by
  apply foldlM _ _ _ trivial
  intro imtLeaves chunk _
  exact (deserializeImtLeafFfsEntryV2_ends chunk).bind (fun _ _ => trivial)

theorem requireStateUpdateRecordCoverage_ends (updates : PsyPreparedRealmBlockStateUpdates Hash)
    (checkpointId : Nat) (changed : HashSet (Nat × Nat × Nat)) :
    Ends (fun _ => updates.updateGlobalUserTreeNodesFfs.length %
        QMS_FAST_SERIALIZER_ZERO_ID_NODE_SIZE = 0) Returned
      (requireStateUpdateRecordCoverage order updates checkpointId changed) := by
  apply (requireWidth_ends _ _ _).bind
  intro _ hwidth
  apply (requireWidth_ends _ _ _).bind
  intro _ _
  apply (requireWidth_ends _ _ _).bind
  intro _ _
  apply (requireWidth_ends _ _ _).bind
  intro _ _
  apply (requireWidth_ends _ _ _).bind
  intro _ _
  split
  next => exact hwidth
  next =>
    refine bind (q := fun _ => True) ((decodeDoubleIdNodeFfs_ends _ _).bind (fun _ _ => trivial)) ?_
    intro contractStateLeaves _
    apply (collectImtLeaves_ends updates).bind
    intro imtLeaves _
    apply (Ends.forM (fun _ _ => (require_ends _).imp (fun _ _ => trivial))).bind
    intro _ _
    refine bind (q := fun _ => True) ((decodeDoubleIdNodeFfs_ends _ _).bind (fun _ _ => trivial)) ?_
    intro userContractLeaves _
    exact (Ends.forM (fun _ _ => (require_ends _).imp (fun _ _ => trivial))).imp (fun _ _ => hwidth)

/-- The nodes of the global user tree in the update. -/
def declaredGutNodes : List (SimpleMerkleNode Hash) :=
  (chunksExact QMS_FAST_SERIALIZER_ZERO_ID_NODE_SIZE updates.updateGlobalUserTreeNodesFfs).map
    deserializeZeroIdNodeFromSlice

theorem gutNodes_eq {updates : PsyPreparedRealmBlockStateUpdates Hash}
    (hwidth : updates.updateGlobalUserTreeNodesFfs.length %
      QMS_FAST_SERIALIZER_ZERO_ID_NODE_SIZE = 0) :
    gutNodes updates = .ok (declaredGutNodes updates) := by
  unfold gutNodes
  split
  next hempty =>
    rw [declaredGutNodes, hempty]
    rfl
  next => exact if_neg (not_not.mpr hwidth)

end

/-! ## §2. The IMT records. -/

theorem requireSameIndex_ends (firstKeyIndex : HashMap (Nat × Nat × Bytes) Nat)
    (entry : ImtLeafFfsEntry) :
    Ends (fun _ => True) Returned (requireSameIndex firstKeyIndex entry) := by
  unfold requireSameIndex
  split
  next => exact guard (returned_error _) (fun _ => trivial)
  next => trivial

theorem requireSameKey_ends (first : HashMap (Nat × Nat × Nat) Bytes) (entry : ImtLeafFfsEntry) :
    Ends (fun _ => True) Returned (requireSameKey first entry) := by
  unfold requireSameKey
  split
  next =>
    apply guard (returned_error _)
    intro _
    exact guard (returned_error _) (fun _ => trivial)
  next => trivial

theorem checkFinalImtRecord_ends (finals : HashMap (Nat × Nat × Nat) (Bytes × Bytes × Nat))
    (record : (_ : Nat × Nat × Nat) × (Bytes × Bytes × Nat)) :
    Ends (fun _ => True) Returned (checkFinalImtRecord finals record) := by
  unfold checkFinalImtRecord
  dsimp only
  split
  next => exact (require_ends _).imp (fun _ _ => trivial)
  next =>
    split
    next => trivial
    next =>
      apply (require_ends _).bind
      intro _ _
      exact (require_ends _).imp (fun _ _ => trivial)

theorem finalImtRecords_ends (chunks : List Bytes) :
    Ends (fun _ => True) Returned (finalImtRecords chunks) := by
  apply foldlM _ _ _ trivial
  intro finals chunk _
  exact (deserializeImtLeafFfsEntryV2_ends chunk).bind (fun _ _ => trivial)

theorem requireImtLeafFfsConsistency_ends (F Hash : Type) [QFelt64 F] [HashTo4Felts F Hash]
    [FieldQHasher F Hash] [Q256BitHash Hash] (order : IterOrder) (bytes : Bytes) :
    Ends (fun _ => True) Returned (requireImtLeafFfsConsistency F Hash order bytes) := by
  apply (requireWidth_ends _ _ _).bind
  intro _ _
  have hhistory : Ends (fun _ => True) Returned
      ((chunksExact IMT_LEAF_FFS_ENTRY_SIZE_V2 bytes).reverse.foldlM
        (checkImtRecord F Hash) ⟨∅, ∅⟩) := by
    apply foldlM _ _ _ trivial
    intro seen chunk _
    apply (deserializeImtLeafFfsEntryV2_ends chunk).bind
    intro entry _
    apply (require_ends _).bind
    intro _ _
    apply (requireSameIndex_ends _ entry).bind
    intro firstKeyIndex _
    exact (requireSameKey_ends _ entry).bind (fun _ _ => trivial)
  apply hhistory.bind
  intro _ _
  apply (finalImtRecords_ends _).bind
  intro finals _
  exact forM (fun record _ => checkFinalImtRecord_ends finals record)

/-! ## §3. The tree. -/

theorem HashMap.forall_insert {K V : Type} [DecidableEq K] {Q : K → V → Prop} {map : HashMap K V}
    (hmap : ∀ k v, map.lookup k = some v → Q k v) {key : K} {value : V} (hkey : Q key value) :
    ∀ k v, (map.insert key value).lookup k = some v → Q k v := by
  intro k v hlookup
  by_cases hk : k = key
  · subst hk
    rw [AList.lookup_insert] at hlookup
    cases hlookup
    exact hkey
  · rw [AList.lookup_insert_ne hk] at hlookup
    exact hmap k v hlookup

section
variable {Hash : Type}

/-- Entries with different keys, written in any order. -/
theorem foldl_update_entries {leaves : List ((_ : Nat) × Hash)} (hnodup : leaves.NodupKeys)
    (leaf : Nat → Hash) (j : Nat) :
    leaves.foldl (fun leaf entry => Function.update leaf entry.1 entry.2) leaf j =
      (leaves.dlookup j).getD (leaf j) := by
  induction leaves generalizing leaf j with
  | nil => rfl
  | cons entry leaves ih =>
    obtain ⟨k, value⟩ := entry
    obtain ⟨hk, hnodup⟩ := List.nodupKeys_cons.mp hnodup
    rw [List.foldl_cons, ih hnodup]
    by_cases hj : j = k
    · subst hj
      rw [List.dlookup_eq_none.mpr hk, List.dlookup_cons_eq, Function.update_self]
      rfl
    · rw [List.dlookup_cons_ne _ _ hj, Function.update_of_ne hj]

/-- The leaves that are written lie in the realm tree. -/
theorem collectLastLeaf_ends (height h realmId : Nat) (nodes : List (SimpleMerkleNode Hash)) :
    Ends (fun lastLeaf => ∀ index (value : Hash), lastLeaf.lookup index = some value →
        index < 2 ^ h)
      Returned (collectLastLeaf height h realmId nodes) := by
  apply foldlM
  · intro lastLeaf node hlast
    apply (gutLocalKey_ends node.key height realmId).bind
    intro key hkey
    obtain ⟨_, _, rfl⟩ := hkey
    split
    next hlevel =>
      refine HashMap.forall_insert hlast ?_
      rw [← hlevel]
      exact mod_lt _ (Nat.two_pow_pos _)
    next => exact hlast
  · intro index value hlookup
    cases hlookup

variable [MerkleZeroHasher Hash] {tree : RecorderStore Hash}

/-- A place below the leaves of the tree, where it holds nothing. -/
def Below (tree : RecorderStore Hash) (key : NodeKey) : Prop :=
  tree.updatedNodes key = none ∧ tree.nodes key = none ∧ tree.height < key.level

/-- Elsewhere a node is read without a failed assertion. -/
theorem readNode_of_not_below {key : NodeKey} (h : ¬ Below tree key) :
    readNode tree key = .ok (tree.getNodeValue key) := if_neg h

theorem readNode_of_le {key : NodeKey} (hlevel : key.level ≤ tree.height) :
    readNode tree key = .ok (tree.getNodeValue key) :=
  readNode_of_not_below (fun h => absurd h.2.2 (not_lt.mpr hlevel))

variable [DecidableEq Hash]

theorem requireGutNode_ends {height realmId : Nat} {node : SimpleMerkleNode Hash}
    (hbelow : ¬ Below tree (localKey height node.key)) :
    Ends (fun _ => height ≤ node.key.level ∧
        node.key.index >>> (node.key.level - height) = realmId ∧
        tree.getNodeValue (localKey height node.key) = node.value)
      Returned (requireGutNode tree height realmId node) := by
  apply (gutLocalKey_ends node.key height realmId).bind
  intro key hkey
  obtain ⟨hlevel, hrealm, rfl⟩ := hkey
  rw [readNode_of_not_below hbelow]
  apply (require_ends _).imp
  intro _ hfound
  exact ⟨hlevel, hrealm, hfound⟩

variable (tree) in
/-- The comparison of the declared nodes comes to one that lies below the leaves: those before it
are nodes of the tree. -/
def ComesBelow (height : Nat) (nodes : List (SimpleMerkleNode Hash)) : Prop :=
  ∃ before node after, nodes = before ++ node :: after ∧ Below tree (localKey height node.key) ∧
    ∀ earlier ∈ before, ¬ Below tree (localKey height earlier.key) ∧
      tree.getNodeValue (localKey height earlier.key) = earlier.value

theorem requireGutNodes_ends {height realmId : Nat} {nodes : List (SimpleMerkleNode Hash)}
    (h : ¬ ComesBelow tree height nodes) :
    Ends (fun _ => ∀ node ∈ nodes, height ≤ node.key.level ∧
        node.key.index >>> (node.key.level - height) = realmId ∧
        tree.getNodeValue (localKey height node.key) = node.value)
      Returned (nodes.forM (requireGutNode tree height realmId)) := by
  induction nodes with
  | nil => intro node hnode; cases hnode
  | cons node nodes ih =>
    have hbelow : ¬ Below tree (localKey height node.key) :=
      fun hdeep => h ⟨[], node, nodes, rfl, hdeep, by simp⟩
    show Ends _ _ (requireGutNode tree height realmId node >>= fun _ => _)
    apply (requireGutNode_ends hbelow).bind
    intro _ hnode
    apply (ih ?_).imp
    · intro _ hnodes
      exact List.forall_mem_cons.mpr ⟨hnode, hnodes⟩
    · rintro ⟨before, deep, after, rfl, hdeep, hbefore⟩
      exact h ⟨node :: before, deep, after, rfl, hdeep,
        List.forall_mem_cons.mpr ⟨⟨hbelow, hnode.2.2⟩, hbefore⟩⟩

/-- The assertion fails at a node of the realm that lies below the leaves. -/
theorem requireGutNodes_panic {height realmId : Nat} {nodes : List (SimpleMerkleNode Hash)}
    (hkeys : ∀ node ∈ nodes, gutLocalKey node.key height realmId = .ok (localKey height node.key))
    (h : ComesBelow tree height nodes) :
    nodes.forM (requireGutNode tree height realmId) = .error .panic := by
  obtain ⟨before, node, after, rfl, hdeep, hbefore⟩ := h
  have hpass : before.forM (requireGutNode tree height realmId) = .ok () := by
    rw [forM_eq_ok]
    intro earlier hearlier
    obtain ⟨hread, hvalue⟩ := hbefore earlier hearlier
    rw [requireGutNode, hkeys earlier (List.mem_append_left _ hearlier)]
    show (readNode tree _ >>= _) = _
    rw [readNode_of_not_below hread]
    exact require_eq_ok.mpr hvalue
  have hfail : requireGutNode tree height realmId node = .error .panic := by
    rw [requireGutNode, hkeys node (by simp)]
    show (readNode tree _ >>= _) = _
    rw [show readNode tree (localKey height node.key) = .error .panic from if_pos hdeep]
    rfl
  show forM (before ++ node :: after) (requireGutNode tree height realmId) = _
  rw [List.forM_append]
  show (before.forM (requireGutNode tree height realmId) >>= _) = _
  rw [hpass]
  show (requireGutNode tree height realmId node >>= _) = _
  rw [hfail]
  rfl

section
variable (leaves : List ((_ : Nat) × Hash))

theorem height_setLeaves (tree : RecorderStore Hash) :
    (setLeaves leaves tree).height = tree.height := by
  induction leaves generalizing tree with
  | nil => rfl
  | cons leaf leaves ih =>
    show (setLeaves leaves (tree.setLeaf leaf.1 leaf.2).1).height = _
    rw [ih, height_setLeaf]

theorem getLeafValue_setLeaves (tree : RecorderStore Hash) : (setLeaves leaves tree).getLeafValue =
      leaves.foldl (fun leaf entry => Function.update leaf entry.1 entry.2) tree.getLeafValue := by
  induction leaves generalizing tree with
  | nil => rfl
  | cons leaf leaves ih =>
    show (setLeaves leaves (tree.setLeaf leaf.1 leaf.2).1).getLeafValue = _
    rw [ih, getLeafValue_setLeaf]
    rfl

/-- A leaf that changed was written. -/
theorem lookup_of_getLeafValue_ne {order : IterOrder} {lastLeaf : HashMap Nat Hash} {index : Nat}
    (hne : (setLeaves (order.iterate lastLeaf.entries) tree).getLeafValue index ≠
      tree.getLeafValue index) : lastLeaf.lookup index =
      some ((setLeaves (order.iterate lastLeaf.entries) tree).getLeafValue index) := by
  have hperm := order.perm lastLeaf.entries
  have hnodup : (order.iterate lastLeaf.entries).NodupKeys :=
    (List.perm_nodupKeys hperm).mpr lastLeaf.nodupKeys
  have hread : (setLeaves (order.iterate lastLeaf.entries) tree).getLeafValue index =
      (lastLeaf.lookup index).getD (tree.getLeafValue index) := by
    rw [getLeafValue_setLeaves, foldl_update_entries hnodup, List.perm_dlookup index hnodup hperm]
    rfl
  rw [hread] at hne ⊢
  cases hlookup : lastLeaf.lookup index with
  | none =>
    rw [hlookup] at hne
    exact absurd rfl hne
  | some value => rfl

end

variable {F : Type} [QFelt64 F] [HashTo4Felts F Hash] [FieldQHasher F Hash]

/-! ## §4. What a replay guarantees. -/

/-- The first user of a realm leaves room for all users of the realm. -/
theorem addU64_ends {realmId h index : Nat} (hh : h < 64) (hindex : index < 2 ^ h) :
    Ends (fun userId => userId = (realmId <<< h) % 2 ^ 64 + index) Returned
      (addU64 ((realmId <<< h) % 2 ^ 64) index) := by
  have hsplit : 2 ^ 64 = 2 ^ (64 - h) * 2 ^ h := by rw [← pow_add, Nat.sub_add_cancel hh.le]
  have hlow : (realmId <<< h) % 2 ^ 64 = realmId % 2 ^ (64 - h) * 2 ^ h := by
    rw [shiftLeft_eq, hsplit, mul_mod_mul_right]
  have hrealm : realmId % 2 ^ (64 - h) + 1 ≤ 2 ^ (64 - h) :=
    mod_lt _ (Nat.two_pow_pos _)
  have hfits : (realmId <<< h) % 2 ^ 64 + index < 2 ^ 64 :=
    calc (realmId <<< h) % 2 ^ 64 + index < realmId % 2 ^ (64 - h) * 2 ^ h + 2 ^ h := by omega
      _ = (realmId % 2 ^ (64 - h) + 1) * 2 ^ h := by ring
      _ ≤ 2 ^ (64 - h) * 2 ^ h := Nat.mul_le_mul_right _ hrealm
      _ = 2 ^ 64 := hsplit.symm
  unfold addU64
  rw [if_pos hfits]
  rfl

theorem requirePreimage_ends {realmId h : Nat} (hh : h < 64)
    (lastUser : HashMap Nat (PQEDUserLeaf F Hash)) {leaf : (_ : Nat) × Hash}
    (hindex : leaf.1 < 2 ^ h) : Ends (fun _ => tree.getLeafValue leaf.1 ≠ leaf.2 →
        ∃ preimage, lastUser.lookup ((realmId <<< h) % 2 ^ 64 + leaf.1) = some preimage ∧
          preimage.qfhash = leaf.2)
      Returned (requirePreimage tree ((realmId <<< h) % 2 ^ 64) lastUser leaf) := by
  unfold requirePreimage
  rw [readNode_of_le (le_refl tree.height)]
  show Ends _ _ (if tree.getLeafValue leaf.1 = leaf.2 then _ else _)
  split
  next hsame =>
    intro hne
    exact absurd hsame hne
  next =>
    apply (addU64_ends hh hindex).bind
    intro userId huser
    subst huser
    split
    next => exact returned_error _
    next preimage hlookup =>
      apply (require_ends _).imp
      intro _ hbinds _
      exact ⟨preimage, hlookup, hbinds⟩

theorem requireUserLeaf_ends (tree : RecorderStore Hash) (minUserId realmId : Nat)
    (user : (_ : Nat) × PQEDUserLeaf F Hash) :
    Ends (fun _ => True) Returned (requireUserLeaf tree minUserId realmId user) := by
  apply (require_ends _).bind
  intro _ _
  rw [readNode_of_le (le_refl tree.height)]
  exact (require_ends _).imp (fun _ _ => trivial)

end

section
variable {F Hash : Type} [QFelt64 F] [Q256BitHash Hash]

variable (updates : PsyPreparedRealmBlockStateUpdates Hash)

/-- A preimage that is declared. -/
def DeclaredUser (userId : Nat) (preimage : PQEDUserLeaf F Hash) : Prop :=
  toU64Value preimage.userId = userId ∧
    ∃ chunk ∈ chunksExact PSY_OBJECT_FFS_SIZE_USER_LEAF updates.updateUserLeavesFfs,
      userLeafFromSlice chunk = .ok preimage

theorem collectLastUser_ends : Ends (fun lastUser => ∀ userId (preimage : PQEDUserLeaf F Hash),
        lastUser.lookup userId = some preimage → DeclaredUser updates userId preimage)
      Returned (collectLastUser updates) := by
  apply foldlM_mem
  · intro lastUser chunk hchunk hlast
    have hends : Ends (fun _ => True) Returned
        (userLeafFromSlice chunk : Outcome (PQEDUserLeaf F Hash)) :=
      guard (returned_error _) (fun _ => trivial)
    apply hends.eq_ok.bind
    intro leaf hleaf
    exact HashMap.forall_insert hlast ⟨rfl, chunk, hchunk, hleaf.1⟩
  · intro userId preimage h
    cases h

variable [MerkleZeroHasher Hash] [DecidableEq Hash] [HashTo4Felts F Hash] [FieldQHasher F Hash]

variable (F) in
/-- **WHAT A REPLAY THAT RETURNED GUARANTEES** of the tree before and after it. -/
structure Replayed (updates : PsyPreparedRealmBlockStateUpdates Hash)
    (coordinatorHeight realmUserTreeHeight realmId : Nat)
    (tree tree' : RecorderStore Hash) : Prop where
  root : tree'.getRoot = updates.newRealmRoot
  node : ∀ node ∈ declaredGutNodes updates, coordinatorHeight ≤ node.key.level ∧
    node.key.index >>> (node.key.level - coordinatorHeight) = realmId ∧
    tree'.getNodeValue (localKey coordinatorHeight node.key) = node.value
  leaf : ∀ index, tree'.getLeafValue index ≠ tree.getLeafValue index →
    ∃ preimage : PQEDUserLeaf F Hash,
      DeclaredUser updates ((realmId <<< realmUserTreeHeight) % 2 ^ 64 + index) preimage ∧
        preimage.qfhash = tree'.getLeafValue index

section
variable (order : IterOrder) (tree : RecorderStore Hash)
  (updates : PsyPreparedRealmBlockStateUpdates Hash)
  (coordinatorHeight realmUserTreeHeight realmId checkpointId : Nat)
  (changed : HashSet (Nat × Nat × Nat))

variable (F) in
/-- **THE REPLAY COMES TO A NODE BELOW THE LEAVES**: the checks before it pass, and so do the
comparisons of the declared nodes before it with the tree that has the declared leaves. -/
structure ReachesBelow : Prop where
  coverage : requireStateUpdateRecordCoverage order updates checkpointId changed = .ok ()
  root : tree.getRoot = updates.oldRealmRoot
  leaves : ∃ (lastUser : HashMap Nat (PQEDUserLeaf F Hash)) (lastLeaf : HashMap Nat Hash),
    collectLastUser updates = .ok lastUser ∧
    collectLastLeaf coordinatorHeight realmUserTreeHeight realmId (declaredGutNodes updates) =
      .ok lastLeaf ∧
    (∀ leaf ∈ lastLeaf.entries, requirePreimage tree ((realmId <<< realmUserTreeHeight) % 2 ^ 64)
      lastUser leaf = .ok ()) ∧
    ComesBelow (setLeaves (order.iterate lastLeaf.entries) tree) coordinatorHeight
      (declaredGutNodes updates)

variable {order tree updates coordinatorHeight realmUserTreeHeight realmId checkpointId changed}
  (hsmall : realmUserTreeHeight < 64)
include hsmall

theorem shlU64_eq : shlU64 realmId realmUserTreeHeight =
    .ok ((realmId <<< realmUserTreeHeight) % 2 ^ 64) := if_pos hsmall

/-- There it panics. -/
theorem ReachesBelow.panic (h : ReachesBelow F order tree updates coordinatorHeight
      realmUserTreeHeight realmId checkpointId changed) :
    replayStateUpdatesIntoTree F order tree updates coordinatorHeight realmUserTreeHeight realmId
      checkpointId changed = .error .panic := by
  obtain ⟨hcoverage, hroot, lastUser, lastLeaf, hlastUser, hlastLeaf, hpreimage, hbelow⟩ := h
  have hwidth := (requireStateUpdateRecordCoverage_ends order updates checkpointId changed).of_ok
    hcoverage
  have hkeys : ∀ node ∈ declaredGutNodes updates, gutLocalKey node.key coordinatorHeight realmId =
      .ok (localKey coordinatorHeight node.key) := by
    intro node hnode
    obtain ⟨_, _, hstep⟩ := exists_of_foldlM_eq_ok hlastLeaf node hnode
    obtain ⟨key, hkey, _⟩ := bind_eq_ok.mp hstep
    obtain ⟨_, _, rfl⟩ := (gutLocalKey_ends _ _ _).of_ok hkey
    exact hkey
  have hpreimages : (order.iterate lastLeaf.entries).forM (requirePreimage tree
      ((realmId <<< realmUserTreeHeight) % 2 ^ 64) lastUser) = .ok () :=
    forM_eq_ok.mpr (fun leaf hleaf => hpreimage leaf ((order.perm _).mem_iff.mp hleaf))
  rw [replayStateUpdatesIntoTree, hcoverage]
  show (require _ _ >>= _) = _
  rw [(require_eq_ok (u := ())).mpr hroot]
  show (gutNodes updates >>= _) = _
  rw [gutNodes_eq hwidth]
  show (shlU64 realmId realmUserTreeHeight >>= _) = _
  rw [shlU64_eq hsmall]
  show (collectLastUser updates >>= _) = _
  rw [hlastUser]
  show (collectLastLeaf _ _ _ _ >>= _) = _
  rw [hlastLeaf]
  show (List.forM (order.iterate lastLeaf.entries) (requirePreimage tree _ lastUser) >>= _) = _
  rw [hpreimages]
  show (List.forM (declaredGutNodes updates) (requireGutNode _ _ _) >>= _) = _
  rw [requireGutNodes_panic hkeys hbelow]
  rfl

/-- Otherwise it returns, and what it accepts is right. -/
theorem replayStateUpdatesIntoTree_ends
    (h : ¬ ReachesBelow F order tree updates coordinatorHeight realmUserTreeHeight realmId
      checkpointId changed) :
    Ends (Replayed F updates coordinatorHeight realmUserTreeHeight realmId tree) Returned
      (replayStateUpdatesIntoTree F order tree updates coordinatorHeight realmUserTreeHeight realmId
        checkpointId changed) := by
  apply (requireStateUpdateRecordCoverage_ends order updates checkpointId changed).eq_ok.bind
  rintro ⟨⟩ ⟨hcoverage, hwidth⟩
  apply (require_ends _).bind
  intro _ hold
  rw [gutNodes_eq hwidth, shlU64_eq hsmall]
  apply (collectLastUser_ends updates).eq_ok.bind
  rintro lastUser ⟨husers, hlastUser⟩
  apply (collectLastLeaf_ends coordinatorHeight realmUserTreeHeight realmId _).eq_ok.bind
  rintro lastLeaf ⟨hleaves, hlastLeaf⟩
  -- an entry of the map is found under its key, so its index is one of the realm tree
  have hentry : ∀ leaf ∈ order.iterate lastLeaf.entries, leaf.1 < 2 ^ realmUserTreeHeight := by
    intro leaf hleaf
    have hmem := (order.perm lastLeaf.entries).mem_iff.mp hleaf
    exact hlastLeaf leaf.1 leaf.2 (AList.mem_lookup_iff.mpr hmem)
  apply (forM_mem (fun leaf hleaf =>
    requirePreimage_ends hsmall lastUser (hentry leaf hleaf))).eq_ok.bind
  rintro ⟨⟩ ⟨hpass, hpreimage⟩
  have hcomes : ¬ ComesBelow (setLeaves (order.iterate lastLeaf.entries) tree) coordinatorHeight
      (declaredGutNodes updates) := by
    intro hcomes
    refine h ⟨hcoverage, hold, lastUser, lastLeaf, husers, hleaves, ?_, hcomes⟩
    intro leaf hleaf
    exact forM_eq_ok.mp hpass leaf ((order.perm _).mem_iff.mpr hleaf)
  apply (requireGutNodes_ends hcomes).bind
  intro _ hnode
  apply (Ends.forM (fun user _ => requireUserLeaf_ends _ _ realmId user)).bind
  intro _ _
  apply (requireImtLeafFfsConsistency_ends F Hash order _).bind
  intro _ _
  apply (require_ends _).bind
  intro _ hroot
  refine ⟨hroot, hnode, ?_⟩
  intro index hne
  have hlookup := lookup_of_getLeafValue_ne hne
  have hmem := (order.perm lastLeaf.entries).mem_iff.mpr (AList.mem_lookup_iff.mp hlookup)
  obtain ⟨preimage, hfound, hbinds⟩ := hpreimage _ hmem (Ne.symm hne)
  exact ⟨preimage, hlastUser _ preimage hfound, hbinds⟩

end

/-- **WHEN A REPLAY IS SAFE.**  Whatever the bytes, it does not panic, and root, declared nodes and
changed leaves are bound when it returns, exactly if it does not come to a declared node below
the leaves of the realm tree. -/
theorem baseline_replay_sound_iff (order : IterOrder) (tree : SimpleMemoryMerkleRecorderStore Hash)
    (updates : PsyPreparedRealmBlockStateUpdates Hash)
    (coordinatorHeight realmUserTreeHeight realmId checkpointId : Nat)
    (changed : HashSet (Nat × Nat × Nat)) (hsmall : realmUserTreeHeight < 64) :
    (replayStateUpdatesIntoTree F order tree updates coordinatorHeight realmUserTreeHeight realmId
        checkpointId changed ≠ .error .panic ∧
      ∀ tree', replayStateUpdatesIntoTree F order tree updates coordinatorHeight
          realmUserTreeHeight realmId checkpointId changed = .ok tree' →
        Replayed F updates coordinatorHeight realmUserTreeHeight realmId tree tree') ↔
    ¬ ReachesBelow F order tree updates coordinatorHeight realmUserTreeHeight realmId checkpointId
      changed := by
  constructor
  · rintro ⟨hreturns, _⟩ hreaches
    exact hreturns (hreaches.panic hsmall)
  · intro hreaches
    have hends := replayStateUpdatesIntoTree_ends hsmall hreaches
    exact ⟨fun hpanic => hends.of_error hpanic rfl, fun tree' hok => hends.of_ok hok⟩

end

/-! ## §5. A node below the leaves. -/

instance : Q256BitHash SymHash where
  fromOwned32Bytes bytes := if bytes.all (· == 0) then .zero else .leaf (ofLeBytes bytes)
  intoOwned32Bytes
    | .leaf n => Lib.leBytes 32 n
    | _ => List.replicate 32 0

/-- An update of an empty realm tree of height 1: one node, of index 0, with the zero hash. -/
def sampleUpdates (level : UInt8) : PsyPreparedRealmBlockStateUpdates SymHash where
  oldRealmRoot := (new 1).getRoot
  newRealmRoot := (new 1).getRoot
  updateGlobalUserTreeNodesFfs := level :: List.replicate 40 0
  updateUserContractTreeNodesFfs := []
  updateContractStateTreeNodesFfs := []
  updateUserLeavesFfs := []
  updateContractStateImtLeavesFfs := []

theorem sampleUpdates_level :
    ∀ node ∈ declaredGutNodes (sampleUpdates 2), node.key.level ≤ 1 + 1 := by
  intro node hnode
  have hmem : node.key.level ∈ (declaredGutNodes (sampleUpdates 2)).map (·.key.level) :=
    List.mem_map_of_mem hnode
  have hlevel : node.key.level = 2 := List.mem_singleton.mp hmem
  omega

/-- The declared leaf is accepted; a node below it is never compared if the tree is not the one
that the update starts from. -/
theorem baseline_replay_sound_leaf :
    (∃ tree', replayStateUpdatesIntoTree Nat .asStored (.new 1) (sampleUpdates 2) 1 1 0 1 ∅ =
        .ok tree' ∧ Replayed Nat (sampleUpdates 2) 1 1 0 (.new 1) tree') ∧
      replayStateUpdatesIntoTree Nat .asStored (.new 1)
        { sampleUpdates 3 with oldRealmRoot := .zero } 1 1 0 1 ∅ ≠ .error .panic := by
  constructor
  · refine ⟨_, rfl, ((baseline_replay_sound_iff .asStored (.new 1) (sampleUpdates 2) 1 1 0 1 ∅
      (by decide)).mpr ?_).2 _ rfl⟩
    intro hreaches
    obtain ⟨_, _, _, _, _, before, node, after, hnodes, hbelow, _⟩ := hreaches.leaves
    have hlevel := sampleUpdates_level node (hnodes ▸ List.mem_append_right _ List.mem_cons_self)
    have hdeep := hbelow.2.2
    rw [height_setLeaves] at hdeep
    have hdeep : 1 < node.key.level - 1 := hdeep
    omega
  · refine ((baseline_replay_sound_iff .asStored (.new 1) { sampleUpdates 3 with
      oldRealmRoot := .zero } 1 1 0 1 ∅ (by decide)).mpr ?_).1
    intro hreaches
    exact absurd hreaches.root (by decide)

/-- The node at level 3 belongs to realm 0, and the tree of realm 0 has no such level. -/
theorem baseline_replay_panics :
    (new 1 : SimpleMemoryMerkleRecorderStore SymHash).height = 1 ∧
      replayStateUpdatesIntoTree Nat .asStored (.new 1) (sampleUpdates 3) 1 1 0 1 ∅ =
        .error .panic := by
  constructor
  · rfl
  · rfl

end PsyNode.Ffs
