/-
PsyNode.Store.IndexedTree
**THE INDEXED MERKLE TREE** — `IndexedMerkleTree` of `indexed_merkle_tree.rs`:
an append-only Merkle tree whose leaves form a linked list in key order, so
that a missing key is shown by the leaf before the gap.

Three things are updated separately and must agree: the sorted key index, the
leaf data by slot, and the Merkle tree over the leaf hashes.  `Indexed` says
how; `Lib.SortedChain` carries the linked list through an insertion.

A call returns its result together with the state it leaves, so that what a
failing call leaves behind can be stated.
-/
import PsyNode.Lib.SortedChain
import PsyNode.Merkle.Felt
import PsyNode.Store.V3

namespace PsyNode.Store

open Merkle Lib.Merkle Lib.SortedChain Lib List Function SimpleMemoryMerkleStoreV3

/-! ## §1. The tree. -/

/-- A leaf: its key and value, and the next larger key with its index. -/
structure IMTLeafPreimage (F Hash : Type) where
  key : Hash
  value : Hash
  nextKey : Hash
  nextIndex : F
deriving DecidableEq

/-- What an insert changed: the predecessor, then the new leaf. -/
structure IMTInsertResult (F Hash : Type) where
  predecessorProof : DeltaMerkleProofCore Hash
  newLeafProof : DeltaMerkleProofCore Hash
  newLeaf : IMTLeafPreimage F Hash
  updatedPredecessor : IMTLeafPreimage F Hash
  predecessorIndex : Nat
  newLeafIndex : Nat
  modifiedNodes : List (NodeKey × Hash)

/-- What an update of a present key changed. -/
structure IMTUpdateResult (F Hash : Type) where
  leafProof : DeltaMerkleProofCore Hash
  updatedLeaf : IMTLeafPreimage F Hash
  leafIndex : Nat
  modifiedNodes : List (NodeKey × Hash)

/-- An upsert inserts or updates. -/
inductive IMTUpsertResult (F Hash : Type)
  | inserted (result : IMTInsertResult F Hash)
  | updated (result : IMTUpdateResult F Hash)

variable {F Hash : Type} [QFelt64 F] [HashTo4Felts F Hash]

instance : Inhabited (IMTLeafPreimage F Hash) :=
  ⟨⟨default, default, default, 0⟩⟩

def IMTLeafPreimage.computeHash [FieldQHasher F Hash] (leaf : IMTLeafPreimage F Hash) : Hash :=
  qHashMany ((List.finRange 4).map (to4Felts leaf.key) ++
    (List.finRange 4).map (to4Felts leaf.value) ++
    (List.finRange 4).map (to4Felts leaf.nextKey) ++ [leaf.nextIndex])

/-- The tree, the preimages of its leaves, and the index of each key in key order. -/
@[ext]
structure IndexedMerkleTree (F Hash : Type) [QFelt64 F] [HashTo4Felts F Hash] where
  tree : StoreV3 Hash
  leaves : Nat → Option (IMTLeafPreimage F Hash)
  keyIndex : SortedMap (@toSortKey Hash F _ _) Nat
  nextAppendIndex : Nat

namespace IndexedMerkleTree

variable [MerkleZeroHasher Hash] [FieldQHasher F Hash] (st : IndexedMerkleTree F Hash)

def getRoot : Hash := st.tree.getRoot

/-- The leaf with the largest key below `targetKey`. -/
def findPredecessor (targetKey : Hash) : Except String (Nat × IMTLeafPreimage F Hash) :=
  match st.keyIndex.lastBelow targetKey with
  | none => .error "No predecessor found — this should not happen (sentinel exists)"
  | some (_, predIndex) =>
    match st.leaves predIndex with
    | none => .error s!"Predecessor leaf not found at index {predIndex}"
    | some predLeaf => .ok (predIndex, predLeaf)

/-- The leaf of a present key, with its path. -/
def getMembershipProof (key : Hash) : Option (IMTLeafPreimage F Hash × MerkleProofCore Hash) := do
  let leafIndex ← st.keyIndex.get? key
  let preimage ← st.leaves leafIndex
  return (preimage, st.tree.getLeaf leafIndex)

/-- For an absent key, the leaf that steps over it. -/
def getNonMembershipProof (key : Hash) :
    Except String (IMTLeafPreimage F Hash × MerkleProofCore Hash) :=
  if (st.keyIndex.get? key).isSome then
    .error "Key exists in the IMT — cannot generate non-membership proof"
  else do
    let (predIndex, predLeaf) ← st.findPredecessor key
    return (predLeaf, st.tree.getLeaf predIndex)

/-- `collect_path_nodes`: the nodes from a leaf to the root, leaf first. -/
def collectPathNodes (tree : StoreV3 Hash) (leafIndex : Nat) : List (NodeKey × Hash) :=
  go tree.height ⟨tree.height, leafIndex⟩
where
  go : Nat → NodeKey → List (NodeKey × Hash)
  | 0, current => [(current, tree.getNodeValue current)]
  | n + 1, current => (current, tree.getNodeValue current) :: go n current.parent

variable [DecidableEq Hash]

/-- `new`: slot 0 holds the sentinel. -/
def new (height : Nat) : IndexedMerkleTree F Hash where
  tree := (SimpleMemoryMerkleStoreV3.new height).setLeafNoProof 0
    (default : IMTLeafPreimage F Hash).computeHash
  leaves := update (fun _ => none) 0 (some default)
  keyIndex := SortedMap.single default 0
  nextAppendIndex := 1

/-- `insert`, with the state it leaves. -/
def insert (st : IndexedMerkleTree F Hash) (key value : Hash) :
    Except String (IMTInsertResult F Hash) × IndexedMerkleTree F Hash :=
  if (st.keyIndex.get? key).isSome then
    (.error "Key already exists in IMT — use update() instead", st)
  else
    match st.tree.getMaxLeafIndex with
    | .error e => (.error e, st)
    | .ok maxLeafIndex =>
      let newIndex := st.nextAppendIndex
      if newIndex > maxLeafIndex then (.error "IMT is full — cannot insert more leaves", st)
      else
        match st.findPredecessor key with
        | .error e => (.error e, st)
        | .ok (predIndex, predLeaf) =>
          let newLeaf : IMTLeafPreimage F Hash :=
            ⟨key, value, predLeaf.nextKey, predLeaf.nextIndex⟩
          let updatedPredecessor : IMTLeafPreimage F Hash :=
            ⟨predLeaf.key, predLeaf.value, key, fromU64Value newIndex⟩
          let (tree₁, predecessorProof) :=
            st.tree.setLeaf predIndex updatedPredecessor.computeHash
          let (tree₂, newLeafProof) := tree₁.setLeaf newIndex newLeaf.computeHash
          (.ok
            { predecessorProof := predecessorProof
              newLeafProof := newLeafProof
              newLeaf := newLeaf
              updatedPredecessor := updatedPredecessor
              predecessorIndex := predIndex
              newLeafIndex := newIndex
              modifiedNodes :=
                collectPathNodes tree₂ predIndex ++ collectPathNodes tree₂ newIndex },
           { tree := tree₂
             leaves := update (update st.leaves predIndex
               (some updatedPredecessor)) newIndex (some newLeaf)
             keyIndex := st.keyIndex.insert key newIndex
             nextAppendIndex := newIndex + 1 })

/-- `update`, with the state it leaves: only the value of the leaf changes. -/
def update (st : IndexedMerkleTree F Hash) (key newValue : Hash) :
    Except String (IMTUpdateResult F Hash) × IndexedMerkleTree F Hash :=
  match st.keyIndex.get? key with
  | none => (.error "Key not found in IMT — use insert() instead", st)
  | some leafIndex =>
    match st.leaves leafIndex with
    | none => (.error s!"Leaf preimage not found at index {leafIndex}", st)
    | some oldLeaf =>
      let updatedLeaf : IMTLeafPreimage F Hash :=
        ⟨oldLeaf.key, newValue, oldLeaf.nextKey, oldLeaf.nextIndex⟩
      let (tree', leafProof) := st.tree.setLeaf leafIndex updatedLeaf.computeHash
      (.ok
        { leafProof := leafProof
          updatedLeaf := updatedLeaf
          leafIndex := leafIndex
          modifiedNodes := collectPathNodes tree' leafIndex },
       { st with
         tree := tree'
         leaves := Function.update st.leaves leafIndex (some updatedLeaf) })

/-- `upsert`, with the state it leaves. -/
def upsert (st : IndexedMerkleTree F Hash) (key value : Hash) :
    Except String (IMTUpsertResult F Hash) × IndexedMerkleTree F Hash :=
  if (st.keyIndex.get? key).isSome then
    let (result, st') := st.update key value
    (result.map .updated, st')
  else
    let (result, st') := st.insert key value
    (result.map .inserted, st')

/-! ## §2. The invariant. -/

section
omit [MerkleZeroHasher Hash] [FieldQHasher F Hash] [DecidableEq Hash]

/-- The links of the stored leaves. -/
def cells (st : IndexedMerkleTree F Hash) : Nat → Option (Cell Hash) :=
  fun i => (st.leaves i).map (fun leaf => ⟨leaf.key, leaf.nextKey, toU64Value leaf.nextIndex⟩)

/-- The (key, slot) pairs met by following `next_index` from the sentinel. -/
def reachable (st : IndexedMerkleTree F Hash) : List (Hash × Nat) :=
  walk st.cells st.nextAppendIndex 0

end

omit [DecidableEq Hash] in
/-- **THE INVARIANT**: the key index lists the slots `0 … next_append_index - 1` in key
order, sentinel first; the leaves are linked in that order; and the Merkle tree is over the
hashes of the leaves. -/
structure Indexed (st : IndexedMerkleTree F Hash) : Prop where
  settled : st.tree.TreeSettled
  treeLeaf : ∀ i, st.tree.getLeafValue i =
    ((st.leaves i).map IMTLeafPreimage.computeHash).getD getZeroValue
  sentinel : ∃ rest, st.keyIndex.entries = (default, 0) :: rest
  slots : (st.keyIndex.entries.map Prod.snd).Perm (List.range st.nextAppendIndex)
  occupied : ∀ i, (st.leaves i).isSome ↔ i < st.nextAppendIndex
  fits : st.nextAppendIndex ≤ 2 ^ st.tree.height
  linked : Linked default st.cells st.keyIndex.entries

/-- A leaf write under a change of the leaf data in the same slot. -/
theorem treeLeaf_setLeaf {tree : StoreV3 Hash} {leaves : Nat → Option (IMTLeafPreimage F Hash)}
    (h : ∀ i, tree.getLeafValue i = ((leaves i).map IMTLeafPreimage.computeHash).getD getZeroValue)
    (index : Nat) (leaf : IMTLeafPreimage F Hash) (i : Nat) :
    (tree.setLeafNoProof index leaf.computeHash).getLeafValue i =
      ((Function.update leaves index (some leaf) i).map
        IMTLeafPreimage.computeHash).getD getZeroValue := by
  rw [getLeafValue_setLeafNoProof]
  by_cases hi : i = index
  · subst hi; rw [update_self, update_self]; rfl
  · rw [update_of_ne hi, update_of_ne hi, h]

theorem indexed_new (height : Nat) : Indexed (new height : IndexedMerkleTree F Hash) where
  settled := (SimpleMemoryMerkleStoreV3.treeSettled_new height).setLeafNoProof _ _
  treeLeaf := by
    refine treeLeaf_setLeaf (fun i => ?_) 0 default
    show (SimpleMemoryMerkleStoreV3.new height).table height i = _
    rw [table_new]
    show zeroAt twoToOne getZeroValue (height - height) = _
    rw [Nat.sub_self]
    rfl
  sentinel := ⟨[], rfl⟩
  slots := List.Perm.refl _
  occupied := by
    intro i
    by_cases hi : i = 0
    · subst hi; simp [new]
    · simp [new, hi]
  fits := Nat.one_le_two_pow
  linked := by
    refine ⟨?_, trivial⟩
    show some (Cell.mk (default : Hash) default (toU64Value (0 : F))) = _
    rw [toU64Value_zero]
    rfl

variable {key : Hash}

section
omit [DecidableEq Hash]
variable {st : IndexedMerkleTree F Hash}

theorem Indexed.nodup (h : Indexed st) : (st.keyIndex.entries.map Prod.snd).Nodup :=
  h.slots.nodup_iff.mpr nodup_range

theorem Indexed.mem_slots (h : Indexed st) {i : Nat} :
    i ∈ st.keyIndex.entries.map Prod.snd ↔ i < st.nextAppendIndex := by
  rw [h.slots.mem_iff, mem_range]

/-- The leaf of an entry of the key index. -/
theorem Indexed.leaf_of_entry (h : Indexed st) {lo hi : List (Hash × Nat)} {p : Hash × Nat}
    (hp : st.keyIndex.entries = lo ++ p :: hi) :
    ∃ leaf, st.leaves p.2 = some leaf ∧ leaf.key = p.1 ∧
      leaf.nextKey = (following default hi).1 ∧
      toU64Value leaf.nextIndex = (following default hi).2 := by
  have hcell := (hp ▸ h.linked).cell_eq
  obtain ⟨leaf, hleaf, hlink⟩ := Option.map_eq_some_iff.mp hcell
  injection hlink with hkey hnext hindex
  exact ⟨leaf, hleaf, hkey, hnext, hindex⟩

/-- **A NEW KEY HAS A PREDECESSOR**: some entry `p` below it, directly before the entries
above it, with its leaf stored. -/
theorem Indexed.exists_predecessor (h : Indexed st) (hkey : st.keyIndex.get? key = none)
    (slot : Nat) : ∃ lo p hi leaf, st.keyIndex.entries = lo ++ p :: hi ∧
      (st.keyIndex.insert key slot).entries = lo ++ p :: (key, slot) :: hi ∧
      st.findPredecessor key = .ok (p.2, leaf) ∧ st.leaves p.2 = some leaf ∧
      leaf.key = p.1 ∧ leaf.nextKey = (following default hi).1 ∧
      toU64Value leaf.nextIndex = (following default hi).2 ∧
      toSortKey F p.1 < toSortKey F key ∧ ∀ e ∈ hi, toSortKey F key < toSortKey F e.1 := by
  obtain ⟨lo, hi, hes, hins, hbelow, hlo, hhi⟩ := st.keyIndex.exists_split hkey slot
  obtain ⟨rest, hsent⟩ := h.sentinel
  -- the sentinel is below every other key, so something is below this one
  have hsmall : toSortKey F (default : Hash) < toSortKey F key :=
    lt_of_le_of_ne (toSortKey_default_le F key)
      (SortedMap.get?_eq_none.mp hkey (default, 0) (by rw [hsent]; exact mem_cons_self))
  have hne : lo ≠ [] := by
    intro hnil
    have hmem : ((default : Hash), 0) ∈ hi := by
      rw [hnil, nil_append] at hes
      rw [← hes, hsent]
      exact mem_cons_self
    exact absurd (hhi _ hmem) hsmall.asymm
  obtain ⟨lo, p, rfl⟩ := eq_nil_or_concat lo |>.resolve_left hne
  rw [concat_append] at hes hins
  rw [concat_eq_append] at hbelow hlo
  obtain ⟨leaf, hleaf, hk, hnk, hni⟩ := h.leaf_of_entry hes
  refine ⟨lo, p, hi, leaf, hes, hins, ?_, hleaf, hk, hnk, hni, hlo p (by simp), hhi⟩
  unfold findPredecessor
  rw [hbelow, getLast?_concat]
  simp only [hleaf]

end

/-! ## §3. The operations. -/

variable {st : IndexedMerkleTree F Hash} {value : Hash}

/-- The state of a successful insertion behind `predLeaf`. -/
def inserted (st : IndexedMerkleTree F Hash) (key value : Hash) (predIndex : Nat)
    (predLeaf : IMTLeafPreimage F Hash) : IndexedMerkleTree F Hash :=
  let newLeaf : IMTLeafPreimage F Hash := ⟨key, value, predLeaf.nextKey, predLeaf.nextIndex⟩
  let updatedPredecessor : IMTLeafPreimage F Hash :=
    ⟨predLeaf.key, predLeaf.value, key, fromU64Value st.nextAppendIndex⟩
  { tree := (st.tree.setLeafNoProof predIndex updatedPredecessor.computeHash).setLeafNoProof
      st.nextAppendIndex newLeaf.computeHash
    leaves := Function.update (Function.update st.leaves predIndex (some updatedPredecessor))
      st.nextAppendIndex (some newLeaf)
    keyIndex := st.keyIndex.insert key st.nextAppendIndex
    nextAppendIndex := st.nextAppendIndex + 1 }

/-- The state of a successful update of the leaf at `index`. -/
def updated (st : IndexedMerkleTree F Hash) (value : Hash) (index : Nat)
    (leaf : IMTLeafPreimage F Hash) : IndexedMerkleTree F Hash :=
  let updatedLeaf : IMTLeafPreimage F Hash := ⟨leaf.key, value, leaf.nextKey, leaf.nextIndex⟩
  { st with
    tree := st.tree.setLeafNoProof index updatedLeaf.computeHash
    leaves := Function.update st.leaves index (some updatedLeaf) }

variable (st) in
/-- What a successful call does. -/
inductive Moves : IndexedMerkleTree F Hash → Prop
  | inserted {key value : Hash} {predIndex : Nat} {predLeaf : IMTLeafPreimage F Hash}
      (hkey : st.keyIndex.get? key = none) (hsmall : st.nextAppendIndex < 2 ^ 63)
      (hroom : st.nextAppendIndex < 2 ^ st.tree.height)
      (hpred : st.findPredecessor key = .ok (predIndex, predLeaf)) :
      Moves (st.inserted key value predIndex predLeaf)
  | updated {value : Hash} {index : Nat} {leaf : IMTLeafPreimage F Hash}
      (hleaf : st.leaves index = some leaf) : Moves (st.updated value index leaf)

variable (st) in
/-- **ONE CALL**: it fails and leaves the state as it was, or it moves it. -/
def Moved {α : Type} : Except String α × IndexedMerkleTree F Hash → Prop
  | (.error _, st') => st' = st
  | (.ok _, st') => Moves st st'

theorem moved_insert : Moved st (st.insert key value) := by
  unfold insert
  split
  next => rfl
  next hkey =>
    cases hmax : st.tree.getMaxLeafIndex with
    | error _ => rfl
    | ok maxLeafIndex =>
      obtain ⟨hpow, hmax⟩ := getMaxLeafIndex_eq_ok hmax
      dsimp only
      split
      next => rfl
      next hfull =>
        cases hpred : st.findPredecessor key with
        | error _ => rfl
        | ok pred => exact .inserted (by simpa using hkey) (by omega) (by omega) hpred

theorem moved_update : Moved st (st.update key value) := by
  unfold update
  split
  next => rfl
  next index _ =>
    cases hleaf : st.leaves index with
    | none => rfl
    | some leaf => exact .updated hleaf

section
variable {α β : Type} {out : Except String α × IndexedMerkleTree F Hash} (h : Moved st out)
include h

theorem Moved.map (f : α → β) : Moved st (out.1.map f, out.2) := by
  obtain ⟨_ | _, st'⟩ := out <;> exact h

theorem Moved.error {e : String} (herror : out.1 = .error e) : out.2 = st := by
  obtain ⟨_ | _, st'⟩ := out
  · exact h
  · cases herror

theorem Moved.keeps {P : IndexedMerkleTree F Hash → Prop} (hst : P st)
    (hmoves : ∀ st', Moves st st' → P st') : P out.2 := by
  obtain ⟨_ | _, st'⟩ := out
  · rw [show st' = st from h]
    exact hst
  · exact hmoves st' h

end

/-- **INSERTION.**  A successful insertion keeps the invariant: the predecessor now
points at the new slot, and the new slot where the predecessor did. -/
theorem Indexed.inserted (hst : Indexed st) {predIndex : Nat} {predLeaf : IMTLeafPreimage F Hash}
    (hnone : st.keyIndex.get? key = none) (hsmall : st.nextAppendIndex < 2 ^ 63)
    (hroom : st.nextAppendIndex < 2 ^ st.tree.height)
    (hpred : st.findPredecessor key = .ok (predIndex, predLeaf)) :
    Indexed (st.inserted key value predIndex predLeaf) := by
  obtain ⟨lo, p, hi, leaf, hes, hins, hpred', hleaf, hk, hnk, hni, _, _⟩ :=
    hst.exists_predecessor hnone st.nextAppendIndex
  rw [hpred] at hpred'
  cases hpred'
  unfold IndexedMerkleTree.inserted
  have hfresh : st.nextAppendIndex ∉ (lo ++ p :: hi).map Prod.snd := by
    rw [← hes, hst.mem_slots]
    exact lt_irrefl _
  have hpslot : p.2 < st.nextAppendIndex :=
    hst.mem_slots.mp (mem_map_of_mem (by rw [hes]; simp))
  refine ⟨(hst.settled.setLeafNoProof _ _).setLeafNoProof _ _,
    treeLeaf_setLeaf (treeLeaf_setLeaf hst.treeLeaf _ _) _ _, ?_, ?_, ?_, ?_, ?_⟩
  · -- the sentinel stays first: the new key goes behind some entry
    obtain ⟨rest, hrest⟩ := hst.sentinel
    rw [hes] at hrest
    rw [hins]
    cases lo with
    | nil => exact ⟨(key, st.nextAppendIndex) :: hi, by rw [(cons.inj hrest).1]; rfl⟩
    | cons e lo => exact ⟨_, by rw [(cons.inj hrest).1]; rfl⟩
  · -- the slots of the key index gain the new slot
    have hslots := hst.slots
    rw [hes] at hslots
    rw [hins, range_succ]
    refine List.Perm.trans ?_ (List.Perm.append_right _ hslots)
    simp only [map_append, map_cons, append_assoc, cons_append]
    refine List.Perm.append_left _ (List.Perm.cons _ ?_)
    exact (perm_append_singleton _ _).symm
  · intro i
    dsimp only
    by_cases hi : i = st.nextAppendIndex
    · subst hi; simp
    · rw [update_of_ne hi]
      by_cases hip : i = p.2
      · subst hip; simp; omega
      · rw [update_of_ne hip, hst.occupied]
        omega
  · rw [setLeafNoProof_height, setLeafNoProof_height]
    exact hroom
  · rw [hins]
    refine (hes ▸ hst.linked).splice (hes ▸ hst.nodup) hfresh ?_ ?_ ?_
    · dsimp only [cells]
      rw [update_of_ne (by omega), update_self]
      show some (Cell.mk predLeaf.key key (toU64Value (fromU64Value st.nextAppendIndex : F))) = _
      rw [QFelt64.toU64Value_fromU64Value _ hsmall, hk]
    · dsimp only [cells]
      rw [update_self]
      show some (Cell.mk key predLeaf.nextKey (toU64Value predLeaf.nextIndex)) = _
      rw [hnk, hni]
    · intro i hip hi
      dsimp only [cells]
      rw [update_of_ne hi, update_of_ne hip]

/-- A successful update keeps the invariant: no link changes. -/
theorem Indexed.updated (hst : Indexed st) {index : Nat} {leaf : IMTLeafPreimage F Hash}
    (hleaf : st.leaves index = some leaf) : Indexed (st.updated value index leaf) := by
  unfold IndexedMerkleTree.updated
  refine ⟨hst.settled.setLeafNoProof _ _, treeLeaf_setLeaf hst.treeLeaf _ _, hst.sentinel,
    hst.slots, ?_, ?_, hst.linked.congr ?_⟩
  · intro i
    rw [← hst.occupied]
    by_cases hi : i = index
    · subst hi; simp [hleaf]
    · simp [update_of_ne hi]
  · rw [setLeafNoProof_height]
    exact hst.fits
  · intro e _
    dsimp only [cells]
    by_cases he : e.2 = index
    · rw [he, update_self, hleaf]
      rfl
    · rw [update_of_ne he]

/-! ## §4. Runs. -/

/-- The mutating calls. -/
inductive IMTOp (Hash : Type)
  | insert (key value : Hash)
  | update (key newValue : Hash)
  | upsert (key value : Hash)

/-- A call: whether it succeeded, and the state it leaves. -/
def IMTOp.call (st : IndexedMerkleTree F Hash) :
    IMTOp Hash → Except String Unit × IndexedMerkleTree F Hash
  | .insert key value => ((st.insert key value).1.map fun _ => (), (st.insert key value).2)
  | .update key newValue => ((st.update key newValue).1.map fun _ => (), (st.update key newValue).2)
  | .upsert key value => ((st.upsert key value).1.map fun _ => (), (st.upsert key value).2)

/-- The state after a sequence of calls, successful or failing. -/
def run (st : IndexedMerkleTree F Hash) (ops : List (IMTOp Hash)) : IndexedMerkleTree F Hash :=
  ops.foldl (fun st op => (op.call st).2) st

theorem moved_call (op : IMTOp Hash) : Moved st (op.call st) := by
  cases op with
  | insert key value => exact moved_insert.map _
  | update key value => exact moved_update.map _
  | upsert key value =>
    have hupsert : Moved st (st.upsert key value) := by
      unfold upsert
      split
      next => exact moved_update.map _
      next => exact moved_insert.map _
    exact hupsert.map _

/-- A call keeps the invariant. -/
theorem Indexed.call (hst : Indexed st) (op : IMTOp Hash) : Indexed (op.call st).2 := by
  refine (moved_call op).keeps hst ?_
  intro st' hmoves
  cases hmoves with
  | inserted hkey hsmall hroom hpred => exact hst.inserted hkey hsmall hroom hpred
  | updated hleaf => exact hst.updated hleaf

theorem Indexed.run (hst : Indexed st) (ops : List (IMTOp Hash)) : Indexed (run st ops) := by
  induction ops generalizing st with
  | nil => exact hst
  | cons op ops ih => exact ih (hst.call op)

variable {leaf : IMTLeafPreimage F Hash}

section
omit [DecidableEq Hash]

/-- Walking the links visits the key index in order. -/
theorem Indexed.reachable_eq (h : Indexed st) : st.reachable = st.keyIndex.entries := by
  obtain ⟨rest, hrest⟩ := h.sentinel
  have hlinked := h.linked
  have hnodup := h.nodup
  have hlen := h.slots.length_eq
  rw [hrest] at hlinked hnodup hlen
  simp only [map_cons, length_cons, length_map, length_range] at hlen
  rw [map_cons, nodup_cons] at hnodup
  rw [hrest]
  refine hlinked.walk_eq ?_ (by omega)
  intro e he hzero
  have hmem : e.2 ∈ rest.map Prod.snd := mem_map_of_mem he
  rw [hzero] at hmem
  exact hnodup.1 hmem

/-- The entry of a stored leaf. -/
theorem Indexed.entry_of_leaf (h : Indexed st) {slot : Nat} (hleaf : st.leaves slot = some leaf) :
    (leaf.key, slot) ∈ st.keyIndex.entries := by
  have hslot : slot ∈ st.keyIndex.entries.map Prod.snd :=
    h.mem_slots.mpr ((h.occupied slot).mp (by rw [hleaf]; rfl))
  obtain ⟨e, he, rfl⟩ := mem_map.mp hslot
  obtain ⟨lo, hi, hsplit⟩ := append_of_mem he
  obtain ⟨leaf', hleaf', hkey, _, _⟩ := h.leaf_of_entry hsplit
  rw [hleaf] at hleaf'
  injection hleaf' with hleaf'
  rw [hleaf', hkey]
  exact he

end

/-- **THE INDEXED TREE IS A SORTED LINKED LIST OVER A MERKLE TREE.**  After any calls,
successful or failing, from a new tree:

  * the walk from the sentinel meets exactly the key index, in strictly increasing order;
  * each leaf met names the key and the slot of the next one, or zero at the end;
  * every stored leaf is met, and the key index maps its key to its slot;
  * the Merkle leaf of a slot is the hash of its leaf data;
  * a call that fails changes nothing. -/
theorem indexed_tree_correct (height : Nat) (ops : List (IMTOp Hash)) :
    let st := run (new height : IndexedMerkleTree F Hash) ops
    (st.reachable = st.keyIndex.entries ∧ SortedBy (@toSortKey Hash F _ _) st.reachable) ∧
    (∀ lo e hi, st.reachable = lo ++ e :: hi → ∃ leaf, st.leaves e.2 = some leaf ∧
      leaf.key = e.1 ∧ leaf.nextKey = (following default hi).1 ∧
      toU64Value leaf.nextIndex = (following default hi).2) ∧
    (∀ slot leaf, st.leaves slot = some leaf →
      (leaf.key, slot) ∈ st.reachable ∧ st.keyIndex.get? leaf.key = some slot) ∧
    (∀ slot leaf, st.leaves slot = some leaf →
      st.tree.getLeafValue slot = leaf.computeHash) ∧
    (∀ (op : IMTOp Hash) e, (op.call st).1 = .error e → (op.call st).2 = st) := by
  intro st
  have hst : Indexed st := (indexed_new height).run ops
  have hreach := hst.reachable_eq
  refine ⟨⟨hreach, hreach ▸ st.keyIndex.sorted⟩, ?_, ?_, ?_, fun op _ => (moved_call op).error⟩
  · intro lo e hi hsplit
    exact hst.leaf_of_entry (hreach ▸ hsplit)
  · intro slot leaf hleaf
    have hmem := hst.entry_of_leaf hleaf
    exact ⟨hreach ▸ hmem, SortedMap.get?_of_mem hmem⟩
  · intro slot leaf hleaf
    rw [hst.treeLeaf, hleaf]
    rfl

/-- Two insertions, the second key below the first: the walk meets slot 2 before slot 1. -/
theorem indexed_tree_correct_two_keys :
    let st := run (new 2 : IndexedMerkleTree Nat SymHash)
      [.insert (.leaf 5) (.leaf 50), .insert (.leaf 3) (.leaf 30)]
    st.leaves 2 = some ⟨.leaf 3, .leaf 30, .leaf 5, 1⟩ ∧
      st.reachable = [(.zero, 0), (.leaf 3, 2), (.leaf 5, 1)] ∧
      st.keyIndex.get? (.leaf 3) = some 2 ∧
      (IMTOp.call st (.insert (.leaf 5) .zero)).2 = st := by
  obtain ⟨⟨hreach, _⟩, _, hindex, _, herr⟩ := indexed_tree_correct (F := Nat) 2
    [.insert (SymHash.leaf 5) (.leaf 50), .insert (.leaf 3) (.leaf 30)]
  exact ⟨rfl, hreach, (hindex 2 _ rfl).2, herr _ _ rfl⟩

/-! ## §5. Proofs of membership and of absence. -/

section
variable {st : IndexedMerkleTree F Hash}

section
variable (h : Indexed st) (hh : st.tree.height ≤ 64)
include h hh

/-- The Merkle proof of a stored leaf. -/
theorem Indexed.leaf_proof {slot : Nat} (hleaf : st.leaves slot = some leaf) :
    (st.tree.getLeaf slot).verify = true ∧ (st.tree.getLeaf slot).root = st.getRoot ∧
      (st.tree.getLeaf slot).value = leaf.computeHash := by
  have hslot : slot < 2 ^ st.tree.height :=
    lt_of_lt_of_le ((h.occupied slot).mp (by rw [hleaf]; rfl)) h.fits
  obtain ⟨hverify, hroot⟩ := h.settled.getLeaf_verify hh hslot
  refine ⟨hverify, hroot, ?_⟩
  show st.tree.getLeafValue slot = _
  rw [h.treeLeaf, hleaf]
  rfl

/-- **MEMBERSHIP.**  A key has a membership proof exactly if it is in the index; the proof
shows, against the root, a leaf of that key. -/
theorem Indexed.membership : (st.keyIndex.get? key).isSome ↔ ∃ leaf proof,
      st.getMembershipProof key = some (leaf, proof) ∧ proof.verify = true ∧
      proof.root = st.getRoot ∧ proof.value = leaf.computeHash ∧
      toSortKey F leaf.key = toSortKey F key := by
  constructor
  · intro hkey
    obtain ⟨slot, hslot⟩ := Option.isSome_iff_exists.mp hkey
    obtain ⟨e, he, hord, rfl⟩ := SortedMap.mem_of_get? hslot
    obtain ⟨lo, hi, hsplit⟩ := append_of_mem he
    obtain ⟨leaf, hleaf, hlk, _, _⟩ := h.leaf_of_entry hsplit
    obtain ⟨hverify, hroot, hvalue⟩ := h.leaf_proof hh hleaf
    refine ⟨leaf, st.tree.getLeaf e.2, ?_, hverify, hroot, hvalue, by rw [hlk]; exact hord⟩
    simp [getMembershipProof, hslot, hleaf]
  · intro hproof
    obtain ⟨leaf, proof, hproof, _⟩ := hproof
    unfold getMembershipProof at hproof
    cases hslot : st.keyIndex.get? key with
    | none => rw [hslot] at hproof; cases hproof
    | some slot => rfl

/-- **ABSENCE.**  A key that is not in the index has a non-membership proof: it shows,
against the root, a leaf below the key whose successor is above it or does not exist. -/
theorem Indexed.nonMembership (hkey : st.keyIndex.get? key = none) :
    ∃ leaf proof, st.getNonMembershipProof key = .ok (leaf, proof) ∧ proof.verify = true ∧
      proof.root = st.getRoot ∧ proof.value = leaf.computeHash ∧
      toSortKey F leaf.key < toSortKey F key ∧
      ((leaf.nextKey = default ∧ toU64Value leaf.nextIndex = 0) ∨
        toSortKey F key < toSortKey F leaf.nextKey) := by
  obtain ⟨lo, p, hi, leaf, _, _, hpred, hleaf, hlk, hnk, hni, hlow, habove⟩ :=
    h.exists_predecessor hkey 0
  obtain ⟨hverify, hroot, hvalue⟩ := h.leaf_proof hh hleaf
  refine ⟨leaf, st.tree.getLeaf p.2, ?_, hverify, hroot, hvalue, by rw [hlk]; exact hlow, ?_⟩
  · unfold getNonMembershipProof
    rw [hkey, hpred]
    rfl
  · cases hi with
    | nil => exact Or.inl ⟨hnk, hni⟩
    | cons e hi =>
      refine Or.inr ?_
      rw [hnk]
      exact habove e mem_cons_self

end

variable {height : Nat}

/-- The Merkle tree is made by leaf writes. -/
theorem call_written (h : st.tree.Written height) (op : IMTOp Hash) :
    (op.call st).2.tree.Written height := by
  refine (moved_call op).keeps (P := fun st => st.tree.Written height) h ?_
  intro st' hmoves
  cases hmoves with
  | inserted => exact (h.set _ _).set _ _
  | updated => exact h.set _ _

theorem run_written (h : st.tree.Written height) (ops : List (IMTOp Hash)) :
    (run st ops).tree.Written height := by
  induction ops generalizing st with
  | nil => exact h
  | cons op ops ih => exact ih (call_written h op)

/-- What the delta proofs of an insertion show: the predecessor changes, then the empty slot
is filled, from the root before to the root after. -/
structure ShowsInsertion (st st' : IndexedMerkleTree F Hash) (result : IMTInsertResult F Hash) :
    Prop where
  predecessor : ∃ leaf, st.leaves result.predecessorIndex = some leaf ∧
    result.predecessorProof.oldValue = leaf.computeHash
  predecessorNew : result.predecessorProof.newValue = result.updatedPredecessor.computeHash
  predecessorIndex : result.predecessorProof.index = result.predecessorIndex
  predecessorVerifies : result.predecessorProof.verify = true
  slotEmpty : result.newLeafProof.oldValue = getZeroValue
  slotNew : result.newLeafProof.newValue = result.newLeaf.computeHash
  slotIndex : result.newLeafProof.index = st.nextAppendIndex
  slotVerifies : result.newLeafProof.verify = true
  oldRoot : result.predecessorProof.oldRoot = st.getRoot
  intermediateRoot : result.newLeafProof.oldRoot = result.predecessorProof.newRoot
  newRoot : result.newLeafProof.newRoot = st'.getRoot

/-- **THE PROOFS OF AN INSERTION** that finds room. -/
theorem Indexed.insert_proofs (h : Indexed st) (hh : st.tree.height < 64)
    (hkey : st.keyIndex.get? key = none) (hroom : st.nextAppendIndex < 2 ^ st.tree.height)
    (value : Hash) : ∃ result, (st.insert key value).1 = .ok result ∧
      ShowsInsertion st (st.insert key value).2 result := by
  obtain ⟨_, p, _, leaf, hes, _, hpred, hleaf, _⟩ := h.exists_predecessor hkey 0
  have hp : p.2 < st.nextAppendIndex :=
    h.mem_slots.mp (mem_map_of_mem (by rw [hes]; simp))
  have hmax : st.tree.getMaxLeafIndex = .ok (2 ^ st.tree.height - 1) := by
    unfold getMaxLeafIndex
    rw [shl64_of_lt hh]
    rfl
  have hlen : ¬ st.nextAppendIndex > 2 ^ st.tree.height - 1 := by omega
  have hempty : st.leaves st.nextAppendIndex = none := by
    have hnot := (not_congr (h.occupied st.nextAppendIndex)).mpr (lt_irrefl _)
    exact Option.not_isSome_iff_eq_none.mp hnot
  have hpredValue : st.tree.getLeafValue p.2 = leaf.computeHash := by
    rw [h.treeLeaf, hleaf]
    rfl
  unfold insert
  simp only [hkey, hmax, hlen, hpred, Option.isSome_none, if_false, Bool.false_eq_true]
  refine ⟨_, rfl, ⟨leaf, hleaf, hpredValue⟩, rfl, rfl, h.settled.setLeaf_verify hh.le (by omega) _,
    ?_, rfl, rfl, ?_, rfl, rfl, rfl⟩
  · show (st.tree.setLeafNoProof p.2 _).getLeafValue st.nextAppendIndex = _
    rw [getLeafValue_setLeafNoProof, update_of_ne (by omega), h.treeLeaf, hempty]
    rfl
  · refine (h.settled.setLeafNoProof _ _).setLeaf_verify ?_ ?_ _
    · exact (setLeafNoProof_height _ _ _).trans_le hh.le
    · rw [setLeafNoProof_height]
      exact hroom

end

/-- **PROOFS OF AN INDEXED TREE**, in every tree of height below 64 that calls reach: a key
has a proof of membership or one of absence, never both, and an insertion that finds room
shows how the root changes. -/
theorem indexed_tree_proofs (height : Nat) (hh : height < 64) (ops : List (IMTOp Hash))
    (key : Hash) :
    let st := run (new height : IndexedMerkleTree F Hash) ops
    ((st.getMembershipProof key).isSome ↔ ¬ ∃ result, st.getNonMembershipProof key = .ok result) ∧
    (∀ leaf proof, st.getNonMembershipProof key = .ok (leaf, proof) → proof.verify = true ∧
      proof.root = st.getRoot ∧ proof.value = leaf.computeHash ∧
      toSortKey F leaf.key < toSortKey F key ∧
      (toSortKey F key < toSortKey F leaf.nextKey ∨ leaf.nextKey = default)) ∧
    ∀ value, st.getMembershipProof key = none → st.nextAppendIndex < 2 ^ height →
      ∃ result, (st.insert key value).1 = .ok result ∧
        ShowsInsertion st (st.insert key value).2 result := by
  intro st
  have hst : Indexed st := (indexed_new height).run ops
  have hheight : st.tree.height = height := (run_written (.set _ _ .new) ops).spec.1
  rw [← hheight] at hh
  have hmember : (st.keyIndex.get? key).isSome ↔ _ := hst.membership hh.le
  have hnone : st.getMembershipProof key = none → st.keyIndex.get? key = none := by
    intro hno
    rw [← Option.not_isSome_iff_eq_none]
    intro hkey
    obtain ⟨_, _, hproof, _⟩ := hmember.mp hkey
    exact absurd (hno.symm.trans hproof) (by simp)
  refine ⟨?_, ?_, fun value hno hroom => hst.insert_proofs hh (hnone hno) (hheight ▸ hroom) value⟩
  · constructor
    · intro hproof hex
      obtain ⟨result, hresult⟩ := hex
      unfold getMembershipProof at hproof
      unfold getNonMembershipProof at hresult
      cases hkey : st.keyIndex.get? key with
      | none => rw [hkey] at hproof; cases hproof
      | some slot => rw [hkey] at hresult; cases hresult
    · intro hno
      by_contra hproof
      obtain ⟨_, _, hok, _⟩ := hst.nonMembership hh.le
        (hnone (Option.not_isSome_iff_eq_none.mp hproof))
      exact hno ⟨_, hok⟩
  · intro leaf proof hproof
    cases hkey : st.keyIndex.get? key with
    | some slot =>
      unfold getNonMembershipProof at hproof
      rw [hkey] at hproof
      cases hproof
    | none =>
      obtain ⟨leaf', proof', hok, hverify, hroot, hvalue, hlow, hnext⟩ :=
        hst.nonMembership hh.le hkey
      obtain ⟨rfl, rfl⟩ := Prod.mk.inj (Except.ok.inj (hok.symm.trans hproof))
      exact ⟨hverify, hroot, hvalue, hlow, hnext.symm.imp_right And.left⟩

/-- After one insertion a second key is absent, and there is room for it. -/
theorem indexed_tree_proofs_second_key :
    let st := run (new 2 : IndexedMerkleTree Nat SymHash) [.insert (.leaf 5) (.leaf 50)]
    ∃ result, (st.insert (.leaf 3) (.leaf 30)).1 = .ok result ∧
      result.predecessorProof.verify = true ∧ result.newLeafProof.verify = true := by
  obtain ⟨_, _, hinsert⟩ := indexed_tree_proofs (F := Nat) 2 (by decide)
    [.insert (SymHash.leaf 5) (.leaf 50)] (.leaf 3)
  obtain ⟨result, hok, hshows⟩ := hinsert (.leaf 30) rfl (by decide)
  exact ⟨result, hok, hshows.predecessorVerifies, hshows.slotVerifies⟩

/-- **A FULL TREE** takes no absent key; the smallest tree is full with its sentinel. -/
theorem indexed_tree_full :
    (new 0 : IndexedMerkleTree Nat SymHash).getMembershipProof (.leaf 5) = none ∧
      ((new 0 : IndexedMerkleTree Nat SymHash).insert (.leaf 5) (.leaf 50)).1.toBool = false :=
  ⟨rfl, rfl⟩

/-! ## §6. What verifies is true. -/

omit [DecidableEq Hash] in
/-- **THE GAP AFTER A STORED LEAF** holds no key. -/
theorem Indexed.get?_of_gap (h : Indexed st) {slot : Nat} (hleaf : st.leaves slot = some leaf)
    (hlow : toSortKey F leaf.key < toSortKey F key)
    (hnext : leaf.nextKey = default ∨ toSortKey F key < toSortKey F leaf.nextKey) :
    st.keyIndex.get? key = none := by
  obtain ⟨lo, hi, hsplit⟩ := append_of_mem (h.entry_of_leaf hleaf)
  obtain ⟨leaf', hleaf', _, hnk, _⟩ := h.leaf_of_entry hsplit
  obtain rfl : leaf = leaf' := Option.some.inj (hleaf.symm.trans hleaf')
  have hsorted := st.keyIndex.sorted
  rw [hsplit, SortedBy, pairwise_append, pairwise_cons] at hsorted
  obtain ⟨_, ⟨habove, hhi⟩, hlo⟩ := hsorted
  rw [SortedMap.get?_eq_none, hsplit]
  intro e he
  rcases mem_append.mp he with he | he
  · exact ((hlo e he _ mem_cons_self).trans hlow).ne
  rcases mem_cons.mp he with rfl | he
  · exact hlow.ne
  -- what follows the leaf begins with its successor
  cases hi with
  | nil => cases he
  | cons d hi =>
    change leaf.nextKey = d.1 at hnk
    rw [hnk] at hnext
    have hkey : toSortKey F key < toSortKey F d.1 := by
      refine hnext.resolve_left fun hend => ?_
      have hlt := habove d mem_cons_self
      rw [hend] at hlt
      exact (toSortKey_default_le F leaf.key).not_gt hlt
    rcases mem_cons.mp he with rfl | he
    · exact hkey.ne'
    · exact (hkey.trans ((pairwise_cons.mp hhi).1 e he)).ne'

/-- **OPENINGS AND PROOFS OF ABSENCE ARE SOUND**, in every tree that calls reach: if the node hash
has no collisions and no stored leaf collides with the one shown, then a leaf that verifies
against the root is stored, and no key between it and its successor is in the tree. -/
theorem indexed_tree_sound (height : Nat) (ops : List (IMTOp Hash)) (leaf : IMTLeafPreimage F Hash)
    (hrun : run (new height) ops = st)
    (hinj : ∀ a b c d : Hash, twoToOne a b = twoToOne c d → a = c ∧ b = d)
    (hfree : leaf.computeHash ≠ getZeroValue ∧ ∀ slot leaf', st.leaves slot = some leaf' →
      leaf.computeHash = leaf'.computeHash → leaf = leaf')
    (p : MerkleProofCore Hash) (hverify : p.verify = true) (hlen : p.siblings.length = height)
    (hroot : p.root = st.getRoot) (hvalue : p.value = leaf.computeHash) :
    st.leaves (p.index % 2 ^ height) = some leaf ∧ ∀ key, toSortKey F leaf.key < toSortKey F key →
      (leaf.nextKey = default ∨ toSortKey F key < toSortKey F leaf.nextKey) →
      st.getMembershipProof key = none := by
  have hst : Indexed st := hrun ▸ (indexed_new height).run ops
  have hheight : st.tree.height = height := hrun ▸ (run_written (.set _ _ .new) ops).spec.1
  rw [getRoot, hst.settled.getRoot_eq, hheight] at hroot
  have hopened := value_of_verify hinj hverify hlen hroot
  rw [hvalue, hst.treeLeaf] at hopened
  have hstored : st.leaves (p.index % 2 ^ height) = some leaf := by
    cases hleaf : st.leaves (p.index % 2 ^ height) with
    | none =>
      rw [hleaf] at hopened
      exact absurd hopened hfree.1
    | some leaf' =>
      rw [hleaf] at hopened
      rw [hfree.2 _ _ hleaf hopened]
  refine ⟨hstored, fun key hlow hnext => ?_⟩
  unfold getMembershipProof
  rw [hst.get?_of_gap hstored hlow hnext]
  rfl

theorem indexed_tree_sound_absent_key :
    let st := run (new 1 : IndexedMerkleTree Nat SymHash) [.insert (.leaf 5) (.leaf 50)]
    st.getMembershipProof (.leaf 3) = none := by
  intro st
  refine (indexed_tree_sound 1 _ ⟨.zero, .zero, .leaf 5, 1⟩ rfl
    (fun _ _ _ _ h => SymHash.node.inj h) ⟨by decide, ?_⟩ (st.tree.getLeaf 0) (by decide) rfl rfl
    rfl).2 _ (by decide) (Or.inr (by decide))
  intro slot leaf' hleaf hhash
  rcases slot with _ | _ | slot
  · exact Option.some.inj hleaf
  · rw [← Option.some.inj hleaf] at hhash
    exact absurd hhash (by decide)
  · cases hleaf

end IndexedMerkleTree

end PsyNode.Store
