/-
PsyNode.Store.V3
**THE PLAIN IN-MEMORY MERKLE STORE** — `SimpleMemoryMerkleStoreV3` of
`mem_tree_v3.rs`, and with the same node functions the trait
`PsyMemoryMerkleStoreImm` that the append-only store implements.

A node whose value is the zero hash of its level is not kept in the map.  The
table of zero hashes that the source precomputes holds `get_zero_hash(h)` for
every `h` up to the height.

`table_setLeafNoProof` says in the node table what a leaf
write does: write the leaf, rehash its column.
-/
import PsyNode.Lib.ExceptBind
import PsyNode.Lib.MerkleWindow
import PsyNode.Merkle.Basic

namespace PsyNode.Store

open Merkle Lib.Merkle Lib Function SimpleMerkleNodeKey

/-- Nodes that are not in the map are empty. -/
@[ext]
structure SimpleMemoryMerkleStoreV3 (Hash : Type) where
  nodes : NodeKey → Option Hash
  height : Nat

/-- The plain store, for short. -/
abbrev StoreV3 (Hash : Type) := SimpleMemoryMerkleStoreV3 Hash

namespace SimpleMemoryMerkleStoreV3

variable {Hash : Type}

/-- The empty tree. -/
def new (height : Nat) : StoreV3 Hash := ⟨fun _ => none, height⟩

/-- The last leaf. -/
def getMaxLeafIndex (st : StoreV3 Hash) : Except String Nat := do
  return (← shl64 st.height) - 1

theorem getMaxLeafIndex_eq_ok {st : StoreV3 Hash} {m : Nat} (h : st.getMaxLeafIndex = .ok m) :
    m + 1 = 2 ^ st.height ∧ m < 2 ^ 63 := by
  obtain ⟨p, hp, hm⟩ := bind_eq_ok.mp h
  injection hm with hm
  have hheight := shl64_lt hp
  have hpow : 2 ^ st.height ≤ 2 ^ 63 := Nat.pow_le_pow_right (by decide) (by omega)
  have hpos : 0 < 2 ^ st.height := by positivity
  rw [shl64_eq_ok hp] at hpow hpos ⊢
  omega

variable [MerkleZeroHasher Hash]

section
variable (st : StoreV3 Hash)

/-- The value of an empty node. -/
def getZeroHashForLevel (level : Nat) : Hash :=
  getZeroHash (st.height - level)

/-- The value of a node. -/
def getNodeValue (key : NodeKey) : Hash :=
  match st.nodes key with
  | some v => v
  | none => st.getZeroHashForLevel key.level

/-- The root. -/
def getRoot : Hash :=
  st.getNodeValue newRoot

/-- A leaf. -/
def getLeafValue (index : Nat) : Hash :=
  st.getNodeValue ⟨st.height, index⟩

/-- `get_leaf`.  The root is read at the top of the leaf's own column. -/
def getLeaf (index : Nat) : MerkleProofCore Hash where
  index := index
  siblings := (siblings ⟨st.height, index⟩).map st.getNodeValue
  root := st.getNodeValue ⟨0, index >>> st.height⟩
  value := st.getNodeValue ⟨st.height, index⟩

/-! ## The node table. -/

/-- The values of the store by level and index. -/
def table : Table Hash := fun l i => st.getNodeValue ⟨l, i⟩

theorem getNodeValue_eq_table (key : NodeKey) :
    st.getNodeValue key = st.table key.level key.index := rfl

theorem table_new (height : Nat) : (new height : StoreV3 Hash).table =
      fun l _ => zeroAt twoToOne getZeroValue (height - l) := by
  funext l i
  exact getZeroHash_eq_zeroAt _

theorem getNodeValue_eq_getD (key : NodeKey) :
    st.getNodeValue key = (st.nodes key).getD (st.getZeroHashForLevel key.level) := by
  unfold getNodeValue; split <;> simp [*]

/-- The Merkle invariant. -/
def TreeSettled : Prop := Settled twoToOne st.table st.height

/-- No zero node is kept in the map. -/
def Pruned : Prop :=
  ∀ key, st.nodes key ≠ some (st.getZeroHashForLevel key.level)

end

theorem treeSettled_new (height : Nat) : (new height : StoreV3 Hash).TreeSettled := by
  unfold TreeSettled
  rw [table_new]
  exact settled_zero getZeroValue height

variable {st : StoreV3 Hash}

/-- The root of a settled store is the Merkle root of its leaves. -/
theorem TreeSettled.getRoot_eq (hs : st.TreeSettled) :
    st.getRoot = subRoot twoToOne st.getLeafValue st.height 0 :=
  Settled.root_eq hs

/-- Any node of a settled store, from its leaves. -/
theorem TreeSettled.table_eq (hs : st.TreeSettled) {l : Nat} (hl : l ≤ st.height) (i : Nat) :
    st.table l i = subRoot twoToOne st.getLeafValue (st.height - l) i := by
  have h := Settled.eq_subRoot hs (st.height - l) (Nat.sub_le _ _) i
  rw [Nat.sub_sub_self hl] at h
  exact h

/-! ## Writes. -/

variable [DecidableEq Hash]

section
variable (st : StoreV3 Hash)

/-- `set_node_value`: a zero node is removed from the map. -/
def setNodeValue (key : NodeKey) (value : Hash) : StoreV3 Hash :=
  if value = st.getZeroHashForLevel key.level then
    { st with nodes := update st.nodes key none }
  else
    { st with nodes := update st.nodes key (some value) }

/-- Hashes the ancestors of a node. -/
def rehashFromNodeToLevel (node : NodeKey) (stopLevel : Nat) : StoreV3 Hash :=
  go (node.level - stopLevel) node st
where
  go : Nat → NodeKey → StoreV3 Hash → StoreV3 Hash
  | 0, _, st => st
  | n + 1, node, st =>
    let siblingValue := st.getNodeValue node.sibling
    let nodeValue := st.getNodeValue node
    let parentValue :=
      if node.index &&& 1 = 0 then twoToOne nodeValue siblingValue
      else twoToOne siblingValue nodeValue
    go n node.parent (st.setNodeValue node.parent parentValue)

/-- Writes a leaf. -/
def setLeafNoProof (index : Nat) (value : Hash) : StoreV3 Hash :=
  (st.setNodeValue ⟨st.height, index⟩ value).rehashFromNodeToLevel ⟨st.height, index⟩ 0

/-- Writes a leaf and proves the change. -/
def setLeaf (index : Nat) (value : Hash) : StoreV3 Hash × DeltaMerkleProofCore Hash :=
  let st' := st.setLeafNoProof index value
  (st', { oldRoot := st.getRoot
          oldValue := st.getLeafValue index
          newRoot := st'.getRoot
          newValue := value
          siblings := (siblings ⟨st.height, index⟩).map st.getNodeValue
          index := index })

variable (key : NodeKey)

@[simp] theorem setNodeValue_height (value : Hash) :
    (st.setNodeValue key value).height = st.height := by
  unfold setNodeValue; split <;> rfl

theorem nodes_setNodeValue (value : Hash) : (st.setNodeValue key value).nodes = update st.nodes key
      (if value = st.getZeroHashForLevel key.level then none else some value) := by
  unfold setNodeValue; split <;> rfl

@[simp] theorem table_setNodeValue (l i : Nat) (v : Hash) :
    (st.setNodeValue ⟨l, i⟩ v).table = st.table.set l i v := by
  funext l' i'
  show (st.setNodeValue ⟨l, i⟩ v).getNodeValue ⟨l', i'⟩ = _
  rw [getNodeValue_eq_getD, nodes_setNodeValue]
  by_cases h : l' = l ∧ i' = i
  · obtain ⟨rfl, rfl⟩ := h
    rw [Table.set_self, update_self]
    -- a zero value is dropped from the map and read back as the default
    by_cases hz : v = st.getZeroHashForLevel l'
    · rw [if_pos hz, hz]
      simp [getZeroHashForLevel]
    · rw [if_neg hz, Option.getD_some]
  · have hkey : (⟨l', i'⟩ : NodeKey) ≠ ⟨l, i⟩ := by simpa using h
    rw [Table.set_of_ne _ _ h, update_of_ne hkey]
    show _ = st.getNodeValue ⟨l', i'⟩
    rw [getNodeValue_eq_getD]
    simp [getZeroHashForLevel]

theorem table_rehashFromNodeToLevel (l i : Nat) :
    (st.rehashFromNodeToLevel ⟨l, i⟩ 0).table = rehashSpan twoToOne st.table l i i ∧
      (st.rehashFromNodeToLevel ⟨l, i⟩ 0).height = st.height := by
  show (rehashFromNodeToLevel.go l ⟨l, i⟩ st).table = _ ∧
    (rehashFromNodeToLevel.go l _ st).height = _
  induction l generalizing i st with
  | zero => exact ⟨rfl, rfl⟩
  | succ l ih =>
    rw [rehashFromNodeToLevel.go, rehashSpan, rehashLevel_single]
    simp only [sibling_mk, parent_mk_succ, Nat.and_one_is_mod, getNodeValue_eq_table]
    rw [hash_sibling_eq, ← table_setNodeValue]
    obtain ⟨htable, hheight⟩ := ih (st.setNodeValue ⟨l, i / 2⟩ (twoToOne
      (st.table (l + 1) (2 * (i / 2))) (st.table (l + 1) (2 * (i / 2) + 1)))) (i / 2)
    exact ⟨htable, hheight.trans (setNodeValue_height _ _ _)⟩

@[simp] theorem setLeafNoProof_height (index : Nat) (value : Hash) :
    (st.setLeafNoProof index value).height = st.height := by
  unfold setLeafNoProof
  rw [(table_rehashFromNodeToLevel _ _ _).2, setNodeValue_height]

/-- A leaf write writes the leaf and rehashes its column. -/
theorem table_setLeafNoProof (index : Nat) (value : Hash) : (st.setLeafNoProof index value).table =
      rehashSpan twoToOne (st.table.set st.height index value) st.height index index := by
  unfold setLeafNoProof
  rw [(table_rehashFromNodeToLevel _ _ _).1, table_setNodeValue]

end

/-- A leaf write keeps the Merkle invariant. -/
theorem TreeSettled.setLeafNoProof (hs : st.TreeSettled) (index : Nat) (value : Hash) :
    (st.setLeafNoProof index value).TreeSettled := by
  unfold TreeSettled
  rw [setLeafNoProof_height, table_setLeafNoProof]
  exact Settled.rehashSpan_of_leaf_writes hs (fun l i hout => Table.set_of_ne _ _ (by omega))

/-- The leaves after a leaf write. -/
theorem getLeafValue_setLeafNoProof (st : StoreV3 Hash) (index : Nat) (value : Hash) :
    (st.setLeafNoProof index value).getLeafValue = update st.getLeafValue index value := by
  show (st.setLeafNoProof index value).table (st.setLeafNoProof index value).height = _
  rw [setLeafNoProof_height, table_setLeafNoProof, rehashSpan_leaf, Table.set_level]
  rfl

/-- **LEAF PROOFS.**  In a settled store of height at most 64 the proof of an in-range
leaf verifies against the root. -/
theorem TreeSettled.getLeaf_verify (hs : st.TreeSettled) (hh : st.height ≤ 64) {index : Nat}
    (hi : index < 2 ^ st.height) :
    (st.getLeaf index).verify = true ∧ (st.getLeaf index).root = st.getRoot := by
  have hsib : (st.getLeaf index).siblings = path st.table st.height index :=
    map_siblings_eq_path st.getNodeValue st.height index
  have hroot : (st.getLeaf index).root = st.getRoot := by
    show st.getNodeValue ⟨0, index >>> st.height⟩ = _
    rw [Nat.shiftRight_eq_div_pow, Nat.div_eq_of_lt hi]
    rfl
  have hclimb := climb_path hs st.height le_rfl index
  rw [Nat.div_eq_of_lt hi] at hclimb
  refine ⟨?_, hroot⟩
  rw [MerkleProofCore.verify_iff, hsib, hroot, path_length]
  exact ⟨hh, hclimb⟩

/-- **LEAF WRITES.**  The delta proof of an in-range leaf verifies. -/
theorem TreeSettled.setLeaf_verify (hs : st.TreeSettled) (hh : st.height ≤ 64) {index : Nat}
    (hi : index < 2 ^ st.height) (value : Hash) :
    (st.setLeaf index value).2.verify = true := by
  have hsib : (st.setLeaf index value).2.siblings = path st.table st.height index :=
    map_siblings_eq_path st.getNodeValue st.height index
  have hold := climb_path hs st.height le_rfl index
  have hnew := rehashSpan_set_top twoToOne st.height st.table index value
  rw [Nat.div_eq_of_lt hi] at hold hnew
  rw [← table_setLeafNoProof] at hnew
  rw [DeltaMerkleProofCore.verify_iff, hsib, path_length]
  exact ⟨hh, hold, hnew.symm⟩

/-- **OPENINGS.**  Whatever siblings it comes with, a proof that verifies against the root of a
tree shows a leaf of the tree, if the hash has no collisions. -/
theorem value_of_verify (hinj : CollisionFree Hash)
    {p : MerkleProofCore Hash} {f : Nat → Hash} {height : Nat} (hverify : p.verify = true)
    (hlen : p.siblings.length = height) (hroot : p.root = subRoot twoToOne f height 0) :
    p.value = f (p.index % 2 ^ height) := by
  have hclimb := ((MerkleProofCore.verify_iff p).mp hverify).2
  rw [hroot, ← hlen, ← Nat.zero_add p.siblings.length] at hclimb
  obtain ⟨hvalue, _⟩ := climb_eq_subRoot hinj _ 0 _ 0 _ hclimb
  rw [Nat.zero_mul, Nat.zero_add, hlen] at hvalue
  exact hvalue

/-- A zero node is not in the map, any other is there with its value. -/
theorem Pruned.nodes_eq (hp : st.Pruned) (key : NodeKey) :
    st.nodes key = if st.getNodeValue key = st.getZeroHashForLevel key.level then none
      else some (st.getNodeValue key) := by
  have hprune := hp key
  rw [getNodeValue_eq_getD]
  cases hkey : st.nodes key with
  | none => simp
  | some v =>
    rw [hkey] at hprune
    rw [Option.getD_some, if_neg (fun hv => hprune (congrArg some hv))]

theorem Pruned.setNodeValue (hp : st.Pruned) (key : NodeKey) (value : Hash) :
    (st.setNodeValue key value).Pruned := by
  intro key'
  unfold getZeroHashForLevel
  rw [nodes_setNodeValue, setNodeValue_height]
  by_cases hkey : key' = key
  · subst hkey
    rw [update_self]
    split
    next => simp
    next hz => exact fun h => hz (Option.some.inj h)
  · rw [update_of_ne hkey]
    exact hp key'

theorem Pruned.setLeafNoProof (hp : st.Pruned) (index : Nat) (value : Hash) :
    (st.setLeafNoProof index value).Pruned := by
  have key (n : Nat) (node : NodeKey) (st : StoreV3 Hash)
      (hp : st.Pruned) : (rehashFromNodeToLevel.go n node st).Pruned := by
    induction n generalizing node st with
    | zero => exact hp
    | succ n ih => exact ih _ _ (hp.setNodeValue _ _)
  exact key _ _ _ (hp.setNodeValue _ _)

/-! ## Stores made by leaf writes. -/

/-- The stores that leaf writes make of a new one. -/
inductive Written (height : Nat) : StoreV3 Hash → Prop
  | new : Written height (new height)
  | set {st : StoreV3 Hash} (index : Nat) (value : Hash) :
    Written height st → Written height (st.setLeafNoProof index value)

variable {height : Nat}

theorem Written.spec (h : Written height st) : st.height = height ∧ st.TreeSettled ∧ st.Pruned ∧
      ∀ l i, height < l → st.table l i = getZeroHash 0 := by
  induction h with
  | new =>
    refine ⟨rfl, treeSettled_new height, fun _ => (Option.some_ne_none _).symm, ?_⟩
    intro l i hl
    show getZeroHash (height - l) = _
    rw [Nat.sub_eq_zero_of_le hl.le]
  | set index value _ ih =>
    obtain ⟨hheight, hs, hp, habove⟩ := ih
    refine ⟨(setLeafNoProof_height _ _ _).trans hheight, hs.setLeafNoProof _ _,
      hp.setLeafNoProof _ _, ?_⟩
    intro l i hl
    have hout : ¬ AboveSpan height index index l i := by
      unfold AboveSpan
      omega
    rw [table_setLeafNoProof, hheight, rehashSpan_frame _ _ _ _ _ _ hout,
      Table.set_of_ne _ _ (by omega), habove l i hl]

/-- **THE LEAVES DETERMINE THE STORE**, node map included. -/
theorem Written.eq_of_leaves {st st' : StoreV3 Hash} (h : Written height st)
    (h' : Written height st') (hleaves : st.getLeafValue = st'.getLeafValue) : st = st' := by
  obtain ⟨hheight, hs, hp, habove⟩ := h.spec
  obtain ⟨hheight', hs', hp', habove'⟩ := h'.spec
  have hnode : ∀ key, st.getNodeValue key = st'.getNodeValue key := by
    intro key
    show st.table key.level key.index = st'.table key.level key.index
    by_cases hl : key.level ≤ height
    · rw [hs.table_eq (hheight ▸ hl), hs'.table_eq (hheight' ▸ hl), hleaves, hheight, hheight']
    · rw [habove _ _ (not_le.mp hl), habove' _ _ (not_le.mp hl)]
  have hnodes : st.nodes = st'.nodes := by
    funext key
    rw [hp.nodes_eq, hp'.nodes_eq, hnode, getZeroHashForLevel, getZeroHashForLevel, hheight,
      hheight']
  exact SimpleMemoryMerkleStoreV3.ext hnodes (hheight.trans hheight'.symm)

end SimpleMemoryMerkleStoreV3

end PsyNode.Store
