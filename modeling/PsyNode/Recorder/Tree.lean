/-
PsyNode.Recorder.Tree
**EVERY WRITE PATH OF THE RECORDER STORE KEEPS THE MERKLE TREE.**

Each write path rehashes a different part of the tree: `set_leaf` a single
path, `fast_batch_set_leaves` level ranges, the Spiderman updates a window of
leaves and then the path above it.  In the node table they are all the same
operation: write leaves inside a span, `rehashSpan` above the span
(`setLeafFrom_spec`, `table_fastBatchSetLeaves`, `table_rehashSubTree`).
-/
import PsyNode.Lib.FilledTree
import PsyNode.Recorder.Journal

namespace PsyNode.Recorder.SimpleMemoryMerkleRecorderStore

open Merkle Lib.Merkle Lib List Function SimpleMerkleNodeKey Table DeltaMerkleProofCore Nat

variable {Hash : Type} [MerkleZeroHasher Hash] [DecidableEq Hash]

/-! ## §1. The node table. -/

variable (st : RecorderStore Hash)

/-- The values of the store by level and index. -/
def table : Table Hash :=
  fun l i => st.getNodeValue ⟨l, i⟩

omit [DecidableEq Hash] in
theorem getNodeValue_eq_table (key : NodeKey) :
    st.getNodeValue key = st.table key.level key.index := rfl

@[simp] theorem table_setNodeValue (l i : Nat) (v : Hash) :
    (st.setNodeValue ⟨l, i⟩ v).table = st.table.set l i v := by
  funext l' i'
  unfold table
  rw [getNodeValue_setNodeValue]
  by_cases h : l' = l ∧ i' = i
  · obtain ⟨rfl, rfl⟩ := h
    rw [update_self, set_self]
  · rw [update_of_ne (by simpa using h), set_of_ne _ _ h]

omit [DecidableEq Hash] in
theorem table_new (height : Nat) : (new height : RecorderStore Hash).table =
      fun l _ => zeroAt twoToOne getZeroValue (height - l) := by
  funext l i
  exact getZeroHash_eq_zeroAt _

theorem table_setRun (level : Nat) (vs : List Hash) (start : Nat) (st : RecorderStore Hash) :
    (st.setRun level start vs).table =
      update st.table level (writeRun (st.table level) start vs) := by
  induction vs generalizing start st with
  | nil => rw [writeRun_nil, update_eq_self]; rfl
  | cons v vs ih =>
    rw [setRun, ih, table_setNodeValue, update_writeRun_cons]

theorem table_setRun_level (level start : Nat) (vs : List Hash) :
    (st.setRun level start vs).table level = writeRun (st.table level) start vs := by
  rw [table_setRun, update_self]

/-- Writes of a run stay inside its span. -/
theorem table_setRun_frame (level start : Nat) (vs : List Hash) {l i : Nat}
    (h : ¬ (l = level ∧ start ≤ i ∧ i < start + vs.length)) :
    (st.setRun level start vs).table l i = st.table l i := by
  rw [table_setRun, update_writeRun_frame _ h]

/-! ## §2. The write paths as span rehashes. -/

theorem table_rehashParents (level n : Nat) {a c : Nat} (st : RecorderStore Hash)
    (hspan : a + n = c + 1) :
    (rehashParents level n a st).table = rehashLevel twoToOne st.table level a c := by
  induction n generalizing a c st with
  | zero =>
    funext l i
    rw [rehashParents, rehashLevel_of_not (by omega)]
  | succ n ih =>
    have hshift : a <<< 1 = 2 * a := by rw [shiftLeft_eq]; ring
    rw [rehashParents, ih (c := c) _ (by omega), table_setNodeValue, hshift]
    simp only [getNodeValue_eq_table]
    funext l i
    by_cases hself : l = level ∧ i = a
    · obtain ⟨rfl, rfl⟩ := hself
      rw [rehashLevel_of_not (by omega), set_self, rehashLevel, if_pos (by omega)]
    · simp only [rehashLevel]
      rw [set_of_ne _ _ hself, set_of_ne _ _ (by omega), set_of_ne _ _ (by omega)]
      by_cases hin : l = level ∧ a + 1 ≤ i ∧ i ≤ c
      · rw [if_pos hin, if_pos (by omega)]
      · rw [if_neg hin, if_neg (by omega)]

omit [DecidableEq Hash] in
/-- The parents of a span, as they stand after the rehash. -/
theorem map_rehashLevel (T : Table Hash) (l a n : Nat) :
    (range' a n).map (rehashLevel twoToOne T l a (a + n - 1) l) =
      (range' a n).map (fun i => twoToOne (T (l + 1) (2 * i)) (T (l + 1) (2 * i + 1))) := by
  apply map_congr_left
  intro i hi
  rw [mem_range'_1] at hi
  rw [rehashLevel, if_pos (by omega)]

theorem and_one_eq_one (i : Nat) : i &&& 1 = 1 ↔ ¬ i % 2 = 0 := by
  rw [and_one_is_mod]
  omega

theorem and_one_eq_zero (i : Nat) : i &&& 1 = 0 ↔ i % 2 = 0 := by
  rw [and_one_is_mod]

/-- `rehash_from_node_to_level` up to the root is a span rehash of one column. -/
theorem table_rehashFromNodeToLevel (l i : Nat) :
    (st.rehashFromNodeToLevel ⟨l, i⟩ 0).table = rehashSpan twoToOne st.table l i i := by
  show (rehashFromNodeToLevel.go l ⟨l, i⟩ (st.table l i) st).table = _
  induction l generalizing i st with
  | zero => rfl
  | succ l ih =>
    rw [rehashFromNodeToLevel.go, rehashSpan, rehashLevel_single]
    simp only [sibling_mk, parent_mk_succ, and_one_eq_one, ite_not, getNodeValue_eq_table,
      hash_sibling_eq twoToOne st.table]
    rw [← table_setNodeValue, ← ih, table_setNodeValue, set_self]

omit [MerkleZeroHasher Hash] [DecidableEq Hash] in
/-- The siblings a leaf proof collects are the path of the leaf. -/
theorem readSiblings_eq_path (read : NodeKey → Hash) (l i : Nat) :
    readSiblings read l (sibling ⟨l, i⟩) =
      path (fun l i => read ⟨l, i⟩) l i := by
  induction l generalizing i with
  | zero => rfl
  | succ l ih =>
    rw [readSiblings, sibling_mk, parent_mk_succ, sibling_div_two, ih, path]

/-- The loop of `set_leaf` along the path of a node: the writes are a leaf write
and a rehash of its column, and the last value is the climbed one. -/
theorem setPath_path (l : Nat) (i : Nat) (v : Hash) (st : RecorderStore Hash) :
    (setPath (path st.table l i) ⟨l, i⟩ v st).1.table =
        rehashSpan twoToOne (st.table.set l i v) l i i ∧
      (setPath (path st.table l i) ⟨l, i⟩ v st).2 =
        climb twoToOne v i (path st.table l i) := by
  induction l generalizing i v st with
  | zero => exact ⟨table_setNodeValue st 0 i v, rfl⟩
  | succ l ih =>
    -- the path above does not see the write at level `l + 1`
    have hpath : path (st.setNodeValue ⟨l + 1, i⟩ v).table l (i / 2) = path st.table l (i / 2) := by
      apply path_congr
      intro l' _ hl' j _
      rw [table_setNodeValue, set_of_ne _ _ (by omega)]
    have hparent := hash_sibling_eq twoToOne (st.table.set (l + 1) i v) (l + 1) i
    rw [set_self, set_of_ne _ _ (by simp [sibling_ne])] at hparent
    obtain ⟨htable, hvalue⟩ := ih (i / 2)
      (if i % 2 = 0 then twoToOne v (st.table (l + 1) (sibling i))
        else twoToOne (st.table (l + 1) (sibling i)) v)
      (st.setNodeValue ⟨l + 1, i⟩ v)
    rw [hpath] at htable hvalue
    simp only [path, setPath, parent_mk_succ, and_one_eq_zero, climb]
    refine ⟨?_, hvalue⟩
    rw [htable, table_setNodeValue, hparent, rehashSpan, rehashLevel_single]

/-- `set_leaf` / `set_e_leaf` at any level: the new table and the returned proof. -/
theorem setLeafFrom_spec (level index : Nat) (value : Hash) :
    (st.setLeafFrom (readProof st.getNodeValue level index) level index value).1.table =
        rehashSpan twoToOne (st.table.set level index value) level index index ∧
      (st.setLeafFrom (readProof st.getNodeValue level index) level index value).2 =
        { oldRoot := st.getRoot, oldValue := st.table level index,
          newRoot := climb twoToOne value index (path st.table level index),
          newValue := value, index := index, siblings := path st.table level index } := by
  have hsib : (readProof st.getNodeValue level index).siblings = path st.table level index :=
    readSiblings_eq_path st.getNodeValue level index
  obtain ⟨htable, hvalue⟩ := setPath_path level index value st
  unfold setLeafFrom
  rw [hsib]
  refine ⟨htable, ?_⟩
  rw [← hvalue]
  rfl

/-- A written leaf is the only one that changes. -/
theorem setLeafFrom_leaves (level index : Nat) (value : Hash) :
    (st.setLeafFrom (readProof st.getNodeValue level index) level index value).1.table level =
      update (st.table level) index value := by
  rw [(setLeafFrom_spec st level index value).1, rehashSpan_leaf, set_level]

variable {level : Nat}

/-- Writing a leaf keeps a tree settled, be the leaf in the tree or beyond it. -/
theorem setLeafFrom_settled {st : RecorderStore Hash}
    (hs : Settled twoToOne st.table level) (index : Nat) (value : Hash) : Settled twoToOne
      (st.setLeafFrom (readProof st.getNodeValue level index) level index value).1.table level := by
  rw [(setLeafFrom_spec st level index value).1]
  exact hs.rehashSpan_of_leaf_writes (fun l i hout => set_of_ne _ _ (by omega))

/-- What writing one leaf at `level` of a settled tree does, and what its delta proof shows. -/
structure LeafWritten (st : RecorderStore Hash) (level index : Nat) (value : Hash)
    (res : RecorderStore Hash × DeltaMerkleProofCore Hash) : Prop where
  writes : Writes st res.1
  settled : Settled twoToOne res.1.table level
  leaves : res.1.table level = update (st.table level) index value
  oldRoot : res.2.oldRoot = st.getRoot
  newRoot : res.2.newRoot = res.1.getRoot
  index_eq : res.2.index = index
  oldClimb : climb twoToOne (st.table level index) index res.2.siblings = st.getRoot
  newClimb : climb twoToOne value index res.2.siblings = res.1.getRoot
  siblings_length : res.2.siblings.length = level

variable {index : Nat}

/-- **ONE LEAF.** -/
theorem setLeafFrom_written {st : RecorderStore Hash} (hs : Settled twoToOne st.table level)
    (hi : index < 2 ^ level) (value : Hash) : LeafWritten st level index value
      (st.setLeafFrom (readProof st.getNodeValue level index) level index value) := by
  obtain ⟨htable, hproof⟩ := setLeafFrom_spec st level index value
  have hsettled := setLeafFrom_settled hs index value
  have hleaves := setLeafFrom_leaves st level index value
  -- the columns beside the leaf are untouched
  obtain ⟨_, hold, hnew⟩ := climb_path_update hs hsettled (le_refl level) index (by
    intro l _ hl j hj
    rw [htable, rehashSpan_frame, set_of_ne]
    · intro h
      exact hj (by simp [h.1, h.2])
    · intro h
      exact hj (le_antisymm h.2.2 h.2.1))
  rw [hleaves, update_self] at hnew
  rw [div_eq_of_lt hi] at hold hnew
  exact
    { writes := writes_setPath _ _ _ _
      settled := hsettled
      leaves := hleaves
      oldRoot := by rw [hproof]
      newRoot := by rw [hproof]; exact hnew
      index_eq := by rw [hproof]
      oldClimb := by rw [hproof]; exact hold
      newClimb := by rw [hproof]; exact hnew
      siblings_length := by rw [hproof]; exact path_length _ _ _ }

theorem height_setLeaf (index : Nat) (value : Hash) :
    (st.setLeaf index value).1.height = st.height :=
  (writes_setPath _ _ _ _ : Writes st (st.setLeaf index value).1).height

/-- Reading a leaf after writing one. -/
theorem getLeafValue_setLeaf (index : Nat) (value : Hash) :
    (st.setLeaf index value).1.getLeafValue = update st.getLeafValue index value := by
  funext i
  unfold getLeafValue
  rw [height_setLeaf, getNodeValue_eq_table]
  exact congrFun (setLeafFrom_leaves st st.height index value) i

/-- The proof of a written leaf leads from the old root to the new one, whether or not the
rest of the tree is hashed correctly. -/
theorem setLeaf_roots (hi : index < 2 ^ st.height) (value : Hash) :
    (st.setLeaf index value).2.oldRoot = st.getRoot ∧
      (st.setLeaf index value).2.newRoot = (st.setLeaf index value).1.getRoot := by
  obtain ⟨htable, hproof⟩ := setLeafFrom_spec st st.height index value
  refine ⟨congrArg oldRoot hproof, ?_⟩
  have htop := rehashSpan_set_top twoToOne st.height st.table index value
  rw [div_eq_of_lt hi, ← htable] at htop
  exact (congrArg newRoot hproof).trans htop.symm

/-- The root after a leaf is written, along the siblings of its proof. -/
theorem getRoot_setLeaf (hi : index < 2 ^ st.height) (value : Hash) :
    computeRootMerkleProofGeneric value index (st.getLeaf index).siblings =
      (st.setLeaf index value).1.getRoot := by
  have hsib : (st.getLeaf index).siblings = path st.table st.height index :=
    readSiblings_eq_path st.getNodeValue st.height index
  have hproof := (setLeafFrom_spec st st.height index value).2
  rw [← (st.setLeaf_roots hi value).2, computeRootMerkleProofGeneric_eq_climb, hsib]
  exact (congrArg newRoot hproof).symm

/-! ## §3. Windows of leaves. -/

/-- Writing the values of a function over a span. -/
theorem table_setRun_map (level a n : Nat) (g : Nat → Hash) (l i : Nat) :
    (st.setRun level a ((range' a n).map g)).table l i =
      if l = level ∧ a ≤ i ∧ i < a + n then g i else st.table l i := by
  split
  next hin =>
    obtain ⟨rfl, hlo, hhi⟩ := hin
    obtain ⟨d, rfl⟩ := Nat.exists_eq_add_of_le hlo
    rw [table_setRun_level, writeRun_of_lt _ (by simp; omega)]
    simp
  next hout => exact table_setRun_frame st _ _ _ (by simpa using hout)

/-- The first loop of `rehash_sub_tree` rehashes the parents of the window's
leaves, and keeps their values. -/
theorem hashPairs_eq (l b n : Nat) (i : Nat) (vs : List Hash) (st : RecorderStore Hash) :
    (hashPairs (l + 1) (2 * b) n i vs st).1 = rehashParents l n (b + i) st ∧
      (hashPairs (l + 1) (2 * b) n i vs st).2 = vs ++ (range' (b + i) n).map
        (fun j => twoToOne (st.table (l + 1) (2 * j)) (st.table (l + 1) (2 * j + 1))) := by
  induction n generalizing i vs st with
  | zero => exact ⟨rfl, by simp [hashPairs]⟩
  | succ n ih =>
    have hleft : i * 2 + 2 * b = 2 * (b + i) := by ring
    have hsib : Lib.Merkle.sibling (2 * (b + i)) = 2 * (b + i) + 1 := by
      unfold Lib.Merkle.sibling; rw [if_pos (by omega)]
    have hhalf : 2 * (b + i) / 2 = b + i := by omega
    have hshift : (b + i) <<< 1 = 2 * (b + i) := by rw [shiftLeft_eq]; ring
    set v := twoToOne (st.table (l + 1) (2 * (b + i))) (st.table (l + 1) (2 * (b + i) + 1))
      with hv
    obtain ⟨hst, hvs⟩ := ih (i + 1) (vs ++ [v]) (st.setNodeValue ⟨l, b + i⟩ v)
    -- the writes go to level `l`, the reads to level `l + 1`
    have hread : ∀ j, (st.setNodeValue ⟨l, b + i⟩ v).table (l + 1) j = st.table (l + 1) j := by
      intro j
      rw [table_setNodeValue, set_of_ne _ _ (by omega)]
    simp only [hashPairs, rehashParents, sibling_mk,
      parent_mk_succ, getNodeValue_eq_table, hleft, hsib, hhalf, hshift, ← hv]
    refine ⟨hst, ?_⟩
    rw [hvs, range'_succ, map_cons, append_assoc, singleton_append]
    simp only [hread]
    rfl

/-- The `while` loop of `rehash_sub_tree` rehashes the levels inside the window. -/
theorem foldWindow_spec (n l b : Nat) (st : RecorderStore Hash) {values : List Hash}
    (hvalues : values = (range' (b * 2 ^ n) (2 ^ n)).map (st.table (l + n))) :
    (foldWindow n ⟨l + n, b * 2 ^ n⟩ values st).2.1 = ⟨l, b⟩ ∧
      rehashSpan twoToOne (foldWindow n ⟨l + n, b * 2 ^ n⟩ values st).1.table l b b =
        rehashSpan twoToOne st.table (l + n) (b * 2 ^ n) (b * 2 ^ n + 2 ^ n - 1) := by
  induction n generalizing l b st values with
  | zero => simp [foldWindow]
  | succ n ih =>
    have hpos : 0 < 2 ^ n := by positivity
    have hbase : b * 2 ^ (n + 1) = 2 * (b * 2 ^ n) := by ring
    have hwidth : 2 ^ (n + 1) = 2 * 2 ^ n := by ring
    -- the parents of the window, as the next store holds them
    set parents := (range' (b * 2 ^ n) (2 ^ n)).map
      (fun i => twoToOne (st.table (l + n + 1) (2 * i)) (st.table (l + n + 1) (2 * i + 1)))
      with hparents
    set st₁ := st.setRun (l + n) (b * 2 ^ n) parents with hst₁
    have hpair : pairUp twoToOne values = parents := by
      rw [hvalues, hbase, hwidth]
      exact pairUp_map (st.table (l + n + 1)) (2 ^ n) (b * 2 ^ n)
    have htable : st₁.table =
        rehashLevel twoToOne st.table (l + n) (b * 2 ^ n) (b * 2 ^ n + 2 ^ n - 1) := by
      funext l' i
      rw [hst₁, hparents, table_setRun_map, rehashLevel]
      by_cases hin : l' = l + n ∧ b * 2 ^ n ≤ i ∧ i < b * 2 ^ n + 2 ^ n
      · rw [if_pos hin, if_pos (by omega)]
      · rw [if_neg hin, if_neg (by omega)]
    have hvals : parents = (range' (b * 2 ^ n) (2 ^ n)).map (st₁.table (l + n)) := by
      rw [htable, map_rehashLevel]
    have hstep : foldWindow (n + 1) ⟨l + (n + 1), b * 2 ^ (n + 1)⟩ values st =
        foldWindow n ⟨l + n, b * 2 ^ n⟩ parents st₁ := by
      rw [foldWindow, hpair, hst₁]
      simp only [← Nat.add_assoc, parent_mk_succ, Nat.add_sub_cancel, hbase,
        shiftRight_eq_div_pow, pow_one, Nat.mul_div_cancel_left _ (show 0 < 2 by omega)]
    obtain ⟨hkey, hspan⟩ := ih l b st₁ hvals
    rw [hstep]
    refine ⟨hkey, ?_⟩
    rw [hspan, htable, ← Nat.add_assoc, rehashSpan, show b * 2 ^ (n + 1) / 2 = b * 2 ^ n by omega,
      show (b * 2 ^ (n + 1) + 2 ^ (n + 1) - 1) / 2 = b * 2 ^ n + 2 ^ n - 1 by omega]

/-- **`rehash_sub_tree`** of height at least 1 is a span rehash above the window. -/
theorem table_rehashSubTree {k : Nat} (i : Nat) (hk : 1 ≤ k) (hh : k ≤ st.height) :
    (st.rehashSubTree k i).table =
      rehashSpan twoToOne st.table st.height (i * 2 ^ k) (i * 2 ^ k + 2 ^ k - 1) := by
  obtain ⟨l, hl⟩ : ∃ l, st.height = l + 1 := ⟨st.height - 1, by omega⟩
  match k, hk with
  | 1, _ =>
    have hsib : Lib.Merkle.sibling (2 * i) = 2 * i + 1 := by
      unfold Lib.Merkle.sibling; rw [if_pos (by omega)]
    simp only [rehashSubTree, hl, Nat.mul_comm i 2, sibling_mk,
      parent_mk_succ, getNodeValue_eq_table, hsib, Nat.mul_div_cancel_left _ (show 0 < 2 by omega)]
    rw [table_rehashFromNodeToLevel, table_setNodeValue, pow_one, Nat.mul_comm i 2, rehashSpan,
      show 2 * i / 2 = i by omega, show (2 * i + 2 - 1) / 2 = i by omega, rehashLevel_single]
  | k + 2, _ =>
    have hpos : 0 < 2 ^ (k + 1) := by positivity
    have hshift : ∀ n, 1 <<< n = 2 ^ n := fun n => by rw [shiftLeft_eq, one_mul]
    have hbase : i * 2 ^ (k + 2) = 2 * (i * 2 ^ (k + 1)) := by ring
    have hwidth : 2 ^ (k + 2) = 2 * 2 ^ (k + 1) := by ring
    obtain ⟨m, rfl⟩ : ∃ m, l = m + (k + 1) := ⟨l - (k + 1), by omega⟩
    obtain ⟨hst, hvs⟩ := hashPairs_eq (m + (k + 1)) (i * 2 ^ (k + 1)) (2 ^ (k + 1)) 0 [] st
    rw [show i * 2 ^ (k + 1) + 0 = i * 2 ^ (k + 1) from rfl] at hst hvs
    set st₁ := rehashParents (m + (k + 1)) (2 ^ (k + 1)) (i * 2 ^ (k + 1)) st with hst₁
    have htable : st₁.table = rehashLevel twoToOne st.table (m + (k + 1)) (i * 2 ^ (k + 1))
        (i * 2 ^ (k + 1) + 2 ^ (k + 1) - 1) := table_rehashParents _ _ _ (by omega)
    have hvals : (hashPairs (m + (k + 1) + 1) (2 * (i * 2 ^ (k + 1))) (2 ^ (k + 1)) 0 [] st).2 =
        (range' (i * 2 ^ (k + 1)) (2 ^ (k + 1))).map (st₁.table (m + (k + 1))) := by
      rw [hvs, nil_append, htable, map_rehashLevel]
    obtain ⟨hkey, hspan⟩ := foldWindow_spec (k + 1) m i st₁ hvals
    rw [rehashSubTree_add_two]
    simp only [hl, hshift, hbase, parent_mk_succ,
      Nat.mul_div_cancel_left _ (show 0 < 2 by omega), hst, hkey]
    rw [table_rehashFromNodeToLevel, hspan, htable, rehashSpan,
      show 2 * (i * 2 ^ (k + 1)) / 2 = i * 2 ^ (k + 1) by omega,
      show (2 * (i * 2 ^ (k + 1)) + 2 ^ (k + 2) - 1) / 2 = i * 2 ^ (k + 1) + 2 ^ (k + 1) - 1
        by omega]

/-- **`rehash_sub_tree_dmp`** is the rehash, with a proof read off the table before and after. -/
theorem rehashSubTreeDmp_eq_ok {st st' : RecorderStore Hash} {k i : Nat}
    {dmp : DeltaMerkleProofCore Hash} (h : st.rehashSubTreeDmp k i = .ok (st', dmp)) :
    k ≤ st.height ∧ st' = st.rehashSubTree k i ∧
      dmp = ⟨st.getRoot, st.table (st.height - k) i, st'.getRoot, st'.table (st.height - k) i, i,
        path st'.table (st.height - k) i⟩ := by
  unfold rehashSubTreeDmp at h
  rw [ite_error_eq_ok, not_lt] at h
  obtain ⟨hk, h⟩ := h
  dsimp only at h
  rw [map_siblings_eq_path] at h
  cases h
  exact ⟨hk, rfl, rfl⟩

end PsyNode.Recorder.SimpleMemoryMerkleRecorderStore
