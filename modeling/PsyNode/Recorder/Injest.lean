/-
PsyNode.Recorder.Injest
**WHEN INJESTED PROOFS CAN BE READ BACK** — `injest_merkle_proof` of the recorder store and of
`PsyMemoryMerkleStoreImm`.

Both write the leaf and the siblings of a proof.  The recorder then rehashes from the leaf; the
trait's function rehashes from where its loop has ended, which is the root, so that the root stays
as it was.  `injest_merkle_proof_retrievable_iff` says after which proofs they can be read back.
-/
import PsyNode.Store.Imm
import PsyNode.Recorder.Tree

namespace PsyNode.Store.PsyMemoryMerkleStoreImm

open Merkle Recorder

section
variable {S Hash : Type} [PsyMemoryMerkleStoreImm S Hash]

/-- `get_leaf`: the root is read at the node that the path ends at. -/
def getLeaf (s : S) (index : Nat) : MerkleProofCore Hash where
  index := index
  siblings := (SimpleMerkleNodeKey.siblings ⟨getHeight s, index⟩).map (getNodeValue s)
  root := getNodeValue s (SimpleMerkleNodeKey.parent^[getHeight s] ⟨getHeight s, index⟩)
  value := getNodeValue s ⟨getHeight s, index⟩

/-- The loop over the siblings, with the key it ends at. -/
def injestSiblings : List Hash → NodeKey → S → S × NodeKey
  | [], currentKey, s => (s, currentKey)
  | siblingHash :: siblings, currentKey, s =>
    injestSiblings siblings currentKey.parent (setNodeValue s currentKey.sibling siblingHash)

def injestMerkleProof [MerkleHasher Hash] (s : S) (proof : MerkleProofCore Hash) :
    Except String S :=
  let currentKey : NodeKey := ⟨getHeight s, proof.index⟩
  if getHeight s ≠ proof.siblings.length then .error "proof height does not match tree height"
  else
    let (s, currentKey) :=
      injestSiblings proof.siblings currentKey (setNodeValue s currentKey proof.value)
    .ok (rehashFromNodeToLevel s currentKey 0)

end

/-- **THE TRAIT'S FUNCTION LEAVES THE ROOT ALONE.**  A proof for the left leaf of a tree of two. -/
theorem injest_merkle_proof_keeps_empty_root :
    let proof : MerkleProofCore SymHash :=
      ⟨.node (.leaf 1) (.leaf 2), .leaf 1, 0, [.leaf 2]⟩
    let empty : SimpleMemoryMerkleStoreV3 SymHash := .new 1
    proof.verify = true ∧ ∃ s, injestMerkleProof empty proof = .ok s ∧
      getRoot s = getRoot empty ∧ getRoot s ≠ proof.root :=
  ⟨by decide, _, rfl, rfl, by decide⟩

end PsyNode.Store.PsyMemoryMerkleStoreImm

namespace PsyNode.Merkle.MerkleProofCore

open Lib.Merkle Lib List

variable {Hash : Type} [MerkleZeroHasher Hash]

/-! ## §1. Proofs of one root. -/

/-- A proof of a root that verifies, with one sibling per level. -/
structure Opens (height : Nat) (root : Hash) (proof : MerkleProofCore Hash) : Prop where
  length : proof.siblings.length = height
  climb : climb twoToOne proof.value proof.index proof.siblings = root

/-- The table with a proof filled in. -/
def fill (T : Table Hash) (proof : MerkleProofCore Hash) : Table Hash :=
  fillProof twoToOne T proof.index proof.value proof.siblings

/-- The table holds a proof. -/
def Held (T : Table Hash) (proof : MerkleProofCore Hash) : Prop :=
  Holds twoToOne T proof.index proof.value proof.siblings

variable {height : Nat} {root : Hash} {proofs : List (MerkleProofCore Hash)}

theorem Held.foldl_fill (hinj : CollisionFree Hash)
    (hproofs : ∀ proof ∈ proofs, Opens height root proof) {T : Table Hash}
    {proof : MerkleProofCore Hash} (hproof : Opens height root proof) (h : Held T proof) :
    Held (proofs.foldl fill T) proof := by
  induction proofs generalizing T with
  | nil => exact h
  | cons first proofs ih =>
    obtain ⟨hfirst, hproofs⟩ := forall_mem_cons.mp hproofs
    exact ih hproofs (Holds.fill hinj h (hfirst.length.trans hproof.length.symm)
      (hfirst.climb.trans hproof.climb.symm))

/-- **PROOFS OF ONE ROOT ARE ALL HELD** once they are filled in, in any order; several of them, if
the hash has no collisions. -/
theorem held_foldl_fill (hinj : 1 < proofs.length → CollisionFree Hash)
    (hproofs : ∀ proof ∈ proofs, Opens height root proof) (T : Table Hash) :
    ∀ proof ∈ proofs, Held (proofs.foldl fill T) proof := by
  induction proofs generalizing T with
  | nil => simp
  | cons first proofs ih =>
    obtain ⟨hfirst, hrest⟩ := forall_mem_cons.mp hproofs
    refine forall_mem_cons.mpr
      ⟨?_, ih (fun hlen => hinj (Nat.lt_succ_of_lt hlen)) hrest (fill T first)⟩
    have hheld : Held (fill T first) first := holds_fillProof T _ _ _
    cases proofs with
    | nil => exact hheld
    | cons second proofs =>
      exact Held.foldl_fill (hinj (by simp)) hrest hfirst hheld

/-- The top of the table: the root, if a proof ends there, otherwise what it was. -/
theorem foldl_fill_top (hproofs : ∀ proof ∈ proofs, Opens height root proof) (T : Table Hash) :
    proofs.foldl fill T 0 0 =
      if ∃ proof ∈ proofs, proof.index < 2 ^ height then root else T 0 0 := by
  induction proofs using List.reverseRecOn with
  | nil => simp
  | append_singleton proofs last ih =>
    obtain ⟨hproofs, hlast⟩ := forall_mem_append.mp hproofs
    have hlast := hlast last (mem_singleton_self _)
    rw [foldl_append, foldl_cons, foldl_nil]
    by_cases hin : last.index < 2 ^ height
    · rw [if_pos ⟨last, by simp, hin⟩]
      have htop := (@holds_fillProof Hash twoToOne (proofs.foldl fill T) last.index last.value
        last.siblings).top
      rw [hlast.climb, hlast.length, Nat.div_eq_of_lt hin] at htop
      exact htop
    · have hout : 0 ≠ last.index / 2 ^ last.siblings.length := by
        rw [hlast.length]
        exact (Nat.div_pos (not_lt.mp hin) (Nat.two_pow_pos _)).ne
      rw [fill, fillProof_top hout, ih hproofs]
      congr 1
      simp [hin]

omit [MerkleZeroHasher Hash] in
theorem eq_iff {index : Nat} {siblings : List Hash} {top value : Hash}
    {proof : MerkleProofCore Hash} (hindex : index = proof.index)
    (hvalue : value = proof.value) (hsiblings : siblings = proof.siblings) :
    (⟨top, value, index, siblings⟩ : MerkleProofCore Hash) = proof ↔ top = proof.root := by
  subst hindex hvalue hsiblings
  constructor
  · exact congrArg root
  · rintro rfl
    rfl

omit [MerkleZeroHasher Hash] in
/-- Proofs of one root are read under `top` if `top` is that root. -/
theorem forall_read_iff {read : MerkleProofCore Hash → Prop} {top : Hash}
    (hroot : ∀ proof ∈ proofs, proof.root = root)
    (hread : top = root → ∀ proof ∈ proofs, read proof) :
    (∀ proof ∈ proofs, top = proof.root ∧ read proof) ↔ proofs = [] ∨ top = root := by
  constructor
  · intro hall
    rcases proofs with _ | ⟨proof, proofs⟩
    · exact .inl rfl
    · exact .inr ((hall proof mem_cons_self).1.trans (hroot proof mem_cons_self))
  · rintro (rfl | htop) proof hmem
    · simp at hmem
    · exact ⟨htop.trans (hroot proof hmem).symm, hread htop proof hmem⟩

end PsyNode.Merkle.MerkleProofCore

namespace PsyNode.Recorder

open Merkle Lib.Merkle Lib List MerkleProofCore

variable {Hash : Type} [MerkleZeroHasher Hash] {height : Nat} {root : Hash}
  {proofs : List (MerkleProofCore Hash)}

/-! ## §2. The recorder. -/

namespace SimpleMemoryMerkleRecorderStore

variable [DecidableEq Hash]

/-- The loop over the siblings. -/
def injestSiblings : List Hash → NodeKey → RecorderStore Hash → RecorderStore Hash
  | [], _, st => st
  | siblingHash :: siblings, currentKey, st =>
    injestSiblings siblings currentKey.parent (st.setNodeValue currentKey.sibling siblingHash)

def injestMerkleProof (st : RecorderStore Hash) (proof : MerkleProofCore Hash) :
    Except String (RecorderStore Hash) :=
  let baseKey : NodeKey := ⟨proof.siblings.length, proof.index⟩
  if st.height ≠ proof.siblings.length then .error "proof height does not match tree height"
  else
    let st := injestSiblings proof.siblings baseKey (st.setNodeValue baseKey proof.value)
    .ok (st.rehashFromNodeToLevel baseKey 0)

theorem injestSiblings_spec (ss : List Hash) (i : Nat) (st : RecorderStore Hash) :
    Writes st (injestSiblings ss ⟨ss.length, i⟩ st) ∧
      (injestSiblings ss ⟨ss.length, i⟩ st).table = setSiblings st.table i ss := by
  induction ss generalizing i st with
  | nil => exact ⟨.refl st, rfl⟩
  | cons s ss ih =>
    obtain ⟨hwrites, htable⟩ := ih (i / 2) (st.setNodeValue ⟨ss.length + 1, sibling i⟩ s)
    rw [injestSiblings, List.length_cons, SimpleMerkleNodeKey.sibling_mk,
      SimpleMerkleNodeKey.parent_mk_succ, setSiblings, ← table_setNodeValue]
    exact ⟨hwrites.head, htable⟩

theorem injestMerkleProof_spec {st : RecorderStore Hash} {proof : MerkleProofCore Hash}
    (hlen : proof.siblings.length = st.height) :
    ∃ st', st.injestMerkleProof proof = .ok st' ∧ st'.height = st.height ∧
      st'.table = fill st.table proof := by
  obtain ⟨hwrites, htable⟩ := injestSiblings_spec proof.siblings proof.index
    (st.setNodeValue ⟨proof.siblings.length, proof.index⟩ proof.value)
  refine ⟨_, if_neg (not_not.mpr hlen.symm), ?_, ?_⟩
  · exact (hwrites.head.trans (writes_rehashFromNode _ _)).height
  · rw [fill, fillProof, ← table_setNodeValue, ← htable, ← table_rehashFromNodeToLevel]

theorem injest_run (hproofs : ∀ proof ∈ proofs, Opens height root proof)
    {st : RecorderStore Hash} (hst : st.height = height) :
    ∃ st', proofs.foldlM injestMerkleProof st = .ok st' ∧ st'.height = height ∧
      st'.table = proofs.foldl fill st.table := by
  induction proofs generalizing st with
  | nil => exact ⟨st, rfl, hst, rfl⟩
  | cons first proofs ih =>
    obtain ⟨hfirst, hproofs⟩ := forall_mem_cons.mp hproofs
    obtain ⟨st₁, hok, hheight, htable⟩ := injestMerkleProof_spec (hfirst.length.trans hst.symm)
    obtain ⟨st', hrun, hheight', htable'⟩ := ih hproofs (hheight.trans hst)
    refine ⟨st', ?_, hheight', ?_⟩
    · rw [foldlM_cons, hok]
      exact hrun
    · rw [htable', htable, foldl_cons]

omit [DecidableEq Hash] in
theorem getLeaf_eq_iff {st : RecorderStore Hash} {proof : MerkleProofCore Hash}
    (hlen : proof.siblings.length = st.height) (h : Held st.table proof) :
    st.getLeaf proof.index = proof ↔ st.getRoot = proof.root := by
  have hvalue := h.value
  have hpath := h.path
  rw [hlen] at hvalue hpath
  rw [getLeaf, readProof, readSiblings_eq_path]
  exact MerkleProofCore.eq_iff rfl hvalue hpath

/-- The recorder shows the proofs unless their root is not written: the tree's root is node
`(0, 0)`, and a proof beyond the tree's width ends beside it. -/
theorem injest_iff (hinj : 1 < proofs.length → CollisionFree Hash)
    (hopens : ∀ proof ∈ proofs, Opens height root proof)
    (hroot : ∀ proof ∈ proofs, proof.root = root) :
    ∃ st, proofs.foldlM injestMerkleProof (new height) = .ok st ∧
      ((∀ proof ∈ proofs, st.getRoot = proof.root ∧ st.getLeaf proof.index = proof) ↔
        proofs = [] ∨ root = getZeroHash height ∨ ∃ proof ∈ proofs, proof.index < 2 ^ height) := by
  let empty : RecorderStore Hash := .new height
  have hzero : empty.table 0 0 = getZeroHash height := rfl
  obtain ⟨st, hrun, hheight, htable⟩ :=
    @injest_run Hash _ _ _ _ _ hopens empty rfl
  have hheld := held_foldl_fill hinj hopens empty.table
  have htop := foldl_fill_top hopens empty.table
  rw [← htable] at hheld htop
  have hread : st.getRoot = root → ∀ proof ∈ proofs, st.getLeaf proof.index = proof := by
    intro hst proof hmem
    have hlen := (hopens proof hmem).length.trans hheight.symm
    exact (getLeaf_eq_iff hlen (hheld proof hmem)).mpr (hst.trans (hroot proof hmem).symm)
  refine ⟨st, hrun, (forall_read_iff hroot hread).trans ?_⟩
  show _ ∨ st.table 0 0 = root ↔ _
  rw [htop, hzero]
  split
  next hin => simp [hin]
  next hout => simp [hout, eq_comm]

end SimpleMemoryMerkleRecorderStore

end PsyNode.Recorder

/-! ## §3. The provided function of the trait. -/

namespace PsyNode.Store.PsyMemoryMerkleStoreImm

open Merkle Lib.Merkle Lib List MerkleProofCore LawfulMerkleStore

variable {S Hash : Type} [MerkleZeroHasher Hash] [PsyMemoryMerkleStoreImm S Hash]
  [LawfulMerkleStore S]

/-- The nodes of the store by level and index. -/
def nodes (s : S) : Table Hash := fun l i => getNodeValue s ⟨l, i⟩

/-- Every node of the store is empty or as in the table. -/
structure PartOf (T : Table Hash) (s : S) : Prop where
  valid : Valid s
  node : ∀ l i, nodes s l i = T l i ∨ nodes s l i = getZeroHash (getHeight s - l)

/-- From `s` to `s'` nodes below the root are written, with the table's values. -/
structure Fills (T : Table Hash) (s s' : S) : Prop where
  height : getHeight s' = getHeight s
  part : PartOf T s → PartOf T s'
  keep : PartOf T s → ∀ l i, nodes s l i = T l i → nodes s' l i = T l i
  top : 0 < getHeight s → ∀ i, nodes s' 0 i = nodes s 0 i

variable {T : Table Hash} {s s₁ s' : S}

theorem Fills.refl : Fills T s s := ⟨rfl, id, fun _ _ _ h => h, fun _ _ => rfl⟩

theorem Fills.trans (h : Fills T s s₁) (h' : Fills T s₁ s') : Fills T s s' where
  height := h'.height.trans h.height
  part hpart := h'.part (h.part hpart)
  keep hpart l i hnode := h'.keep (h.part hpart) l i (h.keep hpart l i hnode)
  top hpos i := (h'.top (h.height ▸ hpos) i).trans (h.top hpos i)

theorem Fills.path_eq (h : Fills T s s') (hpart : PartOf T s) {l i : Nat}
    (hpath : path (nodes s) l i = path T l i) : path (nodes s') l i = path T l i := by
  induction l generalizing i with
  | zero => rfl
  | succ l ih =>
    obtain ⟨hhead, htail⟩ := List.cons.inj hpath
    rw [path, path, h.keep hpart _ _ hhead, ih htail]

/-- One write. -/
theorem fills_setNodeValue {l i : Nat} {v : Hash} (hv : T l i = v)
    (hl : 0 < getHeight s → 0 < l) :
    Fills T s (setNodeValue s ⟨l, i⟩ v) ∧
      (PartOf T s → nodes (setNodeValue s ⟨l, i⟩ v) l i = T l i) := by
  have hheight := getHeight_set s ⟨l, i⟩ v
  have hoff : ∀ l' i', ¬ (l' = l ∧ i' = i) →
      nodes (setNodeValue s ⟨l, i⟩ v) l' i' = nodes s l' i' := by
    intro l' i' hne
    apply get_set_of_ne
    rwa [Ne, SimpleMerkleNodeKey.mk.injEq]
  have hself : PartOf T s → nodes (setNodeValue s ⟨l, i⟩ v) l i = T l i := by
    intro hpart
    rcases get_set_self s ⟨l, i⟩ v hpart.valid with hset | ⟨hne, hset⟩
    · exact hset.trans hv.symm
    · rw [zero_eq] at hne
      exact hset.trans ((hpart.node l i).resolve_right hne)
  have hkeep : PartOf T s → ∀ l' i', nodes s l' i' = T l' i' →
      nodes (setNodeValue s ⟨l, i⟩ v) l' i' = T l' i' := by
    intro hpart l' i' hnode
    by_cases hat : l' = l ∧ i' = i
    · obtain ⟨rfl, rfl⟩ := hat
      exact hself hpart
    · exact (hoff l' i' hat).trans hnode
  refine ⟨⟨hheight, fun hpart => ⟨valid_set s _ v hpart.valid, ?_⟩, hkeep, ?_⟩, hself⟩
  · intro l' i'
    rw [hheight]
    by_cases hat : l' = l ∧ i' = i
    · obtain ⟨rfl, rfl⟩ := hat
      exact .inl (hself hpart)
    · rw [hoff l' i' hat]
      exact hpart.node l' i'
  · intro hpos j
    exact hoff 0 j (fun hat => absurd (hl hpos) (hat.1 ▸ lt_irrefl 0))

/-- The loop writes the siblings that the table has, and ends at the root. -/
theorem injestSiblings_fills {ss : List Hash} {i : Nat} (hpath : path T ss.length i = ss) :
    Fills T s (injestSiblings ss ⟨ss.length, i⟩ s).1 ∧
      (injestSiblings ss ⟨ss.length, i⟩ s).2.level = 0 ∧
      (PartOf T s →
        path (nodes (injestSiblings ss ⟨ss.length, i⟩ s).1) ss.length i = path T ss.length i) := by
  induction ss generalizing i s with
  | nil => exact ⟨.refl, rfl, fun _ => rfl⟩
  | cons v ss ih =>
    obtain ⟨hhead, htail⟩ := List.cons.inj hpath
    rw [List.length_cons, injestSiblings, SimpleMerkleNodeKey.sibling_mk,
      SimpleMerkleNodeKey.parent_mk_succ]
    obtain ⟨hset, hself⟩ := fills_setNodeValue (s := s) hhead (fun _ => Nat.succ_pos _)
    obtain ⟨hrest, hlevel, hread⟩ := ih (s := setNodeValue s ⟨ss.length + 1, sibling i⟩ v) htail
    refine ⟨hset.trans hrest, hlevel, fun hpart => ?_⟩
    rw [path, path, hread (hset.part hpart), hrest.keep (hset.part hpart) _ _ (hself hpart)]

theorem injestMerkleProof_fills {proof : MerkleProofCore Hash}
    (hlen : proof.siblings.length = getHeight s) (h : Held T proof) :
    ∃ s', injestMerkleProof s proof = .ok s' ∧ Fills T s s' ∧ (PartOf T s →
      nodes s' (getHeight s) proof.index = T (getHeight s) proof.index ∧
      path (nodes s') (getHeight s) proof.index = path T (getHeight s) proof.index) := by
  have hvalue := h.value
  have hpath := h.path
  rw [hlen] at hvalue
  obtain ⟨hset, hself⟩ := fills_setNodeValue (s := s) hvalue id
  obtain ⟨hrest, hlevel, hread⟩ := injestSiblings_fills
    (s := setNodeValue s ⟨getHeight s, proof.index⟩ proof.value) hpath
  rw [hlen] at hrest hlevel hread
  refine ⟨_, if_neg (not_not.mpr hlen.symm), ?_, ?_⟩
  all_goals rw [rehashFromNodeToLevel, hlevel]
  · exact hset.trans hrest
  · exact fun hpart =>
      ⟨hrest.keep (hset.part hpart) _ _ (hself hpart), hread (hset.part hpart)⟩

/-- **INJESTING PROOFS THAT ONE TABLE HOLDS** writes that table's nodes below the root. -/
theorem injest_run {height : Nat} {proofs : List (MerkleProofCore Hash)}
    (hproofs : ∀ proof ∈ proofs, proof.siblings.length = height ∧ Held T proof)
    (hs : getHeight s = height) :
    ∃ s', proofs.foldlM injestMerkleProof s = .ok s' ∧ Fills T s s' ∧ (PartOf T s →
      ∀ proof ∈ proofs, nodes s' height proof.index = T height proof.index ∧
        path (nodes s') height proof.index = path T height proof.index) := by
  induction proofs generalizing s with
  | nil => exact ⟨s, rfl, .refl, by simp⟩
  | cons first proofs ih =>
    obtain ⟨⟨hlen, hheld⟩, hproofs⟩ := forall_mem_cons.mp hproofs
    obtain ⟨s₁, hok, hfirst, hread⟩ := injestMerkleProof_fills (hlen.trans hs.symm) hheld
    obtain ⟨s', hrun, hrest, hreads⟩ := ih hproofs (hfirst.height.trans hs)
    refine ⟨s', ?_, hfirst.trans hrest, fun hpart => forall_mem_cons.mpr ⟨?_, ?_⟩⟩
    · rw [foldlM_cons, hok]
      exact hrun
    · rw [hs] at hread
      have hpart₁ := hfirst.part hpart
      obtain ⟨hvalue, hpath⟩ := hread hpart
      exact ⟨hrest.keep hpart₁ _ _ hvalue, hrest.path_eq hpart₁ hpath⟩
    · exact hreads (hfirst.part hpart)

theorem parent_iterate (n i : Nat) : SimpleMerkleNodeKey.parent^[n] ⟨n, i⟩ = ⟨0, i / 2 ^ n⟩ := by
  induction n generalizing i with
  | zero => simp
  | succ n ih =>
    rw [Function.iterate_succ_apply, SimpleMerkleNodeKey.parent_mk_succ, ih, pow_succ',
      Nat.div_div_eq_div_mul]

omit [MerkleZeroHasher Hash] [LawfulMerkleStore S] in
theorem getLeaf_eq_iff {height : Nat} {proof : MerkleProofCore Hash} (hs : getHeight s = height)
    (hvalue : nodes s height proof.index = proof.value)
    (hpath : path (nodes s) height proof.index = proof.siblings) :
    getLeaf s proof.index = proof ↔ nodes s 0 (proof.index / 2 ^ height) = proof.root := by
  rw [getLeaf, hs, map_siblings_eq_path, parent_iterate]
  exact MerkleProofCore.eq_iff rfl hvalue hpath

/-- The trait's function shows them if their root is that of an empty tree.  A tree of one leaf is
all root. -/
theorem injest_iff {height : Nat} {root : Hash} {proofs : List (MerkleProofCore Hash)}
    (hinj : 1 < proofs.length → CollisionFree Hash)
    (hopens : ∀ proof ∈ proofs, Opens height root proof)
    (hroot : ∀ proof ∈ proofs, proof.root = root) (hvalid : Valid s) (hs : getHeight s = height)
    (hempty : ∀ key, getNodeValue s key = getZeroHash (height - key.level)) :
    ∃ s', proofs.foldlM injestMerkleProof s = .ok s' ∧
      ((∀ proof ∈ proofs, getRoot s' = proof.root ∧ getLeaf s' proof.index = proof) ↔
        proofs = [] ∨ root = getZeroHash height ∨
          height = 0 ∧ ∃ proof ∈ proofs, proof.index = 0) := by
  have hheld := held_foldl_fill hinj hopens (nodes s)
  have htop := foldl_fill_top hopens (nodes s)
  generalize proofs.foldl fill (nodes s) = T at hheld htop
  obtain ⟨s', hrun, hfills, hread⟩ :=
    injest_run (fun proof hmem => ⟨(hopens proof hmem).length, hheld proof hmem⟩) hs
  have hpart : PartOf T s := ⟨hvalid, fun l i => .inr (hs ▸ hempty ⟨l, i⟩)⟩
  have hheight : getHeight s' = height := hfills.height.trans hs
  have hleaf : ∀ proof ∈ proofs,
      (getLeaf s' proof.index = proof ↔ nodes s' 0 (proof.index / 2 ^ height) = root) := by
    intro proof hmem
    obtain ⟨hvalue, hpath⟩ := hread hpart proof hmem
    have hheld := hheld proof hmem
    rw [← (hopens proof hmem).length] at hvalue hpath hheight ⊢
    rw [getLeaf_eq_iff hheight (hvalue.trans hheld.value) (hpath.trans hheld.path),
      hroot proof hmem]
  rcases Nat.eq_zero_or_pos height with rfl | hpos
  · -- a tree of one node: each proof writes its own, and node (0, 0) may be beside them all
    have hone : ∀ proof ∈ proofs, nodes s' 0 proof.index = root := by
      intro proof hmem
      have hclimb := (hheld proof hmem).top
      rw [(hopens proof hmem).climb, (hopens proof hmem).length, pow_zero, Nat.div_one] at hclimb
      exact (hread hpart proof hmem).1.trans hclimb
    refine ⟨s', hrun, (forall_read_iff hroot fun _ proof hmem => (hleaf proof hmem).mpr ?_).trans
      (or_congr_right ?_)⟩
    · rw [pow_zero, Nat.div_one]
      exact hone proof hmem
    · show nodes s' 0 0 = root ↔ _
      by_cases hin : ∃ proof ∈ proofs, proof.index = 0
      · obtain ⟨proof, hmem, hzero⟩ := hin
        exact iff_of_true (hzero ▸ hone proof hmem) (.inr ⟨rfl, proof, hmem, hzero⟩)
      · have hbeside : T 0 0 = getZeroHash 0 := by
          rw [htop, if_neg (by simpa using hin)]
          exact hempty ⟨0, 0⟩
        have hempty' : nodes s' 0 0 = getZeroHash 0 := by
          rcases (hfills.part hpart).node 0 0 with h | h
          · exact h.trans hbeside
          · rwa [hheight] at h
        rw [hempty']
        simp [hin, eq_comm]
  · -- the root is written by no proof
    have hside : ∀ i, nodes s' 0 i = getZeroHash height := by
      intro i
      rw [hfills.top (hs ▸ hpos)]
      exact hempty ⟨0, i⟩
    refine ⟨s', hrun, (forall_read_iff hroot fun htop proof hmem =>
      (hleaf proof hmem).mpr ?_).trans (or_congr_right ?_)⟩
    · rw [hside]
      exact (hside 0).symm.trans htop
    · show nodes s' 0 0 = root ↔ _
      rw [hside]
      simp [hpos.ne', eq_comm]

end PsyNode.Store.PsyMemoryMerkleStoreImm

/-! ## §4. Both. -/

namespace PsyNode.Recorder

open Merkle List MerkleProofCore
open Store (LawfulMerkleStore PsyMemoryMerkleStoreImm)

variable {Hash : Type} [MerkleZeroHasher Hash] [DecidableEq Hash]

/-- **WHEN INJESTED PROOFS ARE RETRIEVABLE.**  Verifying proofs of one root, injested into an empty
store in any order, are all read back with that root.  From the recorder they are exactly if one
of them is of a leaf within the tree or the root is that of an empty tree; from a store with the
trait's function, exactly if the root is that of an empty tree or the tree is a single node. -/
theorem injest_merkle_proof_retrievable_iff (height : Nat) (root : Hash)
    (proofs : List (MerkleProofCore Hash))
    (hproofs : ∀ proof ∈ proofs,
      proof.verify = true ∧ proof.siblings.length = height ∧ proof.root = root)
    (hinj : 1 < proofs.length →
      ∀ a b c d : Hash, twoToOne a b = twoToOne c d → a = c ∧ b = d) :
    (∃ st : SimpleMemoryMerkleRecorderStore Hash,
      proofs.foldlM SimpleMemoryMerkleRecorderStore.injestMerkleProof (.new height) = .ok st ∧
      ((∀ proof ∈ proofs, st.getRoot = proof.root ∧ st.getLeaf proof.index = proof) ↔
        proofs = [] ∨ root = getZeroHash height ∨ ∃ proof ∈ proofs, proof.index < 2 ^ height)) ∧
    ∀ (S : Type) [PsyMemoryMerkleStoreImm S Hash] [LawfulMerkleStore S] (s : S),
      LawfulMerkleStore.Valid s → PsyMemoryMerkleStoreImm.getHeight s = height →
      (∀ key, PsyMemoryMerkleStoreImm.getNodeValue s key = getZeroHash (height - key.level)) →
      ∃ s', proofs.foldlM PsyMemoryMerkleStoreImm.injestMerkleProof s = .ok s' ∧
        ((∀ proof ∈ proofs, PsyMemoryMerkleStoreImm.getRoot s' = proof.root ∧
            PsyMemoryMerkleStoreImm.getLeaf s' proof.index = proof) ↔
          proofs = [] ∨ root = getZeroHash height ∨
            height = 0 ∧ ∃ proof ∈ proofs, proof.index = 0) := by
  have hopens : ∀ proof ∈ proofs, Opens height root proof := by
    intro proof hmem
    obtain ⟨hverify, hlen, hroot⟩ := hproofs proof hmem
    exact ⟨hlen, (proof.verify_iff.mp hverify).2.trans hroot⟩
  have hroot : ∀ proof ∈ proofs, proof.root = root := fun proof hmem => (hproofs proof hmem).2.2
  refine ⟨SimpleMemoryMerkleRecorderStore.injest_iff hinj hopens hroot, ?_⟩
  intro S _ _ s hvalid hs hempty
  exact PsyMemoryMerkleStoreImm.injest_iff hinj hopens hroot hvalid hs hempty

/-- Both leaves of a tree of two: the recorder shows them, an empty `SimpleMemoryMerkleStoreV3`
with the trait's function does not. -/
theorem injest_merkle_proof_both_leaves :
    let root := SymHash.node (.leaf 1) (.leaf 2)
    let proofs : List (MerkleProofCore SymHash) :=
      [⟨root, .leaf 1, 0, [.leaf 2]⟩, ⟨root, .leaf 2, 1, [.leaf 1]⟩]
    (∃ st : SimpleMemoryMerkleRecorderStore SymHash,
      proofs.foldlM SimpleMemoryMerkleRecorderStore.injestMerkleProof (.new 1) = .ok st ∧
        ∀ proof ∈ proofs, st.getRoot = proof.root ∧ st.getLeaf proof.index = proof) ∧
    ∃ s' : Store.SimpleMemoryMerkleStoreV3 SymHash,
      proofs.foldlM PsyMemoryMerkleStoreImm.injestMerkleProof (.new 1) = .ok s' ∧
        ¬ ∀ proof ∈ proofs, PsyMemoryMerkleStoreImm.getRoot s' = proof.root ∧
          PsyMemoryMerkleStoreImm.getLeaf s' proof.index = proof := by
  intro root proofs
  have hproofs : ∀ proof ∈ proofs,
      proof.verify = true ∧ proof.siblings.length = 1 ∧ proof.root = root :=
    forall_mem_cons.mpr ⟨⟨by decide, rfl, rfl⟩, forall_mem_singleton.mpr ⟨by decide, rfl, rfl⟩⟩
  obtain ⟨⟨st, hok, hread⟩, htrait⟩ := injest_merkle_proof_retrievable_iff 1 root proofs hproofs
    (fun _ _ _ _ _ h => SymHash.node.inj h)
  obtain ⟨s', hok', hread'⟩ := htrait (Store.SimpleMemoryMerkleStoreV3 SymHash) (.new 1) trivial rfl
    (fun _ => rfl)
  refine ⟨⟨st, hok, hread.mpr (.inr (.inr ⟨_, mem_cons_self, by decide⟩))⟩, s', hok', ?_⟩
  rw [hread']
  decide

end PsyNode.Recorder
