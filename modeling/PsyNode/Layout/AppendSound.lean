/-
PsyNode.Layout.AppendSound
**AN ACCEPTED BATCH ONLY APPENDS.**  The window of an accepted batch is opened
against the old root, so its old leaves are the hashes that the root commits to
(`opened_window`); the loop leaves them and puts the hashes of the fields after
them (`AppendedUpTo`); and the count in the commitment says that no field of the
batch is left over.  `layout_append_extends` assembles the three.
-/
import PsyNode.Layout.Append
import PsyNode.Merkle.Roots

namespace PsyNode.Layout

open Merkle Lib.Merkle Lib List LayoutAppendBatchWitness

/-! ## §1. Roots of padded lists. -/

section
variable {Hash : Type} [MerkleHasher Hash] {leaves : List Hash}

variable (F : Type) [QFelt64 F] [HashTo4Felts F Hash]

/-- The padded root of a list. -/
theorem paddedMerkleRoot_eq_ok {treeHeight : Nat} {root : Hash} :
    paddedMerkleRoot F leaves treeHeight = .ok root ↔
      treeHeight < 64 ∧ leaves.length ≤ 2 ^ treeHeight ∧
      subRoot twoToOne (fun j => leaves.getD j (zeroHash F)) treeHeight 0 = root := by
  unfold paddedMerkleRoot
  simp only [bind_eq_ok, checkedCapacity_eq_ok, ite_error_eq_ok, not_not]
  constructor
  · rintro ⟨_, ⟨hheight, rfl⟩, hle, h⟩
    rw [computeRootFromLeaves_padded _ hle] at h
    exact ⟨hheight, hle, Except.ok.inj h⟩
  · rintro ⟨hheight, hle, rfl⟩
    exact ⟨_, ⟨hheight, rfl⟩, hle, computeRootFromLeaves_padded _ hle⟩

variable [DecidableEq Hash]

/-- What a verified window says. -/
theorem verify_window_inv {proof : SpidermanUpdateProof Hash} (z : Hash) (h : proof.verify = true) :
    let k := getWebSubTreeHeight proof
    proof.webProofOldLeaves.length = 2 ^ k ∧ proof.webProofNewLeaves.length = 2 ^ k ∧
    climb twoToOne (subRoot twoToOne (fun j => proof.webProofOldLeaves.getD j z) k 0)
      proof.topLineProof.index proof.topLineProof.siblings = proof.topLineProof.oldRoot ∧
    climb twoToOne (subRoot twoToOne (fun j => proof.webProofNewLeaves.getD j z) k 0)
      proof.topLineProof.index proof.topLineProof.siblings = proof.topLineProof.newRoot := by
  unfold SpidermanUpdateProof.verify at h
  dsimp only at h
  split at h
  next => cases h
  next hlengths =>
    rw [not_or, not_not, not_not] at hlengths
    obtain ⟨hold, hnew⟩ := hlengths
    split at h
    next => cases h
    next htop =>
      rw [Bool.not_eq_true', Bool.not_eq_false, DeltaMerkleProofCore.verify_iff] at htop
      obtain ⟨_, holdRoot, hnewRoot⟩ := htop
      rw [computeRootFromLeaves_getD z (hold.trans hnew), computeRootFromLeaves_getD z hnew] at h
      simp only [decide_eq_true_eq] at h
      obtain ⟨holdValue, hnewValue⟩ := h
      exact ⟨hold.trans hnew, hnew, by rw [← holdRoot, ← holdValue]; rfl,
        by rw [← hnewRoot, ← hnewValue]; rfl⟩

end

/-! ## §2. Fields in a row. -/

/-- Fields with consecutive ids whose slot ranges follow each other without gaps. -/
def ContiguousFields {Hash : Type} : Nat → Nat → List (StateFieldLayoutLeaf Hash) → Nat → Prop
  | _, slot, [], stop => slot = stop
  | fieldId, slot, field :: fields, stop =>
    field.fieldId = fieldId ∧ field.startSlot = slot ∧
    ContiguousFields (fieldId + 1) (slot + field.slotCount) fields stop

theorem ContiguousFields.concat {Hash : Type} {fields : List (StateFieldLayoutLeaf Hash)}
    {fieldId slot stop : Nat} (h : ContiguousFields fieldId slot fields stop)
    {field : StateFieldLayoutLeaf Hash} (hid : field.fieldId = fieldId + fields.length)
    (hstart : field.startSlot = stop) :
    ContiguousFields fieldId slot (fields ++ [field]) (stop + field.slotCount) := by
  induction fields generalizing fieldId slot with
  | nil =>
    rw [← show slot = stop from h] at hstart ⊢
    exact ⟨hid, hstart, rfl⟩
  | cons first fields ih =>
    obtain ⟨hfirst, hslot, hrest⟩ := h
    refine ⟨hfirst, hslot, ih hrest ?_⟩
    rw [hid, length_cons]
    omega

/-! ## §3. The loop over the window. -/

section
variable {F Hash : Type} [QFelt64 F] [HashTo4Felts F Hash] [FieldQHasher F Hash]
  [DecidableEq Hash]

variable (F) in
/-- A field has the hash, the canonical payload offset and the size of its type. -/
def CanonicalField (field : StateFieldLayoutLeaf Hash) (typeLayout : StateTypeLayoutWitness Hash) :
    Prop :=
  ∃ summary, typeLayout.summary F = .ok summary ∧
    field.typeLayoutHash = summary.typeLayoutHash ∧
    field.payloadOffset = typeLayout.expectedPayloadOffset field.startSlot ∧
    field.slotCount = field.payloadOffset + summary.totalSlotCount

variable {field : StateFieldLayoutLeaf Hash} {typeLayout : StateTypeLayoutWitness Hash}

theorem validateField_spec
    (h : typeLayout.validateField F field = .ok ()) : CanonicalField F field typeLayout := by
  unfold StateTypeLayoutWitness.validateField at h
  simp only [bind_eq_ok, ite_error_eq_ok, not_not, checkedAdd_eq_ok] at h
  obtain ⟨summary, hsummary, hhash, hoffset, _, ⟨_, rfl⟩, hslots, _⟩ := h
  exact ⟨summary, hsummary, hhash, hoffset, by rw [hoffset]; exact hslots⟩

theorem hash_ne_zeroHash {hash : Hash} (h : field.hash F = .ok hash) : hash ≠ zeroHash F := by
  unfold StateFieldLayoutLeaf.hash nonzeroHash at h
  simp only [ite_error_eq_ok] at h
  obtain ⟨_, _, _, _, hne, h⟩ := h
  cases h
  exact hne

/-- A field was accepted at its position. -/
theorem appendField_spec {start index nextSlot nextSlot' : Nat} {oldHash newHash : Hash}
    (h : appendField F start index nextSlot oldHash newHash typeLayout field =
      .ok nextSlot') :
    CanonicalField F field typeLayout ∧ field.fieldId = start + index + 1 ∧
    field.startSlot = nextSlot ∧ field.hash F = .ok newHash ∧
    nextSlot' = nextSlot + field.slotCount := by
  unfold appendField at h
  simp only [bind_eq_ok, ite_error_eq_ok, not_not, checkedAdd_eq_ok] at h
  obtain ⟨_, hvalid, _, _, ⟨_, rfl⟩, _, ⟨_, rfl⟩, hid, hstart, fieldHash, hhash, rfl, _, rfl⟩ := h
  exact ⟨validateField_spec hvalid, hid, hstart, hhash, rfl⟩

variable (F) in
/-- **THE WINDOW UP TO A POSITION**: the old hashes, then the hashes `hashes` of the fields met
so far, then zeros. -/
structure AppendedUpTo (batch : LayoutAppendBatchWitness Hash) (oldPrefixLen windowStart : Nat)
    (index : Nat) (state : Nat × List Hash) (hashes : List Hash) : Prop where
  hashed : (batch.appendedFields.take (index - oldPrefixLen)).mapM (fun field => field.hash F) =
    .ok hashes
  window : ∀ j, j < index → batch.spidermanUpdateProof.webProofNewLeaves.getD j (zeroHash F) =
    if j < oldPrefixLen then batch.spidermanUpdateProof.webProofOldLeaves.getD j (zeroHash F)
    else hashes.getD (j - oldPrefixLen) (zeroHash F)
  contiguous : ContiguousFields (windowStart + oldPrefixLen + 1)
    batch.publicInputs.oldLayoutSlotCount (batch.appendedFields.take (index - oldPrefixLen)) state.1
  canonical : List.Forall₂ (CanonicalField F) (batch.appendedFields.take (index - oldPrefixLen))
    (batch.appendedTypeLayouts.take (index - oldPrefixLen))
  fixed : ∃ done : List Hash, done.length = index ∧
    state.2 = done ++
      List.replicate (batch.spidermanUpdateProof.webProofOldLeaves.length - index) (zeroHash F) ∧
    (done.filter (fun hash => hash ≠ zeroHash F)).length = hashes.length

theorem append_replicate_sub {α : Type} (done : List α) (z : α) {n index : Nat}
    (h : index < n) : done ++ replicate (n - index) z =
      done ++ z :: replicate (n - (index + 1)) z := by
  rw [show n - index = n - (index + 1) + 1 by omega, replicate_succ]

variable {batch : LayoutAppendBatchWitness Hash}
  (htypes : batch.appendedFields.length = batch.appendedTypeLayouts.length)

section
variable {old start index : Nat}
  {state : Nat × List Hash} {hashes : List Hash} {oldHash newHash : Hash}
  (hitem : (batch.spidermanUpdateProof.webProofOldLeaves.zip
    batch.spidermanUpdateProof.webProofNewLeaves)[index]? = some (oldHash, newHash))
  (hstate : AppendedUpTo F batch old start index state hashes)
include hitem hstate

include htypes in
/-- A position that takes no field: the window goes on with `expected`. -/
theorem AppendedUpTo.skip (hnew : newHash = if index < old then oldHash
      else hashes.getD (index - old) (zeroHash F))
    (hfields : batch.appendedFields.length ≤ index - old ∨ index < old) :
    AppendedUpTo F batch old start (index + 1) state hashes := by
  obtain ⟨hold, hnewAt⟩ := getElem?_zip_eq_some.mp hitem
  have hindex : index < batch.spidermanUpdateProof.webProofOldLeaves.length :=
    (List.getElem?_eq_some_iff.mp hold).1
  have htake : ∀ {α : Type} (l : List α), l.length = batch.appendedFields.length →
      l.take (index + 1 - old) = l.take (index - old) := by
    intro α l hl
    rcases hfields with hle | hlt
    · rw [take_of_length_le (by omega), take_of_length_le (by omega)]
    · rw [show index + 1 - old = index - old by omega]
  obtain ⟨done, hdone, hfixed, hcount⟩ := hstate.fixed
  refine ⟨?_, ?_, ?_, ?_, done ++ [zeroHash F], ?_, ?_, ?_⟩
  · rw [htake _ rfl]
    exact hstate.hashed
  · intro j hj
    rcases Nat.lt_succ_iff_lt_or_eq.mp hj with hlt | rfl
    · exact hstate.window j hlt
    · rw [getD_eq_getElem?_getD, hnewAt, getD_eq_getElem?_getD, hold]
      exact hnew
  · rw [htake _ rfl]
    exact hstate.contiguous
  · rw [htake _ rfl, htake _ htypes.symm]
    exact hstate.canonical
  · rw [length_append, hdone]
    rfl
  · rw [hfixed, append_replicate_sub _ _ hindex, append_assoc]
    rfl
  · rw [filter_append, length_append, hcount]
    simp

/-- A position that takes the next field. -/
theorem AppendedUpTo.take {field : StateFieldLayoutLeaf Hash} {nextSlot : Nat} (hge : ¬ index < old)
    (hfield : batch.appendedFields[index - old]? = some field)
    (htype : batch.appendedTypeLayouts[index - old]? = some typeLayout)
    (h : appendField F start index state.1 oldHash newHash typeLayout field = .ok nextSlot) :
    AppendedUpTo F batch old start (index + 1) (nextSlot, state.2.set index newHash)
      (hashes ++ [newHash]) := by
  obtain ⟨hcanonical, hid, hstart, hhash, rfl⟩ := appendField_spec h
  obtain ⟨hold, hnewAt⟩ := getElem?_zip_eq_some.mp hitem
  have hindex : index < batch.spidermanUpdateProof.webProofOldLeaves.length :=
    (List.getElem?_eq_some_iff.mp hold).1
  have hsucc : index + 1 - old = index - old + 1 := by omega
  have htaken : (batch.appendedFields.take (index - old)).length =
      index - old := by
    have := (List.getElem?_eq_some_iff.mp hfield).1
    rw [length_take]
    omega
  have hhashes : hashes.length = index - old :=
    (mapM_eq_ok.mp hstate.hashed).length_eq.symm.trans htaken
  obtain ⟨done, hdone, hfixed, hcount⟩ := hstate.fixed
  refine ⟨?_, ?_, ?_, ?_, done ++ [newHash], ?_, ?_, ?_⟩
  · rw [hsucc, take_add_one, hfield, mapM_append, hstate.hashed]
    simp only [Option.toList_some, mapM_cons, hhash]
    rfl
  · intro j hj
    rcases Nat.lt_succ_iff_lt_or_eq.mp hj with hlt | rfl
    · rw [hstate.window j hlt]
      by_cases hjp : j < old
      · rw [if_pos hjp, if_pos hjp]
      · rw [if_neg hjp, if_neg hjp, getD_append _ _ _ _ (by omega)]
    · rw [if_neg hge, getD_append_right _ _ _ _ (by omega), hhashes, Nat.sub_self,
        getD_eq_getElem?_getD, hnewAt]
      rfl
  · rw [hsucc, take_add_one, hfield]
    exact hstate.contiguous.concat (by rw [hid, htaken]; omega) hstart
  · rw [hsucc, take_add_one, take_add_one, hfield, htype]
    exact rel_append hstate.canonical (.cons hcanonical .nil)
  · rw [length_append, hdone]
    rfl
  · rw [hfixed, append_replicate_sub _ _ hindex, set_append, if_neg (by omega), hdone,
      Nat.sub_self, set_cons_zero, append_assoc]
    rfl
  · have hne : newHash ≠ zeroHash F := hash_ne_zeroHash hhash
    rw [filter_append, length_append, hcount, length_append]
    simp [hne]

include htypes in
/-- **ONE POSITION.** -/
theorem appendPosition_spec {state' : Nat × List Hash}
    (h : appendPosition F batch old start state ((oldHash, newHash), index) =
      .ok state') :
    ∃ hashes', AppendedUpTo F batch old start (index + 1) state' hashes' := by
  unfold appendPosition at h
  dsimp only at h
  by_cases hlt : index < old
  · rw [if_pos hlt, ite_error_eq_ok, not_not] at h
    obtain ⟨hsame, h⟩ := h
    cases h
    exact ⟨hashes, hstate.skip htypes hitem (by rw [if_pos hlt, hsame]) (.inr hlt)⟩
  · rw [if_neg hlt] at h
    split at h
    next field typeLayout hfield htype =>
      obtain ⟨nextSlot, happend, h⟩ := bind_eq_ok.mp h
      cases h
      exact ⟨hashes ++ [newHash], hstate.take hitem hlt hfield htype happend⟩
    next => cases h
    next hnone =>
      rw [ite_error_eq_ok, not_not] at h
      obtain ⟨⟨_, hzero⟩, h⟩ := h
      cases h
      have hle : batch.appendedFields.length ≤ index - old :=
        getElem?_eq_none_iff.mp hnone
      have hhashes : hashes.length ≤ batch.appendedFields.length := by
        rw [← (mapM_eq_ok.mp hstate.hashed).length_eq, length_take]
        omega
      refine ⟨hashes, hstate.skip htypes hitem ?_ (.inl hle)⟩
      rw [if_neg hlt, getD_eq_default _ _ (by omega)]
      exact hzero

end

include htypes in
/-- **THE WHOLE WINDOW.** -/
theorem appendPositions_spec {old start : Nat} {state : Nat × List Hash}
    (hlength : batch.spidermanUpdateProof.webProofOldLeaves.length =
      batch.spidermanUpdateProof.webProofNewLeaves.length)
    (h : (batch.spidermanUpdateProof.webProofOldLeaves.zip
        batch.spidermanUpdateProof.webProofNewLeaves).zipIdx.foldlM
      (appendPosition F batch old start)
      (batch.publicInputs.oldLayoutSlotCount,
        replicate batch.spidermanUpdateProof.webProofOldLeaves.length (zeroHash F)) =
      .ok state) : ∃ hashes, AppendedUpTo F batch old start
      batch.spidermanUpdateProof.webProofOldLeaves.length state hashes := by
  have hstart : AppendedUpTo F batch old start 0
      (batch.publicInputs.oldLayoutSlotCount,
        replicate batch.spidermanUpdateProof.webProofOldLeaves.length (zeroHash F)) [] := by
    refine ⟨?_, ?_, ?_, ?_, [], rfl, rfl, rfl⟩
    · rw [Nat.zero_sub, take_zero]
      rfl
    · intro j hj
      exact absurd hj (Nat.not_lt_zero j)
    · rw [Nat.zero_sub, take_zero]
      rfl
    · rw [Nat.zero_sub, take_zero, take_zero]
      exact .nil
  have hloop := foldlM_zipIdx_of_step
    (P := fun index state => ∃ hashes, AppendedUpTo F batch old start index state
      hashes)
    (fun index item state state' hitem hstep hstate => by
      obtain ⟨hashes, hstate⟩ := hstate
      exact appendPosition_spec htypes hitem hstate hstep) h ⟨[], hstart⟩
  rw [length_zip, ← hlength, min_self] at hloop
  exact hloop

/-! ## §4. An accepted batch. -/

variable [MerkleHasher Hash] in
/-- What `validate` has checked. -/
theorem validate_spec (h : batch.validate F = .ok ()) : let proof := batch.spidermanUpdateProof
    let inputs := batch.publicInputs
    let oldPrefixLen := (proof.webProofOldLeaves.takeWhile (fun hash => hash ≠ zeroHash F)).length
    let windowStart := proof.topLineProof.index * proof.webProofOldLeaves.length
    proof.verify = true ∧ inputs.oldLayoutFieldCount = windowStart + oldPrefixLen ∧
    inputs.oldLayoutRoot = proof.topLineProof.oldRoot ∧
    inputs.newLayoutRoot = proof.topLineProof.newRoot ∧
    ∃ hashes : List Hash, batch.appendedFields.mapM (fun field => field.hash F) = .ok hashes ∧
      oldPrefixLen + hashes.length ≤ proof.webProofOldLeaves.length ∧
      (∀ j, j < proof.webProofOldLeaves.length → proof.webProofNewLeaves.getD j (zeroHash F) =
        if j < oldPrefixLen then proof.webProofOldLeaves.getD j (zeroHash F)
        else hashes.getD (j - oldPrefixLen) (zeroHash F)) ∧
      ContiguousFields (inputs.oldLayoutFieldCount + 1) inputs.oldLayoutSlotCount
        batch.appendedFields inputs.newLayoutSlotCount ∧
      List.Forall₂ (CanonicalField F) batch.appendedFields batch.appendedTypeLayouts := by
  intro proof inputs oldPrefixLen windowStart
  unfold validate checkCounts computeLayoutBatchCommitment at h
  simp only [bind_eq_ok, ite_error_eq_ok, not_not, checkedMul_eq_ok, checkedAdd_eq_ok] at h
  obtain ⟨_, _, hverify, _, ⟨⟨hlength, _⟩, _, htypes, _⟩, _, ⟨_, rfl⟩, _, ⟨_, rfl⟩, hfrontier,
    ⟨nextSlot, fixed⟩, hloop, ⟨hold, hnew⟩, hslots, commitment, ⟨_, hcount, _⟩, _⟩ := h
  obtain ⟨hashes, hstate⟩ := appendPositions_spec htypes hlength hloop
  obtain ⟨done, _, hfixed, hdone⟩ := hstate.fixed
  rw [Nat.sub_self, replicate_zero, append_nil] at hfixed
  -- as many hashes as fields: no field is left over
  have hhashes : hashes.length = batch.appendedFields.length := by
    rw [← hdone, ← hfixed]
    exact hcount
  have htaken := (mapM_eq_ok.mp hstate.hashed).length_eq
  rw [length_take, hhashes] at htaken
  have hprefix : oldPrefixLen ≤ proof.webProofOldLeaves.length :=
    IsPrefix.length_le <| takeWhile_prefix _
  have hall : batch.appendedFields.length ≤ proof.webProofOldLeaves.length - oldPrefixLen :=
    min_eq_right_iff.mp htaken
  have hhashed := hstate.hashed
  have hcontiguous := hstate.contiguous
  have hcanonical := hstate.canonical
  rw [take_of_length_le hall] at hhashed hcontiguous hcanonical
  rw [take_of_length_le (by rw [← htypes]; exact hall)] at hcanonical
  refine ⟨by simpa using hverify, hfrontier, hold, hnew, hashes, hhashed, ?_, hstate.window, ?_,
    hcanonical⟩
  · rw [hhashes]
    exact Nat.add_le_of_le_sub' hprefix hall
  · rw [show inputs.oldLayoutFieldCount = windowStart + oldPrefixLen from hfrontier,
      show inputs.newLayoutSlotCount = nextSlot from hslots]
    exact hcontiguous

variable {z : Hash}

/-- A window with no prefix starts with a zero. -/
theorem getD_zero_of_takeWhile {leaves : List Hash} (hne : leaves ≠ [])
    (h : (leaves.takeWhile (fun hash => hash ≠ z)).length = 0) : leaves.getD 0 z = z := by
  cases leaves with
  | nil => exact absurd rfl hne
  | cons first rest =>
    by_cases hfirst : first = z
    · exact hfirst
    · rw [takeWhile_cons_of_pos (by simpa using hfirst), length_cons] at h
      omega

/-- **THE WINDOW STANDS WHERE ITS INDEX SAYS.**  A climb only reads the low bits of the index;
an index beyond the tree would need an empty window in a full tree. -/
theorem window_index_lt {hashes leaves : List Hash} {index k l n : Nat}
    (hleaves : leaves.length = 2 ^ k) (hnonzero : ∀ hash ∈ hashes, hash ≠ z)
    (hcapacity : hashes.length ≤ 2 ^ (k + l))
    (hfrontier : hashes.length = index * leaves.length + n)
    (hn : n = (leaves.takeWhile (fun hash => hash ≠ z)).length)
    (hwindow : ∀ j, j < 2 ^ k → leaves.getD j z = hashes.getD (index % 2 ^ l * 2 ^ k + j) z) :
    index < 2 ^ l := by
  by_contra hge
  have hpos : 0 < 2 ^ k := Nat.two_pow_pos k
  have hle : 2 ^ l * 2 ^ k ≤ index * 2 ^ k := Nat.mul_le_mul_right _ (by omega)
  have hmod : index % 2 ^ l < 2 ^ l := Nat.mod_lt _ (Nat.two_pow_pos l)
  have hlt : index % 2 ^ l * 2 ^ k < 2 ^ l * 2 ^ k := (Nat.mul_lt_mul_right hpos).mpr hmod
  rw [hleaves] at hfrontier
  rw [pow_add, Nat.mul_comm] at hcapacity
  have hempty : leaves.getD 0 z = z := by
    refine getD_zero_of_takeWhile ?_ (by omega)
    intro hnil
    rw [hnil, length_nil] at hleaves
    omega
  have hin : index % 2 ^ l * 2 ^ k + 0 < hashes.length := by omega
  rw [hwindow 0 hpos, getD_eq_getElem _ _ hin] at hempty
  exact hnonzero _ (getElem_mem hin) hempty

omit [DecidableEq Hash] in
/-- The tree with the new window is the tree of all hashes. -/
theorem replaceWindow_eq_getD_append {old new hashes appended : List Hash}
    {index k n : Nat} (hfrontier : hashes.length = index * 2 ^ k + n)
    (hroom : n + appended.length ≤ 2 ^ k)
    (hwindow : ∀ j, j < 2 ^ k → old.getD j z = hashes.getD (index * 2 ^ k + j) z)
    (hnew : ∀ j, j < 2 ^ k → new.getD j z =
      if j < n then old.getD j z else appended.getD (j - n) z) :
    replaceWindow (fun j => hashes.getD j z) (fun j => new.getD j z) k index =
      fun j => (hashes ++ appended).getD j z := by
  funext j
  have hnext : (index + 1) * 2 ^ k = index * 2 ^ k + 2 ^ k := by ring
  show (if index * 2 ^ k ≤ j ∧ j < (index + 1) * 2 ^ k then new.getD (j - index * 2 ^ k) z
    else hashes.getD j z) = _
  by_cases hin : index * 2 ^ k ≤ j ∧ j < (index + 1) * 2 ^ k
  · rw [if_pos hin, hnew _ (by omega)]
    by_cases hj : j < hashes.length
    · rw [if_pos (by omega), hwindow _ (by omega), getD_append _ _ _ _ hj,
        show index * 2 ^ k + (j - index * 2 ^ k) = j by omega]
    · rw [if_neg (by omega), getD_append_right _ _ _ _ (by omega),
        show j - index * 2 ^ k - n = j - hashes.length by omega]
  · rw [if_neg hin]
    by_cases hj : j < hashes.length
    · rw [getD_append _ _ _ _ hj]
    · rw [getD_append_right _ _ _ _ (by omega), getD_eq_default _ _ (by omega),
        getD_eq_default _ _ (by omega)]

end

/-- **AN ACCEPTED BATCH ONLY APPENDS.**  If the old root is the padded root of
`old_layout_field_count` non-zero hashes, at the height of the tree that the batch opens, then the
new root is the padded root of these hashes followed by the hashes of the appended fields, whose
ids and slots go on where the layout ended and whose types are as their witnesses say. -/
theorem layout_append_extends (F : Type) {Hash : Type} [QFelt64 F] [HashTo4Felts F Hash]
    [FieldQHasher F Hash] [MerkleHasher Hash] [DecidableEq Hash]
    (hinj : ∀ a b c d : Hash, twoToOne a b = twoToOne c d → a = c ∧ b = d)
    (batch : LayoutAppendBatchWitness Hash) (h : batch.validate F = .ok ()) (hashes : List Hash)
    (hcount : hashes.length = batch.publicInputs.oldLayoutFieldCount)
    (hnonzero : ∀ hash ∈ hashes, hash ≠ zeroHash F)
    (hroot : paddedMerkleRoot F hashes batch.treeHeight = .ok batch.publicInputs.oldLayoutRoot) :
    ∃ appended : List Hash,
      batch.appendedFields.mapM (fun field => field.hash F) = .ok appended ∧
      paddedMerkleRoot F (hashes ++ appended) batch.treeHeight =
        .ok batch.publicInputs.newLayoutRoot ∧
      ContiguousFields (batch.publicInputs.oldLayoutFieldCount + 1)
        batch.publicInputs.oldLayoutSlotCount batch.appendedFields
        batch.publicInputs.newLayoutSlotCount ∧
      List.Forall₂ (CanonicalField F) batch.appendedFields batch.appendedTypeLayouts := by
  obtain ⟨hverify, hfrontier, hold, hnew, appended, happended, hroom, hwindow, hfields⟩ :=
    validate_spec h
  obtain ⟨holdLength, _, holdRoot, hnewRoot⟩ := verify_window_inv (zeroHash F) hverify
  rw [paddedMerkleRoot_eq_ok] at hroot
  obtain ⟨hheight, hcapacity, hroot⟩ := hroot
  -- the old leaves of the window are hashes of the old layout
  obtain ⟨hopened, hreplace⟩ := opened_window hinj (holdRoot.trans (hold.symm.trans hroot.symm))
  have hindex := window_index_lt holdLength hnonzero hcapacity (hcount.trans hfrontier) rfl hopened
  rw [Nat.mod_eq_of_lt hindex] at hopened hreplace
  rw [holdLength] at hroom hwindow hfrontier
  refine ⟨appended, happended, ?_, hfields⟩
  rw [paddedMerkleRoot_eq_ok]
  refine ⟨hheight, ?_, ?_⟩
  · unfold treeHeight
    have hle := Nat.mul_le_mul_right (2 ^ getWebSubTreeHeight batch.spidermanUpdateProof)
      (Nat.succ_le_of_lt hindex)
    rw [length_append, hcount, hfrontier, pow_add]
    linarith
  · rw [← replaceWindow_eq_getD_append (hcount.trans hfrontier) hroom hopened hwindow]
    exact (hreplace _).symm.trans (hnewRoot.trans hnew.symm)

/-- The second field of a contract, one field element. -/
def secondField : StateFieldLayoutLeaf SymHash :=
  { fieldId := 2
    startSlot := 5
    payloadOffset := 0
    slotCount := 1
    typeLayoutHash := qHashMany [primitiveTypeLayoutDomain, StatePrimitiveTypeTag.felt.toNat,
      stateLayoutEncodingVersion]
    encodingVersion := stateLayoutEncodingVersion }

/-- The hash of that field. -/
def secondFieldHash : SymHash :=
  qHashMany ([stateFieldLayoutDomain, 2, 5, 0, 1] ++
    hashFelts Nat secondField.typeLayoutHash ++ [stateLayoutEncodingVersion])

/-- The batch that appends it to a layout with one field, in a tree of four. -/
def secondFieldBatch : LayoutAppendBatchWitness SymHash :=
  let oldRoot := SymHash.node (.node (.leaf 7) .zero) (.node .zero .zero)
  let newRoot := SymHash.node (.node (.leaf 7) secondFieldHash) (.node .zero .zero)
  { spidermanUpdateProof :=
      { topLineProof := ⟨oldRoot, .node (.leaf 7) .zero, newRoot,
          .node (.leaf 7) secondFieldHash, 0, [.node .zero .zero]⟩
        webProofOldLeaves := [.leaf 7, .zero]
        webProofNewLeaves := [.leaf 7, secondFieldHash] }
    appendedFields := [secondField]
    appendedTypeLayouts := [.primitive .felt]
    canonicalTypeProofs := [[1]]
    publicInputs :=
      { contractId := 3
        layoutVersion := stateLayoutVersion
        oldLayoutRoot := oldRoot
        oldLayoutFieldCount := 1
        oldLayoutSlotCount := 5
        newLayoutRoot := newRoot
        newLayoutFieldCount := 2
        newLayoutSlotCount := 6
        appendedFieldCount := 1
        appendedFieldsCommitment :=
          qHashMany ([stateLayoutAppendBatchDomain, 3, 1, 5, 1] ++
            hashFelts Nat SymHash.zero ++ hashFelts Nat secondFieldHash) } }

theorem layout_append_extends_second_field :
    secondFieldBatch.validate Nat = .ok () ∧
    ∃ appended : List SymHash,
      secondFieldBatch.appendedFields.mapM (fun field => field.hash Nat) = .ok appended ∧
      paddedMerkleRoot Nat ([SymHash.leaf 7] ++ appended) secondFieldBatch.treeHeight =
        .ok secondFieldBatch.publicInputs.newLayoutRoot := by
  have hvalid : secondFieldBatch.validate Nat = .ok () := by decide +kernel
  obtain ⟨appended, happended, hroot, _⟩ := layout_append_extends Nat
    (fun _ _ _ _ h => SymHash.node.inj h) secondFieldBatch hvalid [.leaf 7] rfl
    (by decide +kernel) (by decide +kernel)
  exact ⟨hvalid, appended, happended, hroot⟩

/-- The same field as the third one. -/
def thirdField : StateFieldLayoutLeaf SymHash := { secondField with fieldId := 3 }

/-- The hash of that field. -/
def thirdFieldHash : SymHash :=
  qHashMany ([stateFieldLayoutDomain, 3, 5, 0, 1] ++
    hashFelts Nat secondField.typeLayoutHash ++ [stateLayoutEncodingVersion])

/-- A batch that opens a tree of four, on the root of a layout that fills a tree of two with the
hashes `(7, 8)` and `(0, 0)`: the second one is read as an empty window. -/
def tallerTreeBatch : LayoutAppendBatchWitness SymHash :=
  let oldRoot := SymHash.node (.node (.leaf 7) (.leaf 8)) (.node .zero .zero)
  let newRoot := SymHash.node (.node (.leaf 7) (.leaf 8)) (.node thirdFieldHash .zero)
  { spidermanUpdateProof :=
      { topLineProof := ⟨oldRoot, .node .zero .zero, newRoot,
          .node thirdFieldHash .zero, 1, [.node (.leaf 7) (.leaf 8)]⟩
        webProofOldLeaves := [.zero, .zero]
        webProofNewLeaves := [thirdFieldHash, .zero] }
    appendedFields := [thirdField]
    appendedTypeLayouts := [.primitive .felt]
    canonicalTypeProofs := [[1]]
    publicInputs :=
      { contractId := 3
        layoutVersion := stateLayoutVersion
        oldLayoutRoot := oldRoot
        oldLayoutFieldCount := 2
        oldLayoutSlotCount := 5
        newLayoutRoot := newRoot
        newLayoutFieldCount := 3
        newLayoutSlotCount := 6
        appendedFieldCount := 1
        appendedFieldsCommitment :=
          qHashMany ([stateLayoutAppendBatchDomain, 3, 2, 5, 1] ++
            hashFelts Nat thirdFieldHash ++ hashFelts Nat SymHash.zero) } }

/-- **ANOTHER HEIGHT**: the old root is the padded root of the two hashes in a tree of two, the
batch is accepted, and at no height is the new root that of the three hashes. -/
theorem layout_append_taller_tree :
    let hashes := [SymHash.node (.leaf 7) (.leaf 8), .node .zero .zero]
    tallerTreeBatch.validate Nat = .ok () ∧
    hashes.length = tallerTreeBatch.publicInputs.oldLayoutFieldCount ∧
    (∀ hash ∈ hashes, hash ≠ zeroHash Nat) ∧
    paddedMerkleRoot Nat hashes 1 = .ok tallerTreeBatch.publicInputs.oldLayoutRoot ∧
    tallerTreeBatch.appendedFields.mapM (fun field => field.hash Nat) = .ok [thirdFieldHash] ∧
    ∀ height, paddedMerkleRoot Nat (hashes ++ [thirdFieldHash]) height ≠
      .ok tallerTreeBatch.publicInputs.newLayoutRoot := by
  refine ⟨by decide +kernel, rfl, by decide +kernel, by decide +kernel, by decide +kernel, ?_⟩
  intro height hroot
  rw [paddedMerkleRoot_eq_ok] at hroot
  obtain ⟨-, hroom, hroot⟩ := hroot
  rcases height with _ | _ | _ | height
  · exact absurd hroom (by decide)
  · exact absurd hroom (by decide)
  · exact absurd hroot (by decide +kernel)
  · -- the last quarter of a taller tree is a node
    have hright := (SymHash.node.inj hroot).2
    exact absurd (SymHash.node.inj hright).2 (by simp [subRoot, twoToOne])

end PsyNode.Layout
