/-
PsyNode.P2p.Canonical
**THE WIRE FORM OF A MESSAGE IS CANONICAL.**  For each message type, a buffer is
accepted as a message exactly if the message is well formed and the buffer is its
encoding.  So no two buffers stand for one message, and none for two.

What a well-formed message is, is what its decoder checks beyond the widths of
the fields: limits, and that nothing is said in two ways.
-/
import Mathlib.Tactic.Simproc.ExistsAndEq
import PsyNode.P2p.Messages

namespace PsyNode.P2p

open Lib.ByteCodec Lib List ProposalLookupEntry

/-! ## §1. Well-formed messages. -/

/-- What `decode_proposal_body` checks. -/
structure ProposalBody.WellFormed (m : ProposalBody) : Prop where
  output : m.finalizerOutput.length = MAX_FINALIZER_OUTPUT_BYTES
  proof : m.finalizerProof.length ≤ MAX_FINALIZER_PROOF_BYTES
  updates : m.stateUpdates.length ≤ MAX_BACKUP_BYTES
  tag : Hash32Canonical m.finalizerWorkerTag

def ProposalPart.WellFormed : ProposalPart → Prop
  | .start _ totalParts bodyLen =>
    (totalParts ≠ 0 ∧ totalParts.toNat ≤ MAX_PROPOSAL_PARTS) ∧
      bodyLen ≠ 0 ∧ bodyLen.toNat ≤ MAX_PROPOSAL_BODY_BYTES
  | .chunk _ _ data => data ≠ [] ∧ data.length ≤ MAX_PROPOSAL_CHUNK_BYTES

def BodyChunkRequest.WellFormed (m : BodyChunkRequest) : Prop :=
  m.maxBytes ≠ 0 ∧ m.maxBytes.toNat ≤ BODY_CHUNK_MAX_BYTES

def BodyChunkResponse.WellFormed (m : BodyChunkResponse) : Prop :=
  m.data.length ≤ BODY_CHUNK_MAX_BYTES ∧ m.bodyLen.toNat ≤ MAX_PROPOSAL_BODY_BYTES

def ProposalLookupRequest.WellFormed (m : ProposalLookupRequest) : Prop :=
  m.transitions ≠ [] ∧ m.transitions.length ≤ PROPOSAL_LOOKUP_MAX_TRANSITIONS

variable (entries : List ProposalLookupEntry)

/-- The bytes of some entries. -/
def totalBytes : Nat :=
  (entries.map ProposalLookupEntry.wireBytes).sum

/-- Entries that one response can have. -/
def Fits : Prop :=
  entries.length ≤ PROPOSAL_LOOKUP_MAX_TRANSITIONS ∧
    5 + totalBytes entries ≤ MAX_PROPOSAL_LOOKUP_RESPONSE_BYTES

structure ProposalLookupResponse.WellFormed (m : ProposalLookupResponse) : Prop where
  fits : Fits m.entries
  candidates : ∀ entry ∈ m.entries,
    entry.candidates.length ≤ PROPOSAL_LOOKUP_CANDIDATES_PER_TRANSITION
  status : (m.status = .candidates → hasCandidates m.entries = true) ∧
    (m.status = .empty → ¬ hasCandidates m.entries = true)

def EndCapForwardResponse.WellFormed (m : EndCapForwardResponse) : Prop :=
  (m.accepted = true → m.rejectReason = .none ∧ m.userId = 0 ∧ m.uniquePendingId = 0) ∧
    (m.accepted = false → m.rejectReason ≠ .none)

/-! ## §2. Messages of fixed fields. -/

theorem Proposal.lawful : Lawful protocolDecode protocolEncode (fun _ => True) := by
  rintro input ⟨⟩ rest
  simp [protocolDecode, protocolEncode, existsAndEq]

theorem EndCapForwardHeader.lawful : Lawful protocolDecode protocolEncode (fun _ => True) := by
  rintro input ⟨⟩ rest
  simp [protocolDecode, protocolEncode, existsAndEq]

theorem BodyChunkRequest.lawful : Lawful protocolDecode protocolEncode WellFormed := by
  rintro input ⟨⟩ rest
  simp [protocolDecode, protocolEncode, WellFormed, existsAndEq, and_comm]

variable {input rest : Bytes}

section
variable {sigValidate : FixedBytes BLS_SIGNATURE_LEN → Bool} {signature : BlsSignature sigValidate}

theorem BlsSignature.fromBytes_eq_ok {bytes : FixedBytes BLS_SIGNATURE_LEN} :
    fromBytes bytes = .ok signature ↔ bytes = signature.bytes := by
  unfold fromBytes
  split
  next hflag =>
    constructor
    · intro h
      cases h
    · rintro rfl
      exact absurd hflag signature.compressed
  next hflag =>
    split
    next hvalid =>
      rw [Except.ok.injEq]
      constructor
      · rintro rfl
        rfl
      · rintro rfl
        rfl
    next hvalid =>
      constructor
      · intro h
        cases h
      · rintro rfl
        exact absurd signature.valid hvalid

/-- A signature is one buffer: the model's `BlsSignature` has its bytes. -/
@[simp] theorem BlsSignature.protocolDecode_eq_ok : protocolDecode input = .ok (signature, rest) ↔
      input = signature.protocolEncode ++ rest := by
  simp [protocolDecode, protocolEncode, fromBytes_eq_ok]

theorem Vote.lawful : Lawful (protocolDecode : ProtocolReader (Vote sigValidate))
    protocolEncode (fun _ => True) := by
  rintro input ⟨⟩ rest
  simp [protocolDecode, protocolEncode, existsAndEq]

theorem Certificate.lawful : Lawful (protocolDecode : ProtocolReader (Certificate sigValidate))
    protocolEncode (fun _ => True) := by
  rintro input ⟨⟩ rest
  simp [protocolDecode, protocolEncode, existsAndEq]

end

/-! ## §3. Bodies and parts. -/

/-- The limits of the lengths fit `u32`. -/
theorem toNat_limits :
    (UInt32.ofNat MAX_FINALIZER_OUTPUT_BYTES).toNat = MAX_FINALIZER_OUTPUT_BYTES ∧
    (UInt32.ofNat MAX_FINALIZER_PROOF_BYTES).toNat = MAX_FINALIZER_PROOF_BYTES ∧
    (UInt32.ofNat MAX_BACKUP_BYTES).toNat = MAX_BACKUP_BYTES ∧
    (UInt32.ofNat MAX_PROPOSAL_CHUNK_BYTES).toNat = MAX_PROPOSAL_CHUNK_BYTES ∧
    (UInt32.ofNat BODY_CHUNK_MAX_BYTES).toNat = BODY_CHUNK_MAX_BYTES := by decide

/-- The bytes of a well-formed body. -/
def ProposalBody.bytes (m : ProposalBody) : Bytes :=
  writeU32 (UInt32.ofNat m.finalizerOutput.length) ++ (m.finalizerOutput ++
    (writeU32 (UInt32.ofNat m.finalizerProof.length) ++ (m.finalizerProof ++
      (writeU32 (UInt32.ofNat m.stateUpdates.length) ++ (m.stateUpdates ++
        writeFixed m.finalizerWorkerTag)))))

variable {m : ProposalBody} {body : Bytes}

theorem decodeProposalBody_eq_ok :
    decodeProposalBody body = .ok m ↔ m.WellFormed ∧ body = m.bytes := by
  refine Lawful.readExact_eq_ok ?_
  rintro input ⟨⟩ rest
  obtain ⟨houtput, hproof, hupdates, _, _⟩ := toNat_limits
  unfold ProposalBody.bytes
  simp only [Reader.bind_eq_ok, Reader.pure_eq_ok, Reader.ensure_eq_ok, readBytesU32_eq_ok,
    readBytes32_eq_ok, check_eq_ok, validateHash32Canonical_eq_ok, houtput, hproof, hupdates,
    append_assoc, ProposalBody.mk.injEq, existsAndEq, exists_const, true_and, and_true]
  constructor
  · rintro ⟨⟨_, hinput⟩, ho, hp, hu, ht⟩
    exact ⟨⟨ho, hp, hu, ht⟩, hinput⟩
  · rintro ⟨⟨ho, hp, hu, ht⟩, hinput⟩
    exact ⟨⟨le_of_eq ho, hinput⟩, ho, hp, hu, ht⟩

theorem encodeProposalBody_eq_ok (h : m.WellFormed) :
    encodeProposalBody m = .ok body ↔ body = m.bytes := by
  have hproof := h.proof
  have hupdates := h.updates
  unfold encodeProposalBody
  rw [if_neg (not_not.mpr h.output), if_neg (not_lt.mpr hproof), if_neg (not_lt.mpr hupdates)]
  have hlimits : MAX_FINALIZER_OUTPUT_BYTES < 2 ^ 32 ∧ MAX_FINALIZER_PROOF_BYTES < 2 ^ 32 ∧
      MAX_BACKUP_BYTES < 2 ^ 32 := by decide
  simp only [bind_eq_ok, writeBytesU32_eq_ok (h.output ▸ hlimits.1),
    writeBytesU32_eq_ok (lt_of_le_of_lt hproof hlimits.2.1),
    writeBytesU32_eq_ok (lt_of_le_of_lt hupdates hlimits.2.2), exists_eq_left, Except.ok.injEq]
  simp only [append_assoc]
  exact eq_comm

theorem ProposalPart.lawful : Lawful protocolDecode protocolEncode WellFormed := by
  intro input m rest
  obtain ⟨_, _, _, hchunk, _⟩ := toNat_limits
  unfold protocolDecode decodeStart decodeChunk
  simp only [Reader.bind_eq_ok, Reader.pure_eq_ok, Reader.ensure_eq_ok, Reader.ite_eq_ok,
    Reader.throw_eq_ok, readU8_eq_ok, readU64_eq_ok, readU32_eq_ok, readBytes32_eq_ok,
    readBytesU32_eq_ok, Proposal.lawful _ _ _, hchunk, true_and]
  cases m with
  | start proposal totalParts bodyLen =>
    simp only [protocolEncode, WellFormed, start.injEq, reduceCtorEq, append_assoc, existsAndEq,
      exists_const, false_and, and_false, exists_false, or_false, and_true, true_and]
    rw [and_comm, ← and_assoc (a := totalParts ≠ 0)]
  | chunk proposalId offset data =>
    have htag : TAG_CHUNK ≠ TAG_START := by decide
    simp only [protocolEncode, WellFormed, chunk.injEq, reduceCtorEq, append_assoc, existsAndEq,
      exists_const, false_and, and_false, exists_false, or_false, false_or, and_true, true_and,
      htag, not_false_eq_true]
    rw [and_comm, and_comm (a := data ≠ [])]

/-- The bytes of a well-formed response. -/
def BodyChunkResponse.bytes (m : BodyChunkResponse) : Bytes :=
  writeU64 m.offset ++ (writeU32 (UInt32.ofNat m.data.length) ++ (m.data ++ (writeBool m.eof ++
    (writeU64 m.bodyLen ++ writeFixed m.bodyHash))))

theorem BodyChunkResponse.lawful : Lawful protocolDecode bytes WellFormed := by
  rintro input ⟨⟩ rest
  obtain ⟨_, _, _, _, hlimit⟩ := toNat_limits
  simp [protocolDecode, bytes, WellFormed, hlimit, existsAndEq, and_comm, -Bool.exists_bool]

theorem BodyChunkResponse.protocolEncode_eq_ok {m : BodyChunkResponse} (h : m.WellFormed)
    {out : Bytes} : m.protocolEncode = .ok out ↔ out = m.bytes := by
  have hlimit : BODY_CHUNK_MAX_BYTES < 2 ^ 32 := by decide
  unfold protocolEncode bytes
  simp only [bind_eq_ok, writeBytesU32_eq_ok (lt_of_le_of_lt h.1 hlimit), exists_eq_left,
    Except.ok.injEq, append_assoc]
  exact eq_comm

/-! ## §4. Lookups. -/

theorem RealmTransition.lawful : Lawful decode encode (fun _ => True) := by
  rintro input ⟨⟩ rest
  simp [decode, encode, existsAndEq]

theorem RealmTransition.length_encode (m : RealmTransition) : m.encode.length = 64 := by
  simp [encode, writeFixed, m.oldRoot.length_toList, m.newRoot.length_toList]

theorem Proposal.length_protocolEncode (m : Proposal) :
    m.protocolEncode.length = PROPOSAL_WIRE_BYTES := by
  simp [protocolEncode, writeFixed, writeU64, writeU32, writeU16, PROPOSAL_WIRE_BYTES,
    FixedBytes.length_toList]

theorem length_flatMap_of_length {α : Type} {write : α → Bytes} {n : Nat}
    (h : ∀ a, (write a).length = n) (as : List α) : (as.flatMap write).length = as.length * n := by
  induction as with
  | nil => simp
  | cons a as ih => rw [flatMap_cons, length_append, h, ih, length_cons]; ring

theorem ProposalLookupRequest.lawful : Lawful protocolDecode protocolEncode WellFormed := by
  intro input m rest
  unfold protocolDecode protocolEncode
  simp only [Reader.bind_eq_ok, Reader.pure_eq_ok, Reader.ensure_eq_ok, Reader.remaining_eq_ok,
    readU64_eq_ok, readU32_eq_ok, readMany_eq_ok RealmTransition.lawful, append_assoc, not_or,
    not_lt]
  constructor
  · rintro ⟨_, _, rfl, _, _, rfl, count, _, rfl, _, _, ⟨⟨hpos, hmax⟩, rfl⟩, _, _, ⟨_, rfl⟩, _, _,
      ⟨_, rfl⟩, transitions, _, ⟨hlength, _, rfl⟩, rfl, rfl⟩
    refine ⟨⟨?_, by rw [hlength]; exact hmax⟩, ?_⟩
    · exact length_pos_iff.mp (by rw [hlength]; exact Nat.pos_of_ne_zero hpos)
    · rw [hlength, UInt32.ofNat_toNat]
  · rintro ⟨⟨hne, hmax⟩, rfl⟩
    have hlen : (UInt32.ofNat m.transitions.length).toNat = m.transitions.length :=
      UInt32.toNat_ofNat_of_lt' (lt_of_le_of_lt hmax (by decide))
    refine ⟨_, _, rfl, _, _, rfl, _, _, rfl, (), _, ⟨⟨?_, by rw [hlen]; exact hmax⟩, rfl⟩, _, _,
      ⟨rfl, rfl⟩, (), _, ⟨?_, rfl⟩, m.transitions, rest, ⟨hlen.symm, fun _ _ => trivial, rfl⟩, rfl,
      rfl⟩
    · rw [hlen, length_eq_zero_iff]
      exact hne
    · rw [hlen, length_append, length_flatMap_of_length RealmTransition.length_encode]
      omega

/-- The bytes of an entry are those the encoder counts. -/
theorem ProposalLookupEntry.length_encode (entry : ProposalLookupEntry) :
    entry.encode.length = entry.wireBytes := by
  unfold encode wireBytes
  rw [length_append, length_append, RealmTransition.length_encode,
    length_flatMap_of_length Proposal.length_protocolEncode]
  show 64 + 1 + _ = _
  omega

theorem length_flatMap_entry_encode : (entries.flatMap encode).length = totalBytes entries := by
  induction entries with
  | nil => rfl
  | cons entry entries ih =>
    rw [flatMap_cons, length_append, ih, length_encode]
    rfl

theorem mul_65_le_totalBytes : entries.length * 65 ≤ totalBytes entries := by
  induction entries with
  | nil => exact le_rfl
  | cons entry entries ih =>
    have hentry : 65 ≤ entry.wireBytes := Nat.le_add_right _ _
    show (entries.length + 1) * 65 ≤ entry.wireBytes + totalBytes entries
    omega

theorem ProposalLookupStatus.decode_eq_ok {status : ProposalLookupStatus} :
    decode input = .ok (status, rest) ↔
      input = writeU8 status.toU8 ++ rest := by
  unfold decode
  simp only [Reader.bind_eq_ok, readU8_eq_ok, Reader.ite_eq_ok, Reader.pure_eq_ok,
    Reader.throw_eq_ok, and_false, or_false]
  constructor
  · rintro ⟨tag, mid, rfl, ⟨rfl, rfl, rfl⟩ | ⟨_, ⟨rfl, rfl, rfl⟩ | ⟨_, rfl, rfl, rfl⟩⟩⟩
    all_goals rfl
  · cases status <;> simp [toU8]

variable {entries : List ProposalLookupEntry}

/-- **THE LOOP OF THE DECODER**: the running count of bytes is a bound on all of them. -/
theorem decodeEntries_eq_ok {count wireBytes : Nat}
    (hstart : wireBytes ≤ MAX_PROPOSAL_LOOKUP_RESPONSE_BYTES) :
    decodeEntries count wireBytes input = .ok (entries, rest) ↔
      entries.length = count ∧
      (∀ entry ∈ entries, entry.candidates.length ≤ PROPOSAL_LOOKUP_CANDIDATES_PER_TRANSITION) ∧
      wireBytes + totalBytes entries ≤ MAX_PROPOSAL_LOOKUP_RESPONSE_BYTES ∧
      input = entries.flatMap encode ++ rest := by
  induction count generalizing wireBytes input rest entries with
  | zero =>
    show (pure [] : ProtocolReader _) input = _ ↔ _
    rw [Reader.pure_eq_ok, length_eq_zero_iff]
    constructor
    · rintro ⟨rfl, rfl⟩
      exact ⟨rfl, by simp, hstart, rfl⟩
    · rintro ⟨rfl, _, _, rfl⟩
      exact ⟨rfl, rfl⟩
  | succ count ih =>
    unfold decodeEntries
    simp only [Reader.bind_eq_ok, Reader.pure_eq_ok, Reader.ensure_eq_ok, readU8_eq_ok,
      RealmTransition.lawful _ _ _, readMany_eq_ok Proposal.lawful, true_and]
    constructor
    · rintro ⟨transition, _, rfl, tag, _, rfl, _, _, ⟨hcandidates, rfl⟩, _, _, ⟨hwire, rfl⟩,
        candidates, _, ⟨hlength, _, rfl⟩, entries', _, hrest, rfl, rfl⟩
      obtain ⟨rfl, hall, htotal, rfl⟩ := (ih hwire).mp hrest
      refine ⟨rfl, forall_mem_cons.mpr ⟨by rw [hlength]; exact hcandidates, hall⟩, ?_, ?_⟩
      · show wireBytes + (65 + candidates.length * _ + totalBytes entries') ≤ _
        rw [hlength]
        omega
      · rw [flatMap_cons, encode, append_assoc, append_assoc, append_assoc, hlength,
          UInt8.ofNat_toNat]
    · rintro ⟨hlength, hall, htotal, rfl⟩
      cases entries with
      | nil => cases hlength
      | cons entry entries =>
        obtain ⟨hentry, hall⟩ := forall_mem_cons.mp hall
        have hlen : (UInt8.ofNat entry.candidates.length).toNat = entry.candidates.length :=
          UInt8.toNat_ofNat_of_lt' (lt_of_le_of_lt hentry (by decide))
        have htotal' : wireBytes + (65 + entry.candidates.length * PROPOSAL_WIRE_BYTES +
            totalBytes entries) ≤ MAX_PROPOSAL_LOOKUP_RESPONSE_BYTES := htotal
        rw [flatMap_cons, encode, append_assoc, append_assoc, append_assoc]
        refine ⟨_, _, rfl, _, _, rfl, (), _, ⟨by rw [hlen]; exact hentry, rfl⟩, (), _,
          ⟨by rw [hlen]; omega, rfl⟩, entry.candidates, _, ⟨hlen.symm, fun _ _ => trivial, rfl⟩,
          entries, rest, (ih (by rw [hlen]; omega)).mpr ⟨Nat.succ.inj hlength, hall, ?_, rfl⟩,
          rfl, rfl⟩
        rw [hlen]
        omega

theorem ProposalLookupResponse.lawful :
    Lawful protocolDecode (fun m => encodeEntries m.status m.entries)
      WellFormed := by
  intro input m rest
  have hfive : 5 ≤ MAX_PROPOSAL_LOOKUP_RESPONSE_BYTES := by decide
  unfold protocolDecode encodeEntries
  simp only [Reader.bind_eq_ok, Reader.pure_eq_ok, Reader.ensure_eq_ok, Reader.remaining_eq_ok,
    ProposalLookupStatus.decode_eq_ok, readU32_eq_ok, decodeEntries_eq_ok hfive, append_assoc,
    not_or, not_and, not_not]
  constructor
  · rintro ⟨status, _, rfl, count, _, rfl, _, _, ⟨hmax, rfl⟩, _, _, ⟨_, rfl⟩, _, _, ⟨_, rfl⟩,
      entries, _, ⟨hlength, hcandidates, htotal, rfl⟩, _, _, ⟨hstatus, rfl⟩, rfl, rfl⟩
    refine ⟨⟨⟨by rw [hlength]; exact hmax, htotal⟩, hcandidates, hstatus⟩, ?_⟩
    rw [hlength, UInt32.ofNat_toNat]
  · rintro ⟨⟨⟨hmax, htotal⟩, hcandidates, hstatus⟩, rfl⟩
    have hlen : (UInt32.ofNat m.entries.length).toNat = m.entries.length :=
      UInt32.toNat_ofNat_of_lt' (lt_of_le_of_lt hmax (by decide))
    have hbytes := mul_65_le_totalBytes m.entries
    refine ⟨_, _, rfl, _, _, rfl, (), _, ⟨by rw [hlen]; exact hmax, rfl⟩, _, _, ⟨rfl, rfl⟩, (), _,
      ⟨?_, rfl⟩, m.entries, rest, ⟨hlen.symm, hcandidates, htotal, rfl⟩, (), _, ⟨hstatus, rfl⟩, rfl,
      rfl⟩
    rw [hlen, length_append, length_flatMap_entry_encode]
    omega

/-! ## §5. Truncation. -/

/-- **HOW MANY ENTRIES FIT**: the longest beginning within the bytes. -/
theorem le_fittingCount_iff {w : Nat} (hstart : w ≤ MAX_PROPOSAL_LOOKUP_RESPONSE_BYTES) {k : Nat} :
    k ≤ fittingCount w entries ↔ k ≤ entries.length ∧
      w + totalBytes (entries.take k) ≤ MAX_PROPOSAL_LOOKUP_RESPONSE_BYTES := by
  induction entries generalizing w k with
  | nil =>
    show k ≤ 0 ↔ k ≤ 0 ∧ _
    rw [take_nil]
    exact ⟨fun h => ⟨h, hstart⟩, fun h => h.1⟩
  | cons entry entries ih =>
    cases k with
    | zero => exact ⟨fun _ => ⟨Nat.zero_le _, hstart⟩, fun _ => Nat.zero_le _⟩
    | succ k =>
      have htotal : totalBytes ((entry :: entries).take (k + 1)) =
          entry.wireBytes + totalBytes (entries.take k) := rfl
      unfold fittingCount
      rw [htotal, length_cons]
      split
      next h => omega
      next h =>
        rw [Nat.succ_le_succ_iff, ih (not_lt.mp h), Nat.succ_le_succ_iff, Nat.add_assoc]

theorem fits_take_iff {k : Nat} (hk : k ≤ entries.length) : Fits (entries.take k) ↔
      k ≤ fittingCount 5 (entries.take PROPOSAL_LOOKUP_MAX_TRANSITIONS) := by
  rw [le_fittingCount_iff (by decide), take_take, length_take]
  unfold Fits
  rw [length_take]
  constructor
  · rintro ⟨hmax, htotal⟩
    rw [min_eq_left hk] at hmax
    rw [min_eq_left hmax]
    exact ⟨le_min hmax hk, htotal⟩
  · rintro ⟨hmin, htotal⟩
    have hmax := (le_min_iff.mp hmin).1
    rw [min_eq_left hmax] at htotal
    rw [min_eq_left hk]
    exact ⟨hmax, htotal⟩

theorem fittingCount_take_le_length (entries : List ProposalLookupEntry) :
    fittingCount 5 (entries.take PROPOSAL_LOOKUP_MAX_TRANSITIONS) ≤ entries.length := by
  have hfits : ∀ k, k ≤ fittingCount 5 (entries.take PROPOSAL_LOOKUP_MAX_TRANSITIONS) →
      k ≤ (entries.take PROPOSAL_LOOKUP_MAX_TRANSITIONS).length :=
    fun k hk => ((le_fittingCount_iff (by decide)).mp hk).1
  exact le_trans (hfits _ le_rfl) (length_take_le' _ _)

variable {m : ProposalLookupResponse}

/-- A response that fits is encoded whole. -/
theorem ProposalLookupResponse.protocolEncode_of_fits (h : Fits m.entries) :
    m.protocolEncode = encodeEntries m.status m.entries := by
  unfold protocolEncode
  dsimp only
  have hcount : fittingCount 5 (m.entries.take PROPOSAL_LOOKUP_MAX_TRANSITIONS) =
      m.entries.length := by
    refine le_antisymm (fittingCount_take_le_length m.entries) ?_
    rw [← fits_take_iff le_rfl, take_length]
    exact h
  rw [hcount, take_length, if_neg (lt_irrefl _)]

/-- A response is encoded as its longest beginning that fits. -/
theorem ProposalLookupResponse.protocolEncode_eq (m : ProposalLookupResponse) :
    ∃ n ≤ m.entries.length, Fits (m.entries.take n) ∧
      (∀ k ≤ m.entries.length, Fits (m.entries.take k) → k ≤ n) ∧
      m.protocolEncode = protocolEncode
        ⟨if n < m.entries.length then .truncated else m.status, m.entries.take n⟩ := by
  set n := fittingCount 5 (m.entries.take PROPOSAL_LOOKUP_MAX_TRANSITIONS)
  have hle : n ≤ m.entries.length := fittingCount_take_le_length m.entries
  have hfits : Fits (m.entries.take n) := (fits_take_iff hle).mpr le_rfl
  refine ⟨n, hle, hfits, fun k hk h => (fits_take_iff hk).mp h, ?_⟩
  rw [protocolEncode_of_fits (m := ⟨_, m.entries.take n⟩) hfits]
  rfl

theorem ProposalLookupResponse.decodeExact_eq_ok {bytes : Bytes} :
    decodeExact bytes = .ok m ↔ m.WellFormed ∧ m.protocolEncode = bytes := by
  unfold decodeExact
  split
  next hlong =>
    constructor
    · intro h
      cases h
    · rintro ⟨hwf, rfl⟩
      rw [protocolEncode_of_fits hwf.fits, encodeEntries, length_append, length_append,
        length_flatMap_entry_encode] at hlong
      exact absurd hwf.fits.2 (not_le.mpr hlong)
  next =>
    rw [P2p.decodeExact_eq_ok lawful]
    refine and_congr_right (fun hwf => ?_)
    rw [protocolEncode_of_fits hwf.fits]

/-! ## §6. Forwarded end caps. -/

theorem EndCapRejectReason.decode_eq_ok {reason : EndCapRejectReason} :
    decode input = .ok (reason, rest) ↔
      input = writeU8 reason.toU8 ++ rest := by
  unfold decode
  simp only [Reader.bind_eq_ok, readU8_eq_ok, Reader.ite_eq_ok, Reader.pure_eq_ok,
    Reader.throw_eq_ok, and_false, or_false]
  constructor
  · rintro ⟨value, mid, rfl, ⟨rfl, rfl, rfl⟩ |
      ⟨_, ⟨rfl, rfl, rfl⟩ | ⟨_, ⟨rfl, rfl, rfl⟩ | ⟨_, rfl, rfl, rfl⟩⟩⟩⟩
    all_goals rfl
  · cases reason <;> simp [toU8]

theorem EndCapForwardResponse.lawful : Lawful protocolDecode protocolEncode WellFormed := by
  rintro input ⟨⟩ rest
  simp [protocolDecode, protocolEncode, WellFormed, EndCapRejectReason.decode_eq_ok, existsAndEq,
    and_comm, -Bool.exists_bool]

/-! ## §7. The result. -/

/-- **CANONICAL WIRE FORMS.**  For each message type the decoder accepts exactly the encodings of
the well-formed messages, each as its message; and a lookup response that is too large is encoded
as its longest beginning that fits, marked as truncated. -/
theorem p2p_wire_forms_canonical (sigValidate : FixedBytes BLS_SIGNATURE_LEN → Bool) :
    (∀ b m, Proposal.decodeExact b = .ok m ↔ m.protocolEncode = b) ∧
    (∀ b m, decodeProposalBody b = .ok m ↔ m.WellFormed ∧ encodeProposalBody m = .ok b) ∧
    (∀ b m, ProposalPart.decodeExact b = .ok m ↔ m.WellFormed ∧ m.protocolEncode = b) ∧
    (∀ b (m : Vote sigValidate), Vote.decodeExact b = .ok m ↔ m.protocolEncode = b) ∧
    (∀ b (m : Certificate sigValidate), Certificate.decodeExact b = .ok m ↔
      m.protocolEncode = b) ∧
    (∀ b m, BodyChunkRequest.decodeExact b = .ok m ↔ m.WellFormed ∧ m.protocolEncode = b) ∧
    (∀ b m, BodyChunkResponse.decodeExact b = .ok m ↔ m.WellFormed ∧ m.protocolEncode = .ok b) ∧
    (∀ b m, ProposalLookupRequest.decodeExact b = .ok m ↔ m.WellFormed ∧ m.protocolEncode = b) ∧
    (∀ b m, ProposalLookupResponse.decodeExact b = .ok m ↔ m.WellFormed ∧ m.protocolEncode = b) ∧
    (∀ b m, EndCapForwardHeader.decodeExact b = .ok m ↔ m.protocolEncode = b) ∧
    (∀ b m, EndCapForwardResponse.decodeExact b = .ok m ↔ m.WellFormed ∧ m.protocolEncode = b) ∧
    ∀ m : ProposalLookupResponse, ∃ n ≤ m.entries.length, Fits (m.entries.take n) ∧
      (∀ k ≤ m.entries.length, Fits (m.entries.take k) → k ≤ n) ∧
      m.protocolEncode = ProposalLookupResponse.protocolEncode
        ⟨if n < m.entries.length then .truncated else m.status, m.entries.take n⟩ := by
  refine ⟨?_, ?_, ?_, ?_, ?_, ?_, ?_, ?_, ?_, ?_, ?_, ProposalLookupResponse.protocolEncode_eq⟩
  · exact fun _ _ => decodeExact_eq_ok_of_true Proposal.lawful
  · intro b m
    rw [decodeProposalBody_eq_ok]
    exact and_congr_right (fun hwf => (encodeProposalBody_eq_ok hwf).symm)
  · exact fun _ _ => decodeExact_eq_ok ProposalPart.lawful
  · exact fun _ _ => decodeExact_eq_ok_of_true Vote.lawful
  · exact fun _ _ => decodeExact_eq_ok_of_true Certificate.lawful
  · exact fun _ _ => decodeExact_eq_ok BodyChunkRequest.lawful
  · intro b m
    rw [BodyChunkResponse.decodeExact, decodeExact_eq_ok BodyChunkResponse.lawful]
    exact and_congr_right
      (fun hwf => eq_comm.trans (BodyChunkResponse.protocolEncode_eq_ok hwf).symm)
  · exact fun _ _ => decodeExact_eq_ok ProposalLookupRequest.lawful
  · exact fun _ _ => ProposalLookupResponse.decodeExact_eq_ok
  · exact fun _ _ => decodeExact_eq_ok_of_true EndCapForwardHeader.lawful
  · exact fun _ _ => decodeExact_eq_ok EndCapForwardResponse.lawful

/-- A body within the limits; the limbs of its worker tag are `2 ^ 64 - 1`. -/
def unreducedBody : ProposalBody :=
  ⟨List.replicate MAX_FINALIZER_OUTPUT_BYTES 0, [], [], ⟨List.replicate 32 255, rfl⟩⟩

/-- A rejection without a reason, and a body whose worker tag is not reduced, are encoded and not
decoded. -/
theorem p2p_wire_forms_one_way :
    EndCapForwardResponse.decodeExact (EndCapForwardResponse.rejected .none).protocolEncode =
      .error (.message "canonical rejected EndCap response carries a rejection reason") ∧
    (encodeProposalBody unreducedBody).isOk = true ∧
    (encodeProposalBody unreducedBody).bind decodeProposalBody =
      .error (.nonCanonicalField (2 ^ 64 - 1)) := by
  refine ⟨?_, ?_, ?_⟩
  · decide +kernel
  · decide +kernel
  · decide +kernel

end PsyNode.P2p
