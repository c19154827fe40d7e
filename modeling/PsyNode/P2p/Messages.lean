/-
PsyNode.P2p.Messages
**THE MESSAGES OF A REALM** — the consensus, transfer and lookup messages of
`psy_data/src/p2p/messages.rs`, with their codecs.

An encoder returns the bytes it appends.  The `debug_assert!` of a chunk is not
part of the model: the bytes are those of a release build.
-/
import PsyNode.P2p.Codec

namespace PsyNode.P2p

open Lib.ByteCodec Lib

/-! ## §1. Limits. -/

/-- Data of one chunk. -/
def MAX_PROPOSAL_CHUNK_BYTES : Nat := 61440

/-- The exact length of a finalizer output. -/
def MAX_FINALIZER_OUTPUT_BYTES : Nat := 410

/-- Limit of a finalizer proof. -/
def MAX_FINALIZER_PROOF_BYTES : Nat := 262144

/-- Limit of the state updates. -/
def MAX_BACKUP_BYTES : Nat := 104857600

/-- A body with its three lengths and its tag. -/
def MAX_PROPOSAL_BODY_BYTES : Nat :=
  3 * 4 + MAX_FINALIZER_OUTPUT_BYTES + MAX_FINALIZER_PROOF_BYTES + MAX_BACKUP_BYTES + 32

/-- `div_ceil` of the body by the chunks. -/
def MAX_PROPOSAL_PARTS : Nat :=
  (MAX_PROPOSAL_BODY_BYTES + MAX_PROPOSAL_CHUNK_BYTES - 1) / MAX_PROPOSAL_CHUNK_BYTES

/-- Data of one answered chunk. -/
def BODY_CHUNK_MAX_BYTES : Nat := 61440

/-- An encoded proposal. -/
def PROPOSAL_WIRE_BYTES : Nat := 214

/-- A whole lookup response. -/
def MAX_PROPOSAL_LOOKUP_RESPONSE_BYTES : Nat := 16384

/-- Transitions of one lookup. -/
def PROPOSAL_LOOKUP_MAX_TRANSITIONS : Nat := 256

/-- Proposals found for one transition. -/
def PROPOSAL_LOOKUP_CANDIDATES_PER_TRANSITION : Nat := 2

/-- A compressed point of G2. -/
def BLS_SIGNATURE_LEN : Nat := 96

/-! ## §2. Proposals. -/

/-- A proposer's transition of a realm; the body is sent apart. -/
structure Proposal where
  chainId : UInt64
  realmId : UInt32
  baseCheckpointId : UInt64
  proposerSubId : UInt16
  validatorTreeRoot : FixedBytes 32
  proposalId : FixedBytes 32
  publicOutputHash : FixedBytes 32
  finalizerProofHash : FixedBytes 32
  backupHash : FixedBytes 32
  bodyHash : FixedBytes 32
deriving DecidableEq

/-- The fields in their order. -/
def Proposal.protocolEncode (m : Proposal) : Bytes :=
  writeU64 m.chainId ++ writeU32 m.realmId ++ writeU64 m.baseCheckpointId ++
    writeU16 m.proposerSubId ++ writeFixed m.validatorTreeRoot ++ writeFixed m.proposalId ++
    writeFixed m.publicOutputHash ++ writeFixed m.finalizerProofHash ++ writeFixed m.backupHash ++
    writeFixed m.bodyHash

/-- Reads the fields back. -/
def Proposal.protocolDecode : ProtocolReader Proposal := do
  let chainId ← readU64
  let realmId ← readU32
  let baseCheckpointId ← readU64
  let proposerSubId ← readU16
  let validatorTreeRoot ← readBytes32
  let proposalId ← readBytes32
  let publicOutputHash ← readBytes32
  let finalizerProofHash ← readBytes32
  let backupHash ← readBytes32
  let bodyHash ← readBytes32
  pure ⟨chainId, realmId, baseCheckpointId, proposerSubId, validatorTreeRoot, proposalId,
    publicOutputHash, finalizerProofHash, backupHash, bodyHash⟩

/-- Reads a buffer with nothing behind the proposal. -/
def Proposal.decodeExact (bytes : Bytes) : Except ProtocolError Proposal :=
  P2p.decodeExact bytes protocolDecode

/-- The parts of a proposal body. -/
structure ProposalBody where
  finalizerOutput : Bytes
  finalizerProof : Bytes
  stateUpdates : Bytes
  finalizerWorkerTag : FixedBytes 32
deriving DecidableEq

/-- The lengths are checked before anything is written. -/
def encodeProposalBody (m : ProposalBody) : Except ProtocolError Bytes := do
  if m.finalizerOutput.length ≠ MAX_FINALIZER_OUTPUT_BYTES then
    .error (.invalidLength "finalizer output" m.finalizerOutput.length MAX_FINALIZER_OUTPUT_BYTES)
  if MAX_FINALIZER_PROOF_BYTES < m.finalizerProof.length then
    .error (.lengthLimit "finalizer proof" m.finalizerProof.length MAX_FINALIZER_PROOF_BYTES)
  if MAX_BACKUP_BYTES < m.stateUpdates.length then
    .error (.lengthLimit "state updates" m.stateUpdates.length MAX_BACKUP_BYTES)
  let output ← writeBytesU32 m.finalizerOutput
  let proof ← writeBytesU32 m.finalizerProof
  let updates ← writeBytesU32 m.stateUpdates
  .ok (output ++ proof ++ updates ++ writeFixed m.finalizerWorkerTag)

/-- The worker tag must be a canonical hash. -/
def decodeProposalBody (body : Bytes) : Except ProtocolError ProposalBody :=
  decodeExact body (do
    let output ← readBytesU32 "finalizer output" (UInt32.ofNat MAX_FINALIZER_OUTPUT_BYTES)
    ensure (output.length = MAX_FINALIZER_OUTPUT_BYTES)
      (.invalidLength "finalizer output" output.length MAX_FINALIZER_OUTPUT_BYTES)
    let proof ← readBytesU32 "finalizer proof" (UInt32.ofNat MAX_FINALIZER_PROOF_BYTES)
    let stateUpdates ← readBytesU32 "state updates" (UInt32.ofNat MAX_BACKUP_BYTES)
    let workerTag ← readBytes32
    check (validateHash32Canonical workerTag)
    pure ⟨output, proof, stateUpdates, workerTag⟩)

/-- A proposal travels as its start and the chunks of its body. -/
inductive ProposalPart
  | start (proposal : Proposal) (totalParts : UInt32) (bodyLen : UInt64)
  | chunk (proposalId : FixedBytes 32) (offset : UInt64) (data : Bytes)
deriving DecidableEq

/-- First byte of a start. -/
def ProposalPart.TAG_START : UInt8 := 0

/-- First byte of a chunk. -/
def ProposalPart.TAG_CHUNK : UInt8 := 1

/-- The tag, then the fields. -/
def ProposalPart.protocolEncode : ProposalPart → Bytes
  | .start proposal totalParts bodyLen =>
    writeU8 TAG_START ++ proposal.protocolEncode ++ writeU32 totalParts ++ writeU64 bodyLen
  | .chunk proposalId offset data =>
    writeU8 TAG_CHUNK ++ writeFixed proposalId ++ writeU64 offset ++
      writeU32 (UInt32.ofNat data.length) ++ data

/-- The fields of `Start`. -/
def ProposalPart.decodeStart : ProtocolReader ProposalPart := do
  let proposal ← Proposal.protocolDecode
  let totalParts ← readU32
  ensure (totalParts ≠ 0) (.message "ProposalPart::Start total_parts must be at least 1")
  ensure (totalParts.toNat ≤ MAX_PROPOSAL_PARTS)
    (.lengthLimit "ProposalPart::Start total_parts" totalParts.toNat MAX_PROPOSAL_PARTS)
  let bodyLen ← readU64
  ensure (bodyLen ≠ 0) (.message "ProposalPart::Start body_len must be at least 1")
  ensure (bodyLen.toNat ≤ MAX_PROPOSAL_BODY_BYTES)
    (.lengthLimit "ProposalPart::Start body_len" bodyLen.toNat MAX_PROPOSAL_BODY_BYTES)
  pure (.start proposal totalParts bodyLen)

/-- The fields of `Chunk`. -/
def ProposalPart.decodeChunk : ProtocolReader ProposalPart := do
  let proposalId ← readBytes32
  let offset ← readU64
  let data ← readBytesU32 "chunk data" (UInt32.ofNat MAX_PROPOSAL_CHUNK_BYTES)
  ensure (data ≠ []) (.message "ProposalPart::Chunk data must not be empty")
  pure (.chunk proposalId offset data)

/-- The tag chooses what is read. -/
def ProposalPart.protocolDecode : ProtocolReader ProposalPart := do
  let tag ← readU8
  if tag = TAG_START then decodeStart
  else if tag = TAG_CHUNK then decodeChunk
  else throw (.unknownTag "ProposalPart" tag)

/-- Reads a buffer with one part. -/
def ProposalPart.decodeExact (bytes : Bytes) : Except ProtocolError ProposalPart :=
  P2p.decodeExact bytes protocolDecode

/-! ## §3. Votes and certificates. -/

section
-- the group check of the curve library, on compressed points
variable (sigValidate : FixedBytes BLS_SIGNATURE_LEN → Bool)

/-- `BlsSignature`: a compressed point that passes the group check. -/
structure BlsSignature where
  bytes : FixedBytes BLS_SIGNATURE_LEN
  compressed : bytes.toList.headD 0 &&& 0x80 ≠ 0
  valid : sigValidate bytes = true
deriving DecidableEq

variable {sigValidate}

/-- Checks the compression flag, then the group. -/
def BlsSignature.fromBytes (bytes : FixedBytes BLS_SIGNATURE_LEN) :
    Except ProtocolError (BlsSignature sigValidate) :=
  if hflag : bytes.toList.headD 0 &&& 0x80 = 0 then .error .invalidBlsSignature
  else if hvalid : sigValidate bytes = true then .ok ⟨bytes, hflag, hvalid⟩
  else .error .invalidBlsSignature

/-- The compressed point. -/
def BlsSignature.protocolEncode (signature : BlsSignature sigValidate) : Bytes :=
  writeFixed signature.bytes

/-- Reads a point and checks it. -/
def BlsSignature.protocolDecode : ProtocolReader (BlsSignature sigValidate) := do
  let bytes ← readFixed BLS_SIGNATURE_LEN (.unexpectedEof "fixed bytes")
  check (fromBytes bytes)

variable (sigValidate)

/-- A validator's signature under a proposal. -/
structure Vote where
  proposalId : FixedBytes 32
  signerSubId : UInt16
  signature : BlsSignature sigValidate
deriving DecidableEq

/-- Who signed a proposal, with the aggregated signature. -/
structure Certificate where
  chainId : UInt64
  realmId : UInt32
  validatorTreeRoot : FixedBytes 32
  proposalId : FixedBytes 32
  signerBitmap : FixedBytes 32
  aggregatedSignature : BlsSignature sigValidate
deriving DecidableEq

variable {sigValidate}

/-- The fields in their order. -/
def Vote.protocolEncode (m : Vote sigValidate) : Bytes :=
  writeFixed m.proposalId ++ writeU16 m.signerSubId ++ m.signature.protocolEncode

/-- Reads the fields back. -/
def Vote.protocolDecode : ProtocolReader (Vote sigValidate) := do
  let proposalId ← readBytes32
  let signerSubId ← readU16
  let signature ← BlsSignature.protocolDecode
  pure ⟨proposalId, signerSubId, signature⟩

/-- Reads a buffer with one vote. -/
def Vote.decodeExact (bytes : Bytes) : Except ProtocolError (Vote sigValidate) :=
  P2p.decodeExact bytes protocolDecode

/-- The fields in their order. -/
def Certificate.protocolEncode (m : Certificate sigValidate) : Bytes :=
  writeU64 m.chainId ++ writeU32 m.realmId ++ writeFixed m.validatorTreeRoot ++
    writeFixed m.proposalId ++ writeFixed m.signerBitmap ++ m.aggregatedSignature.protocolEncode

/-- Reads the fields back. -/
def Certificate.protocolDecode : ProtocolReader (Certificate sigValidate) := do
  let chainId ← readU64
  let realmId ← readU32
  let validatorTreeRoot ← readBytes32
  let proposalId ← readBytes32
  let signerBitmap ← readBytes32
  let aggregatedSignature ← BlsSignature.protocolDecode
  pure ⟨chainId, realmId, validatorTreeRoot, proposalId, signerBitmap, aggregatedSignature⟩

/-- Reads a buffer with one certificate. -/
def Certificate.decodeExact (bytes : Bytes) : Except ProtocolError (Certificate sigValidate) :=
  P2p.decodeExact bytes protocolDecode

end

/-- Answers to a submitted finalization. -/
inductive RealmFinalizeSubmitCode
  | accepted
  | unauthorizedSource
  | notScheduledProposer
  | checkpointUnavailable
  | invalidOutput
  | invalidProposal
  | invalidCertificate
  | invalidProof
  | alreadyClaimed
  | busy
  | internal
deriving DecidableEq

/-! ## §4. Transfer of bodies. -/

/-- Asks for bytes of a body. -/
structure BodyChunkRequest where
  proposalId : FixedBytes 32
  offset : UInt64
  maxBytes : UInt32
deriving DecidableEq

/-- The fields in their order. -/
def BodyChunkRequest.protocolEncode (m : BodyChunkRequest) : Bytes :=
  writeFixed m.proposalId ++ writeU64 m.offset ++ writeU32 m.maxBytes

/-- At least one byte must be asked for, and not more than a chunk. -/
def BodyChunkRequest.protocolDecode : ProtocolReader BodyChunkRequest := do
  let proposalId ← readBytes32
  let offset ← readU64
  let maxBytes ← readU32
  ensure (¬ (maxBytes = 0 ∨ BODY_CHUNK_MAX_BYTES < maxBytes.toNat))
    (.lengthLimit "BodyChunkRequest.max_bytes" maxBytes.toNat BODY_CHUNK_MAX_BYTES)
  pure ⟨proposalId, offset, maxBytes⟩

/-- Reads a buffer with one request. -/
def BodyChunkRequest.decodeExact (bytes : Bytes) : Except ProtocolError BodyChunkRequest :=
  P2p.decodeExact bytes protocolDecode

/-- Bytes of a body, with the length and the hash of the whole. -/
structure BodyChunkResponse where
  offset : UInt64
  data : Bytes
  eof : Bool
  bodyLen : UInt64
  bodyHash : FixedBytes 32
deriving DecidableEq

/-- The encoder of `BodyChunkResponse`; it panics if the length of the data does not fit `u32`. -/
def BodyChunkResponse.protocolEncode (m : BodyChunkResponse) : Except ProtocolError Bytes := do
  let data ← writeBytesU32 m.data
  .ok (writeU64 m.offset ++ data ++ writeBool m.eof ++ writeU64 m.bodyLen ++ writeFixed m.bodyHash)

/-- Reads the fields back, within the limits. -/
def BodyChunkResponse.protocolDecode : ProtocolReader BodyChunkResponse := do
  let offset ← readU64
  let data ← readBytesU32 "BodyChunkResponse.data" (UInt32.ofNat BODY_CHUNK_MAX_BYTES)
  let eof ← readBool
  let bodyLen ← readU64
  ensure (bodyLen.toNat ≤ MAX_PROPOSAL_BODY_BYTES)
    (.lengthLimit "BodyChunkResponse.body_len" bodyLen.toNat MAX_PROPOSAL_BODY_BYTES)
  let bodyHash ← readBytes32
  pure ⟨offset, data, eof, bodyLen, bodyHash⟩

/-- Reads a buffer with one response. -/
def BodyChunkResponse.decodeExact (bytes : Bytes) : Except ProtocolError BodyChunkResponse :=
  P2p.decodeExact bytes protocolDecode

/-! ## §5. Lookup of proposals. -/

/-- The roots of a realm before and after. -/
structure RealmTransition where
  oldRoot : FixedBytes 32
  newRoot : FixedBytes 32
deriving DecidableEq

/-- Old root, new root. -/
def RealmTransition.encode (m : RealmTransition) : Bytes :=
  writeFixed m.oldRoot ++ writeFixed m.newRoot

/-- Reads the two roots. -/
def RealmTransition.decode : ProtocolReader RealmTransition := do
  let oldRoot ← readBytes32
  let newRoot ← readBytes32
  pure ⟨oldRoot, newRoot⟩

/-- Asks for the proposals of some transitions. -/
structure ProposalLookupRequest where
  chainId : UInt64
  realmId : UInt32
  transitions : List RealmTransition
deriving DecidableEq

/-- The transitions follow their number. -/
def ProposalLookupRequest.protocolEncode (m : ProposalLookupRequest) : Bytes :=
  writeU64 m.chainId ++ writeU32 m.realmId ++ writeU32 (UInt32.ofNat m.transitions.length) ++
    m.transitions.flatMap RealmTransition.encode

/-- The bytes that are left must cover the announced transitions. -/
def ProposalLookupRequest.protocolDecode : ProtocolReader ProposalLookupRequest := do
  let chainId ← readU64
  let realmId ← readU32
  let count ← readU32
  ensure (¬ (count.toNat = 0 ∨ PROPOSAL_LOOKUP_MAX_TRANSITIONS < count.toNat))
    (.message "invalid ProposalLookup transition count")
  let left ← remaining
  ensure (count.toNat * 64 ≤ left) (.unexpectedEof "ProposalLookup transitions")
  let transitions ← readMany RealmTransition.decode count.toNat
  pure ⟨chainId, realmId, transitions⟩

/-- Reads a buffer with one request. -/
def ProposalLookupRequest.decodeExact (bytes : Bytes) :
    Except ProtocolError ProposalLookupRequest :=
  P2p.decodeExact bytes protocolDecode

/-- What a lookup found, and whether all of it was sent. -/
inductive ProposalLookupStatus
  | candidates
  | empty
  | truncated
deriving DecidableEq

/-- The byte of a status. -/
def ProposalLookupStatus.toU8 : ProposalLookupStatus → UInt8
  | .candidates => 0
  | .empty => 1
  | .truncated => 2

/-- A transition and the proposals found for it. -/
structure ProposalLookupEntry where
  transition : RealmTransition
  candidates : List Proposal
deriving DecidableEq

/-- A status and the entries. -/
structure ProposalLookupResponse where
  status : ProposalLookupStatus
  entries : List ProposalLookupEntry
deriving DecidableEq

/-- The bytes that an entry takes. -/
def ProposalLookupEntry.wireBytes (entry : ProposalLookupEntry) : Nat :=
  65 + entry.candidates.length * PROPOSAL_WIRE_BYTES

/-- The proposals follow their number, one byte. -/
def ProposalLookupEntry.encode (entry : ProposalLookupEntry) : Bytes :=
  entry.transition.encode ++ writeU8 (UInt8.ofNat entry.candidates.length) ++
    entry.candidates.flatMap Proposal.protocolEncode

/-- The loop of the encoder: how many entries fit, from `wireBytes` on. -/
def fittingCount : Nat → List ProposalLookupEntry → Nat
  | _, [] => 0
  | wireBytes, entry :: entries =>
    if MAX_PROPOSAL_LOOKUP_RESPONSE_BYTES < wireBytes + entry.wireBytes then 0
    else fittingCount (wireBytes + entry.wireBytes) entries + 1

/-- The bytes of a status and entries. -/
def encodeEntries (status : ProposalLookupStatus) (entries : List ProposalLookupEntry) : Bytes :=
  writeU8 status.toU8 ++ writeU32 (UInt32.ofNat entries.length) ++
    entries.flatMap ProposalLookupEntry.encode

/-- Entries that do not fit are cut off, and the status says so. -/
def ProposalLookupResponse.protocolEncode (m : ProposalLookupResponse) : Bytes :=
  let count := fittingCount 5 (m.entries.take PROPOSAL_LOOKUP_MAX_TRANSITIONS)
  let status := if count < m.entries.length then .truncated else m.status
  encodeEntries status (m.entries.take count)

/-- Refuses an unknown byte. -/
def ProposalLookupStatus.decode : ProtocolReader ProposalLookupStatus := do
  let tag ← readU8
  if tag = 0 then pure .candidates
  else if tag = 1 then pure .empty
  else if tag = 2 then pure .truncated
  else throw (.unknownTag "ProposalLookupStatus" tag)

/-- The loop of the decoder: `count` entries, after `wireBytes` bytes. -/
def decodeEntries : Nat → Nat → ProtocolReader (List ProposalLookupEntry)
  | 0, _ => pure []
  | count + 1, wireBytes => do
    let transition ← RealmTransition.decode
    let candidateCount ← readU8
    ensure (candidateCount.toNat ≤ PROPOSAL_LOOKUP_CANDIDATES_PER_TRANSITION)
      (.message "invalid ProposalLookup candidate count")
    ensure (wireBytes + (65 + candidateCount.toNat * PROPOSAL_WIRE_BYTES) ≤
        MAX_PROPOSAL_LOOKUP_RESPONSE_BYTES)
      (.message "ProposalLookup response exceeds maximum")
    let candidates ← readMany Proposal.protocolDecode candidateCount.toNat
    let entries ← decodeEntries count
      (wireBytes + (65 + candidateCount.toNat * PROPOSAL_WIRE_BYTES))
    pure (⟨transition, candidates⟩ :: entries)

/-- Does some entry have candidates? -/
def hasCandidates (entries : List ProposalLookupEntry) : Bool :=
  entries.any (fun entry => !entry.candidates.isEmpty)

/-- A status that contradicts the entries is refused. -/
def ProposalLookupResponse.protocolDecode : ProtocolReader ProposalLookupResponse := do
  let status ← ProposalLookupStatus.decode
  let count ← readU32
  ensure (count.toNat ≤ PROPOSAL_LOOKUP_MAX_TRANSITIONS)
    (.message "invalid ProposalLookup entry count")
  let left ← remaining
  ensure (count.toNat * 65 ≤ left) (.unexpectedEof "ProposalLookup entries")
  let entries ← decodeEntries count.toNat 5
  ensure (¬ ((status = .candidates ∧ ¬ hasCandidates entries) ∨
      (status = .empty ∧ hasCandidates entries)))
    (.message "non-canonical ProposalLookup status")
  pure ⟨status, entries⟩

/-- Checks the length before it reads. -/
def ProposalLookupResponse.decodeExact (bytes : Bytes) :
    Except ProtocolError ProposalLookupResponse :=
  if MAX_PROPOSAL_LOOKUP_RESPONSE_BYTES < bytes.length then
    .error (.lengthLimit "ProposalLookupResponse" bytes.length MAX_PROPOSAL_LOOKUP_RESPONSE_BYTES)
  else P2p.decodeExact bytes protocolDecode

/-! ## §6. Forwarded end caps. -/

/-- Announces an EndCap: its input and its proof follow. -/
structure EndCapForwardHeader where
  chainId : UInt64
  realmId : UInt32
  checkpointId : UInt64
  endCapId : FixedBytes 32
  endCapInputLen : UInt32
  proofLen : UInt32
deriving DecidableEq

/-- The fields in their order. -/
def EndCapForwardHeader.protocolEncode (m : EndCapForwardHeader) : Bytes :=
  writeU64 m.chainId ++ writeU32 m.realmId ++ writeU64 m.checkpointId ++ writeFixed m.endCapId ++
    writeU32 m.endCapInputLen ++ writeU32 m.proofLen

/-- Reads the fields back. -/
def EndCapForwardHeader.protocolDecode : ProtocolReader EndCapForwardHeader := do
  let chainId ← readU64
  let realmId ← readU32
  let checkpointId ← readU64
  let endCapId ← readBytes32
  let endCapInputLen ← readU32
  let proofLen ← readU32
  pure ⟨chainId, realmId, checkpointId, endCapId, endCapInputLen, proofLen⟩

/-- Reads a buffer with one header. -/
def EndCapForwardHeader.decodeExact (bytes : Bytes) : Except ProtocolError EndCapForwardHeader :=
  P2p.decodeExact bytes protocolDecode

/-- Why an EndCap was refused. -/
inductive EndCapRejectReason
  | none
  | alreadySubmitted
  | invalid
  | busy
deriving DecidableEq

/-- The byte of a reason. -/
def EndCapRejectReason.toU8 : EndCapRejectReason → UInt8
  | .none => 0
  | .alreadySubmitted => 1
  | .invalid => 2
  | .busy => 3

/-- `EndCapRejectReason::from_u8`, on the next byte. -/
def EndCapRejectReason.decode : ProtocolReader EndCapRejectReason := do
  let value ← readU8
  if value = 0 then pure .none
  else if value = 1 then pure .alreadySubmitted
  else if value = 2 then pure .invalid
  else if value = 3 then pure .busy
  else throw (.unknownTag "EndCapRejectReason" value)

/-- The answer to a forwarded EndCap. -/
structure EndCapForwardResponse where
  accepted : Bool
  rejectReason : EndCapRejectReason
  userId : UInt64
  uniquePendingId : UInt64
deriving DecidableEq

/-- A refusal without an identity. -/
def EndCapForwardResponse.rejected (rejectReason : EndCapRejectReason) : EndCapForwardResponse :=
  ⟨false, rejectReason, 0, 0⟩

/-- The fields in their order. -/
def EndCapForwardResponse.protocolEncode (m : EndCapForwardResponse) : Bytes :=
  writeBool m.accepted ++ writeU8 m.rejectReason.toU8 ++ writeU64 m.userId ++
    writeU64 m.uniquePendingId

/-- Only one encoding of each answer is accepted. -/
def EndCapForwardResponse.protocolDecode : ProtocolReader EndCapForwardResponse := do
  let accepted ← readBool
  let rejectReason ← EndCapRejectReason.decode
  let userId ← readU64
  let uniquePendingId ← readU64
  ensure (¬ (accepted ∧ (rejectReason ≠ .none ∨ userId ≠ 0 ∨ uniquePendingId ≠ 0)))
    (.message "canonical accepted EndCap response carries no reason or identity")
  ensure (¬ (¬ accepted ∧ rejectReason = .none))
    (.message "canonical rejected EndCap response carries a rejection reason")
  pure ⟨accepted, rejectReason, userId, uniquePendingId⟩

/-- Reads a buffer with one answer. -/
def EndCapForwardResponse.decodeExact (bytes : Bytes) :
    Except ProtocolError EndCapForwardResponse :=
  P2p.decodeExact bytes protocolDecode

end PsyNode.P2p
