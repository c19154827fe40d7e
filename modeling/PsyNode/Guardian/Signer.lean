/-
PsyNode.Guardian.Signer
**THE GUARDIAN AND ITS KEY** (`psy_relayer_cli/src/guardian/service.rs`).

`sign_verified` is three transactions of the journal with the use of the key between
the first and the second.  The service mutex keeps the sync loop out while a call is
going on; a crash, or the client going away, may end the call between any two of its
transactions, and what was committed stays.

A run is a list of events; `keyUses` and `responses` record what the outside has seen.
-/
import PsyNode.Guardian.Journal

namespace PsyNode.Guardian

open Lib.ByteCodec Lib

variable {H : Type} [DecidableEq H]

/-- What a caller gets back. -/
structure GuardianSignResponse (H : Type) where
  requestId : FixedBytes 32
  networkMagic : Nat
  userId : Nat
  sessionNonce : Nat
  policyCommitment : H
  memberIndex : Nat
  message : FixedBytes 32
  publicKey : FixedBytes 33
  signature : FixedBytes 64
deriving DecidableEq

/-- The closure that `sign_verified` and `authorize_cached_response` pass to the journal. -/
def signResponse (db : GuardianDb H) (commitment : H) (memberIndex : Nat)
    (signed : GuardianSigned H) : Result (GuardianSignResponse H) :=
  match signed.signature with
  | none => .error .databaseUnavailable
  | some signature => .ok {
      requestId := db.sha256 signed.requestBytes
      networkMagic := signed.networkMagic
      userId := signed.userId
      sessionNonce := signed.nonce
      policyCommitment := commitment
      memberIndex := memberIndex
      message := signed.message
      publicKey := db.publicKey
      signature := signature }

/-- A call of `sign_verified`: what was verified, and the member the key is of the policy. -/
structure SignCall (H : Type) where
  verified : GuardianSigned H
  commitment : H
  memberIndex : Nat

/-- How far the call that holds the service mutex is. -/
inductive Phase (H : Type)
  | idle
  | reserved (call : SignCall H) (row : GuardianSigned H)
  | signed (call : SignCall H) (row : GuardianSigned H) (signature : FixedBytes 64)
  | authorizing (call : SignCall H)

/-- One use of the key: the session it was verified for, the message that was signed,
and the imported nonce of the account at that moment. -/
structure KeyUse (H : Type) where
  verified : GuardianSigned H
  message : FixedBytes 32
  importedNonce : Option Nat

/-- The journal key of a signed session. -/
def GuardianSigned.key (signed : GuardianSigned H) : Nat × Nat × Nat :=
  (signed.networkMagic, signed.userId, signed.nonce)

/-- The journal, the call that is open, and all that left the guardian so far. -/
structure GuardianState (H : Type) where
  journal : Journal H
  phase : Phase H
  keyUses : List (KeyUse H)
  responses : List (GuardianSignResponse H)

/-- A guardian that has just opened a journal. -/
def GuardianState.opened (journal : Journal H) : GuardianState H := ⟨journal, .idle, [], []⟩

/-- The parts of a call, the other journal writes, and a crash between any two of them. -/
inductive GuardianEvent (H : Type)
  /-- `sign_verified` up to the reservation. -/
  | reserve (call : SignCall H)
  /-- The key signs, or is unavailable. -/
  | sign (signature : Option (FixedBytes 64))
  | save
  | authorize
  /-- `authorize_cached_response`. -/
  | authorizeCached (network user nonce : Nat) (requestBytes : Bytes) (commitment : H)
      (memberIndex : Nat)
  | importSession (value : GuardianSession H) (depositTreeStates : List (DepositTreeState H))
      (checkpointId : Nat) (checkpointHash : H)
  | saveAccount (value : GuardianAccount H)
  | haltAccount (network user : Nat) (reason : HaltReason)
  /-- The process dies, or the call is dropped, and the journal is opened again. -/
  | crash

variable (db : GuardianDb H)

/-- A response leaves the guardian once its transaction has committed. -/
def release (state : GuardianState H)
    (out : Result (GuardianSignResponse H) × Journal H) : GuardianState H :=
  match out with
  | (.ok response, journal) =>
    { state with
      journal := journal, phase := .idle, responses := state.responses ++ [response] }
  | (.error _, journal) => { state with journal := journal, phase := .idle }

/-- **ONE EVENT.**  An event that does not belong to the phase does not happen. -/
def step (state : GuardianState H) (event : GuardianEvent H) : GuardianState H :=
  match state.phase, event with
  | .idle, .reserve call =>
    match reserveGuardianNonce db call.verified state.journal with
    | (.ok row, journal) => { state with journal := journal, phase := .reserved call row }
    | (.error _, journal) => { state with journal := journal }
  | .reserved call row, .sign signature =>
    match row.signature, signature with
    | some _, _ => { state with phase := .authorizing call }
    | none, none => { state with phase := .idle }
    | none, some signature =>
      let account := state.journal.accounts (call.verified.networkMagic, call.verified.userId)
      { state with
        phase := .signed call row signature
        keyUses := state.keyUses ++
          [⟨call.verified, row.message, account.bind (·.importedNonce)⟩] }
  | .signed call row signature, .save =>
    match saveGuardianSignature db row.networkMagic row.userId row.nonce row.requestBytes
        signature state.journal with
    | (.ok _, journal) => { state with journal := journal, phase := .authorizing call }
    | (.error _, journal) => { state with journal := journal, phase := .idle }
  | .authorizing call, .authorize =>
    release state (authorizeResponse db call.verified.networkMagic call.verified.userId
      call.verified.nonce call.verified.requestBytes
      (signResponse db call.commitment call.memberIndex) state.journal)
  | .idle, .authorizeCached network user nonce requestBytes commitment memberIndex =>
    release state (authorizeResponse db network user nonce requestBytes
      (signResponse db commitment memberIndex) state.journal)
  | .idle, .importSession value depositTreeStates checkpointId checkpointHash =>
    { state with
      journal := (importSession db value depositTreeStates checkpointId checkpointHash
        state.journal).2 }
  | .idle, .saveAccount value =>
    { state with journal := (saveAccount db value state.journal).2 }
  | .idle, .haltAccount network user reason =>
    { state with journal := (haltAccount db network user reason state.journal).2 }
  | _, .crash => { state with phase := .idle }
  | _, _ => state

/-- The events, one after another. -/
def run (events : List (GuardianEvent H)) (state : GuardianState H) : GuardianState H :=
  events.foldl (step db) state

end PsyNode.Guardian
