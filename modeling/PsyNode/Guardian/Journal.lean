/-
PsyNode.Guardian.Journal
**THE JOURNAL OF A GUARDIAN** (`guardian_common/src/db.rs`, `protocol.rs`).  Every
operation is one write transaction: an error before the commit drops it, and some
errors are returned *after* a commit that halts the account.

A table is a function from keys to rows.  Hashing, JSON, the byte form of a request
and the authorization by the configuration are parameters (`Externals`).
-/
import PsyNode.Lib.ByteCodec

namespace PsyNode.Guardian

open Lib.ByteCodec Lib

/-! ## §1. Rows. -/

/-- `GuardianSignError`. -/
inductive GuardianSignError
  | malformedRequest | unauthorizedCaller | accountIdentityConflict | authorizationMismatch
  | l1RpcUnavailable | l2RpcUnavailable | depositLogsUnavailable | signatureQuorumUnavailable
  | finalityPending | checkpointProofUnavailable | databaseUnavailable | sessionHistoryUnavailable
  | observerTimeout | signingBusy | listenerUnavailable | signalHandlerUnavailable
  | indexCheckpointTimeout | proofMismatch | traceMismatch | depositMismatch | withdrawalMismatch
  | l1ResponseMismatch | stateMismatch | unsupportedCall | policyMismatch | nonceConflict
  | withdrawalNonceConflict | keyUnavailable | accountHalted | legacyJournalSchema
deriving DecidableEq

/-- The L1 block up to which a chain's deposits are counted. -/
structure DepositAnchor where
  chainIndex : Nat
  blockNumber : Nat
  blockHash : FixedBytes 32
  oldCount : Nat
  newCount : Nat
deriving DecidableEq

/-- A withdrawal as it was burnt on L2. -/
structure WithdrawalBurnRecord where
  senderUserId : Nat
  tokenContractId : Nat
  destinationChainIndex : Nat
  token : List Nat
  amount : List Nat
  recipient : List Nat
  nonce : List Nat
deriving DecidableEq

/-- A withdrawal at its place in the tree of its chain. -/
structure WithdrawalAppendRecord where
  chainIndex : Nat
  appendIndex : Nat
  burn : WithdrawalBurnRecord
deriving DecidableEq

/-- What a session does. -/
inductive GuardianOperation | bridge | bootstrap | replacePolicy
deriving DecidableEq

/-- What a guardian is asked to sign. -/
structure GuardianSignRequest where
  schemaVersion : Nat
  networkMagic : Nat
  userId : Nat
  sessionNonce : Nat
  operation : GuardianOperation
  traceJson : String
  depositAnchors : List DepositAnchor
  withdrawalRecords : List WithdrawalBurnRecord

/-- A halted account signs nothing. -/
inductive GuardianAccountState | active | halted
deriving DecidableEq

/-- Why an account was halted. -/
inductive HaltReason
  | finalityConflict | checkpointConflict | nonceConsumedDifferently | includedTransitionMissing
  | appendHistoryMismatch
deriving DecidableEq

variable {H : Type} [DecidableEq H]

/-- A chain's deposit tree after an anchor, and before it. -/
structure DepositTreeState (H : Type) where
  count : Nat
  frontier : List H
  root : H
  anchor : DepositAnchor
  eventBlock : Nat
  previousCount : Nat
  previousRoot : H
  occupiedPartialPageHashes : List H
deriving DecidableEq

/-- A reserved nonce; its signature comes later. -/
structure GuardianSigned (H : Type) where
  networkMagic : Nat
  userId : Nat
  nonce : Nat
  requestBytes : Bytes
  startingLeafHash : H
  endingLeafHash : H
  message : FixedBytes 32
  depositTreeStates : List (DepositTreeState H)
  signature : Option (FixedBytes 64)
deriving DecidableEq

/-- A session as it was included. -/
structure GuardianSessionRecord (H : Type) where
  requestJson : String
  signaturesJson : String
  endcapInputJson : String
  endcapProofHex : String
  includedCheckpointId : Nat
  includedCheckpointHash : H
deriving DecidableEq

/-- An included session under its nonce. -/
structure GuardianSession (H : Type) where
  networkMagic : Nat
  userId : Nat
  nonce : Nat
  record : GuardianSessionRecord H
  startingLeafHash : H
  endingLeafHash : H
  withdrawalAppends : List WithdrawalAppendRecord
deriving DecidableEq

/-- One included withdrawal frontier of a destination chain. -/
structure WithdrawalChain (H : Type) where
  chain : Nat
  count : Nat
  frontier : List H
  root : H
deriving DecidableEq

/-- The account as the included sessions left it. -/
structure GuardianAccount (H : Type) where
  networkMagic : Nat
  userId : Nat
  state : GuardianAccountState
  lastCheckpointId : Nat
  lastCheckpointHash : H
  importedNonce : Option Nat
  accountPublicKey : H
  importedEndingLeaf : Option H
  withdrawalChains : List (WithdrawalChain H)
  haltReason : Option HaltReason
deriving DecidableEq

/-- A result or the error of the protocol. -/
abbrev Result (α : Type) := Except GuardianSignError α

/-- What the journal uses of the rest of the guardian. -/
structure Externals (H : Type) where
  validateHash : H → Result Unit
  /-- `Hash4::ZERO`. -/
  zeroHash : H
  /-- `get_zero_hash(32)`, the root of an empty tree. -/
  zeroRoot : H
  frontierRoot : Nat → List H → H
  appendMerkleLeaf : List H → Nat → H → List H × H
  withdrawalTreeLeaf : WithdrawalBurnRecord → H
  sha256 : Bytes → FixedBytes 32
  fromCanonicalBytes : Bytes → Result GuardianSignRequest
  canonicalBytes : GuardianSignRequest → Result Bytes
  decodeRequestJson : String → Result GuardianSignRequest
  /-- `decode_trace()?.meta.public_key`. -/
  tracePublicKey : GuardianSignRequest → Result H
  /-- `validate_authorization` under the configuration of this guardian. -/
  validateAuthorization : GuardianSignRequest → Result Unit

/-! ## §2. Checks. -/

/-- The order of the field. -/
def GOLDILOCKS_MODULUS : Nat := 0xffffffff00000001

/-- The bridge's user. -/
def BRIDGE_USER_ID : Nat := 524288

/-- A non-zero field element. -/
def canonicalField (value : Nat) : Bool := 0 < value && value < GOLDILOCKS_MODULUS

/-- `checked_add(1)` of a `u64`. -/
def checkedSucc (value : Nat) : Option Nat := if value + 1 < 2 ^ 64 then some (value + 1) else none

variable (ext : Externals H)

/-- `frontier_root` of a tree with `count` leaves, and the two values of an empty one. -/
def frontierMatches (count : Nat) (frontier : List H) (root : H) : Bool :=
  if count = 0 then frontier = List.replicate 32 ext.zeroHash && root = ext.zeroRoot
  else ext.frontierRoot count frontier = root

/-- `validate`: counts, hashes, then the root. -/
def DepositTreeState.validate (state : DepositTreeState H) : Result Unit := do
  require (state.occupiedPartialPageHashes.length = state.count % 32 ∧
    (state.count ≠ 0 → state.previousCount < state.count ∧
      state.anchor.oldCount = state.previousCount ∧ state.anchor.newCount = state.count ∧
      state.anchor.blockHash.toList ≠ List.replicate 32 0)) .depositMismatch
  ext.validateHash state.root
  ext.validateHash state.previousRoot
  (state.frontier ++ state.occupiedPartialPageHashes).forM ext.validateHash
  require (frontierMatches ext state.count state.frontier state.root) .depositMismatch

/-- A chain without deposits. -/
def DepositTreeState.empty (chainIndex : Nat) : DepositTreeState H where
  count := 0
  frontier := List.replicate 32 ext.zeroHash
  root := ext.zeroRoot
  anchor := ⟨chainIndex, 0, .replicate 32 0, 0, 0⟩
  eventBlock := 0
  previousCount := 0
  previousRoot := ext.zeroRoot
  occupiedPartialPageHashes := []

/-- Can the anchor come next? -/
def DepositTreeState.extends (state : DepositTreeState H) (anchor : DepositAnchor) : Bool :=
  state.count = anchor.oldCount && state.anchor.blockNumber ≤ anchor.blockNumber &&
    state.occupiedPartialPageHashes.length = state.count % 32

/-- The states are those of the anchors of the request. -/
def validateChangedDepositTreeStates (request : GuardianSignRequest)
    (depositTreeStates : List (DepositTreeState H)) : Result Unit := do
  require (depositTreeStates.length = request.depositAnchors.length) .depositMismatch
  (depositTreeStates.zip request.depositAnchors).forM fun (state, anchor) => do
    state.validate ext
    require (state.anchor = anchor ∧ state.count = anchor.newCount ∧
      state.previousCount = anchor.oldCount) .depositMismatch

/-- `validate`: a row is what its request says. -/
def GuardianSigned.validate (signed : GuardianSigned H) : Result Unit := do
  require (canonicalField signed.networkMagic ∧ signed.userId = BRIDGE_USER_ID ∧
    canonicalField signed.nonce ∧ signed.depositTreeStates.length ≤ 256) .databaseUnavailable
  let request ← (ext.fromCanonicalBytes signed.requestBytes).mapError
    (fun _ => .databaseUnavailable)
  require (request.networkMagic = signed.networkMagic ∧ request.userId = signed.userId ∧
    request.sessionNonce = signed.nonce) .databaseUnavailable
  validateChangedDepositTreeStates ext request signed.depositTreeStates
  ext.validateHash signed.startingLeafHash
  ext.validateHash signed.endingLeafHash

/-- `validate`: a row is consistent in itself. -/
def GuardianAccount.validate (account : GuardianAccount H) : Result Unit := do
  require (canonicalField account.networkMagic ∧ account.userId = BRIDGE_USER_ID ∧
    (∀ nonce ∈ account.importedNonce, canonicalField nonce) ∧
    account.accountPublicKey ≠ ext.zeroHash ∧
    account.importedNonce.isNone = account.importedEndingLeaf.isNone ∧
    account.withdrawalChains.length ≤ 256 ∧
    (account.withdrawalChains.map (·.chain)).IsChain (· < ·) ∧
    (account.state = .halted ↔ account.haltReason.isSome)) .databaseUnavailable
  ext.validateHash account.lastCheckpointHash
  ext.validateHash account.accountPublicKey
  account.importedEndingLeaf.toList.forM ext.validateHash
  account.withdrawalChains.forM fun chain => do
    ext.validateHash chain.root
    chain.frontier.forM ext.validateHash
    require (frontierMatches ext chain.count chain.frontier chain.root) .databaseUnavailable

/-- A valid row whose request is authorized. -/
def validateSigned (signed : GuardianSigned H) : Result Unit := do
  signed.validate ext
  let request ← ext.fromCanonicalBytes signed.requestBytes
  ext.validateAuthorization request

/-! ## §3. An included session advances the account. -/

/-- Appends one withdrawal to the frontier of its chain.  The chains are sorted, so the
binary search of the code is the split at the chain's index. -/
def appendWithdrawal (chains : List (WithdrawalChain H)) (append : WithdrawalAppendRecord) :
    Result (List (WithdrawalChain H)) :=
  let before := chains.takeWhile (fun chain => chain.chain < append.chainIndex)
  let rest := chains.dropWhile (fun chain => chain.chain < append.chainIndex)
  let found := rest.head?.filter (fun chain => chain.chain = append.chainIndex)
  let after := if found.isSome then rest.tail else rest
  let chain := found.getD ⟨append.chainIndex, 0, List.replicate 32 ext.zeroHash, ext.zeroRoot⟩
  if append.appendIndex ≠ chain.count then .error .stateMismatch
  else if 2 ^ 32 ≤ chain.count + 1 then .error .stateMismatch
  else
    let (frontier, root) := ext.appendMerkleLeaf chain.frontier append.appendIndex
      (ext.withdrawalTreeLeaf append.burn)
    .ok (before ++ ⟨chain.chain, chain.count + 1, frontier, root⟩ :: after)

/-- Replaces the state of one chain, which has to extend the one it replaces. -/
def includeDepositTreeState (included : List (DepositTreeState H)) (state : DepositTreeState H) :
    Result (List (DepositTreeState H)) :=
  let chainIndex := state.anchor.chainIndex
  let before := included.takeWhile (fun saved => saved.anchor.chainIndex < chainIndex)
  let rest := included.dropWhile (fun saved => saved.anchor.chainIndex < chainIndex)
  let found := rest.head?.filter (fun saved => saved.anchor.chainIndex = chainIndex)
  let after := if found.isSome then rest.tail else rest
  let saved := found.getD (DepositTreeState.empty ext chainIndex)
  if !saved.extends state.anchor || saved.root ≠ state.previousRoot then .error .stateMismatch
  else .ok (before ++ state :: after)

/-- The account after one more session; a session that does not fit is an error. -/
def advanceIncludedAccount (account : GuardianAccount H)
    (includedDepositTreeStates : List (DepositTreeState H)) (session : GuardianSession H)
    (depositTreeStates : List (DepositTreeState H)) (checkpointId : Nat) (checkpointHash : H) :
    Result (GuardianAccount H × List (DepositTreeState H)) := do
  let request ← ext.decodeRequestJson session.record.requestJson
  require (request.networkMagic = account.networkMagic ∧ request.userId = account.userId)
    .accountIdentityConflict
  let publicKey ← ext.tracePublicKey request
  require (publicKey = account.accountPublicKey) .accountIdentityConflict
  require (some session.nonce = checkedSucc (account.importedNonce.getD 0))
    .sessionHistoryUnavailable
  require (session.record.includedCheckpointId = checkpointId ∧
    session.record.includedCheckpointHash = checkpointHash) .stateMismatch
  ext.validateHash checkpointHash
  validateChangedDepositTreeStates ext request depositTreeStates
  require (account.lastCheckpointId ≤ checkpointId ∧
    (checkpointId = account.lastCheckpointId → checkpointHash = account.lastCheckpointHash))
    .stateMismatch
  require (∀ leaf ∈ account.importedEndingLeaf, leaf = session.startingLeafHash) .stateMismatch
  let chains ← session.withdrawalAppends.foldlM (appendWithdrawal ext) account.withdrawalChains
  let included := includedDepositTreeStates.insertionSort
    (fun a b => a.anchor.chainIndex ≤ b.anchor.chainIndex)
  require ((included.map (·.anchor.chainIndex)).IsChain (· ≠ ·)) .databaseUnavailable
  let included ← depositTreeStates.foldlM (includeDepositTreeState ext) included
  let advanced := { account with
    lastCheckpointId := checkpointId, lastCheckpointHash := checkpointHash,
    importedNonce := some session.nonce, importedEndingLeaf := some session.endingLeafHash,
    withdrawalChains := chains }
  advanced.validate ext
  return (advanced, included)

/-! ## §4. Tables and transactions. -/

/-- The tables, as the last commit left them. -/
structure Journal (H : Type) where
  signer : Option (FixedBytes 33)
  accounts : Nat × Nat → Option (GuardianAccount H)
  signed : Nat × Nat × Nat → Option (GuardianSigned H)
  sessions : Nat × Nat × Nat → Option (GuardianSession H)
  depositTreeStates : Nat × Nat × Nat → Option (DepositTreeState H)

/-- Runs a write transaction.  An error of the body drops it; a body that returns has
committed, and its result may still be an error. -/
def transact {α : Type} (journal : Journal H) (body : Result (Result α × Journal H)) :
    Result α × Journal H :=
  match body with
  | .error e => (.error e, journal)
  | .ok out => out

/-- A journal and the key of the guardian that opened it. -/
structure GuardianDb (H : Type) extends Externals H where
  publicKey : FixedBytes 33

variable (db : GuardianDb H) (journal : Journal H)

/-- The journal belongs to this guardian. -/
def ensureSigner : Result Unit :=
  require (journal.signer = some db.publicKey) .databaseUnavailable

/-- `account_in` with `decode_account`: a row is read only under its own key and valid. -/
def accountIn (network user : Nat) : Result (GuardianAccount H) :=
  match journal.accounts (network, user) with
  | none => .error .databaseUnavailable
  | some account => do
    require ((account.networkMagic, account.userId) = (network, user)) .databaseUnavailable
    account.validate db.toExternals
    return account

/-- `ensure_active`. -/
def ensureActive (account : GuardianAccount H) : Result Unit :=
  require (account.state = .active) .accountHalted

/-- A row is read only under its own key and valid. -/
def decodeSigned (key : Nat × Nat × Nat) (signed : GuardianSigned H) :
    Result (GuardianSigned H) := do
  require ((signed.networkMagic, signed.userId, signed.nonce) = key) .databaseUnavailable
  signed.validate db.toExternals
  return signed

variable (network user nonce : Nat)

/-- The signed row of a nonce, if there is one. -/
def signedIn : Result (Option (GuardianSigned H)) :=
  match journal.signed (network, user, nonce) with
  | none => .ok none
  | some signed => do
    let signed ← decodeSigned db (network, user, nonce) signed
    validateSigned db.toExternals signed
    return some signed

/-- `session_in` with `decode_session`. -/
def sessionIn : Result (Option (GuardianSession H)) :=
  match journal.sessions (network, user, nonce) with
  | none => .ok none
  | some session => do
    require ((session.networkMagic, session.userId, session.nonce) = (network, user, nonce))
      .databaseUnavailable
    return some session

/-- The states of all 256 chains that have one. -/
def depositTreeStatesIn (network user : Nat) : Result (List (DepositTreeState H)) :=
  ((List.range 256).filterMap fun chain =>
      (journal.depositTreeStates (network, user, chain)).map (chain, ·)).mapM
    fun (chain, state) => do
      require (chain = state.anchor.chainIndex) .databaseUnavailable
      state.validate db.toExternals
      return state

/-- Writes an account under its key. -/
def insertAccount (account : GuardianAccount H) : Journal H :=
  { journal with
    accounts := Function.update journal.accounts (account.networkMagic, account.userId)
      (some account) }

/-- Writes a signed row under its key. -/
def insertSigned (signed : GuardianSigned H) : Journal H :=
  { journal with
    signed := Function.update journal.signed
      (signed.networkMagic, signed.userId, signed.nonce) (some signed) }

/-- Writes a session under its key. -/
def insertSession (session : GuardianSession H) : Journal H :=
  { journal with
    sessions := Function.update journal.sessions
      (session.networkMagic, session.userId, session.nonce) (some session) }

/-- Writes the states, each checked. -/
def replaceDepositTreeStates (network user : Nat)
    (states : List (DepositTreeState H)) : Result (Journal H) :=
  states.foldlM (fun journal state => do
    state.validate db.toExternals
    return { journal with
      depositTreeStates := Function.update journal.depositTreeStates
        (network, user, state.anchor.chainIndex) (some state) }) journal

/-- Drops the signed rows through `nonce` and the sessions before it. -/
def pruneImportedHistory : Journal H :=
  { journal with
    signed := fun key =>
      if key.1 = network ∧ key.2.1 = user ∧ key.2.2 ≤ nonce then none else journal.signed key
    sessions := fun key =>
      if key.1 = network ∧ key.2.1 = user ∧ key.2.2 < nonce then none else journal.sessions key }

/-- The row of a halted account. -/
def writeHalt (account : GuardianAccount H) (reason : HaltReason) : Result (Journal H) := do
  let halted := { account with state := .halted, haltReason := some reason }
  halted.validate db.toExternals
  return insertAccount journal halted

/-- Commits the halt and reports it. -/
def haltWith {α : Type} (journal : Journal H) (account : GuardianAccount H) (reason : HaltReason) :
    Result (Result α × Journal H) := do
  let journal ← writeHalt db journal account reason
  return (.error .accountHalted, journal)

/-- All fields but the signature. -/
def sameReservation (a b : GuardianSigned H) : Bool :=
  a.networkMagic = b.networkMagic && a.userId = b.userId && a.nonce = b.nonce &&
    a.requestBytes = b.requestBytes && a.depositTreeStates = b.depositTreeStates &&
    a.startingLeafHash = b.startingLeafHash && a.endingLeafHash = b.endingLeafHash &&
    a.message = b.message

/-- `imported_nonce.is_some_and(|imported| imported >= nonce)`. -/
def GuardianAccount.hasImported (account : GuardianAccount H) (nonce : Nat) : Bool :=
  account.importedNonce.any (nonce ≤ ·)

/-! ## §5. The transactions. -/

/-- **RESERVATION** of a nonce for one request; asking again returns the same row. -/
def reserveGuardianNonce (value : GuardianSigned H) (journal : Journal H) :
    Result (GuardianSigned H) × Journal H :=
  transact journal do
    value.validate db.toExternals
    require (value.signature = none) .stateMismatch
    ensureSigner db journal
    let account ← accountIn db journal value.networkMagic value.userId
    ensureActive account
    match ← signedIn db journal value.networkMagic value.userId value.nonce with
    | some existing =>
      require (sameReservation existing value) .nonceConflict
      require (existing.signature = none → !account.hasImported value.nonce) .nonceConflict
      return (.ok existing, journal)
    | none =>
      -- the row of an imported nonce was pruned
      require (!account.hasImported value.nonce) .nonceConflict
      let request ← db.fromCanonicalBytes value.requestBytes
      let publicKey ← db.tracePublicKey request
      require (publicKey = account.accountPublicKey) .accountIdentityConflict
      require (∀ leaf ∈ account.importedEndingLeaf, leaf = value.startingLeafHash)
        .stateMismatch
      match checkedSucc (account.importedNonce.getD 0) with
      | none => .error .nonceConflict
      | some next =>
        require (value.nonce = next) .sessionHistoryUnavailable
        validateSigned db.toExternals value
        return (.ok value, insertSigned journal value)

/-- **SIGNING** a reserved nonce, once. -/
def saveGuardianSignature (requestBytes : Bytes)
    (signature : FixedBytes 64) (journal : Journal H) : Result (GuardianSigned H) × Journal H :=
  transact journal do
    ensureSigner db journal
    let account ← accountIn db journal network user
    ensureActive account
    match ← signedIn db journal network user nonce with
    | none => .error .nonceConflict
    | some value =>
      require (value.requestBytes = requestBytes) .nonceConflict
      match value.signature with
      | some saved =>
        require (saved = signature) .nonceConflict
        return (.ok value, journal)
      | none =>
        require (!account.hasImported nonce) .nonceConflict
        let value := { value with signature := some signature }
        value.validate db.toExternals
        return (.ok value, insertSigned journal value)

/-- The result of `serialize` is withheld until the commit. -/
def authorizeResponse {α : Type} (network user nonce : Nat) (requestBytes : Bytes)
    (serialize : GuardianSigned H → Result α) (journal : Journal H) : Result α × Journal H :=
  transact journal do
    ensureSigner db journal
    let account ← accountIn db journal network user
    ensureActive account
    match journal.signed (network, user, nonce) with
    | none => .error .nonceConflict
    | some row =>
      let value ← decodeSigned db (network, user, nonce) row
      require (value.requestBytes = requestBytes ∧ value.signature ≠ none) .nonceConflict
      validateSigned db.toExternals value
      let response ← serialize value
      return (.ok response, journal)

/-- Halts an active account. -/
def haltAccount (network user : Nat) (reason : HaltReason) (journal : Journal H) :
    Result Unit × Journal H :=
  transact journal do
    ensureSigner db journal
    let account ← accountIn db journal network user
    if account.state = .active then
      let journal ← writeHalt db journal account reason
      return (.ok (), journal)
    else
      return (.ok (), journal)

/-- Moves the checkpoint of an account; a conflicting one halts it. -/
def saveAccount (value : GuardianAccount H) (journal : Journal H) : Result Unit × Journal H :=
  transact journal do
    value.validate db.toExternals
    ensureSigner db journal
    let old ← accountIn db journal value.networkMagic value.userId
    ensureActive old
    require (value.state = .active ∧ value.haltReason = none ∧
      value.importedNonce = old.importedNonce ∧
      value.importedEndingLeaf = old.importedEndingLeaf ∧
      value.accountPublicKey = old.accountPublicKey ∧
      value.withdrawalChains = old.withdrawalChains ∧
      old.lastCheckpointId ≤ value.lastCheckpointId) .stateMismatch
    if value.lastCheckpointId = old.lastCheckpointId ∧
        value.lastCheckpointHash ≠ old.lastCheckpointHash then
      haltWith db journal old .checkpointConflict
    else
      return (.ok (), insertAccount journal value)

/-- The tail of `import_session`: the session is the next one of the account. -/
def importNextSession (value : GuardianSession H) (depositTreeStates : List (DepositTreeState H))
    (checkpointId : Nat) (checkpointHash : H) (account : GuardianAccount H)
    (journal : Journal H) : Result (Result (GuardianSession H) × Journal H) := do
  let included ← depositTreeStatesIn db journal value.networkMagic value.userId
  match advanceIncludedAccount db.toExternals account included value depositTreeStates checkpointId
      checkpointHash with
  | .error .stateMismatch => haltWith db journal account .includedTransitionMissing
  | .error e => .error e
  | .ok (advanced, included) =>
    let journal := insertSession journal value
    let journal ← replaceDepositTreeStates db journal value.networkMagic value.userId included
    let journal := insertAccount journal advanced
    return (.ok value,
      pruneImportedHistory journal value.networkMagic value.userId value.nonce)

/-- **IMPORT** of an included session; one that contradicts the journal halts the account. -/
def importSession (value : GuardianSession H) (depositTreeStates : List (DepositTreeState H))
    (checkpointId : Nat) (checkpointHash : H) (journal : Journal H) :
    Result (GuardianSession H) × Journal H :=
  transact journal do
    let request ← db.decodeRequestJson value.record.requestJson
    db.validateAuthorization request
    require ((request.networkMagic, request.userId, request.sessionNonce) =
      (value.networkMagic, value.userId, value.nonce)) .stateMismatch
    require (value.withdrawalAppends.map (fun append => (append.burn, append.chainIndex)) =
      request.withdrawalRecords.map (fun burn => (burn, burn.destinationChainIndex)))
      .stateMismatch
    validateChangedDepositTreeStates db.toExternals request depositTreeStates
    let requestBytes ← db.canonicalBytes request
    ensureSigner db journal
    let account ← accountIn db journal value.networkMagic value.userId
    ensureActive account
    let publicKey ← db.tracePublicKey request
    require (publicKey = account.accountPublicKey) .accountIdentityConflict
    require (∀ nonce ∈ account.importedNonce, nonce ≤ value.nonce) .nonceConflict
    match ← sessionIn journal value.networkMagic value.userId value.nonce with
    | some existing =>
      if existing ≠ value then haltWith db journal account .nonceConsumedDifferently
      else
        let signed ← signedIn db journal value.networkMagic value.userId value.nonce
        require (∀ own ∈ signed, own.requestBytes = requestBytes ∧
          own.depositTreeStates = depositTreeStates) .nonceConflict
        return (.ok existing, journal)
    | none =>
      require (!account.hasImported value.nonce) .sessionHistoryUnavailable
      require (account.lastCheckpointId ≤ checkpointId) .stateMismatch
      if checkpointId = account.lastCheckpointId ∧
          checkpointHash ≠ account.lastCheckpointHash then
        haltWith db journal account .checkpointConflict
      else if ∃ leaf ∈ account.importedEndingLeaf, leaf ≠ value.startingLeafHash then
        haltWith db journal account .includedTransitionMissing
      else
        let signed ← signedIn db journal value.networkMagic value.userId value.nonce
        if ∃ own ∈ signed, own.requestBytes ≠ requestBytes ∨
            own.depositTreeStates ≠ depositTreeStates ∨
            own.startingLeafHash ≠ value.startingLeafHash ∨
            own.endingLeafHash ≠ value.endingLeafHash then
          haltWith db journal account .nonceConsumedDifferently
        else
          importNextSession db value depositTreeStates checkpointId checkpointHash account
            journal

end PsyNode.Guardian
