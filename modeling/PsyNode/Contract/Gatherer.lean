/-
PsyNode.Contract.Gatherer
**FROM QUEUE ITEMS TO BATCH CIRCUIT INPUTS** — the deploy and update gatherers of
contracts (`deploy_contract_gatherer.rs`, `update_contract_gatherer.rs`, joined in
`contract_gatherer.rs`) and `set_witness` of the two batch gadgets.

Accepting an item does not touch the contract tree.  `finalize_with_tree` first
appends the deployed leaves, then overwrites the updated ones, and cuts both into
windows; the gadgets find the changed positions of a window from its leaves again.

The vectors that the gatherers push in step are one list of records here.  A cycle
that is reverted drops its items before an input is made.
-/
import PsyNode.Contract.Leaf
import PsyNode.Lib.ExceptBind
import PsyNode.Recorder.Store

namespace PsyNode.Contract

open Merkle Recorder Lib

variable {F Hash : Type} [QFelt64 F] [HashTo4Felts F Hash] [FieldQHasher F Hash]

/-! ## §1. Accepting items. -/

/-- What a gatherer reads besides the tree: the root of the function tree of a contract id,
the committed contract leaves, and which code definitions the temporary store has. -/
structure ContractGathererConfig (F Hash : Type) where
  cfcTreeRoot : Nat → List Hash → Hash
  getContractLeaf : Nat → Option (PQEDContractLeafV2 F Hash)
  hasCodeDefinition : Nat → Bool

structure PsyUpdateContractQueueItem (F Hash : Type) where
  contractId : Nat
  contractLeaf : PQEDContractLeafV2 F Hash
  functionLeaves : List Hash
  randKeyId : Nat
  canonicalLayoutProof : List UInt8

/-- An accepted update: id, old and new leaf, layout proof. -/
structure UpdatedContract (F Hash : Type) where
  contractId : Nat
  oldLeaf : PQEDContractLeafV2 F Hash
  newLeaf : PQEDContractLeafV2 F Hash
  layoutProof : List UInt8

structure PsyDeployContractQueueItemV2 (F Hash : Type) where
  contractLeaf : PQEDContractLeafV2 F Hash
  functionLeaves : List Hash
  randKeyId : Nat
  canonicalLayoutProof : List UInt8

/-- An accepted deploy. -/
structure DeployedContract (F Hash : Type) where
  contractLeaf : PQEDContractLeafV2 F Hash
  layoutProof : List UInt8

/-- The state of `DeployContractGatherer`. -/
structure DeployContractGatherer (F Hash : Type) where
  nextContractId : Nat
  deployed : List (DeployedContract F Hash)

section
variable [DecidableEq Hash] (config : ContractGathererConfig F Hash)

/-- `update_from_queue_item_with_tree` of the deploy gatherer. -/
def DeployContractGatherer.updateFromQueueItemWithTree (g : DeployContractGatherer F Hash)
    (item : PsyDeployContractQueueItemV2 F Hash) :
    Except String (DeployContractGatherer F Hash) := do
  require (config.cfcTreeRoot g.nextContractId item.functionLeaves =
      item.contractLeaf.functionTreeRoot)
    s!"DeployContractGatherer function tree root mismatch for contract id {g.nextContractId}"
  require (config.hasCodeDefinition item.randKeyId = true)
    "DeployContractGatherer could not find contract code definition"
  return { g with
    nextContractId := g.nextContractId + 1
    deployed := g.deployed ++ [⟨item.contractLeaf, item.canonicalLayoutProof⟩] }

variable [DecidableEq F] [MerkleZeroHasher Hash] (tree : RecorderStore Hash)

def validateContractUpdate (contractId : Nat)
    (oldContractLeaf newContractLeaf : PQEDContractLeafV2 F Hash) : Except String Hash := do
  require (contractId ≠ 0) "contract id 0 is reserved and cannot be updated"
  require (tree.getLeafValue contractId ≠ getZeroHash 0)
    s!"cannot update contract id {contractId}: contract does not exist"
  require (tree.getLeafValue contractId = oldContractLeaf.qfhash)
    (s!"cannot update contract id {contractId}: old contract leaf does not match the current " ++
      "contract tree state (stale read or conflicting update in the same block)")
  require (oldContractLeaf.deployer = newContractLeaf.deployer)
    s!"cannot update contract id {contractId}: only the original deployer can update the contract"
  require (oldContractLeaf.stateTreeHeight = newContractLeaf.stateTreeHeight)
    s!"cannot update contract id {contractId}: contract state tree height is immutable"
  return newContractLeaf.qfhash

/-- `update_from_queue_item_with_tree` of the update gatherer, whose state is the accepted
updates in the order of their arrival. -/
def updateFromQueueItemWithTree (updates : List (UpdatedContract F Hash))
    (item : PsyUpdateContractQueueItem F Hash) : Except String (List (UpdatedContract F Hash)) := do
  require (item.contractId ∉ updates.map (·.contractId))
    s!"UpdateContractGatherer contract id {item.contractId} is already being updated in this block"
  require (config.cfcTreeRoot item.contractId item.functionLeaves =
      item.contractLeaf.functionTreeRoot)
    s!"UpdateContractGatherer function tree root mismatch for contract id {item.contractId}"
  match config.getContractLeaf item.contractId with
  | none =>
    .error (s!"UpdateContractGatherer could not find existing contract leaf for contract id " ++
      s!"{item.contractId}")
  | some oldContractLeaf => do
    let _ ← validateContractUpdate tree item.contractId oldContractLeaf item.contractLeaf
    require (config.hasCodeDefinition item.randKeyId = true)
      "UpdateContractGatherer could not find contract code definition"
    return updates ++
      [⟨item.contractId, oldContractLeaf, item.contractLeaf, item.canonicalLayoutProof⟩]

end

/-! ## §2. Circuit inputs. -/

structure QCBatchUpdateContractsCircuitInput (F Hash : Type) where
  spidermanUpdateProof : SpidermanUpdateProof Hash
  updatedContractIds : List Nat
  oldContractLeaves : List (PQEDContractLeafV2 F Hash)
  newContractLeaves : List (PQEDContractLeafV2 F Hash)
  layoutUpdateProofs : List (List UInt8)

variable (proof : SpidermanUpdateProof Hash)

/-- The input that a window's proof and its updates make. -/
def QCBatchUpdateContractsCircuitInput.ofWindow (window : List (UpdatedContract F Hash)) :
    QCBatchUpdateContractsCircuitInput F Hash where
  spidermanUpdateProof := proof
  updatedContractIds := window.map (·.contractId)
  oldContractLeaves := window.map (·.oldLeaf)
  newContractLeaves := window.map (·.newLeaf)
  layoutUpdateProofs := window.map (·.layoutProof)

structure QCBatchDeployContractsCircuitInput (F Hash : Type) where
  spidermanAppendProof : SpidermanUpdateProof Hash
  contractIds : List Nat
  contractLeaves : List (PQEDContractLeafV2 F Hash)
  initialLayoutProofs : List (List UInt8)

/-- The input that a window's proof and its deploys make, the first under `contractId`. -/
def QCBatchDeployContractsCircuitInput.ofWindow (contractId : Nat)
    (window : List (DeployedContract F Hash)) : QCBatchDeployContractsCircuitInput F Hash where
  spidermanAppendProof := proof
  contractIds := List.range' contractId window.length
  contractLeaves := window.map (·.contractLeaf)
  initialLayoutProofs := window.map (·.layoutProof)

/-- The window positions at which a relation of old and new leaf holds, in ascending order. -/
def positions (changed : Hash → Hash → Bool) (proof : SpidermanUpdateProof Hash) : List Nat :=
  (List.range proof.webProofOldLeaves.length).filter (fun i =>
    match proof.webProofOldLeaves[i]?, proof.webProofNewLeaves[i]? with
    | some old, some new => changed old new
    | _, _ => false)

variable [DecidableEq Hash]

/-- The leaf was changed. -/
def isChanged (old new : Hash) : Bool := decide (old ≠ new)

def getModifiedLeavesCount : Nat :=
  (positions isChanged proof).length

/-- The loop of the update gatherer's `finalize_with_tree`: each proof takes the updates of
the window in which the next one lies; `sorted` are the updates by contract id. -/
def assignWindows (leavesPerSubtree : Nat) : List (SpidermanUpdateProof Hash) →
    List (UpdatedContract F Hash) →
    Except String (List (QCBatchUpdateContractsCircuitInput F Hash))
  | [], _ => .ok []
  | _ :: _, [] => .error "index out of bounds"
  | proof :: proofs, update :: sorted => do
    let inWindow (u : UpdatedContract F Hash) : Bool :=
      u.contractId / leavesPerSubtree == update.contractId / leavesPerSubtree
    let window := (update :: sorted).takeWhile inWindow
    let inputs ← assignWindows leavesPerSubtree proofs ((update :: sorted).dropWhile inWindow)
    return .ofWindow proof window :: inputs

variable [MerkleZeroHasher Hash] (batchSubTreeHeight : Nat)

/-- `finalize_with_tree` of the update gatherer, as far as the circuit inputs go. -/
def finalizeUpdates (updates : List (UpdatedContract F Hash)) (tree : RecorderStore Hash) :
    Except String (List (QCBatchUpdateContractsCircuitInput F Hash) × RecorderStore Hash) :=
  if updates.isEmpty then .ok ([], tree)
  else
    match tree.updateLeavesSpiderMan batchSubTreeHeight (updates.map (·.contractId))
      (updates.map (·.newLeaf.qfhash)) with
    | (.error e, _) => .error e
    | (.ok proofs, tree') => do
      let inputs ← assignWindows (1 <<< batchSubTreeHeight) proofs
        (updates.insertionSort (fun a b => a.contractId ≤ b.contractId))
      return (inputs, tree')

/-- The loop of the deploy gatherer's `finalize_with_tree`: each proof takes as many of the
remaining deploys as it changes leaves. -/
def assignDeploys : List (SpidermanUpdateProof Hash) → Nat → List (DeployedContract F Hash) →
    Except String (List (QCBatchDeployContractsCircuitInput F Hash))
  | [], _, _ => .ok []
  | proof :: proofs, contractId, deployed => do
    require (proof.verify = true)
      "gatherer produced an invalid contract-tree Spiderman deploy proof"
    let leafCount := getModifiedLeavesCount proof
    require (leafCount ≤ deployed.length) "range end index out of range for slice"
    let inputs ← assignDeploys proofs (contractId + leafCount) (deployed.drop leafCount)
    return .ofWindow proof contractId (deployed.take leafCount) :: inputs

/-- `finalize_with_tree` of the deploy gatherer, as far as the circuit inputs go. -/
def DeployContractGatherer.finalizeDeploys (g : DeployContractGatherer F Hash)
    (tree : RecorderStore Hash) : Except String (List (QCBatchDeployContractsCircuitInput F Hash) ×
      RecorderStore Hash) :=
  if g.nextContractId < g.deployed.length then .error "deploy contract id cursor underflow"
  else if g.deployed.isEmpty then .ok ([], tree)
  else do
    let startNextContractId := g.nextContractId - g.deployed.length
    let appendedContractIds := List.range' startNextContractId g.deployed.length
    appendedContractIds.forM (fun contractId =>
      require (tree.getLeafValue contractId = getZeroHash 0)
        s!"deploy contract id {contractId} is already occupied")
    match tree.updateLeavesSpiderMan batchSubTreeHeight appendedContractIds
      (g.deployed.map (·.contractLeaf.qfhash)) with
    | (.error e, _) => .error e
    | (.ok proofs, candidateTree) => do
      let inputs ← assignDeploys proofs startNextContractId g.deployed
      return (inputs, candidateTree)

/-- `finalize_with_tree` of the joint gatherer: deploys first, then updates on the tree
they left. -/
def finalizeWithTree (deploy : DeployContractGatherer F Hash)
    (updates : List (UpdatedContract F Hash)) (tree : RecorderStore Hash) :
    Except String (List (QCBatchDeployContractsCircuitInput F Hash) ×
      List (QCBatchUpdateContractsCircuitInput F Hash)) := do
  let (deployInputs, tree) ← deploy.finalizeDeploys batchSubTreeHeight tree
  let (updateInputs, _) ← finalizeUpdates batchSubTreeHeight updates tree
  return (deployInputs, updateInputs)

/-! ## §3. Setting the witness. -/

/-- The loop over the window positions in `set_witness`: a changed position takes the next
of the supplied witnesses, any other one is padded. -/
def setPositions {α : Type} (changed : Hash → Hash → Bool) (missing unused : String) :
    List (Hash × Hash) → List α → Except String (List (Option α))
  | [], [] => .ok []
  | [], _ :: _ => .error unused
  | leaves :: rest, supplied =>
    if changed leaves.1 leaves.2 then
      match supplied with
      | [] => .error missing
      | witness :: supplied => do
        return some witness :: (← setPositions changed missing unused rest supplied)
    else do
      return none :: (← setPositions changed missing unused rest supplied)

/-- `set_witness` of the batch-update gadget, with the witnesses each position gets. -/
def QCBatchUpdateContractsCircuitInput.setWitness (windowSize : Nat)
    (input : QCBatchUpdateContractsCircuitInput F Hash) :
    Except String (List (Option (Nat × PQEDContractLeafV2 F Hash × PQEDContractLeafV2 F Hash ×
      List UInt8))) := do
  require (input.oldContractLeaves.length = input.newContractLeaves.length ∧
      input.oldContractLeaves.length = input.updatedContractIds.length ∧
      input.oldContractLeaves.length = input.layoutUpdateProofs.length ∧
      input.layoutUpdateProofs ≠ [])
    "changed contract leaves, ids, and layout proofs must have equal lengths"
  require (input.spidermanUpdateProof.webProofOldLeaves.length = windowSize ∧
      input.spidermanUpdateProof.webProofNewLeaves.length = windowSize)
    "contract Spiderman proof window has the wrong size"
  setPositions isChanged "missing changed old contract leaf"
    "too many changed contract witnesses supplied"
    (input.spidermanUpdateProof.webProofOldLeaves.zip input.spidermanUpdateProof.webProofNewLeaves)
    (input.updatedContractIds.zip (input.oldContractLeaves.zip
      (input.newContractLeaves.zip input.layoutUpdateProofs)))

/-- The deploy gadget's test: an empty position is taken. -/
def isAdded (old new : Hash) : Bool := decide (old = getZeroHash 0 ∧ new ≠ getZeroHash 0)

/-- `set_witness` of the batch-deploy gadget, with the witnesses each position gets. -/
def QCBatchDeployContractsCircuitInput.setWitness (windowSize : Nat)
    (input : QCBatchDeployContractsCircuitInput F Hash) :
    Except String (List (Option (Nat × PQEDContractLeafV2 F Hash × List UInt8))) := do
  require (input.contractIds.length = input.contractLeaves.length ∧
      input.contractLeaves.length = input.initialLayoutProofs.length ∧
      input.initialLayoutProofs ≠ [])
    "deploy witness vectors have different lengths"
  require (input.spidermanAppendProof.webProofOldLeaves.length = windowSize ∧
      input.spidermanAppendProof.webProofNewLeaves.length = windowSize)
    "invalid number of old leaves provided to set_witness"
  setPositions isAdded "missing deploy contract id" "unused deploy witnesses were supplied"
    (input.spidermanAppendProof.webProofOldLeaves.zip input.spidermanAppendProof.webProofNewLeaves)
    (input.contractIds.zip (input.contractLeaves.zip input.initialLayoutProofs))

end PsyNode.Contract
