/-
PsyNode.Contract.Leaf
**THE LEAVES OF THE GLOBAL CONTRACT TREE** — `PQEDContractLeafV2` of
`qdata/contract/layout.rs` and its hash.
-/
import PsyNode.Merkle.Felt

namespace PsyNode.Contract

open Merkle

structure PQEDContractLeafV2 (F Hash : Type) where
  deployer : F
  functionTreeRoot : Hash
  codeRoot : Hash
  stateTreeHeight : F
  stateLayoutRoot : Hash
  stateLayoutFieldCount : F
  stateLayoutSlotCount : F
deriving DecidableEq

/-- `CONTRACT_LEAF_DOMAIN`. -/
def CONTRACT_LEAF_DOMAIN : Nat := 0x434c5633

namespace PQEDContractLeafV2

variable {F Hash : Type} [QFelt64 F] [HashTo4Felts F Hash]

def toQfelts (leaf : PQEDContractLeafV2 F Hash) : List F :=
  let felts (hash : Hash) : List F := (List.finRange 4).map (to4Felts hash)
  [leaf.deployer] ++ felts leaf.functionTreeRoot ++ felts leaf.codeRoot ++
    [leaf.stateTreeHeight] ++ felts leaf.stateLayoutRoot ++
    [leaf.stateLayoutFieldCount, leaf.stateLayoutSlotCount]

def qfhash [FieldQHasher F Hash] (leaf : PQEDContractLeafV2 F Hash) : Hash :=
  qHashMany (fromU64Value CONTRACT_LEAF_DOMAIN :: leaf.toQfelts)

end PQEDContractLeafV2

end PsyNode.Contract
