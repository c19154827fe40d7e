/-
PsyNode.Coordinator.GathererOutput
**THE GATHERER'S OUTPUT AND ITS ROOT HEADER.**  The gatherer counts beside the planner:
statistics, proofs, inputs and the start root are its own, the header is the planner's.
-/
import PsyNode.Coordinator.Gatherer

namespace PsyNode.Coordinator

open Merkle Guta Recorder
open CoordinatorGUTAPlanner
open Ffs (Q256BitHash fromOwned32Bytes intoOwned32Bytes)

section
variable {F Hash : Type} [QFelt64 F] [MerkleZeroHasher Hash] [DecidableEq Hash]
  [HashTo4Felts F Hash] [FieldQHasher F Hash]

/-! ## §1. What stands under a header. -/

variable {out : FinalizeOutput F Hash} {fin : FinalizeCall F Hash} {syncedRoot : Hash}

section
omit [QFelt64 F] [MerkleZeroHasher Hash] [DecidableEq Hash] [HashTo4Felts F Hash]
  [FieldQHasher F Hash]

variable {calls : List (UpdateCall Hash)} {codec : ItemCodec F Hash}

end

/-! ## §2. The output. -/

end

end PsyNode.Coordinator
