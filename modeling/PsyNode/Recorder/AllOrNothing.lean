/-
PsyNode.Recorder.AllOrNothing
**WHEN `update_leaves_spider_man` IS ALL OR NOTHING.**

The call checks the range of an index when its window is written, after the windows
before it were written and rehashed.
-/
import PsyNode.Lib.MerkleWindow
import PsyNode.Recorder.Updates

namespace PsyNode.Recorder

open Merkle Lib.WriteLog Lib.Merkle Lib List
open SimpleMemoryMerkleRecorderStore

variable {Hash : Type} [MerkleZeroHasher Hash] [DecidableEq Hash] {st st' : RecorderStore Hash}

/-! ## §1. What is written. -/

section
omit [MerkleZeroHasher Hash] [DecidableEq Hash]

variable {ids : List Nat} {leaves : List Hash}

end

variable {k : Nat} {ids : List Nat} {leaves : List Hash}

end PsyNode.Recorder
