/-
PsyNode.Merkle.Felt
**FIELD ELEMENTS AND THE HASHES MADE OF THEM.**

The generic code uses a field element only through addition and its 64-bit
value, and a hash only through its four field elements.  The classes name these
operations and carry, as fields, the laws that both implementations of the
repository have (the Goldilocks field, and `u64`): a value below `2 ^ 63`
survives the round trip, sums below `2 ^ 63` are kept, and the default values
read as zero.
-/
import PsyNode.Merkle.Basic

namespace PsyNode.Merkle

/-- `QFelt64`: addition, and conversion from and to 64-bit integers. -/
class QFelt64 (F : Type) extends AddCommMonoid F where
  toU64Value : F → Nat
  fromU64Value : Nat → F
  toU64Value_fromU64Value : ∀ n, n < 2 ^ 63 → toU64Value (fromU64Value n) = n
  fromU64Value_zero : fromU64Value 0 = 0
  fromU64Value_add : ∀ a b, a + b < 2 ^ 63 →
    fromU64Value (a + b) = fromU64Value a + fromU64Value b

export QFelt64 (toU64Value fromU64Value)

theorem toU64Value_zero {F : Type} [QFelt64 F] : toU64Value (0 : F) = 0 := by
  rw [← QFelt64.fromU64Value_zero]
  exact QFelt64.toU64Value_fromU64Value 0 (by norm_num)

/-- `HashTo4Felts`: the four field elements of a hash, least significant first. -/
class HashTo4Felts (F Hash : Type) [QFelt64 F] extends Inhabited Hash where
  to4Felts : Hash → Fin 4 → F
  toU64Value_to4Felts_default : ∀ i, toU64Value (to4Felts default i) = 0

export HashTo4Felts (to4Felts)

class FieldQHasher (F Hash : Type) where
  qHashMany : List F → Hash
  qTwoToOne : Hash → Hash → Hash

export FieldQHasher (qHashMany)

section
variable {Hash : Type} (F : Type) [QFelt64 F] [HashTo4Felts F Hash]

/-- `OrdHash::to_sort_key`: the four values, most significant first; the order is
lexicographic. -/
def toSortKey (hash : Hash) : List Nat :=
  [toU64Value (to4Felts hash 3 : F), toU64Value (to4Felts hash 2 : F),
    toU64Value (to4Felts hash 1 : F), toU64Value (to4Felts hash 0 : F)]

/-- The default hash sorts first. -/
theorem toSortKey_default_le (hash : Hash) : toSortKey F (default : Hash) ≤ toSortKey F hash := by
  unfold toSortKey
  simp only [HashTo4Felts.toU64Value_to4Felts_default]
  rw [← not_lt]
  simp [List.cons_lt_cons_iff]

end

/-! ## Symbolic field elements. -/

instance : QFelt64 Nat where
  toU64Value := id
  fromU64Value := id
  toU64Value_fromU64Value := fun _ _ => rfl
  fromU64Value_zero := rfl
  fromU64Value_add := fun _ _ _ => rfl

instance : HashTo4Felts Nat SymHash where
  default := .zero
  to4Felts
    | .zero, _ => 0
    | .leaf n, i => if i = 0 then n else 0
    | .node _ _, _ => 1
  toU64Value_to4Felts_default := fun _ => rfl

instance : FieldQHasher Nat SymHash where
  qHashMany := List.foldr (fun x h => .node (.leaf x) h) .zero
  qTwoToOne := .node

end PsyNode.Merkle
