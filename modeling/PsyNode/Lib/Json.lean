/-
PsyNode.Lib.Json
**JSON VALUES**, read the way a strict deserializer reads them, and the text
formats that their strings hold: hexadecimal bytes and decimal numbers.

A number is kept as it was written: a non-negative integer of 64 bits, a
negative one, or something that is no integer.
-/
import PsyNode.Lib.ByteCodec

namespace PsyNode.Lib

/-! ## §1. Values. -/

/-- A JSON number; `negInt n` is the integer `-(n + 1)`. -/
inductive JsonNumber
  | posInt (n : UInt64)
  | negInt (n : Nat)
  | float (text : String)

/-- A JSON value.  The members of an object have different names. -/
inductive JsonValue
  | null
  | bool (b : Bool)
  | number (n : JsonNumber)
  | string (text : String)
  | array (items : List JsonValue)
  | object (members : List (String × JsonValue))

/-- The text of a number. -/
def JsonNumber.text : JsonNumber → String
  | .posInt n => toString n.toNat
  | .negInt n => "-" ++ toString (n + 1)
  | .float text => text

namespace JsonValue

/-- A non-negative integer of 64 bits. -/
def asU64 : JsonValue → Option Nat
  | .number (.posInt n) => some n.toNat
  | _ => none

/-- A signed integer of 64 bits. -/
def asI64 : JsonValue → Option Int
  | .number (.posInt n) => if n.toNat < 2 ^ 63 then some n.toNat else none
  | .number (.negInt n) => if n < 2 ^ 63 then some (-(n + 1 : Int)) else none
  | _ => none

def asStr : JsonValue → Option String
  | .string text => some text
  | _ => none

def asArray : JsonValue → Option (List JsonValue)
  | .array items => some items
  | _ => none

def asObject : JsonValue → Option (List (String × JsonValue))
  | .object members => some members
  | _ => none

end JsonValue

/-! ## §2. Text formats. -/

/-- The value of a hexadecimal digit. -/
def hexDigit (c : Char) : Option Nat :=
  if '0' ≤ c ∧ c ≤ '9' then some (c.toNat - '0'.toNat)
  else if 'a' ≤ c ∧ c ≤ 'f' then some (c.toNat - 'a'.toNat + 10)
  else if 'A' ≤ c ∧ c ≤ 'F' then some (c.toNat - 'A'.toNat + 10)
  else none

/-- Bytes from pairs of hexadecimal digits. -/
def hexDecode : List Char → Option (List UInt8)
  | [] => some []
  | [_] => none
  | a :: b :: rest => do
    let high ← hexDigit a
    let low ← hexDigit b
    let bytes ← hexDecode rest
    return UInt8.ofNat (16 * high + low) :: bytes

/-- A decimal number below `bound`, with an optional plus sign. -/
def parseUnsigned (bound : Nat) (text : String) : Option Nat :=
  let digits := match text.toList with
    | '+' :: rest => rest
    | cs => cs
  if digits.isEmpty ∨ ¬ digits.all Char.isDigit then none
  else
    let n := digits.foldl (fun n c => 10 * n + (c.toNat - '0'.toNat)) 0
    if n < bound then some n else none

/-- The number whose bytes these are, the lowest first. -/
def leNat (bytes : List UInt8) : Nat := bytes.foldr (fun b n => b.toNat + 256 * n) 0

/-! ## §3. Lists as sets. -/

/-- Two lists have the same elements. -/
def SameElems {α : Type} (as bs : List α) : Prop := (∀ a ∈ as, a ∈ bs) ∧ ∀ b ∈ bs, b ∈ as

instance {α : Type} [DecidableEq α] (as bs : List α) : Decidable (SameElems as bs) :=
  inferInstanceAs (Decidable (_ ∧ _))

end PsyNode.Lib
