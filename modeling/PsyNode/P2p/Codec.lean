/-
PsyNode.P2p.Codec
**THE PROTOCOL CODEC** — `ProtocolReader` and the writers of
`psy_data/src/p2p/codec.rs`.

Integers are little-endian of a fixed width, arrays are raw bytes, variable bytes
have their length in front, and a boolean is one byte.  Each reader comes with the
law that it accepts exactly what its writer writes.
-/
import PsyNode.Lib.ByteCodec

namespace PsyNode.P2p

open Lib.ByteCodec Lib

/-- `ProtocolError`, with the failures that decoding can have. -/
inductive ProtocolError
  | unexpectedEof (context : String)
  | trailingBytes (remaining : Nat)
  | invalidBool (value : UInt8)
  | unknownTag (ty : String) (tag : UInt8)
  | lengthLimit (what : String) (got max : Nat)
  | invalidLength (what : String) (got expected : Nat)
  | nonCanonicalField (value : Nat)
  | invalidBlsSignature
  | overflow (context : String)
  | message (text : String)
deriving DecidableEq

/-- Readers of the protocol. -/
abbrev ProtocolReader := Reader ProtocolError

/-! ## §1. Writers. -/

/-- One byte. -/
def writeU8 (value : UInt8) : Bytes := [value]

/-- Two bytes. -/
def writeU16 (value : UInt16) : Bytes := leBytes 2 value.toNat

/-- Four bytes. -/
def writeU32 (value : UInt32) : Bytes := leBytes 4 value.toNat

/-- Eight bytes. -/
def writeU64 (value : UInt64) : Bytes := leBytes 8 value.toNat

/-- 0 or 1. -/
def writeBool (value : Bool) : Bytes := [if value then 0x01 else 0x00]

/-- As it is. -/
def writeFixed {n : Nat} (bytes : FixedBytes n) : Bytes := bytes.toList

/-- `write_bytes_u32`: the length of the bytes has to fit `u32`. -/
def writeBytesU32 (bytes : Bytes) : Except ProtocolError Bytes :=
  if bytes.length < 2 ^ 32 then .ok (writeU32 (UInt32.ofNat bytes.length) ++ bytes)
  else .error (.overflow "bytes_u32 length")

/-! ## §2. Readers. -/

/-- One byte. -/
def readU8 : ProtocolReader UInt8 := readLe 1 UInt8.ofNat (.unexpectedEof "u8")

/-- Two bytes. -/
def readU16 : ProtocolReader UInt16 := readLe 2 UInt16.ofNat (.unexpectedEof "u16")

/-- Four bytes. -/
def readU32 : ProtocolReader UInt32 := readLe 4 UInt32.ofNat (.unexpectedEof "u32")

/-- Eight bytes. -/
def readU64 : ProtocolReader UInt64 := readLe 8 UInt64.ofNat (.unexpectedEof "u64")

/-- Refuses other bytes. -/
def readBool : ProtocolReader Bool := do
  let value ← readU8
  if value = 0x00 then pure false
  else if value = 0x01 then pure true
  else throw (.invalidBool value)

/-- A hash. -/
def readBytes32 : ProtocolReader (FixedBytes 32) := readFixed 32 (.unexpectedEof "fixed bytes")

/-- Bytes behind their length, which is limited. -/
def readBytesU32 (what : String) (max : UInt32) : ProtocolReader Bytes := do
  let len ← readU32
  ensure (len ≤ max) (.lengthLimit what len.toNat max.toNat)
  let bytes ← readFixed len.toNat (.unexpectedEof what)
  pure bytes.toList

/-- The result of a check, inside a reader. -/
def check {α : Type} (result : Except ProtocolError α) : ProtocolReader α :=
  fun input => result.map (fun a => (a, input))

/-- A whole buffer. -/
def decodeExact {α : Type} (bytes : Bytes) (read : ProtocolReader α) : Except ProtocolError α :=
  readExact read .trailingBytes bytes

/-! ## §3. Field elements. -/

/-- The order of the field. -/
def GOLDILOCKS_MODULUS : Nat := 0xffffffff00000001

/-- Reduced limbs only. -/
def validateGoldilocksLimb (value : Nat) : Except ProtocolError Unit :=
  if GOLDILOCKS_MODULUS ≤ value then .error (.nonCanonicalField value) else .ok ()

variable (bytes : FixedBytes 32)

/-- The limb `i` of a hash. -/
def limb (i : Nat) : Nat := ofLeBytes ((bytes.toList.drop (i * 8)).take 8)

/-- All four limbs. -/
def validateHash32Canonical : Except ProtocolError Unit :=
  (List.range 4).forM (fun i => validateGoldilocksLimb (limb bytes i))

/-- A hash whose limbs are reduced. -/
def Hash32Canonical : Prop := ∀ i < 4, limb bytes i < GOLDILOCKS_MODULUS

/-! ## §4. What each reader accepts. -/

variable {input rest : Bytes}

@[simp] theorem readU8_eq_ok {a : UInt8} :
    readU8 input = .ok (a, rest) ↔ input = writeU8 a ++ rest := by
  rw [readU8, Reader.le_eq_ok (fun _ => UInt8.ofNat_toNat)
    (fun _ hn => UInt8.toNat_ofNat_of_lt' hn) (fun _ => UInt8.toNat_lt _)]
  show input = [UInt8.ofNat a.toNat] ++ rest ↔ _
  rw [UInt8.ofNat_toNat]
  rfl

@[simp] theorem readU16_eq_ok {a : UInt16} :
    readU16 input = .ok (a, rest) ↔ input = writeU16 a ++ rest :=
  Reader.le_eq_ok (fun _ => UInt16.ofNat_toNat) (fun _ hn => UInt16.toNat_ofNat_of_lt' hn)
    (fun _ => UInt16.toNat_lt _)

@[simp] theorem readU32_eq_ok {a : UInt32} :
    readU32 input = .ok (a, rest) ↔ input = writeU32 a ++ rest :=
  Reader.le_eq_ok (fun _ => UInt32.ofNat_toNat) (fun _ hn => UInt32.toNat_ofNat_of_lt' hn)
    (fun _ => UInt32.toNat_lt _)

@[simp] theorem readU64_eq_ok {a : UInt64} :
    readU64 input = .ok (a, rest) ↔ input = writeU64 a ++ rest :=
  Reader.le_eq_ok (fun _ => UInt64.ofNat_toNat) (fun _ hn => UInt64.toNat_ofNat_of_lt' hn)
    (fun _ => UInt64.toNat_lt _)

@[simp] theorem readFixed_eq_ok {n : Nat} {error : ProtocolError} {a : FixedBytes n} :
    readFixed n error input = .ok (a, rest) ↔ input = writeFixed a ++ rest := Reader.fixed_eq_ok

@[simp] theorem readBytes32_eq_ok {a : FixedBytes 32} :
    readBytes32 input = .ok (a, rest) ↔ input = writeFixed a ++ rest := Reader.fixed_eq_ok

@[simp] theorem readBool_eq_ok {a : Bool} :
    readBool input = .ok (a, rest) ↔ input = writeBool a ++ rest := by
  have hone : (0x01 : UInt8) ≠ 0x00 := by decide
  unfold readBool
  simp only [Reader.bind_eq_ok, Reader.ite_eq_ok, Reader.pure_eq_ok, Reader.throw_eq_ok,
    readU8_eq_ok, and_false, or_false]
  constructor
  · rintro ⟨value, _, rfl, ⟨rfl, rfl, rfl⟩ | ⟨_, rfl, rfl, rfl⟩⟩
    all_goals rfl
  · rintro rfl
    cases a with
    | false => exact ⟨0x00, rest, rfl, Or.inl ⟨rfl, rfl, rfl⟩⟩
    | true => exact ⟨0x01, rest, rfl, Or.inr ⟨hone, rfl, rfl, rfl⟩⟩

@[simp] theorem readBytesU32_eq_ok {what : String} {max : UInt32} {bytes : Bytes} :
    readBytesU32 what max input = .ok (bytes, rest) ↔
      bytes.length ≤ max.toNat ∧
        input = writeU32 (UInt32.ofNat bytes.length) ++ (bytes ++ rest) := by
  unfold readBytesU32
  simp only [Reader.bind_eq_ok, readU32_eq_ok, Reader.ensure_eq_ok, readFixed_eq_ok,
    Reader.pure_eq_ok]
  constructor
  · rintro ⟨len, _, rfl, _, _, ⟨hle, rfl⟩, fixed, _, rfl, rfl, rfl⟩
    have hlength := fixed.length_toList
    rw [hlength, UInt32.ofNat_toNat]
    exact ⟨hle, rfl⟩
  · rintro ⟨hle, rfl⟩
    have hlen : (UInt32.ofNat bytes.length).toNat = bytes.length :=
      UInt32.toNat_ofNat_of_lt' (lt_of_le_of_lt hle (UInt32.toNat_lt max))
    refine ⟨UInt32.ofNat bytes.length, _, rfl, (), _, ⟨?_, rfl⟩, ⟨bytes, hlen.symm⟩, rest, rfl,
      rfl, rfl⟩
    rw [UInt32.le_iff_toNat_le, hlen]
    exact hle

@[simp] theorem check_eq_ok {α : Type} {result : Except ProtocolError α} {a : α} :
    check result input = .ok (a, rest) ↔ result = .ok a ∧ input = rest := by
  cases result with
  | error e => simp [check, Except.map]
  | ok => simp [check, Except.map]

@[simp] theorem validateHash32Canonical_eq_ok {bytes : FixedBytes 32} {u : Unit} :
    validateHash32Canonical bytes = .ok u ↔ Hash32Canonical bytes := by
  unfold validateHash32Canonical Hash32Canonical
  rw [forM_eq_ok]
  simp only [List.mem_range]
  refine forall₂_congr (fun i _ => ?_)
  unfold validateGoldilocksLimb
  split
  next h => simp [h]
  next h => simp [not_le.mp h]

theorem writeBytesU32_eq_ok {bytes out : Bytes} (h : bytes.length < 2 ^ 32) :
    writeBytesU32 bytes = .ok out ↔ out = writeU32 (UInt32.ofNat bytes.length) ++ bytes := by
  unfold writeBytesU32
  rw [if_pos h, Except.ok.injEq, eq_comm]

section
variable {α : Type} {read : ProtocolReader α} {write : α → Bytes} {bytes : Bytes} {a : α}

theorem decodeExact_eq_ok {valid : α → Prop} (h : Lawful read write valid) :
    decodeExact bytes read = .ok a ↔ valid a ∧ write a = bytes := by
  rw [eq_comm (a := write a)]
  exact h.readExact_eq_ok

theorem decodeExact_eq_ok_of_true (h : Lawful read write fun _ => True) :
    decodeExact bytes read = .ok a ↔ write a = bytes := by
  rw [decodeExact_eq_ok h, true_and]

end

end PsyNode.P2p
