/-
PsyNode.Lib.ByteCodec
**READERS AND WRITERS OF BYTES.**  A reader takes a value from the front of its
input.  It is *lawful* for a writer when it accepts exactly what the writer makes
of the valid values:

    read input = ok (a, rest)   ↔   valid a ∧ input = write a ++ rest

so a lawful reader inverts its writer, and has only one input for each value.

  * `Lawful.readExact_eq_ok` — a whole buffer;
  * `Reader.bind_eq_ok`, `Reader.ensure_eq_ok`, `readMany_eq_ok` — the parts of a reader, each
    as an equivalence, so a composed reader is read off from left to right.
-/
import PsyNode.Lib.ExceptBind

namespace PsyNode.Lib

open List

/-- The `w` low bytes of a number, least significant first. -/
def leBytes : Nat → Nat → List UInt8
  | 0, _ => []
  | w + 1, n => UInt8.ofNat n :: leBytes w (n / 256)

@[simp] theorem length_leBytes (w n : Nat) : (leBytes w n).length = w := by
  induction w generalizing n with
  | zero => rfl
  | succ w ih => rw [leBytes, length_cons, ih]

namespace ByteCodec

/-- A byte string. -/
abbrev Bytes := List UInt8

/-- An array of `n` bytes. -/
@[ext] structure FixedBytes (n : Nat) where
  toList : Bytes
  length_toList : toList.length = n
deriving DecidableEq

/-- The same byte `n` times. -/
def FixedBytes.replicate (n : Nat) (byte : UInt8) : FixedBytes n :=
  ⟨List.replicate n byte, length_replicate⟩

/-! ## §1. Little-endian numbers. -/

/-- The number that bytes stand for. -/
def ofLeBytes : Bytes → Nat
  | [] => 0
  | byte :: bytes => byte.toNat + 256 * ofLeBytes bytes

variable {n : Nat}

theorem ofLeBytes_leBytes {w : Nat} (h : n < 256 ^ w) : ofLeBytes (leBytes w n) = n := by
  induction w generalizing n with
  | zero =>
    show 0 = n
    omega
  | succ w ih =>
    show (UInt8.ofNat n).toNat + 256 * ofLeBytes (leBytes w (n / 256)) = n
    rw [ih (by omega), UInt8.toNat_ofNat']
    omega

theorem ofLeBytes_lt (bytes : Bytes) : ofLeBytes bytes < 256 ^ bytes.length := by
  induction bytes with
  | nil => exact Nat.one_pos
  | cons byte bytes ih =>
    have hbyte := byte.toNat_lt
    show byte.toNat + 256 * ofLeBytes bytes < 256 ^ (bytes.length + 1)
    omega

theorem leBytes_ofLeBytes (bytes : Bytes) : leBytes bytes.length (ofLeBytes bytes) = bytes := by
  induction bytes with
  | nil => rfl
  | cons byte bytes ih =>
    have hbyte := byte.toNat_lt
    show UInt8.ofNat (byte.toNat + 256 * ofLeBytes bytes) ::
      leBytes bytes.length ((byte.toNat + 256 * ofLeBytes bytes) / 256) = byte :: bytes
    rw [show (byte.toNat + 256 * ofLeBytes bytes) / 256 = ofLeBytes bytes by omega, ih]
    congr 1
    apply UInt8.toNat_inj.mp
    rw [UInt8.toNat_ofNat']
    omega

/-! ## §2. Readers. -/

/-- A reader takes a value from the front of its input, or fails. -/
abbrev Reader (E : Type) := StateT Bytes (Except E)

section
variable {E α β : Type}

/-- The bytes that are left. -/
def remaining : Reader E Nat := fun input => .ok (input.length, input)

/-- Fail unless a condition holds. -/
def ensure (p : Prop) [Decidable p] (error : E) : Reader E Unit :=
  fun input => if p then .ok ((), input) else .error error

/-- The next `n` bytes. -/
def readFixed (n : Nat) (error : E) : Reader E (FixedBytes n) := fun input =>
  if h : n ≤ input.length then .ok (⟨input.take n, length_take_of_le h⟩, input.drop n)
  else .error error

/-- A number of `w` bytes, made into a value of a fixed-width type. -/
def readLe (w : Nat) (ofNat : Nat → α) (error : E) : Reader E α := do
  let bytes ← readFixed w error
  pure (ofNat (ofLeBytes bytes.toList))

/-- `n` values in a row. -/
def readMany (read : Reader E α) : Nat → Reader E (List α)
  | 0 => pure []
  | n + 1 => do
    let a ← read
    let as ← readMany read n
    pure (a :: as)

/-- **A READER OF A WRITER.** -/
def Lawful (read : Reader E α) (write : α → Bytes) (valid : α → Prop) : Prop :=
  ∀ input a rest, read input = .ok (a, rest) ↔ valid a ∧ input = write a ++ rest

variable {read : Reader E α} {input rest : Bytes}

@[simp] theorem Reader.bind_eq_ok {next : α → Reader E β} {b : β} :
    (read >>= next) input = .ok (b, rest) ↔
      ∃ a mid, read input = .ok (a, mid) ∧ next a mid = .ok (b, rest) := by
  show (read input >>= fun p => next p.1 p.2) = .ok (b, rest) ↔ _
  rw [Lib.bind_eq_ok]
  exact Prod.exists

@[simp] theorem Reader.pure_eq_ok {a b : α} :
    (pure a : Reader E α) input = .ok (b, rest) ↔ b = a ∧ input = rest := by
  show Except.ok (a, input) = .ok (b, rest) ↔ _
  rw [Except.ok.injEq, Prod.mk.injEq, eq_comm (a := a)]

@[simp] theorem Reader.map_eq_ok {f : α → β} {b : β} :
    (f <$> read) input = .ok (b, rest) ↔ ∃ a, read input = .ok (a, rest) ∧ b = f a := by
  simp [← bind_pure_comp]

@[simp] theorem Reader.throw_eq_ok {error : E} {a : α} :
    (throw error : Reader E α) input = .ok (a, rest) ↔ False := by
  show Except.error error = .ok (a, rest) ↔ False
  simp

theorem Reader.ite_eq_ok {p : Prop} [Decidable p] {a : α} {other : Reader E α} :
    (if p then read else other) input = .ok (a, rest) ↔
      (p ∧ read input = .ok (a, rest)) ∨ (¬ p ∧ other input = .ok (a, rest)) := by
  split
  next h => simp [h]
  next h => simp [h]

@[simp] theorem Reader.ensure_eq_ok {p : Prop} [Decidable p] {error : E} {u : Unit} :
    ensure p error input = .ok (u, rest) ↔ p ∧ input = rest := by
  unfold ensure
  split
  next h => simp [h]
  next h => simp [h]

@[simp] theorem Reader.remaining_eq_ok :
    (remaining : Reader E Nat) input = .ok (n, rest) ↔ n = input.length ∧ input = rest := by
  show Except.ok (input.length, input) = .ok (n, rest) ↔ _
  rw [Except.ok.injEq, Prod.mk.injEq, eq_comm]

/-! ## §3. Lawful readers. -/

theorem Reader.fixed_eq_ok {error : E} {bytes : FixedBytes n} :
    readFixed n error input = .ok (bytes, rest) ↔ input = bytes.toList ++ rest := by
  unfold readFixed
  split
  next h =>
    rw [Except.ok.injEq, Prod.mk.injEq]
    constructor
    · rintro ⟨rfl, rfl⟩
      exact (take_append_drop n input).symm
    · rintro rfl
      have hlength := bytes.length_toList
      exact ⟨FixedBytes.ext (take_left' hlength), drop_left' hlength⟩
  next h =>
    constructor
    · intro hread
      cases hread
    · rintro rfl
      rw [length_append, bytes.length_toList] at h
      omega

/-- Fixed-width numbers: the type has exactly the numbers of `w` bytes. -/
theorem Reader.le_eq_ok {w : Nat} {ofNat : Nat → α} {toNat : α → Nat} {error : E} {a : α}
    (hleft : ∀ a, ofNat (toNat a) = a) (hright : ∀ n, n < 256 ^ w → toNat (ofNat n) = n)
    (hlt : ∀ a, toNat a < 256 ^ w) :
    readLe w ofNat error input = .ok (a, rest) ↔ input = leBytes w (toNat a) ++ rest := by
  unfold readLe
  rw [Reader.bind_eq_ok]
  simp only [Reader.fixed_eq_ok, Reader.pure_eq_ok]
  constructor
  · rintro ⟨bytes, _, rfl, rfl, rfl⟩
    have hlength := bytes.length_toList
    have hbound := ofLeBytes_lt bytes.toList
    rw [hlength] at hbound
    have hbytes := leBytes_ofLeBytes bytes.toList
    rw [hlength] at hbytes
    rw [hright _ hbound, hbytes]
  · rintro rfl
    refine ⟨⟨leBytes w (toNat a), length_leBytes _ _⟩, rest, rfl, ?_, rfl⟩
    rw [ofLeBytes_leBytes (hlt a), hleft]

variable {write : α → Bytes} {valid : α → Prop}

/-- A run of values. -/
theorem readMany_eq_ok (h : Lawful read write valid) {as : List α} :
    readMany read n input = .ok (as, rest) ↔
      as.length = n ∧ (∀ a ∈ as, valid a) ∧ input = as.flatMap write ++ rest := by
  induction n generalizing input rest as with
  | zero =>
    show (pure [] : Reader E (List α)) input = _ ↔ _
    rw [Reader.pure_eq_ok, length_eq_zero_iff]
    constructor
    · rintro ⟨rfl, rfl⟩
      exact ⟨rfl, by simp, rfl⟩
    · rintro ⟨rfl, _, rfl⟩
      exact ⟨rfl, rfl⟩
  | succ n ih =>
    show (read >>= fun a => readMany read n >>= fun as => pure (a :: as)) input = _ ↔ _
    simp only [Reader.bind_eq_ok, Reader.pure_eq_ok, h _ _ _, ih]
    constructor
    · rintro ⟨a, _, ⟨ha, rfl⟩, as', _, ⟨rfl, has, rfl⟩, rfl, rfl⟩
      refine ⟨rfl, forall_mem_cons.mpr ⟨ha, has⟩, ?_⟩
      rw [flatMap_cons, append_assoc]
    · rintro ⟨hlength, hvalid, rfl⟩
      cases as with
      | nil => cases hlength
      | cons a as =>
        obtain ⟨ha, has⟩ := forall_mem_cons.mp hvalid
        rw [flatMap_cons, append_assoc]
        exact ⟨a, _, ⟨ha, rfl⟩, as, rest, ⟨Nat.succ.inj hlength, has, rfl⟩, rfl, rfl⟩

/-- A reader of a whole buffer: `leftover` is the error for bytes that are left. -/
def readExact (read : Reader E α) (leftover : Nat → E) (bytes : Bytes) : Except E α := do
  let (a, rest) ← read bytes
  if rest.length ≠ 0 then .error (leftover rest.length)
  .ok a

theorem Lawful.readExact_eq_ok (h : Lawful read write valid) {leftover : Nat → E} {bytes : Bytes}
    {a : α} : readExact read leftover bytes = .ok a ↔ valid a ∧ bytes = write a := by
  have hread := h bytes a []
  rw [append_nil] at hread
  rw [← hread]
  unfold readExact
  rw [Lib.bind_eq_ok]
  constructor
  · rintro ⟨⟨b, rest⟩, hb, hrest⟩
    cases rest with
    | nil =>
      obtain rfl : b = a := Except.ok.inj hrest
      exact hb
    | cons byte rest => exact absurd hrest (by simp [bind, Except.bind])
  · intro hb
    exact ⟨(a, []), hb, rfl⟩

end

end ByteCodec

end PsyNode.Lib
