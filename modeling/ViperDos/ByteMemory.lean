import Mathlib.Algebra.Group.Nat.Defs
import Mathlib.Data.List.Basic

/-!
A byte-addressed 64-bit memory behind a bus that records every access. Words are
little endian. A procedure that goes through the bus leaves a complete list of
the address ranges it touched, in order, whatever the values were.
-/

namespace ViperDos.ByteMemory

abbrev Memory := UInt64 → UInt8

structure Access where
  address : UInt64
  size : Nat
  deriving DecidableEq

structure Bus where
  memory : Memory
  accesses : List Access

def idle (memory : Memory) : Bus := ⟨memory, []⟩

def loadBytes (memory : Memory) (address : UInt64) : Nat → Nat
  | 0 => 0
  | size + 1 => (memory address).toNat + 256 * loadBytes memory (address + 1) size

theorem add_next (address : UInt64) (i : Nat) :
    address + 1 + UInt64.ofNat i = address + UInt64.ofNat (i + 1) := by
  rw [UInt64.add_assoc, UInt64.ofNat_add, UInt64.add_comm 1]
  rfl

variable {size : Nat} {other memory : Memory} {address base : UInt64}

theorem loadBytes_congr
    (same : ∀ i < size, other (address + UInt64.ofNat i) = memory (address + UInt64.ofNat i)) :
    loadBytes other address size = loadBytes memory address size := by
  induction size generalizing address with
  | zero => rfl
  | succ size ih =>
    have here := same 0 (Nat.succ_pos _)
    rw [show address + UInt64.ofNat 0 = address from UInt64.add_zero address] at here
    unfold loadBytes
    rw [here, ih fun i small => by rw [add_next]; exact same (i + 1) (Nat.succ_lt_succ small)]

def storeBytes (memory : Memory) (address : UInt64) (value : Nat) : Nat → Memory
  | 0 => memory
  | size + 1 =>
    storeBytes (Function.update memory address (UInt8.ofNat value)) (address + 1)
      (value / 256) size

theorem storeBytes_outside {other : UInt64} (value : Nat)
    (outside : ∀ i < size, other ≠ address + UInt64.ofNat i) :
    storeBytes memory address value size other = memory other := by
  induction size generalizing memory address value with
  | zero => rfl
  | succ size ih =>
    have here : other ≠ address := by simpa using outside 0 (Nat.succ_pos _)
    unfold storeBytes
    rw [ih, Function.update_of_ne here]
    intro i small
    rw [add_next]
    exact outside (i + 1) (Nat.succ_lt_succ small)

theorem loadBytes_storeBytes (memory : Memory) (address : UInt64) (value : Nat)
    (small : size < 2 ^ 64) :
    loadBytes (storeBytes memory address value size) address size = value % 256 ^ size := by
  induction size generalizing memory address value with
  | zero => simp [loadBytes, Nat.mod_one]
  | succ size ih =>
    have first : storeBytes (Function.update memory address (UInt8.ofNat value)) (address + 1)
        (value / 256) size address = UInt8.ofNat value := by
      rw [storeBytes_outside, Function.update_self]
      intro i inside same
      rw [add_next, UInt64.left_eq_add, ← UInt64.toNat_inj, UInt64.toNat_ofNat',
        UInt64.toNat_zero] at same
      omega
    unfold loadBytes storeBytes
    rw [first, ih _ _ _ (by omega), Nat.pow_succ, Nat.mul_comm (256 ^ size), Nat.mod_mul]
    rfl

structure Field where
  offset : Nat
  value : Nat
  size : Nat

def storeFields (base : UInt64) : List Field → Memory → Memory
  | [], memory => memory
  | field :: rest, memory => storeFields base rest
      (storeBytes memory (base + UInt64.ofNat field.offset) field.value field.size)

variable {fields : List Field} {length i : Nat} {field : Field}

section

theorem storeFields_append (more : List Field) : storeFields base (fields ++ more) memory =
    storeFields base more (storeFields base fields memory) := by
  induction fields generalizing memory with
  | nil => rfl
  | cons first rest ih => exact ih

variable (fits : length < 2 ^ 64)

include fits

theorem storeFields_below {limit : Nat} (low : i < limit)
    (above : ∀ field ∈ fields, limit ≤ field.offset ∧ field.offset + field.size ≤ length) :
    storeFields base fields memory (base + UInt64.ofNat i) = memory (base + UInt64.ofNat i) := by
  induction fields generalizing memory with
  | nil => rfl
  | cons first rest ih =>
    refine (ih fun field member => above field (.tail _ member)).trans ?_
    obtain ⟨behind, ends⟩ := above first (.head _)
    apply storeBytes_outside
    intro j inside same
    rw [UInt64.add_assoc, ← UInt64.ofNat_add, UInt64.add_right_inj, ← UInt64.toNat_inj,
      UInt64.toNat_ofNat', UInt64.toNat_ofNat'] at same
    omega

theorem storeFields_load
    (sorted : fields.Pairwise fun one other => one.offset + one.size ≤ other.offset)
    (inside : ∀ field ∈ fields, field.offset + field.size ≤ length) (member : field ∈ fields) :
    loadBytes (storeFields base fields memory) (base + UInt64.ofNat field.offset) field.size =
      field.value % 256 ^ field.size := by
  induction fields generalizing memory with
  | nil => cases member
  | cons first rest ih =>
    obtain ⟨behind, sorted⟩ := List.pairwise_cons.mp sorted
    have later := fun other member => inside other (.tail _ member)
    cases member with
    | tail _ member => exact ih sorted later member
    | head =>
      have ends := inside field (.head _)
      refine .trans (loadBytes_congr fun i small => ?_) (loadBytes_storeBytes memory _ _ (by omega))
      -- the later fields leave the bytes of this one alone
      rw [UInt64.add_assoc, ← UInt64.ofNat_add]
      exact storeFields_below fits (Nat.add_lt_add_left small _)
        fun other member => ⟨behind other member, later other member⟩

end

section

variable (bus : Bus) (address : UInt64)

def load64 : UInt64 × Bus :=
  (UInt64.ofNat (loadBytes bus.memory address 8),
    { bus with accesses := bus.accesses ++ [⟨address, 8⟩] })

def load32 : UInt32 × Bus :=
  (UInt32.ofNat (loadBytes bus.memory address 4),
    { bus with accesses := bus.accesses ++ [⟨address, 4⟩] })

def store64 (value : UInt64) : Bus :=
  { memory := storeBytes bus.memory address value.toNat 8
    accesses := bus.accesses ++ [⟨address, 8⟩] }

def store32 (value : UInt32) : Bus :=
  { memory := storeBytes bus.memory address value.toNat 4
    accesses := bus.accesses ++ [⟨address, 4⟩] }

end

variable (bus : Bus) (address : UInt64)

@[simp] theorem load64_accesses :
    (load64 bus address).2.accesses = bus.accesses ++ [⟨address, 8⟩] := rfl

@[simp] theorem load32_accesses :
    (load32 bus address).2.accesses = bus.accesses ++ [⟨address, 4⟩] := rfl

@[simp] theorem store64_accesses (value : UInt64) :
    (store64 bus address value).accesses = bus.accesses ++ [⟨address, 8⟩] := rfl

@[simp] theorem store32_accesses (value : UInt32) :
    (store32 bus address value).accesses = bus.accesses ++ [⟨address, 4⟩] := rfl

end ViperDos.ByteMemory
