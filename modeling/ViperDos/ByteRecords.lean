import Mathlib.Algebra.GroupWithZero.Nat
import Mathlib.Logic.Function.Basic

/-!
Little-endian fields in a stretch of bytes. A field is read as a number and written
modulo its width; a write is seen by a read of the same field and by no read of a
field that does not overlap it.
-/

namespace ViperDos.ByteRecords

open Function

abbrev Bytes := Nat → UInt8

def getLE : Nat → Bytes → Nat → Nat
  | 0, _, _ => 0
  | width + 1, bytes, offset => (bytes offset).toNat + 256 * getLE width bytes (offset + 1)

def putLE : Nat → Bytes → Nat → Nat → Bytes
  | 0, bytes, _, _ => bytes
  | width + 1, bytes, offset, value =>
    putLE width (update bytes offset (UInt8.ofNat value)) (offset + 1) (value / 256)

def blit (bytes : Bytes) (offset : Nat) (source : Bytes) (first width : Nat) : Bytes :=
  fun position =>
    if offset ≤ position ∧ position < offset + width then source (first + (position - offset))
    else bytes position

variable {position offset width other extent : Nat} {left right : Bytes}

theorem putLE_outside (width : Nat) (bytes : Bytes) (value : Nat)
    (outside : position < offset ∨ offset + width ≤ position) :
    putLE width bytes offset value position = bytes position := by
  induction width generalizing bytes offset value with
  | zero => rfl
  | succ width ih =>
    have different : position ≠ offset := by omega
    rw [putLE, ih _ _ (by omega), update_of_ne different]

theorem getLE_congr (same : ∀ position, offset ≤ position → position < offset + width →
      left position = right position) : getLE width left offset = getLE width right offset := by
  induction width generalizing offset with
  | zero => rfl
  | succ width ih =>
    rw [getLE, getLE, same offset (by omega) (by omega),
      ih fun position low high => same position (by omega) (by omega)]

theorem getLE_lt (width : Nat) (bytes : Bytes) (offset : Nat) :
    getLE width bytes offset < 256 ^ width := by
  induction width generalizing offset with
  | zero => exact Nat.one_pos
  | succ width ih =>
    have byte := (bytes offset).toNat_lt
    have rest := ih (offset + 1)
    rw [getLE, Nat.pow_succ]
    omega

theorem getLE_putLE (width : Nat) (bytes : Bytes) (offset value : Nat) :
    getLE width (putLE width bytes offset value) offset = value % 256 ^ width := by
  induction width generalizing bytes offset value with
  | zero => simp [getLE, Nat.mod_one]
  | succ width ih =>
    have power : 256 ^ (width + 1) = 256 * 256 ^ width := Nat.pow_succ'
    have first := putLE_outside width (update bytes offset (UInt8.ofNat value))
      (value / 256) (.inl (Nat.lt_succ_self offset))
    rw [getLE, putLE, ih, first, update_self, power, Nat.mod_mul]
    rfl

theorem getLE_putLE_apart (bytes : Bytes) (value : Nat)
    (apart : position + width ≤ offset ∨ offset + other ≤ position) :
    getLE width (putLE other bytes offset value) position = getLE width bytes position :=
  getLE_congr fun _ _ _ => putLE_outside other bytes value (by omega)

theorem blit_inside (bytes : Bytes) (source : Bytes) (first : Nat)
    (low : offset ≤ position) (high : position < offset + width) :
    blit bytes offset source first width position = source (first + (position - offset)) :=
  if_pos ⟨low, high⟩

theorem blit_outside (bytes : Bytes) (source : Bytes) (first : Nat)
    (outside : position < offset ∨ offset + width ≤ position) :
    blit bytes offset source first width position = bytes position :=
  if_neg (by omega)

theorem getLE_blit (bytes : Bytes) (source : Bytes) (first : Nat) (low : offset ≤ position)
    (high : position + width ≤ offset + extent) :
    getLE width (blit bytes offset source first extent) position =
      getLE width source (first + (position - offset)) := by
  induction width generalizing position with
  | zero => rfl
  | succ width ih =>
    have next : first + (position + 1 - offset) = first + (position - offset) + 1 := by omega
    rw [getLE, getLE, blit_inside bytes source first low (by omega), ih (by omega) (by omega),
      next]

end ViperDos.ByteRecords
