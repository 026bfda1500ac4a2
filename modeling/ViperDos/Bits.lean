import Mathlib.Data.Nat.Bitwise

/-!
Bit fields of 64-bit words. A word that lies inside a mask does not show outside
it, so what is or-ed to it can be read back there, and the word itself can be read
back through the mask when the rest lies outside.
-/

namespace ViperDos.Bits

theorem or_and (left right mask : UInt64) :
    (left ||| right) &&& mask = (left &&& mask) ||| (right &&& mask) := by
  apply UInt64.toNat_inj.mp
  simp only [UInt64.toNat_and, UInt64.toNat_or, Nat.and_or_distrib_right]

theorem add_sub_left (word offset : UInt64) : word + offset - word = offset := by
  rw [UInt64.add_comm, UInt64.add_sub_cancel]

variable {width low : Nat} {mask word field : UInt64}

/-- A field of consecutive bits, as a number. -/
theorem and_toNat (word : UInt64) (field : mask.toNat = (2 ^ width - 1) * 2 ^ low) :
    (word &&& mask).toNat = word.toNat / 2 ^ low % 2 ^ width * 2 ^ low := by
  rw [UInt64.toNat_and, field]
  have below : (word.toNat &&& (2 ^ width - 1) * 2 ^ low) % 2 ^ low = 0 := by
    rw [Nat.and_mod_two_pow, Nat.mul_mod_left, Nat.and_zero]
  have inside : (word.toNat &&& (2 ^ width - 1) * 2 ^ low) / 2 ^ low =
      word.toNat / 2 ^ low % 2 ^ width := by
    rw [Nat.and_div_two_pow, Nat.mul_div_cancel _ (Nat.two_pow_pos low),
      Nat.and_two_pow_sub_one_eq_mod]
  rw [← inside, Nat.div_mul_cancel (Nat.dvd_of_mod_eq_zero below)]

theorem inside_and (inside : word &&& mask = word) (apart : mask &&& field = 0) :
    word &&& field = 0 := by
  rw [← inside, UInt64.and_assoc, apart, UInt64.and_zero]

theorem or_field (inside : word &&& mask = word) (flags : UInt64) (apart : mask &&& field = 0) :
    (word ||| flags) &&& field = flags &&& field := by
  rw [or_and, inside_and inside apart, UInt64.zero_or]

theorem or_mask (inside : word &&& mask = word) {flags : UInt64} (outside : flags &&& mask = 0) :
    (word ||| flags) &&& mask = word := by
  rw [or_and, outside, UInt64.or_zero, inside]

end ViperDos.Bits
