import Mathlib.Algebra.GroupWithZero.Nat
import Mathlib.Data.List.Perm.Basic
import Mathlib.Data.Nat.Bitwise
import Mathlib.Tactic.Ring

/-!
Blocks whose size is a power of two and whose address is a multiple of their size. Two
buddies, whose addresses differ in one bit, are the halves of the block of the next order.
A list of blocks is packed between two bounds if they lie between them and no two overlap.
-/

namespace ViperDos.PowerBlocks

structure Block where
  addr : Nat
  order : Nat
  deriving DecidableEq

def size (shift order : Nat) : Nat := 2 ^ (shift + order)

section

variable (shift : Nat) (b : Block)

def Aligned : Prop := b.addr % size shift b.order = 0

def Within (shift low high : Nat) (b : Block) : Prop :=
  low ≤ b.addr ∧ b.addr + size shift b.order ≤ high

def Covers (x : Nat) : Prop :=
  b.addr ≤ x ∧ x < b.addr + size shift b.order

def Apart (shift : Nat) (b c : Block) : Prop :=
  b.addr + size shift b.order ≤ c.addr ∨ c.addr + size shift c.order ≤ b.addr

instance (shift : Nat) (b : Block) : Decidable (Aligned shift b) :=
  inferInstanceAs (Decidable (_ = _))

instance (shift : Nat) (b c : Block) : Decidable (Apart shift b c) :=
  inferInstanceAs (Decidable (_ ∨ _))

def buddy : Block := ⟨b.addr ^^^ size shift b.order, b.order⟩

def parent : Block :=
  ⟨min b.addr (buddy shift b).addr, b.order + 1⟩

end

theorem size_pos (shift order : Nat) : 0 < size shift order := Nat.pow_pos (by decide)

theorem size_succ (shift order : Nat) : size shift (order + 1) = 2 * size shift order := by
  unfold size
  rw [← Nat.add_assoc, Nat.pow_succ, Nat.mul_comm]

variable {shift low high addr order upper m count total : Nat} {b c d part : Block}
  {blocks others rest more : List Block}

theorem apart_symm (apart : Apart shift b c) : Apart shift c b := Or.symm apart

instance (shift : Nat) : Std.Symm (Apart shift) := ⟨fun _ _ => apart_symm⟩

theorem apart_iff_covers : Apart shift b c ↔ ∀ x, Covers shift b x → ¬ Covers shift c x := by
  have first := size_pos shift b.order
  have second := size_pos shift c.order
  constructor
  · intro apart x inside other
    unfold Apart Covers at *
    omega
  intro none
  have left := none b.addr
  have right := none c.addr
  unfold Apart Covers at *
  omega

section

variable (aligned : Aligned shift b)

include aligned

theorem buddy_addr : (b.addr % size shift (b.order + 1) = 0 ∧
        (buddy shift b).addr = b.addr + size shift b.order) ∨
      (b.addr % size shift (b.order + 1) = size shift b.order ∧
        (buddy shift b).addr + size shift b.order = b.addr) := by
  obtain ⟨k, multiple⟩ := Nat.dvd_of_mod_eq_zero aligned
  have flipped : (buddy shift b).addr = (k ^^^ 1) * size shift b.order := by
    have shifted := @Nat.shiftLeft_xor_distrib (shift + b.order) k 1
    rw [Nat.shiftLeft_eq, Nat.shiftLeft_eq, Nat.shiftLeft_eq, Nat.one_mul] at shifted
    unfold buddy
    rw [multiple, Nat.mul_comm]
    exact shifted.symm
  have positive := size_pos shift b.order
  rw [flipped, multiple, size_succ]
  rcases Nat.even_or_odd' k with ⟨m, rfl | rfl⟩
  · left
    rw [Nat.xor_one_of_even (even_two_mul m)]
    constructor
    · rw [show size shift b.order * (2 * m) = 2 * size shift b.order * m by ring]
      exact Nat.mul_mod_right ..
    · ring
  · right
    rw [Nat.xor_one_of_odd (odd_two_mul_add_one m), Nat.add_sub_cancel]
    constructor
    · rw [show size shift b.order * (2 * m + 1) =
        size shift b.order + 2 * size shift b.order * m by ring, Nat.add_mul_mod_self_left]
      exact Nat.mod_eq_of_lt (by omega)
    · ring

theorem buddy_aligned : Aligned shift (buddy shift b) := by
  have whole : b.addr % size shift b.order = 0 := aligned
  rcases buddy_addr aligned with ⟨_, upper⟩ | ⟨_, lower⟩
  · unfold Aligned
    rw [upper]
    exact (Nat.add_mod_right ..).trans whole
  · rw [← lower, Nat.add_mod_right] at whole
    exact whole

theorem parent_aligned : Aligned shift (parent shift b) := by
  unfold Aligned parent
  rcases buddy_addr aligned with ⟨even, upper⟩ | ⟨odd, lower⟩
  · rw [upper, Nat.min_eq_left (Nat.le_add_right ..)]
    exact even
  rw [Nat.min_eq_right (by omega)]
  have divided := Nat.div_add_mod b.addr (size shift (b.order + 1))
  have start : (buddy shift b).addr =
      size shift (b.order + 1) * (b.addr / size shift (b.order + 1)) := by omega
  rw [start]
  exact Nat.mul_mod_right ..

theorem covers_parent (x : Nat) :
    Covers shift (parent shift b) x ↔ Covers shift b x ∨ Covers shift (buddy shift b) x := by
  have double := size_succ shift b.order
  have same : (buddy shift b).order = b.order := rfl
  unfold Covers parent
  dsimp only
  rw [same, double]
  rcases buddy_addr aligned with ⟨_, upper⟩ | ⟨_, lower⟩ <;> omega

theorem apart_buddy : Apart shift b (buddy shift b) := by
  rcases buddy_addr aligned with ⟨_, upper⟩ | ⟨_, lower⟩
  · exact .inl upper.ge
  · exact .inr lower.le

theorem apart_parent :
    Apart shift (parent shift b) c ↔ Apart shift b c ∧ Apart shift (buddy shift b) c := by
  simp only [apart_iff_covers, covers_parent aligned]
  constructor
  · intro none
    exact ⟨fun x inside => none x (.inl inside), fun x inside => none x (.inr inside)⟩
  · rintro ⟨first, second⟩ x (inside | inside)
    · exact first x inside
    · exact second x inside

theorem within_parent : Within shift low high (parent shift b) ↔
      Within shift low high b ∧ Within shift low high (buddy shift b) := by
  have double := size_succ shift b.order
  have same : (buddy shift b).order = b.order := rfl
  unfold Within parent
  dsimp only
  rw [same, double]
  rcases buddy_addr aligned with ⟨_, upper⟩ | ⟨_, lower⟩ <;> omega

end

/-- An aligned block of a higher order has its lower half's buddy as its upper half. -/
theorem halves (aligned : Aligned shift ⟨addr, order + 1⟩) :
    Aligned shift ⟨addr, order⟩ ∧ buddy shift ⟨addr, order⟩ = ⟨addr + size shift order, order⟩ ∧
      parent shift ⟨addr, order⟩ = ⟨addr, order + 1⟩ := by
  have positive := size_pos shift order
  have whole : addr % size shift (order + 1) = 0 := aligned
  have lower : Aligned shift ⟨addr, order⟩ := by
    obtain ⟨k, multiple⟩ := Nat.dvd_of_mod_eq_zero whole
    rw [multiple, size_succ, Nat.mul_comm 2, Nat.mul_assoc]
    exact Nat.mul_mod_right ..
  have upper : (buddy shift ⟨addr, order⟩).addr = addr + size shift order := by
    rcases buddy_addr lower with ⟨_, upper⟩ | ⟨odd, _⟩
    · exact upper
    · dsimp only at odd
      omega
  refine ⟨lower, ?_, ?_⟩
  · exact Block.mk.injEq .. ▸ ⟨upper, rfl⟩
  · unfold parent
    rw [upper, Nat.min_eq_left (Nat.le_add_right ..)]

structure Packed (shift low high : Nat) (blocks : List Block) : Prop where
  aligned : ∀ b ∈ blocks, Aligned shift b
  within : ∀ b ∈ blocks, Within shift low high b
  apart : blocks.Pairwise (Apart shift)

theorem packed_nil : Packed shift low high [] where
  aligned := by simp
  within := by simp
  apart := .nil

theorem packed_perm (perm : blocks.Perm others)
    (packed : Packed shift low high blocks) : Packed shift low high others where
  aligned := fun b member => packed.aligned b (perm.mem_iff.mpr member)
  within := fun b member => packed.within b (perm.mem_iff.mpr member)
  apart := packed.apart.perm perm apart_symm

theorem packed_sublist (fewer : others.Sublist blocks)
    (packed : Packed shift low high blocks) : Packed shift low high others where
  aligned := fun b member => packed.aligned b (fewer.subset member)
  within := fun b member => packed.within b (fewer.subset member)
  apart := packed.apart.sublist fewer

theorem packed_cons : Packed shift low high (b :: rest) ↔
    Aligned shift b ∧ Within shift low high b ∧ (∀ c ∈ rest, Apart shift b c) ∧
      Packed shift low high rest := by
  constructor
  · intro packed
    exact ⟨packed.aligned b (.head _), packed.within b (.head _),
      (List.pairwise_cons.mp packed.apart).1, packed_sublist (List.sublist_cons_self b rest) packed⟩
  rintro ⟨aligned, within, apart, packed⟩
  constructor
  · exact List.forall_mem_cons.mpr ⟨aligned, packed.aligned⟩
  · exact List.forall_mem_cons.mpr ⟨within, packed.within⟩
  · exact List.pairwise_cons.mpr ⟨apart, packed.apart⟩

/-- Two buddies may be replaced by the block they make, and the other way round. -/
theorem packed_merge (aligned : Aligned shift b) : Packed shift low high (parent shift b :: rest) ↔
      Packed shift low high (b :: buddy shift b :: rest) := by
  simp only [packed_cons, within_parent aligned, apart_parent aligned, List.forall_mem_cons]
  constructor
  · rintro ⟨_, ⟨inside, buddyInside⟩, apart, packed⟩
    exact ⟨aligned, inside, ⟨apart_buddy aligned, fun c member => (apart c member).1⟩,
      buddy_aligned aligned, buddyInside, fun c member => (apart c member).2, packed⟩
  · rintro ⟨_, inside, ⟨_, apart⟩, _, buddyInside, buddyApart, packed⟩
    exact ⟨parent_aligned aligned, ⟨inside, buddyInside⟩,
      fun c member => ⟨apart c member, buddyApart c member⟩, packed⟩

/-- Two ways to cut the same memory into blocks: beside any other blocks, one is packed
exactly if the other is. -/
structure Recut (shift : Nat) (blocks others : List Block) : Prop where
  packed : ∀ low high rest, Packed shift low high (blocks ++ rest) ↔
    Packed shift low high (others ++ rest)
  covered : ∀ x, (∃ b ∈ blocks, Covers shift b x) ↔ ∃ b ∈ others, Covers shift b x

theorem recut_perm (perm : blocks.Perm others) : Recut shift blocks others where
  packed := fun _ _ rest =>
    ⟨packed_perm (perm.append_right rest), packed_perm (perm.append_right rest).symm⟩
  covered := fun x => by simp only [perm.mem_iff]

theorem recut_symm (recut : Recut shift blocks others) : Recut shift others blocks where
  packed := fun low high rest => (recut.packed low high rest).symm
  covered := fun x => (recut.covered x).symm

theorem recut_trans (first : Recut shift blocks others) (second : Recut shift others more) :
    Recut shift blocks more where
  packed := fun low high rest => (first.packed low high rest).trans (second.packed low high rest)
  covered := fun x => (first.covered x).trans (second.covered x)

theorem recut_append (recut : Recut shift blocks others) (rest : List Block) :
    Recut shift (blocks ++ rest) (others ++ rest) := by
  constructor
  case packed =>
    intro low high more
    rw [List.append_assoc, List.append_assoc]
    exact recut.packed low high (rest ++ more)
  case covered =>
    intro x
    simp only [List.mem_append, or_and_right, exists_or, recut.covered x]

theorem recut_merge (aligned : Aligned shift b) (list : List Block) :
    Recut shift (b :: buddy shift b :: list) (parent shift b :: list) := by
  constructor
  case packed => exact fun low high rest => (packed_merge aligned).symm
  case covered =>
    intro x
    simp only [List.exists_mem_cons_iff, covers_parent aligned, or_assoc]

theorem recut_halves (aligned : Aligned shift ⟨addr, order + 1⟩) (list : List Block) :
    Recut shift (⟨addr, order + 1⟩ :: list)
      (⟨addr, order⟩ :: ⟨addr + size shift order, order⟩ :: list) := by
  obtain ⟨lower, upper, whole⟩ := halves aligned
  have merged := recut_merge lower list
  rw [upper, whole] at merged
  exact recut_symm merged

def Inside (shift : Nat) (b c : Block) : Prop :=
  b.addr ≤ c.addr ∧ c.addr + size shift c.order ≤ b.addr + size shift b.order

instance (shift : Nat) (b c : Block) : Decidable (Inside shift b c) :=
  inferInstanceAs (Decidable (_ ∧ _))

theorem inside_apart (inside : Inside shift b c) (apart : Apart shift b d) : Apart shift c d := by
  unfold Inside Apart at *
  omega

def carve (shift : Nat) (part : Block) (addr : Nat) : Nat → List Block
  | 0 => []
  | order + 1 =>
    if order + 1 ≤ part.order then []
    else if part.addr < addr + size shift order then
      ⟨addr + size shift order, order⟩ :: carve shift part addr order
    else ⟨addr, order⟩ :: carve shift part (addr + size shift order) order

theorem size_dvd (le : order ≤ upper) : size shift order ∣ size shift upper :=
  Nat.pow_dvd_pow 2 (Nat.add_le_add_left le shift)

/-- A multiple of a number below another one is below it by the whole number. -/
theorem dvd_gap {d : Nat} {n : Nat} (left : d ∣ m) (right : d ∣ n) (below : m < n) : m + d ≤ n := by
  obtain ⟨i, rfl⟩ := left
  obtain ⟨j, rfl⟩ := right
  have less : i < j := Nat.lt_of_mul_lt_mul_left below
  exact Nat.mul_le_mul_left d less

theorem inside_whole (inside : Inside shift b part) (le : b.order ≤ part.order) : part = b := by
  have order : part.order = b.order := by
    by_contra different
    have larger : size shift b.order < size shift part.order :=
      Nat.pow_lt_pow_right (by decide) (by omega)
    unfold Inside at inside
    omega
  have addr : part.addr = b.addr := by
    unfold Inside at inside
    rw [order] at inside
    omega
  obtain ⟨_, _⟩ := part
  simp_all

theorem inside_half (aligned : Aligned shift ⟨addr, order + 1⟩) (partAligned : Aligned shift part)
    (le : part.order ≤ order) (inside : Inside shift ⟨addr, order + 1⟩ part) :
    (part.addr < addr + size shift order → Inside shift ⟨addr, order⟩ part) ∧
      (¬ part.addr < addr + size shift order →
        Inside shift ⟨addr + size shift order, order⟩ part) := by
  obtain ⟨lower, _, _⟩ := halves aligned
  have unit := @size_dvd shift part.order order le
  have start : size shift part.order ∣ addr := unit.trans (Nat.dvd_of_mod_eq_zero lower)
  have middle : size shift part.order ∣ addr + size shift order := (Nat.dvd_add_iff_right start).mp unit
  have double := size_succ shift order
  unfold Inside at inside ⊢
  dsimp only at inside ⊢
  constructor
  · intro below
    exact ⟨inside.1, dvd_gap (Nat.dvd_of_mod_eq_zero partAligned) middle below⟩
  · intro above
    omega

/-- A block is the same memory as a part of it and what is left. -/
theorem recut_carve (aligned : Aligned shift ⟨addr, order⟩) (partAligned : Aligned shift part)
    (inside : Inside shift ⟨addr, order⟩ part) (list : List Block) :
    Recut shift (⟨addr, order⟩ :: list) (part :: carve shift part addr order ++ list) := by
  induction order generalizing addr list with
  | zero =>
    rw [inside_whole inside (Nat.zero_le _)]
    exact recut_perm (List.Perm.refl _)
  | succ order ih =>
    unfold carve
    split
    next le =>
      rw [inside_whole inside le]
      exact recut_perm (List.Perm.refl _)
    next smaller =>
    obtain ⟨lower, upper, _⟩ := halves aligned
    have upperAligned := buddy_aligned lower
    rw [upper] at upperAligned
    have cut := recut_halves aligned list
    obtain ⟨below, above⟩ := inside_half aligned partAligned (by omega) inside
    split
    next left =>
      have rest := ih lower (below left) (⟨addr + size shift order, order⟩ :: list)
      refine recut_trans cut (recut_trans rest (recut_perm ?_))
      exact (List.perm_middle).cons part
    next right =>
      have rest := ih upperAligned (above right) (⟨addr, order⟩ :: list)
      refine recut_trans (recut_trans cut (recut_perm (List.Perm.swap ..))) ?_
      exact recut_trans rest (recut_perm ((List.perm_middle).cons part))

def units (shift addr : Nat) : Nat → List Block
  | 0 => []
  | count + 1 => ⟨addr, 0⟩ :: units shift (addr + 2 ^ shift) count

theorem units_add (shift addr first second : Nat) : units shift addr (first + second) =
      units shift addr first ++ units shift (addr + 2 ^ shift * first) second := by
  induction first generalizing addr with
  | zero => simp [units]
  | succ first ih =>
    rw [Nat.succ_add, units, units, List.cons_append, ih, Nat.mul_succ, Nat.add_assoc,
      Nat.add_comm (2 ^ shift)]

theorem recut_units (aligned : Aligned shift ⟨addr, order⟩) (list : List Block) :
    Recut shift (⟨addr, order⟩ :: list) (units shift addr (2 ^ order) ++ list) := by
  induction order generalizing addr list with
  | zero => exact recut_perm (List.Perm.refl _)
  | succ order ih =>
    obtain ⟨lower, upper, _⟩ := halves aligned
    have upperAligned := buddy_aligned lower
    rw [upper] at upperAligned
    have place : addr + 2 ^ shift * 2 ^ order = addr + size shift order := by
      rw [size, Nat.pow_add]
    rw [Nat.pow_succ, Nat.mul_two, units_add, place, List.append_assoc]
    have first := ih lower (⟨addr + size shift order, order⟩ :: list)
    have second := recut_append (ih upperAligned list) (units shift addr (2 ^ order))
    refine recut_trans (recut_halves aligned list) (recut_trans first ?_)
    refine recut_trans (recut_perm List.perm_append_comm) ?_
    exact recut_trans second (recut_perm List.perm_append_comm)

theorem units_sublist (le : count ≤ total) :
    (units shift addr count).Sublist (units shift addr total) := by
  obtain ⟨more, rfl⟩ := Nat.exists_eq_add_of_le le
  rw [units_add]
  exact List.sublist_append_left ..

end ViperDos.PowerBlocks
