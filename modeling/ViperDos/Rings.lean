import Mathlib.Logic.Function.Basic
import Mathlib.Algebra.Group.Nat.Defs
import Mathlib.Data.List.Basic
import Mathlib.Data.Nat.ModEq

/-!
Ring buffers. Items stand at `slots` positions; a writer and a reader go round
them, and `count` says how many positions, from the reader's on, are occupied. The
lemmas say what pushing and popping do to the set of occupied positions, so a
position is a name for an item for as long as the item is in the buffer, and what
they do to the list of items from the reader's on: a ring is a queue.
-/

namespace ViperDos.Rings

open Function

structure Ring (Item : Type) where
  buffer : Nat → Item
  readIdx : Nat
  writeIdx : Nat
  count : Nat

variable {Item : Type} {position slots offset : Nat}

namespace Ring

def front (ring : Ring Item) : Item := ring.buffer ring.readIdx

section

variable (slots : Nat) (ring : Ring Item)

def push (item : Item) : Ring Item :=
  { ring with
    buffer := update ring.buffer ring.writeIdx item
    writeIdx := (ring.writeIdx + 1) % slots
    count := ring.count + 1 }

def pop : Ring Item :=
  { ring with
    readIdx := (ring.readIdx + 1) % slots
    count := ring.count - 1 }

def distance (position : Nat) : Nat :=
  if ring.readIdx ≤ position then position - ring.readIdx
  else position + slots - ring.readIdx

def Occupied (position : Nat) : Prop :=
  position < slots ∧ ring.distance slots position < ring.count

instance (slots : Nat) (ring : Ring Item) (position : Nat) :
    Decidable (ring.Occupied slots position) :=
  inferInstanceAs (Decidable (_ ∧ _))

structure Sound : Prop where
  reader : ring.readIdx < slots
  writer : ring.writeIdx = (ring.readIdx + ring.count) % slots
  bounded : ring.count ≤ slots

end

theorem next_position (inside : position < slots) :
    (position + 1) % slots = if position + 1 = slots then 0 else position + 1 := by
  split
  next last => rw [last, Nat.mod_self]
  · exact Nat.mod_eq_of_lt (by omega)

variable {ring : Ring Item}

section

variable (sound : ring.Sound slots) (room : ring.count < slots)

include sound room

theorem writer_position : ring.writeIdx =
      if ring.readIdx + ring.count < slots then ring.readIdx + ring.count
      else ring.readIdx + ring.count - slots := by
  have reader := sound.reader
  rw [sound.writer]
  split
  next inside => exact Nat.mod_eq_of_lt inside
  next beyond =>
    rw [Nat.mod_eq_sub_mod (by omega)]
    exact Nat.mod_eq_of_lt (by omega)

theorem writer_vacant : ¬ ring.Occupied slots ring.writeIdx := by
  rintro ⟨_, near⟩
  rw [writer_position sound room] at near
  unfold distance at near
  split at near <;> split at near <;> omega

theorem push_occupied (item : Item) (position : Nat) :
    (ring.push slots item).Occupied slots position ↔
      ring.Occupied slots position ∨ position = ring.writeIdx := by
  have reader := sound.reader
  rw [writer_position sound room]
  simp only [Occupied, distance, push]
  by_cases behind : ring.readIdx ≤ position <;>
    by_cases inside : ring.readIdx + ring.count < slots <;>
    simp only [behind, inside, if_true, if_false] <;> omega

theorem push_sound (item : Item) : (ring.push slots item).Sound slots := by
  constructor
  case reader => exact sound.reader
  case writer =>
    change (ring.writeIdx + 1) % slots = (ring.readIdx + (ring.count + 1)) % slots
    rw [sound.writer, Nat.mod_add_mod, Nat.add_assoc]
  case bounded => exact room

end

section

variable (sound : ring.Sound slots) (filled : 0 < ring.count)

include sound filled

theorem front_occupied : ring.Occupied slots ring.readIdx := by
  refine ⟨sound.reader, ?_⟩
  simp only [distance, Nat.le_refl, if_true]
  omega

theorem pop_occupied (position : Nat) :
    (ring.pop slots).Occupied slots position ↔
      ring.Occupied slots position ∧ position ≠ ring.readIdx := by
  have reader := sound.reader
  have bounded := sound.bounded
  simp only [Occupied, distance, pop, next_position reader]
  by_cases last : ring.readIdx + 1 = slots <;>
    by_cases behind : ring.readIdx ≤ position <;>
    by_cases after : ring.readIdx + 1 ≤ position <;>
    simp only [last, behind, after, Nat.zero_le, if_true, if_false] <;> omega

theorem pop_sound : (ring.pop slots).Sound slots := by
  have bounded := sound.bounded
  constructor
  case reader => exact Nat.mod_lt _ (by omega)
  case writer =>
    change ring.writeIdx = ((ring.readIdx + 1) % slots + (ring.count - 1)) % slots
    rw [sound.writer, Nat.mod_add_mod]
    congr 1
    omega
  case bounded =>
    change ring.count - 1 ≤ slots
    omega

end

def contents (slots : Nat) (ring : Ring Item) : List Item :=
  (List.range ring.count).map fun offset => ring.buffer ((ring.readIdx + offset) % slots)

theorem contents_length (slots : Nat) (ring : Ring Item) :
    (ring.contents slots).length = ring.count := by
  simp only [contents, List.length_map, List.length_range]

theorem read_not_writer (sound : ring.Sound slots) (room : ring.count < slots)
    (before : offset < ring.count) : (ring.readIdx + offset) % slots ≠ ring.writeIdx := by
  rw [sound.writer]
  intro same
  have apart : Nat.ModEq slots offset ring.count :=
    Nat.ModEq.add_left_cancel' ring.readIdx same
  exact absurd (Nat.ModEq.eq_of_lt_of_lt apart (before.trans room) room) before.ne

theorem push_contents (sound : ring.Sound slots) (room : ring.count < slots) (item : Item) :
    (ring.push slots item).contents slots = ring.contents slots ++ [item] := by
  simp only [contents, push, List.range_succ, List.map_append, List.map_cons, List.map_nil]
  rw [← sound.writer, update_self]
  congr 1
  apply List.map_congr_left
  intro offset member
  exact update_of_ne (read_not_writer sound room (List.mem_range.mp member)) _ _

theorem pop_contents (sound : ring.Sound slots) (filled : 0 < ring.count) :
    ring.contents slots = ring.front :: (ring.pop slots).contents slots := by
  obtain ⟨rest, counted⟩ : ∃ rest, ring.count = rest + 1 := ⟨ring.count - 1, by omega⟩
  simp only [contents, pop, counted, List.range_succ_eq_map, List.map_cons, List.map_map,
    Nat.add_zero, Nat.mod_eq_of_lt sound.reader, Nat.add_sub_cancel, front]
  congr 1
  apply List.map_congr_left
  intro offset _
  simp only [comp_apply, Nat.mod_add_mod]
  rw [Nat.succ_eq_add_one, Nat.add_assoc, Nat.add_comm 1]

end Ring

end ViperDos.Rings
