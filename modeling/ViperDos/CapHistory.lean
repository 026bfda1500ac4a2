import ViperDos.CapRevocation

/-!
The capability table with its history made explicit. Every successful `insert`
or `derive` creates a capability with a number of its own; the history remembers
which capability occupies a slot, from which one it was derived, and how often a
slot has been handed out. The table itself only keeps a slot index for the
parent. None of this bookkeeping restricts the calls.
-/

namespace ViperDos.CapTable

open Transition Forest Function

structure History where
  table : Table
  owner : Nat → Nat
  origin : Nat → Option Nat
  next : Nat
  taken : Nat → Nat

def start (capacity : Nat) : History where
  table := init capacity
  owner := fun _ => 0
  origin := fun _ => none
  next := 0
  taken := fun _ => 0

/-- Record the outcome of an allocating call: a returned handle means that the
head of the free list now holds a new capability. -/
def record (s : History) (result : Table × Handle) (source : Option Nat) : History :=
  if result.2 = handleInvalid then { s with table := result.1 } else
    { table := result.1
      owner := update s.owner s.table.freeHead.toNat s.next
      origin := update s.origin s.next source
      next := s.next + 1
      taken := update s.taken s.table.freeHead.toNat
        (s.taken s.table.freeHead.toNat + 1) }

def Recorded (s : History) : Call → History → Prop
  | .insert object kind rights, after => after = record s (insert s.table object kind rights) none
  | .derive h newRights, after =>
    after = record s (derive s.table h newRights) (some (s.owner (handleIndex h).toNat))
  | .remove h, after => after = { s with table := remove s.table h }
  | .revoke h, after => ∃ table n, Revokes s.table h table n ∧ after = { s with table }

theorem record_table (s : History) (result : Table × Handle) (source : Option Nat) :
    (record s result source).table = result.1 := by
  unfold record
  split <;> rfl

variable {s after : History} {call : Call}

theorem recorded_step (recorded : Recorded s call after) : Step s.table call after.table := by
  cases call with
  | insert object kind rights =>
    cases recorded
    exact record_table s _ _
  | derive h newRights =>
    cases recorded
    exact record_table s _ _
  | remove h =>
    cases recorded
    rfl
  | revoke h =>
    rcases recorded with ⟨table, n, returned, rfl⟩
    exact ⟨n, returned⟩

def occupy (s : History) (object : UInt64) (kind : Kind) (rights parentIndex : UInt32)
    (source : Option Nat) : History where
  table := (takeSlot s.table object kind rights parentIndex).1
  owner := update s.owner s.table.freeHead.toNat s.next
  origin := update s.origin s.next source
  next := s.next + 1
  taken := update s.taken s.table.freeHead.toNat (s.taken s.table.freeHead.toNat + 1)

theorem record_taken (valid : WellFormed s.table) (room : s.table.freeHead ≠ freeEnd)
    (object : UInt64) (kind : Kind) (rights parentIndex : UInt32) (source : Option Nat) :
    record s (takeSlot s.table object kind rights parentIndex) source =
      occupy s object kind rights parentIndex source := by
  have bound := (head_vacant valid room).1
  have limit := valid.admissible.2
  have small : s.table.freeHead.toNat < 2 ^ 24 - 1 := by omega
  have returned : (takeSlot s.table object kind rights parentIndex).2 ≠ handleInvalid :=
    makeHandle_ne_invalid _ small
  unfold record
  rw [if_neg returned]
  rfl

/-- What one call can do to a history: nothing, fill the free slot at the head
with a root or with a derived capability, release one slot, or revoke. -/
theorem recorded_cases (valid : WellFormed s.table) (recorded : Recorded s call after) : after = s ∨
      (∃ object kind rights, call = .insert object kind rights ∧
        s.table.freeHead ≠ freeEnd ∧ after = occupy s object kind rights noParent none) ∨
      (∃ h newRights, call = .derive h newRights ∧ Derivable s.table h ∧
        after = occupy s (s.table.entries (handleIndex h).toNat).object
          (s.table.entries (handleIndex h).toNat).kind
          ((s.table.entries (handleIndex h).toNat).rights &&& newRights) (handleIndex h)
          (some (s.owner (handleIndex h).toNat))) ∨
      (∃ h, call = .remove h ∧ Removable s.table h ∧ after = { s with
          table := releaseSlot s.table (handleIndex h)
            (s.table.entries (handleIndex h).toNat).parentIndex }) ∨
      (∃ h table n, call = .revoke h ∧ Revokes s.table h table n ∧ after = { s with table }) := by
  cases call with
  | insert object kind rights =>
    cases recorded
    by_cases full : s.table.freeHead = freeEnd
    · left
      simp [insert, full, record]
    · right; left
      refine ⟨object, kind, rights, rfl, full, ?_⟩
      rw [insert, if_neg full]
      exact record_taken valid full _ _ _ _ _
  | derive h newRights =>
    cases recorded
    by_cases derivable : Derivable s.table h
    · right; right; left
      refine ⟨h, newRights, rfl, derivable, ?_⟩
      rw [derive_taken derivable]
      exact record_taken valid derivable.2.2 _ _ _ _ _
    · left
      rw [derive_refused derivable]
      simp [record]
  | remove h =>
    cases recorded
    by_cases removable : Removable s.table h
    · right; right; right; left
      refine ⟨h, rfl, removable, ?_⟩
      rw [remove_released removable]
    · left
      rw [remove_refused removable]
  | revoke h =>
    rcases recorded with ⟨table, n, returned, same⟩
    right; right; right; right
    exact ⟨h, table, n, rfl, returned, same⟩

end ViperDos.CapTable
