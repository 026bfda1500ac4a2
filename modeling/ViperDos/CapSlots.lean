import ViperDos.CapRevocation

/-!
The slots of a capability table. The free list visits the slots that are not occupied, each
once, and the counter has the number of the others. A capability of the kind that marks a free
slot is the exception: its slot is neither on the list nor occupied.
-/

namespace ViperDos.CapTable

open Transition

def Full (t : Table) : Prop := ∀ i < t.capacity, Live t i

/-- The free list and the counter are exact, and a new capability is refused only by a table
in which every slot is occupied. -/
structure Exact (t : Table) : Prop where
  free : ∃ chain, Linked t.entries t.freeHead chain ∧ chain.Nodup ∧
    ∀ i, i ∈ chain ↔ i.toNat < t.capacity ∧ (t.entries i.toNat).kind = .invalid
  count : t.count.toNat = (List.range t.capacity).countP fun i => Live t i
  insert : ∀ object kind rights, (insert t object kind rights).2 = handleInvalid ↔ Full t
  derive : ∀ h newRights, Resolves t h →
    hasRights (t.entries (handleIndex h).toNat).rights capDerive = true →
      ((derive t h newRights).2 = handleInvalid ↔ Full t)

def Proper (_ : Table) : Call → Prop
  | .insert _ kind _ => kind ≠ .invalid
  | _ => True

structure Tallied (t : Table) (chain : List UInt32) : Prop extends FreeList t chain where
  admissible : AdmissibleCapacity t.capacity
  complete : ∀ i : UInt32, i.toNat < t.capacity → (t.entries i.toNat).kind = .invalid → i ∈ chain
  total : t.count.toNat + chain.length = t.capacity

variable {t : Table} {chain : List UInt32} {kind : Kind}

section

variable (tallied : Tallied t chain)

include tallied

theorem Tallied.valid : WellFormed t :=
  ⟨tallied.admissible, chain, tallied.toFreeList⟩

theorem Tallied.vacant_perm :
    ((List.range t.capacity).filter fun i => ¬ Live t i).Perm (chain.map UInt32.toNat) := by
  have noDup : (chain.map UInt32.toNat).Nodup :=
    tallied.noDup.map fun _ _ same => UInt32.toNat_inj.mp same
  refine (List.perm_ext_iff_of_nodup (List.nodup_range.filter _) noDup).mpr fun i => ?_
  rw [List.mem_filter, List.mem_range, List.mem_map, decide_eq_true_iff]
  constructor
  · rintro ⟨inside, vacant⟩
    have same := toNat_ofNat_slot tallied.admissible inside
    have invalid : (t.entries i).kind = .invalid := not_not.mp fun kind => vacant ⟨inside, kind⟩
    exact ⟨UInt32.ofNat i, tallied.complete _ (by rwa [same]) (by rwa [same]), same⟩
  · rintro ⟨j, member, rfl⟩
    obtain ⟨inside, invalid⟩ := tallied.vacant j member
    exact ⟨inside, fun live => live.2 invalid⟩

theorem Tallied.live_count : t.count.toNat = (List.range t.capacity).countP fun i => Live t i := by
  have all := @List.length_eq_countP_add_countP _ (fun i => decide (Live t i)) (List.range t.capacity)
  have vacant := tallied.vacant_perm.length_eq
  rw [← List.countP_eq_length_filter, List.length_map] at vacant
  have total := tallied.total
  simp only [List.length_range, decide_eq_true_eq] at all
  omega

theorem Tallied.full_iff : t.freeHead = freeEnd ↔ Full t := by
  constructor
  · intro ends i inside
    by_contra vacant
    have member := tallied.vacant_perm.mem_iff.mp
      (List.mem_filter.mpr ⟨List.mem_range.mpr inside, decide_eq_true vacant⟩)
    cases chain with
    | nil => cases member
    | cons head rest =>
      have small := (tallied.vacant head (.head _)).1
      have limit := tallied.admissible.2
      rw [← tallied.linked.1, ends] at small
      exact absurd (small.trans limit) (by decide)
  · intro full
    by_contra room
    obtain ⟨inside, vacant⟩ := head_vacant tallied.valid room
    exact (full _ inside).2 vacant

theorem Tallied.exact_ : Exact t := by
  have taken : ∀ object kind rights parentIndex, t.freeHead ≠ freeEnd →
      (takeSlot t object kind rights parentIndex).2 ≠ handleInvalid := by
    intro object kind rights parentIndex room
    have inside := (head_vacant tallied.valid room).1
    have limit := tallied.admissible.2
    exact makeHandle_ne_invalid _ (by omega)
  constructor
  case free =>
    refine ⟨chain, tallied.linked, tallied.noDup, fun i => ⟨tallied.vacant i, ?_⟩⟩
    exact fun vacant => tallied.complete i vacant.1 vacant.2
  case count => exact tallied.live_count
  case insert =>
    intro object kind rights
    rw [← tallied.full_iff]
    unfold CapTable.insert
    split
    next ends => exact iff_of_true rfl ends
    next room => exact iff_of_false (taken _ _ _ _ room) room
  case derive =>
    intro h newRights resolves granted
    rw [← tallied.full_iff]
    by_cases ends : t.freeHead = freeEnd
    · rw [derive_refused fun derivable => derivable.2.2 ends]
      exact iff_of_true rfl ends
    · rw [derive_taken ⟨resolves, granted, ends⟩]
      exact iff_of_false (taken _ _ _ _ ends) ends

theorem takeSlot_tallied (room : t.freeHead ≠ freeEnd) (object : UInt64) (proper : kind ≠ .invalid)
    (rights parentIndex : UInt32) :
    ∃ rest, Tallied (takeSlot t object kind rights parentIndex).1 rest := by
  cases chain with
  | nil => exact absurd tallied.linked room
  | cons head rest =>
  refine ⟨rest, takeSlot_free tallied.toFreeList object kind rights parentIndex,
    tallied.admissible, ?_, ?_⟩
  · intro i inside invalid
    by_cases same : i.toNat = t.freeHead.toNat
    · rw [same, takeSlot_at] at invalid
      exact absurd invalid proper
    · rw [takeSlot_other same] at invalid
      have member := tallied.complete i inside invalid
      rw [← tallied.linked.1] at member
      exact (List.mem_cons.mp member).resolve_left fun here => same (congrArg _ here)
  · have total := tallied.total
    have limit := tallied.admissible.2
    rw [List.length_cons] at total
    change (t.count.toNat + 1) % 2 ^ 64 + rest.length = t.capacity
    omega

theorem releaseSlot_tallied {index : UInt32} (live : Live t index.toNat) (parentIndex : UInt32) :
    Tallied (releaseSlot t index parentIndex) (index :: chain) := by
  refine ⟨releaseSlot_free tallied.toFreeList live parentIndex, tallied.admissible, ?_, ?_⟩
  · intro i inside invalid
    by_cases same : i = index
    · rw [same]
      exact .head _
    · rw [releaseSlot_other (index_ne same)] at invalid
      exact .tail _ (tallied.complete i inside invalid)
  · -- the slot is occupied, so the counter is not zero
    have some : 0 < (List.range t.capacity).countP fun i => Live t i :=
      List.countP_pos_iff.mpr ⟨_, List.mem_range.mpr live.1, decide_eq_true live⟩
    rw [← tallied.live_count] at some
    have total := tallied.total
    change (t.count - 1).toNat + (chain.length + 1) = t.capacity
    have one : (1 : UInt64) ≤ t.count := UInt64.le_iff_toNat_le.mpr some
    rw [UInt64.toNat_sub_of_le _ _ one]
    change t.count.toNat - 1 + (chain.length + 1) = t.capacity
    omega

end

def Balanced (t : Table) : Prop := ∃ chain, Tallied t chain

variable {capacity : Nat} {call : Call} {after : Table}

theorem init_balanced (admissible : AdmissibleCapacity capacity) : Balanced (init capacity) := by
  refine ⟨_, init_free admissible, admissible, ?_, ?_⟩
  · intro i inside _
    refine List.mem_map.mpr ⟨i.toNat, ?_, UInt32.ofNat_toNat⟩
    rw [List.mem_range'_1]
    exact ⟨Nat.zero_le _, by rwa [Nat.zero_add]⟩
  · rw [List.length_map, List.length_range']
    exact Nat.zero_add _

theorem step_balanced (balanced : Balanced t) (proper : Proper t call) (step : Step t call after) :
    Balanced after := by
  obtain ⟨chain, tallied⟩ := balanced
  cases call with
  | insert object kind rights =>
    cases step
    unfold insert
    split
    · exact ⟨chain, tallied⟩
    next room => exact takeSlot_tallied tallied room object proper rights noParent
  | derive h newRights =>
    cases step
    by_cases derivable : Derivable t h
    · rw [derive_taken derivable]
      exact takeSlot_tallied tallied derivable.2.2 _ derivable.1.2.1.2 _ _
    · rw [derive_refused derivable]
      exact ⟨chain, tallied⟩
  | remove h =>
    cases step
    by_cases removable : Removable t h
    · rw [remove_released removable]
      exact ⟨_, releaseSlot_tallied tallied removable.2 _⟩
    · rw [remove_refused removable]
      exact ⟨chain, tallied⟩
  | revoke h =>
    obtain ⟨n, returned⟩ := step
    rcases revokes_cases tallied.valid returned with ⟨_, rfl, _⟩ | ⟨_, ⟨slots, _, revoked⟩, _⟩
    · exact ⟨chain, tallied⟩
    refine run_invariant ?_ revoked.releases ⟨chain, tallied⟩
    rintro before index later ⟨chain, tallied⟩ ⟨live, rfl⟩
    exact ⟨_, releaseSlot_tallied tallied live noParent⟩

/-- The tables reached by operations that put in no capability of the kind of a free slot are
exact. -/
theorem reached_tables_exact (admissible : AdmissibleCapacity capacity)
    {calls : List Call} (run : Run (Guarded Proper Step) (init capacity) calls t) : Exact t := by
  have kept : ∀ before call later, Balanced before → Guarded Proper Step before call later →
      Balanced later :=
    fun _ _ _ balanced step => step_balanced balanced step.1 step.2
  obtain ⟨chain, tallied⟩ := run_invariant kept run (init_balanced admissible)
  exact tallied.exact_

def filled : Table := (insert (init 2) 7 .file capDerive).1

/-- A table of two slots is full after one capability is put in and another derived from it. -/
theorem full_table_exact : Full (derive filled 0 0).1 ∧ Exact (derive filled 0 0).1 := by
  have run : Run (Guarded Proper Step) (init 2) [.insert 7 .file capDerive, .derive 0 0]
      (derive filled 0 0).1 := .next ⟨Kind.noConfusion, rfl⟩ (.next ⟨trivial, rfl⟩ (.refl _))
  exact ⟨by unfold Full; decide, reached_tables_exact ⟨by decide, by decide⟩ run⟩

/-- A slot that gets a capability of the kind of a free slot is on no list. -/
theorem marked_slot_lost :
    Run Step (init 2) [.insert 7 .invalid 0] (insert (init 2) 7 .invalid 0).1 ∧
      ¬ Exact (insert (init 2) 7 .invalid 0).1 := by
  refine ⟨.next rfl (.refl _), fun exact_ => ?_⟩
  have counted := exact_.count
  revert counted
  decide

end ViperDos.CapTable
