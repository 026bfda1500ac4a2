import ViperDos.Transition
import Mathlib.Algebra.Group.Nat.Defs
import Mathlib.Data.List.Nodup
import Mathlib.Data.List.Range
import Mathlib.Logic.Function.Basic

/-!
The capability table of kernel/cap: handle.hpp, rights.hpp, table.hpp and
table.cpp. Every operation runs under the table's spinlock, so a call is one
step. `entries` is the heap array, read only below `capacity`; while a slot is
free its `object` word holds the index of the next free slot. Pointers are
their 64-bit values. `revoke` recurses without a bound in the source, so the
model takes fuel for the recursion depth and answers `none` when it runs out.
-/

namespace ViperDos.CapTable

open Transition Function

abbrev Handle := UInt32

def handleInvalid : Handle := 0xFFFFFFFF
def indexMask : UInt32 := 0x00FFFFFF
def genShift : UInt32 := 24
def genMask : UInt32 := 0xFF

def handleIndex (h : Handle) : UInt32 := h &&& indexMask

def handleGen (h : Handle) : UInt8 := ((h >>> genShift) &&& genMask).toUInt8

def makeHandle (index : UInt32) (gen : UInt8) : Handle :=
  (index &&& indexMask) ||| (gen.toUInt32 <<< genShift)

abbrev Rights := UInt32

def capDerive : Rights := (1 : UInt32) <<< 6

def hasRights (current : UInt32) (required : Rights) : Bool :=
  (current &&& required) == required

inductive Kind where
  | invalid | string | array | blob
  | channel | poll | timer
  | task | viper
  | file | directory | surface | input
  | sharedMemory | device
  deriving DecidableEq

def noParent : UInt32 := 0xFFFFFFFF

/-- The end marker of the free list, stored in `freeHead` or in a free slot's
`object`. -/
def freeEnd : UInt32 := 0xFFFFFFFF

structure Entry where
  object : UInt64
  rights : UInt32
  parentIndex : UInt32
  kind : Kind
  generation : UInt8
  deriving DecidableEq

structure Table where
  entries : Nat → Entry
  capacity : Nat
  count : UInt64
  freeHead : UInt32

section

variable (t : Table)

def setEntry (index : UInt32) (e : Entry) : Table :=
  { t with entries := update t.entries index.toNat e }

def init (capacity : Nat) : Table where
  entries := fun i =>
    { object := if i < capacity - 1 then UInt64.ofNat (i + 1) else 0xFFFFFFFF
      rights := 0
      parentIndex := noParent
      kind := .invalid
      generation := 0 }
  capacity := capacity
  count := 0
  freeHead := 0

/-- Pop the head of the free list and fill the slot; its generation stays as the
last release left it. `insert` and `derive` share these lines. -/
def takeSlot (object : UInt64) (kind : Kind) (rights parentIndex : UInt32) : Table × Handle :=
  let index := t.freeHead
  let e := t.entries index.toNat
  ({ setEntry t index { e with object, kind, rights, parentIndex } with
      freeHead := e.object.toUInt32
      count := t.count + 1 },
    makeHandle index e.generation)

def insert (object : UInt64) (kind : Kind) (rights : Rights) : Table × Handle :=
  if t.freeHead = freeEnd then (t, handleInvalid)
  else takeSlot t object kind rights noParent

def getUnlocked (h : Handle) : Option Entry :=
  if h = handleInvalid then none
  else if t.capacity ≤ (handleIndex h).toNat then none
  else
    let e := t.entries (handleIndex h).toNat
    if e.kind = .invalid then none
    else if e.generation ≠ handleGen h then none
    else some e

def get (h : Handle) : Option Entry := getUnlocked t h

def getChecked (h : Handle) (expectedKind : Kind) : Option Entry :=
  match getUnlocked t h with
  | none => none
  | some e => if e.kind ≠ expectedKind then none else some e

def getWithRights (h : Handle) (kind : Kind) (required : Rights) : Option Entry :=
  match getUnlocked t h with
  | none => none
  | some e =>
    if e.kind ≠ kind then none
    else if !hasRights e.rights required then none
    else some e

/-- Invalidate a slot and push it on the free list. `remove` keeps the slot's
parent index, `revoke` clears it. -/
def releaseSlot (index : UInt32) (parentIndex : UInt32) : Table :=
  let e := t.entries index.toNat
  { setEntry t index
      { object := t.freeHead.toUInt64
        rights := 0
        parentIndex
        kind := .invalid
        generation := e.generation + 1 } with
    freeHead := index
    count := t.count - 1 }

end

-- No generation check here: the handle's index alone selects the slot.
def remove (t : Table) (h : Handle) : Table :=
  if h = handleInvalid then t
  else if t.capacity ≤ (handleIndex h).toNat then t
  else if (t.entries (handleIndex h).toNat).kind = .invalid then t
  else releaseSlot t (handleIndex h) (t.entries (handleIndex h).toNat).parentIndex

def derive (t : Table) (h : Handle) (newRights : Rights) : Table × Handle :=
  match getUnlocked t h with
  | none => (t, handleInvalid)
  | some e =>
    if !hasRights e.rights capDerive then (t, handleInvalid)
    else if t.freeHead = freeEnd then (t, handleInvalid)
    else takeSlot t e.object e.kind (e.rights &&& newRights) (handleIndex h)

/-- The loop of `revoke_unlocked` over the slots still to be visited, with the
recursive call as a parameter. -/
def revokeChildren (revoke : Table → Handle → Option (Table × UInt32)) (index : UInt32) :
    List Nat → Table → UInt32 → Option (Table × UInt32)
  | [], t, revoked => some (t, revoked)
  | i :: rest, t, revoked =>
    if (t.entries i).kind ≠ .invalid ∧ (t.entries i).parentIndex = index then
      (revoke t (makeHandle (UInt32.ofNat i) (t.entries i).generation)).bind fun result =>
        revokeChildren revoke index rest result.1 (revoked + result.2)
    else revokeChildren revoke index rest t revoked

def revokeUnlocked : Nat → Table → Handle → Option (Table × UInt32)
  | 0, _, _ => none
  | fuel + 1, t, h =>
    if h = handleInvalid then some (t, 0)
    else if t.capacity ≤ (handleIndex h).toNat then some (t, 0)
    else if (t.entries (handleIndex h).toNat).kind = .invalid then some (t, 0)
    else if (t.entries (handleIndex h).toNat).generation ≠ handleGen h then some (t, 0)
    else
      (revokeChildren (revokeUnlocked fuel) (handleIndex h) (List.range t.capacity) t 0).map
        fun result => (releaseSlot result.1 (handleIndex h) noParent, result.2 + 1)

/-- `revoke` returns `n` and leaves the table `after`: some recursion depth is
enough. -/
def Revokes (t : Table) (h : Handle) (after : Table) (n : UInt32) : Prop :=
  ∃ fuel, revokeUnlocked fuel t h = some (after, n)

inductive Call where
  | insert (object : UInt64) (kind : Kind) (rights : Rights)
  | derive (h : Handle) (newRights : Rights)
  | remove (h : Handle)
  | revoke (h : Handle)

/-- One call. A `revoke` that never returns has no successor. -/
def Step (t : Table) : Call → Table → Prop
  | .insert object kind rights, after => after = (insert t object kind rights).1
  | .derive h newRights, after => after = (derive t h newRights).1
  | .remove h, after => after = remove t h
  | .revoke h, after => ∃ n, Revokes t h after n

/-- The capacities for which a slot index fits a handle and no slot's handle is
the invalid one; the kernel itself only uses the default of 256. -/
def AdmissibleCapacity (capacity : Nat) : Prop := 0 < capacity ∧ capacity < 2 ^ 24

def defaultCapacity : Nat := 256

theorem default_admissible : AdmissibleCapacity defaultCapacity := by
  unfold AdmissibleCapacity
  decide

def Live (t : Table) (i : Nat) : Prop := i < t.capacity ∧ (t.entries i).kind ≠ .invalid

instance (t : Table) (i : Nat) : Decidable (Live t i) :=
  inferInstanceAs (Decidable (_ ∧ _))

-- Handles in arithmetic: the low 24 bits are the slot, the high 8 the generation.

theorem handleIndex_toNat (h : Handle) : (handleIndex h).toNat = h.toNat % 2 ^ 24 := by
  exact Nat.and_two_pow_sub_one_eq_mod h.toNat 24

theorem handleGen_toNat (h : Handle) : (handleGen h).toNat = h.toNat / 2 ^ 24 := by
  have shifted : (h >>> genShift).toNat = h.toNat / 2 ^ 24 := by
    rw [UInt32.toNat_shiftRight, Nat.shiftRight_eq_div_pow]
    rfl
  have masked : ((h >>> genShift) &&& genMask).toNat = h.toNat / 2 ^ 24 % 2 ^ 8 := by
    rw [UInt32.toNat_and, shifted]
    exact Nat.and_two_pow_sub_one_eq_mod _ 8
  have bound := h.toNat_lt
  rw [handleGen, UInt32.toNat_toUInt8, masked]
  omega

theorem makeHandle_toNat (index : UInt32) (gen : UInt8) :
    (makeHandle index gen).toNat = 2 ^ 24 * gen.toNat + index.toNat % 2 ^ 24 := by
  have low : (index &&& indexMask).toNat = index.toNat % 2 ^ 24 :=
    handleIndex_toNat index
  have bound := gen.toNat_lt
  have high : (gen.toUInt32 <<< genShift).toNat = 2 ^ 24 * gen.toNat := by
    rw [UInt32.toNat_shiftLeft, UInt8.toNat_toUInt32, Nat.shiftLeft_eq]
    change gen.toNat * 2 ^ 24 % 2 ^ 32 = _
    omega
  rw [makeHandle, UInt32.toNat_or, low, high, Nat.or_comm]
  exact (Nat.two_pow_add_eq_or_of_lt (Nat.mod_lt _ (by decide)) _).symm

variable {index head : UInt32} {chain rest : List UInt32} {changed entries : Nat → Entry}
  {capacity i k n : Nat} {t : Table} {h : Handle}

theorem handleIndex_makeHandle (gen : UInt8) (bound : index.toNat < 2 ^ 24) :
    handleIndex (makeHandle index gen) = index := by
  apply UInt32.toNat_inj.mp
  rw [handleIndex_toNat, makeHandle_toNat]
  omega

theorem handleGen_makeHandle (index : UInt32) (gen : UInt8) :
    handleGen (makeHandle index gen) = gen := by
  apply UInt8.toNat_inj.mp
  rw [handleGen_toNat, makeHandle_toNat]
  omega

theorem makeHandle_ne_invalid (gen : UInt8) (bound : index.toNat < 2 ^ 24 - 1) :
    makeHandle index gen ≠ handleInvalid := by
  intro same
  have indices := congrArg (fun h => (handleIndex h).toNat) same
  simp only [handleIndex_toNat, makeHandle_toNat] at indices
  have top : handleInvalid.toNat % 2 ^ 24 = 2 ^ 24 - 1 := by decide
  omega

/-- The free list read off the `object` words, from `head` to the end marker. -/
def Linked (entries : Nat → Entry) : UInt32 → List UInt32 → Prop
  | head, [] => head = freeEnd
  | head, i :: rest => head = i ∧ Linked entries (entries i.toNat).object.toUInt32 rest

structure FreeList (t : Table) (chain : List UInt32) : Prop where
  linked : Linked t.entries t.freeHead chain
  noDup : chain.Nodup
  vacant : ∀ i ∈ chain, i.toNat < t.capacity ∧ (t.entries i.toNat).kind = .invalid

structure WellFormed (t : Table) : Prop where
  admissible : AdmissibleCapacity t.capacity
  free : ∃ chain, FreeList t chain

theorem linked_congr (same : ∀ i ∈ chain, changed i.toNat = entries i.toNat)
    (linked : Linked entries head chain) : Linked changed head chain := by
  induction chain generalizing head with
  | nil => exact linked
  | cons i rest ih =>
    obtain ⟨atHead, tail⟩ := linked
    refine ⟨atHead, ?_⟩
    rw [same i (.head _)]
    exact ih (fun j member => same j (List.mem_cons_of_mem i member)) tail

theorem index_ne {i : UInt32} {j : UInt32} (different : i ≠ j) : i.toNat ≠ j.toNat :=
  fun same => different (UInt32.toNat_inj.mp same)

theorem toNat_ofNat_slot (admissible : AdmissibleCapacity capacity)
    (bound : i < capacity) : (UInt32.ofNat i).toNat = i := by
  have small := admissible.2
  rw [UInt32.toNat_ofNat']
  omega

theorem head_vacant (valid : WellFormed t) (room : t.freeHead ≠ freeEnd) :
    t.freeHead.toNat < t.capacity ∧ (t.entries t.freeHead.toNat).kind = .invalid := by
  obtain ⟨chain, free⟩ := valid.free
  cases chain with
  | nil => exact absurd free.linked room
  | cons i rest =>
    have atHead : t.freeHead = i := free.linked.1
    rw [atHead]
    exact free.vacant i (.head _)

theorem takeSlot_at (t : Table) (object : UInt64) (kind : Kind) (rights parentIndex : UInt32) :
    (takeSlot t object kind rights parentIndex).1.entries t.freeHead.toNat =
      { t.entries t.freeHead.toNat with object, kind, rights, parentIndex } := by
  simp [takeSlot, setEntry]

theorem takeSlot_other (away : i ≠ t.freeHead.toNat) (object : UInt64)
    (kind : Kind) (rights parentIndex : UInt32) :
    (takeSlot t object kind rights parentIndex).1.entries i = t.entries i :=
  update_of_ne away _ _

theorem releaseSlot_at (t : Table) (index parentIndex : UInt32) :
    (releaseSlot t index parentIndex).entries index.toNat =
      { object := t.freeHead.toUInt64
        rights := 0
        parentIndex
        kind := .invalid
        generation := (t.entries index.toNat).generation + 1 } := by
  simp [releaseSlot, setEntry]

theorem releaseSlot_other (away : i ≠ index.toNat)
    (parentIndex : UInt32) : (releaseSlot t index parentIndex).entries i = t.entries i :=
  update_of_ne away _ _

theorem takeSlot_free (free : FreeList t (head :: rest)) (object : UInt64) (kind : Kind)
    (rights parentIndex : UInt32) :
    FreeList (takeSlot t object kind rights parentIndex).1 rest := by
  have atHead : t.freeHead = head := free.linked.1
  obtain ⟨fresh, restNoDup⟩ := List.nodup_cons.mp free.noDup
  -- the taken slot is not on the rest of the list, so the rest reads as before
  have kept : ∀ j ∈ rest,
      (takeSlot t object kind rights parentIndex).1.entries j.toNat = t.entries j.toNat := by
    intro j member
    have away : j ≠ t.freeHead := by
      rintro rfl
      exact fresh (atHead ▸ member)
    exact takeSlot_other (index_ne away) _ _ _ _
  refine ⟨?_, restNoDup, ?_⟩
  · refine linked_congr kept ?_
    have tail := free.linked.2
    rw [← atHead] at tail
    exact tail
  · intro j member
    rw [kept j member]
    exact free.vacant j (List.mem_cons_of_mem head member)

theorem takeSlot_wellformed (valid : WellFormed t) (room : t.freeHead ≠ freeEnd)
    (object : UInt64) (kind : Kind) (rights parentIndex : UInt32) :
    WellFormed (takeSlot t object kind rights parentIndex).1 := by
  obtain ⟨chain, free⟩ := valid.free
  refine ⟨valid.admissible, ?_⟩
  cases chain with
  | nil => exact absurd free.linked room
  | cons head rest => exact ⟨rest, takeSlot_free free object kind rights parentIndex⟩

theorem releaseSlot_free (free : FreeList t chain) (live : Live t index.toNat)
    (parentIndex : UInt32) : FreeList (releaseSlot t index parentIndex) (index :: chain) := by
  have fresh : index ∉ chain := fun member => live.2 (free.vacant index member).2
  have kept : ∀ j ∈ chain,
      (releaseSlot t index parentIndex).entries j.toNat = t.entries j.toNat := by
    intro j member
    have away : j ≠ index := by
      rintro rfl
      exact fresh member
    exact releaseSlot_other (index_ne away) _
  refine ⟨⟨rfl, ?_⟩, List.nodup_cons.mpr ⟨fresh, free.noDup⟩, ?_⟩
  · rw [releaseSlot_at, UInt32.toUInt32_toUInt64]
    exact linked_congr kept free.linked
  intro j member
  rcases List.mem_cons.mp member with same | old
  · subst j
    exact ⟨live.1, by rw [releaseSlot_at]⟩
  · rw [kept j old]
    exact free.vacant j old

theorem releaseSlot_wellformed (valid : WellFormed t) (live : Live t index.toNat)
    (parentIndex : UInt32) : WellFormed (releaseSlot t index parentIndex) := by
  obtain ⟨chain, free⟩ := valid.free
  exact ⟨valid.admissible, index :: chain, releaseSlot_free free live parentIndex⟩

theorem init_linked (admissible : AdmissibleCapacity capacity) (total : k + (n + 1) = capacity) :
    Linked (init capacity).entries (UInt32.ofNat k)
      ((List.range' k (n + 1)).map UInt32.ofNat) := by
  induction n generalizing k with
  | zero =>
    refine ⟨rfl, ?_⟩
    have index := toNat_ofNat_slot admissible (show k < capacity by omega)
    have last : ¬ k < capacity - 1 := by omega
    simp only [init, index, last, if_false, List.range'_zero, List.map_nil]
    rfl
  | succ n ih =>
    refine ⟨rfl, ?_⟩
    have index := toNat_ofNat_slot admissible (show k < capacity by omega)
    have inner : k < capacity - 1 := by omega
    have next : (UInt64.ofNat (k + 1)).toUInt32 = UInt32.ofNat (k + 1) := by
      apply UInt32.toNat_inj.mp
      rw [UInt64.toNat_toUInt32, UInt64.toNat_ofNat', UInt32.toNat_ofNat']
      omega
    simp only [init, index, inner, if_true, next]
    exact ih (by omega)

theorem init_free (admissible : AdmissibleCapacity capacity) :
    FreeList (init capacity) ((List.range' 0 capacity).map UInt32.ofNat) := by
  refine ⟨?_, ?_, ?_⟩
  · obtain ⟨n, rfl⟩ : ∃ n, capacity = n + 1 := ⟨capacity - 1, by have := admissible.1; omega⟩
    exact init_linked (k := 0) admissible (Nat.zero_add _)
  · refine List.Nodup.map_on ?_ List.nodup_range'
    intro i iMember j jMember same
    have bound := admissible.2
    simp only [List.mem_range'_1] at iMember jMember
    have indices := congrArg UInt32.toNat same
    rw [UInt32.toNat_ofNat', UInt32.toNat_ofNat'] at indices
    omega
  · intro i member
    obtain ⟨k, inRange, rfl⟩ := List.mem_map.mp member
    have bound : k < capacity := by simpa using inRange
    refine ⟨?_, rfl⟩
    rwa [toNat_ofNat_slot admissible bound]

theorem init_wellformed (admissible : AdmissibleCapacity capacity) :
    WellFormed (init capacity) :=
  ⟨admissible, _, init_free admissible⟩

/-- The handle names a live entry: the four checks of `get_unlocked`. -/
def Resolves (t : Table) (h : Handle) : Prop :=
  h ≠ handleInvalid ∧ Live t (handleIndex h).toNat ∧
    (t.entries (handleIndex h).toNat).generation = handleGen h

theorem getUnlocked_resolves (resolves : Resolves t h) :
    getUnlocked t h = some (t.entries (handleIndex h).toNat) := by
  obtain ⟨valid, ⟨bound, live⟩, current⟩ := resolves
  simp [getUnlocked, valid, Nat.not_le.mpr bound, live, current]

theorem getUnlocked_stale (stale : ¬ Resolves t h) : getUnlocked t h = none := by
  unfold getUnlocked
  grind [Resolves, Live]

theorem slot_resolves (admissible : AdmissibleCapacity t.capacity) (live : Live t i) :
    Resolves t (makeHandle (UInt32.ofNat i) (t.entries i).generation) ∧
      handleIndex (makeHandle (UInt32.ofNat i) (t.entries i).generation) = UInt32.ofNat i := by
  have limit := admissible.2
  have bound := live.1
  have same := toNat_ofNat_slot admissible bound
  have small : (UInt32.ofNat i).toNat < 2 ^ 24 := by omega
  have index := handleIndex_makeHandle (t.entries i).generation small
  refine ⟨⟨makeHandle_ne_invalid _ (by omega), ?_, ?_⟩, index⟩
  · rw [index, same]
    exact live
  · rw [index, same, handleGen_makeHandle]

/-- A `derive` that passes its checks; all others return the invalid handle. -/
def Derivable (t : Table) (h : Handle) : Prop :=
  Resolves t h ∧ hasRights (t.entries (handleIndex h).toNat).rights capDerive = true ∧
    t.freeHead ≠ freeEnd

theorem derive_taken (derivable : Derivable t h) (newRights : Rights) :
    derive t h newRights =
      takeSlot t (t.entries (handleIndex h).toNat).object (t.entries (handleIndex h).toNat).kind
        ((t.entries (handleIndex h).toNat).rights &&& newRights) (handleIndex h) := by
  obtain ⟨resolves, granted, room⟩ := derivable
  simp [derive, getUnlocked_resolves resolves, granted, room]

theorem derive_refused (refused : ¬ Derivable t h)
    (newRights : Rights) : derive t h newRights = (t, handleInvalid) := by
  by_cases resolves : Resolves t h
  · simp only [derive, getUnlocked_resolves resolves]
    by_cases granted : hasRights (t.entries (handleIndex h).toNat).rights capDerive = true
    · have full : t.freeHead = freeEnd := by
        by_contra room
        exact refused ⟨resolves, granted, room⟩
      simp [full]
    · simp [granted]
  · simp [derive, getUnlocked_stale resolves]

/-- `remove` looks only at the slot, so this says less than `Resolves`. -/
def Removable (t : Table) (h : Handle) : Prop :=
  h ≠ handleInvalid ∧ Live t (handleIndex h).toNat

theorem remove_released (removable : Removable t h) :
    remove t h =
      releaseSlot t (handleIndex h) (t.entries (handleIndex h).toNat).parentIndex := by
  obtain ⟨valid, bound, live⟩ := removable
  simp [remove, valid, Nat.not_le.mpr bound, live]

theorem remove_refused (refused : ¬ Removable t h) : remove t h = t := by
  unfold remove
  grind [Removable, Live]

theorem takeSlot_live (valid : WellFormed t) (room : t.freeHead ≠ freeEnd)
    (object : UInt64) (kind : Kind) (rights parentIndex : UInt32) (i : Nat) :
    Live (takeSlot t object kind rights parentIndex).1 i ↔
      Live t i ∨ (i = t.freeHead.toNat ∧ kind ≠ .invalid) := by
  obtain ⟨bound, vacant⟩ := head_vacant valid room
  by_cases same : i = t.freeHead.toNat
  · subst i
    simp only [Live, takeSlot_at, vacant, ne_eq, not_true_eq_false, and_false, true_and,
      false_or]
    exact and_iff_right bound
  · simp only [Live, takeSlot_other same, same, false_and, or_false]
    exact Iff.rfl

theorem releaseSlot_live (t : Table) (index parentIndex : UInt32) (i : Nat) :
    Live (releaseSlot t index parentIndex) i ↔ Live t i ∧ i ≠ index.toNat := by
  by_cases same : i = index.toNat
  · subst i
    simp [Live, releaseSlot_at]
  · simp only [Live, releaseSlot_other same, same, ne_eq, not_false_eq_true, and_true]
    exact Iff.rfl

end ViperDos.CapTable
