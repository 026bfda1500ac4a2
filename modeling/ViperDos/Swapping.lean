import ViperDos.Bits
import ViperDos.PageTables
import ViperDos.Transition

/-!
The swap space, kernel/mm/swap.cpp: a free slot is searched from a hint on and around, and the
entry for the page table names the slot. A page that went out comes back as it was as long as
its slot is not given up, whatever else goes out, comes back or is given up meanwhile.
-/

namespace ViperDos.Memory

open Transition Function

structure SwapSpace where
  phys : Physical
  usedSlots : Nat
  nextFreeHint : Nat

namespace SwapSpace

def swapSectorStart : Nat := 8192
def sectorsPerPage : Nat := 8

section

variable (s : SwapSpace)

/-- The capacity is that of the user disk, if there is one. -/
def init (capacity : Option Nat) : Bool × SwapSpace :=
  if s.phys.swap.available then (true, s)
  else
    match capacity with
    | none => (false, s)
    | some sectors =>
      if sectors < swapSectorStart + swapSlots * sectorsPerPage then (false, s)
      else (true, ⟨{ s.phys with swap := ⟨true, fun _ => false, s.phys.swap.disk⟩ }, 0, 0⟩)

def setUsed (slot : Nat) (used : Bool) : Physical :=
  { s.phys with swap.used := update s.phys.swap.used slot used }

def allocSlot : Option Nat × SwapSpace :=
  if swapSlots ≤ s.usedSlots then (none, s)
  else
    let slots := (List.range swapSlots).map fun i => (s.nextFreeHint + i) % swapSlots
    match slots.find? fun slot => !s.phys.swap.used slot with
    | none => (none, s)
    | some slot => (some slot, ⟨s.setUsed slot true, s.usedSlots + 1, (slot + 1) % swapSlots⟩)

def freeSlotInternal (slot : Nat) : SwapSpace :=
  if swapSlots ≤ slot then s
  else if s.phys.swap.used slot then
    ⟨s.setUsed slot false, s.usedSlots - 1,
      if slot < s.nextFreeHint then slot else s.nextFreeHint⟩
  else s

def makeSwapEntry (slot : Nat) : UInt64 := (2 : UInt64) ||| UInt64.ofNat slot <<< 12

def swapOut (physAddr : UInt64) (deviceOk : Bool) : UInt64 × SwapSpace :=
  if !s.phys.swap.available then (0, s)
  else
    match s.allocSlot with
    | (none, s) => (0, s)
    | (some slot, s) =>
      if !deviceOk then (0, s.freeSlotInternal slot)
      else
        (makeSwapEntry slot,
          { s with phys.swap.disk := update s.phys.swap.disk slot (s.phys.frames physAddr) })

def swapIn (s : SwapSpace) (entry dest : UInt64) (deviceOk : Bool) : Bool × SwapSpace :=
  match Memory.swapIn s.phys entry dest deviceOk with
  | (false, phys) => (false, { s with phys })
  | (true, phys) => (true, { s.freeSlotInternal (getSwapSlot entry) with phys })

def freeSlot (entry : UInt64) : SwapSpace :=
  if !s.phys.swap.available then s
  else if !isSwapEntry entry then s
  else if swapSlots ≤ getSwapSlot entry then s
  else s.freeSlotInternal (getSwapSlot entry)

end

end SwapSpace

/-- The swap space with the entries that were handed out and not given up since, and what the
page of each held when it went out. -/
structure Swapped where
  space : SwapSpace
  held : List (UInt64 × Frame)

/-- Between two operations the pages may change at will. -/
inductive SwapOp where
  | out (physAddr : UInt64)
  | back (entry dest : UInt64)
  | free (entry : UInt64)
  | store (page : UInt64) (frame : Frame)

def names (entry : UInt64) (slot : Nat) : Bool := isSwapEntry entry && getSwapSlot entry = slot

def Swapped.giveUp (s : Swapped) (entry : UInt64) (space : SwapSpace) : Swapped :=
  ⟨space, s.held.filter fun page => !names entry (getSwapSlot page.1)⟩

/-- The device does not fail. A page that comes back gives its slot up. -/
def Swapped.perform (s : Swapped) : SwapOp → Swapped
  | .out physAddr =>
    let (entry, space) := s.space.swapOut physAddr true
    ⟨space, if entry = 0 then s.held else (entry, s.space.phys.frames physAddr) :: s.held⟩
  | .back entry dest => s.giveUp entry (s.space.swapIn entry dest true).2
  | .free entry => s.giveUp entry (s.space.freeSlot entry)
  | .store page frame => { s with space.phys := setFrame s.space.phys page frame }

def Swapped.Step (s : Swapped) (op : SwapOp) (after : Swapped) : Prop := after = s.perform op

def Swapped.boot (phys : Physical) (capacity : Option Nat) : Swapped :=
  ⟨(SwapSpace.init ⟨{ phys with swap.available := false }, 0, 0⟩ capacity).2, []⟩

structure Stored (swap : Swap) (page : UInt64 × Frame) : Prop where
  available : swap.available = true
  entry : isSwapEntry page.1 = true
  inside : getSwapSlot page.1 < swapSlots
  taken : swap.used (getSwapSlot page.1) = true
  same : swap.disk (getSwapSlot page.1) = page.2

structure Intact (s : Swapped) : Prop where
  distinct : s.held.Pairwise fun one other => getSwapSlot one.1 ≠ getSwapSlot other.1
  stored : ∀ page ∈ s.held, Stored s.space.phys.swap page

structure Spares (entry : UInt64) (before after : Swap) : Prop where
  available : after.available = before.available
  disk : after.disk = before.disk
  used : ∀ slot, names entry slot = false → after.used slot = before.used slot

variable {slot : Nat} {entry : UInt64}

section

theorem makeSwapEntry_slot (inside : slot < swapSlots) :
    isSwapEntry (SwapSpace.makeSwapEntry slot) = true ∧
      getSwapSlot (SwapSpace.makeSwapEntry slot) = slot := by
  have small : slot < 1024 := inside
  have word : (SwapSpace.makeSwapEntry slot).toNat = 2 ^ 12 * slot + 2 := by
    have shifted : (UInt64.ofNat slot <<< 12).toNat = 2 ^ 12 * slot := by
      rw [UInt64.toNat_shiftLeft, UInt64.toNat_ofNat', Nat.shiftLeft_eq]
      simp only [UInt64.reduceToNat, Nat.reduceMod]
      omega
    rw [SwapSpace.makeSwapEntry, UInt64.toNat_or, shifted, Nat.or_comm]
    exact (Nat.two_pow_add_eq_or_of_lt (by decide) slot).symm
  have present := @Bits.and_toNat 1 0 1 (SwapSpace.makeSwapEntry slot) rfl
  have flag := @Bits.and_toNat 1 1 2 (SwapSpace.makeSwapEntry slot) rfl
  have field := @Bits.and_toNat 52 12 0xFFFFFFFFFFFFF000 (SwapSpace.makeSwapEntry slot) (by decide)
  constructor
  · unfold isSwapEntry
    rw [Bool.and_eq_true_iff, decide_eq_true_eq, decide_eq_true_eq, ← UInt64.toNat_inj, Ne,
      ← UInt64.toNat_inj, present, flag, UInt64.toNat_zero]
    omega
  · rw [getSwapSlot, UInt64.toNat_shiftRight, field, Nat.shiftRight_eq_div_pow]
    simp only [UInt64.reduceToNat, Nat.reduceMod]
    omega

variable (s : SwapSpace)

theorem allocSlot_cases : s.allocSlot = (none, s) ∨ ∃ slot usedSlots hint, slot < swapSlots ∧
    s.phys.swap.used slot = false ∧
      s.allocSlot = (some slot, ⟨s.setUsed slot true, usedSlots, hint⟩) := by
  unfold SwapSpace.allocSlot
  split
  · exact .inl rfl
  dsimp only
  split
  · exact .inl rfl
  next slot free =>
    refine .inr ⟨slot, _, _, ?_, by simpa using List.find?_some free, rfl⟩
    obtain ⟨i, _, rfl⟩ := List.mem_map.mp (List.mem_of_find?_eq_some free)
    exact Nat.mod_lt _ (by decide)

theorem spares_refl (entry : UInt64) (swap : Swap) : Spares entry swap swap :=
  ⟨rfl, rfl, fun _ _ => rfl⟩

theorem spares_update (swap : Swap) (named : isSwapEntry entry = true) : Spares entry swap
    { swap with used := update swap.used (getSwapSlot entry) false } :=
  ⟨rfl, rfl, fun slot other => update_of_ne (fun same => by simp [names, named, same] at other) ..⟩

theorem swapIn_spares (dest : UInt64) :
    Spares entry s.phys.swap (s.swapIn entry dest true).2.phys.swap := by
  have phys : (s.swapIn entry dest true).2.phys = (swapIn s.phys entry dest true).2 := by
    unfold SwapSpace.swapIn
    split <;> next result => rw [result]
  rw [phys]
  unfold swapIn
  dsimp only
  split
  · exact spares_refl ..
  split
  · exact spares_refl ..
  next named =>
  split
  · exact spares_refl ..
  split
  · exact spares_refl ..
  · exact spares_update _ (by simpa using named)

theorem freeSlot_spares : Spares entry s.phys.swap (s.freeSlot entry).phys.swap := by
  unfold SwapSpace.freeSlot SwapSpace.freeSlotInternal
  split
  · exact spares_refl ..
  split
  · exact spares_refl ..
  next named =>
  split
  · exact spares_refl ..
  split
  · exact spares_update _ (by simpa using named)
  · exact spares_refl ..

end

variable {s after : Swapped} {space : SwapSpace} {op : SwapOp}

section

variable (intact : Intact s)

include intact

theorem giveUp_intact (spares : Spares entry s.space.phys.swap space.phys.swap) :
    Intact (s.giveUp entry space) := by
  refine ⟨intact.distinct.filter _, fun page member => ?_⟩
  obtain ⟨inside, other⟩ := List.mem_filter.mp member
  have before := intact.stored page inside
  refine ⟨spares.available.trans before.available, before.entry, before.inside, ?_, ?_⟩
  · exact (spares.used _ (by simpa using other)).trans before.taken
  · exact (congrFun spares.disk _).trans before.same

/-- The slot of a page that goes out was free, so no page is in it. -/
theorem out_intact (physAddr : UInt64) : Intact (s.perform (.out physAddr)) := by
  unfold Swapped.perform SwapSpace.swapOut
  dsimp only
  split
  · exact intact
  next available =>
  rcases allocSlot_cases s.space with none | ⟨slot, count, hint, inside, free, found⟩
  · rw [none]
    exact intact
  obtain ⟨named, same⟩ := makeSwapEntry_slot inside
  have some : SwapSpace.makeSwapEntry slot ≠ 0 := by
    intro zero
    rw [zero] at named
    cases named
  have apart : ∀ page ∈ s.held, getSwapSlot page.1 ≠ slot := by
    intro page member here
    have taken := (intact.stored page member).taken
    rw [here, free] at taken
    cases taken
  simp only [found, Bool.not_true, Bool.false_eq_true, if_false, some]
  constructor
  · refine .cons (fun page member => ?_) intact.distinct
    rw [same]
    exact (apart page member).symm
  · rintro page (_ | ⟨_, member⟩)
    · have available : s.space.phys.swap.available = true := by simpa using available
      refine ⟨available, named, by rwa [same], ?_, ?_⟩
      all_goals
        rw [same]
        exact update_self ..
    · have before := intact.stored page member
      have other := apart page member
      exact ⟨before.available, before.entry, before.inside,
        (update_of_ne other ..).trans before.taken, (update_of_ne other ..).trans before.same⟩

theorem step_intact (step : Swapped.Step s op after) : Intact after := by
  cases step
  cases op with
  | out physAddr => exact out_intact intact physAddr
  | back entry dest => exact giveUp_intact intact (swapIn_spares ..)
  | free entry => exact giveUp_intact intact (freeSlot_spares _)
  | store page frame => exact ⟨intact.distinct, intact.stored⟩

end

/-- However pages go out and come back and slots are given up, the pages that are out have
slots of their own, and each comes back as it was. -/
theorem swap_lossless {phys : Physical} {capacity : Option Nat} {ops : List SwapOp}
    {last : Swapped} (run : Run Swapped.Step (Swapped.boot phys capacity) ops last) :
    last.held.Pairwise (fun one other => getSwapSlot one.1 ≠ getSwapSlot other.1) ∧
      ∀ entry frame, (entry, frame) ∈ last.held → ∀ dest,
        (last.space.swapIn entry dest true).1 = true ∧
          (last.space.swapIn entry dest true).2.phys.frames dest = frame := by
  have intact : Intact last :=
    @run_invariant _ _ _ Intact (fun _ _ _ before step => step_intact before step) _ _ _ run
      ⟨.nil, fun _ member => by cases member⟩
  refine ⟨intact.distinct, fun entry frame member dest => ?_⟩
  obtain ⟨available, named, inside, taken, same⟩ := intact.stored _ member
  simp only [SwapSpace.swapIn, swapIn, available, named, Nat.not_le.mpr inside, taken, Bool.not_true,
    Bool.false_eq_true, if_false]
  exact ⟨trivial, (update_self ..).trans same⟩

def swapMemory : Physical :=
  ⟨[], fun page _ => (page >>> 12).toUInt8, ⟨false, 0, 0, fun _ => ⟨0, false⟩⟩,
    ⟨false, fun _ => false, fun _ _ => 0⟩⟩

set_option maxRecDepth 8192 in
theorem page_swapped_back : ∃ last : Swapped,
    Run Swapped.Step (Swapped.boot swapMemory (some 16384))
      [.out 0x40007000, .store 0x40007000 fun _ => 0] last ∧
    (last.space.swapIn 2 0x40008000 true).2.phys.frames 0x40008000 =
      swapMemory.frames 0x40007000 :=
  ⟨_, .next rfl (.next rfl (.refl _)),
    ((swap_lossless (.next rfl (.next rfl (.refl _)))).2 2 _ (.head _) 0x40008000).2⟩

end ViperDos.Memory
