import ViperDos.Buckets
import ViperDos.PowerBlocks
import Mathlib.Data.List.Range

/-!
The buddy allocator of kernel/mm/buddy.cpp and buddy.hpp: free lists of blocks by order, and
a small cache of pages for each CPU. A call takes at most two locks one after the other,
that of the cache of its CPU and that of the allocator, and does nothing in between, so it
is at most two atomic sections. A free list is kept in its own blocks in the source and is
a list of addresses here; the order stored in a free block is never read and left out.
-/

namespace ViperDos.Buddy

open Buckets PowerBlocks Function

def maxOrder : Nat := 10
def pageShift : Nat := 12
def pageSize : Nat := 4096
def maxCpus : Nat := 4
def percpuCacheSize : Nat := 8

/-- The source has `PAGE_SIZE << order`. -/
def blockSize (order : Nat) : Nat := size pageShift order

def orderFrom (pages order : Nat) : Nat → Nat
  | 0 => order
  | steps + 1 => if 2 ^ order < pages then orderFrom pages (order + 1) steps else order

def pagesToOrder (pages : Nat) : Nat := if pages ≤ 1 then 0 else orderFrom pages 0 (maxOrder - 1)

theorem orderFrom_bounds (pages order steps : Nat) :
    order ≤ orderFrom pages order steps ∧ orderFrom pages order steps ≤ order + steps := by
  induction steps generalizing order with
  | zero => exact ⟨Nat.le_refl _, Nat.le_refl _⟩
  | succ steps ih =>
    have next := ih (order + 1)
    unfold orderFrom
    split <;> omega

theorem pagesToOrder_lt (pages : Nat) : pagesToOrder pages < maxOrder := by
  unfold pagesToOrder
  split
  · decide
  · exact Nat.lt_succ_of_le ((orderFrom_bounds ..).2.trans (Nat.zero_add _).le)

variable {pages order steps count taken addr low high cpu : Nat} {rest : List Block}

theorem orderFrom_covers (small : pages ≤ 2 ^ (order + steps)) :
    pages ≤ 2 ^ orderFrom pages order steps := by
  induction steps generalizing order with
  | zero => exact small
  | succ steps ih =>
    unfold orderFrom
    split
    · exact ih (by rwa [Nat.add_right_comm, Nat.add_assoc])
    next reached => exact Nat.not_lt.mp reached

/-- The pages that `pmm::alloc_pages` takes for a request: a block of the buddy allocator, which
has 512 pages at most, or so many pages of the bitmap. -/
def Grants (count taken : Nat) : Prop := taken = 2 ^ pagesToOrder count ∨ taken = count

instance : Decidable (Grants count taken) := inferInstanceAs (Decidable (_ ∨ _))

theorem grants_covers (grants : Grants count taken) (small : count ≤ 512) : count ≤ taken := by
  rcases grants with rfl | rfl
  · unfold pagesToOrder
    split
    · simpa using ‹_›
    · exact orderFrom_covers small
  · exact Nat.le_refl _

structure FreeArea where
  freeList : List Nat
  count : Nat

structure BuddyAllocator where
  initialized : Bool
  memStart : Nat
  memEnd : Nat
  freeAreas : Nat → FreeArea
  cacheEnabled : Bool
  cache : Nat → List Nat

namespace BuddyAllocator

section

variable (allocator : BuddyAllocator)

def setArea (order : Nat) (area : FreeArea) : BuddyAllocator :=
  { allocator with freeAreas := update allocator.freeAreas order area }

def setCache (cpu : Nat) (pages : List Nat) : BuddyAllocator :=
  { allocator with cache := update allocator.cache cpu pages }

section

variable (addr order : Nat)

def addToFreeList : BuddyAllocator :=
  let area := allocator.freeAreas order
  allocator.setArea order ⟨addr :: area.freeList, area.count + 1⟩

def removeFromFreeList : Bool × BuddyAllocator :=
  let area := allocator.freeAreas order
  if addr ∈ area.freeList then
    (true, allocator.setArea order ⟨area.freeList.erase addr, area.count - 1⟩)
  else (false, allocator)

/-- The address 0 stands for an empty list. -/
def popFromFreeList (order : Nat) : Nat × BuddyAllocator :=
  match (allocator.freeAreas order).freeList with
  | [] => (0, allocator)
  | addr :: rest =>
    (addr, allocator.setArea order ⟨rest, (allocator.freeAreas order).count - 1⟩)

def splitBlock (order : Nat) : BuddyAllocator :=
  if order = 0 ∨ maxOrder ≤ order then allocator
  else
    match allocator.popFromFreeList order with
    | (0, allocator) => allocator
    | (addr, allocator) =>
      let lowerOrder := order - 1
      (allocator.addToFreeList addr lowerOrder).addToFreeList (addr + blockSize lowerOrder)
        lowerOrder

/-- The loop of `try_coalesce`, with the number of orders left above the given one. -/
def coalesce (allocator : BuddyAllocator) (addr order : Nat) : Nat → BuddyAllocator
  | 0 => allocator.addToFreeList addr order
  | steps + 1 =>
    let buddyAddr := addr ^^^ blockSize order
    if buddyAddr < allocator.memStart ∨ allocator.memEnd ≤ buddyAddr then
      allocator.addToFreeList addr order
    else
      match allocator.removeFromFreeList buddyAddr order with
      | (false, allocator) => allocator.addToFreeList addr order
      | (true, allocator) => coalesce allocator (min addr buddyAddr) (order + 1) steps

def tryCoalesce : BuddyAllocator :=
  allocator.coalesce addr order (maxOrder - 1 - order)

def findOrder (order : Nat) : Option Nat :=
  (List.range' order (maxOrder - order)).find? fun current =>
    (allocator.freeAreas current).count ≠ 0

def splitDown (allocator : BuddyAllocator) (order : Nat) : Nat → BuddyAllocator
  | 0 => allocator
  | steps + 1 => splitDown (allocator.splitBlock (order + steps + 1)) order steps

def allocLocked (order : Nat) : Nat × BuddyAllocator :=
  if !allocator.initialized then (0, allocator)
  else
    match allocator.findOrder order with
    | none => (0, allocator)
    | some current => (allocator.splitDown order (current - order)).popFromFreeList order

def percpuCacheAlloc (cpu : Nat) : Nat × BuddyAllocator :=
  if !allocator.cacheEnabled then (0, allocator)
  else if maxCpus ≤ cpu then (0, allocator)
  else
    match allocator.cache cpu with
    | [] => (0, allocator)
    | page :: rest => (page, allocator.setCache cpu rest)

def percpuCacheFree (cpu addr : Nat) : Bool × BuddyAllocator :=
  if !allocator.cacheEnabled then (false, allocator)
  else if maxCpus ≤ cpu then (false, allocator)
  else if percpuCacheSize ≤ (allocator.cache cpu).length then (false, allocator)
  else (true, allocator.setCache cpu (addr :: allocator.cache cpu))

def allocPages (cpu order : Nat) : Nat × BuddyAllocator :=
  if maxOrder ≤ order then (0, allocator)
  else if order = 0 then
    match allocator.percpuCacheAlloc cpu with
    | (0, allocator) => allocator.allocLocked order
    | (page, allocator) => (page, allocator)
  else allocator.allocLocked order

/-- The checks of `free_pages` under the lock. The last one looks for the address among the
first pages of the free blocks of every order. -/
def accepts : Bool :=
  allocator.initialized && !decide (addr < allocator.memStart ∨ allocator.memEnd ≤ addr) &&
    addr % blockSize order = 0 &&
    !((List.range maxOrder).any fun o => decide (addr ∈ (allocator.freeAreas o).freeList))

def freeLocked : BuddyAllocator :=
  if allocator.accepts addr order then allocator.tryCoalesce addr order else allocator

end

def freePages (cpu addr order : Nat) : BuddyAllocator :=
  if maxOrder ≤ order then allocator
  else if order = 0 then
    match allocator.percpuCacheFree cpu addr with
    | (true, allocator) => allocator
    | (false, allocator) => allocator.freeLocked addr order
  else allocator.freeLocked addr order

end

/-- The largest order from the given one down whose block starts at the address and ends
before the end of memory. The sum may wrap around. -/
def largestOrder (memEnd addr : Nat) : Nat → Nat
  | 0 => 0
  | order + 1 =>
    if addr % blockSize (order + 1) ≠ 0 then largestOrder memEnd addr order
    else if memEnd < (addr + blockSize (order + 1)) % 2 ^ 64 then largestOrder memEnd addr order
    else order + 1

def addBlocks (allocator : BuddyAllocator) (addr : Nat) : Nat → BuddyAllocator
  | 0 => allocator
  | rounds + 1 =>
    if addr < allocator.memEnd then
      let order := largestOrder allocator.memEnd addr (maxOrder - 1)
      addBlocks (allocator.addToFreeList addr order) ((addr + blockSize order) % 2 ^ 64) rounds
    else allocator

def pageAlignUp (addr : Nat) : Nat := (addr + (pageSize - 1)) % 2 ^ 64 / pageSize * pageSize
def pageAlignDown (addr : Nat) : Nat := addr / pageSize * pageSize

def init (allocator : BuddyAllocator) (memStart memEnd reservedEnd : Nat) : Bool × BuddyAllocator :=
  if allocator.initialized then (false, allocator)
  else
    let memStart := pageAlignUp memStart
    let memEnd := pageAlignDown memEnd
    let reservedEnd := pageAlignUp reservedEnd
    let allocator := { allocator with memStart, memEnd }
    if memEnd ≤ memStart ∨ memEnd ≤ reservedEnd then (false, allocator)
    else
      let allocator := { allocator with freeAreas := fun _ => ⟨[], 0⟩ }
      let allocator := allocator.addBlocks reservedEnd ((memEnd - reservedEnd) / pageSize)
      (true, { allocator with initialized := true, cacheEnabled := true })

def freeBlocks (allocator : BuddyAllocator) : List Block :=
  gather maxOrder fun order => (allocator.freeAreas order).freeList.map fun addr => ⟨addr, order⟩

def cachedBlocks (allocator : BuddyAllocator) : List Block :=
  gather maxCpus fun cpu => (allocator.cache cpu).map fun addr => ⟨addr, 0⟩

end BuddyAllocator

open BuddyAllocator

variable {after : BuddyAllocator}

section Lists

variable {allocator : BuddyAllocator}

theorem setArea_freeBlocks (allocator : BuddyAllocator) (order : Nat) (area : FreeArea) :
    (allocator.setArea order area).freeBlocks = gather maxOrder (update
        (fun o => (allocator.freeAreas o).freeList.map fun addr => (⟨addr, o⟩ : Block)) order
        (area.freeList.map fun addr => ⟨addr, order⟩)) := by
  apply gather_same
  intro o _
  by_cases here : o = order <;> simp [setArea, here]

theorem addToFreeList_blocks (allocator : BuddyAllocator) (addr : Nat) (inside : order < maxOrder) :
    (allocator.addToFreeList addr order).freeBlocks.Perm
      (⟨addr, order⟩ :: allocator.freeBlocks) := by
  unfold addToFreeList
  rw [setArea_freeBlocks]
  exact gather_push (.refl _) inside

theorem removeFromFreeList_blocks (inside : order < maxOrder)
    (removed : allocator.removeFromFreeList addr order = (true, after)) :
    allocator.freeBlocks.Perm (⟨addr, order⟩ :: after.freeBlocks) := by
  unfold removeFromFreeList at removed
  dsimp only at removed
  split at removed
  next member =>
    cases removed
    rw [setArea_freeBlocks]
    exact gather_pop ((List.perm_cons_erase member).map _) inside
  · cases removed

theorem popFromFreeList_blocks (allocator : BuddyAllocator) (inside : order < maxOrder) :
    (allocator.popFromFreeList order = (0, allocator) ∧ (allocator.freeAreas order).freeList = []) ∨
      allocator.freeBlocks.Perm (⟨(allocator.popFromFreeList order).1, order⟩ ::
        (allocator.popFromFreeList order).2.freeBlocks) := by
  unfold popFromFreeList
  split
  next empty => exact .inl ⟨rfl, empty⟩
  next addr rest found =>
  right
  rw [setArea_freeBlocks]
  apply gather_pop _ inside
  rw [found]
  exact List.Perm.refl _

end Lists

def SameButLists (before after : BuddyAllocator) : Prop :=
  after = { before with freeAreas := after.freeAreas }

variable {before middle : BuddyAllocator}

section Fields

theorem sameButLists_trans (first : SameButLists before middle)
    (second : SameButLists middle after) : SameButLists before after := by
  unfold SameButLists at *
  rw [second, first]

theorem sameButLists_cached (same : SameButLists before after) :
    after.cachedBlocks = before.cachedBlocks := by
  rw [same]
  rfl

theorem sameButLists_bounds (same : SameButLists before after) :
    after.memStart = before.memStart ∧ after.memEnd = before.memEnd := by
  rw [same]
  exact ⟨rfl, rfl⟩

variable (allocator : BuddyAllocator)

theorem removeFromFreeList_same (addr order : Nat) :
    SameButLists allocator (allocator.removeFromFreeList addr order).2 := by
  unfold removeFromFreeList
  dsimp only
  split <;> rfl

theorem popFromFreeList_same (order : Nat) :
    SameButLists allocator (allocator.popFromFreeList order).2 := by
  unfold popFromFreeList
  split <;> rfl

theorem splitBlock_same (order : Nat) :
    SameButLists allocator (allocator.splitBlock order) := by
  have popped := popFromFreeList_same allocator order
  unfold splitBlock
  split
  · rfl
  split
  next result =>
    rw [result] at popped
    exact popped
  next addr rest _ result =>
    rw [result] at popped
    exact sameButLists_trans popped rfl

theorem splitDown_same (order steps : Nat) :
    SameButLists allocator (allocator.splitDown order steps) := by
  induction steps generalizing allocator with
  | zero => rfl
  | succ steps ih => exact sameButLists_trans (splitBlock_same ..) (ih _)

theorem allocLocked_same (order : Nat) :
    SameButLists allocator (allocator.allocLocked order).2 := by
  unfold allocLocked
  split
  · rfl
  split
  · rfl
  · exact sameButLists_trans (splitDown_same ..) (popFromFreeList_same ..)

theorem coalesce_same (addr order steps : Nat) :
    SameButLists allocator (allocator.coalesce addr order steps) := by
  induction steps generalizing allocator addr order with
  | zero => rfl
  | succ steps ih =>
    have removed := removeFromFreeList_same allocator (addr ^^^ blockSize order) order
    unfold coalesce
    dsimp only
    split
    · rfl
    split
    next result =>
      rw [result] at removed
      exact sameButLists_trans removed rfl
    next result =>
      rw [result] at removed
      exact sameButLists_trans removed (ih ..)

end Fields

section Operations

variable {allocator : BuddyAllocator}

/-- A split cuts a block in two. The block at address 0 is lost, as its address stands for
an empty list. -/
theorem splitBlock_blocks (aligned : ∀ b ∈ allocator.freeBlocks, Aligned pageShift b) :
    Recut pageShift allocator.freeBlocks (allocator.splitBlock order).freeBlocks ∨
      allocator.freeBlocks.Perm (⟨0, order⟩ :: (allocator.splitBlock order).freeBlocks) := by
  unfold splitBlock
  split
  · exact .inl (recut_perm (List.Perm.refl _))
  next proper =>
  obtain ⟨lower, rfl⟩ : ∃ lower, order = lower + 1 := ⟨order - 1, by omega⟩
  have inside : lower + 1 < maxOrder := by omega
  rcases popFromFreeList_blocks allocator inside with ⟨empty, _⟩ | popped
  · rw [empty]
    exact .inl (recut_perm (List.Perm.refl _))
  split
  next after result =>
    rw [result] at popped
    exact .inr popped
  next addr after _ result =>
  rw [result] at popped
  left
  have whole : Aligned pageShift ⟨addr, lower + 1⟩ :=
    aligned _ (popped.mem_iff.mpr (.head _))
  have halved := recut_halves whole after.freeBlocks
  refine recut_trans (recut_perm popped) (recut_trans halved (recut_perm ?_))
  have first := @addToFreeList_blocks lower after addr (by omega)
  have second := @addToFreeList_blocks lower (after.addToFreeList addr lower)
    (addr + blockSize lower) (by omega)
  exact ((List.Perm.swap ..).trans ((first.symm.cons _).trans second.symm))

theorem splitBlock_packed (packed : Packed pageShift low high (allocator.freeBlocks ++ rest)) :
    Packed pageShift low high ((allocator.splitBlock order).freeBlocks ++ rest) ∧ (0 < low →
        Recut pageShift allocator.freeBlocks (allocator.splitBlock order).freeBlocks) := by
  have aligned : ∀ b ∈ allocator.freeBlocks, Aligned pageShift b := fun b member =>
    packed.aligned b (List.mem_append_left _ member)
  rcases @splitBlock_blocks order allocator aligned with recut | lost
  · exact ⟨(recut.packed low high rest).mp packed, fun _ => recut⟩
  refine ⟨packed_sublist (List.sublist_cons_self ..)
    (packed_perm (lost.append_right rest) packed), ?_⟩
  intro positive
  have member : (⟨0, order⟩ : Block) ∈ allocator.freeBlocks :=
    lost.mem_iff.mpr (.head _)
  have bound := (packed.within _ (List.mem_append_left _ member)).1
  dsimp only at bound
  omega

theorem splitDown_packed (steps : Nat)
    (packed : Packed pageShift low high (allocator.freeBlocks ++ rest)) :
    Packed pageShift low high ((allocator.splitDown order steps).freeBlocks ++ rest) ∧ (0 < low →
        Recut pageShift allocator.freeBlocks (allocator.splitDown order steps).freeBlocks) := by
  induction steps generalizing allocator with
  | zero => exact ⟨packed, fun _ => recut_perm (List.Perm.refl _)⟩
  | succ steps ih =>
    obtain ⟨split, cut⟩ := @splitBlock_packed (order + steps + 1) _ _ _ _ packed
    obtain ⟨later, laterCut⟩ := ih split
    exact ⟨later, fun positive => recut_trans (cut positive) (laterCut positive)⟩

theorem allocLocked_packed (inside : order < maxOrder)
    (packed : Packed pageShift low high (allocator.freeBlocks ++ rest)) :
    Packed pageShift low high ((allocator.allocLocked order).2.freeBlocks ++ rest) ∧
      ((allocator.allocLocked order).1 ≠ 0 → Packed pageShift low high
        (⟨(allocator.allocLocked order).1, order⟩ ::
          ((allocator.allocLocked order).2.freeBlocks ++ rest))) := by
  unfold allocLocked
  split
  · exact ⟨packed, fun served => absurd rfl served⟩
  split
  · exact ⟨packed, fun served => absurd rfl served⟩
  next current _ =>
  obtain ⟨split, _⟩ := @splitDown_packed order _ _ _ _ (current - order) packed
  rcases popFromFreeList_blocks (allocator.splitDown order (current - order)) inside with
    ⟨empty, _⟩ | popped
  · rw [empty]
    exact ⟨split, fun served => absurd rfl served⟩
  · have moved := packed_perm (popped.append_right rest) split
    exact ⟨packed_sublist (List.sublist_cons_self ..) moved, fun _ => moved⟩

theorem addToFreeList_recut (inside : order < maxOrder) (addr : Nat) :
    Recut pageShift (⟨addr, order⟩ :: allocator.freeBlocks)
      (allocator.addToFreeList addr order).freeBlocks :=
  recut_perm (addToFreeList_blocks allocator addr inside).symm

theorem coalesce_recut (orders : order + steps = maxOrder - 1)
    (aligned : Aligned pageShift ⟨addr, order⟩) :
    Recut pageShift (⟨addr, order⟩ :: allocator.freeBlocks)
      (allocator.coalesce addr order steps).freeBlocks := by
  have inside : order < maxOrder := by
    unfold maxOrder at *
    omega
  induction steps generalizing allocator addr order with
  | zero => exact addToFreeList_recut inside addr
  | succ steps ih =>
    unfold coalesce
    dsimp only
    split
    · exact addToFreeList_recut inside addr
    split
    next after result =>
      have same : after = allocator := by
        unfold removeFromFreeList at result
        dsimp only at result
        split at result
        · cases result
        · cases result
          rfl
      rw [same]
      exact addToFreeList_recut inside addr
    next after result =>
    have removed := removeFromFreeList_blocks inside result
    have merged := recut_merge aligned after.freeBlocks
    have later := @ih (order + 1) (min addr (addr ^^^ blockSize order)) after
      (by omega) (parent_aligned aligned) (by unfold maxOrder at *; omega)
    exact recut_trans (recut_perm (removed.cons _)) (recut_trans merged later)

theorem tryCoalesce_recut (inside : order < maxOrder) (aligned : Aligned pageShift ⟨addr, order⟩) :
    Recut pageShift (⟨addr, order⟩ :: allocator.freeBlocks)
      (allocator.tryCoalesce addr order).freeBlocks :=
  coalesce_recut (by unfold maxOrder at *; omega) aligned

theorem accepts_aligned (accepted : allocator.accepts addr order = true) :
    Aligned pageShift ⟨addr, order⟩ := by
  unfold accepts at accepted
  simp only [Bool.and_eq_true, decide_eq_true_eq] at accepted
  exact accepted.1.2

section

variable (allocator : BuddyAllocator) (cpu : Nat)

theorem setCache_cached (pages : List Nat) :
    (allocator.setCache cpu pages).cachedBlocks = gather maxCpus (update
        (fun c => (allocator.cache c).map fun addr => (⟨addr, 0⟩ : Block)) cpu
        (pages.map fun addr => ⟨addr, 0⟩)) := by
  apply gather_same
  intro c _
  by_cases here : c = cpu <;> simp [setCache, here]

theorem percpuCacheAlloc_cases :
    allocator.percpuCacheAlloc cpu = (0, allocator) ∨
      ∃ page pages, allocator.percpuCacheAlloc cpu = (page, allocator.setCache cpu pages) ∧
        allocator.cachedBlocks.Perm (⟨page, 0⟩ :: (allocator.setCache cpu pages).cachedBlocks) := by
  unfold percpuCacheAlloc
  split
  · exact .inl rfl
  split
  · exact .inl rfl
  next inside =>
  split
  · exact .inl rfl
  next page rest found =>
  refine .inr ⟨page, rest, rfl, ?_⟩
  rw [setCache_cached]
  apply gather_pop _ (Nat.not_le.mp inside)
  rw [found]
  exact List.Perm.refl _

def CacheOpen : Prop :=
  allocator.cacheEnabled = true ∧ cpu < maxCpus ∧ (allocator.cache cpu).length < percpuCacheSize

end

theorem percpuCacheFree_closed (closed : ¬ CacheOpen allocator cpu) (addr : Nat) :
    allocator.percpuCacheFree cpu addr = (false, allocator) := by
  unfold percpuCacheFree
  grind [CacheOpen]

theorem percpuCacheFree_open (opened : CacheOpen allocator cpu) (addr : Nat) :
    allocator.percpuCacheFree cpu addr =
        (true, allocator.setCache cpu (addr :: allocator.cache cpu)) ∧
      (allocator.setCache cpu (addr :: allocator.cache cpu)).cachedBlocks.Perm
        (⟨addr, 0⟩ :: allocator.cachedBlocks) := by
  obtain ⟨enabled, inside, room⟩ := opened
  constructor
  · unfold percpuCacheFree
    rw [if_neg (by simp [enabled]), if_neg (Nat.not_le.mpr inside), if_neg (Nat.not_le.mpr room)]
  · rw [setCache_cached]
    exact gather_push (.refl _) inside

end Operations

end ViperDos.Buddy
