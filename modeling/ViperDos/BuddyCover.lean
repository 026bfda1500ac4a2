import ViperDos.Buddy

/-!
Which memory the buddy allocator holds. An allocation takes its block out of it and a free
puts the page back, whatever splitting and coalescing goes on and whether the page goes
over a cache or not.
-/

namespace ViperDos.Buddy

open BuddyAllocator PowerBlocks

section

variable (allocator : BuddyAllocator)

def Held (x : Nat) : Prop :=
  ∃ b ∈ allocator.freeBlocks ++ allocator.cachedBlocks, Covers pageShift b x

structure Kept : Prop where
  initialized : allocator.initialized = true
  positive : 0 < allocator.memStart
  packed : Packed pageShift allocator.memStart allocator.memEnd
    (allocator.freeBlocks ++ allocator.cachedBlocks)

def Counted : Prop :=
  ∀ order < maxOrder, (allocator.freeAreas order).count =
    (allocator.freeAreas order).freeList.length

def Stocked (order : Nat) : Prop :=
  ∃ current, order ≤ current ∧ current < maxOrder ∧ (allocator.freeAreas current).freeList ≠ []

end

variable {order current steps low high addr count : Nat} {after : BuddyAllocator} {block : Block}

section

variable {allocator : BuddyAllocator}

section Counters

variable (counted : Counted allocator)

include counted

theorem setArea_counted {area : FreeArea}
    (same : order < maxOrder → area.count = area.freeList.length) :
    Counted (allocator.setArea order area) := by
  intro other inside
  unfold setArea
  by_cases here : other = order
  · subst here
    simpa using same inside
  · simpa [here] using counted other inside

theorem addToFreeList_counted (addr order : Nat) :
    Counted (allocator.addToFreeList addr order) :=
  setArea_counted counted fun inside => by simp [counted order inside]

theorem popFromFreeList_counted (order : Nat) : Counted (allocator.popFromFreeList order).2 := by
  unfold popFromFreeList
  split
  · exact counted
  next list =>
    refine setArea_counted counted fun inside => ?_
    rw [counted order inside, list]
    rfl

theorem removeFromFreeList_counted (addr order : Nat) :
    Counted (allocator.removeFromFreeList addr order).2 := by
  unfold removeFromFreeList
  dsimp only
  split
  next member =>
    refine setArea_counted counted fun inside => ?_
    rw [List.length_erase_of_mem member, counted order inside]
  · exact counted

theorem splitBlock_counted (order : Nat) : Counted (allocator.splitBlock order) := by
  have popped := popFromFreeList_counted counted order
  unfold splitBlock
  split
  · exact counted
  split
  next result =>
    rw [result] at popped
    exact popped
  next result =>
    rw [result] at popped
    exact addToFreeList_counted (addToFreeList_counted popped _ _) _ _

theorem splitDown_counted (order steps : Nat) : Counted (allocator.splitDown order steps) := by
  induction steps generalizing allocator with
  | zero => exact counted
  | succ steps ih => exact ih (splitBlock_counted counted _)

theorem coalesce_counted (addr order steps : Nat) :
    Counted (allocator.coalesce addr order steps) := by
  induction steps generalizing allocator addr order with
  | zero => exact addToFreeList_counted counted addr order
  | succ steps ih =>
    have removed := removeFromFreeList_counted counted (addr ^^^ blockSize order) order
    unfold coalesce
    dsimp only
    split
    · exact addToFreeList_counted counted addr order
    split
    next result =>
      rw [result] at removed
      exact addToFreeList_counted removed addr order
    next result =>
      rw [result] at removed
      exact ih removed _ _

theorem allocPages_counted (cpu order : Nat) : Counted (allocator.allocPages cpu order).2 := by
  have locked : ∀ {allocator : BuddyAllocator}, Counted allocator →
      Counted (allocator.allocLocked order).2 := by
    intro allocator counted
    unfold allocLocked
    split
    · exact counted
    split
    · exact counted
    · exact popFromFreeList_counted (splitDown_counted counted _ _) order
  unfold allocPages
  split
  · exact counted
  split
  · rcases percpuCacheAlloc_cases allocator cpu with nothing | ⟨page, pages, result, -⟩
    · rw [nothing]
      exact locked counted
    · have cached : Counted (allocator.setCache cpu pages) := counted
      rw [result]
      split
      next same =>
        cases same
        exact locked cached
      next same =>
        cases same
        exact cached
  · exact locked counted

theorem freePages_counted (cpu addr order : Nat) :
    Counted (allocator.freePages cpu addr order) := by
  have locked : Counted (allocator.freeLocked addr order) := by
    unfold freeLocked
    split
    · exact coalesce_counted counted addr order _
    · exact counted
  unfold freePages
  split
  · exact counted
  split
  · by_cases opened : CacheOpen allocator cpu
    · rw [(percpuCacheFree_open opened addr).1]
      exact counted
    · rw [percpuCacheFree_closed opened]
      exact locked
  · exact locked

end Counters

theorem findOrder_some (counted : Counted allocator)
    (found : allocator.findOrder order = some current) :
    order ≤ current ∧ current < maxOrder ∧ (allocator.freeAreas current).freeList ≠ [] := by
  have nonzero : (allocator.freeAreas current).count ≠ 0 := by
    simpa using List.find?_some found
  have range := List.mem_range'_1.mp (List.mem_of_find?_eq_some found)
  have inside : current < maxOrder := by omega
  refine ⟨range.1, inside, ?_⟩
  intro empty
  rw [counted current inside, empty] at nonzero
  exact nonzero rfl

theorem findOrder_none (counted : Counted allocator)
    (missing : allocator.findOrder order = none) : ¬ Stocked allocator order := by
  rintro ⟨current, above, inside, nonempty⟩
  have zero := List.find?_eq_none.mp missing current (List.mem_range'_1.mpr ⟨above, by omega⟩)
  rw [counted current inside] at zero
  simp at zero
  exact nonempty zero

theorem splitBlock_nonempty (inside : order + 1 < maxOrder)
    (nonempty : (allocator.freeAreas (order + 1)).freeList ≠ [])
    (nonzero : ∀ b ∈ allocator.freeBlocks, b.addr ≠ 0) :
    ((allocator.splitBlock (order + 1)).freeAreas order).freeList ≠ [] := by
  unfold splitBlock
  rw [if_neg (by omega)]
  rcases popFromFreeList_blocks allocator inside with ⟨_, empty⟩ | popped
  · exact absurd empty nonempty
  split
  next rest result =>
    rw [result] at popped
    exact absurd rfl (nonzero _ (popped.mem_iff.mpr (.head _)))
  next addr rest _ result =>
    simp [addToFreeList, setArea]

theorem splitDown_nonempty (inside : order + steps < maxOrder)
    (nonempty : (allocator.freeAreas (order + steps)).freeList ≠ []) (positive : 0 < low)
    (packed : Packed pageShift low high allocator.freeBlocks) :
    ((allocator.splitDown order steps).freeAreas order).freeList ≠ [] := by
  induction steps generalizing allocator with
  | zero => exact nonempty
  | succ steps ih =>
    have nonzero : ∀ b ∈ allocator.freeBlocks, b.addr ≠ 0 := by
      intro b member zero
      have bound := (packed.within b member).1
      omega
    have split := (@splitBlock_packed (order + steps + 1) low high [] allocator
      (by rw [List.append_nil]; exact packed)).1
    rw [List.append_nil] at split
    exact ih (by omega) (splitBlock_nonempty inside nonempty nonzero) split

/-- With a block in stock the allocation succeeds, and the block is cut out of the lists. -/
theorem allocLocked_some (kept : Kept allocator) (counted : Counted allocator)
    (inside : order < maxOrder) (found : allocator.findOrder order = some current) :
    (allocator.allocLocked order).1 ≠ 0 ∧
      Recut pageShift allocator.freeBlocks (⟨(allocator.allocLocked order).1, order⟩ ::
        (allocator.allocLocked order).2.freeBlocks) := by
  obtain ⟨above, small, nonempty⟩ := findOrder_some counted found
  have packed := packed_sublist (List.sublist_append_left ..) kept.packed
  have together : order + (current - order) = current := by omega
  have left := @splitDown_nonempty order (current - order) allocator.memStart
    allocator.memEnd allocator (by omega) (by rw [together]; exact nonempty) kept.positive packed
  obtain ⟨split, cut⟩ := @splitDown_packed order allocator.memStart allocator.memEnd [] allocator
    (current - order) (by rw [List.append_nil]; exact packed)
  rw [List.append_nil] at split
  unfold allocLocked
  rw [if_neg (by simp [kept.initialized]), found]
  dsimp only
  rcases popFromFreeList_blocks (allocator.splitDown order (current - order)) inside with
    ⟨_, empty⟩ | popped
  · exact absurd empty left
  refine ⟨?_, recut_trans (cut kept.positive) (recut_perm popped)⟩
  intro zero
  have bound := (split.within _ (popped.mem_iff.mpr (.head _))).1
  have positive := kept.positive
  dsimp only at bound
  omega

structure TakesOut (before : BuddyAllocator) (block : Block) (after : BuddyAllocator) : Prop where
  region : after.memStart = before.memStart ∧ after.memEnd = before.memEnd ∧
    after.initialized = before.initialized
  recut : Recut pageShift (before.freeBlocks ++ before.cachedBlocks)
    (block :: (after.freeBlocks ++ after.cachedBlocks))

theorem takesOut_packed (kept : Kept allocator) (taken : TakesOut allocator block after) :
    Packed pageShift after.memStart after.memEnd
      (block :: (after.freeBlocks ++ after.cachedBlocks)) := by
  obtain ⟨start, finish, _⟩ := taken.region
  have whole := (taken.recut.packed allocator.memStart allocator.memEnd []).mp
    (by rw [List.append_nil]; exact kept.packed)
  rw [List.append_nil] at whole
  rw [start, finish]
  exact whole

theorem takesOut_held (taken : TakesOut allocator block after) (x : Nat) :
    Held allocator x ↔ Covers pageShift block x ∨ Held after x :=
  (taken.recut.covered x).trans (List.exists_mem_cons_iff ..)

section

variable (kept : Kept allocator) (counted : Counted allocator) (inside : order < maxOrder)

include kept counted inside

theorem allocLocked_takesOut :
    (allocator.allocLocked order = (0, allocator) ∧ ¬ Stocked allocator order) ∨
      ((order = 0 ∨ Stocked allocator order) ∧ (allocator.allocLocked order).1 ≠ 0 ∧
        TakesOut allocator ⟨(allocator.allocLocked order).1, order⟩
          (allocator.allocLocked order).2) := by
  cases found : allocator.findOrder order with
  | none =>
    left
    refine ⟨?_, findOrder_none counted found⟩
    unfold allocLocked
    rw [if_neg (by simp [kept.initialized]), found]
  | some current =>
    obtain ⟨nonzero, recut⟩ := allocLocked_some kept counted inside found
    have same := allocLocked_same allocator order
    obtain ⟨start, finish⟩ := sameButLists_bounds same
    refine .inr ⟨.inr ⟨current, findOrder_some counted found⟩, nonzero,
      ⟨start, finish, by rw [same]⟩, ?_⟩
    rw [sameButLists_cached same, ← List.cons_append]
    exact recut_append recut _

theorem allocPages_takesOut (cpu : Nat) :
    (allocator.allocPages cpu order = (0, allocator) ∧ ¬ Stocked allocator order) ∨
      ((order = 0 ∨ Stocked allocator order) ∧ (allocator.allocPages cpu order).1 ≠ 0 ∧
        TakesOut allocator ⟨(allocator.allocPages cpu order).1, order⟩
          (allocator.allocPages cpu order).2) := by
  have locked := allocLocked_takesOut kept counted inside
  unfold allocPages
  rw [if_neg (Nat.not_le.mpr inside)]
  split
  next single =>
    subst single
    rcases percpuCacheAlloc_cases allocator cpu with nothing | ⟨page, pages, result, taken⟩
    · rw [nothing]
      exact locked
    have member : (⟨page, 0⟩ : Block) ∈ allocator.freeBlocks ++ allocator.cachedBlocks :=
      List.mem_append_right _ (taken.mem_iff.mpr (.head _))
    have bound := (kept.packed.within _ member).1
    have positive := kept.positive
    have nonzero : page ≠ 0 := by
      dsimp only at bound
      omega
    rw [result]
    split
    next zero =>
      cases zero
      exact absurd rfl nonzero
    next same =>
      cases same
      refine .inr ⟨.inl rfl, nonzero, ⟨rfl, rfl, rfl⟩, recut_perm ?_⟩
      exact (taken.append_left _).trans List.perm_middle
  · exact locked

end

section

variable (ready : allocator.initialized = true)
  (packed : Packed pageShift allocator.memStart allocator.memEnd
    (⟨addr, 0⟩ :: (allocator.freeBlocks ++ allocator.cachedBlocks)))

include ready packed

/-- The checks find nothing wrong with a page beside the free memory. -/
theorem accepts_apart : allocator.accepts addr 0 = true := by
  obtain ⟨aligned, within, apart, _⟩ := packed_cons.mp packed
  have positive := size_pos pageShift 0
  have inside : ¬ (addr < allocator.memStart ∨ allocator.memEnd ≤ addr) := by
    unfold Within at within
    dsimp only at within
    omega
  have single : addr % blockSize 0 = 0 := aligned
  have absent : ((List.range maxOrder).any fun o =>
      decide (addr ∈ (allocator.freeAreas o).freeList)) = false := by
    rw [List.any_eq_false]
    intro o inRange listed
    have member : (⟨addr, o⟩ : Block) ∈ allocator.freeBlocks := by
      rw [freeBlocks, Buckets.mem_gather]
      refine ⟨o, List.mem_range.mp inRange, List.mem_map.mpr ⟨addr, ?_, rfl⟩⟩
      simpa using listed
    have overlap := apart _ (List.mem_append_left _ member)
    have other := size_pos pageShift o
    unfold Apart at overlap
    dsimp only at overlap
    omega
  unfold accepts
  simp [ready, inside, single, absent]

theorem freePages_takesOut (cpu : Nat) :
    TakesOut (allocator.freePages cpu addr 0) ⟨addr, 0⟩ allocator := by
  obtain ⟨aligned, within, apart, _⟩ := packed_cons.mp packed
  unfold freePages
  rw [if_neg (by decide), if_pos rfl]
  by_cases opened : CacheOpen allocator cpu
  · obtain ⟨result, pushed⟩ := percpuCacheFree_open opened addr
    rw [result]
    refine ⟨⟨rfl, rfl, rfl⟩, recut_perm ?_⟩
    exact (pushed.append_left _).trans List.perm_middle
  · have accepted := accepts_apart ready packed
    rw [percpuCacheFree_closed opened]
    dsimp only
    unfold freeLocked
    rw [if_pos accepted]
    have same := coalesce_same allocator addr 0 (maxOrder - 1 - 0)
    obtain ⟨start, finish⟩ := sameButLists_bounds same
    have recut := @tryCoalesce_recut 0 addr allocator (by decide) aligned
    refine ⟨⟨start.symm, finish.symm, by unfold tryCoalesce; rw [same]⟩, ?_⟩
    unfold tryCoalesce at recut ⊢
    rw [sameButLists_cached same, ← List.cons_append]
    exact recut_append (recut_symm recut) _

end

def freeEach (allocator : BuddyAllocator) (cpu addr : Nat) : Nat → BuddyAllocator
  | 0 => allocator
  | count + 1 => freeEach (allocator.freePages cpu addr 0) cpu (addr + pageSize) count

theorem freeEach_counted (counted : Counted allocator) (cpu addr count : Nat) :
    Counted (freeEach allocator cpu addr count) := by
  induction count generalizing allocator addr with
  | zero => exact counted
  | succ count ih => exact ih (freePages_counted counted cpu addr 0) (addr + pageSize)

/-- Pages beside the free memory are all part of it when they are free. -/
theorem freeEach_held (ready : allocator.initialized = true)
    (packed : Packed pageShift allocator.memStart allocator.memEnd
      (units pageShift addr count ++ (allocator.freeBlocks ++ allocator.cachedBlocks)))
    (cpu : Nat) :
    ((freeEach allocator cpu addr count).memStart = allocator.memStart ∧
      (freeEach allocator cpu addr count).memEnd = allocator.memEnd ∧
      (0 < allocator.memStart → Kept (freeEach allocator cpu addr count))) ∧
    ∀ x, Held (freeEach allocator cpu addr count) x ↔
      (addr ≤ x ∧ x < addr + pageSize * count) ∨ Held allocator x := by
  induction count generalizing allocator addr with
  | zero =>
    refine ⟨⟨rfl, rfl, fun positive => ⟨ready, positive, packed⟩⟩, fun x => ?_⟩
    unfold freeEach
    grind
  | succ count ih =>
    have front : Packed pageShift allocator.memStart allocator.memEnd
        (⟨addr, 0⟩ :: (allocator.freeBlocks ++ allocator.cachedBlocks)) :=
      packed_sublist ((List.sublist_append_right ..).cons_cons _) packed
    have back := freePages_takesOut ready front cpu
    obtain ⟨start, finish, same⟩ := back.region
    have rest : Packed pageShift (allocator.freePages cpu addr 0).memStart
        (allocator.freePages cpu addr 0).memEnd
        (units pageShift (addr + pageSize) count ++ ((allocator.freePages cpu addr 0).freeBlocks ++
            (allocator.freePages cpu addr 0).cachedBlocks)) := by
      rw [← start, ← finish]
      have moved : Packed pageShift allocator.memStart allocator.memEnd
          (⟨addr, 0⟩ :: (allocator.freeBlocks ++ allocator.cachedBlocks) ++
            units pageShift (addr + pageSize) count) :=
        packed_perm (List.perm_append_comm.cons _) packed
      exact packed_perm List.perm_append_comm ((back.recut.packed _ _ _).mpr moved)
    obtain ⟨⟨low, high, kept⟩, later⟩ := ih (same ▸ ready) rest
    unfold freeEach
    refine ⟨⟨low.trans start.symm, high.trans finish.symm, fun positive => kept (start ▸ positive)⟩,
      fun x => ?_⟩
    rw [later, takesOut_held back x]
    have page : size pageShift 0 = pageSize := rfl
    unfold Covers
    grind

end

end ViperDos.Buddy
