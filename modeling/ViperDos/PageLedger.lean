import ViperDos.Buddy
import ViperDos.Transition

/-!
Who has which page. Beside the allocator stands the list of the blocks it has handed out and
that were not returned. A caller may return a block in parts, so the rest of a block is kept
when a part of it comes back. The sections of calls on different CPUs may follow each other
in any order.
-/

namespace ViperDos.Buddy

open BuddyAllocator PowerBlocks Transition

structure Ledger where
  allocator : BuddyAllocator
  live : List Block

section

variable (ledger : Ledger)

def Ledger.blocks : List Block :=
  ledger.allocator.freeBlocks ++ ledger.allocator.cachedBlocks ++ ledger.live

def Separate : Prop :=
  Packed pageShift ledger.allocator.memStart ledger.allocator.memEnd ledger.blocks

def release (live : List Block) (block : Block) : List Block :=
  match live.find? fun b => Inside pageShift b block with
  | none => live
  | some b => live.erase b ++ carve pageShift block b.addr b.order

inductive Locked where
  | cacheAlloc (cpu : Nat)
  | alloc (order : Nat)
  | cacheFree (cpu addr : Nat)
  | free (addr order : Nat)

def handOut (addr order : Nat) (live : List Block) : List Block :=
  if addr = 0 then live else ⟨addr, order⟩ :: live

def Ledger.perform : Locked → Ledger
  | .cacheAlloc cpu =>
    let (page, allocator) := ledger.allocator.percpuCacheAlloc cpu
    ⟨allocator, handOut page 0 ledger.live⟩
  | .alloc order =>
    if maxOrder ≤ order then ledger
    else
      let (addr, allocator) := ledger.allocator.allocLocked order
      ⟨allocator, handOut addr order ledger.live⟩
  | .cacheFree cpu addr =>
    match ledger.allocator.percpuCacheFree cpu addr with
    | (false, _) => ledger
    | (true, allocator) => ⟨allocator, release ledger.live ⟨addr, 0⟩⟩
  | .free addr order =>
    if maxOrder ≤ order then ledger
    else if ledger.allocator.accepts addr order then
      ⟨ledger.allocator.tryCoalesce addr order, release ledger.live ⟨addr, order⟩⟩
    else ledger

def LedgerStep (before : Ledger) (locked : Locked) (after : Ledger) : Prop :=
  after = before.perform locked

/-- The block is aligned, lies in the region, shares no page with a free block or a cached
page, and each live block contains it or has no page of it. -/
structure Returnable (block : Block) : Prop where
  aligned : Aligned pageShift block
  within : Within pageShift ledger.allocator.memStart ledger.allocator.memEnd block
  unfree : ∀ b ∈ ledger.allocator.freeBlocks ++ ledger.allocator.cachedBlocks,
    Apart pageShift block b
  owned : ∀ b ∈ ledger.live, Apart pageShift block b ∨ Inside pageShift b block

/-- Every free that is not refused is of a block that may be returned. -/
def FreesOwn : Locked → Prop
  | .cacheFree cpu addr => CacheOpen ledger.allocator cpu → Returnable ledger ⟨addr, 0⟩
  | .free addr order =>
    order < maxOrder → ledger.allocator.accepts addr order = true →
      Returnable ledger ⟨addr, order⟩
  | _ => True

end

/-- A call of `alloc_pages` is a run of sections that hands out what it returns. -/
theorem allocPages_run (allocator : BuddyAllocator) (live : List Block) (cpu order : Nat) :
    ∃ sections, Run LedgerStep ⟨allocator, live⟩ sections
      ⟨(allocator.allocPages cpu order).2,
        handOut (allocator.allocPages cpu order).1 order live⟩ := by
  unfold BuddyAllocator.allocPages
  split
  · exact ⟨[], .refl _⟩
  next small =>
  have locked : ∀ allocator : BuddyAllocator, LedgerStep ⟨allocator, live⟩ (.alloc order)
      ⟨(allocator.allocLocked order).2, handOut (allocator.allocLocked order).1 order live⟩ :=
    fun _ => (if_neg small).symm
  split
  next zero =>
    subst zero
    split
    next after result =>
      have missed : LedgerStep ⟨allocator, live⟩ (.cacheAlloc cpu) ⟨after, live⟩ := by
        simp [LedgerStep, Ledger.perform, result, handOut]
      exact ⟨_, .next missed (.next (locked after) (.refl _))⟩
    next page after _ result =>
      have taken : LedgerStep ⟨allocator, live⟩ (.cacheAlloc cpu) ⟨after, handOut page 0 live⟩ := by
        simp [LedgerStep, Ledger.perform, result]
      exact ⟨_, .next taken (.refl _)⟩
  · exact ⟨_, .next (locked allocator) (.refl _)⟩

/-- So is a call of `free_pages`. -/
theorem freePages_run (allocator : BuddyAllocator) (live : List Block) (cpu addr order : Nat) :
    ∃ sections left, Run LedgerStep ⟨allocator, live⟩ sections
      ⟨allocator.freePages cpu addr order, left⟩ := by
  unfold BuddyAllocator.freePages
  split
  · exact ⟨[], live, .refl _⟩
  next small =>
  have locked : ∃ left, LedgerStep ⟨allocator, live⟩ (.free addr order)
      ⟨allocator.freeLocked addr order, left⟩ := by
    unfold LedgerStep Ledger.perform BuddyAllocator.freeLocked
    dsimp only
    rw [if_neg small]
    split
    · exact ⟨_, rfl⟩
    · exact ⟨_, rfl⟩
  obtain ⟨left, freed⟩ := locked
  split
  next zero =>
    subst zero
    by_cases opened : CacheOpen allocator cpu
    · have cached : LedgerStep ⟨allocator, live⟩ (.cacheFree cpu addr)
          ⟨allocator.setCache cpu (addr :: allocator.cache cpu), release live ⟨addr, 0⟩⟩ := by
        simp [LedgerStep, Ledger.perform, (percpuCacheFree_open opened addr).1]
      rw [(percpuCacheFree_open opened addr).1]
      exact ⟨_, _, .next cached (.refl _)⟩
    · rw [percpuCacheFree_closed opened]
      exact ⟨_, left, .next freed (.refl _)⟩
  · exact ⟨_, left, .next freed (.refl _)⟩

variable {low high addr order : Nat} {others : List Block} {owner block : Block}

section

variable {ledger : Ledger}

/-- What may be returned is what fits beside the other blocks once it is returned. -/
theorem returnable_iff (separate : Separate ledger) : Returnable ledger block ↔
      Packed pageShift ledger.allocator.memStart ledger.allocator.memEnd
        (block :: (ledger.allocator.freeBlocks ++ ledger.allocator.cachedBlocks ++
          release ledger.live block)) := by
  unfold release
  split
  next missing =>
    have outside : ∀ b ∈ ledger.live, ¬ Inside pageShift b block := by
      intro b member
      simpa using List.find?_eq_none.mp missing b member
    rw [packed_cons]
    constructor
    · intro returnable
      refine ⟨returnable.aligned, returnable.within, ?_, separate⟩
      intro b member
      rcases List.mem_append.mp member with free | live
      · exact returnable.unfree b free
      · exact (returnable.owned b live).resolve_right (outside b live)
    · rintro ⟨aligned, within, apart, _⟩
      exact ⟨aligned, within, fun b free => apart b (List.mem_append_left _ free),
        fun b live => .inl (apart b (List.mem_append_right _ live))⟩
  next owner found =>
  have inside : Inside pageShift owner block := by
    simpa using List.find?_some found
  have member := List.mem_of_find?_eq_some found
  have live := List.perm_cons_erase member
  -- the owner first, then all other blocks
  have first : (ledger.allocator.freeBlocks ++ ledger.allocator.cachedBlocks ++
      ledger.live).Perm (owner :: (ledger.allocator.freeBlocks ++
        ledger.allocator.cachedBlocks ++ ledger.live.erase owner)) :=
    (live.append_left _).trans List.perm_middle
  have cut := packed_perm first separate
  have ownerAligned : Aligned pageShift owner := cut.aligned owner (.head _)
  have shuffle : ∀ others left parts : List Block,
      (block :: parts ++ (others ++ left)).Perm (block :: (others ++ (left ++ parts))) := by
    intro others left parts
    rw [← List.append_assoc others]
    exact List.perm_append_comm.cons block
  constructor
  · intro returnable
    have carved := recut_carve ownerAligned returnable.aligned inside
      (ledger.allocator.freeBlocks ++ ledger.allocator.cachedBlocks ++ ledger.live.erase owner)
    have both := (carved.packed _ _ []).mp (by rw [List.append_nil]; exact cut)
    rw [List.append_nil] at both
    exact packed_perm (shuffle _ _ _) both
  · intro packed
    obtain ⟨aligned, within, apart, _⟩ := packed_cons.mp packed
    refine ⟨aligned, within, fun b free => apart b (List.mem_append_left _ free), ?_⟩
    intro b inLive
    by_cases same : b = owner
    · rw [same]
      exact .inr inside
    · have kept : b ∈ ledger.live.erase owner := (List.mem_erase_of_ne same).mpr inLive
      exact .inl (apart b (List.mem_append_right _ (List.mem_append_left _ kept)))

theorem handOut_packed (without : Packed pageShift low high (others ++ ledger.live))
    (with_ : addr ≠ 0 → Packed pageShift low high (⟨addr, order⟩ :: (others ++ ledger.live))) :
    Packed pageShift low high (others ++ handOut addr order ledger.live) := by
  unfold handOut
  split
  · exact without
  next some => exact packed_perm List.perm_middle.symm (with_ some)

section

variable (separate : Separate ledger)

include separate

theorem cacheAlloc_separate (cpu : Nat) : Separate (ledger.perform (.cacheAlloc cpu)) := by
  unfold Ledger.perform
  dsimp only
  rcases percpuCacheAlloc_cases ledger.allocator cpu with nothing | ⟨page, pages, result, taken⟩
  · rw [nothing]
    exact separate
  rw [result]
  have moved : Packed pageShift ledger.allocator.memStart ledger.allocator.memEnd
      (⟨page, 0⟩ :: (ledger.allocator.freeBlocks ++
        (ledger.allocator.setCache cpu pages).cachedBlocks ++ ledger.live)) := by
    apply packed_perm _ separate
    exact ((taken.append_left _).trans List.perm_middle).append_right _
  exact handOut_packed (packed_sublist (List.sublist_cons_self ..) moved) fun _ => moved

theorem alloc_separate (order : Nat) : Separate (ledger.perform (.alloc order)) := by
  unfold Ledger.perform
  dsimp only
  split
  · exact separate
  next inside =>
  have same := allocLocked_same ledger.allocator order
  unfold Separate Ledger.blocks at separate ⊢
  rw [List.append_assoc] at separate
  obtain ⟨without, with_⟩ := allocLocked_packed (Nat.not_le.mp inside) separate
  rw [← List.append_assoc] at without with_
  obtain ⟨start, finish⟩ := sameButLists_bounds same
  rw [sameButLists_cached same, start, finish]
  exact handOut_packed without with_

theorem cacheFree_separate_iff (cpu addr : Nat) :
    Separate (ledger.perform (.cacheFree cpu addr)) ↔ FreesOwn ledger (.cacheFree cpu addr) := by
  unfold FreesOwn Ledger.perform
  dsimp only
  by_cases opened : CacheOpen ledger.allocator cpu
  · obtain ⟨result, pushed⟩ := percpuCacheFree_open opened addr
    rw [result]
    have front : ((ledger.allocator.freeBlocks ++ (ledger.allocator.setCache cpu
        (addr :: ledger.allocator.cache cpu)).cachedBlocks) ++ release ledger.live ⟨addr, 0⟩).Perm
        (⟨addr, 0⟩ :: (ledger.allocator.freeBlocks ++ ledger.allocator.cachedBlocks ++
          release ledger.live ⟨addr, 0⟩)) := by
      exact ((pushed.append_left _).trans List.perm_middle).append_right _
    rw [imp_iff_right opened, returnable_iff separate]
    exact ⟨packed_perm front, packed_perm front.symm⟩
  · rw [percpuCacheFree_closed opened]
    exact iff_of_true separate fun isOpen => absurd isOpen opened

theorem free_separate_iff (addr order : Nat) :
    Separate (ledger.perform (.free addr order)) ↔ FreesOwn ledger (.free addr order) := by
  unfold FreesOwn Ledger.perform
  dsimp only
  split
  next large => exact iff_of_true separate fun inside => absurd inside (Nat.not_lt.mpr large)
  next inside =>
  rw [Nat.not_le] at inside
  rw [imp_iff_right inside]
  split
  next accepted =>
    have same := coalesce_same ledger.allocator addr order (maxOrder - 1 - order)
    obtain ⟨start, finish⟩ := sameButLists_bounds same
    have recut := @tryCoalesce_recut _ addr ledger.allocator inside (accepts_aligned accepted)
    have cut := recut.packed ledger.allocator.memStart ledger.allocator.memEnd
      (ledger.allocator.cachedBlocks ++ release ledger.live ⟨addr, order⟩)
    rw [imp_iff_right accepted, returnable_iff separate, List.append_assoc]
    unfold Separate Ledger.blocks tryCoalesce
    rw [sameButLists_cached same, start, finish, List.append_assoc]
    exact cut.symm
  next refused => exact iff_of_true separate fun accepted => absurd accepted refused

/-- A live block may be returned whole or in aligned parts. -/
theorem part_returnable (live : owner ∈ ledger.live) (aligned : Aligned pageShift block)
    (inside : Inside pageShift owner block) : Returnable ledger block := by
  have member : owner ∈ ledger.blocks := List.mem_append_right _ live
  have apart : ∀ b ∈ ledger.blocks, b ≠ owner → Apart pageShift block b := by
    intro b inBlocks different
    exact inside_apart inside (separate.apart.forall member inBlocks (Ne.symm different))
  constructor
  case aligned => exact aligned
  case within =>
    have bounds := separate.within owner member
    unfold Within Inside at *
    omega
  case unfree =>
    intro b free
    have pair := (List.pairwise_append.mp separate.apart).2.2 b free owner live
    exact inside_apart inside (apart_symm pair)
  case owned =>
    intro b inLive
    by_cases same : b = owner
    · rw [same]
      exact .inr inside
    · exact .inl (apart b (List.mem_append_right _ inLive) same)

end

/-- A section keeps pages apart exactly if it frees only what may be returned. -/
theorem perform_separate_iff (separate : Separate ledger) (locked : Locked) :
    Separate (ledger.perform locked) ↔ FreesOwn ledger locked := by
  cases locked with
  | cacheAlloc cpu => exact iff_of_true (cacheAlloc_separate separate cpu) trivial
  | alloc order => exact iff_of_true (alloc_separate separate order) trivial
  | cacheFree cpu addr => exact cacheFree_separate_iff separate cpu addr
  | free addr order => exact free_separate_iff separate addr order

end

/-- However the calls of the CPUs interleave, no page is ever in two places exactly if each
free is of a block that may be returned. -/
theorem pages_separate_iff_frees_own {start : Ledger} {history : List (Locked × Ledger)}
    (separate : Separate start) (trace : Trace LedgerStep start history) :
    Trace (Guarded FreesOwn LedgerStep) start history ↔
      ∀ visited ∈ history, Separate visited.2 := by
  have keeps : ∀ before locked after, Separate before → FreesOwn before locked →
      LedgerStep before locked after → Separate after := by
    intro before locked after holds own step
    rw [step]
    exact (perform_separate_iff holds locked).mpr own
  have needed : ∀ before locked after, Separate before → LedgerStep before locked after →
      Separate after → FreesOwn before locked := by
    intro before locked after holds step later
    rw [step] at later
    exact (perform_separate_iff holds locked).mp later
  exact trace_guarded_iff keeps (fun _ holds => holds) needed separate trace

variable {reservedEnd : Nat} {after : BuddyAllocator}

section Init

variable {memEnd : Nat}

theorem largestOrder_spec (start : pageSize ∣ addr) (finish : pageSize ∣ memEnd)
    (below : addr < memEnd) (roomy : memEnd + 2 ^ 21 ≤ 2 ^ 64) (small : order ≤ 9) :
    largestOrder memEnd addr order ≤ order ∧
      Aligned pageShift ⟨addr, largestOrder memEnd addr order⟩ ∧
      addr + blockSize (largestOrder memEnd addr order) ≤ memEnd := by
  induction order with
  | zero => exact ⟨Nat.le_refl 0, Nat.mod_eq_zero_of_dvd start, dvd_gap start finish below⟩
  | succ order ih =>
    obtain ⟨le, aligned, fits⟩ := ih (by omega)
    have smaller := And.intro (Nat.le_succ_of_le le) (And.intro aligned fits)
    unfold largestOrder
    split
    · exact smaller
    next whole =>
    split
    · exact smaller
    next inside =>
    -- the sum cannot wrap around so far below the end of the address space
    have limit : blockSize (order + 1) ≤ 2 ^ 21 :=
      Nat.pow_le_pow_right (by decide) (Nat.add_le_add_left small pageShift)
    rw [Nat.mod_eq_of_lt (by omega)] at inside
    exact ⟨Nat.le_refl _, not_not.mp whole, Nat.not_lt.mp inside⟩

theorem addBlocks_same (allocator : BuddyAllocator) (addr rounds : Nat) :
    SameButLists allocator (allocator.addBlocks addr rounds) := by
  induction rounds generalizing allocator addr with
  | zero => rfl
  | succ rounds ih =>
    unfold addBlocks
    split
    · have first : SameButLists allocator (allocator.addToFreeList addr
          (largestOrder allocator.memEnd addr (maxOrder - 1))) := rfl
      exact sameButLists_trans first (ih _ _)
    · rfl

theorem addBlocks_packed {allocator : BuddyAllocator} (rounds : Nat) (above : low ≤ addr)
    (start : pageSize ∣ addr) (finish : pageSize ∣ allocator.memEnd)
    (roomy : allocator.memEnd + 2 ^ 21 ≤ 2 ^ 64)
    (packed : Packed pageShift low allocator.memEnd allocator.freeBlocks)
    (passed : ∀ b ∈ allocator.freeBlocks, b.addr + size pageShift b.order ≤ addr) :
    Packed pageShift low allocator.memEnd (allocator.addBlocks addr rounds).freeBlocks := by
  induction rounds generalizing allocator addr with
  | zero => exact packed
  | succ rounds ih =>
    unfold addBlocks
    split
    next below =>
      obtain ⟨le, aligned, fits⟩ := largestOrder_spec start finish below roomy (Nat.le_refl 9)
      have inside : largestOrder allocator.memEnd addr 9 < maxOrder := Nat.lt_succ_of_le le
      have added := addToFreeList_blocks allocator addr inside
      have unwrapped : (addr + blockSize (largestOrder allocator.memEnd addr 9)) % 2 ^ 64 =
          addr + blockSize (largestOrder allocator.memEnd addr 9) := Nat.mod_eq_of_lt (by omega)
      have page : pageSize ∣ blockSize (largestOrder allocator.memEnd addr 9) :=
        @size_dvd pageShift 0 _ (Nat.zero_le _)
      dsimp only [maxOrder, Nat.reduceSub]
      rw [unwrapped]
      have more : Packed pageShift low allocator.memEnd
          (allocator.addToFreeList addr (largestOrder allocator.memEnd addr 9)).freeBlocks := by
        apply packed_perm added.symm
        rw [packed_cons]
        exact ⟨aligned, ⟨above, fits⟩, fun b member => .inr (passed b member), packed⟩
      apply @ih _ (allocator.addToFreeList addr (largestOrder allocator.memEnd addr 9))
        (Nat.le_add_right_of_le above) (Nat.dvd_add start page) finish roomy more
      intro b member
      rcases List.mem_cons.mp (added.mem_iff.mp member) with rfl | earlier
      · exact Nat.le_refl _
      · exact Nat.le_add_right_of_le (passed b earlier)
    · exact packed

variable {allocator : BuddyAllocator} {memStart : Nat}

theorem init_blank (started : allocator.init memStart memEnd reservedEnd = (true, after)) :
    ∃ (blank : BuddyAllocator) (rounds : Nat),
      blank.memStart = pageAlignUp memStart ∧ blank.memEnd = pageAlignDown memEnd ∧
      blank.freeAreas = (fun _ => ⟨[], 0⟩) ∧ blank.cache = allocator.cache ∧
      after = { blank.addBlocks (pageAlignUp reservedEnd) rounds with
        initialized := true, cacheEnabled := true } := by
  unfold init at started
  split at started
  · cases started
  dsimp only at started
  split at started
  · cases started
  · cases started
    exact ⟨{ allocator with
      memStart := pageAlignUp memStart, memEnd := pageAlignDown memEnd,
      freeAreas := fun _ => ⟨[], 0⟩ }, _, rfl, rfl, rfl, rfl, rfl⟩

theorem init_separate (empty : ∀ cpu, allocator.cache cpu = [])
    (started : allocator.init memStart memEnd reservedEnd = (true, after))
    (above : pageAlignUp memStart ≤ pageAlignUp reservedEnd) (roomy : memEnd + 2 ^ 21 ≤ 2 ^ 64) :
    Separate ⟨after, []⟩ := by
  obtain ⟨blank, rounds, start, finish, areas, caches, rfl⟩ := init_blank started
  have below : pageAlignDown memEnd ≤ memEnd := Nat.div_mul_le_self ..
  have lists : blank.freeBlocks = [] := by
    unfold BuddyAllocator.freeBlocks
    simp [Buckets.gather, areas]
  have uncached : blank.cachedBlocks = [] := by
    unfold BuddyAllocator.cachedBlocks
    simp [Buckets.gather, caches, empty]
  have packed := @addBlocks_packed (pageAlignUp memStart) (pageAlignUp reservedEnd) blank rounds
    above (Nat.dvd_mul_left ..) (finish ▸ Nat.dvd_mul_left ..) (by omega) (lists ▸ packed_nil)
    (by simp [lists])
  have same := addBlocks_same blank (pageAlignUp reservedEnd) rounds
  have bounds := sameButLists_bounds same
  have cached := (sameButLists_cached same).trans uncached
  change Packed pageShift (blank.addBlocks ..).memStart (blank.addBlocks ..).memEnd
    ((blank.addBlocks ..).freeBlocks ++ (blank.addBlocks ..).cachedBlocks ++ [])
  rw [bounds.1, bounds.2, cached, start, List.append_nil, List.append_nil]
  exact packed

end Init

def bareAllocator : BuddyAllocator := ⟨false, 0, 0, fun _ => ⟨[], 0⟩, false, fun _ => []⟩

def eightPages : Ledger := ⟨(bareAllocator.init 0x44000000 0x44008000 0x44000000).2, []⟩

theorem eightPages_separate : Separate eightPages := by
  have started : (bareAllocator.init 0x44000000 0x44008000 0x44000000).1 = true := by decide
  exact init_separate (fun _ => rfl) (Prod.ext started rfl) (Nat.le_refl _) (by decide)

def twoPages : Ledger := eightPages.perform (.alloc 1)

def pairHistory : List (Locked × Ledger) :=
  [(.alloc 1, twoPages), (.cacheFree 0 0x44007000, twoPages.perform (.cacheFree 0 0x44007000)),
    (.free 0x44006000 0, (twoPages.perform (.cacheFree 0 0x44007000)).perform (.free 0x44006000 0))]

/-- Two pages are allocated and come back one by one, over the cache and over the lists. -/
theorem pair_returned_separate : Trace (Guarded FreesOwn LedgerStep) eightPages pairHistory ∧
    ∀ visited ∈ pairHistory, Separate visited.2 := by
  have first := alloc_separate eightPages_separate 1
  have owned : (⟨0x44006000, 1⟩ : Block) ∈ twoPages.live := by decide
  have upper : FreesOwn twoPages (.cacheFree 0 0x44007000) := fun _ =>
    part_returnable first owned (by decide) (by decide)
  have second := (perform_separate_iff first _).mpr upper
  have left : (⟨0x44006000, 0⟩ : Block) ∈ (twoPages.perform (.cacheFree 0 0x44007000)).live := by
    decide
  have lower : FreesOwn (twoPages.perform (.cacheFree 0 0x44007000)) (.free 0x44006000 0) :=
    fun _ _ => part_returnable second left (by decide) ⟨Nat.le_refl _, Nat.le_refl _⟩
  have trace : Trace LedgerStep eightPages pairHistory := ⟨rfl, rfl, rfl, trivial⟩
  refine ⟨?guarded, (pages_separate_iff_frees_own eightPages_separate trace).mp ?guarded⟩
  exact ⟨⟨trivial, rfl⟩, ⟨upper, rfl⟩, ⟨lower, rfl⟩, trivial⟩

def freedTwice : List (Locked × Ledger) :=
  let one := eightPages.perform (.alloc 0)
  let cached := one.perform (.cacheFree 0 0x44007000)
  let again := cached.perform (.cacheFree 0 0x44007000)
  let taken := again.perform (.cacheAlloc 0)
  [(.alloc 0, one), (.cacheFree 0 0x44007000, cached), (.cacheFree 0 0x44007000, again),
    (.cacheAlloc 0, taken), (.cacheAlloc 0, taken.perform (.cacheAlloc 0))]

/-- The second free of a page is not noticed, and two callers get the page. -/
theorem page_handed_out_twice : Separate eightPages ∧ Trace LedgerStep eightPages freedTwice ∧
    ∃ visited ∈ freedTwice, visited.2.live = [⟨0x44007000, 0⟩, ⟨0x44007000, 0⟩] ∧
      ¬ Separate visited.2 := by
  have twice : (freedTwice.map fun visited => visited.2.live).getLast? =
      some [⟨0x44007000, 0⟩, ⟨0x44007000, 0⟩] := by
    decide
  refine ⟨eightPages_separate, ⟨rfl, rfl, rfl, rfl, rfl, trivial⟩, ?_⟩
  obtain ⟨visited, member, live⟩ := List.mem_map.mp (List.mem_of_getLast? twice)
  refine ⟨visited, member, live, ?_⟩
  intro separate
  have pair := separate.apart.sublist (List.sublist_append_right _ visited.2.live)
  rw [live] at pair
  have apart : Apart pageShift ⟨0x44007000, 0⟩ ⟨0x44007000, 0⟩ :=
    (List.pairwise_cons.mp pair).1 _ (.head _)
  exact absurd apart (by decide)

end ViperDos.Buddy
