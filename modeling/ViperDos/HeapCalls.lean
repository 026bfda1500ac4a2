import ViperDos.HeapCoalescing
import ViperDos.Transition

/-!
Every sequence of `kmalloc`, `krealloc` and `kfree` on any CPUs. A caller keeps the blocks it
was given and what it asked for, and returns only those.
-/

namespace ViperDos.KHeap

open Buckets Tilings Heap BlockHeader Transition Function

variable {heap : Heap} {size : Nat}

/-- Below the top of the address space a request needs its bytes and a header. -/
theorem requiredSize_spec (some : 0 < size) (small : size + 31 < 2 ^ 64) :
    size + headerSize ≤ requiredSize size ∧ alignment ∣ requiredSize size ∧
      2 * alignment ≤ requiredSize size := by
  unfold requiredSize alignUp headerSize alignment minBlockSize
  dsimp only
  split <;> omega

def Grants (heap : Heap) (allocPages : Nat → Nat) (size : Nat) : Prop :=
  allocPages (pagesNeeded (requiredSize size)) ≠ 0 →
    Granted heap (allocPages (pagesNeeded (requiredSize size))) (pagesNeeded (requiredSize size))

variable {cpu index block want required ptr : Nat} {ask allocPages : Nat → Nat}
  {live rest : List Nat} {result : Nat × Heap}

theorem arenaHead_some (first : heap.arenaHead cpu index = some block) :
    cpu < maxCpus ∧ index < percpuSizeClasses ∧
      (heap.arenas cpu index).blocks = block :: (heap.arenas cpu index).blocks.tail := by
  unfold arenaHead at first
  split at first
  next enabled => exact ⟨enabled.2.2, enabled.2.1, (List.cons_head?_tail first).symm⟩
  · cases first

theorem arenaHead_cached (first : heap.arenaHead cpu index = some block) :
    block ∈ heap.cachedBlocks := by
  obtain ⟨core, small, found⟩ := arenaHead_some first
  refine mem_gather.mpr ⟨cpu, core, mem_gather.mpr ⟨index, small, ?_⟩⟩
  rw [found]
  exact .head _

theorem takeArena_settled (settled : Settled ask heap live)
    (first : heap.arenaHead cpu index = some block) (wanted : want + headerSize ≤ heap.size block) :
    Settled (update ask block want) (heap.takeArena cpu index block) (block :: live) := by
  have outside : block ∉ live := live_not_free settled
    (List.mem_append_left _ (List.mem_append_right _ (arenaHead_cached first)))
  obtain ⟨core, small, found⟩ := arenaHead_some first
  have asked := ask_update settled outside want
  have ready : (update ask block want) block + headerSize ≤ heap.size block := by
    rw [update_self]
    exact wanted
  generalize update ask block want = asks at *
  have popped := @uncache_laid block heap cpu index _ _ ((heap.arenas cpu index).count - 1) [] live
    _ asks asked core small found
  have marked := remark_laid popped (size_setUsed (heap.headers block))
  have done := use_laid marked (setUsed_marked _ block (heap.headers block)) (by
    rw [size_setHeader, size_setUsed]
    exact ready)
  exact counters_laid done _ _

/-- Nothing is handed out and `live` stays, or a block is, beside those of `rest`. -/
def HandsOut (ask : Nat → Nat) (live rest : List Nat) (want : Nat) (result : Nat × Heap) : Prop :=
  (result.1 = 0 ∧ Settled ask result.2 live) ∨ ∃ block, result.1 = block + headerSize ∧
    Settled (update ask block want) result.2 (block :: rest)

/-- The global part of `kmalloc` hands out a block of the needed size, or nothing. -/
theorem kmallocGlobal_settled (settled : Settled ask heap live) (inside : index < numSizeClasses)
    (granted : allocPages (pagesNeeded required) ≠ 0 →
      Granted heap (allocPages (pagesNeeded required)) (pagesNeeded required))
    (whole : alignment ∣ required) (large : 2 * alignment ≤ required)
    (wanted : want + headerSize ≤ required) :
    HandsOut ask live live want (heap.kmallocGlobal allocPages required index) := by
  have classes : index + (numSizeClasses - index) ≤ numSizeClasses := by omega
  unfold kmallocGlobal
  rw [searchLists_sound settled required classes]
  cases hit : heap.findBlock required index (numSizeClasses - index) with
  | some pair =>
    obtain ⟨block, found⟩ := pair
    obtain ⟨below, member, fits⟩ := findBlock_some classes hit
    exact .inr ⟨block, rfl, takeBlock_settled settled below member fits whole large wanted⟩
  | none =>
    dsimp only
    obtain ⟨grown, used⟩ := expandHeap_laid settled granted
    cases expanded : heap.expandHeap allocPages required with
    | mk success larger =>
      rw [expanded] at grown used
      have settled' : Settled ask larger live := by
        unfold Settled
        rw [used]
        exact grown
      cases success with
      | false => exact .inl ⟨rfl, settled'⟩
      | true =>
        dsimp only
        cases hit : larger.findBlock required index (numSizeClasses - index) with
        | none => exact .inl ⟨rfl, settled'⟩
        | some pair =>
          obtain ⟨block, found⟩ := pair
          obtain ⟨below, member, fits⟩ := findBlock_some classes hit
          exact .inr ⟨block, rfl, takeBlock_settled settled' below member fits whole large wanted⟩

theorem kmalloc_settled (settled : Settled ask heap live) (small : size + 31 < 2 ^ 64)
    (grants : Grants heap allocPages size) (wanted : want ≤ size)
    (first : ∀ block, heap.arenaHead cpu (getSizeClass (requiredSize size)) = some block →
      want + headerSize ≤ heap.size block) :
    HandsOut ask live live want (heap.kmalloc allocPages cpu size) := by
  unfold kmalloc
  split
  · exact .inl ⟨rfl, settled⟩
  next nonzero =>
  obtain ⟨bytes, whole, large⟩ := requiredSize_spec (Nat.pos_of_ne_zero nonzero) small
  dsimp only
  split
  next block head =>
    exact .inr ⟨block, rfl, takeArena_settled settled head (first block head)⟩
  · exact kmallocGlobal_settled settled (getSizeClass_lt _) grants whole large (by omega)

section Free

theorem ptrToHeader_block (small : block < 2 ^ 64) : ptrToHeader (block + headerSize) = block := by
  unfold ptrToHeader headerSize
  omega

variable (settled : Settled ask heap live)

include settled

theorem block_bounded (member : block ∈ heap.blocks [] live) : block < 2 ^ 64 := by
  obtain ⟨r, region, inside⟩ := isInHeap_iff.mp (block_inHeap settled member)
  have bound := (settled.bounded r region).2
  unfold Covers at inside
  omega

theorem size_le_heapSize (member : block ∈ heap.blocks [] live) :
    heap.size block ≤ heap.heapSize := by
  have sum := @sizes_perm heap _ _ (List.perm_cons_erase member)
  rw [sizes_cons, settled.total] at sum
  omega

variable (found : live.Perm (block :: rest))

include found

theorem putArena_settled (core : cpu < maxCpus)
    (small : getSizeClass (heap.size block) < percpuSizeClasses) :
    Settled ask (heap.putArena cpu block) rest := by
  have back := giveBack_laid settled found
  have freed := remark_laid back (size_setFree (heap.headers block))
  have cached := @cache_laid block _ cpu (getSizeClass (heap.size block)) _ _
    ((heap.arenas cpu (getSizeClass (heap.size block))).count + 1) [] rest ask freed
    (setFree_marked heap block) core small
  exact counters_laid cached _ _

/-- An allocated block is freed into the lists; none of the checks refuses it. -/
theorem kfreeGlobal_settled :
    Settled ask (heap.kfreeGlobal (block + headerSize) block) rest := by
  have member : block ∈ live := found.mem_iff.mpr (.head _)
  have shaped := settled.shaped block (live_subset block member)
  have large := shaped.large
  obtain ⟨magic, flag⟩ := settled.markedUsed block member
  have inside : heap.isInHeap (block + headerSize) = true := by
    apply laid_inHeap settled (live_subset block member)
    · exact Nat.le_add_right ..
    · unfold headerSize alignment at *
      omega
  have valid : (heap.headers block).isValid = true := by
    unfold isValid
    simp [magic]
  have fits := size_le_heapSize settled (live_subset block member)
  unfold kfreeGlobal
  dsimp only
  rw [inside, valid, flag, if_neg (by decide), if_neg (not_not.mpr (Nat.mod_eq_zero_of_dvd shaped.place)),
    if_neg (by decide), if_neg (by decide), if_neg (by
      unfold minBlockSize alignment Heap.size at *
      omega)]
  refine (coalesce_settled ?_).1
  have filed := addToFreeList_laid
    (counters_laid (giveBack_laid settled found) (heap.totalFree + (heap.headers block).size)
      (heap.totalAllocated - (heap.headers block).size))
  unfold Settled
  rw [(addToFreeList_counters _ _).1, (addToFreeList_counters _ _).2]
  exact filed

theorem kfree_settled : Settled ask (heap.kfree cpu (block + headerSize)) rest := by
  have member : block ∈ live := found.mem_iff.mpr (.head _)
  unfold kfree
  rw [if_neg (by unfold headerSize; omega), ptrToHeader_block
    (block_bounded settled (live_subset block member))]
  dsimp only
  split
  next goes =>
    have conditions := of_decide_eq_true goes
    exact putArena_settled settled found conditions.2.2.2.2.1 conditions.2.2.2.1
  · exact kfreeGlobal_settled settled found

end Free

structure HeapUse where
  heap : Heap
  live : List Nat
  asked : Nat → Nat

/-- A call, with the answers `pmm::alloc_pages` gives during it, or a store of anyone. -/
inductive HeapCall where
  | kmalloc (allocPages : Nat → Nat) (cpu size : Nat)
  | kfree (cpu ptr : Nat)
  | krealloc (allocPages : Nat → Nat) (cpu ptr newSize : Nat)
  | store (headers : Nat → BlockHeader)

def HeapUse.keep (use : HeapUse) (size : Nat) (result : Nat × Heap) : HeapUse :=
  if result.1 = 0 then { use with heap := result.2 }
  else
    let block := result.1 - headerSize
    ⟨result.2, block :: use.live, update use.asked block size⟩

def HeapUse.forget (use : HeapUse) (ptr : Nat) (heap : Heap) : HeapUse :=
  if ptr = 0 then { use with heap := heap }
  else { use with heap := heap, live := use.live.erase (ptr - headerSize) }

def HeapUse.perform (use : HeapUse) : HeapCall → HeapUse
  | .kmalloc allocPages cpu bytes => use.keep bytes (use.heap.kmalloc allocPages cpu bytes)
  | .kfree cpu ptr => use.forget ptr (use.heap.kfree cpu ptr)
  | .krealloc allocPages cpu ptr newSize =>
    let result := use.heap.krealloc allocPages cpu ptr newSize
    if ptr = 0 then use.keep newSize result
    else if newSize = 0 then use.forget ptr result.2
    else if result.1 = 0 then { use with heap := result.2 }
    else (use.forget ptr result.2).keep newSize result
  | .store headers => { use with heap := { use.heap with headers := headers } }

def HeapStep (before : HeapUse) (call : HeapCall) (after : HeapUse) : Prop :=
  after = before.perform call

def Known (use : HeapUse) (ptr : Nat) : Prop :=
  ptr = 0 ∨ ∃ block ∈ use.live, ptr = block + headerSize

def Moves (heap : Heap) (ptr newSize : Nat) : Prop :=
  ptr = 0 ∨ heap.size (ptrToHeader ptr) - headerSize < newSize

/-- Pointers are used as they were given, a request does not run over the top of the address
space, and the pages for it are whole pages outside the heap. Stores keep the headers. -/
def Regular (use : HeapUse) : HeapCall → Prop
  | .kmalloc allocPages _ bytes => bytes + 31 < 2 ^ 64 ∧ Grants use.heap allocPages bytes
  | .kfree _ ptr => Known use ptr
  | .krealloc allocPages _ ptr newSize => Known use ptr ∧ (Moves use.heap ptr newSize →
      newSize + 31 < 2 ^ 64 ∧ Grants use.heap allocPages newSize)
  | .store headers => ∀ block ∈ use.heap.blocks [] use.live, headers block = use.heap.headers block

def HeadFits (heap : Heap) (cpu size want : Nat) : Prop :=
  ∀ block, heap.arenaHead cpu (getSizeClass (requiredSize size)) = some block →
    want + headerSize ≤ heap.size block

def ArenaFits (scale : Nat → Nat) (use : HeapUse) : HeapCall → Prop
  | .kmalloc _ cpu bytes => HeadFits use.heap cpu bytes (scale bytes)
  | .krealloc _ cpu ptr newSize =>
    Moves use.heap ptr newSize → HeadFits use.heap cpu newSize (scale newSize)
  | _ => True

variable {call : HeapCall}

section Steps

-- `scale` is what is counted of the bytes that were asked: all of them, or none
variable {scale : Nat → Nat} {use : HeapUse}

theorem keep_settled
    (outcome : HandsOut (scale ∘ use.asked) use.live use.live (scale size) result) :
    Settled (scale ∘ (use.keep size result).asked) (use.keep size result).heap
      (use.keep size result).live := by
  unfold HeapUse.keep
  rcases outcome with ⟨null, settled⟩ | ⟨block, pointer, settled⟩
  · rw [if_pos null]
    exact settled
  · rw [if_neg (by unfold headerSize at pointer; omega), pointer]
    rw [Nat.add_sub_cancel, comp_update]
    exact settled

theorem inPlace_settled (settled : Settled ask heap live) (member : block ∈ live)
    (fits : size + headerSize ≤ heap.size block) :
    Settled (update ask block size) heap (block :: live.erase block) := by
  have back := giveBack_laid settled (List.perm_cons_erase member)
  have nodup : live.Nodup := (List.nodup_append'.mp (laid_nodup settled)).2.1
  have absent : block ∉ live.erase block := nodup.not_mem_erase
  have marked := settled.markedUsed block member
  have done := use_laid (ask_update back absent size) marked (by rw [update_self]; exact fits)
  have sum := @sizes_perm heap _ _ (List.perm_cons_erase member)
  rw [sizes_cons, settled.usedSum] at sum
  have total : heap.totalAllocated - heap.size block + heap.size block = heap.totalAllocated := by
    omega
  rwa [total] at done

theorem known_cases (settled : Settled ask use.heap use.live) (known : Known use ptr)
    (nonzero : ptr ≠ 0) : ∃ block ∈ use.live, ptr = block + headerSize ∧
      ptrToHeader ptr = block ∧ ptr - headerSize = block := by
  rcases known with null | ⟨block, member, rfl⟩
  · exact absurd null nonzero
  · exact ⟨block, member, rfl, ptrToHeader_block (block_bounded settled (live_subset block member)),
      Nat.add_sub_cancel ..⟩

theorem krealloc_outcome (below : ∀ n, scale n ≤ n)
    (settled : Settled (scale ∘ use.asked) use.heap use.live) (member : block ∈ use.live)
    (some : size ≠ 0)
    (request : Moves use.heap (block + headerSize) size → size + 31 < 2 ^ 64 ∧
      Grants use.heap allocPages size ∧ HeadFits use.heap cpu size (scale size)) :
    HandsOut (scale ∘ use.asked) use.live (use.live.erase block) (scale size)
      (use.heap.krealloc allocPages cpu (block + headerSize) size) := by
  have bounded := block_bounded settled (live_subset block member)
  have marked := settled.markedUsed block member
  unfold krealloc
  rw [if_neg (by unfold headerSize; omega), if_neg some, ptrToHeader_block bounded]
  rw [if_neg (not_not.mpr marked.magic)]
  split
  next fits =>
    have sizeBlock : (use.heap.headers block).size = use.heap.size block := rfl
    have scaled := below size
    have room : scale size + headerSize ≤ use.heap.size block := by
      omega
    exact .inr ⟨block, rfl, inPlace_settled settled member room⟩
  next moves =>
  obtain ⟨small, grants, head⟩ := request (.inr (by
    rw [ptrToHeader_block bounded]
    exact Nat.not_le.mp moves))
  have outcome := kmalloc_settled settled small grants (below size) head
  generalize use.heap.kmalloc allocPages cpu size = result at *
  obtain ⟨ptr, after⟩ := result
  rcases outcome with ⟨rfl, unchanged⟩ | ⟨other, rfl, taken⟩
  · exact .inl ⟨rfl, unchanged⟩
  · have perm : (other :: use.live).Perm (block :: other :: use.live.erase block) :=
      ((List.perm_cons_erase member).cons other).trans (List.Perm.swap ..)
    exact .inr ⟨other, rfl, kfree_settled taken perm⟩

theorem store_settled {headers : Nat → BlockHeader} (settled : Settled ask heap live)
    (same : ∀ b ∈ heap.blocks [] live, headers b = heap.headers b) :
    Settled ask { heap with headers := headers } live := by
  have outside : ∀ b ∈ heap.freeBlocks ++ heap.cachedBlocks ++ live,
      headers b = heap.headers b := by
    intro b member
    exact same b ((blocks_perm heap [] live).mem_iff.mpr member)
  exact @laid_recut heap { heap with headers := headers } _ _ [] live ask settled [] outside rfl rfl
    settled.bounded (fun _ tiled => tiled) (fun _ member => absurd member List.not_mem_nil) rfl

theorem perform_settled (below : ∀ n, scale n ≤ n)
    (settled : Settled (scale ∘ use.asked) use.heap use.live) (regular : Regular use call)
    (fits : ArenaFits scale use call) :
    Settled (scale ∘ (use.perform call).asked) (use.perform call).heap (use.perform call).live := by
  cases call with
  | kmalloc allocPages cpu bytes =>
    exact keep_settled (kmalloc_settled settled regular.1 regular.2 (below bytes) fits)
  | kfree cpu ptr =>
    unfold HeapUse.perform HeapUse.forget
    dsimp only
    split
    next null =>
      unfold kfree
      rw [if_pos null]
      exact settled
    next nonzero =>
      obtain ⟨block, member, rfl, -, here⟩ := known_cases settled regular nonzero
      exact kfree_settled settled (List.perm_cons_erase member)
  | krealloc allocPages cpu ptr newSize =>
    obtain ⟨known, request⟩ := regular
    have whole : Moves use.heap ptr newSize → newSize + 31 < 2 ^ 64 ∧
        Grants use.heap allocPages newSize ∧ HeadFits use.heap cpu newSize (scale newSize) :=
      fun moves => ⟨(request moves).1, (request moves).2, fits moves⟩
    unfold HeapUse.perform
    dsimp only
    split
    next null =>
      obtain ⟨small, grants, head⟩ := whole (.inl null)
      unfold krealloc
      rw [if_pos null]
      exact keep_settled (kmalloc_settled settled small grants (below newSize) head)
    next nonzero =>
    obtain ⟨block, member, rfl, header, here⟩ := known_cases settled known nonzero
    split
    next zero =>
      unfold krealloc HeapUse.forget
      rw [if_neg nonzero, if_neg nonzero, if_pos zero, here]
      exact kfree_settled settled (List.perm_cons_erase member)
    next some =>
    have outcome := krealloc_outcome below settled member some whole
    split
    next null =>
      rcases outcome with ⟨_, unchanged⟩ | ⟨other, given, _⟩
      · exact unchanged
      · unfold headerSize at given null
        omega
    next given =>
    apply keep_settled
    exact .inr (outcome.resolve_left fun failed => given failed.1)
  | store headers => exact store_settled settled regular

end Steps

section Runs

variable {use : HeapUse}

/-- Every block has room for a header, so nothing more is asked of the arenas. -/
theorem arenaFits_zero (settled : Settled ask use.heap use.live) :
    ArenaFits (fun _ => 0) use call := by
  have head : ∀ cpu size, HeadFits use.heap cpu size 0 := by
    intro cpu size block first
    have cached := arenaHead_cached first
    have large := (settled.shaped block (List.mem_append_left _ (List.mem_append_left _
      (List.mem_append_right _ cached)))).large
    unfold headerSize alignment at *
    omega
  cases call with
  | kmalloc allocPages cpu bytes => exact head cpu bytes
  | krealloc allocPages cpu ptr newSize => exact fun _ => head cpu newSize
  | kfree cpu ptr => trivial
  | store headers => trivial

theorem regular_settled (settled : Settled (fun _ => 0) use.heap use.live)
    (regular : Regular use call) :
    Settled (fun _ => 0) (use.perform call).heap (use.perform call).live :=
  @perform_settled call (fun _ => 0) use (fun _ => Nat.zero_le _) settled regular (arenaFits_zero settled)

/-- The bytes that were asked of a block are its own: it has them behind its header, and they
share no address with another block. -/
def Ample (use : HeapUse) : Prop :=
  ∀ block ∈ use.live, use.asked block + headerSize ≤ use.heap.size block ∧
    ∀ other ∈ use.heap.blocks [] use.live, other ≠ block →
      Apart ⟨block + headerSize, block + headerSize + use.asked block⟩ (use.heap.span other)

theorem settled_ample (settled : Settled use.asked use.heap use.live) : Ample use := by
  intro block member
  have enough := settled.enough block member
  refine ⟨enough, ?_⟩
  intro other listed different
  have apart := laid_apart settled (live_subset block member) listed different.symm
  unfold Apart span
  dsimp only
  omega

/-- In every run of regular calls that find large enough blocks in the arenas, every
allocation is large enough. -/
theorem allocations_ample {start : HeapUse} (settled : Settled start.asked start.heap start.live)
    {history : List (HeapCall × HeapUse)}
    (trace : Trace (Guarded (fun use call => Regular use call ∧ ArenaFits id use call) HeapStep)
      start history) : ∀ visited ∈ history, Ample visited.2 := by
  intro visited member
  refine settled_ample (@trace_invariant _ _ _
    (fun use => Settled use.asked use.heap use.live) start ?_ _ settled trace visited member)
  rintro before call after settled ⟨⟨regular, fits⟩, rfl⟩
  exact @perform_settled call id before (fun n => Nat.le_refl n) settled regular fits

structure Kept (use : HeapUse) : Prop where
  apart : ((use.heap.blocks [] use.live).map use.heap.span).Pairwise Apart
  inside : ∀ block ∈ use.heap.blocks [] use.live, ∃ r ∈ use.heap.regions,
    Within r (use.heap.span block)
  filled : ∀ r ∈ use.heap.regions, ∀ x, Covers r x →
    ∃ block ∈ use.heap.blocks [] use.live, Covers (use.heap.span block) x
  once : (use.heap.blocks [] use.live).Nodup
  accounts : use.heap.totalFree + use.heap.totalAllocated =
    use.heap.sizes (use.heap.blocks [] use.live)

theorem settled_accounts (settled : Settled ask use.heap use.live) :
    use.heap.totalFree + use.heap.totalAllocated = use.heap.sizes (use.heap.blocks [] use.live) ↔
      use.heap.cachedBlocks = [] := by
  have sum : use.heap.sizes (use.heap.blocks [] use.live) =
      use.heap.totalFree + use.heap.sizes use.heap.cachedBlocks + use.heap.totalAllocated := by
    rw [← settled.freeSum, ← settled.usedSum]
    unfold sizes blocks
    simp only [List.map_append, List.sum_append, List.append_nil]
  constructor
  · intro accounts
    cases cached : use.heap.cachedBlocks with
    | nil => rfl
    | cons block rest =>
      have member : block ∈ use.heap.blocks [] use.live := List.mem_append_left _
        (List.mem_append_left _ (List.mem_append_right _ (by rw [cached]; exact .head _)))
      have large := (settled.shaped block member).large
      rw [cached, sizes_cons] at sum
      unfold alignment at large
      omega
  · intro empty
    have none : use.heap.sizes use.heap.cachedBlocks = 0 := by rw [empty]; rfl
    omega

/-- In every run of regular calls the blocks tile the regions and each is at one place. Where
the regions do not touch, each block lies in one of them, and the counters account for all
blocks exactly while the arenas are empty. -/
theorem blocks_kept_iff {start : HeapUse} (settled : Settled (fun _ => 0) start.heap start.live)
    {history : List (HeapCall × HeapUse)} (trace : Trace (Guarded Regular HeapStep) start history) :
    ∀ visited ∈ history, Tiled visited.2.heap.regions
        ((visited.2.heap.blocks [] visited.2.live).map visited.2.heap.span) ∧
      (visited.2.heap.blocks [] visited.2.live).Nodup ∧
      (Clear visited.2.heap.regions → (Kept visited.2 ↔ visited.2.heap.cachedBlocks = [])) := by
  intro visited member
  have reached := @trace_invariant _ _ _ (fun use => Settled (fun _ => 0) use.heap use.live) start
    (by
      rintro before call after settled ⟨regular, rfl⟩
      exact regular_settled settled regular) _ settled trace visited member
  refine ⟨reached.tiled, laid_nodup reached, ?_⟩
  intro clear
  rw [← settled_accounts reached]
  constructor
  · intro kept
    exact kept.accounts
  intro accounts
  constructor
  case apart => exact reached.tiled.apart
  case inside =>
    intro block listed
    exact tiled_within reached.tiled clear (List.mem_map_of_mem listed)
  case filled =>
    intro r region x covers
    obtain ⟨s, spanned, inside⟩ := (reached.tiled.covers x).mpr ⟨r, region, covers⟩
    obtain ⟨block, listed, rfl⟩ := List.mem_map.mp spanned
    exact ⟨block, listed, inside⟩
  case once => exact laid_nodup reached
  case accounts => exact accounts

end Runs

theorem blank_laid (ask : Nat → Nat) (headers : Nat → BlockHeader) :
    Laid ask (blank headers) [] [] 0 0 where
  tiled := ⟨List.Pairwise.nil, by simp [blank, blocks, freeBlocks, cachedBlocks, gather],
    by simp [blank, blocks, freeBlocks, cachedBlocks, gather]⟩
  bounded := by simp [blank]
  shaped := by simp [blank, blocks, freeBlocks, cachedBlocks, gather]
  markedFree := by simp [blank, freeBlocks, cachedBlocks, gather]
  markedUsed := by simp
  filed := by simp [blank]
  counted := by simp [blank]
  total := rfl
  freeSum := rfl
  usedSum := rfl
  enough := by simp

/-- `init` leaves a settled heap, also when it gets no pages. -/
theorem init_settled {headers : Nat → BlockHeader} (ask : Nat → Nat) (granted : allocPages 16 ≠ 0 →
      pageSize ∣ allocPages 16 ∧ allocPages 16 + 16 * pageSize ≤ 2 ^ 64) :
    Settled ask (Heap.init headers allocPages) [] := by
  unfold Heap.init
  dsimp only
  generalize allocPages 16 = base at *
  split
  · exact blank_laid ask headers
  next nonzero =>
  obtain ⟨place, whole⟩ := granted nonzero
  have pages : Granted (blank headers) base 16 := by
    constructor
    case some => decide
    case whole => exact whole
    case place => exact place
    case fresh =>
      intro r region
      cases region
    case follows =>
      intro first
      exact absurd first nonzero
  have filed := @newBlock_laid (blank headers) 0 0 base 16 [] ask [⟨base, base + 16 * pageSize⟩]
    (base + 16 * pageSize) (blank_laid ask headers) pages (by simp [blank]) (by
      intro r region
      rw [List.mem_singleton.mp region]
      exact ⟨Nat.le_add_right .., whole⟩)
  have class_ : getSizeClass (BlockHeader.size ⟨blockMagicFree, 16 * pageSize⟩) =
      numSizeClasses - 1 := by decide
  unfold pushFront at filed
  rw [size_setHeader, class_, Nat.zero_add] at filed
  have empty : (blank headers).heapSize + 16 * pageSize = 16 * pageSize := Nat.zero_add _
  rw [empty] at filed
  exact @laid_move _ _ _ _ _ _ [] [] [] [] ask filed (List.Perm.refl _) rfl rfl rfl filed.markedFree
    filed.markedUsed filed.filed filed.counted filed.freeSum filed.usedSum filed.enough

def freshHeap : HeapUse :=
  ⟨Heap.init (fun _ => ⟨0, 0⟩) (fun _ => 0x44000000), [], fun _ => 0⟩

theorem freshHeap_settled (ask : Nat → Nat) : Settled ask freshHeap.heap freshHeap.live :=
  @init_settled (fun _ => 0x44000000) (fun _ => ⟨0, 0⟩) ask fun _ => by decide

def noPages : Nat → Nat := fun _ => 0

theorem noPages_grant (heap : Heap) (size : Nat) : Grants heap noPages size :=
  fun granted => absurd rfl granted

def oneBlock : HeapUse := freshHeap.perform (.kmalloc noPages 0 20)

def twoBlocks : HeapUse := oneBlock.perform (.kmalloc noPages 0 20)

/-- The first block goes to the arena, as the block behind it is in use. -/
def oneCached : HeapUse := twoBlocks.perform (.kfree 0 0x44000010)

def smallHistory : List (HeapCall × HeapUse) :=
  [(.kmalloc noPages 0 20, oneBlock), (.kmalloc noPages 0 20, twoBlocks),
    (.kfree 0 0x44000010, oneCached)]

theorem small_state : freshHeap.heap.arenaHead 0 (getSizeClass (requiredSize 20)) = none ∧
    oneBlock.heap.arenaHead 0 (getSizeClass (requiredSize 20)) = none ∧
    0x44000000 ∈ twoBlocks.live ∧ oneCached.heap.cachedBlocks = [0x44000000] ∧
    oneCached.heap.totalFree + oneCached.heap.totalAllocated + 48 = 2 ^ 16 ∧
    oneCached.heap.sizes (oneCached.heap.blocks [] oneCached.live) = 2 ^ 16 ∧
    (oneCached.perform (.kmalloc noPages 0 48)).live = [0x44000000, 0x44000030] ∧
    (oneCached.perform (.kmalloc noPages 0 48)).asked 0x44000000 = 48 ∧
    (oneCached.perform (.kmalloc noPages 0 48)).heap.size 0x44000000 = 48 := by
  decide

theorem small_regular : Regular freshHeap (.kmalloc noPages 0 20) ∧
    Regular oneBlock (.kmalloc noPages 0 20) ∧ Regular twoBlocks (.kfree 0 0x44000010) ∧
    Regular oneCached (.kmalloc noPages 0 48) :=
  ⟨⟨by decide, noPages_grant _ _⟩, ⟨by decide, noPages_grant _ _⟩,
    .inr ⟨_, small_state.2.2.1, rfl⟩, ⟨by decide, noPages_grant _ _⟩⟩

theorem small_requests_ample :
    Trace (Guarded (fun use call => Regular use call ∧ ArenaFits id use call) HeapStep) freshHeap
      smallHistory ∧ ∀ visited ∈ smallHistory, Ample visited.2 := by
  obtain ⟨empty, stillEmpty, -⟩ := small_state
  obtain ⟨first, second, third, -⟩ := small_regular
  have fits : ArenaFits id freshHeap (.kmalloc noPages 0 20) := fun _ head =>
    absurd (empty.symm.trans head) (by simp)
  have fitsNext : ArenaFits id oneBlock (.kmalloc noPages 0 20) := fun _ head =>
    absurd (stillEmpty.symm.trans head) (by simp)
  refine ⟨?trace, allocations_ample (freshHeap_settled _) ?trace⟩
  exact ⟨⟨⟨first, fits⟩, rfl⟩, ⟨⟨second, fitsNext⟩, rfl⟩, ⟨⟨third, trivial⟩, rfl⟩, trivial⟩

/-- A block of 48 bytes is cached with those of up to 64, and a request that needs 64 gets
it: its 48 bytes reach the header of the next block. -/
theorem cached_block_too_small : Trace (Guarded Regular HeapStep) freshHeap
      (smallHistory ++ [(.kmalloc noPages 0 48, oneCached.perform (.kmalloc noPages 0 48))]) ∧
    ¬ Ample (oneCached.perform (.kmalloc noPages 0 48)) := by
  obtain ⟨-, -, -, -, -, -, live, asked, size⟩ := small_state
  obtain ⟨first, second, third, fourth⟩ := small_regular
  refine ⟨⟨⟨first, rfl⟩, ⟨second, rfl⟩, ⟨third, rfl⟩, ⟨fourth, rfl⟩, trivial⟩, ?_⟩
  intro ample
  have enough := (ample 0x44000000 (by rw [live]; exact .head _)).1
  exact absurd enough (by decide)

/-- While nothing is cached the counters account for all blocks. -/
theorem two_blocks_kept : Trace (Guarded Regular HeapStep) freshHeap (smallHistory.take 2) ∧
    twoBlocks.heap.cachedBlocks = [] ∧ Kept twoBlocks := by
  obtain ⟨first, second, -⟩ := small_regular
  have trace : Trace (Guarded Regular HeapStep) freshHeap (smallHistory.take 2) :=
    ⟨⟨first, rfl⟩, ⟨second, rfl⟩, trivial⟩
  have state : twoBlocks.heap.cachedBlocks = [] ∧
      twoBlocks.heap.regions = [⟨0x44000000, 0x44010000⟩] := by decide
  have clear : Clear twoBlocks.heap.regions := by
    intro r first t second
    exact .inl ((List.mem_singleton.mp first).trans (List.mem_singleton.mp second).symm)
  have reached := blocks_kept_iff (freshHeap_settled _) trace
    (.kmalloc noPages 0 20, twoBlocks) (by simp [smallHistory])
  exact ⟨trace, state.1, (reached.2.2 clear).mpr state.1⟩

/-- A block in an arena is in neither counter. -/
theorem cached_block_unaccounted : Trace (Guarded Regular HeapStep) freshHeap smallHistory ∧
    ¬ Kept oneCached := by
  obtain ⟨-, -, -, -, counted, total, -⟩ := small_state
  obtain ⟨first, second, third, -⟩ := small_regular
  refine ⟨⟨⟨first, rfl⟩, ⟨second, rfl⟩, ⟨third, rfl⟩, trivial⟩, ?_⟩
  intro kept
  have accounts := kept.accounts
  omega

end ViperDos.KHeap
