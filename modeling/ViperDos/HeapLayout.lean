import ViperDos.KHeap

/-!
How the blocks of the kernel heap lie in its regions. A block is on a free list, in an arena,
allocated, or in the hand of the operation that is at work. The operations move blocks
between these places, and split and join the blocks in the hand.
-/

namespace ViperDos.KHeap

open Buckets Tilings Heap Function

namespace Heap

def span (heap : Heap) (block : Nat) : Span := ⟨block, block + heap.size block⟩

def sizes (heap : Heap) (blocks : List Nat) : Nat := (blocks.map heap.size).sum

def blocks (heap : Heap) (hand live : List Nat) : List Nat :=
  heap.freeBlocks ++ heap.cachedBlocks ++ hand ++ live

end Heap

structure Shaped (heap : Heap) (block : Nat) : Prop where
  place : alignment ∣ block
  size : alignment ∣ heap.size block
  large : 2 * alignment ≤ heap.size block

structure MarkedFree (heap : Heap) (block : Nat) : Prop where
  magic : (heap.headers block).magic = blockMagicFree
  flag : (heap.headers block).isFree = true

structure MarkedUsed (heap : Heap) (block : Nat) : Prop where
  magic : (heap.headers block).magic = blockMagicAlloc
  flag : (heap.headers block).isFree = false

/-- The regions are tiled by the blocks, and `free` and `used` are the sizes of the blocks on
the free lists and of the allocated ones. An allocated block has the bytes that were asked of
it. -/
structure Laid (ask : Nat → Nat) (heap : Heap) (hand live : List Nat) (free used : Nat) : Prop where
  tiled : Tiled heap.regions ((heap.blocks hand live).map heap.span)
  bounded : ∀ r ∈ heap.regions, r.start ≤ r.finish ∧ r.finish ≤ 2 ^ 64
  shaped : ∀ block ∈ heap.blocks hand live, Shaped heap block
  markedFree : ∀ block ∈ heap.freeBlocks ++ heap.cachedBlocks, MarkedFree heap block
  markedUsed : ∀ block ∈ live, MarkedUsed heap block
  filed : ∀ index < numSizeClasses, ∀ block ∈ (heap.freeLists index).blocks,
    getSizeClass (heap.size block) = index
  counted : ∀ index < numSizeClasses,
    (heap.freeLists index).count = (heap.freeLists index).blocks.length
  total : heap.sizes (heap.blocks hand live) = heap.heapSize
  freeSum : heap.sizes heap.freeBlocks = free
  usedSum : heap.sizes live = used
  enough : ∀ block ∈ live, ask block + headerSize ≤ heap.size block

theorem getSizeClass_lt (size : Nat) : getSizeClass size < numSizeClasses :=
  Nat.lt_succ_of_le List.findIdx_le_length

namespace BlockHeader

variable (header : BlockHeader)

theorem size_setFree : header.setFree.size = header.size := by
  unfold setFree size
  dsimp only
  omega

theorem size_setUsed : header.setUsed.size = header.size := by
  unfold setUsed size
  dsimp only
  omega

theorem isFree_setFree : header.setFree.isFree = true := by
  unfold setFree size isFree
  simp

theorem isFree_setUsed : header.setUsed.isFree = false := by
  unfold setUsed size isFree
  simp

theorem size_setSize {size : Nat} (even : alignment ∣ size) :
    (header.setSize size).size = size := by
  unfold setSize BlockHeader.size alignment at *
  dsimp only
  omega

end BlockHeader

variable {block other : Nat}

namespace Heap

variable (heap : Heap) (header : BlockHeader)

theorem headers_setHeader : (heap.setHeader block header).headers block = header :=
  update_self ..

theorem headers_setHeader_of_ne (different : other ≠ block) :
    (heap.setHeader block header).headers other = heap.headers other :=
  update_of_ne different ..

theorem size_setHeader : (heap.setHeader block header).size block = header.size := by
  unfold Heap.size
  rw [headers_setHeader]

theorem size_setHeader_of_ne (different : other ≠ block) :
    (heap.setHeader block header).size other = heap.size other := by
  unfold Heap.size
  rw [headers_setHeader_of_ne heap header different]

end Heap

variable {heap after : Heap} {b addr cpu index free used free' used' count part next : Nat}
  {left right hand live hand' live' rest listed : List Nat} {list : FreeList} {ask : Nat → Nat}
  {header first second : BlockHeader}

theorem MarkedFree.congr (marked : MarkedFree heap b) (same : after.headers b = heap.headers b) :
    MarkedFree after b :=
  ⟨same ▸ marked.magic, same ▸ marked.flag⟩

theorem MarkedUsed.congr (marked : MarkedUsed heap b) (same : after.headers b = heap.headers b) :
    MarkedUsed after b :=
  ⟨same ▸ marked.magic, same ▸ marked.flag⟩

theorem Shaped.congr (shaped : Shaped heap b) (same : after.size b = heap.size b) :
    Shaped after b :=
  ⟨shaped.place, same ▸ shaped.size, same ▸ shaped.large⟩

section Places

theorem sizes_perm (perm : left.Perm right) : heap.sizes left = heap.sizes right :=
  (perm.map _).sum_eq

theorem sizes_cons (heap : Heap) (block : Nat) (rest : List Nat) :
    heap.sizes (block :: rest) = heap.size block + heap.sizes rest := by
  simp [sizes]

variable {part : List Nat} (same : ∀ b ∈ part, after.size b = heap.size b)
include same

theorem spans_congr : part.map after.span = part.map heap.span := by
  apply List.map_congr_left
  intro b member
  unfold span
  rw [same b member]

theorem sizes_congr : after.sizes part = heap.sizes part := by
  unfold sizes
  rw [List.map_congr_left same]

omit same

theorem isInHeap_iff : heap.isInHeap addr = true ↔ ∃ r ∈ heap.regions, Covers r addr := by
  simp [isInHeap]

theorem freeBlocks_setList (heap : Heap) (index : Nat) (list : FreeList) :
    (heap.setList index list).freeBlocks = gather numSizeClasses
        (update (fun index => (heap.freeLists index).blocks) index list.blocks) := by
  have same : (fun other => ((update heap.freeLists index list) other).blocks) =
      update (fun index => (heap.freeLists index).blocks) index list.blocks :=
    comp_update FreeList.blocks heap.freeLists index list
  unfold freeBlocks setList
  rw [same]

theorem cachedBlocks_setArena (heap : Heap) :
    (heap.setArena cpu index list).cachedBlocks = gather maxCpus (update
        (fun cpu => gather percpuSizeClasses fun index => (heap.arenas cpu index).blocks) cpu
        (gather percpuSizeClasses (update (fun index => (heap.arenas cpu index).blocks)
          index list.blocks))) := by
  have inner : (fun other => ((update (heap.arenas cpu) index list) other).blocks) =
      update (fun index => (heap.arenas cpu index).blocks) index list.blocks :=
    comp_update FreeList.blocks (heap.arenas cpu) index list
  have outer := comp_update
    (fun lists : Nat → FreeList => gather percpuSizeClasses fun index => (lists index).blocks)
    heap.arenas cpu (update (heap.arenas cpu) index list)
  rw [inner] at outer
  exact congrArg (gather maxCpus) outer

variable (laid : Laid ask heap hand live free used)
include laid

theorem laid_nodup : (heap.blocks hand live).Nodup := by
  have starts := starts_nodup laid.tiled
  rw [List.map_map] at starts
  have same : Span.start ∘ heap.span = id := rfl
  rwa [same, List.map_id] at starts

theorem laid_inHeap (member : block ∈ heap.blocks hand live) (low : block ≤ addr)
    (high : addr < block + heap.size block) : heap.isInHeap addr = true := by
  rw [isInHeap_iff]
  exact covered laid.tiled (List.mem_map_of_mem member) ⟨low, high⟩

/-- Blocks change their places and no header changes. -/
theorem laid_move (perm : (heap.blocks hand live).Perm (after.blocks hand' live'))
    (regions : after.regions = heap.regions) (headers : after.headers = heap.headers)
    (heapSize : after.heapSize = heap.heapSize)
    (markedFree : ∀ block ∈ after.freeBlocks ++ after.cachedBlocks, MarkedFree heap block)
    (markedUsed : ∀ block ∈ live', MarkedUsed heap block)
    (filed : ∀ index < numSizeClasses, ∀ block ∈ (after.freeLists index).blocks,
      getSizeClass (heap.size block) = index) (counted : ∀ index < numSizeClasses,
      (after.freeLists index).count = (after.freeLists index).blocks.length)
    (freeSum : heap.sizes after.freeBlocks = free') (usedSum : heap.sizes live' = used')
    (enough : ∀ block ∈ live', ask block + headerSize ≤ heap.size block) :
    Laid ask after hand' live' free' used' := by
  cases heap
  cases after
  cases regions
  cases headers
  cases heapSize
  exact ⟨tiled_perm (perm.map _) laid.tiled, laid.bounded,
    fun b member => (laid.shaped b (perm.mem_iff.mpr member)).congr rfl,
    fun b member => (markedFree b member).congr rfl,
    fun b member => (markedUsed b member).congr rfl, filed, counted,
    (sizes_perm perm.symm).trans laid.total, freeSum, usedSum, enough⟩

theorem list_laid
    (perm : (heap.freeBlocks ++ hand).Perm ((heap.setList index list).freeBlocks ++ hand'))
    (marked : ∀ b ∈ (heap.setList index list).freeBlocks, MarkedFree heap b)
    (filed : ∀ b ∈ list.blocks, getSizeClass (heap.size b) = index)
    (counted : list.count = list.blocks.length)
    (freeSum : heap.sizes (heap.setList index list).freeBlocks = free') :
    Laid ask (heap.setList index list) hand' live free' used := by
  have whole : (heap.blocks hand live).Perm ((heap.setList index list).blocks hand' live) := by
    apply List.Perm.append_right
    rw [List.append_assoc, List.append_assoc]
    refine (List.perm_append_comm.append_left _).trans ?_
    rw [← List.append_assoc]
    refine (perm.append_right _).trans ?_
    rw [List.append_assoc]
    exact List.perm_append_comm.append_left _
  apply laid_move laid whole rfl rfl rfl
  case markedFree =>
    intro b member
    rcases List.mem_append.mp member with listed | cached
    · exact marked b listed
    · exact laid.markedFree b (List.mem_append_right _ cached)
  case markedUsed => exact laid.markedUsed
  case filed =>
    intro other small b member
    unfold setList at member
    by_cases here : other = index
    · subst here
      simp only [update_self] at member
      exact filed b member
    · simp only [update_of_ne here] at member
      exact laid.filed other small b member
  case counted =>
    intro other small
    unfold setList
    by_cases here : other = index
    · simp [here, counted]
    · simp [here, laid.counted other small]
  case freeSum => exact freeSum
  case usedSum => exact laid.usedSum
  case enough => exact laid.enough

theorem unlink_laid (inside : index < numSizeClasses)
    (found : (heap.freeLists index).blocks.Perm (block :: rest)) (length : count = rest.length) :
    Laid ask (heap.setList index ⟨rest, count⟩) (block :: hand) live (free - heap.size block) used := by
  have taken : heap.freeBlocks.Perm (block :: (heap.setList index ⟨rest, count⟩).freeBlocks) := by
    rw [freeBlocks_setList]
    exact gather_pop found inside
  apply list_laid laid ((taken.append_right _).trans List.perm_middle.symm)
  case marked =>
    intro b member
    exact laid.markedFree b (List.mem_append_left _ (taken.mem_iff.mpr (.tail _ member)))
  case filed =>
    intro b member
    exact laid.filed index inside b (found.mem_iff.mpr (.tail _ member))
  case counted => exact length
  case freeSum =>
    have sum := @sizes_perm heap _ _ taken
    rw [sizes_cons, laid.freeSum] at sum
    omega

omit laid in
theorem file_laid (laid : Laid ask heap (block :: hand) live free used)
    (marked : MarkedFree heap block) (class_ : getSizeClass (heap.size block) = index)
    (added : listed.Perm (block :: (heap.freeLists index).blocks))
    (length : count = listed.length) :
    Laid ask (heap.setList index ⟨listed, count⟩) hand live (free + heap.size block) used := by
  have inside : index < numSizeClasses := class_ ▸ getSizeClass_lt _
  have grown : (heap.setList index ⟨listed, count⟩).freeBlocks.Perm (block :: heap.freeBlocks) := by
    rw [freeBlocks_setList]
    exact gather_push added inside
  apply list_laid laid (List.perm_middle.trans (grown.append_right _).symm)
  case marked =>
    intro b member
    rcases List.mem_cons.mp (grown.mem_iff.mp member) with rfl | earlier
    · exact marked
    · exact laid.markedFree b (List.mem_append_left _ earlier)
  case filed =>
    intro b member
    rcases List.mem_cons.mp (added.mem_iff.mp member) with rfl | earlier
    · exact class_
    · exact laid.filed index inside b earlier
  case counted => exact length
  case freeSum =>
    have sum := @sizes_perm heap _ _ grown
    rw [sizes_cons, laid.freeSum] at sum
    omega

theorem arena_laid
    (perm : (heap.cachedBlocks ++ hand).Perm ((heap.setArena cpu index list).cachedBlocks ++ hand'))
    (marked : ∀ b ∈ (heap.setArena cpu index list).cachedBlocks, MarkedFree heap b) :
    Laid ask (heap.setArena cpu index list) hand' live free used := by
  have whole : (heap.blocks hand live).Perm ((heap.setArena cpu index list).blocks hand' live) := by
    apply List.Perm.append_right
    rw [List.append_assoc, List.append_assoc]
    exact perm.append_left _
  refine laid_move laid whole rfl rfl rfl ?_ laid.markedUsed laid.filed laid.counted laid.freeSum
    laid.usedSum laid.enough
  intro b member
  rcases List.mem_append.mp member with listed | cached
  · exact laid.markedFree b (List.mem_append_left _ listed)
  · exact marked b cached

theorem uncache_laid (core : cpu < maxCpus) (small : index < percpuSizeClasses)
    (found : (heap.arenas cpu index).blocks = block :: rest) :
    Laid ask (heap.setArena cpu index ⟨rest, count⟩) (block :: hand) live free used := by
  have taken : heap.cachedBlocks.Perm
      (block :: (heap.setArena cpu index ⟨rest, count⟩).cachedBlocks) := by
    rw [cachedBlocks_setArena]
    exact gather_pop (gather_pop (List.Perm.of_eq found) small) core
  apply arena_laid laid ((taken.append_right _).trans List.perm_middle.symm)
  intro b member
  exact laid.markedFree b (List.mem_append_right _ (taken.mem_iff.mpr (.tail _ member)))

omit laid in
theorem cache_laid (laid : Laid ask heap (block :: hand) live free used)
    (marked : MarkedFree heap block) (core : cpu < maxCpus) (small : index < percpuSizeClasses) :
    Laid ask (heap.setArena cpu index ⟨block :: (heap.arenas cpu index).blocks, count⟩) hand live free
      used := by
  have grown : (heap.setArena cpu index
      ⟨block :: (heap.arenas cpu index).blocks, count⟩).cachedBlocks.Perm
      (block :: heap.cachedBlocks) := by
    rw [cachedBlocks_setArena]
    exact gather_push (gather_push (.refl _) small) core
  apply arena_laid laid (List.perm_middle.trans (grown.append_right _).symm)
  intro b member
  rcases List.mem_cons.mp (grown.mem_iff.mp member) with rfl | earlier
  · exact marked
  · exact laid.markedFree b (List.mem_append_right _ earlier)

theorem live_laid (perm : (hand ++ live).Perm (hand' ++ live'))
    (marked : ∀ b ∈ live', MarkedUsed heap b)
    (usedSum : heap.sizes live' = used')
    (enough : ∀ b ∈ live', ask b + headerSize ≤ heap.size b) :
    Laid ask heap hand' live' free used' := by
  have whole : (heap.blocks hand live).Perm (heap.blocks hand' live') := by
    unfold blocks
    rw [List.append_assoc, List.append_assoc _ hand']
    exact perm.append_left _
  exact laid_move laid whole rfl rfl rfl laid.markedFree marked laid.filed laid.counted laid.freeSum
    usedSum enough

omit laid in
theorem use_laid (laid : Laid ask heap (block :: hand) live free used)
    (marked : MarkedUsed heap block) (large : ask block + headerSize ≤ heap.size block) :
    Laid ask heap hand (block :: live) free (used + heap.size block) := by
  apply live_laid laid List.perm_middle.symm
  case marked => exact List.forall_mem_cons.mpr ⟨marked, laid.markedUsed⟩
  case usedSum => rw [sizes_cons, laid.usedSum, Nat.add_comm]
  case enough => exact List.forall_mem_cons.mpr ⟨large, laid.enough⟩

theorem giveBack_laid (found : live.Perm (block :: rest)) :
    Laid ask heap (block :: hand) rest free (used - heap.size block) := by
  apply live_laid laid ((found.append_left _).trans List.perm_middle)
  case marked =>
    intro b member
    exact laid.markedUsed b (found.mem_iff.mpr (.tail _ member))
  case usedSum =>
    have sum := @sizes_perm heap _ _ found
    rw [sizes_cons, laid.usedSum] at sum
    omega
  case enough =>
    intro b member
    exact laid.enough b (found.mem_iff.mpr (.tail _ member))

theorem hand_laid {other : List Nat} (perm : hand.Perm other) :
    Laid ask heap other live free used :=
  live_laid laid (perm.append_right _) laid.markedUsed laid.usedSum laid.enough

end Places

section Headers

theorem hand_subset : ∀ b ∈ hand, b ∈ heap.blocks hand live := by
  intro b member
  exact List.mem_append_left _ (List.mem_append_right _ member)

theorem blocks_perm (heap : Heap) (hand live : List Nat) :
    (heap.blocks hand live).Perm (hand ++ (heap.freeBlocks ++ heap.cachedBlocks ++ live)) := by
  rw [← List.append_assoc]
  exact List.perm_append_comm.append_right _

section

variable (laid : Laid ask heap hand live free used)
include laid

theorem laid_apart {left right : Nat} (first : left ∈ heap.blocks hand live)
    (second : right ∈ heap.blocks hand live)
    (different : left ≠ right) : left + heap.size left ≤ right ∨ right + heap.size right ≤ left :=
  laid.tiled.apart.forall (List.mem_map_of_mem first) (List.mem_map_of_mem second)
    fun same => different (congrArg Span.start same)

theorem inner_not_block (member : block ∈ heap.blocks hand live) (low : block < addr)
    (high : addr < block + heap.size block) : addr ∉ heap.blocks hand live := by
  intro begins
  have apart := laid_apart laid member begins (Nat.ne_of_lt low)
  omega

/-- The headers of the blocks in the hand change, and with them the blocks and the regions. -/
theorem laid_recut {other : List Nat}
    (same : ∀ b ∈ heap.freeBlocks ++ heap.cachedBlocks ++ live, after.headers b = heap.headers b)
    (lists : after.freeLists = heap.freeLists) (arenas : after.arenas = heap.arenas)
    (bounded : ∀ r ∈ after.regions, r.start ≤ r.finish ∧ r.finish ≤ 2 ^ 64)
    (recut : ∀ rest, Tiled heap.regions (hand.map heap.span ++ rest) →
      Tiled after.regions (other.map after.span ++ rest)) (shaped : ∀ b ∈ other, Shaped after b)
    (total : after.sizes other + heap.heapSize = heap.sizes hand + after.heapSize) :
    Laid ask after other live free used := by
  have frees : after.freeBlocks = heap.freeBlocks := by simp only [freeBlocks, lists]
  have cached : after.cachedBlocks = heap.cachedBlocks := by simp only [cachedBlocks, arenas]
  have size : ∀ b ∈ heap.freeBlocks ++ heap.cachedBlocks ++ live, after.size b = heap.size b := by
    intro b member
    unfold Heap.size
    rw [same b member]
  have perm : (after.blocks other live).Perm
      (other ++ (heap.freeBlocks ++ heap.cachedBlocks ++ live)) := by
    have split := blocks_perm after other live
    rwa [frees, cached] at split
  have freeOutside : ∀ b ∈ heap.freeBlocks, b ∈ heap.freeBlocks ++ heap.cachedBlocks ++ live :=
    fun b member => List.mem_append_left _ (List.mem_append_left _ member)
  constructor
  case tiled =>
    apply tiled_perm (perm.map _).symm
    rw [List.map_append, spans_congr size]
    apply recut
    rw [← List.map_append]
    exact tiled_perm ((blocks_perm heap hand live).map _) laid.tiled
  case bounded => exact bounded
  case shaped =>
    intro b member
    rcases List.mem_append.mp (perm.mem_iff.mp member) with held | outside
    · exact shaped b held
    · exact (laid.shaped b ((blocks_perm heap hand live).mem_iff.mpr
        (List.mem_append_right _ outside))).congr (size b outside)
  case markedFree =>
    rw [frees, cached]
    intro b member
    exact (laid.markedFree b member).congr (same b (List.mem_append_left _ member))
  case markedUsed =>
    intro b member
    exact (laid.markedUsed b member).congr (same b (List.mem_append_right _ member))
  case filed =>
    rw [lists]
    intro index inside b member
    rw [size b (freeOutside b (mem_gather.mpr ⟨index, inside, member⟩))]
    exact laid.filed index inside b member
  case counted =>
    rw [lists]
    exact laid.counted
  case total =>
    have before := @sizes_perm heap _ _ (blocks_perm heap hand live)
    have later := @sizes_perm after _ _ perm
    have outside := sizes_congr size
    have whole := laid.total
    unfold sizes at *
    rw [List.map_append, List.sum_append] at before later
    omega
  case freeSum =>
    rw [frees, sizes_congr fun b member => size b (freeOutside b member)]
    exact laid.freeSum
  case usedSum =>
    rw [sizes_congr fun b member => size b (List.mem_append_right _ member)]
    exact laid.usedSum
  case enough =>
    intro b member
    rw [size b (List.mem_append_right _ member)]
    exact laid.enough b member

end

theorem size_rewritten (kept : header.size = heap.size block) :
    (heap.setHeader block header).size = heap.size := by
  funext b
  by_cases here : b = block
  · subst here
    rw [size_setHeader]
    exact kept
  · rw [size_setHeader_of_ne _ _ here]

/-- Writing the header of a block in the hand leaves those outside it. -/
theorem headers_outside (laid : Laid ask heap (block :: hand) live free used) (header : BlockHeader)
    (member : b ∈ heap.freeBlocks ++ heap.cachedBlocks ++ live) :
    (heap.setHeader block header).headers b = heap.headers b := by
  apply headers_setHeader_of_ne
  rintro rfl
  have nodup := (blocks_perm heap (b :: hand) live).nodup_iff.mp (laid_nodup laid)
  exact (List.nodup_cons.mp nodup).1 (List.mem_append_right _ member)

/-- The header of a block in the hand is written again with the same size. -/
theorem remark_laid (laid : Laid ask heap (block :: hand) live free used)
    (kept : header.size = heap.size block) :
    Laid ask (heap.setHeader block header) (block :: hand) live free used := by
  have size := size_rewritten kept
  apply laid_recut laid (fun b => headers_outside laid header) rfl rfl laid.bounded
  case recut =>
    intro rest tiled
    unfold span
    rw [size]
    exact tiled
  case shaped =>
    intro b member
    exact (laid.shaped b (hand_subset b member)).congr (congrFun size b)
  case total =>
    unfold sizes
    rw [size]
    rfl

theorem split_laid (laid : Laid ask heap (block :: hand) live free used) (head : first.size = part)
    (tail : part + second.size = heap.size block) (whole : alignment ∣ part)
    (large : 2 * alignment ≤ part) (rest : 2 * alignment ≤ second.size) :
    Laid ask ((heap.setHeader block first).setHeader (block + part) second)
      (block :: (block + part) :: hand) live free used := by
  have inner : block + part ∉ heap.blocks (block :: hand) live := by
    apply inner_not_block laid (hand_subset block (.head _))
    · unfold alignment at *
      omega
    · unfold alignment at *
      omega
  have nodup := (blocks_perm heap (block :: hand) live).nodup_iff.mp (laid_nodup laid)
  have absent := (List.nodup_cons.mp nodup).1
  have shapedBlock := laid.shaped block (hand_subset block (.head _))
  have later : block ≠ block + part := by
    unfold alignment at *
    omega
  have same : ∀ b ∈ heap.blocks (block :: hand) live, b ≠ block →
      ((heap.setHeader block first).setHeader (block + part) second).headers b =
        heap.headers b := by
    intro b member different
    rw [headers_setHeader_of_ne, headers_setHeader_of_ne _ _ different]
    rintro rfl
    exact inner member
  have sizeBlock : ((heap.setHeader block first).setHeader (block + part) second).size block =
      part := by
    rw [size_setHeader_of_ne _ _ later, size_setHeader]
    exact head
  have sizeRest : ((heap.setHeader block first).setHeader (block + part) second).size (block + part) =
      second.size := size_setHeader ..
  have sizeHand : ∀ b ∈ hand,
      ((heap.setHeader block first).setHeader (block + part) second).size b = heap.size b := by
    intro b member
    unfold Heap.size
    rw [same b (hand_subset b (.tail _ member))]
    rintro rfl
    exact absent (List.mem_append_left _ member)
  refine laid_recut laid ?same rfl rfl laid.bounded ?recut ?shaped ?total
  case same =>
    intro b member
    apply same b ((blocks_perm heap (block :: hand) live).mem_iff.mpr (List.mem_append_right _ member))
    rintro rfl
    exact absent (List.mem_append_right _ member)
  case recut =>
    intro rest tiled
    have cut := @tiled_cut heap.regions (hand.map heap.span ++ rest) block (block + part)
      (block + heap.size block) (by unfold alignment at *; omega) (by unfold alignment at *; omega)
    rw [List.map_cons, List.map_cons, spans_congr sizeHand]
    unfold span at tiled ⊢
    rw [sizeBlock, sizeRest, Nat.add_assoc, tail]
    exact cut.mp tiled
  case shaped =>
    intro b member
    have whole' : alignment ∣ second.size :=
      (Nat.dvd_add_right whole).mp (tail ▸ shapedBlock.size)
    rcases List.mem_cons.mp member with rfl | member
    · exact ⟨shapedBlock.place, by rwa [sizeBlock], by rwa [sizeBlock]⟩
    rcases List.mem_cons.mp member with rfl | member
    · exact ⟨Nat.dvd_add shapedBlock.place whole, sizeRest ▸ whole', sizeRest ▸ rest⟩
    · exact (laid.shaped b (hand_subset b (.tail _ member))).congr (sizeHand b member)
  case total =>
    rw [sizes_cons, sizes_cons, sizes_cons, sizes_congr sizeHand, sizeBlock, sizeRest]
    change _ = _ + heap.heapSize
    omega

theorem join_laid (laid : Laid ask heap (block :: next :: hand) live free used)
    (behind : block + heap.size block = next)
    (whole : header.size = heap.size block + heap.size next) :
    Laid ask (heap.setHeader block header) (block :: hand) live free used := by
  have nodup := (blocks_perm heap (block :: next :: hand) live).nodup_iff.mp (laid_nodup laid)
  have absent := (List.nodup_cons.mp nodup).1
  have shapedBlock := laid.shaped block (hand_subset block (.head _))
  have shapedNext := laid.shaped next (hand_subset next (by simp))
  have sizeBlock : (heap.setHeader block header).size block = heap.size block + heap.size next := by
    rw [size_setHeader]
    exact whole
  have sizeHand : ∀ b ∈ hand, (heap.setHeader block header).size b = heap.size b := by
    intro b member
    apply size_setHeader_of_ne
    rintro rfl
    exact absent (List.mem_append_left _ (.tail _ member))
  apply laid_recut laid (fun b => headers_outside laid header) rfl rfl laid.bounded
  case recut =>
    intro rest tiled
    have first := shapedBlock.large
    have second := shapedNext.large
    have cut := @tiled_cut heap.regions (hand.map heap.span ++ rest) block next
      (next + heap.size next) (by unfold alignment at *; omega) (by unfold alignment at *; omega)
    rw [List.map_cons, spans_congr sizeHand]
    rw [List.map_cons, List.map_cons] at tiled
    unfold span at tiled ⊢
    rw [sizeBlock, ← Nat.add_assoc, behind]
    rw [behind] at tiled
    exact cut.mpr tiled
  case shaped =>
    intro b member
    rcases List.mem_cons.mp member with rfl | member
    · refine ⟨shapedBlock.place, ?_, ?_⟩
      · rw [sizeBlock]
        exact Nat.dvd_add shapedBlock.size shapedNext.size
      · rw [sizeBlock]
        exact Nat.le_add_right_of_le shapedBlock.large
    · exact (laid.shaped b (hand_subset b (.tail _ (.tail _ member)))).congr (sizeHand b member)
  case total =>
    rw [sizes_cons, sizes_cons, sizes_cons, sizes_congr sizeHand, sizeBlock]
    change _ = _ + heap.heapSize
    omega

theorem grow_laid {larger : List Span} {base heapEnd : Nat}
    (laid : Laid ask heap hand live free used)
    (fresh : ∀ r ∈ heap.regions, Apart ⟨base, base + header.size⟩ r)
    (grown : ∀ x, (∃ r ∈ larger, Covers r x) ↔
      Covers ⟨base, base + header.size⟩ x ∨ ∃ r ∈ heap.regions, Covers r x)
    (bounded : ∀ r ∈ larger, r.start ≤ r.finish ∧ r.finish ≤ 2 ^ 64) (place : alignment ∣ base)
    (multiple : alignment ∣ header.size) (large : 2 * alignment ≤ header.size) :
    Laid ask ({ heap with
        heapEnd := heapEnd
        heapSize := heap.heapSize + header.size
        regions := larger }.setHeader base header) (base :: hand) live free used := by
  have positive : base < base + header.size := by
    unfold alignment at large
    omega
  have new : base ∉ heap.blocks hand live := by
    intro begins
    obtain ⟨r, region, inside⟩ := isInHeap_iff.mp (laid_inHeap laid begins (Nat.le_refl _) (by
      have size := (laid.shaped base begins).large
      unfold alignment at size
      omega))
    have apart := fresh r region
    unfold Apart Covers at *
    dsimp only at apart
    omega
  have away : ∀ b ∈ heap.blocks hand live, b ≠ base := fun b member same => new (same ▸ member)
  have sizeHand : ∀ (heap : Heap), ∀ b ∈ hand, (heap.setHeader base header).size b = heap.size b :=
    fun _ b member => size_setHeader_of_ne _ _ (away b (hand_subset b member))
  apply laid_recut laid
  case lists => rfl
  case arenas => rfl
  case bounded => exact bounded
  case same =>
    intro b member
    exact headers_setHeader_of_ne _ _ (away b
      ((blocks_perm heap hand live).mem_iff.mpr (List.mem_append_right _ member)))
  case recut =>
    intro rest tiled
    rw [List.map_cons, spans_congr (sizeHand _)]
    unfold span
    rw [size_setHeader]
    exact tiled_grow tiled positive fresh grown
  case shaped =>
    intro b member
    rcases List.mem_cons.mp member with rfl | earlier
    · exact ⟨place, by rwa [size_setHeader], by rwa [size_setHeader]⟩
    · exact (laid.shaped b (hand_subset b earlier)).congr (sizeHand _ b earlier)
  case total =>
    rw [sizes_cons, sizes_congr (sizeHand _), size_setHeader]
    change _ + heap.sizes hand + _ = _ + (heap.heapSize + header.size)
    omega

end Headers

end ViperDos.KHeap
