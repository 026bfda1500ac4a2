import ViperDos.HeapLayout

/-!
What the parts of `kmalloc` and `kfree` do to the layout of the heap.
-/

namespace ViperDos.KHeap

open Buckets Tilings Heap BlockHeader Function

variable {heap : Heap}

variable {index free used block classes base count finish needed required found other want : Nat}
  {hand live nodes : List Nat} {ask allocPages : Nat → Nat} {larger rest : List Span}
  {last new : Span}

theorem freeBlocks_subset (inside : index < numSizeClasses) :
    ∀ b ∈ (heap.freeLists index).blocks, b ∈ heap.freeBlocks :=
  fun _ member => mem_gather.mpr ⟨index, inside, member⟩

theorem free_subset : ∀ b ∈ heap.freeBlocks, b ∈ heap.blocks hand live :=
  fun _ member => List.mem_append_left _ (List.mem_append_left _ (List.mem_append_left _ member))

theorem live_subset : ∀ b ∈ live, b ∈ heap.blocks hand live :=
  fun _ member => List.mem_append_right _ member

/-- On a sound heap the search drops no node. -/
theorem searchList_sound (required : Nat)
    (sound : ∀ node ∈ nodes, heap.isInHeap node = true ∧ (heap.headers node).magic = blockMagicFree)
      :
    heap.searchList required nodes =
      (nodes.find? fun block => required ≤ heap.size block, nodes) := by
  induction nodes with
  | nil => rfl
  | cons node rest ih =>
    have tail := ih fun other member => sound other (.tail _ member)
    unfold searchList
    rw [if_pos (sound node (.head _)), tail]
    by_cases fits : required ≤ heap.size node <;> simp [fits]

section

variable (laid : Laid ask heap hand live free used)

include laid

theorem block_inHeap (member : block ∈ heap.blocks hand live) : heap.isInHeap block = true := by
  have large := (laid.shaped block member).large
  apply laid_inHeap laid member (Nat.le_refl _)
  unfold alignment at large
  omega

theorem removeFromFreeList_laid (member : block ∈ heap.freeBlocks) :
    Laid ask (heap.removeFromFreeList block) (block :: hand) live (free - heap.size block) used := by
  obtain ⟨index, inside, listed⟩ := mem_gather.mp member
  have class_ := laid.filed index inside block listed
  unfold removeFromFreeList
  rw [class_, if_pos listed]
  apply unlink_laid laid inside (List.perm_cons_erase listed)
  rw [laid.counted index inside, List.length_erase_of_mem listed]

theorem counters_laid (totalFree totalAllocated : Nat) :
    Laid ask { heap with totalFree := totalFree, totalAllocated := totalAllocated } hand live free used :=
  laid_move laid (List.Perm.refl _) rfl rfl rfl laid.markedFree laid.markedUsed laid.filed laid.counted
    laid.freeSum laid.usedSum laid.enough

theorem searchLists_sound (required : Nat) (inside : index + classes ≤ numSizeClasses) :
    heap.searchLists required index classes = (heap.findBlock required index classes, heap) := by
  induction classes generalizing index with
  | zero => rfl
  | succ classes ih =>
    have sound : ∀ node ∈ (heap.freeLists index).blocks, heap.isInHeap node = true ∧
        (heap.headers node).magic = blockMagicFree := by
      intro node member
      have listed := freeBlocks_subset (by omega) node member
      exact ⟨block_inHeap laid (free_subset node listed),
        (laid.markedFree node (List.mem_append_left _ listed)).magic⟩
    have unchanged : heap.setList index ⟨(heap.freeLists index).blocks,
        (heap.freeLists index).count⟩ = heap := by
      unfold setList
      rw [update_eq_self]
    unfold searchLists findBlock
    simp only [searchList_sound required sound, Nat.sub_self, Nat.sub_zero, unchanged]
    cases (heap.freeLists index).blocks.find? fun block => required ≤ heap.size block with
    | some block => rfl
    | none => exact ih (by omega)

theorem live_not_free (member : block ∈ heap.freeBlocks ++ heap.cachedBlocks ++ hand) :
    block ∉ live :=
  (List.nodup_append'.mp (laid_nodup laid)).2.2 member

theorem ask_update (outside : block ∉ live) (want : Nat) :
    Laid (update ask block want) heap hand live free used :=
  { laid with
    enough := fun b member => by
      rw [update_of_ne (ne_of_mem_of_not_mem member outside)]
      exact laid.enough b member }

end

theorem insertByAddress_perm (sound : ∀ node ∈ nodes, heap.isInHeap node = true) :
    (heap.insertByAddress block nodes).Perm (block :: nodes) := by
  induction nodes with
  | nil => exact List.Perm.refl _
  | cons node rest ih =>
    have tail := ih fun other member => sound other (.tail _ member)
    unfold insertByAddress
    rw [if_pos (sound node (.head _))]
    split
    · exact (tail.cons node).trans (List.Perm.swap ..)
    · exact List.Perm.refl _

theorem setFree_marked (heap : Heap) (block : Nat) :
    MarkedFree (heap.setHeader block (heap.headers block).setFree) block := by
  constructor
  case magic => rw [headers_setHeader]; rfl
  case flag => rw [headers_setHeader, isFree_setFree]

theorem setUsed_marked (heap : Heap) (block : Nat) (header : BlockHeader) :
    MarkedUsed (heap.setHeader block header.setUsed) block := by
  constructor
  case magic => rw [headers_setHeader]; rfl
  case flag => rw [headers_setHeader, isFree_setUsed]

theorem addToFreeList_laid (laid : Laid ask heap (block :: hand) live free used) :
    Laid ask (heap.addToFreeList block) hand live (free + heap.size block) used := by
  have laid' := remark_laid laid (size_setFree (heap.headers block))
  have marked := setFree_marked heap block
  have size : (heap.setHeader block (heap.headers block).setFree).size block = heap.size block := by
    rw [size_setHeader, size_setFree]
    rfl
  unfold addToFreeList
  rw [if_pos (block_inHeap laid' (hand_subset block (.head _))), ← size]
  generalize heap.setHeader block (heap.headers block).setFree = freed at *
  have inserted : (freed.insertByAddress block
      (freed.freeLists (getSizeClass (freed.size block))).blocks).Perm
      (block :: (freed.freeLists (getSizeClass (freed.size block))).blocks) := by
    apply insertByAddress_perm
    intro node member
    exact block_inHeap laid' (free_subset node (freeBlocks_subset (getSizeClass_lt _) node member))
  apply file_laid laid' marked rfl inserted
  rw [laid'.counted _ (getSizeClass_lt _), inserted.length_eq]
  rfl

theorem pushFront_laid (laid : Laid ask heap (block :: hand) live free used)
    (marked : MarkedFree heap block) :
    Laid ask (heap.pushFront block) hand live (free + heap.size block) used := by
  apply file_laid laid marked rfl (List.Perm.refl _)
  rw [laid.counted _ (getSizeClass_lt _)]
  rfl

structure Granted (heap : Heap) (base count : Nat) : Prop where
  some : 0 < count
  whole : base + count * pageSize ≤ 2 ^ 64
  place : pageSize ∣ base
  fresh : ∀ r ∈ heap.regions, Apart ⟨base, base + count * pageSize⟩ r
  follows : base = heap.heapEnd → ∃ rest last, heap.regions = rest ++ [last] ∧ last.finish = base

theorem extendLast_append (heapEnd : Nat) (rest : List Span) (last : Span) :
    extendLast heapEnd (rest ++ [last]) = rest ++ [⟨last.start, heapEnd⟩] := by
  induction rest with
  | nil => rfl
  | cons region rest ih =>
    cases rest with
    | nil => rfl
    | cons next rest => exact congrArg (region :: ·) ih

theorem newBlock_laid {heapEnd : Nat} (laid : Laid ask heap [] live free used)
    (granted : Granted heap base count) (grown : ∀ x, (∃ r ∈ larger, Covers r x) ↔
      Covers ⟨base, base + count * pageSize⟩ x ∨ ∃ r ∈ heap.regions, Covers r x)
    (bounded : ∀ r ∈ larger, r.start ≤ r.finish ∧ r.finish ≤ 2 ^ 64) :
    Laid ask (({ heap with
        heapEnd := heapEnd
        heapSize := heap.heapSize + count * pageSize
        regions := larger }.setHeader base ⟨blockMagicFree, count * pageSize⟩).pushFront base)
      [] live (free + count * pageSize) used := by
  have some := granted.some
  have size : BlockHeader.size ⟨blockMagicFree, count * pageSize⟩ = count * pageSize := by
    unfold BlockHeader.size pageSize
    dsimp only
    omega
  have aligned : alignment ∣ pageSize := by decide
  have larger_ := @grow_laid heap free used [] live ask ⟨blockMagicFree, count * pageSize⟩ larger base
    heapEnd laid (by rw [size]; exact granted.fresh) (by rw [size]; exact grown) bounded
    (aligned.trans granted.place) (by rw [size]; exact Dvd.dvd.mul_left aligned count)
    (by rw [size]; unfold alignment pageSize; omega)
  have filed := pushFront_laid larger_ (by
    constructor
    case magic => rw [headers_setHeader]
    case flag =>
      rw [headers_setHeader]
      unfold BlockHeader.isFree pageSize
      simp
      omega)
  rwa [size_setHeader, size] at filed

theorem extended_covers (low : last.start ≤ last.finish) (high : last.finish ≤ finish) (x : Nat) :
    (∃ r ∈ rest ++ [⟨last.start, finish⟩], Covers r x) ↔
      Covers ⟨last.finish, finish⟩ x ∨ ∃ r ∈ rest ++ [last], Covers r x := by
  simp only [List.mem_append, List.mem_singleton, or_and_right, exists_or, exists_eq_left]
  rw [covers_cut low high]
  rw [← or_assoc, or_comm]

theorem appended_covers {regions : List Span} (x : Nat) :
    (∃ r ∈ regions ++ [new], Covers r x) ↔ Covers new x ∨ ∃ r ∈ regions, Covers r x := by
  simp only [List.mem_append, List.mem_singleton, or_and_right, exists_or, exists_eq_left]
  exact or_comm

theorem expandHeap_laid (laid : Laid ask heap [] live heap.totalFree used)
    (granted : allocPages (pagesNeeded needed) ≠ 0 →
      Granted heap (allocPages (pagesNeeded needed)) (pagesNeeded needed)) :
    Laid ask (heap.expandHeap allocPages needed).2 [] live (heap.expandHeap allocPages needed).2.totalFree
      used ∧ (heap.expandHeap allocPages needed).2.totalAllocated = heap.totalAllocated := by
  unfold expandHeap
  dsimp only
  generalize pagesNeeded needed = count at *
  generalize allocPages count = base at *
  split
  · exact ⟨laid, rfl⟩
  split
  · exact ⟨laid, rfl⟩
  next nonzero =>
  have pages := granted nonzero
  have whole := pages.whole
  split
  next follows =>
    -- the last region ends where the new pages begin
    obtain ⟨rest, last, regions, finish⟩ := pages.follows follows
    have low := (laid.bounded last (by rw [regions]; simp)).1
    have larger : extendLast (heap.heapEnd + count * pageSize) heap.regions =
        rest ++ [⟨last.start, base + count * pageSize⟩] := by
      rw [regions, extendLast_append, follows]
    have grown := @extended_covers (base + count * pageSize) rest last low (by omega)
    rw [finish, ← regions] at grown
    have filed := @newBlock_laid heap heap.totalFree used base count live ask _
      (heap.heapEnd + count * pageSize) laid pages grown (List.forall_mem_append.mpr ⟨
        fun r earlier => laid.bounded r (by rw [regions]; exact List.mem_append_left _ earlier),
        List.forall_mem_singleton.mpr (by dsimp only; omega)⟩)
    rw [larger]
    exact ⟨counters_laid filed _ _, rfl⟩
  · split
    · exact ⟨laid, rfl⟩
    have filed := @newBlock_laid heap heap.totalFree used base count live ask _ heap.heapEnd laid
      pages appended_covers (List.forall_mem_append.mpr ⟨laid.bounded,
        List.forall_mem_singleton.mpr (by dsimp only; omega)⟩)
    exact ⟨counters_laid filed _ _, rfl⟩

theorem findBlock_some (inside : index + classes ≤ numSizeClasses)
    (hit : heap.findBlock required index classes = some (block, found)) :
    found < numSizeClasses ∧ block ∈ (heap.freeLists found).blocks ∧
      required ≤ heap.size block := by
  induction classes generalizing index with
  | zero => cases hit
  | succ classes ih =>
    unfold findBlock at hit
    split at hit
    next first here =>
      cases hit
      have fits := List.find?_some here
      exact ⟨by omega, List.mem_of_find?_eq_some here, by simpa using fits⟩
    · exact ih (by omega) hit

def Settled (ask : Nat → Nat) (heap : Heap) (live : List Nat) : Prop :=
  Laid ask heap [] live heap.totalFree heap.totalAllocated

theorem headers_addToFreeList (different : other ≠ block) :
    (heap.addToFreeList block).headers other = heap.headers other := by
  unfold addToFreeList
  dsimp only
  split <;> exact headers_setHeader_of_ne _ _ different

theorem addToFreeList_counters (heap : Heap) (block : Nat) :
    (heap.addToFreeList block).totalFree = heap.totalFree ∧
      (heap.addToFreeList block).totalAllocated = heap.totalAllocated := by
  unfold addToFreeList
  dsimp only
  split <;> exact ⟨rfl, rfl⟩

/-- The block in the hand is handed out, whole or its first part. -/
theorem carve_settled (laid : Laid ask heap [block] live heap.totalFree heap.totalAllocated)
    (fits : required ≤ heap.size block) (whole : alignment ∣ required)
    (large : 2 * alignment ≤ required) (wanted : ask block + headerSize ≤ required) :
    Settled ask (heap.carve block required) (block :: live) := by
  obtain ⟨m, multiple⟩ := (laid.shaped block (hand_subset block (.head _))).size
  obtain ⟨n, part⟩ := whole
  unfold Settled carve
  dsimp only
  split
  next room =>
    -- both parts are blocks
    have rest : 2 * alignment ≤ heap.size block - required := by
      unfold minBlockSize alignment at *
      omega
    have sizeSecond : BlockHeader.size ⟨blockMagicFree, heap.size block - required⟩ =
        heap.size block - required := by
      unfold BlockHeader.size alignment at *
      dsimp only
      omega
    have sizeFirst : ((heap.headers block).setSize required).setUsed.size = required := by
      rw [size_setUsed, size_setSize _ ⟨n, part⟩]
    have cut := split_laid laid sizeFirst (by rw [sizeSecond]; omega) ⟨n, part⟩ large
      (by rw [sizeSecond]; exact rest)
    have different : block ≠ block + required := by
      unfold alignment at *
      omega
    have filed := addToFreeList_laid (hand_laid cut (List.Perm.swap ..))
    rw [size_setHeader, sizeSecond] at filed
    generalize cutHeap : (heap.setHeader block ((heap.headers block).setSize required).setUsed).setHeader
      (block + required) ⟨blockMagicFree, heap.size block - required⟩ = parts at filed ⊢
    have header : (parts.addToFreeList (block + required)).headers block =
        ((heap.headers block).setSize required).setUsed := by
      rw [headers_addToFreeList different, ← cutHeap, headers_setHeader_of_ne _ _ different,
        headers_setHeader]
    have sizeAfter : (parts.addToFreeList (block + required)).size block = required := by
      unfold Heap.size
      rw [header]
      exact sizeFirst
    have marked : MarkedUsed (parts.addToFreeList (block + required)) block :=
      ⟨by rw [header]; rfl, by rw [header, isFree_setUsed]⟩
    have done := use_laid filed marked (by rw [sizeAfter]; exact wanted)
    obtain ⟨keptFree, keptUsed⟩ := addToFreeList_counters parts (block + required)
    rw [sizeAfter] at done
    rw [keptFree, keptUsed, ← cutHeap]
    rw [← cutHeap] at done
    exact counters_laid done _ _
  · have done := use_laid (remark_laid laid (size_setUsed (heap.headers block)))
      (setUsed_marked heap block (heap.headers block)) (by
        rw [size_setHeader, size_setUsed]
        exact Nat.le_trans wanted fits)
    rw [size_setHeader, size_setUsed] at done
    exact counters_laid done _ _

theorem takeBlock_settled (settled : Settled ask heap live) (inside : index < numSizeClasses)
    (member : block ∈ (heap.freeLists index).blocks) (fits : required ≤ heap.size block)
    (whole : alignment ∣ required) (large : 2 * alignment ≤ required)
    (wanted : want + headerSize ≤ required) :
    Settled (update ask block want) (heap.takeBlock block index required).2 (block :: live) := by
  have listed := freeBlocks_subset inside block member
  have outside : block ∉ live := live_not_free settled
    (List.mem_append_left _ (List.mem_append_left _ listed))
  have asked := ask_update settled outside want
  have length : (heap.freeLists index).count - 1 =
      ((heap.freeLists index).blocks.erase block).length := by
    rw [settled.counted index inside, List.length_erase_of_mem member]
  have unlinked := unlink_laid asked inside (List.perm_cons_erase member) length
  have laid := counters_laid unlinked (heap.totalFree - heap.size block) heap.totalAllocated
  exact carve_settled laid fits whole large (by rw [update_self]; exact wanted)

end ViperDos.KHeap
