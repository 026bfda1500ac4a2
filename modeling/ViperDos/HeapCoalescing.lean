import ViperDos.HeapSteps

/-!
Coalescing keeps the layout of the heap: the lists are taken apart into the hand, neighbours
are joined there, and what is left is put on the lists again.
-/

namespace ViperDos.KHeap

open Buckets Tilings Heap BlockHeader

structure Spares (heap after : Heap) (live : List Nat) : Prop where
  regions : after.regions = heap.regions
  heapSize : after.heapSize = heap.heapSize
  arenas : after.arenas = heap.arenas
  headers : ∀ b ∈ heap.cachedBlocks ++ live, after.headers b = heap.headers b

variable {heap : Heap}

theorem Spares.refl (heap : Heap) (live : List Nat) : Spares heap heap live :=
  ⟨rfl, rfl, rfl, fun _ _ => rfl⟩

variable {after last : Heap} {live hand nodes kept rest : List Nat} {ask : Nat → Nat}
  {free used block other current absorbed index rounds classes : Nat}

theorem Spares.cached (spares : Spares heap after live) :
    after.cachedBlocks = heap.cachedBlocks := by
  unfold cachedBlocks
  rw [spares.arenas]

theorem Spares.trans (first : Spares heap after live) (second : Spares after last live) :
    Spares heap last live where
  regions := second.regions.trans first.regions
  heapSize := second.heapSize.trans first.heapSize
  arenas := second.arenas.trans first.arenas
  headers b member := by
    rw [second.headers b (by rw [first.cached]; exact member), first.headers b member]

theorem setHeader_spares (laid : Laid ask heap (block :: hand) live free used)
    (header : BlockHeader) : Spares heap (heap.setHeader block header) live := by
  refine ⟨rfl, rfl, rfl, fun b member => headers_outside laid header ?_⟩
  rw [List.append_assoc]
  exact List.mem_append_right _ member

theorem addToFreeList_spares (laid : Laid ask heap (block :: hand) live free used) :
    Spares heap (heap.addToFreeList block) live := by
  have written := setHeader_spares laid (heap.headers block).setFree
  unfold addToFreeList
  dsimp only
  split
  · exact ⟨rfl, rfl, rfl, written.headers⟩
  · exact written

theorem removeFromFreeList_spares (heap : Heap) (block : Nat) (live : List Nat) :
    Spares heap (heap.removeFromFreeList block) live := by
  unfold removeFromFreeList
  dsimp only
  split
  · exact ⟨rfl, rfl, rfl, fun _ _ => rfl⟩
  · exact .refl heap live

theorem size_le_free (laid : Laid ask heap hand live free used) (member : block ∈ heap.freeBlocks) :
    heap.size block ≤ free := by
  have sum := @sizes_perm heap _ _ (List.perm_cons_erase member)
  rw [sizes_cons, laid.freeSum] at sum
  omega

theorem removeFromFreeList_rest (heap : Heap) (block : Nat) :
    (heap.removeFromFreeList block).headers = heap.headers ∧
      (heap.removeFromFreeList block).totalFree = heap.totalFree ∧
      (heap.removeFromFreeList block).totalAllocated = heap.totalAllocated := by
  unfold removeFromFreeList
  dsimp only
  split <;> exact ⟨rfl, rfl, rfl⟩

theorem mem_removeFromFreeList (different : other ≠ block) (member : other ∈ heap.freeBlocks) :
    other ∈ (heap.removeFromFreeList block).freeBlocks := by
  unfold removeFromFreeList
  dsimp only
  split
  · obtain ⟨index, inside, listed⟩ := mem_gather.mp member
    apply mem_gather.mpr
    refine ⟨index, inside, ?_⟩
    unfold setList
    by_cases here : index = getSizeClass (heap.size block)
    · simp only [here, Function.update_self]
      rw [here] at listed
      exact (List.mem_erase_of_ne different).mpr listed
    · simp only [Function.update_of_ne here]
      exact listed
  · exact member

theorem findPair_some (found : heap.findPair nodes = some (current, absorbed)) :
    current ∈ nodes ∧ absorbed ∈ nodes ∧ current + heap.size current = absorbed := by
  induction nodes with
  | nil => cases found
  | cons node rest ih =>
    cases rest with
    | nil => cases found
    | cons next rest =>
      unfold findPair at found
      split at found
      next adjacent =>
        cases found
        exact ⟨by simp, by simp, adjacent⟩
      · obtain ⟨first, second, behind⟩ := ih found
        exact ⟨.tail _ first, .tail _ second, behind⟩

theorem coalesceClass_laid (inside : index < numSizeClasses)
    (laid : Laid ask heap [] live heap.totalFree heap.totalAllocated) :
    Settled ask (heap.coalesceClass index rounds) live ∧
      Spares heap (heap.coalesceClass index rounds) live := by
  induction rounds generalizing heap with
  | zero => exact ⟨laid, .refl heap live⟩
  | succ rounds ih =>
    unfold coalesceClass
    split
    · exact ⟨laid, .refl heap live⟩
    next current absorbed found =>
    obtain ⟨first, second, behind⟩ := findPair_some found
    have firstFree := freeBlocks_subset inside current first
    have secondFree := freeBlocks_subset inside absorbed second
    have shaped := laid.shaped current (free_subset current firstFree)
    have shapedNext := laid.shaped absorbed (free_subset absorbed secondFree)
    have different : absorbed ≠ current := by
      have large := shaped.large
      unfold alignment at large
      omega
    obtain ⟨headers, frees, useds⟩ := removeFromFreeList_rest heap current
    obtain ⟨headers', frees', useds'⟩ :=
      removeFromFreeList_rest (heap.removeFromFreeList current) absorbed
    have one := removeFromFreeList_laid laid firstFree
    have two := removeFromFreeList_laid one (mem_removeFromFreeList different secondFree)
    have lower := size_le_free laid firstFree
    have upper := size_le_free one (mem_removeFromFreeList different secondFree)
    have size : ((heap.removeFromFreeList current).removeFromFreeList absorbed).size =
        heap.size := by
      unfold Heap.size
      rw [headers', headers]
    have sizeOne : (heap.removeFromFreeList current).size = heap.size := by
      unfold Heap.size
      rw [headers]
    rw [sizeOne] at two upper
    have taken := (removeFromFreeList_spares heap current live).trans
      (removeFromFreeList_spares _ absorbed live)
    generalize (heap.removeFromFreeList current).removeFromFreeList absorbed = removed at *
    have combined : (((removed.headers current).setSize
        (heap.size current + heap.size absorbed)).setFree).size =
        removed.size current + removed.size absorbed := by
      rw [size_setFree, size_setSize _ (Nat.dvd_add shaped.size shapedNext.size), size]
    have pair := hand_laid two (List.Perm.swap ..)
    have joined := join_laid pair (by rw [size]; exact behind) combined
    have filed := addToFreeList_laid joined
    rw [size_setHeader, combined, size] at filed
    obtain ⟨keptFree, keptUsed⟩ := addToFreeList_counters (removed.setHeader current
      ((removed.headers current).setSize (heap.size current + heap.size absorbed)).setFree) current
    have sum : heap.totalFree - heap.size current - heap.size absorbed +
        (heap.size current + heap.size absorbed) = heap.totalFree := by omega
    rw [sum, ← frees, ← frees', ← useds, ← useds'] at filed
    obtain ⟨done, later⟩ := ih (by rw [keptFree, keptUsed]; exact filed)
    exact ⟨done, taken.trans ((setHeader_spares pair _).trans
      ((addToFreeList_spares joined).trans later))⟩

theorem coalesceClasses_laid (inside : index + classes ≤ numSizeClasses)
    (laid : Settled ask heap live) : Settled ask (heap.coalesceClasses index classes) live ∧
      Spares heap (heap.coalesceClasses index classes) live := by
  induction classes generalizing heap index with
  | zero => exact ⟨laid, .refl heap live⟩
  | succ classes ih =>
    obtain ⟨one, first⟩ := @coalesceClass_laid heap live ask index
      (heap.freeLists index).blocks.length (by omega) laid
    obtain ⟨all, later⟩ := ih (show index + 1 + classes ≤ numSizeClasses by omega) one
    exact ⟨all, first.trans later⟩

def Gapped (heap : Heap) (blocks : List Nat) : Prop :=
  blocks.Pairwise fun later earlier => earlier + heap.size earlier < later

/-- The pass over the sorted blocks joins blocks in the hand until none follows another. -/
theorem mergeAdjacent_laid (laid : Laid ask heap (kept ++ rest) live free used)
    (ordered : (kept.reverse ++ rest).Pairwise (· < ·)) (gapped : Gapped heap kept) :
    Laid ask (heap.mergeAdjacent kept rest).1 (heap.mergeAdjacent kept rest).2 live free used ∧
      (heap.mergeAdjacent kept rest).1.totalFree = heap.totalFree ∧
      (heap.mergeAdjacent kept rest).1.totalAllocated = heap.totalAllocated ∧
      (heap.mergeAdjacent kept rest).1.freeLists = heap.freeLists ∧
      Spares heap (heap.mergeAdjacent kept rest).1 live ∧
      Gapped (heap.mergeAdjacent kept rest).1 (heap.mergeAdjacent kept rest).2 := by
  induction rest generalizing heap kept with
  | nil =>
    rw [List.append_nil] at laid
    cases kept <;> exact ⟨laid, rfl, rfl, rfl, .refl heap live, gapped⟩
  | cons block rest ih =>
    cases kept with
    | nil => exact @ih heap [block] laid ordered (List.pairwise_singleton ..)
    | cons prev older =>
      obtain ⟨below, others⟩ := List.pairwise_cons.mp gapped
      unfold mergeAdjacent
      dsimp only
      split
      next adjacent =>
        have moved : (prev :: older ++ block :: rest).Perm
            (prev :: block :: (older ++ rest)) := List.perm_middle.cons prev
        have together := hand_laid laid moved
        have shaped := together.shaped prev (hand_subset prev (by simp))
        have shapedNext := together.shaped block (hand_subset block (by simp))
        have joined := join_laid together adjacent
          (size_setSize (heap.headers prev) (Nat.dvd_add shaped.size shapedNext.size))
        have same : ∀ e ∈ older, (heap.setHeader prev ((heap.headers prev).setSize
            (heap.size prev + heap.size block))).size e = heap.size e := fun e member =>
          size_setHeader_of_ne _ _ (Nat.ne_of_lt (Nat.lt_of_le_of_lt (Nat.le_add_right _ _)
            (below e member)))
        have stillGapped : Gapped (heap.setHeader prev ((heap.headers prev).setSize
            (heap.size prev + heap.size block))) (prev :: older) := by
          refine List.pairwise_cons.mpr ⟨fun e member => ?_, others.imp_of_mem ?_⟩
          · rw [same e member]
            exact below e member
          · intro later e _ member gap
            rwa [same e member]
        obtain ⟨done, frees, useds, lists, later, apart⟩ := @ih (heap.setHeader prev _) (prev :: older)
          joined (ordered.sublist ((List.sublist_cons_self block rest).append_left _)) stillGapped
        exact ⟨done, frees, useds, lists, (setHeader_spares together _).trans later, apart⟩
      next separate =>
      have before := (List.pairwise_append.mp ordered).2.2 prev (by simp) block (.head _)
      have apart := laid_apart laid (hand_subset prev (by simp)) (hand_subset block (by simp))
        (Nat.ne_of_lt before)
      refine ih (hand_laid laid List.perm_middle) (by simpa using ordered)
        (List.pairwise_cons.mpr ⟨List.forall_mem_cons.mpr ⟨by omega, ?_⟩, gapped⟩)
      intro e member
      exact Nat.lt_trans (below e member) before

theorem pushFront_perm (heap : Heap) (block : Nat) :
    (heap.pushFront block).freeBlocks.Perm (block :: heap.freeBlocks) := by
  unfold pushFront
  rw [freeBlocks_setList]
  exact gather_push (.refl _) (getSizeClass_lt _)

theorem rebuild_laid {blocks : List Nat}
    (laid : Laid ask heap blocks live heap.totalFree heap.totalAllocated) :
    Settled ask (heap.rebuild blocks) live ∧ Spares heap (heap.rebuild blocks) live ∧
      (heap.rebuild blocks).size = heap.size ∧
      (heap.rebuild blocks).freeBlocks.Perm (blocks ++ heap.freeBlocks) := by
  induction blocks generalizing heap with
  | nil => exact ⟨laid, .refl heap live, rfl, .refl _⟩
  | cons block rest ih =>
    have freed := remark_laid laid (size_setFree (heap.headers block))
    have filed := pushFront_laid freed (setFree_marked heap block)
    obtain ⟨done, later, sizes, perm⟩ := ih (counters_laid filed _ _)
    have marked := setHeader_spares laid (heap.headers block).setFree
    refine ⟨done, Spares.trans ?_ later, sizes.trans (size_rewritten (size_setFree _)),
      perm.trans ?_⟩
    · exact ⟨rfl, rfl, rfl, marked.headers⟩
    · exact ((pushFront_perm _ block).append_left rest).trans List.perm_middle

theorem freeBlocks_length (laid : Laid ask heap hand live free used) : heap.freeBlocks.length =
    ((List.range numSizeClasses).map fun index => (heap.freeLists index).count).sum := by
  unfold freeBlocks gather
  rw [List.length_flatMap]
  congr 1
  apply List.map_congr_left
  intro index member
  exact (laid.counted index (List.mem_range.mp member)).symm

theorem freeBlocks_nodup (laid : Laid ask heap hand live free used) : heap.freeBlocks.Nodup := by
  have nodup := laid_nodup laid
  rw [blocks, List.append_assoc, List.append_assoc] at nodup
  exact (List.nodup_append'.mp nodup).1

theorem clear_laid (laid : Laid ask heap [] live free used) :
    Laid ask { heap with freeLists := fun _ => ⟨[], 0⟩, totalFree := 0 } heap.freeBlocks live 0
      used := by
  refine laid_move laid ?perm rfl rfl rfl ?markedFree laid.markedUsed ?filed (fun _ _ => rfl) rfl
    laid.usedSum laid.enough
  case perm =>
    apply List.Perm.append_right
    rw [List.append_nil]
    exact List.perm_append_comm
  case markedFree =>
    intro b member
    exact laid.markedFree b (List.mem_append_right _ member)
  case filed =>
    intro index _ b member
    cases member

/-- Up to the size of the array the blocks on the lists are apart afterwards. -/
theorem coalesce_settled (settled : Settled ask heap live) :
    Settled ask heap.coalesce live ∧ Spares heap heap.coalesce live ∧
      (heap.freeBlocks.length ≤ maxCoalesceBlocks →
        ∃ blocks, heap.coalesce.freeBlocks.Perm blocks ∧ Gapped heap.coalesce blocks) := by
  have length := freeBlocks_length settled
  unfold coalesce
  dsimp only
  rw [← length]
  split
  next one =>
    refine ⟨settled, .refl heap live, fun _ => ⟨_, .refl _, ?_⟩⟩
    cases listed : heap.freeBlocks with
    | nil => exact .nil
    | cons block rest =>
      rw [listed] at one
      cases List.length_eq_zero_iff.mp (Nat.le_zero.mp (Nat.le_of_succ_le_succ one))
      exact List.pairwise_singleton ..
  split
  next many =>
    obtain ⟨done, spares⟩ := coalesceClasses_laid (Nat.le_of_eq (Nat.zero_add _)) settled
    exact ⟨done, spares, fun few => absurd few (Nat.not_le.mpr many)⟩
  next few =>
  rw [List.take_of_length_le (Nat.not_lt.mp few)]
  have perm := (List.perm_insertionSort (· ≤ ·) heap.freeBlocks).symm
  have strict := ((List.pairwise_insertionSort (· ≤ ·) _).and (perm.nodup_iff.mp
    (freeBlocks_nodup settled))).imp fun both => Nat.lt_of_le_of_ne both.1 both.2
  generalize heap.freeBlocks.insertionSort (· ≤ ·) = sorted at *
  obtain ⟨merged, frees, useds, lists, first, gapped⟩ := @mergeAdjacent_laid _ live [] _
    ask 0 heap.totalAllocated (hand_laid (clear_laid settled) perm) strict .nil
  have cleared : Spares heap { heap with freeLists := fun _ => ⟨[], 0⟩, totalFree := 0 } live :=
    ⟨rfl, rfl, rfl, fun _ _ => rfl⟩
  generalize Heap.mergeAdjacent _ [] sorted = result at *
  obtain ⟨done, second, sizes, filed⟩ := rebuild_laid (by
    rw [frees, useds]
    exact hand_laid merged (List.reverse_perm _).symm)
  refine ⟨done, cleared.trans (first.trans second), fun _ => ⟨result.2, ?_, ?_⟩⟩
  · have none : result.1.freeBlocks = [] := by
      rw [freeBlocks, lists]
      rfl
    rw [none, List.append_nil] at filed
    exact filed.trans (List.reverse_perm _)
  · unfold Gapped
    rw [sizes]
    exact gapped

end ViperDos.KHeap
