import ViperDos.HeapCalls

/-!
What `coalesce` reaches: with as many free blocks as its array holds, no free block is left
next to another one.
-/

namespace ViperDos.KHeap

open Buckets Tilings Heap

structure Coalesced (before after : Heap) (live : List Nat) : Prop where
  spares : Spares before after live
  tiled : Tiled before.regions ((after.blocks [] live).map after.span)
  bytes : after.sizes after.freeBlocks = before.sizes before.freeBlocks
  counter : after.totalFree = before.totalFree
  once : after.freeBlocks.Nodup
  filed : ∀ index < numSizeClasses, ∀ b ∈ (after.freeLists index).blocks,
    getSizeClass (after.size b) = index
  merged : before.freeBlocks.length ≤ maxCoalesceBlocks →
    ∀ b ∈ after.freeBlocks, b + after.size b ∉ after.freeBlocks

variable {ask : Nat → Nat} {heap : Heap}

variable {live : List Nat} {after : Heap} {b : Nat}

theorem spares_bytes (settled : Settled ask heap live) (done : Settled ask after live)
    (spares : Spares heap after live) :
    after.sizes after.freeBlocks = heap.sizes heap.freeBlocks := by
  have rest : after.sizes (after.cachedBlocks ++ live) = heap.sizes (heap.cachedBlocks ++ live) := by
    rw [spares.cached]
    exact sizes_congr fun b member => congrArg BlockHeader.size (spares.headers b member)
  have total := done.total.trans (spares.heapSize.trans settled.total.symm)
  unfold blocks sizes at *
  simp only [List.map_append, List.sum_append, List.append_nil] at *
  omega

theorem gapped_apart {blocks : List Nat} (gapped : Gapped heap blocks) (first : b ∈ blocks)
    (positive : 0 < heap.size b) : b + heap.size b ∉ blocks := by
  intro second
  have symm : Std.Symm fun x y => x + heap.size x ≠ y ∧ y + heap.size y ≠ x :=
    ⟨fun _ _ => And.symm⟩
  have separate : blocks.Pairwise fun x y => x + heap.size x ≠ y ∧ y + heap.size y ≠ x :=
    gapped.imp fun gap => by omega
  exact (separate.forall first second (by omega)).1 rfl

/-- Coalescing loses no byte and touches no block in use, and up to 256 free blocks it leaves no
two of them adjacent. -/
theorem coalescing_complete (settled : Settled ask heap live) :
    Coalesced heap heap.coalesce live := by
  obtain ⟨done, spares, apart⟩ := coalesce_settled settled
  have bytes := spares_bytes settled done spares
  constructor
  case spares => exact spares
  case tiled =>
    rw [← spares.regions]
    exact done.tiled
  case bytes => exact bytes
  case counter => rw [← done.freeSum, ← settled.freeSum, bytes]
  case once => exact freeBlocks_nodup done
  case filed => exact done.filed
  case merged =>
    intro few b first second
    obtain ⟨blocks, perm, gapped⟩ := apart few
    have positive := (done.shaped b (free_subset b first)).large
    exact gapped_apart gapped (perm.mem_iff.mp first) (by unfold alignment at positive; omega)
      (perm.mem_iff.mp second)

/-- A region full of small free blocks, each listed before the one that ends where it begins. -/
def crowded (n : Nat) : Heap :=
  { blank fun _ => ⟨blockMagicFree, 32⟩ with
    regions := [⟨0x44000000, 0x44000000 + 32 * n⟩]
    heapSize := 32 * n
    totalFree := 32 * n
    freeLists := fun index =>
      if index = 0 then ⟨(List.range n).reverse.map fun i => 0x44000000 + 32 * i, n⟩ else ⟨[], 0⟩ }

variable (n : Nat)

theorem crowded_free :
    (crowded n).freeBlocks = (List.range n).reverse.map fun i => 0x44000000 + 32 * i := by
  simp [freeBlocks, gather, crowded, numSizeClasses, List.range_succ]

theorem crowded_size (b : Nat) : (crowded n).size b = 32 :=
  (by decide : BlockHeader.size ⟨blockMagicFree, 32⟩ = 32)

theorem crowded_settled (few : n ≤ 257) : Settled (fun _ => 0) (crowded n) [] := by
  have size := crowded_size n
  have regions : (crowded n).regions = [⟨0x44000000, 0x44000000 + 32 * n⟩] := rfl
  have free := crowded_free n
  have listed : (crowded n).blocks [] [] = (crowded n).freeBlocks := by
    simp [blocks, show (crowded n).cachedBlocks = [] from rfl]
  have sum : (crowded n).sizes (crowded n).freeBlocks = 32 * n := by
    simp [sizes, free, Function.comp_def, size, Nat.mul_comm]
  constructor
  case tiled =>
    rw [listed, free]
    constructor
    case apart =>
      rw [List.pairwise_map, List.pairwise_map, List.pairwise_reverse]
      exact List.pairwise_lt_range.imp fun below => .inr (by simp only [span, size]; omega)
    case solid => simp [span, size]
    case covers =>
      intro x
      simp only [List.mem_map, List.mem_reverse, List.mem_range, exists_exists_and_eq_and, span,
        size, Covers, regions, List.mem_singleton, exists_eq_left]
      constructor
      · rintro ⟨i, below, inside⟩
        omega
      · intro inside
        exact ⟨(x - 0x44000000) / 32, by omega, by omega⟩
  case bounded =>
    intro r region
    rw [List.mem_singleton.mp region]
    dsimp only
    omega
  case shaped =>
    rw [listed, free]
    intro b member
    obtain ⟨i, -, rfl⟩ := List.mem_map.mp member
    exact ⟨by unfold alignment; omega, by rw [size]; decide, by rw [size]; decide⟩
  case markedFree => exact fun b _ => ⟨rfl,
      (by decide : BlockHeader.isFree ⟨blockMagicFree, 32⟩ = true)⟩
  case filed =>
    intro index _ b member
    unfold crowded at member
    dsimp only at member
    split at member
    next first =>
      rw [size, first]
      rfl
    · cases member
  case counted =>
    intro index _
    unfold crowded
    dsimp only
    split <;> simp
  case total =>
    rw [listed, sum]
    rfl
  case freeSum => exact sum
  all_goals simp [sizes, crowded, blank]

theorem three_blocks_coalesced : Coalesced (crowded 3) (crowded 3).coalesce [] ∧
    (crowded 3).freeBlocks = [0x44000040, 0x44000020, 0x44000000] ∧
    (crowded 3).coalesce.freeBlocks = [0x44000000] ∧ (crowded 3).coalesce.size 0x44000000 = 96 :=
  ⟨coalescing_complete (crowded_settled 3 (by decide)), by decide, by decide, by decide⟩

def oneFreed : HeapUse := oneCached.perform (.kfree 0 0x44000040)

theorem findPair_descending {blocks : List Nat} (descending : blocks.Pairwise (· > ·)) :
    heap.findPair blocks = none := by
  fun_induction findPair heap blocks with
  | case1 current rest =>
    have := (List.pairwise_cons.mp descending).1 _ (.head _)
    omega
  | case2 current next rest _ ih => exact ih (List.pairwise_cons.mp descending).2
  | case3 => rfl

theorem coalesceClasses_same (descending : ∀ i, (heap.freeLists i).blocks.Pairwise (· > ·))
    (index classes : Nat) : heap.coalesceClasses index classes = heap := by
  induction classes generalizing index with
  | zero => rfl
  | succ classes ih =>
    have one : ∀ rounds, heap.coalesceClass index rounds = heap := by
      intro rounds
      cases rounds <;> simp [coalesceClass, findPair_descending (descending index)]
    rw [coalesceClasses, one, ih]

theorem crowded_same : (crowded 257).coalesce = crowded 257 := by
  have descending : ∀ i, ((crowded 257).freeLists i).blocks.Pairwise (· > ·) := by
    intro i
    unfold crowded
    dsimp only
    split
    · rw [List.pairwise_map, List.pairwise_reverse]
      exact List.pairwise_lt_range.imp fun below => by omega
    · exact .nil
  have many : ((List.range numSizeClasses).map
      fun index => ((crowded 257).freeLists index).count).sum = 257 := rfl
  unfold coalesce
  rw [many, if_neg (by decide), if_pos (by decide)]
  exact coalesceClasses_same descending ..

/-- A block in an arena is not joined with the free block behind it, and the pass over the
single classes joins no block with one that is listed before it. -/
theorem free_neighbours_left :
    (Settled (fun _ => 0) oneFreed.heap oneFreed.live ∧
      MarkedFree oneFreed.heap.coalesce 0x44000000 ∧
      0x44000000 + oneFreed.heap.coalesce.size 0x44000000 ∈ oneFreed.heap.coalesce.freeBlocks) ∧
    Settled (fun _ => 0) (crowded 257) [] ∧
      0x44000000 ∈ (crowded 257).coalesce.freeBlocks ∧
      0x44000000 + (crowded 257).coalesce.size 0x44000000 ∈ (crowded 257).coalesce.freeBlocks := by
  obtain ⟨first, second, third, -⟩ := small_regular
  have fourth : Regular oneCached (.kfree 0 0x44000040) := .inr ⟨_, by decide, rfl⟩
  have settled := regular_settled (regular_settled (regular_settled (regular_settled
    (freshHeap_settled _) first) second) third) fourth
  rw [crowded_same, crowded_free, crowded_size]
  exact ⟨⟨settled, ⟨by decide, by decide⟩, by decide⟩, crowded_settled _ (Nat.le_refl _),
    List.mem_map.mpr ⟨0, by simp, rfl⟩, List.mem_map.mpr ⟨1, by simp, rfl⟩⟩

end ViperDos.KHeap
