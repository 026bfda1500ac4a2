import ViperDos.Buckets
import ViperDos.Tilings
import Mathlib.Algebra.BigOperators.Group.List.Basic
import Mathlib.Algebra.GroupWithZero.Nat
import Mathlib.Data.List.Sort

/-!
The kernel heap of kernel/mm/kheap.cpp. The headers of the blocks are a map from addresses,
so a header that is read where no block begins is whatever lies there; the payloads are left
out. A free list is kept in its own blocks in the source and is a list of addresses here. What
only the reports read is left out: the number of free blocks, the head of the first list and
the address that is watched. `pmm::alloc_pages` is a parameter of the calls that may grow the
heap.
-/

namespace ViperDos.KHeap

open Buckets Tilings

def blockMagicAlloc : Nat := 0xCAFEBABE
def blockMagicFree : Nat := 0xDEADBEEF
def blockMagicPoison : Nat := 0xFEEDFACE

def headerSize : Nat := 16
def minBlockSize : Nat := 24
def alignment : Nat := 16
def pageSize : Nat := 4096
def maxHeapSize : Nat := 64 * 1024 * 1024
def maxHeapRegions : Nat := 16
def maxCpus : Nat := 4

def sizeClassLimits : List Nat := [32, 64, 128, 256, 512, 1024, 2048, 4096]
def numSizeClasses : Nat := 9
def percpuSizeClasses : Nat := 6
def percpuCacheSize : Nat := 8
def maxCoalesceBlocks : Nat := 256

/-- Bit 0 of the size says that the block is in use. -/
structure BlockHeader where
  magic : Nat
  sizeAndFlags : Nat

namespace BlockHeader

section

variable (header : BlockHeader)

def isFree : Bool := header.sizeAndFlags % 2 = 0

def size : Nat := header.sizeAndFlags / 2 * 2

def setFree : BlockHeader := ⟨blockMagicFree, header.size⟩

def setUsed : BlockHeader := ⟨blockMagicAlloc, header.size + 1⟩

def isValid : Bool :=
  header.magic = blockMagicAlloc ∨ header.magic = blockMagicFree

def poison : BlockHeader := { header with magic := blockMagicPoison }

def setSize (size : Nat) : BlockHeader :=
  { header with sizeAndFlags := header.sizeAndFlags % 2 + size / 2 * 2 }

end

end BlockHeader

structure FreeList where
  blocks : List Nat
  count : Nat

structure Heap where
  headers : Nat → BlockHeader
  regions : List Span
  heapEnd : Nat
  heapSize : Nat
  freeLists : Nat → FreeList
  arenas : Nat → Nat → FreeList
  percpuEnabled : Bool
  totalAllocated : Nat
  totalFree : Nat

def getSizeClass (size : Nat) : Nat := sizeClassLimits.findIdx fun limit => size ≤ limit

def alignUp (value : Nat) : Nat := (value + (alignment - 1)) % 2 ^ 64 / alignment * alignment

def requiredSize (size : Nat) : Nat :=
  let required := alignUp ((size + headerSize) % 2 ^ 64)
  if required < minBlockSize then minBlockSize else required

def ptrToHeader (ptr : Nat) : Nat := (ptr + 2 ^ 64 - headerSize) % 2 ^ 64

def pagesNeeded (needed : Nat) : Nat := (needed + (pageSize - 1)) % 2 ^ 64 / pageSize

def extendLast (heapEnd : Nat) : List Span → List Span
  | [] => []
  | [last] => [⟨last.start, heapEnd⟩]
  | region :: rest => region :: extendLast heapEnd rest

namespace Heap

section

variable (heap : Heap)

def isInHeap (addr : Nat) : Bool := heap.regions.any fun region => Covers region addr

def size (heap : Heap) (block : Nat) : Nat := (heap.headers block).size

def setHeader (block : Nat) (header : BlockHeader) : Heap :=
  { heap with headers := Function.update heap.headers block header }

def setList (index : Nat) (list : FreeList) : Heap :=
  { heap with freeLists := Function.update heap.freeLists index list }

def setArena (cpu index : Nat) (list : FreeList) : Heap :=
  { heap with arenas :=
      Function.update heap.arenas cpu (Function.update (heap.arenas cpu) index list) }

def pushFront (block : Nat) : Heap :=
  let index := getSizeClass (heap.size block)
  heap.setList index
    ⟨block :: (heap.freeLists index).blocks, (heap.freeLists index).count + 1⟩

def expandHeap (allocPages : Nat → Nat) (needed : Nat) : Bool × Heap :=
  if maxHeapSize < (heap.heapSize + needed) % 2 ^ 64 then (false, heap)
  else
    let newPages := allocPages (pagesNeeded needed)
    if newPages = 0 then (false, heap)
    else
      let expansionSize := pagesNeeded needed * pageSize
      let newHeader : BlockHeader := ⟨blockMagicFree, expansionSize⟩
      if newPages = heap.heapEnd then
        let heapEnd := heap.heapEnd + expansionSize
        let grown : Heap := { heap with
          heapEnd
          heapSize := heap.heapSize + expansionSize
          regions := extendLast heapEnd heap.regions }
        let filed := (grown.setHeader newPages newHeader).pushFront newPages
        (true, { filed with totalFree := filed.totalFree + expansionSize })
      else if maxHeapRegions ≤ heap.regions.length then (false, heap)
      else
        let grown : Heap := { heap with
          heapSize := heap.heapSize + expansionSize
          regions := heap.regions ++ [⟨newPages, newPages + expansionSize⟩] }
        let filed := (grown.setHeader newPages newHeader).pushFront newPages
        (true, { filed with totalFree := filed.totalFree + expansionSize })

def insertByAddress (heap : Heap) (block : Nat) : List Nat → List Nat
  | [] => [block]
  | node :: rest =>
    if node < block then
      if heap.isInHeap node then node :: heap.insertByAddress block rest else [block]
    else block :: node :: rest

def addToFreeList (block : Nat) : Heap :=
  let heap := heap.setHeader block (heap.headers block).setFree
  if heap.isInHeap block then
    let index := getSizeClass (heap.size block)
    heap.setList index ⟨heap.insertByAddress block (heap.freeLists index).blocks,
      (heap.freeLists index).count + 1⟩
  else heap

def removeFromFreeList (block : Nat) : Heap :=
  let index := getSizeClass (heap.size block)
  if block ∈ (heap.freeLists index).blocks then
    heap.setList index
      ⟨(heap.freeLists index).blocks.erase block, (heap.freeLists index).count - 1⟩
  else heap

def findPair (heap : Heap) : List Nat → Option (Nat × Nat)
  | current :: next :: rest =>
    if current + heap.size current = next then some (current, next)
    else heap.findPair (next :: rest)
  | _ => none

/-- The loop over one class when there are too many blocks for the array. A round that merges
leaves fewer blocks in the class, so their number bounds the rounds. -/
def coalesceClass (heap : Heap) (index : Nat) : Nat → Heap
  | 0 => heap
  | rounds + 1 =>
    match heap.findPair (heap.freeLists index).blocks with
    | none => heap
    | some (current, absorbed) =>
      let combinedSize := heap.size current + heap.size absorbed
      let removed := (heap.removeFromFreeList current).removeFromFreeList absorbed
      let header := ((removed.headers current).setSize combinedSize).setFree
      ((removed.setHeader current header).addToFreeList current).coalesceClass index rounds

def coalesceClasses (heap : Heap) (index : Nat) : Nat → Heap
  | 0 => heap
  | classes + 1 =>
    (heap.coalesceClass index (heap.freeLists index).blocks.length).coalesceClasses (index + 1)
      classes

def mergeAdjacent (heap : Heap) (kept : List Nat) : List Nat → Heap × List Nat
  | [] => (heap, kept)
  | block :: rest =>
    match kept with
    | [] => heap.mergeAdjacent [block] rest
    | prev :: _ =>
      if prev + heap.size prev = block then
        (heap.setHeader prev ((heap.headers prev).setSize
          (heap.size prev + heap.size block))).mergeAdjacent kept rest
      else heap.mergeAdjacent (block :: kept) rest

def rebuild (heap : Heap) : List Nat → Heap
  | [] => heap
  | block :: rest =>
    let filed := (heap.setHeader block (heap.headers block).setFree).pushFront block
    { filed with totalFree := filed.totalFree + filed.size block }.rebuild rest

def freeBlocks : List Nat :=
  gather numSizeClasses fun index => (heap.freeLists index).blocks

def coalesce : Heap :=
  let totalBlocks := ((List.range numSizeClasses).map fun index => (heap.freeLists index).count).sum
  if totalBlocks ≤ 1 then heap
  else if maxCoalesceBlocks < totalBlocks then heap.coalesceClasses 0 numSizeClasses
  else
    let blocks := (heap.freeBlocks.take maxCoalesceBlocks).insertionSort (· ≤ ·)
    let cleared := { heap with freeLists := fun _ => ⟨[], 0⟩, totalFree := 0 }
    let merged := cleared.mergeAdjacent [] blocks
    merged.1.rebuild merged.2.reverse

/-- The first block of a list that is large enough, and the list without the nodes before it
that are no free blocks of the heap. -/
def searchList (heap : Heap) (required : Nat) : List Nat → Option Nat × List Nat
  | [] => (none, [])
  | block :: rest =>
    if heap.isInHeap block ∧ (heap.headers block).magic = blockMagicFree then
      if required ≤ heap.size block then (some block, block :: rest)
      else
        let (found, kept) := heap.searchList required rest
        (found, block :: kept)
    else heap.searchList required rest

def searchLists (heap : Heap) (required index : Nat) : Nat → Option (Nat × Nat) × Heap
  | 0 => (none, heap)
  | classes + 1 =>
    let list := heap.freeLists index
    let (found, kept) := heap.searchList required list.blocks
    let searched := heap.setList index ⟨kept, list.count - (list.blocks.length - kept.length)⟩
    match found with
    | some block => (some (block, index), searched)
    | none => searched.searchLists required (index + 1) classes

def findBlock (heap : Heap) (required index : Nat) : Nat → Option (Nat × Nat)
  | 0 => none
  | classes + 1 =>
    match (heap.freeLists index).blocks.find? fun block => required ≤ heap.size block with
    | some block => some (block, index)
    | none => heap.findBlock required (index + 1) classes

def unlink (block index : Nat) : Heap :=
  let list := heap.freeLists index
  { heap.setList index ⟨list.blocks.erase block, list.count - 1⟩ with
    totalFree := heap.totalFree - heap.size block }

def carve (block required : Nat) : Heap :=
  let blockSize := heap.size block
  let remaining := blockSize - required
  if minBlockSize ≤ remaining then
    let remainder := block + required
    let shrunk := heap.setHeader block ((heap.headers block).setSize required).setUsed
    let split := (shrunk.setHeader remainder ⟨blockMagicFree, remaining⟩).addToFreeList remainder
    { split with
      totalFree := split.totalFree + remaining
      totalAllocated := split.totalAllocated + required }
  else
    let used := heap.setHeader block (heap.headers block).setUsed
    { used with totalAllocated := used.totalAllocated + blockSize }

def takeBlock (block index required : Nat) : Nat × Heap :=
  (block + headerSize, (heap.unlink block index).carve block required)

def kmallocGlobal (allocPages : Nat → Nat) (required index : Nat) : Nat × Heap :=
  match heap.searchLists required index (numSizeClasses - index) with
  | (some (block, found), heap) => heap.takeBlock block found required
  | (none, heap) =>
    match heap.expandHeap allocPages required with
    | (false, heap) => (0, heap)
    | (true, heap) =>
      match heap.findBlock required index (numSizeClasses - index) with
      | none => (0, heap)
      | some (block, found) => heap.takeBlock block found required

def arenaHead (cpu index : Nat) : Option Nat :=
  if heap.percpuEnabled ∧ index < percpuSizeClasses ∧ cpu < maxCpus then
    (heap.arenas cpu index).blocks.head?
  else none

def takeArena (cpu index block : Nat) : Heap :=
  let list := heap.arenas cpu index
  let used := (heap.setArena cpu index ⟨list.blocks.tail, list.count - 1⟩).setHeader block
    (heap.headers block).setUsed
  { used with totalAllocated := used.totalAllocated + used.size block }

def kmalloc (allocPages : Nat → Nat) (cpu size : Nat) : Nat × Heap :=
  if size = 0 then (0, heap)
  else
    let required := requiredSize size
    let index := getSizeClass required
    match heap.arenaHead cpu index with
    | some block => (block + headerSize, heap.takeArena cpu index block)
    | none => heap.kmallocGlobal allocPages required index

def goesToArena (cpu block : Nat) : Bool :=
  let header := heap.headers block
  let index := getSizeClass header.size
  let blockEnd := (block + header.size) % 2 ^ 64
  let nextIsFree := heap.isInHeap blockEnd ∧ (heap.headers blockEnd).magic = blockMagicFree
  heap.percpuEnabled ∧ header.isValid ∧ !header.isFree ∧ index < percpuSizeClasses ∧
    cpu < maxCpus ∧ ¬ nextIsFree ∧ (heap.arenas cpu index).count < percpuCacheSize

def putArena (cpu block : Nat) : Heap :=
  let blockSize := heap.size block
  let index := getSizeClass blockSize
  let list := heap.arenas cpu index
  let freed := (heap.setHeader block (heap.headers block).setFree).setArena cpu index
    ⟨block :: list.blocks, list.count + 1⟩
  { freed with totalAllocated := freed.totalAllocated - blockSize }

def kfreeGlobal (ptr block : Nat) : Heap :=
  let header := heap.headers block
  if !heap.isInHeap ptr then heap
  else if block % alignment ≠ 0 then heap
  else if !header.isValid then heap
  else if header.isFree then heap.setHeader block header.poison
  else if header.size < minBlockSize ∨ heap.heapSize < header.size then heap
  else
    ({ heap with
      totalAllocated := heap.totalAllocated - header.size
      totalFree := heap.totalFree + header.size }.addToFreeList block).coalesce

def kfree (cpu ptr : Nat) : Heap :=
  if ptr = 0 then heap
  else
    let block := ptrToHeader ptr
    if heap.goesToArena cpu block then heap.putArena cpu block
    else heap.kfreeGlobal ptr block

def krealloc (allocPages : Nat → Nat) (cpu ptr newSize : Nat) : Nat × Heap :=
  if ptr = 0 then heap.kmalloc allocPages cpu newSize
  else if newSize = 0 then (0, heap.kfree cpu ptr)
  else
    let header := heap.headers (ptrToHeader ptr)
    if header.magic ≠ blockMagicAlloc then (0, heap)
    else if newSize ≤ header.size - headerSize then (ptr, heap)
    else
      match heap.kmalloc allocPages cpu newSize with
      | (0, heap) => (0, heap)
      | (newPtr, heap) => (newPtr, heap.kfree cpu ptr)

def blank (headers : Nat → BlockHeader) : Heap :=
  ⟨headers, [], 0, 0, fun _ => ⟨[], 0⟩, fun _ _ => ⟨[], 0⟩, false, 0, 0⟩

def init (headers : Nat → BlockHeader) (allocPages : Nat → Nat) : Heap :=
  let firstPage := allocPages 16
  if firstPage = 0 then blank headers
  else
    let heapSize := 16 * pageSize
    { blank headers with
      headers := Function.update headers firstPage ⟨blockMagicFree, heapSize⟩
      regions := [⟨firstPage, firstPage + heapSize⟩]
      heapEnd := firstPage + heapSize
      heapSize
      freeLists := Function.update (fun _ => ⟨[], 0⟩) (numSizeClasses - 1) ⟨[firstPage], 1⟩
      percpuEnabled := true
      totalFree := heapSize }

def cachedBlocks : List Nat :=
  gather maxCpus fun cpu => gather percpuSizeClasses fun index => (heap.arenas cpu index).blocks

end

end Heap

end ViperDos.KHeap
