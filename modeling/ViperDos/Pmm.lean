import ViperDos.BuddyCover

/-!
The physical memory manager of kernel/mm/pmm.cpp: the buddy allocator for the memory behind
the framebuffer, and a bitmap for the memory before it that serves what the buddy allocator
cannot. A request for several pages is rounded up to an order there, and is returned page by
page. `used` is the bitmap by page; messages and the tracking of one page for debugging are
left out.
-/

namespace ViperDos.Buddy

open BuddyAllocator PowerBlocks

structure Pmm where
  buddyAvailable : Bool
  memStart : Nat
  memEnd : Nat
  totalPages : Nat
  freeCount : Nat
  buddyRegionStart : Nat
  buddyRegionEnd : Nat
  used : Nat → Bool
  bitmapSize : Nat
  nextFreeHint : Nat
  buddy : BuddyAllocator

namespace Pmm

def addrToPage (pmm : Pmm) (addr : Nat) : Nat := (addr - pmm.memStart) / pageSize
def pageToAddr (pmm : Pmm) (page : Nat) : Nat := pmm.memStart + pageSize * page

def setBit (pmm : Pmm) (page : Nat) : Pmm := { pmm with used := Function.update pmm.used page true }
def clearBit (pmm : Pmm) (page : Nat) : Pmm :=
  { pmm with used := Function.update pmm.used page false }

section

variable (pmm : Pmm)

def scanWord (word : Nat) : Option Nat :=
  ((List.range 64).map fun bit => word * 64 + bit).find? fun page =>
    page < pmm.totalPages && !pmm.used page

def takeBit : Nat × Pmm :=
  let found := (List.range pmm.bitmapSize).findSome? fun i =>
    let word := (pmm.nextFreeHint + i) % pmm.bitmapSize
    (pmm.scanWord word).map fun page => (word, page)
  match found with
  | none => (0, pmm)
  | some (word, page) =>
    (pmm.pageToAddr page,
      { pmm.setBit page with freeCount := pmm.freeCount - 1, nextFreeHint := word })

def allocPage (cpu : Nat) : Nat × Pmm :=
  if pmm.buddyAvailable then
    match pmm.buddy.allocPages cpu 0 with
    | (0, buddy) => takeBit { pmm with buddy }
    | (addr, buddy) => (addr, { pmm with buddy })
  else pmm.takeBit

def findRun (pmm : Pmm) (count startPage i runStart runLength : Nat) : Nat → Option Nat
  | 0 => none
  | left + 1 =>
    let page := (startPage + i) % pmm.totalPages
    if pmm.used page then pmm.findRun count startPage (i + 1) runStart 0 left
    else
      let runStart := if runLength = 0 then page else runStart
      if runLength + 1 = count then some runStart
      else pmm.findRun count startPage (i + 1) runStart (runLength + 1) left

def setBits (pmm : Pmm) (page : Nat) : Nat → Pmm
  | 0 => pmm
  | count + 1 => setBits (pmm.setBit page) (page + 1) count

def takeRun (count : Nat) : Nat × Pmm :=
  let startPage := if pmm.totalPages ≤ pmm.nextFreeHint * 64 then 0 else pmm.nextFreeHint * 64
  match pmm.findRun count startPage 0 0 0 pmm.totalPages with
  | none => (0, pmm)
  | some runStart =>
    let hint := (runStart + count) / 64
    (pmm.pageToAddr runStart,
      { pmm.setBits runStart count with
        freeCount := pmm.freeCount - count
        nextFreeHint := if pmm.bitmapSize ≤ hint then 0 else hint })

def allocPages (pmm : Pmm) (cpu count : Nat) : Nat × Pmm :=
  if count = 0 then (0, pmm)
  else if count = 1 then pmm.allocPage cpu
  else if pmm.buddyAvailable then
    match pmm.buddy.allocPages cpu (pagesToOrder count) with
    | (0, buddy) => takeRun { pmm with buddy } count
    | (addr, buddy) => (addr, { pmm with buddy })
  else pmm.takeRun count

def freePageUnlocked (physAddr : Nat) : Pmm :=
  if physAddr < pmm.memStart ∨ pmm.memEnd ≤ physAddr then pmm
  else if !pmm.used (pmm.addrToPage physAddr) then pmm
  else { pmm.clearBit (pmm.addrToPage physAddr) with freeCount := pmm.freeCount + 1 }

def inBuddyRegion (physAddr : Nat) : Bool :=
  pmm.buddyAvailable && decide (pmm.buddyRegionStart ≤ physAddr) &&
    decide (physAddr < pmm.buddyRegionEnd)

def freeBits (pmm : Pmm) (physAddr : Nat) : Nat → Pmm
  | 0 => pmm
  | count + 1 => freeBits (pmm.freePageUnlocked physAddr) (physAddr + pageSize) count

/-- The first page decides for all pages which allocator they go to. -/
def freePages (cpu physAddr count : Nat) : Pmm :=
  if pmm.inBuddyRegion physAddr then
    { pmm with buddy := freeEach pmm.buddy cpu physAddr count }
  else pmm.freeBits physAddr count

def fbBase : Nat := 0x41000000
def fbSize : Nat := 9 * 1024 * 1024

def clearPages (pmm : Pmm) (addr : Nat) : Nat → Pmm
  | 0 => pmm
  | rounds + 1 =>
    let page := pmm.addrToPage addr
    let cleared := if page < pmm.totalPages then
        { pmm with
          used := Function.update pmm.used page false, freeCount := pmm.freeCount + 1 }
      else pmm
    clearPages cleared (addr + pageSize) rounds

def initBuddyRegion (fbEnd : Nat) : Pmm :=
  if pmm.memEnd ≤ fbEnd then pmm
  else
    match pmm.buddy.init fbEnd pmm.memEnd fbEnd with
    | (false, allocator) => { pmm with buddy := allocator }
    | (true, allocator) =>
      { pmm with
        buddyAvailable := true
        buddyRegionStart := fbEnd
        buddyRegionEnd := pmm.memEnd
        buddy := allocator }

end

/-- The parameters that are 0 have defaults. The bitmap lies behind the kernel. -/
def init (allocator : BuddyAllocator) (ramStart ramSize kernelEnd fbBaseParam fbSizeParam : Nat) :
    Pmm :=
  let totalPages := ramSize / pageSize
  let bitmapSize := (totalPages + 63) / 64
  let usableStart := pageAlignUp (pageAlignUp kernelEnd + bitmapSize * 8)
  let fbStart := if fbBaseParam ≠ 0 then fbBaseParam else fbBase
  let fbEnd := fbStart + if fbSizeParam ≠ 0 then fbSizeParam else fbSize
  let pmm : Pmm := ⟨false, ramStart, ramStart + ramSize, totalPages, 0, 0, 0, fun _ => true,
    bitmapSize, 0, allocator⟩
  (pmm.initBuddyRegion fbEnd).clearPages usableStart
    ((fbStart - usableStart + (pageSize - 1)) / pageSize)

end Pmm

def BitFree (pmm : Pmm) (x : Nat) : Prop :=
  pmm.memStart ≤ x ∧ x < pmm.pageToAddr pmm.totalPages ∧ pmm.used (pmm.addrToPage x) = false

def IsFree (pmm : Pmm) (x : Nat) : Prop :=
  (pmm.buddyAvailable = true ∧ Held pmm.buddy x) ∨ BitFree pmm x

/-- The memory manager as `init` sets it up: the free pages of the bitmap end before the
memory of the buddy allocator, and the first page is the kernel's. -/
structure SoundPmm (pmm : Pmm) : Prop where
  buddy : pmm.buddyAvailable = true → Kept pmm.buddy ∧ Counted pmm.buddy ∧
    pmm.buddyRegionStart ≤ pmm.buddy.memStart ∧ pmm.buddy.memEnd ≤ pmm.buddyRegionEnd
  before : pmm.buddyAvailable = true → ∀ page < pmm.totalPages, pmm.used page = false →
    pmm.pageToAddr (page + 1) ≤ pmm.buddyRegionStart
  first : pmm.used 0 = true
  whole : pmm.pageToAddr pmm.totalPages ≤ pmm.memEnd

/-- The pages of a non-zero result were free and are taken, and when they are returned the
free pages are those from before. -/
def Conserves (pmm : Pmm) (cpu returning count : Nat) : Prop :=
  (pmm.allocPages cpu count).1 ≠ 0 →
    (∀ x, (pmm.allocPages cpu count).1 ≤ x →
      x < (pmm.allocPages cpu count).1 + pageSize * count →
        IsFree pmm x ∧ ¬ IsFree (pmm.allocPages cpu count).2 x) ∧
    ∀ x, IsFree ((pmm.allocPages cpu count).2.freePages returning
      (pmm.allocPages cpu count).1 count) x ↔ IsFree pmm x

/-- The request is for a number of pages that is an order's, or the bitmap has to serve it. -/
def Exact (pmm : Pmm) (count : Nat) : Prop :=
  count = 0 ∨ (∃ order < maxOrder, count = 2 ^ order) ∨ pmm.buddyAvailable = false ∨
    ¬ Stocked pmm.buddy (pagesToOrder count)

end ViperDos.Buddy
