import ViperDos.ByteRecords

/-!
The allocator of user/libc/src/stdlib.c. The headers of the blocks lie in the memory of
the process, each before its block, and are chained from `free_list` on; a header is a
size, the address of the next header and a flag, 24 bytes with the padding. `sbrk` is the
kernel's: it returns the old break and moves it, or it refuses; that the limits of the heap or
the free pages allow the move comes with the call. Sums and products are computed in 64 bits.
-/

namespace ViperDos.Libc

open ByteRecords

def headerSize : Nat := 24

/-- The number of addresses. A chain that has not ended after as many headers never does. -/
def addresses : Nat := 2 ^ 64

structure Process where
  memory : Bytes
  brk : Nat
  freeList : Nat

def blockSize (memory : Bytes) (block : Nat) : Nat := getLE 8 memory block
def blockNext (memory : Bytes) (block : Nat) : Nat := getLE 8 memory (block + 8)
def blockFree (memory : Bytes) (block : Nat) : Nat := getLE 4 memory (block + 16)

def setSize (memory : Bytes) (block value : Nat) : Bytes := putLE 8 memory block value
def setNext (memory : Bytes) (block value : Nat) : Bytes := putLE 8 memory (block + 8) value
def setFree (memory : Bytes) (block value : Nat) : Bytes := putLE 4 memory (block + 16) value

def payload (block : Nat) : Nat := (block + headerSize) % 2 ^ 64

def headerOf (ptr : Nat) : Nat := (ptr + 2 ^ 64 - headerSize) % 2 ^ 64

section

variable (p : Process) (granted : Bool)

/-- The increment is a `long`: from 2^63 on it is negative and lowers the break. -/
def sbrk (increment : Nat) : Option (Nat × Process) :=
  let newBreak := (p.brk + increment) % 2 ^ 64
  if increment < 2 ^ 63 ∧ newBreak < p.brk then none
  else if 2 ^ 63 ≤ increment ∧ p.brk < newBreak then none
  else if granted then some (p.brk, { p with brk := newBreak })
  else none

def alignSize (size : Nat) : Nat := (size + 15) % 2 ^ 64 / 16 * 16

def Fitting (memory : Bytes) (size block : Nat) : Prop :=
  blockFree memory block ≠ 0 ∧ size ≤ blockSize memory block

instance (memory : Bytes) (size block : Nat) : Decidable (Fitting memory size block) :=
  inferInstanceAs (Decidable (_ ∧ _))

inductive Search where
  | fits (block : Nat)
  | ends (last : Nat)

def search (memory : Bytes) (size : Nat) : Nat → Nat → Nat → Option Search
  | 0, _, _ => none
  | fuel + 1, prev, curr =>
    if curr = 0 then some (.ends prev)
    else if Fitting memory size curr then some (.fits curr)
    else search memory size fuel curr (blockNext memory curr)

def takeBlock (p : Process) (block : Nat) : Process :=
  { p with memory := setFree p.memory block 0 }

def appendBlock (p : Process) (block size last : Nat) : Process :=
  let written := setFree (setNext (setSize p.memory block size) block 0) block 0
  if last ≠ 0 then { p with memory := setNext written last block }
  else { p with memory := written, freeList := block }

def malloc (size : Nat) : Option (Nat × Process) :=
  if size = 0 then some (0, p)
  else
    match search p.memory (alignSize size) addresses 0 p.freeList with
    | none => none
    | some (.fits curr) => some (payload curr, takeBlock p curr)
    | some (.ends last) =>
      match sbrk p granted ((headerSize + alignSize size) % 2 ^ 64) with
      | none => some (0, p)
      | some (block, grown) =>
        some (payload block, appendBlock grown block (alignSize size) last)

def free (p : Process) (ptr : Nat) : Process :=
  if ptr = 0 then p else { p with memory := setFree p.memory (headerOf ptr) 1 }

def memset (memory : Bytes) (start : Nat) (value : UInt8) (count : Nat) : Bytes :=
  blit memory start (fun _ => value) 0 count

def memcpy (memory : Bytes) (target source count : Nat) : Bytes :=
  blit memory target memory source count

def calloc (nmemb size : Nat) : Option (Nat × Process) :=
  let total := nmemb * size % 2 ^ 64
  match malloc p granted total with
  | none => none
  | some (ptr, after) =>
    if ptr ≠ 0 then some (ptr, { after with memory := memset after.memory ptr 0 total })
    else some (ptr, after)

def realloc (ptr size : Nat) : Option (Nat × Process) :=
  if ptr = 0 then malloc p granted size
  else if size = 0 then some (0, free p ptr)
  else if size ≤ blockSize p.memory (headerOf ptr) then some (ptr, p)
  else
    match malloc p granted size with
    | none => none
    | some (newPtr, after) =>
      if newPtr ≠ 0 then
        let copied := memcpy after.memory newPtr ptr (blockSize after.memory (headerOf ptr))
        some (newPtr, free { after with memory := copied } ptr)
      else some (newPtr, after)

end

structure Allocation where
  ptr : Nat
  requested : Nat
  deriving DecidableEq

structure World where
  process : Process
  live : List Allocation

inductive Call where
  | malloc (granted : Bool) (size : Nat)
  | calloc (granted : Bool) (nmemb size : Nat)
  | realloc (granted : Bool) (ptr size : Nat)
  | free (ptr : Nat)
  | write (ptr offset : Nat) (value : UInt8)

def release (live : List Allocation) (ptr : Nat) : List Allocation :=
  live.filter fun a => a.ptr ≠ ptr

def obtained (live : List Allocation) (ptr requested : Nat) : List Allocation :=
  if ptr = 0 then live else ⟨ptr, requested⟩ :: live

def perform (w : World) : Call → Option (Nat × World)
  | .malloc granted size =>
    (malloc w.process granted size).map fun (ptr, p) => (ptr, ⟨p, obtained w.live ptr size⟩)
  | .calloc granted nmemb size =>
    (calloc w.process granted nmemb size).map fun (ptr, p) =>
      (ptr, ⟨p, obtained w.live ptr (nmemb * size)⟩)
  | .realloc granted ptr size =>
    (realloc w.process granted ptr size).map fun (newPtr, p) =>
      -- a failed call leaves the old allocation, unless it was asked for nothing
      let kept := if newPtr = 0 ∧ size ≠ 0 then w.live else release w.live ptr
      (newPtr, ⟨p, obtained kept newPtr size⟩)
  | .free ptr => some (0, ⟨free w.process ptr, release w.live ptr⟩)
  | .write ptr offset value =>
    let memory := Function.update w.process.memory (ptr + offset) value
    some (0, { w with process := { w.process with memory } })

end ViperDos.Libc
