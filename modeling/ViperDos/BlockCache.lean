import ViperDos.HashChains
import Mathlib.Data.List.Sort

/-!
The block cache of kernel/fs/cache.cpp, with the disk behind it. A function of the source
is cut where it takes or drops the lock: what it does while it holds the lock is one
definition, and so is a transfer to or from the disk, which it does without. Whether a
transfer fails comes with it; one that fails changes nothing. The chains of the hash table
and the list of recent use are lists of entries. Statistics and messages are left out, and
so are `evict`, `prefetch_block` and `read_ahead`, which nothing calls.
-/

namespace ViperDos.BlockCache

open HashChains

variable {Data : Type}

def cacheBlocks : Nat := 64
def hashSize : Nat := 32
def readAheadBlocks : Nat := 0

structure CacheBlock (Data : Type) where
  blockNum : Nat
  data : Data
  valid : Bool
  dirty : Bool
  pinned : Bool
  refcount : UInt32

/-- The cache and the disk. The list of recent use begins with the most recent. -/
structure Cache (Data : Type) where
  blocks : Nat → CacheBlock Data
  hash : Nat → List Nat
  lru : List Nat
  lastBlock : Nat
  disk : Nat → Data

def init (disk memory : Nat → Data) : Cache Data where
  blocks entry := ⟨0, memory entry, false, false, false, 0⟩
  hash _ := []
  lru := List.range cacheBlocks
  lastBlock := 0
  disk := disk

section

variable (c : Cache Data) (entry : Nat)

def setBlock (block : CacheBlock Data) : Cache Data :=
  { c with blocks := Function.update c.blocks entry block }

def hashFunc (num : Nat) : Nat := num % hashSize

def find (c : Cache Data) (num : Nat) : Option Nat :=
  (c.hash (hashFunc num)).find? fun entry =>
    (c.blocks entry).valid && decide ((c.blocks entry).blockNum = num)

def findAny (c : Cache Data) (num : Nat) : Option Nat :=
  (c.hash (hashFunc num)).find? fun entry => decide ((c.blocks entry).blockNum = num)

def touch : Cache Data :=
  { c with lru := entry :: c.lru.erase entry }

def insertHash : Cache Data :=
  { c with hash := insertAt c.hash (hashFunc (c.blocks entry).blockNum) entry }

def removeHash : Cache Data :=
  { c with hash := removeAt c.hash (hashFunc (c.blocks entry).blockNum) entry }

def findEvictionVictim (c : Cache Data) : Option Nat :=
  c.lru.reverse.find? fun entry =>
    decide ((c.blocks entry).refcount = 0) && !(c.blocks entry).pinned

def writeBlock (c : Cache Data) (num entry : Nat) (ok : Bool) : Cache Data :=
  if ok then { c with disk := Function.update c.disk num (c.blocks entry).data } else c

def readBlock (c : Cache Data) (num entry : Nat) (ok : Bool) : Cache Data :=
  if ok then setBlock c entry { c.blocks entry with data := c.disk num } else c

/-- The entry is taken out of the hash table, and put in again for another block that is
still to be loaded. -/
def reserve (c : Cache Data) (num entry : Nat) : Cache Data :=
  let unhashed := if (c.blocks entry).valid then removeHash c entry else c
  insertHash
    (setBlock unhashed entry
      { c.blocks entry with blockNum := num, valid := false, dirty := false, refcount := 1 })
    entry

def writeBackOf : Option Nat :=
  if (c.blocks entry).valid && (c.blocks entry).dirty then some (c.blocks entry).blockNum
  else none

inductive Purpose where
  | read | write | pin
  deriving DecidableEq

inductive Lookup (Data : Type) where
  | busy
  | full
  | hit (entry : Nat) (c : Cache Data)
  | miss (entry : Nat) (writeBack : Option Nat) (c : Cache Data)

def addRef : Cache Data :=
  setBlock c entry { c.blocks entry with refcount := (c.blocks entry).refcount + 1 }

def takeHit (c : Cache Data) (forWrite : Bool) (num entry : Nat) : Cache Data :=
  let touched := touch (addRef c entry) entry
  if forWrite then
    setBlock touched entry { touched.blocks entry with dirty := true }
  else { touched with lastBlock := num }

def lookup (c : Cache Data) (forWrite : Bool) (num : Nat) : Lookup Data :=
  match findAny c num with
  | some entry =>
    if !(c.blocks entry).valid then .busy else .hit entry (takeHit c forWrite num entry)
  | none =>
    match findEvictionVictim c with
    | none => .full
    | some entry => .miss entry (writeBackOf c entry) (touch (reserve c num entry) entry)

def finishLoad (c : Cache Data) (why : Purpose) (num entry : Nat) (ok : Bool) : Cache Data :=
  if ok then
    let block := { c.blocks entry with valid := true }
    match why with
    | .read => { setBlock c entry block with lastBlock := num }
    | .write => setBlock c entry { block with dirty := true }
    | .pin => setBlock c entry { block with refcount := 0, pinned := true }
  else
    let unhashed := removeHash c entry
    setBlock unhashed entry { c.blocks entry with refcount := 0, blockNum := 0 }

def modify (data : Data) : Cache Data :=
  setBlock c entry { c.blocks entry with data, dirty := true }

def release : Cache Data :=
  if 0 < (c.blocks entry).refcount then
    setBlock c entry { c.blocks entry with refcount := (c.blocks entry).refcount - 1 }
  else c

def isDirty : Bool :=
  (c.blocks entry).valid && (c.blocks entry).dirty

def dirtyIndices (c : Cache Data) : List Nat :=
  ((List.range cacheBlocks).filter fun entry => isDirty c entry).insertionSort
    fun left right => (c.blocks left).blockNum ≤ (c.blocks right).blockNum

def nextDirty (c : Cache Data) : List Nat → Option (Nat × List Nat)
  | [] => none
  | entry :: rest => if isDirty c entry then some (entry, rest) else nextDirty c rest

/-- After a write-back the entry counts as clean, whatever came of the write. -/
def markClean : Cache Data :=
  setBlock c entry
    { c.blocks entry with dirty := false, refcount := (c.blocks entry).refcount - 1 }

def discard : Cache Data :=
  let unhashed := removeHash c entry
  setBlock unhashed entry { c.blocks entry with valid := false, pinned := false }

def setPinned (pinned : Bool) : Cache Data :=
  setBlock c entry { c.blocks entry with pinned }

end

end ViperDos.BlockCache
