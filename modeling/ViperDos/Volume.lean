import ViperDos.Journal

/-!
The on-disk records of a ViperFS volume (kernel/fs/viperfs/format.hpp) and the access to
inodes. A superblock and an inode are their bytes, read and written at the offsets of
their fields, so that bytes no function looks at are copied along with the rest.

The disk is what the block cache presents: the last contents written to a block. The
cache can fail to get a block; which blocks it can get is fixed during an operation.
Allocation of memory for an inode always succeeds, locks and messages are left out, and
so is the cache of inodes, which none of the operations modelled here goes through.
-/

namespace ViperDos.ViperFs

open ByteRecords

/-- What an operation finds around it: the blocks the cache can get, the clocks, the
answers of the cache to the journal, and what the stack holds before it is filled. -/
structure Env where
  readable : Nat → Bool
  now : Nat
  ticks : Nat
  answers : Nat → Answer
  scratch : Bytes

structure Superblock where
  bytes : Bytes

namespace Superblock

def magic (sb : Superblock) : Nat := getLE 4 sb.bytes 0
def version (sb : Superblock) : Nat := getLE 4 sb.bytes 4
def totalBlocks (sb : Superblock) : Nat := getLE 8 sb.bytes 16
def freeBlocks (sb : Superblock) : Nat := getLE 8 sb.bytes 24
def inodeCount (sb : Superblock) : Nat := getLE 8 sb.bytes 32
def bitmapStart (sb : Superblock) : Nat := getLE 8 sb.bytes 48
def bitmapBlocks (sb : Superblock) : Nat := getLE 8 sb.bytes 56
def inodeTableStart (sb : Superblock) : Nat := getLE 8 sb.bytes 64
def dataStart (sb : Superblock) : Nat := getLE 8 sb.bytes 80
def checksum (sb : Superblock) : Nat := getLE 4 sb.bytes 168

def setFreeBlocks (sb : Superblock) (value : Nat) : Superblock := ⟨putLE 8 sb.bytes 24 value⟩
def setChecksum (sb : Superblock) (value : Nat) : Superblock := ⟨putLE 4 sb.bytes 168 value⟩

end Superblock

structure Inode where
  bytes : Bytes

def typeMask : Nat := 0xF000
def typeFile : Nat := 0x8000
def typeDir : Nat := 0x4000
def typeLink : Nat := 0xA000
def permRead : Nat := 4
def permWrite : Nat := 2
def permExec : Nat := 1

namespace Inode

def num (inode : Inode) : Nat := getLE 8 inode.bytes 0
def mode (inode : Inode) : Nat := getLE 4 inode.bytes 8
def size (inode : Inode) : Nat := getLE 8 inode.bytes 16
def blocks (inode : Inode) : Nat := getLE 8 inode.bytes 24
def direct (inode : Inode) (i : Nat) : Nat := getLE 8 inode.bytes (56 + 8 * i)
def indirect (inode : Inode) : Nat := getLE 8 inode.bytes 152
def doubleIndirect (inode : Inode) : Nat := getLE 8 inode.bytes 160

def setNum (inode : Inode) (value : Nat) : Inode := ⟨putLE 8 inode.bytes 0 value⟩
def setMode (inode : Inode) (value : Nat) : Inode := ⟨putLE 4 inode.bytes 8 value⟩
def setSize (inode : Inode) (value : Nat) : Inode := ⟨putLE 8 inode.bytes 16 value⟩
def setBlocks (inode : Inode) (value : Nat) : Inode := ⟨putLE 8 inode.bytes 24 value⟩
def setAtime (inode : Inode) (value : Nat) : Inode := ⟨putLE 8 inode.bytes 32 value⟩
def setMtime (inode : Inode) (value : Nat) : Inode := ⟨putLE 8 inode.bytes 40 value⟩
def setCtime (inode : Inode) (value : Nat) : Inode := ⟨putLE 8 inode.bytes 48 value⟩
def setDirect (inode : Inode) (i value : Nat) : Inode := ⟨putLE 8 inode.bytes (56 + 8 * i) value⟩
def setIndirect (inode : Inode) (value : Nat) : Inode := ⟨putLE 8 inode.bytes 152 value⟩
def setDoubleIndirect (inode : Inode) (value : Nat) : Inode := ⟨putLE 8 inode.bytes 160 value⟩

def isDirectory (inode : Inode) : Bool := inode.mode &&& typeMask = typeDir

def fresh (num mode now : Nat) : Inode :=
  let inode : Inode := ⟨fun _ => 0⟩
  ((((inode.setNum num).setMode mode).setAtime now).setMtime now).setCtime now

end Inode

def inodeSize : Nat := 256
def inodesPerBlock : Nat := 16
def rootInode : Nat := 2

structure Volume where
  sb : Superblock
  disk : Disk
  mounted : Bool

def Volume.write (vol : Volume) (num : Nat) (block : Block) : Volume :=
  { vol with disk := Function.update vol.disk num block }

def inodeBlock (sb : Superblock) (ino : Nat) : Nat := sb.inodeTableStart + ino / inodesPerBlock

def inodeOffset (ino : Nat) : Nat := ino % inodesPerBlock * inodeSize

def inodeAt (sb : Superblock) (disk : Disk) (ino : Nat) : Inode :=
  ⟨blit (fun _ => 0) 0 (disk (inodeBlock sb ino)) (inodeOffset ino) inodeSize⟩

section

variable (env : Env) (vol : Volume)

def readInode (ino : Nat) : Option Inode :=
  if !vol.mounted then none
  else if !env.readable (inodeBlock vol.sb ino) then none
  else some (inodeAt vol.sb vol.disk ino)

def storeInode (vol : Volume) (ino : Nat) (inode : Inode) : Volume :=
  let num := inodeBlock vol.sb ino
  vol.write num (blit (vol.disk num) (inodeOffset ino) inode.bytes 0 inodeSize)

def writeInode (inode : Inode) : Bool × Volume :=
  if !vol.mounted then (false, vol)
  else if !env.readable (inodeBlock vol.sb inode.num) then (false, vol)
  else (true, storeInode vol inode.num inode)

def findInode (env : Env) (vol : Volume) : Nat → Nat → Option Nat
  | 0, _ => none
  | fuel + 1, ino =>
    if vol.sb.inodeCount ≤ ino then none
    else if env.readable (inodeBlock vol.sb ino) ∧ (inodeAt vol.sb vol.disk ino).mode = 0 then
      some ino
    else findInode env vol fuel (ino + 1)

def setInodeMode (vol : Volume) (ino mode : Nat) : Volume :=
  storeInode vol ino ((inodeAt vol.sb vol.disk ino).setMode mode)

/-- The inode is marked as a file at once; its other fields keep what they held. -/
def allocInode : Nat × Volume :=
  if !vol.mounted then (0, vol)
  else
    match findInode env vol vol.sb.inodeCount 2 with
    | some ino => (ino, setInodeMode vol ino typeFile)
    | none => (0, vol)

def freeInode (ino : Nat) : Volume :=
  if !vol.mounted then vol
  else if !env.readable (inodeBlock vol.sb ino) then vol
  else setInodeMode vol ino 0

end

end ViperDos.ViperFs
