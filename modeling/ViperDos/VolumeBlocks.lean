import ViperDos.Volume

/-!
Blocks of a volume: the bitmap allocator, the pointers of an inode (twelve direct ones,
one block of pointers and one block of blocks of pointers), reading and writing at an
offset, and truncation. Functions that fail part-way return what they have done so far.
-/

namespace ViperDos.ViperFs

open ByteRecords

def bitsPerBlock : Nat := 8 * blockSize
def ptrsPerBlock : Nat := 512

def hasBit (byte : UInt8) (bit : Nat) : Bool := byte &&& UInt8.ofNat (2 ^ bit) ≠ 0
def setBit (byte : UInt8) (bit : Nat) : UInt8 := byte ||| UInt8.ofNat (2 ^ bit)
def clearBit (byte : UInt8) (bit : Nat) : UInt8 := byte &&& ~~~ UInt8.ofNat (2 ^ bit)

def freeBit (byte : UInt8) : Nat → Nat → Option Nat
  | 0, _ => none
  | fuel + 1, bit => if hasBit byte bit then freeBit byte fuel (bit + 1) else some bit

def freeByte (block : Block) : Nat → Nat → Option (Nat × Nat)
  | 0, _ => none
  | fuel + 1, byte =>
    if block byte = 0xFF then freeByte block fuel (byte + 1)
    else
      match freeBit (block byte) 8 0 with
      | some bit => some (byte, bit)
      | none => freeByte block fuel (byte + 1)

/-- Bitmap blocks that the cache cannot get are passed over. -/
def freeEntry (env : Env) (vol : Volume) : Nat → Nat → Option (Nat × Nat × Nat)
  | 0, _ => none
  | fuel + 1, bitmapBlock =>
    let num := vol.sb.bitmapStart + bitmapBlock
    if !env.readable num then freeEntry env vol fuel (bitmapBlock + 1)
    else
      match freeByte (vol.disk num) blockSize 0 with
      | some (byte, bit) => some (bitmapBlock, byte, bit)
      | none => freeEntry env vol fuel (bitmapBlock + 1)

def putBitmap (vol : Volume) (bitmapBlock byte : Nat) (value : UInt8) : Volume :=
  let num := vol.sb.bitmapStart + bitmapBlock
  vol.write num (Function.update (vol.disk num) byte value)

def setFree (vol : Volume) (value : Nat) : Volume := { vol with sb := vol.sb.setFreeBlocks value }

def allocBlock (env : Env) (vol : Volume) : Nat × Volume :=
  if !vol.mounted then (0, vol)
  else if vol.sb.freeBlocks = 0 then (0, vol)
  else
    match freeEntry env vol vol.sb.bitmapBlocks 0 with
    | none => (0, vol)
    | some (bitmapBlock, byte, bit) =>
      let blockNum := bitmapBlock * bitsPerBlock + byte * 8 + bit
      if vol.sb.totalBlocks ≤ blockNum then (0, vol)
      else
        let old := vol.disk (vol.sb.bitmapStart + bitmapBlock) byte
        (blockNum, setFree (putBitmap vol bitmapBlock byte (setBit old bit))
          (vol.sb.freeBlocks - 1))

def freeBlock (env : Env) (vol : Volume) (blockNum : Nat) : Volume :=
  if !vol.mounted then vol
  else if vol.sb.totalBlocks ≤ blockNum then vol
  else
    let bitmapBlock := blockNum / bitsPerBlock
    let byte := blockNum / 8 % blockSize
    let num := vol.sb.bitmapStart + bitmapBlock
    if !env.readable num then vol
    else
      setFree (putBitmap vol bitmapBlock byte (clearBit (vol.disk num byte) (blockNum % 8)))
        (vol.sb.freeBlocks + 1)

def allocZeroedBlock (env : Env) (vol : Volume) : Nat × Volume :=
  let (blockNum, vol) := allocBlock env vol
  if blockNum = 0 then (0, vol)
  else if !env.readable blockNum then (0, freeBlock env vol blockNum)
  else (blockNum, vol.write blockNum fun _ => 0)

def readIndirect (env : Env) (disk : Disk) (blockNum index : Nat) : Nat :=
  if blockNum = 0 then 0
  else if ptrsPerBlock ≤ index then 0
  else if !env.readable blockNum then 0
  else getLE 8 (disk blockNum) (8 * index)

def writeIndirect (env : Env) (vol : Volume) (blockNum index value : Nat) : Bool × Volume :=
  if blockNum = 0 then (false, vol)
  else if ptrsPerBlock ≤ index then (false, vol)
  else if !env.readable blockNum then (false, vol)
  else (true, vol.write blockNum (putLE 8 (vol.disk blockNum) (8 * index) value))

def getBlockPtr (env : Env) (disk : Disk) (inode : Inode) (blockIdx : Nat) : Nat :=
  if blockIdx < 12 then inode.direct blockIdx
  else
    let blockIdx := blockIdx - 12
    if blockIdx < ptrsPerBlock then readIndirect env disk inode.indirect blockIdx
    else
      let blockIdx := blockIdx - ptrsPerBlock
      if blockIdx < ptrsPerBlock * ptrsPerBlock then
        let l1Block := readIndirect env disk inode.doubleIndirect (blockIdx / ptrsPerBlock)
        if l1Block = 0 then 0 else readIndirect env disk l1Block (blockIdx % ptrsPerBlock)
      else 0

section

variable (env : Env) (vol : Volume) (inode : Inode)

def setSinglePtr (index blockNum : Nat) : Bool × Inode × Volume :=
  if inode.indirect = 0 then
    let (fresh, vol) := allocZeroedBlock env vol
    let inode := inode.setIndirect fresh
    if fresh = 0 then (false, inode, vol)
    else
      let (done, vol) := writeIndirect env vol inode.indirect index blockNum
      (done, inode, vol)
  else
    let (done, vol) := writeIndirect env vol inode.indirect index blockNum
    (done, inode, vol)

def setLeafPtr (index blockNum : Nat) : Bool × Inode × Volume :=
  let l1Idx := index / ptrsPerBlock
  let l2Idx := index % ptrsPerBlock
  let l1Block := readIndirect env vol.disk inode.doubleIndirect l1Idx
  if l1Block = 0 then
    let (l1Block, vol) := allocZeroedBlock env vol
    if l1Block = 0 then (false, inode, vol)
    else
      let (_, vol) := writeIndirect env vol inode.doubleIndirect l1Idx l1Block
      let (done, vol) := writeIndirect env vol l1Block l2Idx blockNum
      (done, inode, vol)
  else
    let (done, vol) := writeIndirect env vol l1Block l2Idx blockNum
    (done, inode, vol)

def setDoublePtr (index blockNum : Nat) : Bool × Inode × Volume :=
  if inode.doubleIndirect = 0 then
    let (fresh, vol) := allocZeroedBlock env vol
    let inode := inode.setDoubleIndirect fresh
    if fresh = 0 then (false, inode, vol) else setLeafPtr env vol inode index blockNum
  else setLeafPtr env vol inode index blockNum

def setBlockPtr (blockIdx blockNum : Nat) : Bool × Inode × Volume :=
  if blockIdx < 12 then (true, inode.setDirect blockIdx blockNum, vol)
  else
    let blockIdx := blockIdx - 12
    if blockIdx < ptrsPerBlock then setSinglePtr env vol inode blockIdx blockNum
    else
      let blockIdx := blockIdx - ptrsPerBlock
      if blockIdx < ptrsPerBlock * ptrsPerBlock then setDoublePtr env vol inode blockIdx blockNum
      else (false, inode, vol)

/-- The loop of `read_data`: `remaining` bytes from `offset` to position `done` of the
buffer. A hole reads as zeros. -/
def readLoop (env : Env) (disk : Disk) (inode : Inode) :
    Nat → Nat → Nat → Nat → Bytes → Option Bytes
  | 0, _, _, _, buf => some buf
  | fuel + 1, offset, done, remaining, buf =>
    if remaining = 0 then some buf
    else
      let blockOff := offset % blockSize
      let toRead := min (blockSize - blockOff) remaining
      let blockNum := getBlockPtr env disk inode (offset / blockSize)
      let next := (offset + toRead) % 2 ^ 64
      if blockNum = 0 then
        readLoop env disk inode fuel next (done + toRead) (remaining - toRead)
          (blit buf done (fun _ => 0) 0 toRead)
      else if !env.readable blockNum then none
      else
        readLoop env disk inode fuel next (done + toRead) (remaining - toRead)
          (blit buf done (disk blockNum) blockOff toRead)

/-- The number of bytes read and the buffer with them. Reading moves the access time of
the inode in memory. -/
def readData (offset : Nat) (buf : Bytes) (len : Nat) : Option (Nat × Bytes × Inode) :=
  if !vol.mounted then none
  else if inode.size ≤ offset then some (0, buf, inode)
  else
    let len := if inode.size < (offset + len) % 2 ^ 64 then inode.size - offset else len
    match readLoop env vol.disk inode len offset 0 len buf with
    | none => none
    | some buf => some (len, buf, inode.setAtime env.now)

def obtainBlock (blockIdx : Nat) : Option Nat × Inode × Volume :=
  let blockNum := getBlockPtr env vol.disk inode blockIdx
  if blockNum = 0 then
    let (blockNum, vol) := allocBlock env vol
    if blockNum = 0 then (none, inode, vol)
    else
      match setBlockPtr env vol inode blockIdx blockNum with
      | (false, inode, vol) => (none, inode, freeBlock env vol blockNum)
      | (true, inode, vol) => (some blockNum, inode.setBlocks (inode.blocks + 1), vol)
  else (some blockNum, inode, vol)

structure Written where
  finished : Bool
  written : Nat
  offset : Nat
  inode : Inode
  vol : Volume

def writeLoop (env : Env) (src : Bytes) (len : Nat) :
    Nat → Nat → Nat → Inode → Volume → Written
  | 0, offset, written, inode, vol => ⟨true, written, offset, inode, vol⟩
  | fuel + 1, offset, written, inode, vol =>
    if len ≤ written then ⟨true, written, offset, inode, vol⟩
    else
      let blockOff := offset % blockSize
      let toWrite := min (blockSize - blockOff) (len - written)
      match obtainBlock env vol inode (offset / blockSize) with
      | (none, inode, vol) => ⟨false, written, offset, inode, vol⟩
      | (some blockNum, inode, vol) =>
        if !env.readable blockNum then ⟨false, written, offset, inode, vol⟩
        else
          writeLoop env src len fuel ((offset + toWrite) % 2 ^ 64) (written + toWrite) inode
            (vol.write blockNum (blit (vol.disk blockNum) blockOff src written toWrite))

/-- A write that stops early leaves the size as it was; nothing written is an error. -/
def writeData (offset : Nat) (src : Bytes) (len : Nat) : Option Nat × Inode × Volume :=
  if !vol.mounted then (none, inode, vol)
  else
    let result := writeLoop env src len len offset 0 inode vol
    if result.finished then
      let inode := result.inode
      let inode := if inode.size < result.offset then inode.setSize result.offset else inode
      (some result.written, inode.setMtime env.now, result.vol)
    else (if 0 < result.written then some result.written else none, result.inode, result.vol)

def freeFrom (env : Env) : Nat → Nat → Inode → Volume → Inode × Volume
  | 0, _, inode, vol => (inode, vol)
  | fuel + 1, blockIdx, inode, vol =>
    let blockNum := getBlockPtr env vol.disk inode blockIdx
    if blockNum = 0 then freeFrom env fuel (blockIdx + 1) inode vol
    else
      let vol := freeBlock env vol blockNum
      let (_, inode, vol) := setBlockPtr env vol inode blockIdx 0
      freeFrom env fuel (blockIdx + 1) (inode.setBlocks (inode.blocks + 2 ^ 64 - 1)) vol

def blocksFor (size : Nat) : Nat := (size + blockSize - 1) % 2 ^ 64 / blockSize

def zeroTail (newSize : Nat) : Volume :=
  let partialOffset := newSize % blockSize
  if newSize = 0 ∨ partialOffset = 0 then vol
  else
    let blockNum := getBlockPtr env vol.disk inode (newSize / blockSize)
    if blockNum = 0 then vol
    else if !env.readable blockNum then vol
    else
      vol.write blockNum (blit (vol.disk blockNum) partialOffset (fun _ => 0) 0
        (blockSize - partialOffset))

def truncate (newSize : Nat) : Bool × Inode × Volume :=
  if !vol.mounted then (false, inode, vol)
  else if newSize = inode.size then (true, inode, vol)
  else
    let (inode, vol) :=
      if newSize < inode.size then
        let newBlocks := blocksFor newSize
        let (inode, vol) := freeFrom env (blocksFor inode.size - newBlocks) newBlocks inode vol
        (inode, zeroTail env vol inode newSize)
      else (inode, vol)
    let inode := ((inode.setSize newSize).setMtime env.now).setCtime env.now
    let (_, vol) := writeInode env vol inode
    (true, inode, vol)

def freePointers (env : Env) (pointers : Nat) : Nat → Nat → Volume → Volume
  | 0, _, vol => vol
  | fuel + 1, i, vol =>
    let blockNum := getLE 8 (vol.disk pointers) (8 * i)
    freePointers env pointers fuel (i + 1)
      (if blockNum = 0 then vol else freeBlock env vol blockNum)

def freePointerBlock (env : Env) (pointers : Nat) (vol : Volume) : Volume :=
  let vol := if env.readable pointers then freePointers env pointers ptrsPerBlock 0 vol else vol
  freeBlock env vol pointers

def freePointerBlocks (env : Env) (pointers : Nat) : Nat → Nat → Volume → Volume
  | 0, _, vol => vol
  | fuel + 1, i, vol =>
    let blockNum := getLE 8 (vol.disk pointers) (8 * i)
    freePointerBlocks env pointers fuel (i + 1)
      (if blockNum = 0 then vol else freePointerBlock env blockNum vol)

def freeDirect (env : Env) (inode : Inode) : Nat → Nat → Volume → Volume
  | 0, _, vol => vol
  | fuel + 1, i, vol =>
    freeDirect env inode fuel (i + 1)
      (if inode.direct i = 0 then vol else freeBlock env vol (inode.direct i))

/-- Every block of the inode; the inode itself is only changed in memory and then
dropped by every caller. -/
def freeInodeBlocks : Volume :=
  if !vol.mounted then vol
  else
    let vol := freeDirect env inode 12 0 vol
    let vol := if inode.indirect = 0 then vol else freePointerBlock env inode.indirect vol
    if inode.doubleIndirect = 0 then vol
    else
      let vol := if env.readable inode.doubleIndirect then
        freePointerBlocks env inode.doubleIndirect ptrsPerBlock 0 vol else vol
      freeBlock env vol inode.doubleIndirect

end

end ViperDos.ViperFs
