import ViperDos.Mounting

/-!
The image that tools/mkfs.viperfs.cpp makes when no files are given: the layout, the
bitmap with the blocks in use, the inode table with the root directory, and the
superblock with the final count of free blocks, which has no checksum.
-/

namespace ViperDos.ViperFs.Mkfs

open ByteRecords

/-- The parts of `DiskImage` that an image without files uses. The inodes are those of
the table, the blocks what was written so far. -/
structure DiskImage where
  totalBlocks : Nat
  nextFreeBlock : Nat
  blocksUsed : Nat
  bitmapStart : Nat
  bitmapBlocks : Nat
  inodeTableStart : Nat
  inodeTableBlocks : Nat
  dataStart : Nat
  bitmap : Bytes
  inodes : Nat → Inode
  blocks : Disk

def markBlockUsed (bitmap : Bytes) (block : Nat) : Bytes :=
  Function.update bitmap (block / 8) (setBit (bitmap (block / 8)) (block % 8))

def markBelow : Nat → Bytes → Bytes
  | 0, bitmap => bitmap
  | block + 1, bitmap => markBlockUsed (markBelow block bitmap) block

def create (sizeMb : Nat) : DiskImage :=
  let totalBlocks := sizeMb * 1024 * 1024 / blockSize
  let bitmapBlocks := (totalBlocks + bitsPerBlock - 1) / bitsPerBlock
  let inodeTableBlocks := max 4 (totalBlocks / 64 + 1)
  let inodeTableStart := 1 + bitmapBlocks
  let dataStart := inodeTableStart + inodeTableBlocks
  { totalBlocks, bitmapBlocks, inodeTableBlocks, inodeTableStart, dataStart
    bitmapStart := 1
    bitmap := markBelow dataStart fun _ => 0
    blocksUsed := dataStart
    nextFreeBlock := dataStart
    inodes := fun _ => ⟨fun _ => 0⟩
    blocks := fun _ _ => 0 }

def findBlock (image : DiskImage) : Nat → Nat → Option Nat
  | 0, _ => none
  | fuel + 1, block =>
    if image.totalBlocks ≤ block then none
    else if hasBit (image.bitmap (block / 8)) (block % 8) then findBlock image fuel (block + 1)
    else some block

def allocBlock (image : DiskImage) : Option (Nat × DiskImage) :=
  match findBlock image image.totalBlocks image.nextFreeBlock with
  | none => none
  | some block =>
    some (block, { image with
      bitmap := markBlockUsed image.bitmap block
      blocksUsed := image.blocksUsed + 1
      nextFreeBlock := block + 1 })

def initDirBlock (selfIno parentIno : Nat) : Bytes :=
  putEntry (putEntry (fun _ => 0) 0 selfIno 16 dotName fileTypeDir) 16 parentIno
    (blockSize - 16) dotdotName fileTypeDir

def createRootDir (image : DiskImage) (now : Nat) : Option DiskImage :=
  let root := Inode.fresh rootInode (typeDir ||| permRead ||| permWrite ||| permExec) now
  match allocBlock image with
  | none => none
  | some (dataBlock, image) =>
    let root := ((root.setDirect 0 dataBlock).setSize blockSize).setBlocks 1
    some { image with
      inodes := Function.update image.inodes rootInode root
      blocks := Function.update image.blocks dataBlock (initDirBlock rootInode rootInode) }

def label : List UInt8 := [0x56, 0x69, 0x70, 0x65, 0x72, 0x44, 0x4F, 0x53]

def superblock (image : DiskImage) : Superblock :=
  let bytes : Bytes := fun _ => 0
  let bytes := putLE 4 bytes 0 viperfsMagic
  let bytes := putLE 4 bytes 4 viperfsVersion
  let bytes := putLE 8 bytes 8 blockSize
  let bytes := putLE 8 bytes 16 image.totalBlocks
  let bytes := putLE 8 bytes 24 (image.totalBlocks - image.blocksUsed)
  let bytes := putLE 8 bytes 32 (image.inodeTableBlocks * inodesPerBlock)
  let bytes := putLE 8 bytes 40 rootInode
  let bytes := putLE 8 bytes 48 image.bitmapStart
  let bytes := putLE 8 bytes 56 image.bitmapBlocks
  let bytes := putLE 8 bytes 64 image.inodeTableStart
  let bytes := putLE 8 bytes 72 image.inodeTableBlocks
  let bytes := putLE 8 bytes 80 image.dataStart
  ⟨blit bytes 104 (fun i => label.getD i 0) 0 label.length⟩

def finalize (image : DiskImage) : Disk := fun num =>
  if num = superblockPrimary then (superblock image).bytes
  else if image.bitmapStart ≤ num ∧ num < image.bitmapStart + image.bitmapBlocks then
    fun i => image.bitmap ((num - image.bitmapStart) * blockSize + i)
  else if image.inodeTableStart ≤ num ∧ num < image.inodeTableStart + image.inodeTableBlocks then
    fun i => (image.inodes ((num - image.inodeTableStart) * inodesPerBlock + i / inodeSize)).bytes
      (i % inodeSize)
  else image.blocks num

def makeImage (sizeMb now : Nat) : Option Disk :=
  if sizeMb < 1 then none else (createRootDir (create sizeMb) now).map finalize

end ViperDos.ViperFs.Mkfs
