import ViperDos.FileOps

/-!
Mounting and unmounting. The system volume holds the journal in its last blocks; the
user volume has a cache of its own, and the journal it uses is still the one on the
system volume, here the disk beside it.
-/

namespace ViperDos.ViperFs

open ByteRecords Crc32

def viperfsMagic : Nat := 0x53465056
def viperfsVersion : Nat := 1
def superblockPrimary : Nat := 0
def superblockChecksumOffset : Nat := 168

def Superblock.crc (sb : Superblock) : Nat :=
  (crc32Superblock sb.bytes superblockChecksumOffset).toNat

/-- A checksum of zero is not checked. -/
def Superblock.valid (sb : Superblock) : Bool :=
  sb.magic = viperfsMagic && sb.version = viperfsVersion &&
    (sb.checksum = 0 || sb.crc = sb.checksum)

section

variable (env : Env)

def readAndValidateSuperblock (disk : Disk) (num : Nat) : Option Superblock :=
  let sb : Superblock := ⟨disk num⟩
  if env.readable num && sb.valid then some sb else none

def Superblock.backupLocation (sb : Superblock) : Nat :=
  if sb.totalBlocks < 2 then 0 else sb.totalBlocks - 1

def Superblock.sealed (sb : Superblock) : Superblock :=
  (sb.setChecksum 0).setChecksum (sb.setChecksum 0).crc

def writeIfReadable (vol : Volume) (num : Nat) (block : Block) : Volume :=
  if env.readable num then vol.write num block else vol

def writeSuperblockWithBackup (vol : Volume) : Volume :=
  let vol := { vol with sb := vol.sb.sealed }
  let vol := writeIfReadable env vol superblockPrimary vol.sb.bytes
  if 0 < vol.sb.backupLocation then
    writeIfReadable env vol vol.sb.backupLocation vol.sb.bytes
  else vol

def findSuperblock (disk : Disk) : Option (Superblock × Disk) :=
  match readAndValidateSuperblock env disk superblockPrimary with
  | some sb => some (sb, disk)
  | none =>
    if !env.readable superblockPrimary then none
    else
      let total := Superblock.totalBlocks ⟨disk superblockPrimary⟩
      if total < 2 then none
      else
        match readAndValidateSuperblock env disk (total - 1) with
        | none => none
        | some sb => some (sb, Function.update disk superblockPrimary sb.bytes)

/-- `system` says whether the volume is the one that holds the journal; `external` is
the disk with the journal if it is not. -/
structure FileSystem where
  system : Bool
  vol : Volume
  journal : Journal
  external : Disk

def journalStartOf (sb : Superblock) : Nat := (sb.totalBlocks + 2 ^ 64 - journalBlocks) % 2 ^ 64

def mount (fs : FileSystem) : Bool × FileSystem :=
  match findSuperblock env fs.vol.disk with
  | none => (false, fs)
  | some (sb, disk) =>
    let fs := { fs with vol := ⟨sb, disk, true⟩ }
    if fs.system ∧ sb.dataStart < journalStartOf sb then
      let (journal, disk) :=
        openJournal env.answers fs.journal (journalStartOf sb) journalBlocks disk
      (true, { fs with vol := { fs.vol with disk }, journal })
    else (true, fs)

def unmount (fs : FileSystem) : FileSystem :=
  if !fs.vol.mounted then fs
  else
    let vol := { writeSuperblockWithBackup env fs.vol with mounted := false }
    if fs.system then
      { fs with vol := { vol with disk := (fs.journal.sync (env.answers 0) ⟨vol.disk, []⟩).disk } }
    else
      { fs with
        vol
        external := (fs.journal.sync (env.answers 0) ⟨fs.external, []⟩).disk }

def FileSystem.createFile (env : Env) (fs : FileSystem) (dir : Inode) (name : List UInt8) :
    FileSystem :=
  if fs.system then
    let (_, _, vol, journal) := ViperFs.createFile env fs.vol fs.journal dir name
    { fs with vol, journal }
  else
    match createBody env fs.vol fs.journal dir name with
    | (_, _, vol, journal, false) => { fs with vol, journal }
    | (_, _, vol, journal, true) =>
      let (_, journal, dev) := journal.commit env.ticks env.answers ⟨fs.external, []⟩
      { fs with vol, journal, external := dev.disk }

/-- The operations on a mounted volume. Each reads the inodes it is given from the
volume; a write stores the inode again when it is done. -/
inductive FsOp where
  | create (dir : Nat) (name : List UInt8)
  | write (ino offset : Nat) (data : List UInt8)
  | truncate (ino newSize : Nat)
  | rename (shared : Bool) (oldDir : Nat) (oldName : List UInt8) (newDir : Nat)
      (newName : List UInt8)
  | unlink (dir : Nat) (name : List UInt8)
  | mkdir (dir : Nat) (name : List UInt8)
  | rmdir (dir : Nat) (name : List UInt8)
  | symlink (dir : Nat) (name target : List UInt8)

def FileSystem.perform (fs : FileSystem) : FsOp → FileSystem
  | .create ino name =>
    match readInode env fs.vol ino with
    | none => fs
    | some dir => fs.createFile env dir name
  | .write ino offset data =>
    match readInode env fs.vol ino with
    | none => fs
    | some inode =>
      let (_, inode, vol) :=
        writeData env fs.vol inode offset (fun i => data.getD i 0) data.length
      { fs with vol := (writeInode env vol inode).2 }
  | .truncate ino newSize =>
    match readInode env fs.vol ino with
    | none => fs
    | some inode => { fs with vol := (truncate env fs.vol inode newSize).2.2 }
  | .rename shared oldIno oldName newIno newName =>
    match readInode env fs.vol oldIno, readInode env fs.vol newIno with
    | some oldDir, some newDir =>
      { fs with vol := (rename env fs.vol shared oldDir oldName newDir newName).2.2.2 }
    | _, _ => fs
  | .unlink ino name =>
    match readInode env fs.vol ino with
    | none => fs
    | some dir => { fs with vol := (unlinkFile env fs.vol dir name).2.2 }
  | .mkdir ino name =>
    match readInode env fs.vol ino with
    | none => fs
    | some dir => { fs with vol := (createDir env fs.vol dir name).2.2 }
  | .rmdir ino name =>
    match readInode env fs.vol ino with
    | none => fs
    | some parent => { fs with vol := (rmdir env fs.vol parent name).2.2 }
  | .symlink ino name target =>
    match readInode env fs.vol ino with
    | none => fs
    | some dir => { fs with vol := (createSymlink env fs.vol dir name target).2.2 }

end

def FileSystem.Step (fs : FileSystem) (label : Env × FsOp) (after : FileSystem) : Prop :=
  after = fs.perform label.1 label.2

end ViperDos.ViperFs
