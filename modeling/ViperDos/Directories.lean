import ViperDos.VolumeBlocks

/-!
Directories of a volume and the operations on names. A directory is a file of records;
a record names an inode and reaches up to the next record, a record of inode 0 is free.
The functions take the inode of a directory as it is in memory and return it changed;
what is not written back with `writeInode` is forgotten with it.
-/

namespace ViperDos.ViperFs

open ByteRecords

def dirEntryMinSize : Nat := 12
def maxNameLen : Nat := 255

def fileTypeFile : Nat := 1
def fileTypeDir : Nat := 2
def fileTypeLink : Nat := 7

-- The fields of the record at `pos` of a buffer; the name follows at `pos + 12`.
def entryInode (buf : Bytes) (pos : Nat) : Nat := getLE 8 buf pos
def entryRecLen (buf : Bytes) (pos : Nat) : Nat := getLE 2 buf (pos + 8)
def entryNameLen (buf : Bytes) (pos : Nat) : Nat := getLE 1 buf (pos + 10)
def entryFileType (buf : Bytes) (pos : Nat) : Nat := getLE 1 buf (pos + 11)

def entryNamed (buf : Bytes) (pos : Nat) (name : List UInt8) : Bool :=
  entryInode buf pos ≠ 0 && entryNameLen buf pos = name.length &&
    (List.range name.length).all fun i => buf (pos + 12 + i) = name.getD i 0

/-- The length of a name is a byte here. -/
def dirEntrySize (nameLen : Nat) : Nat := (dirEntryMinSize + nameLen % 256 + 7) / 8 * 8

def putEntry (buf : Bytes) (pos ino recLen : Nat) (name : List UInt8) (fileType : Nat) : Bytes :=
  let buf := putLE 8 buf pos ino
  let buf := putLE 2 buf (pos + 8) recLen
  let buf := putLE 1 buf (pos + 10) name.length
  let buf := putLE 1 buf (pos + 11) fileType
  blit buf (pos + 12) (fun i => name.getD i 0) 0 name.length

inductive Verdict where
  | next
  | stop
  | fail

inductive Scan where
  | missing
  | invalid
  | found (pos : Nat) (prev : Option Nat)

/-- The walk over the records of a block, of which `limit` bytes were read. It ends at
an empty record and gives up at one that does not lie within them. -/
def scanBlock (buf : Bytes) (limit : Nat) (judge : Nat → Verdict) :
    Nat → Option Nat → Nat → Scan
  | 0, _, _ => .missing
  | fuel + 1, prev, pos =>
    if limit ≤ pos then .missing
    else if entryRecLen buf pos = 0 then .missing
    else if entryRecLen buf pos < dirEntryMinSize ∨ limit < pos + entryRecLen buf pos then .invalid
    else
      match judge pos with
      | .stop => .found pos prev
      | .fail => .invalid
      | .next => scanBlock buf limit judge fuel (some pos) (pos + entryRecLen buf pos)

def judgeName (buf : Bytes) (name : List UInt8) (pos : Nat) : Verdict :=
  if entryNamed buf pos name then .stop else .next

def findName (buf : Bytes) (limit : Nat) (name : List UInt8) : Scan :=
  scanBlock buf limit (judgeName buf name) limit none 0

def lookupLoop (env : Env) (vol : Volume) (name : List UInt8) :
    Nat → Nat → Bytes → Inode → Nat × Inode
  | 0, _, _, dir => (0, dir)
  | fuel + 1, offset, buf, dir =>
    if dir.size ≤ offset then (0, dir)
    else
      match readData env vol dir offset buf blockSize with
      | none => (0, dir)
      | some (r, buf, dir) =>
        if r = 0 then (0, dir)
        else
          match findName buf r name with
          | .found pos _ => (entryInode buf pos, dir)
          | .invalid => (0, dir)
          | .missing => lookupLoop env vol name fuel (offset + r) buf dir

section

variable (env : Env) (vol : Volume) (dir : Inode)

def lookup (name : List UInt8) : Nat × Inode :=
  if !vol.mounted || !dir.isDirectory then (0, dir)
  else lookupLoop env vol name dir.size 0 env.scratch dir

def judgeRoom (buf : Bytes) (needed pos : Nat) : Verdict :=
  let actualSize := dirEntrySize (entryNameLen buf pos)
  if entryRecLen buf pos < actualSize then .fail
  else if needed ≤ entryRecLen buf pos - actualSize then .stop
  else .next

def splitEntry (buf : Bytes) (pos ino : Nat) (name : List UInt8) (fileType : Nat) : Bytes :=
  let actualSize := dirEntrySize (entryNameLen buf pos)
  let remaining := entryRecLen buf pos - actualSize
  putEntry (putLE 2 buf (pos + 8) actualSize) (pos + actualSize) ino remaining name fileType

def putBlock (offset : Nat) (buf : Bytes) : Bool × Inode × Volume :=
  let (written, dir, vol) := writeData env vol dir offset buf blockSize
  (written = some blockSize, dir, vol)

def appendEntry (ino : Nat) (name : List UInt8) (fileType : Nat) : Bool × Inode × Volume :=
  putBlock env vol dir dir.size (putEntry (fun _ => 0) 0 ino blockSize name fileType)

def addLoop (env : Env) (vol : Volume) (ino : Nat) (name : List UInt8) (fileType : Nat) :
    Nat → Nat → Bytes → Inode → Bool × Inode × Volume
  | 0, _, _, dir => appendEntry env vol dir ino name fileType
  | fuel + 1, offset, buf, dir =>
    if dir.size ≤ offset then appendEntry env vol dir ino name fileType
    else
      match readData env vol dir offset buf blockSize with
      | none => appendEntry env vol dir ino name fileType
      | some (r, buf, dir) =>
        if r = 0 then appendEntry env vol dir ino name fileType
        else
          match scanBlock buf r (judgeRoom buf (dirEntrySize name.length)) r none 0 with
          | .found pos _ => putBlock env vol dir offset (splitEntry buf pos ino name fileType)
          | .invalid => (false, dir, vol)
          | .missing => addLoop env vol ino name fileType fuel (offset + r) buf dir

def addDirEntry (ino : Nat) (name : List UInt8) (fileType : Nat) : Bool × Inode × Volume :=
  if !vol.mounted || !dir.isDirectory then (false, dir, vol)
  else if maxNameLen < name.length then (false, dir, vol)
  else addLoop env vol ino name fileType dir.size 0 env.scratch dir

/-- The record is freed, and joined to the one before it in the block if that is in use. -/
def dropEntry (buf : Bytes) (pos : Nat) (prev : Option Nat) : Bytes :=
  let joined :=
    match prev with
    | some before =>
      if entryInode buf before ≠ 0 then
        putLE 2 buf (before + 8) (entryRecLen buf before + entryRecLen buf pos)
      else buf
    | none => buf
  putLE 8 joined pos 0

def removeLoop (env : Env) (vol : Volume) (name : List UInt8) :
    Nat → Nat → Bytes → Inode → Bool × Inode × Volume
  | 0, _, _, dir => (false, dir, vol)
  | fuel + 1, offset, buf, dir =>
    if dir.size ≤ offset then (false, dir, vol)
    else
      match readData env vol dir offset buf blockSize with
      | none => (false, dir, vol)
      | some (r, buf, dir) =>
        if r = 0 then (false, dir, vol)
        else
          match findName buf r name with
          | .found pos prev => putBlock env vol dir offset (dropEntry buf pos prev)
          | .invalid => (false, dir, vol)
          | .missing => removeLoop env vol name fuel (offset + r) buf dir

def removeDirEntry (name : List UInt8) : Bool × Inode × Volume :=
  if !vol.mounted || !dir.isDirectory then (false, dir, vol)
  else removeLoop env vol name dir.size 0 env.scratch dir

structure Reported where
  name : List UInt8
  ino : Nat
  fileType : Nat

def readdirBlock (buf : Bytes) (limit : Nat) : Nat → Nat → List Reported × Bool
  | 0, _ => ([], true)
  | fuel + 1, pos =>
    if limit ≤ pos then ([], true)
    else if entryRecLen buf pos = 0 then ([], true)
    else if entryRecLen buf pos < dirEntryMinSize ∨ limit < pos + entryRecLen buf pos then
      ([], false)
    else
      let name := (List.range (entryNameLen buf pos)).map fun i => buf (pos + 12 + i)
      let (rest, ended) := readdirBlock buf limit fuel (pos + entryRecLen buf pos)
      if entryInode buf pos ≠ 0 then
        (⟨name, entryInode buf pos, entryFileType buf pos⟩ :: rest, ended)
      else (rest, ended)

def readdirLoop (env : Env) (vol : Volume) :
    Nat → Nat → Bytes → Inode → List Reported × Bool × Inode
  | 0, _, _, dir => ([], true, dir)
  | fuel + 1, offset, buf, dir =>
    if dir.size ≤ offset then ([], true, dir)
    else
      match readData env vol dir offset buf blockSize with
      | none => ([], false, dir)
      | some (r, buf, dir) =>
        if r = 0 then ([], true, dir)
        else
          match readdirBlock buf r r 0 with
          | (list, false) => (list, false, dir)
          | (list, true) =>
            let (rest, ended, dir) := readdirLoop env vol fuel (offset + r) buf dir
            (list ++ rest, ended, dir)

def readdir (offset : Nat) : List Reported × Bool × Inode :=
  if !vol.mounted || !dir.isDirectory then ([], false, dir)
  else readdirLoop env vol dir.size offset env.scratch dir

def dotName : List UInt8 := [0x2E]
def dotdotName : List UInt8 := [0x2E, 0x2E]

/-- Names reported before an error count as well. -/
def dirIsEmpty : Bool :=
  (readdir env vol dir 0).1.all fun entry => entry.name = dotName || entry.name = dotdotName

end

end ViperDos.ViperFs
