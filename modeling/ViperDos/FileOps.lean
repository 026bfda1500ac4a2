import ViperDos.Directories

/-!
The operations of ViperFS on names: create, make a directory, link, unlink, remove a
directory and rename. Only the creation of a file uses the journal. Where an operation
gives up it returns what it has changed so far.
-/

namespace ViperDos.ViperFs

open ByteRecords

def abortIf (begun : Bool) (journal : Journal) : Journal :=
  if begun then journal.abort else journal

section

variable (env : Env) (vol : Volume)

/-- `create_file` up to the commit; the flag says whether there is a transaction to
commit. The image of the inode's block is taken before the inode is written. -/
def createBody (journal : Journal) (dir : Inode) (name : List UInt8) : Nat × Inode × Volume ×
    Journal × Bool :=
  if !vol.mounted || !dir.isDirectory then (0, dir, vol, journal, false)
  else
    let (existing, dir) := lookup env vol dir name
    if existing ≠ 0 then (0, dir, vol, journal, false)
    else
      let (begun, journal) := if journal.enabled then journal.begin else (false, journal)
      let (ino, vol) := allocInode env vol
      if ino = 0 then (0, dir, vol, abortIf begun journal, false)
      else
        let inode := Inode.fresh ino (typeFile ||| permRead ||| permWrite) env.now
        let num := inodeBlock vol.sb ino
        let journal :=
          if begun && env.readable num then (journal.logBlock num (vol.disk num)).2 else journal
        match writeInode env vol inode with
        | (false, vol) => (0, dir, freeInode env vol ino, abortIf begun journal, false)
        | (true, vol) =>
          match addDirEntry env vol dir ino name fileTypeFile with
          | (false, dir, vol) => (0, dir, freeInode env vol ino, abortIf begun journal, false)
          | (true, dir, vol) => (ino, dir, (writeInode env vol dir).2, journal, begun)

def createFile (journal : Journal) (dir : Inode) (name : List UInt8) : Nat × Inode × Volume ×
    Journal :=
  match createBody env vol journal dir name with
  | (ino, dir, vol, journal, false) => (ino, dir, vol, journal)
  | (ino, dir, vol, journal, true) =>
    let (_, journal, dev) := journal.commit env.ticks env.answers ⟨vol.disk, []⟩
    (ino, dir, { vol with disk := dev.disk }, journal)

def dirData (ino parent : Nat) : Bytes :=
  let buf := putEntry (fun _ => 0) 0 ino (dirEntrySize 1) dotName fileTypeDir
  putEntry buf (dirEntrySize 1) parent (blockSize - dirEntrySize 1) dotdotName fileTypeDir

def createDir (dir : Inode) (name : List UInt8) : Nat × Inode × Volume :=
  if !vol.mounted || !dir.isDirectory then (0, dir, vol)
  else
    let (existing, dir) := lookup env vol dir name
    if existing ≠ 0 then (0, dir, vol)
    else
      let (ino, vol) := allocInode env vol
      if ino = 0 then (0, dir, vol)
      else
        let (dataBlock, vol) := allocBlock env vol
        if dataBlock = 0 then (0, dir, freeInode env vol ino)
        else
          let inode := Inode.fresh ino (typeDir ||| permRead ||| permWrite ||| permExec) env.now
          let inode := ((inode.setSize blockSize).setBlocks 1).setDirect 0 dataBlock
          if !env.readable dataBlock then
            (0, dir, freeInode env (freeBlock env vol dataBlock) ino)
          else
            let vol := vol.write dataBlock (dirData ino dir.num)
            match writeInode env vol inode with
            | (false, vol) => (0, dir, freeInode env (freeBlock env vol dataBlock) ino)
            | (true, vol) =>
              match addDirEntry env vol dir ino name fileTypeDir with
              | (false, dir, vol) =>
                (0, dir, freeInode env (freeBlock env vol dataBlock) ino)
              | (true, dir, vol) => (ino, dir, (writeInode env vol dir).2)

/-- The target is written through a second copy of the inode, which is not written back. -/
def createSymlink (dir : Inode) (name target : List UInt8) : Nat × Inode × Volume :=
  if !vol.mounted || !dir.isDirectory then (0, dir, vol)
  else if target.length = 0 ∨ blockSize < target.length then (0, dir, vol)
  else
    let (existing, dir) := lookup env vol dir name
    if existing ≠ 0 then (0, dir, vol)
    else
      let (ino, vol) := allocInode env vol
      if ino = 0 then (0, dir, vol)
      else
        let inode := Inode.fresh ino (typeLink ||| permRead ||| permWrite) env.now
        match writeInode env vol (inode.setSize target.length) with
        | (false, vol) => (0, dir, freeInode env vol ino)
        | (true, vol) =>
          match readInode env vol ino with
          | none => (0, dir, freeInode env vol ino)
          | some inode =>
            let (written, _, vol) :=
              writeData env vol inode 0 (fun i => target.getD i 0) target.length
            if written ≠ some target.length then (0, dir, freeInode env vol ino)
            else
              match addDirEntry env vol dir ino name fileTypeLink with
              | (false, dir, vol) => (0, dir, freeInode env vol ino)
              | (true, dir, vol) => (ino, dir, (writeInode env vol dir).2)

def unlinkFile (dir : Inode) (name : List UInt8) : Bool × Inode × Volume :=
  if !vol.mounted then (false, dir, vol)
  else if name = dotName ∨ name = dotdotName then (false, dir, vol)
  else
    let (ino, dir) := lookup env vol dir name
    if ino = 0 then (false, dir, vol)
    else
      match readInode env vol ino with
      | none => (false, dir, vol)
      | some inode =>
        if inode.isDirectory then (false, dir, vol)
        else
          match removeDirEntry env vol dir name with
          | (false, dir, vol) => (false, dir, vol)
          | (true, dir, vol) =>
            let vol := freeInode env (freeInodeBlocks env vol inode) ino
            (true, dir, (writeInode env vol dir).2)

def rmdir (parent : Inode) (name : List UInt8) : Bool × Inode × Volume :=
  if !vol.mounted then (false, parent, vol)
  else if name = dotName ∨ name = dotdotName then (false, parent, vol)
  else
    let (ino, parent) := lookup env vol parent name
    if ino = 0 then (false, parent, vol)
    else
      match readInode env vol ino with
      | none => (false, parent, vol)
      | some dir =>
        if !dir.isDirectory then (false, parent, vol)
        else if !dirIsEmpty env vol dir then (false, parent, vol)
        else
          match removeDirEntry env vol parent name with
          | (false, parent, vol) => (false, parent, vol)
          | (true, parent, vol) =>
            let vol := freeInode env (freeInodeBlocks env vol dir) ino
            (true, parent, (writeInode env vol parent).2)

def secondEntry (buf : Bytes) : Nat :=
  let recLen := entryRecLen buf 0
  if dirEntryMinSize ≤ recLen ∧ recLen < blockSize then recLen else 0

def updateDotdot (ino parent : Nat) : Volume :=
  match readInode env vol ino with
  | none => vol
  | some moved =>
    match readData env vol moved 0 env.scratch blockSize with
    | none => vol
    | some (r, buf, moved) =>
      let pos := secondEntry buf
      if r ≠ 0 ∧ dirEntryMinSize ≤ pos ∧ entryNameLen buf pos = 2 ∧ buf (pos + 12) = 0x2E ∧
          buf (pos + 13) = 0x2E then
        (writeData env vol moved 0 (putLE 8 buf pos parent) blockSize).2.2
      else vol

/-- Two directories given by one object change together. -/
def also (shared : Bool) (changed other : Inode) : Inode := if shared then changed else other

def moveEntry (shared : Bool) (srcIno fileType : Nat) (oldDir : Inode) (oldName : List UInt8)
    (newDir : Inode) (newName : List UInt8) : Bool × Inode × Inode × Volume :=
  match addDirEntry env vol newDir srcIno newName fileType with
  | (false, newDir, vol) => (false, also shared newDir oldDir, newDir, vol)
  | (true, newDir, vol) =>
    match removeDirEntry env vol (also shared newDir oldDir) oldName with
    | (true, oldDir, vol) => (true, oldDir, also shared oldDir newDir, vol)
    | (false, oldDir, vol) =>
      match removeDirEntry env vol (also shared oldDir newDir) newName with
      | (_, newDir, vol) => (false, also shared newDir oldDir, newDir, vol)

def finishRename (srcIno fileType : Nat) (oldDir newDir : Inode) : Volume :=
  let vol :=
    if fileType = fileTypeDir ∧ oldDir.num ≠ newDir.num then
      updateDotdot env vol srcIno newDir.num
    else vol
  (writeInode env (writeInode env vol oldDir).2 newDir).2

/-- The directories may be one object or two, even if they are the same directory. -/
def rename (shared : Bool) (oldDir : Inode) (oldName : List UInt8) (newDir : Inode)
    (newName : List UInt8) : Bool × Inode × Inode × Volume :=
  if !vol.mounted then (false, oldDir, newDir, vol)
  else if oldName = dotName ∨ oldName = dotdotName then (false, oldDir, newDir, vol)
  else
    match lookup env vol oldDir oldName with
    | (srcIno, oldDir) =>
      if srcIno = 0 then (false, oldDir, also shared oldDir newDir, vol)
      else
        match lookup env vol (also shared oldDir newDir) newName with
        | (dstIno, newDir) =>
          if dstIno ≠ 0 then (false, also shared newDir oldDir, newDir, vol)
          else
            match readInode env vol srcIno with
            | none => (false, also shared newDir oldDir, newDir, vol)
            | some source =>
              let fileType := if source.isDirectory then fileTypeDir else fileTypeFile
              match moveEntry env vol shared srcIno fileType (also shared newDir oldDir)
                  oldName newDir newName with
              | (false, oldDir, newDir, vol) => (false, oldDir, newDir, vol)
              | (true, oldDir, newDir, vol) =>
                (true, oldDir, newDir,
                  finishRename env vol srcIno fileType oldDir newDir)

end

end ViperDos.ViperFs
