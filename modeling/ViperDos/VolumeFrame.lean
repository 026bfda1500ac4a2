import ViperDos.Mounting

/-!
What no operation on a mounted volume changes: whether it is mounted and, of the
superblock in memory, everything but the count of free blocks.
-/

namespace ViperDos.ViperFs

open ByteRecords

def Volume.shape (vol : Volume) : Bool × Bytes :=
  (vol.mounted, fun position =>
    if 24 ≤ position ∧ position < 32 then 0 else vol.sb.bytes position)

variable {offset width ino fileType : Nat} {done : Bool} {after : Volume} {dir' : Inode}

theorem shape_getLE {vol after : Volume} (same : after.shape = vol.shape)
    (apart : offset + width ≤ 24 ∨ 32 ≤ offset) :
    getLE width after.sb.bytes offset = getLE width vol.sb.bytes offset := by
  apply getLE_congr
  intro position low high
  have here := congrFun (Prod.mk.inj same).2 position
  have outside : ¬ (24 ≤ position ∧ position < 32) := by omega
  rwa [if_neg outside, if_neg outside] at here

variable (env : Env) (vol : Volume) (inode dir : Inode) (name : List UInt8)

@[simp] theorem shape_write (num : Nat) (block : Block) :
    (vol.write num block).shape = vol.shape := rfl

@[simp] theorem shape_setFree (value : Nat) : (setFree vol value).shape = vol.shape := by
  refine Prod.ext rfl (funext fun position => ?_)
  dsimp only [Volume.shape, setFree, Superblock.setFreeBlocks]
  split
  · rfl
  · exact putLE_outside 8 _ _ (by omega)

@[simp] theorem shape_putBitmap (bitmapBlock byte : Nat) (value : UInt8) :
    (putBitmap vol bitmapBlock byte value).shape = vol.shape := rfl

@[simp] theorem shape_storeInode (ino : Nat) (inode : Inode) :
    (storeInode vol ino inode).shape = vol.shape := rfl

@[simp] theorem shape_setInodeMode (ino mode : Nat) :
    (setInodeMode vol ino mode).shape = vol.shape := rfl

@[simp] theorem shape_writeInode : (writeInode env vol inode).2.shape = vol.shape := by
  unfold writeInode
  split
  · rfl
  split
  · rfl
  · rfl

@[simp] theorem shape_allocInode : (allocInode env vol).2.shape = vol.shape := by
  unfold allocInode
  split
  · rfl
  split
  · rfl
  · rfl

@[simp] theorem shape_freeInode (ino : Nat) : (freeInode env vol ino).shape = vol.shape := by
  unfold freeInode
  split
  · rfl
  split
  · rfl
  · rfl

@[simp] theorem shape_allocBlock : (allocBlock env vol).2.shape = vol.shape := by
  unfold allocBlock
  split
  · rfl
  split
  · rfl
  split
  · rfl
  dsimp only
  split
  · rfl
  · simp

@[simp] theorem shape_freeBlock (num : Nat) : (freeBlock env vol num).shape = vol.shape := by
  unfold freeBlock
  split
  · rfl
  split
  · rfl
  dsimp only
  split
  · rfl
  · simp

@[simp] theorem shape_allocZeroedBlock : (allocZeroedBlock env vol).2.shape = vol.shape := by
  unfold allocZeroedBlock
  dsimp only
  split
  · simp
  split
  · simp
  · simp

@[simp] theorem shape_writeIndirect (num index value : Nat) :
    (writeIndirect env vol num index value).2.shape = vol.shape := by
  unfold writeIndirect
  split
  · rfl
  split
  · rfl
  split
  · rfl
  · rfl

@[simp] theorem shape_setSinglePtr (index num : Nat) :
    (setSinglePtr env vol inode index num).2.2.shape = vol.shape := by
  unfold setSinglePtr
  dsimp only
  split
  · split
    · simp
    · simp
  · simp

@[simp] theorem shape_setLeafPtr (index num : Nat) :
    (setLeafPtr env vol inode index num).2.2.shape = vol.shape := by
  unfold setLeafPtr
  dsimp only
  split
  · split
    · simp
    · simp
  · simp

@[simp] theorem shape_setDoublePtr (index num : Nat) :
    (setDoublePtr env vol inode index num).2.2.shape = vol.shape := by
  unfold setDoublePtr
  dsimp only
  split
  · split
    · simp
    · simp
  · simp

@[simp] theorem shape_setBlockPtr (blockIdx num : Nat) :
    (setBlockPtr env vol inode blockIdx num).2.2.shape = vol.shape := by
  unfold setBlockPtr
  dsimp only
  split
  · rfl
  split
  · simp
  split
  · simp
  · rfl

@[simp] theorem shape_obtainBlock (blockIdx : Nat) :
    (obtainBlock env vol inode blockIdx).2.2.shape = vol.shape := by
  unfold obtainBlock
  dsimp only
  split
  · split
    · simp
    have kept := shape_setBlockPtr env (allocBlock env vol).2 inode blockIdx (allocBlock env vol).1
    split
    next result => simp_all
    next result => simp_all
  · rfl

theorem shape_writeLoop (src : Bytes) (len fuel offset written : Nat) :
    (writeLoop env src len fuel offset written inode vol).vol.shape = vol.shape := by
  induction fuel generalizing offset written inode vol with
  | zero => rfl
  | succ fuel ih =>
    have kept := shape_obtainBlock env vol inode (offset / blockSize)
    unfold writeLoop
    split
    · rfl
    split
    next result => simp_all
    next result =>
    split
    · simp_all
    · simp_all

@[simp] theorem shape_writeData (offset : Nat) (src : Bytes) (len : Nat) :
    (writeData env vol inode offset src len).2.2.shape = vol.shape := by
  unfold writeData
  dsimp only
  split
  · rfl
  split
  · exact shape_writeLoop ..
  · exact shape_writeLoop ..

theorem shape_freeFrom (fuel blockIdx : Nat) :
    (freeFrom env fuel blockIdx inode vol).2.shape = vol.shape := by
  induction fuel generalizing blockIdx inode vol with
  | zero => rfl
  | succ fuel ih =>
    unfold freeFrom
    dsimp only
    split
    · exact ih ..
    · rw [ih]
      simp

@[simp] theorem shape_zeroTail (newSize : Nat) :
    (zeroTail env vol inode newSize).shape = vol.shape := by
  unfold zeroTail
  dsimp only
  split
  · rfl
  split
  · rfl
  split
  · rfl
  · rfl

@[simp] theorem shape_truncate (newSize : Nat) :
    (truncate env vol inode newSize).2.2.shape = vol.shape := by
  unfold truncate
  dsimp only
  split
  · rfl
  split
  · rfl
  split
  · simp [shape_freeFrom]
  · simp

theorem shape_freePointers (pointers fuel i : Nat) :
    (freePointers env pointers fuel i vol).shape = vol.shape := by
  induction fuel generalizing i vol with
  | zero => rfl
  | succ fuel ih =>
    unfold freePointers
    rw [ih]
    split
    · rfl
    · simp

@[simp] theorem shape_freePointerBlock (pointers : Nat) :
    (freePointerBlock env pointers vol).shape = vol.shape := by
  unfold freePointerBlock
  split
  · simp [shape_freePointers]
  · simp

theorem shape_freePointerBlocks (pointers fuel i : Nat) :
    (freePointerBlocks env pointers fuel i vol).shape = vol.shape := by
  induction fuel generalizing i vol with
  | zero => rfl
  | succ fuel ih =>
    unfold freePointerBlocks
    rw [ih]
    split
    · rfl
    · simp

theorem shape_freeDirect (fuel i : Nat) :
    (freeDirect env inode fuel i vol).shape = vol.shape := by
  induction fuel generalizing i vol with
  | zero => rfl
  | succ fuel ih =>
    unfold freeDirect
    rw [ih]
    split
    · rfl
    · simp

@[simp] theorem shape_freeInodeBlocks : (freeInodeBlocks env vol inode).shape = vol.shape := by
  have single : ∀ pointers (vol : Volume),
      (if pointers = 0 then vol else freePointerBlock env pointers vol).shape = vol.shape := by
    intro pointers vol
    split
    · rfl
    · simp
  unfold freeInodeBlocks
  dsimp only
  split
  · rfl
  split
  · rw [single, shape_freeDirect]
  split
  · rw [shape_freeBlock, shape_freePointerBlocks, single, shape_freeDirect]
  · rw [shape_freeBlock, single, shape_freeDirect]

@[simp] theorem shape_putBlock (offset : Nat) (buf : Bytes) :
    (putBlock env vol dir offset buf).2.2.shape = vol.shape := shape_writeData ..

@[simp] theorem shape_appendEntry (ino fileType : Nat) :
    (appendEntry env vol dir ino name fileType).2.2.shape = vol.shape :=
  shape_putBlock ..

theorem shape_addLoop (ino fileType fuel offset : Nat) (buf : Bytes) :
    (addLoop env vol ino name fileType fuel offset buf dir).2.2.shape = vol.shape := by
  induction fuel generalizing offset buf dir with
  | zero => exact shape_appendEntry ..
  | succ fuel ih =>
    unfold addLoop
    split
    · exact shape_appendEntry ..
    split
    · exact shape_appendEntry ..
    split
    · exact shape_appendEntry ..
    split
    · exact shape_putBlock ..
    · rfl
    · exact ih ..

@[simp] theorem shape_addDirEntry (ino fileType : Nat) :
    (addDirEntry env vol dir ino name fileType).2.2.shape = vol.shape := by
  unfold addDirEntry
  split
  · rfl
  split
  · rfl
  · exact shape_addLoop ..

theorem shape_removeLoop (fuel offset : Nat) (buf : Bytes) :
    (removeLoop env vol name fuel offset buf dir).2.2.shape = vol.shape := by
  induction fuel generalizing offset buf dir with
  | zero => rfl
  | succ fuel ih =>
    unfold removeLoop
    split
    · rfl
    split
    · rfl
    split
    · rfl
    split
    · exact shape_putBlock ..
    · rfl
    · exact ih ..

@[simp] theorem shape_removeDirEntry : (removeDirEntry env vol dir name).2.2.shape = vol.shape := by
  unfold removeDirEntry
  split
  · rfl
  · exact shape_removeLoop ..

variable {env vol inode dir name}

theorem writeInode_shape (result : writeInode env vol inode = (done, after)) :
    after.shape = vol.shape := by
  rw [← shape_writeInode env vol inode, result]

theorem addDirEntry_shape
    (result : addDirEntry env vol dir ino name fileType = (done, dir', after)) :
    after.shape = vol.shape := by
  rw [← shape_addDirEntry env vol dir name ino fileType, result]

theorem removeDirEntry_shape (result : removeDirEntry env vol dir name = (done, dir', after)) :
    after.shape = vol.shape := by
  rw [← shape_removeDirEntry env vol dir name, result]

variable (env vol dir name)

@[simp] theorem shape_createBody (journal : Journal) :
    (createBody env vol journal dir name).2.2.1.shape = vol.shape := by
  unfold createBody
  dsimp only
  split
  · rfl
  split
  · rfl
  split
  · exact shape_allocInode env vol
  split
  next written =>
    rw [shape_freeInode, writeInode_shape written, shape_allocInode]
  next written =>
  split
  next added =>
    rw [shape_freeInode, addDirEntry_shape added, writeInode_shape written, shape_allocInode]
  next added =>
    rw [shape_writeInode, addDirEntry_shape added, writeInode_shape written, shape_allocInode]

@[simp] theorem shape_createDir : (createDir env vol dir name).2.2.shape = vol.shape := by
  unfold createDir
  dsimp only
  split
  · rfl
  split
  · rfl
  split
  · exact shape_allocInode env vol
  split
  · simp
  split
  · simp
  split
  next written => simp [writeInode_shape written]
  next written =>
    split
    next added => simp [addDirEntry_shape added, writeInode_shape written]
    next added => simp [addDirEntry_shape added, writeInode_shape written]

@[simp] theorem shape_createSymlink (target : List UInt8) :
    (createSymlink env vol dir name target).2.2.shape = vol.shape := by
  unfold createSymlink
  dsimp only
  split
  · rfl
  split
  · rfl
  split
  · rfl
  split
  · exact shape_allocInode env vol
  split
  next written => simp [writeInode_shape written]
  next written =>
  split
  · simp [writeInode_shape written]
  split
  · simp [writeInode_shape written]
  split
  next added => simp [addDirEntry_shape added, writeInode_shape written]
  next added => simp [addDirEntry_shape added, writeInode_shape written]

@[simp] theorem shape_unlinkFile : (unlinkFile env vol dir name).2.2.shape = vol.shape := by
  unfold unlinkFile
  dsimp only
  split
  · rfl
  split
  · rfl
  split
  · rfl
  split
  · rfl
  split
  · rfl
  split
  next removed => exact removeDirEntry_shape removed
  next removed => simp [removeDirEntry_shape removed]

@[simp] theorem shape_rmdir (parent : Inode) :
    (rmdir env vol parent name).2.2.shape = vol.shape := by
  unfold rmdir
  dsimp only
  split
  · rfl
  split
  · rfl
  split
  · rfl
  split
  · rfl
  split
  · rfl
  split
  · rfl
  split
  next removed => exact removeDirEntry_shape removed
  next removed => simp [removeDirEntry_shape removed]

@[simp] theorem shape_updateDotdot (ino parent : Nat) :
    (updateDotdot env vol ino parent).shape = vol.shape := by
  unfold updateDotdot
  split
  · rfl
  split
  · rfl
  dsimp only
  split
  · exact shape_writeData ..
  · rfl

@[simp] theorem shape_moveEntry (shared : Bool) (srcIno fileType : Nat)
    (oldDir : Inode) (oldName : List UInt8) (newDir : Inode) (newName : List UInt8) :
    (moveEntry env vol shared srcIno fileType oldDir oldName newDir newName).2.2.2.shape =
      vol.shape := by
  unfold moveEntry
  split
  next added => exact addDirEntry_shape added
  next added =>
  split
  next removed => rw [removeDirEntry_shape removed, addDirEntry_shape added]
  next removed =>
    split
    next undone =>
      rw [removeDirEntry_shape undone, removeDirEntry_shape removed, addDirEntry_shape added]

@[simp] theorem shape_finishRename (srcIno fileType : Nat) (oldDir newDir : Inode) :
    (finishRename env vol srcIno fileType oldDir newDir).shape = vol.shape := by
  unfold finishRename
  rw [shape_writeInode, shape_writeInode]
  split
  · exact shape_updateDotdot ..
  · rfl

@[simp] theorem shape_rename (shared : Bool) (oldDir : Inode)
    (oldName : List UInt8) (newDir : Inode) (newName : List UInt8) :
    (rename env vol shared oldDir oldName newDir newName).2.2.2.shape = vol.shape := by
  unfold rename
  split
  · rfl
  split
  · rfl
  split
  split
  · rfl
  split
  split
  · rfl
  split
  · rfl
  dsimp only
  split
  next moved =>
    have kept := congrArg (fun result => result.2.2.2.shape) moved
    rw [← kept, shape_moveEntry]
  next moved =>
    have kept := congrArg (fun result => result.2.2.2.shape) moved
    rw [shape_finishRename, ← kept, shape_moveEntry]

end ViperDos.ViperFs
