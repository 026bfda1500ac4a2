import ViperDos.VolumeBlocks

/-!
The places where an inode names a block. Reading a file block goes through one of the
places for data; the others hold the blocks of pointers on the way.
-/

namespace ViperDos.ViperFs

open ByteRecords

inductive Slot where
  | direct (i : Nat)
  | indirect
  | double
  | single (i : Nat)
  | middle (i : Nat)
  | leaf (i j : Nat)
  deriving DecidableEq

def Env.Reads (env : Env) : Prop := ∀ num, env.readable num = true

def pointerAt (disk : Disk) (blockNum index : Nat) : Nat :=
  if blockNum = 0 then 0
  else if ptrsPerBlock ≤ index then 0
  else getLE 8 (disk blockNum) (8 * index)

def slotValue (disk : Disk) (inode : Inode) : Slot → Nat
  | .direct i => if i < 12 then inode.direct i else 0
  | .indirect => inode.indirect
  | .double => inode.doubleIndirect
  | .single i => pointerAt disk inode.indirect i
  | .middle i => pointerAt disk inode.doubleIndirect i
  | .leaf i j => pointerAt disk (pointerAt disk inode.doubleIndirect i) j

def dataSlot (blockIdx : Nat) : Slot :=
  if blockIdx < 12 then .direct blockIdx
  else if blockIdx - 12 < ptrsPerBlock then .single (blockIdx - 12)
  else
    .leaf ((blockIdx - 12 - ptrsPerBlock) / ptrsPerBlock)
      ((blockIdx - 12 - ptrsPerBlock) % ptrsPerBlock)

variable {env : Env} {index blockNum : Nat} {after disk : Disk} {inode : Inode}

theorem readIndirect_eq (reads : env.Reads) (disk : Disk) (blockNum index : Nat) :
    readIndirect env disk blockNum index = pointerAt disk blockNum index := by
  unfold readIndirect pointerAt
  simp [reads blockNum]

theorem pointerAt_zero (disk : Disk) (index : Nat) : pointerAt disk 0 index = 0 := rfl

theorem pointerAt_beyond (disk : Disk) (blockNum : Nat) (beyond : ptrsPerBlock ≤ index) :
    pointerAt disk blockNum index = 0 := by
  simp [pointerAt, beyond]

theorem getBlockPtr_eq (reads : env.Reads) (disk : Disk) (inode : Inode) (blockIdx : Nat) :
    getBlockPtr env disk inode blockIdx = slotValue disk inode (dataSlot blockIdx) := by
  unfold getBlockPtr dataSlot
  dsimp only
  split
  next low => simp only [slotValue, if_pos low]
  split
  · exact readIndirect_eq reads ..
  dsimp only [slotValue]
  split
  · rw [readIndirect_eq reads]
    split
    next none => rw [none, pointerAt_zero]
    · exact readIndirect_eq reads ..
  next high =>
  have beyond : ptrsPerBlock ≤ (blockIdx - 12 - ptrsPerBlock) / ptrsPerBlock := by
    unfold ptrsPerBlock at high ⊢
    omega
  rw [pointerAt_beyond disk _ beyond, pointerAt_zero]

theorem pointerAt_congr (same : blockNum ≠ 0 → after blockNum = disk blockNum) (index : Nat) :
    pointerAt after blockNum index = pointerAt disk blockNum index := by
  unfold pointerAt
  split
  · rfl
  next some => rw [same some]

/-- Pointers only change with the blocks that hold them. -/
theorem slotValue_congr (same : ∀ slot, slotValue disk inode slot ≠ 0 →
      after (slotValue disk inode slot) = disk (slotValue disk inode slot)) (slot : Slot) :
    slotValue after inode slot = slotValue disk inode slot := by
  have single : ∀ i, slotValue after inode (.single i) = slotValue disk inode (.single i) :=
    pointerAt_congr (same .indirect)
  have middle : ∀ i, slotValue after inode (.middle i) = slotValue disk inode (.middle i) :=
    pointerAt_congr (same .double)
  cases slot with
  | direct i => rfl
  | indirect => rfl
  | double => rfl
  | single i => exact single i
  | middle i => exact middle i
  | leaf i j =>
    have here := middle i
    dsimp only [slotValue] at here ⊢
    rw [here]
    exact pointerAt_congr (same (.middle i)) j

theorem readLoop_congr (reads : env.Reads) (same : ∀ slot, slotValue disk inode slot ≠ 0 →
      after (slotValue disk inode slot) = disk (slotValue disk inode slot))
    (fuel offset done remaining : Nat) (buf : Bytes) :
    readLoop env after inode fuel offset done remaining buf =
      readLoop env disk inode fuel offset done remaining buf := by
  induction fuel generalizing offset done remaining buf with
  | zero => rfl
  | succ fuel ih =>
    unfold readLoop
    dsimp only
    rw [getBlockPtr_eq reads, getBlockPtr_eq reads, slotValue_congr same]
    split
    · rfl
    split
    · exact ih ..
    next some =>
    rw [same _ some]
    split
    · rfl
    · exact ih ..

end ViperDos.ViperFs
