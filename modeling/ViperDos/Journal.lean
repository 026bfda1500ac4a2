import ViperDos.Crc32

/-!
The metadata journal of kernel/fs/viperfs/journal.cpp. Blocks are bytes and the
on-disk records are read and written at their offsets, so that what an earlier record
left in a block is still there. The journal sees the blocks as the cache has them; a
device keeps the writes that were carried out, in order, beside them. The cache may refuse a
block that is to be written, and the write of one that it gave may fail, which nobody is
told; reading always succeeds. The lock and the messages are left out, and so are the
reserved bytes of the header.
-/

namespace ViperDos.ViperFs

open ByteRecords Crc32

abbrev Block := Bytes
abbrev Disk := Nat → Block

def blockSize : Nat := 4096
def journalMagic : Nat := 0x4A524E4C
def maxJournalBlocks : Nat := 32
def journalBlocks : Nat := 16

def txnInvalid : Nat := 0
def txnActive : Nat := 1
def txnCommitted : Nat := 2

structure JournalHeader where
  magic : Nat
  version : Nat
  sequence : Nat
  startBlock : Nat
  numBlocks : Nat
  head : Nat
  tail : Nat
  deriving DecidableEq

def decodeHeader (block : Block) : JournalHeader where
  magic := getLE 4 block 0
  version := getLE 4 block 4
  sequence := getLE 8 block 8
  startBlock := getLE 8 block 16
  numBlocks := getLE 8 block 24
  head := getLE 8 block 32
  tail := getLE 8 block 40

def encodeHeader (header : JournalHeader) : Block :=
  let block : Block := fun _ => 0
  let block := putLE 4 block 0 header.magic
  let block := putLE 4 block 4 header.version
  let block := putLE 8 block 8 header.sequence
  let block := putLE 8 block 16 header.startBlock
  let block := putLE 8 block 24 header.numBlocks
  let block := putLE 8 block 32 header.head
  putLE 8 block 40 header.tail

-- The fields of a transaction descriptor; record `i` is at 24 + 16 * i.
def txnMagic (desc : Block) : Nat := getLE 4 desc 0
def txnState (desc : Block) : Nat := getLE 1 desc 4
def txnNumBlocks (desc : Block) : Nat := getLE 1 desc 5
def txnSequence (desc : Block) : Nat := getLE 8 desc 8
def txnBlockNum (desc : Block) (i : Nat) : Nat := getLE 8 desc (24 + 16 * i)
def txnChecksum (desc : Block) (i : Nat) : Nat := getLE 4 desc (32 + 16 * i)

-- The fields of a commit record.
def commitMagic (block : Block) : Nat := getLE 4 block 0
def commitSequence (block : Block) : Nat := getLE 8 block 8

structure Transaction where
  sequence : Nat
  blocks : List (Nat × Block)
  active : Bool

structure Journal where
  header : JournalHeader
  journalStart : Nat
  numBlocks : Nat
  enabled : Bool
  currentTxn : Transaction

structure Device where
  disk : Disk
  writes : List (Nat × Block)

/-- What becomes of a block that is to be written: the cache refuses it, or its write fails and
it stays in the cache, or it is written. -/
inductive Answer where
  | refused | cached | written
  deriving DecidableEq

def Answer.given (answer : Answer) : Bool := answer ≠ .refused

@[simp]
theorem Answer.written_given : Answer.written.given = true := rfl

def syncBlock (dev : Device) (num : Nat) (block : Block) (answer : Answer) : Device :=
  ⟨Function.update dev.disk num block,
    if answer = .written then dev.writes ++ [(num, block)] else dev.writes⟩

def checksum (data : Block) : Nat := (crc32 data blockSize).toNat

section

variable (j : Journal)

def Journal.writeHeader (answer : Answer) (dev : Device) : Bool × Device :=
  if answer.given then (true, syncBlock dev j.journalStart (encodeHeader j.header) answer)
  else (false, dev)

def newHeader (journalStart numBlocks : Nat) : JournalHeader where
  magic := journalMagic
  version := 1
  sequence := 0
  startBlock := journalStart + 1
  numBlocks := numBlocks - 1
  head := 0
  tail := 0

def Journal.enable : Journal :=
  { j with enabled := true, currentTxn := { j.currentTxn with active := false } }

def Journal.init (journalStart numBlocks : Nat) (answers : Nat → Answer) (dev : Device) : Bool ×
    Journal × Device :=
  if numBlocks < 4 then (false, j, dev)
  else
    let j := { j with journalStart, numBlocks }
    if !(answers 0).given then (false, j, dev)
    else
      let existing := decodeHeader (dev.disk journalStart)
      if existing.magic = journalMagic ∧ existing.version = 1 then
        (true, { j with header := existing }.enable, dev)
      else
        let j := { j with header := newHeader journalStart numBlocks }
        match j.writeHeader (answers 1) dev with
        | (false, dev) => (false, j, dev)
        | (true, dev) => (true, j.enable, dev)

/-- The sequence number is passed as a `u32`, the record holds a `u64`. -/
def verifyCommitRecord (disk : Disk) (commitBlockNum expectedSeq : Nat) : Bool :=
  commitMagic (disk commitBlockNum) = journalMagic &&
    commitSequence (disk commitBlockNum) = expectedSeq % 2 ^ 32

def verifyTransactionChecksums (disk : Disk) (blockNum : Nat) : Bool :=
  (List.range (txnNumBlocks (disk blockNum))).all fun i =>
    checksum (disk (blockNum + 1 + i)) = txnChecksum (disk blockNum) i

/-- The descriptor is read again for every block, as it is in the cache; the counter
is a byte. -/
def applyTransactionBlocks (blockNum : Nat) : Nat → Nat → Disk → Disk
  | 0, _, disk => disk
  | fuel + 1, i, disk =>
    if i < txnNumBlocks (disk blockNum) then
      applyTransactionBlocks blockNum fuel (i + 1)
        (Function.update disk (txnBlockNum (disk blockNum) i) (disk (blockNum + 1 + i)))
    else disk

def validateTransactionHeader (desc : Block) : Bool :=
  txnMagic desc = journalMagic && txnState desc ≠ txnInvalid &&
    txnNumBlocks desc ≤ maxJournalBlocks

def replayLoop (header : JournalHeader) : Nat → Nat → Nat × Nat → Disk → (Nat × Nat) × Disk
  | 0, _, counts, disk => (counts, disk)
  | fuel + 1, pos, counts, disk =>
    if pos = header.tail ∨ header.numBlocks ≤ pos then (counts, disk)
    else
      let blockNum := header.startBlock + pos
      let next := pos + txnNumBlocks (disk blockNum) + 2
      if !validateTransactionHeader (disk blockNum) then (counts, disk)
      else if txnState (disk blockNum) ≠ txnCommitted then
        replayLoop header fuel next counts disk
      else if !verifyCommitRecord disk (blockNum + 1 + txnNumBlocks (disk blockNum))
          (txnSequence (disk blockNum)) || !verifyTransactionChecksums disk blockNum then
        replayLoop header fuel next (counts.1, counts.2 + 1) disk
      else
        let disk := applyTransactionBlocks blockNum 255 0 disk
        replayLoop header fuel (pos + txnNumBlocks (disk blockNum) + 2)
          (counts.1 + 1, counts.2) disk

/-- A round of the loop moves on by two blocks or more, so it makes fewer rounds than
there are blocks. -/
def Journal.replay (disk : Disk) : Journal × Disk :=
  if !j.enabled then (j, disk)
  else
    match replayLoop j.header j.header.numBlocks j.header.head (0, 0) disk with
    | (counts, disk) =>
      if 0 < counts.1 ∨ 0 < counts.2 then
        let j := { j with header := { j.header with head := 0, tail := 0 } }
        (j, Function.update disk j.journalStart (encodeHeader j.header))
      else (j, disk)

def Journal.begin : Bool × Journal :=
  if !j.enabled then (false, j)
  else if j.currentTxn.active then (false, j)
  else
    (true, { j with
      header := { j.header with sequence := (j.header.sequence + 1) % 2 ^ 64 }
      currentTxn := { sequence := j.header.sequence, blocks := [], active := true } })

def setImage (blockNum : Nat) (data : Block) : List (Nat × Block) → List (Nat × Block)
  | [] => [(blockNum, data)]
  | (num, old) :: rest =>
    if num = blockNum then (num, data) :: rest else (num, old) :: setImage blockNum data rest

def Journal.logBlock (blockNum : Nat) (data : Block) : Bool × Journal :=
  if !j.currentTxn.active then (false, j)
  else if maxJournalBlocks ≤ j.currentTxn.blocks.length then (false, j)
  else
    (true, { j with
      currentTxn := { j.currentTxn with blocks := setImage blockNum data j.currentTxn.blocks } })

def putRecords (desc : Block) (i : Nat) : List (Nat × Block) → Block
  | [] => desc
  | (num, data) :: rest =>
    putRecords (putLE 4 (putLE 8 desc (24 + 16 * i) num) (32 + 16 * i) (checksum data))
      (i + 1) rest

def describe (desc : Block) (txn : Transaction) (ticks : Nat) : Block :=
  let desc := putLE 4 desc 0 journalMagic
  let desc := putLE 1 desc 4 txnActive
  let desc := putLE 1 desc 5 txn.blocks.length
  let desc := putLE 8 desc 8 txn.sequence
  let desc := putLE 8 desc 16 ticks
  putRecords desc 0 txn.blocks

def writeImages (answers : Nat → Answer) (blockNum : Nat) :
    Nat → List (Nat × Block) → Device → Bool × Device
  | _, [], dev => (true, dev)
  | i, (_, data) :: rest, dev =>
    if (answers (1 + i)).given then
      writeImages answers blockNum (i + 1) rest
        (syncBlock dev (blockNum + 1 + i) data (answers (1 + i)))
    else (false, dev)

/-- Space is taken back when the transaction does not fit, in memory only; whether it
fits then is not asked. What is cached for other blocks is written out before. -/
def reclaim (header : JournalHeader) (n : Nat) : JournalHeader :=
  let available := (header.numBlocks + 2 ^ 64 - header.tail) % 2 ^ 64
  if available < n + 2 then { header with head := 0, tail := 0 } else header

/-- The header comes back with the tail moved when all blocks are written. -/
def writeTransaction (header : JournalHeader) (txn : Transaction) (ticks : Nat)
    (answers : Nat → Answer) (dev : Device) : Bool × JournalHeader × Device :=
  if txn.blocks.isEmpty then (false, header, dev)
  else
    let header := reclaim header txn.blocks.length
    let blockNum := header.startBlock + header.tail
    if !(answers 0).given then (false, header, dev)
    else
      let dev := syncBlock dev blockNum (describe (dev.disk blockNum) txn ticks) (answers 0)
      match writeImages answers blockNum 0 txn.blocks dev with
      | (false, dev) => (false, header, dev)
      | (true, dev) =>
        (true, { header with tail := header.tail + txn.blocks.length + 1 }, dev)

def commitRecord (block : Block) (txn : Transaction) : Block :=
  putLE 4 (putLE 8 (putLE 4 block 0 journalMagic) 8 txn.sequence) 16 0

/-- A descriptor that the cache refuses is left in its old state without an error. -/
def writeCommit (header : JournalHeader) (txn : Transaction) (journalPos : Nat)
    (answers : Nat → Answer) (dev : Device) : Bool × JournalHeader × Device :=
  let commitBlock := header.startBlock + header.tail
  if !(answers (txn.blocks.length + 1)).given then (false, header, dev)
  else
    let dev := syncBlock dev commitBlock (commitRecord (dev.disk commitBlock) txn)
      (answers (txn.blocks.length + 1))
    let header := { header with tail := header.tail + 1 }
    let descBlock := header.startBlock + journalPos
    if (answers (txn.blocks.length + 2)).given then
      (true, header, syncBlock dev descBlock (putLE 1 (dev.disk descBlock) 4 txnCommitted)
        (answers (txn.blocks.length + 2)))
    else (true, header, dev)

def Journal.abort : Journal :=
  { j with currentTxn := { j.currentTxn with active := false, blocks := [] } }

def Journal.close : Journal :=
  { j with currentTxn := { j.currentTxn with active := false } }

def Journal.commit (ticks : Nat) (answers : Nat → Answer) (dev : Device) : Bool × Journal × Device :=
  if !j.currentTxn.active then (false, j, dev)
  else if j.currentTxn.blocks.isEmpty then (true, j.close, dev)
  else
    let journalPos := (reclaim j.header j.currentTxn.blocks.length).tail
    match writeTransaction j.header j.currentTxn ticks answers dev with
    | (false, header, dev) => (false, Journal.abort { j with header }, dev)
    | (true, header, dev) =>
      match writeCommit header j.currentTxn journalPos answers dev with
      | (false, header, dev) => (false, Journal.abort { j with header }, dev)
      | (true, header, dev) =>
        let j := { j with header }
        let (_, dev) := j.writeHeader (answers (j.currentTxn.blocks.length + 3)) dev
        (true, j.close, dev)

def Journal.sync (answer : Answer) (dev : Device) : Device :=
  if j.enabled then (j.writeHeader answer dev).2 else dev

end

def unopened : Journal :=
  { header := ⟨0, 0, 0, 0, 0, 0, 0⟩, journalStart := 0, numBlocks := 0, enabled := false
    currentTxn := ⟨0, [], false⟩ }

def openJournal (answers : Nat → Answer) (j : Journal) (journalStart numBlocks : Nat) (disk : Disk) :
    Journal × Disk :=
  match j.init journalStart numBlocks answers ⟨disk, []⟩ with
  | (false, j, dev) => (j, dev.disk)
  | (true, j, dev) => j.replay dev.disk

end ViperDos.ViperFs
