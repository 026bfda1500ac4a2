import ViperDos.JournalReplay

/-!
A commit as the sequence of its block writes: the descriptor, the images, the commit
record, the descriptor again, and the header last. The writes before the header leave a
complete transaction in the blocks they touch.
-/

namespace ViperDos.ViperFs

open ByteRecords Crc32 WriteLog Function

def served : Nat → Answer := fun _ => .written

@[simp]
theorem served_given (i : Nat) : (served i).given = true := rfl

def dataWrites (blockNum : Nat) : Nat → Images → List (Nat × Block)
  | _, [] => []
  | i, (_, data) :: rest => (blockNum + 1 + i, data) :: dataWrites blockNum (i + 1) rest

def leadingWrites (disk : Disk) (blockNum : Nat) (txn : Transaction) (ticks : Nat) :
    List (Nat × Block) :=
  (blockNum, describe (disk blockNum) txn ticks) :: dataWrites blockNum 0 txn.blocks

def closingWrites (disk : Disk) (blockNum : Nat) (txn : Transaction) (ticks : Nat) :
    List (Nat × Block) :=
  [(blockNum + 1 + txn.blocks.length, commitRecord (disk (blockNum + 1 + txn.blocks.length)) txn),
    (blockNum, putLE 1 (describe (disk blockNum) txn ticks) 4 txnCommitted)]

def transactionWrites (disk : Disk) (blockNum : Nat) (txn : Transaction) (ticks : Nat) :
    List (Nat × Block) :=
  leadingWrites disk blockNum txn ticks ++ closingWrites disk blockNum txn ticks

variable {images : Images}

variable {blockNum i ticks num offset width : Nat} {write : Nat × Block} {disk after : Disk}
  {txn : Transaction} {answers : Nat → Answer} {dev : Device} {header before : JournalHeader}
  {desc : Block}

theorem dataWrites_bounds (member : write ∈ dataWrites blockNum i images) :
    blockNum + 1 + i ≤ write.1 ∧ write.1 < blockNum + 1 + i + images.length := by
  induction images generalizing i with
  | nil => cases member
  | cons image rest ih =>
    rw [List.length_cons]
    rcases List.mem_cons.mp member with rfl | later
    · omega
    · have bounds := ih later
      omega

theorem transactionWrites_bounds (member : write ∈ transactionWrites disk blockNum txn ticks) :
    blockNum ≤ write.1 ∧ write.1 < blockNum + txn.blocks.length + 2 := by
  simp only [transactionWrites, leadingWrites, closingWrites, List.cons_append, List.mem_cons,
    List.mem_append, List.not_mem_nil, or_false] at member
  rcases member with rfl | data | rfl | rfl
  · omega
  · have bounds := dataWrites_bounds data
    omega
  · omega
  · omega

theorem syncBlock_written (dev : Device) (num : Nat) (block : Block) :
    syncBlock dev num block .written =
      ⟨update dev.disk num block, dev.writes ++ [(num, block)]⟩ :=
  rfl

theorem writeImages_met (met : ∀ k < images.length, answers (1 + (i + k)) = .written) :
    writeImages answers blockNum i images dev =
      (true, ⟨applyAll (dataWrites blockNum i images) dev.disk,
        dev.writes ++ dataWrites blockNum i images⟩) := by
  induction images generalizing i dev with
  | nil => simp [writeImages, dataWrites, applyAll]
  | cons image rest ih =>
    have here : answers (1 + i) = .written := met 0 (Nat.succ_pos _)
    have later : ∀ k < rest.length, answers (1 + (i + 1 + k)) = .written := by
      intro k small
      have next := met (k + 1) (Nat.succ_lt_succ small)
      rwa [show i + (k + 1) = i + 1 + k by omega] at next
    rw [writeImages, here, if_pos Answer.written_given, ih later]
    simp [syncBlock_written, dataWrites, applyAll]

def carriedOut (answer : Answer) (disk : Disk) (blockNum : Nat) (txn : Transaction) (ticks : Nat) :
    List (Nat × Block) :=
  if answer = .written then leadingWrites disk blockNum txn ticks
  else dataWrites blockNum 0 txn.blocks

theorem writeTransaction_met (ticks : Nat) (disk : Disk) (some : txn.blocks ≠ [])
    (here : reclaim header txn.blocks.length = before) (first : (answers 0).given = true)
    (met : ∀ k < txn.blocks.length, answers (1 + k) = .written) :
    writeTransaction header txn ticks answers ⟨disk, []⟩ =
      (true, { before with tail := before.tail + txn.blocks.length + 1 },
        ⟨applyAll (leadingWrites disk (before.startBlock + before.tail) txn ticks) disk,
          carriedOut (answers 0) disk (before.startBlock + before.tail) txn ticks⟩) := by
  have empty : txn.blocks.isEmpty = false := by simpa using some
  have images : ∀ dev, writeImages answers (before.startBlock + before.tail) 0 txn.blocks dev = _ :=
    fun dev => writeImages_met fun k small => by rw [Nat.zero_add]; exact met k small
  unfold writeTransaction
  rw [here]
  simp only [empty, first, images, Bool.not_true, Bool.false_eq_true, if_false]
  unfold syncBlock carriedOut
  split <;> rfl

theorem leadingWrites_desc (disk : Disk) (blockNum : Nat) (txn : Transaction) (ticks : Nat) :
    applyAll (leadingWrites disk blockNum txn ticks) disk blockNum =
      describe (disk blockNum) txn ticks := by
  have others : ∀ write ∈ dataWrites blockNum 0 txn.blocks, write.1 ≠ blockNum := by
    intro write member
    have bounds := dataWrites_bounds member
    omega
  exact (applyAll_other others _).trans (update_self _ _ _)

theorem leadingWrites_beyond (disk : Disk) (txn : Transaction) (ticks : Nat)
    (beyond : blockNum + 1 + txn.blocks.length ≤ num) :
    applyAll (leadingWrites disk blockNum txn ticks) disk num = disk num := by
  apply applyAll_other
  intro write member
  rcases List.mem_cons.mp member with rfl | data
  · omega
  · have bounds := dataWrites_bounds data
    omega

theorem writeCommit_met (header : JournalHeader) (txn : Transaction) (ticks : Nat) (disk : Disk)
    (writes : List (Nat × Block)) (record : answers (txn.blocks.length + 1) = .written)
    (again : answers (txn.blocks.length + 2) = .written) :
    let blockNum := header.startBlock + header.tail
    writeCommit { header with tail := header.tail + txn.blocks.length + 1 } txn header.tail answers
        ⟨applyAll (leadingWrites disk blockNum txn ticks) disk, writes⟩ =
      (true, { header with tail := header.tail + txn.blocks.length + 2 },
        ⟨applyAll (transactionWrites disk blockNum txn ticks) disk,
          writes ++ closingWrites disk blockNum txn ticks⟩) := by
  intro blockNum
  have place : header.startBlock + (header.tail + txn.blocks.length + 1) =
      blockNum + 1 + txn.blocks.length := by omega
  have beyond := leadingWrites_beyond disk txn ticks
    (Nat.le_refl (blockNum + 1 + txn.blocks.length))
  have apart : blockNum ≠ blockNum + 1 + txn.blocks.length := by omega
  have desc := leadingWrites_desc disk blockNum txn ticks
  unfold writeCommit
  simp only [record, again, Answer.written_given, Bool.not_true, Bool.false_eq_true, if_false,
    if_true, syncBlock_written, place, beyond]
  rw [update_of_ne apart, desc, List.append_assoc]
  simp only [transactionWrites, applyAll_append]
  rfl

def advance (header : JournalHeader) (n : Nat) : JournalHeader :=
  { header with tail := header.tail + n + 2 }

/-- A commit as the list of its writes, if all but the first write of the descriptor are carried
out. -/
theorem commit_met {j : Journal} (ticks : Nat) (disk : Disk)
    (active : j.currentTxn.active = true) (some : j.currentTxn.blocks ≠ [])
    (here : reclaim j.header j.currentTxn.blocks.length = before)
    (first : (answers 0).given = true)
    (met : ∀ i ≤ j.currentTxn.blocks.length + 2, answers (1 + i) = .written) :
    let after := advance before j.currentTxn.blocks.length
    let blockNum := before.startBlock + before.tail
    let last := [(j.journalStart, encodeHeader after)]
    j.commit ticks answers ⟨disk, []⟩ = (true, Journal.close { j with header := after },
      ⟨applyAll (transactionWrites disk blockNum j.currentTxn ticks ++ last) disk,
        carriedOut (answers 0) disk blockNum j.currentTxn ticks ++
          closingWrites disk blockNum j.currentTxn ticks ++ last⟩) := by
  intro after blockNum last
  have empty : j.currentTxn.blocks.isEmpty = false := by simpa using some
  have later : ∀ i ≤ 2, answers (j.currentTxn.blocks.length + (i + 1)) = .written := by
    intro i small
    have wanted := met (j.currentTxn.blocks.length + i) (by omega)
    rwa [Nat.add_comm 1] at wanted
  have transaction := writeTransaction_met ticks disk some here first fun k small =>
    met k (by omega)
  have closing := writeCommit_met before j.currentTxn ticks disk
    (carriedOut (answers 0) disk (before.startBlock + before.tail) j.currentTxn ticks)
    (later 0 (by omega)) (later 1 (by omega))
  unfold Journal.commit
  rw [here]
  simp only [active, empty, transaction, closing, after, last, Bool.not_true, Bool.false_eq_true,
    if_false, Journal.writeHeader, later 2 (Nat.le_refl 2), Answer.written_given, if_true,
    syncBlock_written, applyAll_append, advance]
  rfl

theorem commit_served {j : Journal} (ticks : Nat) (disk : Disk)
    (active : j.currentTxn.active = true) (some : j.currentTxn.blocks ≠ [])
    (here : reclaim j.header j.currentTxn.blocks.length = before) :
    let after := advance before j.currentTxn.blocks.length
    let writes := transactionWrites disk (before.startBlock + before.tail) j.currentTxn ticks ++
      [(j.journalStart, encodeHeader after)]
    j.commit ticks served ⟨disk, []⟩ =
      (true, Journal.close { j with header := after }, ⟨applyAll writes disk, writes⟩) :=
  commit_met ticks disk active some here rfl fun _ _ => rfl

theorem getLE_putRecords (desc : Block) (below : offset + width ≤ 24 + 16 * i) :
    getLE width (putRecords desc i images) offset = getLE width desc offset := by
  induction images generalizing i desc with
  | nil => rfl
  | cons image rest ih =>
    rw [putRecords, ih _ (by omega), getLE_putLE_apart _ _ (by omega),
      getLE_putLE_apart _ _ (by omega)]

def Described (desc : Block) : Nat → Images → Prop
  | _, [] => True
  | i, (num, data) :: rest =>
    (txnBlockNum desc i = num ∧ txnChecksum desc i = checksum data) ∧
      Described desc (i + 1) rest

theorem checksum_lt (data : Block) : checksum data < 256 ^ 4 := (crc32 data blockSize).toNat_lt

theorem described_putRecords (desc : Block) (i : Nat) (nums : ∀ image ∈ images, image.1 < 256 ^ 8) :
    Described (putRecords desc i images) i images := by
  induction images generalizing i desc with
  | nil => trivial
  | cons image rest ih =>
    rcases image with ⟨num, data⟩
    have small : num < 256 ^ 8 := nums (num, data) (.head _)
    refine ⟨⟨?_, ?_⟩, ih _ _ fun image member => nums image (.tail _ member)⟩
    · rw [txnBlockNum, putRecords, getLE_putRecords _ (by omega),
        getLE_putLE_apart _ _ (by omega), getLE_putLE, Nat.mod_eq_of_lt small]
    · rw [txnChecksum, putRecords, getLE_putRecords _ (by omega), getLE_putLE,
        Nat.mod_eq_of_lt (checksum_lt data)]

theorem described_state (described : Described desc i images) (state : Nat) :
    Described (putLE 1 desc 4 state) i images := by
  induction images generalizing i with
  | nil => trivial
  | cons image rest ih =>
    rcases described with ⟨⟨num, sum⟩, later⟩
    refine ⟨⟨?_, ?_⟩, ih later⟩
    · rw [txnBlockNum, getLE_putLE_apart _ _ (by omega), ← num, txnBlockNum]
    · rw [txnChecksum, getLE_putLE_apart _ _ (by omega), ← sum, txnChecksum]

theorem recorded_dataWrites (disk : Disk) (described : Described (after blockNum) i images)
    (same : ∀ num, blockNum + 1 + i ≤ num → num < blockNum + 1 + i + images.length →
      after num = applyAll (dataWrites blockNum i images) disk num) :
    Recorded after blockNum i images := by
  induction images generalizing i disk with
  | nil => trivial
  | cons image rest ih =>
    rcases image with ⟨num, data⟩
    rcases described with ⟨⟨home, sum⟩, later⟩
    rw [List.length_cons] at same
    have unmoved : ∀ write ∈ dataWrites blockNum (i + 1) rest, write.1 ≠ blockNum + 1 + i := by
      intro write member
      have bounds := dataWrites_bounds member
      omega
    have image : after (blockNum + 1 + i) = data := by
      rw [same _ (by omega) (by omega), dataWrites, applyAll, List.foldl_cons]
      exact (applyAll_other unmoved _).trans (update_self _ _ _)
    exact ⟨⟨home, sum, image⟩, ih (update disk (blockNum + 1 + i) data) later
      fun other low high => same other (by omega) (by omega)⟩

theorem transactionWrites_last (disk : Disk) (blockNum : Nat) (txn : Transaction) (ticks : Nat) :
    applyAll (transactionWrites disk blockNum txn ticks) disk =
      update (update (applyAll (leadingWrites disk blockNum txn ticks) disk)
        (blockNum + 1 + txn.blocks.length)
        (commitRecord (disk (blockNum + 1 + txn.blocks.length)) txn))
        blockNum (putLE 1 (describe (disk blockNum) txn ticks) 4 txnCommitted) := by
  rw [transactionWrites, applyAll_append]
  rfl

theorem describe_fields (desc : Block) (txn : Transaction) (ticks : Nat) :
    let final := putLE 1 (describe desc txn ticks) 4 txnCommitted
    txnMagic final = journalMagic ∧ txnState final = txnCommitted ∧
      txnNumBlocks final = txn.blocks.length % 256 ∧ txnSequence final = txn.sequence % 256 ^ 8 := by
  intro final
  simp (disch := omega) only [final, txnMagic, txnState, txnNumBlocks, txnSequence, describe,
    getLE_putLE, getLE_putRecords, getLE_putLE_apart]
  exact ⟨rfl, rfl, rfl, trivial⟩

theorem commitRecord_fields (block : Block) (txn : Transaction) :
    commitMagic (commitRecord block txn) = journalMagic ∧
      commitSequence (commitRecord block txn) = txn.sequence % 256 ^ 8 := by
  simp (disch := omega) only [commitMagic, commitSequence, commitRecord, getLE_putLE,
    getLE_putLE_apart]
  exact ⟨rfl, trivial⟩

theorem stored_written (disk : Disk) (blockNum : Nat) (ticks : Nat)
    (few : txn.blocks.length ≤ maxJournalBlocks) (early : txn.sequence < 2 ^ 32)
    (nums : ∀ image ∈ txn.blocks, image.1 < 256 ^ 8) :
    Stored (applyAll (transactionWrites disk blockNum txn ticks) disk) blockNum txn.blocks := by
  have whole := transactionWrites_last disk blockNum txn ticks
  rw [whole]
  have apart : blockNum + 1 + txn.blocks.length ≠ blockNum := by omega
  obtain ⟨magic, state, count, sequence⟩ := describe_fields (disk blockNum) txn ticks
  obtain ⟨recordMagic, recordSequence⟩ :=
    commitRecord_fields (disk (blockNum + 1 + txn.blocks.length)) txn
  have early64 : txn.sequence < 256 ^ 8 := Nat.lt_trans early (by decide)
  have byte : txn.blocks.length < 256 := Nat.lt_of_le_of_lt few (by decide)
  rw [Nat.mod_eq_of_lt early64] at sequence recordSequence
  rw [Nat.mod_eq_of_lt byte] at count
  constructor
  case magic => rw [update_self, magic]
  case state => rw [update_self, state]
  case count => rw [update_self, count]
  case small => exact few
  case records =>
    apply recorded_dataWrites (update disk blockNum (describe (disk blockNum) txn ticks))
    · rw [update_self]
      exact described_state (described_putRecords _ 0 nums) _
    · intro num low high
      rw [update_of_ne (by omega), update_of_ne (by omega)]
      rfl
  case sealed =>
    rw [verifyCommitRecord, update_of_ne apart, update_self,
      update_self, recordMagic, recordSequence, sequence, Nat.mod_eq_of_lt early]
    simp

theorem decodeHeader_encodeHeader (header : JournalHeader) : decodeHeader (encodeHeader header) =
      { magic := header.magic % 256 ^ 4
        version := header.version % 256 ^ 4
        sequence := header.sequence % 256 ^ 8
        startBlock := header.startBlock % 256 ^ 8
        numBlocks := header.numBlocks % 256 ^ 8
        head := header.head % 256 ^ 8
        tail := header.tail % 256 ^ 8 } := by
  simp (disch := omega) only [decodeHeader, encodeHeader, getLE_putLE, getLE_putLE_apart]

/-- One damaged byte in a logged image is enough for replay to pass over the transaction. -/
theorem damaged_transaction_skipped (header : JournalHeader) (pos i p : Nat) (byte : UInt8)
    (stored : Stored disk (header.startBlock + pos) images)
    (going : ¬ (pos = header.tail ∨ header.numBlocks ≤ pos)) (known : i < images.length)
    (inside : p < blockSize) (differs : byte ≠ disk (header.startBlock + pos + 1 + i) p)
    (fuel : Nat) (counts : Nat × Nat) :
    let place := header.startBlock + pos + 1 + i
    let damaged := update disk place (update (disk place) p byte)
    replayLoop header (fuel + 1) pos counts damaged =
      replayLoop header fuel (pos + images.length + 2) (counts.1, counts.2 + 1) damaged := by
  intro place damaged
  have desc : damaged (header.startBlock + pos) = disk (header.startBlock + pos) :=
    update_of_ne (by omega) ..
  have refused : verifyTransactionChecksums damaged (header.startBlock + pos) = false := by
    refine List.all_eq_false.mpr ⟨i, List.mem_range.mpr (by rwa [desc, stored.count]), ?_⟩
    rw [desc, ← recorded_checksum stored.records (Nat.zero_le i) (by omega), decide_eq_true_eq,
      checksum, checksum, UInt32.toNat_inj, crc32, crc32, UInt32.xor_left_inj]
    dsimp only [damaged]
    rw [update_self, crc32Update_damaged differs]
    exact Nat.not_le.mpr inside
  rw [replayLoop, if_neg going]
  dsimp only
  rw [desc, stored_valid stored, stored.state, stored.count, refused]
  simp

theorem damaged_commit_skipped : ∃ disk,
    replayLoop ⟨0, 1, 0, 101, 15, 0, 3⟩ 15 0 (0, 0) disk =
      replayLoop ⟨0, 1, 0, 101, 15, 0, 3⟩ 14 3 (0, 1) disk := by
  have stored := @stored_written ⟨0, [(5, fun _ => 1)], true⟩ (fun _ _ => 0) 101 0 (by decide)
    (by decide) (by decide)
  have data := stored.records.1.2.2
  exact ⟨_, damaged_transaction_skipped ⟨0, 1, 0, 101, 15, 0, 3⟩ 0 0 0 2 stored (by decide)
    (by decide) (by decide) (data ▸ by decide) 14 (0, 0)⟩

end ViperDos.ViperFs
