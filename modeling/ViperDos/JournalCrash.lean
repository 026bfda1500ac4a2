import ViperDos.JournalCommit
import ViperDos.Transition

/-!
Crashes of a journal in use. As long as every transaction fits behind the ones before
it, a crash between two block writes leaves the header and the chain it describes as
they were, and the next mount restores what the last complete commit logged. A
transaction that makes the journal start over overwrites the front of that chain before
the header says so.
-/

namespace ViperDos.ViperFs

open ByteRecords WriteLog Transition

structure Logging where
  journal : Journal
  disk : Disk
  committed : List Images

inductive Op where
  | begin
  | logBlock (num : UInt64) (data : Block)
  | commit (ticks : Nat)
  | abort

def blockWrites (s : Logging) : Op → List (Nat × Block)
  | .commit ticks => (s.journal.commit ticks served ⟨s.disk, []⟩).2.2.writes
  | _ => []

def pending (j : Journal) : List Images :=
  if j.currentTxn.active && !j.currentTxn.blocks.isEmpty then [j.currentTxn.blocks] else []

def Logging.perform (s : Logging) : Op → Logging
  | .begin => { s with journal := s.journal.begin.2 }
  | .logBlock num data => { s with journal := (s.journal.logBlock num.toNat data).2 }
  | .commit ticks =>
    let result := s.journal.commit ticks served ⟨s.disk, []⟩
    ⟨result.2.1, result.2.2.disk, s.committed ++ pending s.journal⟩
  | .abort => { s with journal := s.journal.abort }

def Logging.Step (s : Logging) (op : Op) (after : Logging) : Prop := after = s.perform op

theorem perform_step (s : Logging) (op : Op) : Logging.Step s op (s.perform op) := rfl

/-- The disk that a crash leaves, after some of the writes of an operation or at the
end, and the transactions that were complete. -/
inductive CrashPoint : Logging → List (Op × Logging) → Disk → List Images → Prop where
  | during {s after : Logging} {op : Op} {rest : List (Op × Logging)} (k : Nat)
      (within : k < (blockWrites s op).length) :
      CrashPoint s ((op, after) :: rest) (applyAll ((blockWrites s op).take k) s.disk) s.committed
  | later {s after : Logging} {op : Op} {rest : List (Op × Logging)} {disk : Disk}
      {committed : List Images} (crash : CrashPoint after rest disk committed) :
      CrashPoint s ((op, after) :: rest) disk committed
  | finished (s : Logging) : CrashPoint s [] s.disk s.committed

variable {journalStart numBlocks num n ticks k : Nat} {s after : Logging} {disk start : Disk}
  {header : JournalHeader} {data : Block} {images first : Images} {txn : Transaction}
  {writes : List (Nat × Block)} {op : Op} {history : List (Op × Logging)}
  {committed rest : List Images}

section

section

variable (journalStart numBlocks : Nat)

/-- Every block outside the journal holds the last image logged for it, or what it
held before. -/
def Restored (committed : List Images) (start after : Disk) : Prop :=
  ∀ num, num < journalStart ∨ journalStart + numBlocks ≤ num →
    after num = (lastWrite committed.flatten num).getD (start num)

def JournalHeader.numbered (header : JournalHeader) (sequence : Nat) : JournalHeader :=
  { header with sequence := sequence }

structure Shaped (header : JournalHeader) : Prop where
  magic : header.magic = journalMagic
  version : header.version = 1
  start : header.startBlock = journalStart + 1
  size : header.numBlocks + 1 = numBlocks

structure Opened (s : Logging) : Prop where
  wide : 4 ≤ numBlocks
  enabled : s.journal.enabled = true
  idle : s.journal.currentTxn.active = false
  place : s.journal.journalStart = journalStart
  shape : Shaped journalStart numBlocks s.journal.header
  onDisk : decodeHeader (s.disk journalStart) = s.journal.header
  empty : s.journal.header.head = s.journal.header.tail
  fits : s.journal.header.tail ≤ s.journal.header.numBlocks
  fresh : s.committed = []

/-- The transaction fits behind the earlier ones, its number has 32 bits, and no block
of the journal itself is logged. -/
def Fits (s : Logging) : Op → Prop
  | .logBlock num _ => num.toNat < journalStart ∨ journalStart + numBlocks ≤ num.toNat
  | .commit _ => s.journal.currentTxn.active = true → s.journal.currentTxn.blocks ≠ [] →
      s.journal.header.tail + s.journal.currentTxn.blocks.length + 2 ≤ s.journal.header.numBlocks ∧
        s.journal.currentTxn.sequence < 2 ^ 32
  | _ => True

structure Pending (images : Images) : Prop where
  few : images.length ≤ maxJournalBlocks
  nums : ∀ image ∈ images, image.1 < 256 ^ 8
  homes : HomesOutside images journalStart (journalStart + numBlocks)

/-- The header on disk is the one in memory up to the sequence number, and the complete
transactions lie between head and tail. -/
structure Ordered (start : Disk) (s : Logging) : Prop where
  wide : 4 ≤ numBlocks
  enabled : s.journal.enabled = true
  place : s.journal.journalStart = journalStart
  shape : Shaped journalStart numBlocks s.journal.header
  onDisk : ∃ sequence, decodeHeader (s.disk journalStart) = s.journal.header.numbered sequence
  fits : s.journal.header.tail ≤ s.journal.header.numBlocks
  chain : Chain s.disk s.journal.header.startBlock s.journal.header.head s.committed
    s.journal.header.tail
  homes : ∀ images ∈ s.committed, HomesOutside images journalStart (journalStart + numBlocks)
  logged : s.journal.currentTxn.active = true →
    Pending journalStart numBlocks s.journal.currentTxn.blocks
  frame : ∀ num, num < journalStart ∨ journalStart + numBlocks ≤ num → s.disk num = start num

end

theorem opened_ordered (opened : Opened journalStart numBlocks s) :
    Ordered journalStart numBlocks s.disk s where
  wide := opened.wide
  enabled := opened.enabled
  place := opened.place
  shape := opened.shape
  onDisk := ⟨s.journal.header.sequence, opened.onDisk⟩
  fits := opened.fits
  chain := by
    rw [opened.fresh]
    exact opened.empty
  homes := by simp [opened.fresh]
  logged := by simp [opened.idle]
  frame _ _ := rfl

theorem init_existing (j : Journal) (wide : 4 ≤ numBlocks)
    (found : decodeHeader (disk journalStart) = header) (magic : header.magic = journalMagic)
    (version : header.version = 1) :
    j.init journalStart numBlocks served ⟨disk, []⟩ =
      (true, Journal.enable ⟨header, journalStart, numBlocks, j.enabled, j.currentTxn⟩,
        ⟨disk, []⟩) := by
  unfold Journal.init
  rw [if_neg (by omega)]
  simp only [served_given, found, magic, version, Bool.not_true, Bool.false_eq_true, if_false,
    and_self, if_true]

theorem init_opened (j : Journal) (wide : 4 ≤ numBlocks)
    (small : journalStart + numBlocks < 256 ^ 8)
    (unused : (decodeHeader (disk journalStart)).magic ≠ journalMagic) :
    let result := j.init journalStart numBlocks served ⟨disk, []⟩
    Opened journalStart numBlocks ⟨result.2.1, result.2.2.disk, []⟩ := by
  intro result
  have made : result = (true, Journal.enable ⟨newHeader journalStart numBlocks, journalStart,
      numBlocks, j.enabled, j.currentTxn⟩, syncBlock ⟨disk, []⟩ journalStart
        (encodeHeader (newHeader journalStart numBlocks)) .written) := by
    dsimp only [result]
    unfold Journal.init
    rw [if_neg (by omega)]
    simp only [served_given, unused, Journal.writeHeader, Bool.not_true, Bool.false_eq_true,
      if_false, false_and, if_true]
    rfl
  rw [made]
  constructor
  case wide => exact wide
  case enabled => rfl
  case idle => rfl
  case place => rfl
  case shape => exact ⟨rfl, rfl, rfl, Nat.sub_add_cancel (by omega)⟩
  case onDisk =>
    dsimp only [syncBlock, Journal.enable]
    rw [Function.update_self, decodeHeader_encodeHeader]
    simp only [newHeader, journalMagic, JournalHeader.mk.injEq]
    omega
  case empty => rfl
  case fits => exact Nat.zero_le _
  case fresh => rfl

theorem setImage_length (num : Nat) (data : Block) (images : Images) :
    (setImage num data images).length ≤ images.length + 1 := by
  induction images with
  | nil => exact Nat.le_refl 1
  | cons image rest ih =>
    unfold setImage
    split
    · exact Nat.le_succ _
    · exact Nat.succ_le_succ ih

theorem setImage_member {image : Nat × Block}
    (member : image ∈ setImage num data images) :
    image.1 = num ∨ ∃ old ∈ images, old.1 = image.1 := by
  induction images with
  | nil =>
    rw [setImage, List.mem_singleton] at member
    exact .inl (by rw [member])
  | cons first rest ih =>
    unfold setImage at member
    split at member
    · rcases List.mem_cons.mp member with rfl | later
      · exact .inr ⟨first, .head _, rfl⟩
      · exact .inr ⟨image, .tail _ later, rfl⟩
    rcases List.mem_cons.mp member with rfl | later
    · exact .inr ⟨first, .head _, rfl⟩
    · rcases ih later with here | ⟨old, inside, same⟩
      · exact .inl here
      · exact .inr ⟨old, .tail _ inside, same⟩

theorem pending_setImage (logged : Pending journalStart numBlocks images)
    (room : images.length < maxJournalBlocks) {num : UInt64} (data : Block)
    (outside : num.toNat < journalStart ∨ journalStart + numBlocks ≤ num.toNat) :
    Pending journalStart numBlocks (setImage num.toNat data images) := by
  have length := setImage_length num.toNat data images
  constructor
  case few => omega
  case nums =>
    intro image member
    rcases setImage_member member with same | ⟨old, inside, same⟩
    · rw [same]
      exact num.toNat_lt
    · rw [← same]
      exact logged.nums old inside
  case homes =>
    intro image member
    rcases setImage_member member with same | ⟨old, inside, same⟩
    · rw [same]
      exact outside
    · rw [← same]
      exact logged.homes old inside

theorem decode_shaped (shape : Shaped journalStart numBlocks header)
    (size : header.numBlocks < 256 ^ 8) (start : header.startBlock < 256 ^ 8)
    (head : header.head < 256 ^ 8) (fits : header.tail ≤ header.numBlocks) :
    decodeHeader (encodeHeader header) = header.numbered (header.sequence % 256 ^ 8) := by
  have magic : header.magic < 256 ^ 4 := by
    rw [shape.magic]
    decide
  have version : header.version < 256 ^ 4 := by
    rw [shape.version]
    decide
  have tail : header.tail < 256 ^ 8 := Nat.lt_of_le_of_lt fits size
  rw [decodeHeader_encodeHeader]
  simp only [JournalHeader.numbered, Nat.mod_eq_of_lt magic, Nat.mod_eq_of_lt version,
    Nat.mod_eq_of_lt size, Nat.mod_eq_of_lt start, Nat.mod_eq_of_lt head, Nat.mod_eq_of_lt tail]

theorem reclaim_fits (bound : header.numBlocks < 256 ^ 8)
    (room : header.tail + n + 2 ≤ header.numBlocks) : reclaim header n = header := by
  have available : (header.numBlocks + 2 ^ 64 - header.tail) % 2 ^ 64 =
      header.numBlocks - header.tail := by omega
  unfold reclaim
  rw [available, if_neg (by omega)]

def bodyWrites (s : Logging) (ticks : Nat) : List (Nat × Block) :=
  transactionWrites s.disk (s.journal.header.startBlock + s.journal.header.tail)
    s.journal.currentTxn ticks

theorem commit_idle {j : Journal}
    (idle : ¬ (j.currentTxn.active = true ∧ j.currentTxn.blocks ≠ [])) (ticks : Nat)
    (answers : Nat → Answer) (disk : Disk) :
    pending j = [] ∧ ∃ txn done, txn.active = false ∧
      j.commit ticks answers ⟨disk, []⟩ = (done, { j with currentTxn := txn }, ⟨disk, []⟩) := by
  cases active : j.currentTxn.active with
  | false =>
    constructor
    · simp [pending, active]
    · exact ⟨j.currentTxn, false, active, by simp [Journal.commit, active]⟩
  | true =>
    have none : j.currentTxn.blocks = [] := by
      by_contra some
      exact idle ⟨active, some⟩
    constructor
    · simp [pending, none]
    · exact ⟨{ j.currentTxn with active := false }, true, rfl, by
        simp [Journal.commit, Journal.close, active, none]⟩

section

variable (ordered : Ordered journalStart numBlocks start s)

include ordered

/-- A disk that differs only in the unused part of the journal is restored. -/
theorem ordered_restored (j : Journal)
    (same : ∀ num, num < journalStart + 1 + s.journal.header.tail ∨
      journalStart + numBlocks ≤ num → disk num = s.disk num) :
    Restored journalStart numBlocks s.committed start
      (openJournal served j journalStart numBlocks disk).2 := by
  obtain ⟨sequence, header⟩ := ordered.onDisk
  have shape := ordered.shape
  have found : decodeHeader (disk journalStart) = s.journal.header.numbered sequence := by
    rw [same _ (.inl (by omega)), header]
  have opening := init_existing j ordered.wide found shape.magic shape.version
  have chain : Chain disk s.journal.header.startBlock s.journal.header.head s.committed
      s.journal.header.tail :=
    chain_congr ordered.chain fun num low high => same num (.inl (by have := shape.start; omega))
  have homes : ∀ images ∈ s.committed, HomesOutside images s.journal.header.startBlock
      (s.journal.header.startBlock + s.journal.header.numBlocks) := by
    intro images member image inside
    have outside := ordered.homes images member image inside
    have begins := shape.start
    have size := shape.size
    omega
  intro num outside
  have wide := ordered.wide
  have home : num ≠ journalStart := by omega
  have untouched : disk num = s.disk num := by
    apply same
    omega
  let opened : Journal := Journal.enable
    ⟨s.journal.header.numbered sequence, journalStart, numBlocks, j.enabled, j.currentTxn⟩
  have replayed : (opened.replay disk).2 num = applyAll s.committed.flatten disk num :=
    replay_chain opened rfl chain ordered.fits homes home
  unfold openJournal
  rw [opening]
  rw [replayed, applyAll_apply, untouched, ordered.frame num outside]

/-- The header fields are read from 64-bit fields. -/
theorem ordered_bounds :
    s.journal.header.numBlocks < 256 ^ 8 ∧ s.journal.header.startBlock < 256 ^ 8 ∧
      s.journal.header.head < 256 ^ 8 := by
  obtain ⟨sequence, found⟩ := ordered.onDisk
  have size : (s.journal.header.numbered sequence).numBlocks < 256 ^ 8 := found ▸ getLE_lt 8 _ 24
  have first : (s.journal.header.numbered sequence).startBlock < 256 ^ 8 := found ▸ getLE_lt 8 _ 16
  have head : (s.journal.header.numbered sequence).head < 256 ^ 8 := found ▸ getLE_lt 8 _ 32
  exact ⟨size, first, head⟩

/-- The header written again, whatever happened outside the chain. -/
theorem ordered_rewritten (header : disk journalStart = encodeHeader s.journal.header)
    (same : ∀ num, journalStart < num → num < journalStart + 1 + s.journal.header.tail →
      disk num = s.disk num) : Ordered journalStart numBlocks disk { s with disk := disk } := by
  have begins := ordered.shape.start
  obtain ⟨size, start, head⟩ := ordered_bounds ordered
  have onDisk : decodeHeader (disk journalStart) =
      s.journal.header.numbered (s.journal.header.sequence % 256 ^ 8) := by
    rw [header, decode_shaped ordered.shape size start head ordered.fits]
  have chain := chain_congr ordered.chain fun num low high => same num (by omega) (by omega)
  exact { ordered with onDisk := ⟨_, onDisk⟩, chain := chain, frame := fun _ _ => rfl }

theorem ordered_idle (logged : txn.active = true → Pending journalStart numBlocks txn.blocks) :
    Ordered journalStart numBlocks start
      { s with journal := { s.journal with currentTxn := txn } } :=
  { ordered with logged := logged }

section

variable (room : s.journal.header.tail + s.journal.currentTxn.blocks.length + 2 ≤
    s.journal.header.numBlocks) (active : s.journal.currentTxn.active = true)
  (some : s.journal.currentTxn.blocks ≠ [])

include room

omit ordered in
theorem body_elsewhere
    (elsewhere : num < s.journal.header.startBlock + s.journal.header.tail ∨
      s.journal.header.startBlock + s.journal.header.numBlocks ≤ num)
    (part : writes ⊆ bodyWrites s ticks) : applyAll writes s.disk num = s.disk num := by
  apply applyAll_other
  intro write member
  have bounds := transactionWrites_bounds (part member)
  omega

include active some

omit ordered in
theorem commit_fitting (bound : s.journal.header.numBlocks < 256 ^ 8) (ticks : Nat) :
    let after := advance s.journal.header s.journal.currentTxn.blocks.length
    let writes := bodyWrites s ticks ++ [(s.journal.journalStart, encodeHeader after)]
    s.journal.commit ticks served ⟨s.disk, []⟩ =
      (true, Journal.close { s.journal with header := after },
        ⟨applyAll writes s.disk, writes⟩) :=
  commit_served ticks s.disk active some (reclaim_fits bound room)

theorem commit_ordered (early : s.journal.currentTxn.sequence < 2 ^ 32) :
    Ordered journalStart numBlocks start (s.perform (.commit ticks)) := by
  obtain ⟨size, begins, head⟩ := ordered_bounds ordered
  have shape := ordered.shape
  have first := shape.start
  have count := shape.size
  have logged := ordered.logged active
  have empty : s.journal.currentTxn.blocks.isEmpty = false := by simpa using some
  have result := commit_fitting room active some size ticks
  -- the disk before the header is written
  have body : ∀ num, num < s.journal.header.startBlock + s.journal.header.tail ∨
      s.journal.header.startBlock + s.journal.header.numBlocks ≤ num →
      applyAll (bodyWrites s ticks) s.disk num = s.disk num := fun num elsewhere =>
    body_elsewhere room elsewhere (List.Subset.refl _)
  have header : ∀ num, num ≠ journalStart →
      applyAll (bodyWrites s ticks ++ [(s.journal.journalStart,
        encodeHeader (advance s.journal.header s.journal.currentTxn.blocks.length))]) s.disk num =
      applyAll (bodyWrites s ticks) s.disk num := by
    intro num other
    rw [applyAll_append, ordered.place]
    exact Function.update_of_ne other _ _
  have stored := stored_written s.disk
    (s.journal.header.startBlock + s.journal.header.tail) ticks logged.few early logged.nums
  have older := chain_congr ordered.chain fun num low high =>
    (header num (by omega)).trans (body num (.inl high))
  have newest := stored_congr stored fun num low high => header num (by omega)
  unfold Logging.perform
  dsimp only
  rw [result]
  have advanced : Shaped journalStart numBlocks
      (advance s.journal.header s.journal.currentTxn.blocks.length) :=
    ⟨shape.magic, shape.version, shape.start, shape.size⟩
  refine { ordered with
    shape := advanced, onDisk := ?onDisk, fits := room, chain := ?chain, homes := ?homes
    logged := ?logged, frame := ?frame }
  case onDisk =>
    refine ⟨s.journal.header.sequence % 256 ^ 8, ?_⟩
    rw [applyAll_append, ordered.place]
    refine Eq.trans ?_ (decode_shaped advanced size begins head room)
    congr 1
    exact Function.update_self _ _ _
  case chain =>
    dsimp only [pending, Journal.close]
    rw [active, empty]
    exact chain_concat older newest
  case homes =>
    intro images member
    dsimp only [pending] at member
    rw [active, empty] at member
    rcases List.mem_append.mp member with old | new
    · exact ordered.homes images old
    · cases List.mem_singleton.mp new
      exact logged.homes
  case logged => exact fun busy => by cases busy
  case frame =>
    intro num outside
    dsimp only
    rw [header num (by omega), body num (by omega), ordered.frame num outside]

end

theorem step_ordered (fits : Fits journalStart numBlocks s op) (step : Logging.Step s op after) :
    Ordered journalStart numBlocks start after := by
  cases step
  cases op with
  | begin =>
    dsimp only [Logging.perform]
    unfold Journal.begin
    split
    · exact ordered
    split
    · exact ordered
    have none : Pending journalStart numBlocks [] :=
      ⟨Nat.zero_le _, by simp, by simp [HomesOutside]⟩
    have shape := ordered.shape
    exact { ordered with
      shape := ⟨shape.magic, shape.version, shape.start, shape.size⟩
      logged := fun _ => none }
  | logBlock num data =>
    dsimp only [Logging.perform]
    unfold Journal.logBlock
    split
    · exact ordered
    split
    · exact ordered
    next active full =>
      have busy : s.journal.currentTxn.active = true := by simpa using active
      exact ordered_idle ordered fun _ =>
        pending_setImage (ordered.logged busy) (Nat.not_le.mp full) data fits
  | commit ticks =>
    by_cases busy : s.journal.currentTxn.active = true ∧ s.journal.currentTxn.blocks ≠ []
    · obtain ⟨room, early⟩ := fits busy.1 busy.2
      exact commit_ordered ordered room busy.1 busy.2 early
    · obtain ⟨none, txn, done, closed, result⟩ := commit_idle busy ticks served s.disk
      dsimp only [Logging.perform]
      rw [result, none, List.append_nil]
      exact ordered_idle ordered fun active => by simp [closed] at active
  | abort => exact ordered_idle ordered fun active => by cases active

/-- The writes of an operation, the last one left out, stay in the unused part. -/
theorem interrupted_elsewhere (fits : Fits journalStart numBlocks s op)
    (within : k < (blockWrites s op).length)
    (elsewhere : num < journalStart + 1 + s.journal.header.tail ∨ journalStart + numBlocks ≤ num) :
    applyAll ((blockWrites s op).take k) s.disk num = s.disk num := by
  cases op with
  | commit ticks =>
    by_cases busy : s.journal.currentTxn.active = true ∧ s.journal.currentTxn.blocks ≠ []
    · obtain ⟨room, _⟩ := fits busy.1 busy.2
      have result := commit_fitting room busy.1 busy.2 (ordered_bounds ordered).1 ticks
      have first := ordered.shape.start
      have size := ordered.shape.size
      dsimp only [blockWrites] at within ⊢
      rw [result] at within ⊢
      rw [List.length_append, List.length_singleton] at within
      rw [List.take_append_of_le_length (Nat.lt_succ_iff.mp within)]
      exact body_elsewhere room (by omega) (List.take_subset k _)
    · obtain ⟨_, txn, done, _, result⟩ := commit_idle busy ticks served s.disk
      dsimp only [blockWrites] at within
      rw [result] at within
      cases within
  | _ => cases within

theorem crash_restored (j : Journal)
    (trace : Trace (Guarded (Fits journalStart numBlocks) Logging.Step) s history)
    (crash : CrashPoint s history disk committed) :
    Restored journalStart numBlocks committed start
      (openJournal served j journalStart numBlocks disk).2 := by
  induction crash with
  | during k within =>
    exact ordered_restored ordered j fun num elsewhere =>
      interrupted_elsewhere ordered trace.1.1 within elsewhere
  | later _ ih => exact ih (step_ordered ordered trace.1.1 trace.1.2) trace.2
  | finished => exact ordered_restored ordered j fun _ _ => rfl

/-- A transaction written over the first one of the chain takes its place there. -/
theorem restart_ordered (active : s.journal.currentTxn.active = true)
    (front : s.journal.header.head = 0) (earlier : s.committed = first :: rest)
    (alike : s.journal.currentTxn.blocks.length = first.length)
    (early : s.journal.currentTxn.sequence < 2 ^ 32) (ticks : Nat) :
    Ordered journalStart numBlocks start { s with
        disk := applyAll (transactionWrites s.disk s.journal.header.startBlock
          s.journal.currentTxn ticks) s.disk
        committed := s.journal.currentTxn.blocks :: rest } := by
  have logged := ordered.logged active
  have chain := ordered.chain
  rw [earlier, front] at chain
  have bound := chain_bound chain.2
  have fits := ordered.fits
  have begins := ordered.shape.start
  have size := ordered.shape.size
  have kept : ∀ num, num < s.journal.header.startBlock ∨
      s.journal.header.startBlock + first.length + 2 ≤ num →
      applyAll (transactionWrites s.disk s.journal.header.startBlock s.journal.currentTxn ticks)
        s.disk num = s.disk num := by
    intro num elsewhere
    apply applyAll_other
    intro write member
    have bounds := transactionWrites_bounds member
    omega
  refine { ordered with onDisk := ?onDisk, chain := ?chain, homes := ?homes, frame := ?frame }
  case onDisk =>
    dsimp only
    rw [kept journalStart (by omega)]
    exact ordered.onDisk
  case chain =>
    dsimp only
    rw [front]
    refine ⟨stored_written s.disk _ ticks logged.few early logged.nums, ?_⟩
    rw [alike]
    exact chain_congr chain.2 fun num low high => kept num (by omega)
  case homes =>
    intro images member
    rcases List.mem_cons.mp member with same | old
    · rw [same]
      exact logged.homes
    · exact ordered.homes images (by rw [earlier]; exact .tail _ old)
  case frame =>
    intro num outside
    dsimp only
    rw [kept num (by omega), ordered.frame num outside]

end

/-- However the journal was used and wherever it crashed, the next mount restores the
last image of every block from the transactions whose commit was complete. -/
theorem fitting_runs_restored {start : Logging}
    {committed : List Images} (j : Journal) (opened : Opened journalStart numBlocks start)
    (trace : Trace (Guarded (Fits journalStart numBlocks) Logging.Step) start history)
    (crash : CrashPoint start history disk committed) :
    Restored journalStart numBlocks committed start.disk
      (openJournal served j journalStart numBlocks disk).2 :=
  crash_restored (opened_ordered opened) j trace crash

end

variable {ops last : List Op}

theorem foldl_ordered (ordered : Ordered journalStart numBlocks start s)
    (trace : Trace (Guarded (Fits journalStart numBlocks) Logging.Step) s
      (historyOf Logging.perform s ops)) :
    Ordered journalStart numBlocks start (ops.foldl Logging.perform s) := by
  induction ops generalizing s with
  | nil => exact ordered
  | cons op rest ih => exact ih (step_ordered ordered trace.1.1 trace.1.2) trace.2

theorem foldl_crash (crash : CrashPoint (ops.foldl Logging.perform s)
      (historyOf Logging.perform (ops.foldl Logging.perform s) last) disk committed) :
    CrashPoint s (historyOf Logging.perform s (ops ++ last)) disk committed := by
  induction ops generalizing s with
  | nil => exact crash
  | cons op rest ih => exact CrashPoint.later (ih crash)

def blankLogging : Logging :=
  let result := unopened.init 100 16 served ⟨fun _ _ => 0, []⟩
  ⟨result.2.1, result.2.2.disk, []⟩

theorem blankLogging_opened : Opened 100 16 blankLogging :=
  init_opened unopened (by decide) (by decide) (by decide)

def image (byte : UInt8) : Block := fun _ => byte

def twoTransactions : List Op :=
  [.begin, .logBlock 5 (image 1), .commit 0, .begin, .logBlock 5 (image 2)]

def beforeSecond : Logging := twoTransactions.foldl Logging.perform blankLogging

/-- A crash inside the second commit, behind its descriptor and its image. -/
theorem second_commit_undone : Opened 100 16 blankLogging ∧
      2 < (blockWrites beforeSecond (.commit 0)).length ∧
      Restored 100 16 [[(5, image 1)]] blankLogging.disk (openJournal served unopened 100 16
        (applyAll ((blockWrites beforeSecond (.commit 0)).take 2) beforeSecond.disk)).2 := by
  have within : 2 < (blockWrites beforeSecond (.commit 0)).length := by
    decide
  have crash : CrashPoint blankLogging
      (historyOf Logging.perform blankLogging (twoTransactions ++ [.commit 0]))
      (applyAll ((blockWrites beforeSecond (.commit 0)).take 2) beforeSecond.disk)
      [[(5, image 1)]] :=
    foldl_crash (.during 2 within)
  refine ⟨blankLogging_opened, within,
    fitting_runs_restored unopened blankLogging_opened ?_ crash⟩
  exact ⟨⟨trivial, rfl⟩, ⟨.inl (by decide), rfl⟩, ⟨fun _ _ => by decide, rfl⟩, ⟨trivial, rfl⟩,
    ⟨.inl (by decide), rfl⟩, ⟨fun _ _ => by decide, rfl⟩, trivial⟩

def logTwo (first second : UInt64) (byte : UInt8) : List Op :=
  [.begin, .logBlock first (image byte), .logBlock second (image byte)]

def threeCommits : List Op :=
  logTwo 1 2 10 ++ .commit 0 :: logTwo 1 3 20 ++ .commit 0 :: logTwo 1 3 30 ++ [.commit 0]

def beforeRestart : Logging := (threeCommits ++ logTwo 1 2 40).foldl Logging.perform blankLogging

theorem beforeRestart_ordered : Ordered 100 16 blankLogging.disk beforeRestart := by
  have room : ∀ {n : Nat}, n < 100 → n < 100 ∨ 116 ≤ n := .inl
  exact foldl_ordered (opened_ordered blankLogging_opened)
    ⟨⟨trivial, rfl⟩, ⟨room (by decide), rfl⟩, ⟨room (by decide), rfl⟩,
      ⟨fun _ _ => by decide, rfl⟩, ⟨trivial, rfl⟩, ⟨room (by decide), rfl⟩,
      ⟨room (by decide), rfl⟩, ⟨fun _ _ => by decide, rfl⟩, ⟨trivial, rfl⟩,
      ⟨room (by decide), rfl⟩, ⟨room (by decide), rfl⟩, ⟨fun _ _ => by decide, rfl⟩,
      ⟨trivial, rfl⟩, ⟨room (by decide), rfl⟩, ⟨room (by decide), rfl⟩, trivial⟩

def restarting : Images := [(1, image 40), (2, image 40)]
def complete : List Images :=
  [[(1, image 10), (2, image 10)], [(1, image 20), (3, image 20)], [(1, image 30), (3, image 30)]]

/-- The fourth transaction, written over the first, all but its header. -/
def restartDisk : Disk :=
  applyAll (transactionWrites beforeRestart.disk beforeRestart.journal.header.startBlock
    beforeRestart.journal.currentTxn 0) beforeRestart.disk

def rewound (header : JournalHeader) : JournalHeader := { header with head := 0, tail := 0 }

theorem beforeRestart_rewinds :
    reclaim beforeRestart.journal.header 2 = rewound beforeRestart.journal.header := by
  unfold reclaim
  exact if_pos (by decide)

theorem restartDisk_crash : CrashPoint blankLogging
      (historyOf Logging.perform blankLogging ((threeCommits ++ logTwo 1 2 40) ++ [.commit 0]))
      restartDisk complete := by
  have some : beforeRestart.journal.currentTxn.blocks ≠ [] := List.cons_ne_nil _ _
  have result := commit_served 0 beforeRestart.disk rfl some beforeRestart_rewinds
  let body := transactionWrites beforeRestart.disk beforeRestart.journal.header.startBlock
    beforeRestart.journal.currentTxn 0
  let last := (beforeRestart.journal.journalStart,
    encodeHeader (advance (rewound beforeRestart.journal.header) 2))
  have writes : blockWrites beforeRestart (.commit 0) = body ++ [last] := by
    rw [blockWrites, result]
    rfl
  have five : body.length = 5 := rfl
  have within : 5 < (blockWrites beforeRestart (.commit 0)).length := by
    decide
  have taken : (blockWrites beforeRestart (.commit 0)).take 5 = body := by
    rw [writes, ← five, List.take_left]
  have crash := @CrashPoint.during beforeRestart (beforeRestart.perform (.commit 0)) _ [] 5 within
  rw [taken] at crash
  exact foldl_crash crash

/-- A transaction that makes the journal start over, cut off before the header is
written: it took effect on block 2 but its image of block 1 is overwritten by an older
one, so that neither with it nor without it the disk is as it should be. -/
theorem restart_mixes_transactions : Opened 100 16 blankLogging ∧ Trace Logging.Step blankLogging
        (historyOf Logging.perform blankLogging ((threeCommits ++ logTwo 1 2 40) ++ [.commit 0])) ∧
      CrashPoint blankLogging
        (historyOf Logging.perform blankLogging ((threeCommits ++ logTwo 1 2 40) ++ [.commit 0]))
        restartDisk complete ∧
      ¬ Restored 100 16 complete blankLogging.disk (openJournal served unopened 100 16 restartDisk).2 ∧
      ¬ Restored 100 16 (complete ++ [restarting]) blankLogging.disk
        (openJournal served unopened 100 16 restartDisk).2 := by
  have earlier : beforeRestart.committed = complete := rfl
  have ordered := restart_ordered beforeRestart_ordered rfl rfl earlier rfl (by decide) 0
  have seen : Restored 100 16 (restarting :: complete.tail) blankLogging.disk
      (openJournal served unopened 100 16 restartDisk).2 :=
    ordered_restored ordered unopened fun _ _ => rfl
  have images : ∀ {left right : UInt8}, left ≠ right → image left ≠ image right :=
    fun different same => different (congrFun same 0)
  have first : _ = image 30 := seen 1 (.inl (by decide))
  have second : _ = image 40 := seen 2 (.inl (by decide))
  refine ⟨blankLogging_opened, historyOf_trace (fun s op (_ : true = true) => perform_step s op)
    rfl, restartDisk_crash, ?_, ?_⟩
  · intro restored
    have wanted : _ = image 10 := restored 2 (.inl (by decide))
    exact images (by decide) (wanted.symm.trans second)
  · intro restored
    have wanted : _ = image 40 := restored 1 (.inl (by decide))
    exact images (by decide) (wanted.symm.trans first)

end ViperDos.ViperFs
