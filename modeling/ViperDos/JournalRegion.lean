import ViperDos.Remounting

/-!
The blocks of the journal against the other parts of a volume. A mount puts the journal in
the last sixteen blocks. The last of them is the backup superblock, the bitmap does not know
about any of them, and a transaction may have more blocks than there are. So there is no
volume with a journal on which the journal and the rest keep apart.
-/

namespace ViperDos.ViperFs

open ByteRecords Transition

variable {fs after : FileSystem}

def InRegion (fs : FileSystem) (num : Nat) : Prop :=
  fs.journal.enabled = true ∧
    ∃ i < journalBlocks, num % 2 ^ 64 = (fs.journal.journalStart + i) % 2 ^ 64

/-- Whatever transactions are made, the journal writes to its own blocks, and these are neither
the backup superblock nor given to files. -/
structure Apart (fs : FileSystem) : Prop where
  inside : ∀ ops s op, Run Logging.Step ⟨fs.journal, fs.vol.disk, []⟩ ops s →
    ∀ write ∈ blockWrites s op, InRegion fs write.1
  backup : 0 < fs.vol.sb.backupLocation → ¬ InRegion fs fs.vol.sb.backupLocation
  unallocated : ∀ history later env, Run FileSystem.Step fs history later →
    (allocBlock env later.vol).1 ≠ 0 → ¬ InRegion fs (allocBlock env later.vol).1

variable {before : JournalHeader} {s start : Logging} {num count i j : Nat} {env : Env}
  {ops : List Op}

theorem commit_ends (active : s.journal.currentTxn.active = true)
    (some : s.journal.currentTxn.blocks ≠ [])
    (here : reclaim s.journal.header s.journal.currentTxn.blocks.length = before) (ticks : Nat) :
    (∃ write ∈ blockWrites s (.commit ticks), write.1 = before.startBlock + before.tail) ∧
      ∃ write ∈ blockWrites s (.commit ticks),
        write.1 = before.startBlock + before.tail + 1 + s.journal.currentTxn.blocks.length := by
  have committed := commit_served ticks s.disk active some here
  simp only [blockWrites, committed, transactionWrites, leadingWrites, closingWrites]
  constructor
  · exact ⟨_, .head _, rfl⟩
  · refine ⟨_, List.mem_append_left _ (List.mem_append_right _ (.head _)), rfl⟩

def logMany (count : Nat) : List Op :=
  (List.range count).map fun i => .logBlock (UInt64.ofNat i) fun _ => 0

theorem setImage_new {images : Images} (unlogged : num ∉ images.map Prod.fst) (data : Block) :
    setImage num data images = images ++ [(num, data)] := by
  induction images with
  | nil => rfl
  | cons image rest ih =>
    rw [List.map_cons, List.mem_cons, not_or] at unlogged
    rw [setImage, if_neg fun same => unlogged.1 same.symm, ih unlogged.2]
    rfl

theorem logMany_logged (active : s.journal.currentTxn.active = true)
    (empty : s.journal.currentTxn.blocks = []) (few : count ≤ maxJournalBlocks) :
    ((logMany count).foldl Logging.perform s).journal.currentTxn.active = true ∧
      ((logMany count).foldl Logging.perform s).journal.currentTxn.blocks.map Prod.fst = List.range count := by
  induction count with
  | zero => exact ⟨active, by rw [logMany]; exact congrArg (List.map Prod.fst) empty⟩
  | succ count ih =>
    obtain ⟨still, logged⟩ := ih (by omega)
    have short : ((logMany count).foldl Logging.perform s).journal.currentTxn.blocks.length = count := by
      rw [← List.length_map, logged, List.length_range]
    have small : (UInt64.ofNat count).toNat = count := by
      rw [UInt64.toNat_ofNat', Nat.mod_eq_of_lt]
      unfold maxJournalBlocks at few
      omega
    have more : logMany (count + 1) =
        logMany count ++ [.logBlock (UInt64.ofNat count) fun _ => 0] := by
      rw [logMany, List.range_succ, List.map_append]
      rfl
    have unlogged : count ∉ ((logMany count).foldl Logging.perform s).journal.currentTxn.blocks.map Prod.fst := by
      rw [logged]
      exact List.not_mem_range_self
    rw [more, List.foldl_append, List.foldl_cons, List.foldl_nil, Logging.perform, Journal.logBlock, still, short,
      small, setImage_new unlogged]
    simp [still, logged, List.range_succ, Nat.not_le.mpr few]

/-- An open journal can be brought to hold a transaction of any size that it accepts. -/
theorem transaction_logged (enabled : start.journal.enabled = true)
    (idle : start.journal.currentTxn.active = false) (few : count ≤ maxJournalBlocks) :
    ∃ ops s, Run Logging.Step start ops s ∧ s.journal.currentTxn.active = true ∧
      s.journal.currentTxn.blocks.length = count := by
  have begun : (start.perform .begin).journal.currentTxn.active = true ∧
      (start.perform .begin).journal.currentTxn.blocks = [] := by
    simp [Logging.perform, Journal.begin, enabled, idle]
  obtain ⟨active, logged⟩ := logMany_logged begun.1 begun.2 few
  refine ⟨.begin :: logMany count, _, Run.next rfl (run_foldl perform_step _ _), active, ?_⟩
  rw [← List.length_map, logged, List.length_range]

theorem far_apart {start : Nat} (below : i < journalBlocks) (below' : j < journalBlocks)
    (here : num % 2 ^ 64 = (start + i) % 2 ^ 64) :
    (num + 1 + 15) % 2 ^ 64 ≠ (start + j) % 2 ^ 64 := by
  unfold journalBlocks at below below'
  omega

/-- Some transaction that the journal accepts does not fit into sixteen blocks, wherever they
are. -/
theorem oversized (enabled : fs.journal.enabled = true)
    (idle : fs.journal.currentTxn.active = false) :
    ∃ ops s op, Run Logging.Step ⟨fs.journal, fs.vol.disk, []⟩ ops s ∧
      ∃ write ∈ blockWrites s op, ¬ InRegion fs write.1 := by
  have few : 15 ≤ maxJournalBlocks := by decide
  obtain ⟨ops, s, run, active, long⟩ : ∃ ops s,
      Run Logging.Step ⟨fs.journal, fs.vol.disk, []⟩ ops s ∧
        s.journal.currentTxn.active = true ∧ s.journal.currentTxn.blocks.length = 15 :=
    transaction_logged enabled idle few
  have some : s.journal.currentTxn.blocks ≠ [] := by
    intro none
    rw [none] at long
    cases long
  obtain ⟨⟨first, member, front⟩, last, member', back⟩ := commit_ends active some rfl 0
  rw [long] at front back
  by_cases inside : InRegion fs first.1
  · refine ⟨ops, s, .commit 0, run, last, member', ?_⟩
    rintro ⟨_, j, below', there⟩
    obtain ⟨_, i, below, here⟩ := inside
    rw [front] at here
    rw [back] at there
    exact far_apart below below' here there
  · exact ⟨ops, s, .commit 0, run, first, member, inside⟩

theorem init_idle {j : Journal} (idle : j.currentTxn.active = false) (closed : j.enabled = false)
    (journalStart numBlocks : Nat) (answers : Nat → Answer) (dev : Device) :
    (j.init journalStart numBlocks answers dev).2.1.currentTxn.active = false ∧
      ((j.init journalStart numBlocks answers dev).2.1.enabled = true →
        (j.init journalStart numBlocks answers dev).2.1.journalStart = journalStart) := by
  unfold Journal.init
  split
  · exact ⟨idle, fun enabled => by rw [closed] at enabled; cases enabled⟩
  dsimp only
  split
  · exact ⟨idle, fun _ => rfl⟩
  split
  · exact ⟨rfl, fun _ => rfl⟩
  split
  next refused =>
    exact ⟨idle, fun _ => rfl⟩
  · exact ⟨rfl, fun _ => rfl⟩

theorem replay_txn (j : Journal) (disk : Disk) :
    (j.replay disk).1.currentTxn = j.currentTxn ∧ (j.replay disk).1.enabled = j.enabled ∧
      (j.replay disk).1.journalStart = j.journalStart := by
  unfold Journal.replay
  split
  · exact ⟨rfl, rfl, rfl⟩
  dsimp only
  split <;> exact ⟨rfl, rfl, rfl⟩

/-- After the first mount no transaction is open, and a journal that was set up is in the last
blocks of the volume. -/
theorem mount_idle (mounts : mount env fs = (true, after)) (first : fs.journal = unopened) :
    after.journal.currentTxn.active = false ∧
      (after.journal.enabled = true → after.journal.journalStart = journalStartOf after.vol.sb) := by
  unfold mount at mounts
  split at mounts
  · cases mounts
  next sb disk found =>
  dsimp only at mounts
  split at mounts
  · cases mounts
    rw [first]
    have opened := init_idle (j := unopened) rfl rfl (journalStartOf sb) journalBlocks
      env.answers ⟨disk, []⟩
    unfold openJournal
    split
    next result =>
      rw [result] at opened
      exact opened
    next j dev result =>
    rw [result] at opened
    obtain ⟨txn, enabled, place⟩ := replay_txn j dev.disk
    rw [txn, enabled, place]
    exact opened
  · cases mounts
    rw [first]
    exact ⟨rfl, fun enabled => nomatch enabled⟩

theorem closed_writes (closed : start.journal.enabled = false)
    (idle : start.journal.currentTxn.active = false) (run : Run Logging.Step start ops s)
    (op : Op) : blockWrites s op = [] := by
  have keeps : ∀ (before : Logging) (made : Op) (next : Logging),
      before.journal.enabled = false ∧ before.journal.currentTxn.active = false →
      Logging.Step before made next →
      next.journal.enabled = false ∧ next.journal.currentTxn.active = false := by
    rintro before made next ⟨off, none⟩ rfl
    cases made with
    | begin => simp [Logging.perform, Journal.begin, off, none]
    | logBlock num data => simp [Logging.perform, Journal.logBlock, off, none]
    | commit ticks => simp [Logging.perform, Journal.commit, off, none]
    | abort => simp [Logging.perform, Journal.abort, off]
  obtain ⟨_, none⟩ := run_invariant keeps run ⟨closed, idle⟩
  cases op with
  | commit ticks => simp [blockWrites, Journal.commit, none]
  | begin => rfl
  | logBlock num data => rfl
  | abort => rfl

/-- On every volume, the journal and the rest keep apart only if there is no journal. -/
theorem journal_apart_iff (mounts : mount env fs = (true, after)) (first : fs.journal = unopened) :
    Apart after ↔ after.journal.enabled = false := by
  have idle := (mount_idle mounts first).1
  constructor
  · intro apart
    rw [← Bool.not_eq_true]
    intro enabled
    obtain ⟨ops, s, op, run, write, member, outside⟩ := oversized enabled idle
    exact outside (apart.inside ops s op run write member)
  · intro closed
    have empty : ∀ num, ¬ InRegion after num := by
      rintro num ⟨enabled, _⟩
      rw [closed] at enabled
      cases enabled
    refine ⟨?_, fun _ => empty _, fun _ _ _ _ _ => empty _⟩
    intro ops s op run write member
    rw [closed_writes closed idle run op] at member
    cases member

def newImage : FileSystem :=
  ⟨true, ⟨⟨fun _ => 0⟩, (Mkfs.makeImage 1 5).getD fun _ _ => 0, false⟩, unopened, fun _ _ => 0⟩

theorem new_image_apart_iff : (mount quietEnv newImage).1 = true ∧ newImage.journal = unopened ∧
      (Apart (mount quietEnv newImage).2 ↔
        (mount quietEnv newImage).2.journal.enabled = false) := by
  have mounts : (mount quietEnv newImage).1 = true := by decide
  exact ⟨mounts, rfl, journal_apart_iff (Prod.ext mounts rfl) rfl⟩

/-- The journal of the image is in blocks 240 to 255. The last is the backup superblock, and
none is reserved in the bitmap. -/
theorem new_image_shares_journal :
    firstMount.journal.journalStart = 240 ∧ firstMount.vol.sb.backupLocation = 255 ∧
      ((List.range 16).all fun i =>
        !hasBit (firstMount.vol.disk firstMount.vol.sb.bitmapStart ((240 + i) / 8))
          ((240 + i) % 8)) = true ∧
      ¬ Apart firstMount := by
  have state : firstMount.journal.journalStart = 240 ∧ firstMount.vol.sb.backupLocation = 255 ∧
      firstMount.journal.enabled = true := by
    decide +kernel
  obtain ⟨place, backup, enabled⟩ := state
  refine ⟨place, backup, by decide +kernel, fun apart => apart.backup (by rw [backup]; decide) ?_⟩
  refine ⟨enabled, 15, by decide, ?_⟩
  rw [place, backup]

end ViperDos.ViperFs
