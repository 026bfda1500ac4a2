import ViperDos.Mkfs
import ViperDos.Pointers
import ViperDos.VolumeFrame
import ViperDos.JournalCrash
import Mathlib.Data.List.Basic
import Mathlib.Tactic.MkIffOfInductiveProp

/-!
Unmounting and mounting again. With nothing in the journal only the superblock, its
backup and the header of the journal are written, and the replay at the next mount does
nothing. A file that was created since the last mount leaves a transaction in the
journal with the inode's block as it was before, and the mount brings that back.
-/

namespace ViperDos.ViperFs

open ByteRecords Crc32 WriteLog Transition Function

structure Env.Serves (env : Env) : Prop where
  reads : env.Reads
  answers : ∀ i, env.answers i = .written

variable {len offset width num journalStart ino : Nat} {left right : Bytes} {env : Env}
  {fs after : FileSystem} {answers : Nat → Answer} {disk start diskAfter : Disk}
  {header : JournalHeader} {committed : List Images} {sb : Superblock} {dir : Inode}
  {name : List UInt8} {label : Env × FsOp} {j : Journal}

theorem crc32Update_congr (same : ∀ i, i < len → left i = right i) (crc : UInt32) :
    crc32Update crc left len = crc32Update crc right len := by
  apply List.foldl_ext
  intro crc i member
  rw [same i (List.mem_range.mp member)]

/-- The checksum does not depend on the field that holds it. -/
theorem crc_setChecksum (sb : Superblock) (value : Nat) : (sb.setChecksum value).crc = sb.crc := by
  have outside : ∀ i, i < 168 ∨ 172 ≤ i →
      (sb.setChecksum value).bytes i = sb.bytes i := fun i apart =>
    putLE_outside 4 sb.bytes value apart
  have front := crc32Update_congr (fun i (low : i < 168) => outside i (.inl low)) 0xFFFFFFFF
  have back := fun crc => crc32Update_congr
    (fun i (_ : i < 4096 - 168 - 4) => outside (168 + 4 + i) (.inr (by omega))) crc
  unfold Superblock.crc crc32Superblock superblockChecksumOffset
  dsimp only at back ⊢
  rw [front, back]

theorem sealed_crc (sb : Superblock) : sb.sealed.crc = sb.sealed.checksum := by
  have small : (sb.setChecksum 0).crc < 256 ^ 4 := UInt32.toNat_lt _
  have stored : sb.sealed.checksum = (sb.setChecksum 0).crc := by
    unfold Superblock.sealed Superblock.checksum
    rw [Superblock.setChecksum, getLE_putLE, Nat.mod_eq_of_lt small]
  rw [stored, Superblock.sealed, crc_setChecksum]

theorem sealed_getLE (sb : Superblock) (apart : offset + width ≤ 168) :
    getLE width sb.sealed.bytes offset = getLE width sb.bytes offset := by
  unfold Superblock.sealed Superblock.setChecksum
  rw [getLE_putLE_apart _ _ (.inl apart), getLE_putLE_apart _ _ (.inl apart)]

theorem sealed_valid (magic : sb.magic = viperfsMagic)
    (version : sb.version = viperfsVersion) : sb.sealed.valid = true := by
  have magic' : sb.sealed.magic = viperfsMagic := (sealed_getLE sb (by omega)).trans magic
  have version' : sb.sealed.version = viperfsVersion := (sealed_getLE sb (by omega)).trans version
  simp [Superblock.valid, magic', version', sealed_crc]

section

variable (fs : FileSystem)

def Journaled : Prop :=
  fs.system = true ∧ fs.vol.sb.dataStart < journalStartOf fs.vol.sb

instance (fs : FileSystem) : Decidable (Journaled fs) := inferInstanceAs (Decidable (_ ∧ _))

@[mk_iff] structure Attached : Prop where
  mounted : fs.vol.mounted = true
  magic : fs.vol.sb.magic = viperfsMagic
  version : fs.vol.sb.version = viperfsVersion
  wide : 2 ≤ fs.vol.sb.totalBlocks
  journal : Journaled fs → fs.journal.enabled = true ∧
    fs.journal.journalStart = journalStartOf fs.vol.sb ∧
    fs.journal.header.magic = journalMagic ∧ fs.journal.header.version = 1
  unused : fs.system = true → ¬ Journaled fs → fs.journal.enabled = false

structure Idle : Prop extends Attached fs where
  empty : Journaled fs → fs.journal.header.head = fs.journal.header.tail

def Rewritten (num : Nat) : Prop :=
  num = superblockPrimary ∨ num = fs.vol.sb.totalBlocks - 1 ∨
    (Journaled fs ∧ num = journalStartOf fs.vol.sb)

instance (fs : FileSystem) (num : Nat) : Decidable (Rewritten fs num) :=
  inferInstanceAs (Decidable (_ ∨ _ ∨ _))

structure Clear : Prop where
  table : ∀ ino < fs.vol.sb.inodeCount, ¬ Rewritten fs (inodeBlock fs.vol.sb ino)
  files : ∀ ino < fs.vol.sb.inodeCount, (inodeAt fs.vol.sb fs.vol.disk ino).mode ≠ 0 →
    ∀ slot, slotValue fs.vol.disk (inodeAt fs.vol.sb fs.vol.disk ino) slot ≠ 0 →
      ¬ Rewritten fs (slotValue fs.vol.disk (inodeAt fs.vol.sb fs.vol.disk ino) slot)

end

/-- Every inode is the same, and every read of a file or directory gives the same. -/
structure SameFiles (before after : Volume) : Prop where
  mounted : after.mounted = true
  inodes : ∀ ino < before.sb.inodeCount,
    inodeAt after.sb after.disk ino = inodeAt before.sb before.disk ino
  contents : ∀ ino < before.sb.inodeCount, (inodeAt before.sb before.disk ino).mode ≠ 0 →
    ∀ env : Env, env.Reads → ∀ offset buf len,
      readData env after (inodeAt before.sb before.disk ino) offset buf len =
        readData env before (inodeAt before.sb before.disk ino) offset buf len

def remount (leaving entering : Env) (fs : FileSystem) : FileSystem :=
  (mount entering (unmount leaving fs)).2

theorem journalStartOf_sealed (sb : Superblock) :
    sb.sealed.totalBlocks = sb.totalBlocks ∧ sb.sealed.dataStart = sb.dataStart ∧
      journalStartOf sb.sealed = journalStartOf sb := by
  have total : sb.sealed.totalBlocks = sb.totalBlocks := sealed_getLE sb (by omega)
  exact ⟨total, sealed_getLE sb (by omega), by rw [journalStartOf, total, journalStartOf]⟩

def withSuperblock (vol : Volume) : Disk :=
  update (update vol.disk superblockPrimary vol.sb.sealed.bytes)
    (vol.sb.totalBlocks - 1) vol.sb.sealed.bytes

theorem writeSuperblock_disk {vol : Volume} (reads : env.Reads) (wide : 2 ≤ vol.sb.totalBlocks) :
    writeSuperblockWithBackup env vol =
      { vol with sb := vol.sb.sealed, disk := withSuperblock vol } := by
  have total := (journalStartOf_sealed vol.sb).1
  have backup : vol.sb.sealed.backupLocation = vol.sb.totalBlocks - 1 := by
    unfold Superblock.backupLocation
    rw [total, if_neg (by omega)]
  have positive : 0 < vol.sb.totalBlocks - 1 := by omega
  unfold writeSuperblockWithBackup
  simp only [writeIfReadable, reads _, if_true, Volume.write, backup, positive, withSuperblock]

def unmountedDisk (fs : FileSystem) : Disk :=
  if Journaled fs then
    update (withSuperblock fs.vol) (journalStartOf fs.vol.sb)
      (encodeHeader fs.journal.header)
  else withSuperblock fs.vol

section

variable {leaving entering : Env}

theorem unmount_vol (serves : leaving.Serves) (attached : Attached fs) :
    (unmount leaving fs).vol = ⟨fs.vol.sb.sealed, unmountedDisk fs, false⟩ ∧
      (unmount leaving fs).system = fs.system := by
  have written := writeSuperblock_disk serves.reads attached.wide
  unfold unmount unmountedDisk
  rw [attached.mounted, written]
  cases system : fs.system with
  | false =>
    have apart : ¬ Journaled fs := fun journaled => by simp [Journaled, system] at journaled
    simp [apart, withSuperblock]
  | true =>
    by_cases journaled : Journaled fs
    · obtain ⟨enabled, place, _⟩ := attached.journal journaled
      simp [journaled, Journal.sync, enabled, Journal.writeHeader, serves.answers 0, syncBlock,
        place, withSuperblock]
    · have disabled := attached.unused system journaled
      simp [journaled, Journal.sync, disabled, withSuperblock]

theorem unmountedDisk_primary (attached : Attached fs) :
    unmountedDisk fs superblockPrimary = fs.vol.sb.sealed.bytes := by
  have wide := attached.wide
  have backup : superblockPrimary ≠ fs.vol.sb.totalBlocks - 1 := by
    unfold superblockPrimary
    omega
  have written : withSuperblock fs.vol superblockPrimary = fs.vol.sb.sealed.bytes := by
    unfold withSuperblock
    rw [update_of_ne backup, update_self]
  unfold unmountedDisk
  split
  next journaled =>
    have later : superblockPrimary ≠ journalStartOf fs.vol.sb :=
      Nat.ne_of_lt (Nat.lt_of_le_of_lt (Nat.zero_le _) journaled.2)
    rw [update_of_ne later, written]
  · exact written

theorem unmountedDisk_header (journaled : Journaled fs) :
    unmountedDisk fs (journalStartOf fs.vol.sb) = encodeHeader fs.journal.header := by
  unfold unmountedDisk
  rw [if_pos journaled, update_self]

theorem unmountedDisk_other (apart : ¬ Rewritten fs num) :
    unmountedDisk fs num = fs.vol.disk num := by
  have primary : num ≠ superblockPrimary := fun same => apart (.inl same)
  have backup : num ≠ fs.vol.sb.totalBlocks - 1 := fun same => apart (.inr (.inl same))
  have written : withSuperblock fs.vol num = fs.vol.disk num := by
    unfold withSuperblock
    rw [update_of_ne backup, update_of_ne primary]
  unfold unmountedDisk
  split
  next journaled =>
    have header : num ≠ journalStartOf fs.vol.sb :=
      fun same => apart (.inr (.inr ⟨journaled, same⟩))
    rw [update_of_ne header, written]
  · exact written

/-- A journal without transactions is opened without a change to the disk. -/
theorem openJournal_empty (met : ∀ i, answers i = .written) (j : Journal)
    (found : disk journalStart = encodeHeader header) (magic : header.magic = journalMagic)
    (version : header.version = 1) (empty : header.head = header.tail) :
    (openJournal answers j journalStart journalBlocks disk).2 = disk := by
  have decoded := decodeHeader_encodeHeader header
  rw [← found, magic, version] at decoded
  have magic' : (decodeHeader (disk journalStart)).magic = journalMagic := by
    rw [decoded]
    rfl
  have version' : (decodeHeader (disk journalStart)).version = 1 := by
    rw [decoded]
    rfl
  have empty' : (decodeHeader (disk journalStart)).head = (decodeHeader (disk journalStart)).tail := by
    rw [decoded, empty]
  have idle : ∀ fuel, replayLoop (decodeHeader (disk journalStart)) fuel
      (decodeHeader (disk journalStart)).head (0, 0) disk = ((0, 0), disk) := by
    intro fuel
    cases fuel with
    | zero => rfl
    | succ fuel => rw [replayLoop, if_pos (.inl empty')]
  unfold openJournal Journal.init
  simp [met, magic', version', Journal.enable, Journal.replay, idle, journalBlocks]

def remountedDisk (answers : Nat → Answer) (fs after : FileSystem) : Disk :=
  if Journaled fs then
    (openJournal answers after.journal (journalStartOf fs.vol.sb) journalBlocks
      (unmountedDisk fs)).2
  else unmountedDisk fs

theorem mount_unmounted (serves : entering.Serves) (attached : Attached fs)
    (vol : after.vol = ⟨fs.vol.sb.sealed, unmountedDisk fs, false⟩)
    (system : after.system = fs.system) :
    (mount entering after).2.vol =
      ⟨fs.vol.sb.sealed, remountedDisk entering.answers fs after, true⟩ := by
  obtain ⟨_, start, place⟩ := journalStartOf_sealed fs.vol.sb
  have valid := sealed_valid attached.magic attached.version
  have found : findSuperblock entering after.vol.disk =
      some (fs.vol.sb.sealed, unmountedDisk fs) := by
    unfold findSuperblock readAndValidateSuperblock
    rw [vol]
    dsimp only
    rw [unmountedDisk_primary attached]
    simp [serves.reads superblockPrimary, valid]
  unfold mount remountedDisk
  rw [found]
  dsimp only
  rw [system, start, place]
  split
  next here => rw [if_pos (show Journaled fs from here)]
  next here => rw [if_neg (show ¬ Journaled fs from here)]

section

variable (leaves : leaving.Serves) (enters : entering.Serves) (attached : Attached fs)
    (journaled : Journaled fs)

include leaves enters attached journaled

theorem remount_journaled :
    (remount leaving entering fs).vol.sb = fs.vol.sb.sealed ∧
      (remount leaving entering fs).vol.disk =
        (openJournal entering.answers (unmount leaving fs).journal (journalStartOf fs.vol.sb)
          journalBlocks (unmountedDisk fs)).2 := by
  obtain ⟨vol, system⟩ := unmount_vol leaves attached
  rw [remount, mount_unmounted enters attached vol system, remountedDisk, if_pos journaled]
  exact ⟨rfl, rfl⟩

theorem remount_restored (ordered : Ordered (journalStartOf fs.vol.sb) journalBlocks start
      ⟨fs.journal, fs.vol.disk, committed⟩)
    (short : journalStartOf fs.vol.sb + 1 + fs.journal.header.tail < fs.vol.sb.totalBlocks) :
    Restored (journalStartOf fs.vol.sb) journalBlocks committed (unmountedDisk fs)
      (remount leaving entering fs).vol.disk := by
  have same : ∀ num, journalStartOf fs.vol.sb < num →
      num < journalStartOf fs.vol.sb + 1 + fs.journal.header.tail →
      unmountedDisk fs num = fs.vol.disk num := by
    intro num low high
    refine unmountedDisk_other ?_
    unfold Rewritten superblockPrimary
    omega
  have answers : entering.answers = served := funext enters.answers
  rw [(remount_journaled leaves enters attached journaled).2, answers]
  exact ordered_restored (ordered_rewritten ordered (unmountedDisk_header journaled) same) _
    fun _ _ => rfl

end

theorem remountedDisk_idle (serves : entering.Serves) (idle : Idle fs) (after : FileSystem) :
    remountedDisk entering.answers fs after = unmountedDisk fs := by
  unfold remountedDisk
  split
  next journaled =>
    obtain ⟨_, _, magic, version⟩ := idle.journal journaled
    exact openJournal_empty serves.answers after.journal (unmountedDisk_header journaled) magic
      version (idle.empty journaled)
  · rfl

theorem inodeAt_congr {after : Superblock} (start : after.inodeTableStart = sb.inodeTableStart)
    (same : diskAfter (inodeBlock sb ino) = disk (inodeBlock sb ino)) :
    inodeAt after diskAfter ino = inodeAt sb disk ino := by
  unfold inodeAt inodeBlock at *
  rw [start, same]

theorem remount_sameFiles (leaves : leaving.Serves) (enters : entering.Serves) (idle : Idle fs)
    (clear : Clear fs) : SameFiles fs.vol (remount leaving entering fs).vol := by
  obtain ⟨vol, system⟩ := unmount_vol leaves idle.toAttached
  have mounted := mount_unmounted enters idle.toAttached vol system
  unfold remount
  rw [mounted, remountedDisk_idle enters idle]
  have table : fs.vol.sb.sealed.inodeTableStart = fs.vol.sb.inodeTableStart :=
    sealed_getLE _ (by omega)
  constructor
  case mounted => rfl
  case inodes =>
    intro ino inside
    exact inodeAt_congr table (unmountedDisk_other (clear.table ino inside))
  case contents =>
    intro ino inside used env reads offset buf len
    have same : ∀ slot, slotValue fs.vol.disk (inodeAt fs.vol.sb fs.vol.disk ino) slot ≠ 0 →
        unmountedDisk fs (slotValue fs.vol.disk (inodeAt fs.vol.sb fs.vol.disk ino) slot) =
          fs.vol.disk (slotValue fs.vol.disk (inodeAt fs.vol.sb fs.vol.disk ino) slot) :=
      fun slot some => unmountedDisk_other (clear.files ino inside used slot some)
    unfold readData
    rw [idle.mounted]
    dsimp only
    rw [readLoop_congr reads same]

end

def Journal.outline (j : Journal) : JournalHeader × Nat × Bool :=
  (j.header.numbered 0, j.journalStart, j.enabled)

@[simp] theorem outline_begin (j : Journal) : j.begin.2.outline = j.outline := by
  unfold Journal.begin
  split
  · rfl
  split
  · rfl
  · rfl

@[simp] theorem outline_logBlock (j : Journal) (num : Nat) (data : Block) :
    (j.logBlock num data).2.outline = j.outline := by
  unfold Journal.logBlock
  split
  · rfl
  split
  · rfl
  · rfl

@[simp] theorem outline_abortIf (begun : Bool) (j : Journal) :
    (abortIf begun j).outline = j.outline := by
  unfold abortIf
  split
  · rfl
  · rfl

theorem outline_createBody (env : Env) (vol : Volume) (journal : Journal) (dir : Inode)
    (name : List UInt8) :
    (createBody env vol journal dir name).2.2.2.1.outline = journal.outline := by
  have opened : (if journal.enabled = true then journal.begin else (false, journal)).2.outline =
      journal.outline := by
    split
    · exact outline_begin journal
    · rfl
  have logged : ∀ (condition : Bool) (j : Journal) num data,
      (if condition = true then (j.logBlock num data).2 else j).outline = j.outline := by
    intro condition j num data
    split
    · exact outline_logBlock j num data
    · rfl
  unfold createBody
  dsimp only
  split
  · rfl
  split
  · rfl
  split
  · rw [outline_abortIf, opened]
  split
  · rw [outline_abortIf, logged, opened]
  split
  · rw [outline_abortIf, logged, opened]
  · rw [logged, opened]

def CreateStops (env : Env) (fs : FileSystem) (dir : Inode) (name : List UInt8) : Prop :=
  dir.isDirectory = false ∨ (lookup env fs.vol dir name).1 ≠ 0 ∨
    findInode env fs.vol fs.vol.sb.inodeCount 2 = none ∨ fs.journal.enabled = false

theorem createBody_stops (stops : CreateStops env fs dir name) :
    (createBody env fs.vol fs.journal dir name).2.2.2.2 = false := by
  unfold createBody
  dsimp only
  split
  · rfl
  next ready =>
  split
  · rfl
  next missing =>
  split
  · rfl
  next taken =>
  split
  · rfl
  split
  · rfl
  next added =>
  rcases stops with other | existing | full | disabled
  · simp [other] at ready
  · exact absurd existing missing
  · simp [allocInode, full] at taken
  · simp [disabled]

def Unlogged (fs : FileSystem) : Env × FsOp → Prop
  | (env, .create ino name) =>
    fs.system = true → ∀ dir, readInode env fs.vol ino = some dir → CreateStops env fs dir name
  | _ => True

theorem shape_idle (idle : Idle fs) (system : after.system = fs.system)
    (shape : after.vol.shape = fs.vol.shape)
    (journal : fs.system = true → after.journal.outline = fs.journal.outline) : Idle after := by
  have total : after.vol.sb.totalBlocks = fs.vol.sb.totalBlocks := shape_getLE shape (by omega)
  have start : after.vol.sb.dataStart = fs.vol.sb.dataStart := shape_getLE shape (by omega)
  have place : journalStartOf after.vol.sb = journalStartOf fs.vol.sb := by
    rw [journalStartOf, total, journalStartOf]
  have journaled : Journaled after ↔ Journaled fs := by
    unfold Journaled
    rw [system, start, place]
  refine { toAttached := ?_, empty := ?_ }
  constructor
  case mounted =>
    exact (congrArg Prod.fst shape).trans idle.mounted
  case magic => exact (shape_getLE shape (by omega)).trans idle.magic
  case version => exact (shape_getLE shape (by omega)).trans idle.version
  case wide =>
    rw [total]
    exact idle.wide
  case journal =>
    intro here
    obtain ⟨enabled, position, magic, version⟩ := idle.journal (journaled.mp here)
    have same := journal (journaled.mp here).1
    simp only [Journal.outline, JournalHeader.numbered, Prod.mk.injEq, JournalHeader.mk.injEq]
      at same
    obtain ⟨⟨sameMagic, sameVersion, _⟩, sameStart, sameEnabled⟩ := same
    rw [sameMagic, sameVersion, sameStart, sameEnabled, place]
    exact ⟨enabled, position, magic, version⟩
  case unused =>
    intro here none
    rw [system] at here
    have same := journal here
    simp only [Journal.outline, Prod.mk.injEq] at same
    rw [same.2.2]
    exact idle.unused here fun inPlace => none (journaled.mpr inPlace)
  · intro here
    have same := journal (journaled.mp here).1
    simp only [Journal.outline, JournalHeader.numbered, Prod.mk.injEq, JournalHeader.mk.injEq]
      at same
    obtain ⟨⟨_, _, _, _, _, sameHead, sameTail⟩, _⟩ := same
    rw [sameHead, sameTail]
    exact idle.empty (journaled.mp here)

theorem createFile_idle (idle : Idle fs) (stops : fs.system = true → CreateStops env fs dir name) :
    Idle (fs.createFile env dir name) := by
  have shape := shape_createBody env fs.vol dir name fs.journal
  have outline := outline_createBody env fs.vol fs.journal dir name
  unfold FileSystem.createFile
  split
  next system =>
    have ended := createBody_stops (stops system)
    unfold ViperFs.createFile
    split
    next vol journal result =>
    split at result
    next body =>
      rw [body] at shape outline
      cases result
      exact shape_idle idle rfl shape fun _ => outline
    next body =>
      rw [body] at ended
      cases ended
  next user =>
  split
  next body =>
    rw [body] at shape outline
    exact shape_idle idle rfl shape fun _ => outline
  next body =>
    rw [body] at shape
    exact shape_idle idle rfl shape fun system => absurd system user

theorem step_idle (idle : Idle fs) (guard : Unlogged fs label)
    (step : FileSystem.Step fs label after) : Idle after := by
  obtain ⟨env, op⟩ := label
  cases step
  have kept : ∀ vol : Volume, vol.shape = fs.vol.shape → Idle { fs with vol } :=
    fun vol shape => shape_idle idle rfl shape fun _ => rfl
  unfold FileSystem.perform
  cases op with
  | create ino name =>
    dsimp only
    split
    · exact idle
    next dir found => exact createFile_idle idle fun system => guard system dir found
  | rename shared oldDir oldName newDir newName =>
    dsimp only
    split
    · exact kept _ (shape_rename ..)
    · exact idle
  | write | truncate | unlink | mkdir | rmdir | symlink =>
    dsimp only
    split
    · exact idle
    · exact kept _ (by simp)

/-- After any history that leaves nothing in the journal, an unmount and a mount change
no inode and no file, unless one of them lies in a block that an unmount writes. -/
theorem unlogged_runs_survive_remount {start last : FileSystem} {history : List (Env × FsOp)}
    {leaving entering : Env} (idle : Idle start)
    (run : Run (Guarded Unlogged FileSystem.Step) start history last) (clear : Clear last)
    (leaves : leaving.Serves) (enters : entering.Serves) :
    SameFiles last.vol (remount leaving entering last).vol := by
  have settled : Idle last :=
    @run_invariant _ _ _ Idle (fun _ _ _ holds step => step_idle holds step.1 step.2) _ _ _ run idle
  exact remount_sameFiles leaves enters settled clear

def quietEnv : Env := ⟨fun _ => true, 7, 9, served, fun _ => 0⟩

theorem quietEnv_serves : quietEnv.Serves := ⟨fun _ => rfl, fun _ => rfl⟩

@[irreducible] def firstMount : FileSystem :=
  (mount quietEnv ⟨true, ⟨⟨fun _ => 0⟩, (Mkfs.makeImage 1 5).getD fun _ _ => 0, false⟩, unopened,
    fun _ _ => 0⟩).2

instance (fs : FileSystem) : Decidable (Attached fs) :=
  decidable_of_iff _ (attached_iff fs).symm

theorem firstMount_idle : Idle firstMount := by
  have state : Attached firstMount ∧
      (Journaled firstMount → firstMount.journal.header.head = firstMount.journal.header.tail) := by
    decide +kernel
  exact ⟨state.1, state.2⟩

/-- With direct pointers only there are twelve places to look at. -/
theorem clear_direct
    (table : ∀ ino < fs.vol.sb.inodeCount, ¬ Rewritten fs (inodeBlock fs.vol.sb ino))
    (files : ∀ ino < fs.vol.sb.inodeCount, (inodeAt fs.vol.sb fs.vol.disk ino).mode ≠ 0 →
      (inodeAt fs.vol.sb fs.vol.disk ino).indirect = 0 ∧
        (inodeAt fs.vol.sb fs.vol.disk ino).doubleIndirect = 0 ∧
        ∀ i < 12, (inodeAt fs.vol.sb fs.vol.disk ino).direct i ≠ 0 →
          ¬ Rewritten fs ((inodeAt fs.vol.sb fs.vol.disk ino).direct i)) : Clear fs := by
  refine ⟨table, ?_⟩
  intro ino inside used slot some
  obtain ⟨single, double, direct⟩ := files ino inside used
  cases slot with
  | direct i =>
    dsimp only [slotValue] at some ⊢
    split at some
    next low =>
      rw [if_pos low]
      exact direct i low some
    · exact absurd rfl some
  | indirect => exact absurd single some
  | double => exact absurd double some
  | single i => simp [slotValue, single, pointerAt_zero] at some
  | middle i => simp [slotValue, double, pointerAt_zero] at some
  | leaf i j => simp [slotValue, double, pointerAt_zero] at some

def dirMade : FileSystem := firstMount.perform quietEnv (.mkdir rootInode [0x64])

theorem new_directory_survives_remount :
    FileSystem.Step firstMount (quietEnv, .mkdir rootInode [0x64]) dirMade ∧
      SameFiles dirMade.vol (remount quietEnv quietEnv dirMade).vol := by
  exact ⟨rfl, @unlogged_runs_survive_remount _ _ [(quietEnv, .mkdir rootInode [0x64])] _ _
    firstMount_idle (.next ⟨trivial, rfl⟩ (.refl _))
    (clear_direct (by decide +kernel) (by decide +kernel)) quietEnv_serves quietEnv_serves⟩

def rootDir : Inode := inodeAt firstMount.vol.sb firstMount.vol.disk rootInode

def fileName : List UInt8 := [0x61]

def createdBody : Nat × Inode × Volume × Journal × Bool :=
  createBody quietEnv firstMount.vol firstMount.journal rootDir fileName

def beforeCommit : Logging := ⟨createdBody.2.2.2.1, createdBody.2.2.1.disk, []⟩
def afterCommit : Logging := beforeCommit.perform (.commit quietEnv.ticks)

def created : FileSystem := firstMount.perform quietEnv (.create rootInode fileName)

theorem create_logged (system : fs.system = true) (found : readInode env fs.vol ino = some dir)
    (logged : (createBody env fs.vol fs.journal dir name).2.2.2.2 = true) :
    let body := createBody env fs.vol fs.journal dir name
    let result := body.2.2.2.1.commit env.ticks env.answers ⟨body.2.2.1.disk, []⟩
    fs.perform env (.create ino name) =
      ⟨fs.system, ⟨body.2.2.1.sb, result.2.2.disk, body.2.2.1.mounted⟩, result.2.1,
        fs.external⟩ := by
  intro body result
  have file : createFile env fs.vol fs.journal dir name =
      (body.1, body.2.1, ⟨body.2.2.1.sb, result.2.2.disk, body.2.2.1.mounted⟩, result.2.1) := by
    unfold createFile
    split
    next ended =>
      rw [ended] at logged
      cases logged
    next committed =>
      dsimp only [result, body]
      rw [committed]
  unfold FileSystem.perform
  dsimp only
  rw [found]
  dsimp only [FileSystem.createFile]
  rw [if_pos system, file]

/-- What the creation leaves before the commit: one image in a journal that is empty, on
the disk as well. -/
theorem beforeCommit_state : createdBody.2.2.2.2 = true ∧ firstMount.system = true ∧
      beforeCommit.journal.enabled = true ∧ beforeCommit.journal.journalStart = 240 ∧
      beforeCommit.journal.header.numbered 0 = ⟨journalMagic, 1, 0, 241, 15, 0, 0⟩ ∧
      decodeHeader (beforeCommit.disk 240) = ⟨journalMagic, 1, 0, 241, 15, 0, 0⟩ ∧
      beforeCommit.journal.currentTxn.active = true ∧
      beforeCommit.journal.currentTxn.sequence < 2 ^ 32 ∧
      beforeCommit.journal.currentTxn.blocks.map Prod.fst = [2] ∧
      beforeCommit.journal.currentTxn.blocks.map (fun image => getLE 4 image.2 776) =
        [typeFile] := by
  decide +kernel

theorem created_eq : created =
    ⟨firstMount.system, ⟨createdBody.2.2.1.sb, afterCommit.disk, createdBody.2.2.1.mounted⟩,
      afterCommit.journal, firstMount.external⟩ := by
  obtain ⟨logged, system, _⟩ := beforeCommit_state
  have found : readInode quietEnv firstMount.vol rootInode = some rootDir := by
    have mounted : firstMount.vol.mounted = true := firstMount_idle.mounted
    simp [readInode, mounted, quietEnv_serves.reads _, rootDir]
  exact create_logged system found logged

/-- The transaction has one image, of the block with the new inode as it was when the
inode had only been marked as taken. -/
theorem logged_image : ∃ image : Block,
    beforeCommit.journal.currentTxn.blocks = [(2, image)] ∧ getLE 4 image 776 = typeFile := by
  obtain ⟨_, _, _, _, _, _, _, _, nums, modes⟩ := beforeCommit_state
  obtain ⟨⟨num, image⟩, only⟩ := List.length_eq_one_iff.mp
    (by simpa using congrArg List.length nums)
  rw [only] at nums modes ⊢
  simp only [List.map_cons, List.map_nil, List.cons.injEq, and_true] at nums modes
  exact ⟨image, by rw [nums], modes⟩

/-- A journal of the new image in which nothing is complete yet. -/
theorem new_ordered (enabled : j.enabled = true) (place : j.journalStart = 240)
    (header : j.header.numbered 0 = ⟨journalMagic, 1, 0, 241, 15, 0, 0⟩)
    (stored : decodeHeader (disk 240) = ⟨journalMagic, 1, 0, 241, 15, 0, 0⟩)
    (logged : j.currentTxn.active = true → Pending 240 journalBlocks j.currentTxn.blocks) :
    Ordered 240 journalBlocks disk ⟨j, disk, []⟩ := by
  obtain ⟨magic, version, _, start, size, head, tail⟩ := JournalHeader.mk.inj header
  constructor
  case wide => decide
  case enabled => exact enabled
  case place => exact place
  case shape => exact ⟨magic, version, start, congrArg (· + 1) size⟩
  case onDisk => exact ⟨0, stored.trans header.symm⟩
  case fits =>
    rw [tail]
    exact Nat.zero_le _
  case chain => exact head.trans tail.symm
  case homes => simp
  case logged => exact logged
  case frame => exact fun _ _ => rfl

/-- The image is committed on a disk with the new journal, be it the one it was taken from or
not. -/
theorem image_committed (stored : decodeHeader (disk 240) = ⟨journalMagic, 1, 0, 241, 15, 0, 0⟩) :
    Ordered 240 journalBlocks disk
      (Logging.perform ⟨beforeCommit.journal, disk, []⟩ (.commit quietEnv.ticks)) := by
  obtain ⟨image, images, _⟩ := logged_image
  obtain ⟨_, _, enabled, place, header, _, active, early, _⟩ := beforeCommit_state
  obtain ⟨_, _, _, _, size, _, tail⟩ := JournalHeader.mk.inj header
  have logged : Pending 240 journalBlocks beforeCommit.journal.currentTxn.blocks := by
    rw [images]
    constructor
    · simp [maxJournalBlocks]
    · simp
    · simp [HomesOutside]
  have some : beforeCommit.journal.currentTxn.blocks ≠ [] := by simp [images]
  have room : beforeCommit.journal.header.tail + beforeCommit.journal.currentTxn.blocks.length + 2 ≤
      beforeCommit.journal.header.numBlocks := by
    simp [images, tail, size]
  exact commit_ordered (new_ordered enabled place header stored fun _ => logged) room active some
    early

theorem created_state : Attached created ∧ Journaled created ∧
    journalStartOf created.vol.sb = 240 ∧ created.vol.sb.totalBlocks = 256 ∧
    created.vol.sb.inodeTableStart = 2 ∧ 3 < created.vol.sb.inodeCount ∧
    (inodeAt created.vol.sb created.vol.disk 3).mode ≠ typeFile ∧
    afterCommit.journal.header.tail = 3 := by
  decide +kernel

theorem created_committed : afterCommit.committed = [beforeCommit.journal.currentTxn.blocks] := by
  obtain ⟨_, _, _, _, _, _, active, _⟩ := beforeCommit_state
  obtain ⟨image, images, _⟩ := logged_image
  have complete : pending beforeCommit.journal = [beforeCommit.journal.currentTxn.blocks] := by
    simp [pending, active, images]
  rw [← complete]
  rfl

/-- The mount that follows puts the logged image over the block of the new inode. -/
theorem created_replayed : ∃ image : Block, getLE 4 image 776 = typeFile ∧
    (remount quietEnv quietEnv created).vol.disk 2 = image := by
  obtain ⟨image, images, mode⟩ := logged_image
  obtain ⟨attached, journaled, place, total, _, _, _, tail⟩ := created_state
  obtain ⟨_, _, _, _, _, stored, _⟩ := beforeCommit_state
  have ordered : Ordered 240 journalBlocks beforeCommit.disk afterCommit := image_committed stored
  have state : afterCommit = ⟨created.journal, created.vol.disk, afterCommit.committed⟩ := by
    rw [created_eq]
  rw [state, ← place] at ordered
  have length : created.journal.header.tail = 3 := by
    rw [created_eq]
    exact tail
  have restored := remount_restored quietEnv_serves quietEnv_serves attached journaled ordered
    (by rw [place, length, total]; decide) 2 (.inl (by rw [place]; decide))
  rw [created_committed, images] at restored
  exact ⟨image, mode, restored⟩

theorem inodeAt_mode (sb : Superblock) (disk : Disk) (ino : Nat) :
    (inodeAt sb disk ino).mode = getLE 4 (disk (inodeBlock sb ino)) (inodeOffset ino + 8) :=
  getLE_blit _ _ _ (by decide) (by decide)

theorem created_inodeBlock : inodeBlock created.vol.sb.sealed 3 = 2 := by
  have kept : created.vol.sb.sealed.inodeTableStart = created.vol.sb.inodeTableStart :=
    sealed_getLE _ (by omega)
  obtain ⟨_, _, _, _, table, _⟩ := created_state
  rw [inodeBlock, kept, table]
  rfl

theorem created_mode {image : Block} (found : disk 2 = image) :
    (inodeAt created.vol.sb.sealed disk 3).mode = getLE 4 image 776 := by
  rw [inodeAt_mode, created_inodeBlock, found]
  rfl

/-- A file that was created with its permissions has none of them after an unmount and a
mount: the replay brings back the inode as it was before they were stored. -/
theorem created_file_reverts :
    Idle firstMount ∧ FileSystem.Step firstMount (quietEnv, .create rootInode fileName) created ∧
      ¬ SameFiles created.vol (remount quietEnv quietEnv created).vol := by
  refine ⟨firstMount_idle, rfl, ?_⟩
  intro same
  obtain ⟨attached, journaled, _, _, _, inside, stored, _⟩ := created_state
  obtain ⟨image, mode, replayed⟩ := created_replayed
  obtain ⟨sb, _⟩ := remount_journaled quietEnv_serves quietEnv_serves attached journaled
  have inode := same.inodes 3 inside
  rw [sb] at inode
  apply stored
  rw [← inode, ← mode]
  exact created_mode replayed

end ViperDos.ViperFs
