import ViperDos.JournalCrash

/-!
Commits that fail. The cache may refuse any block that a commit asks for, and the device any
write, which stays in the cache and is not reported. A refusal up to the images leaves the
journal as it was, since only its unused part was written. A commit record that is refused
leaves the tail moved behind the images: the next transaction follows them, where `replay`,
which counts the record as well, does not look for it. A block of a transaction that is
committed and did not reach the device is missing after a reboot; only the first write of the
descriptor is made good by the second.
-/

namespace ViperDos.ViperFs

open WriteLog Transition Function

/-- The journal with the blocks as the cache has them, and those of the device. -/
structure Failing where
  log : Logging
  device : Disk

/-- An operation with what becomes of its requests, or a block that the cache writes later. -/
inductive Failing.Event where
  | attempt (op : Op) (answers : Nat → Answer)
  | writeBack (num : Nat)

def Failing.attempt (s : Failing) (answers : Nat → Answer) : Op → Failing
  | .commit ticks =>
    let result := s.log.journal.commit ticks answers ⟨s.log.disk, []⟩
    { log := ⟨result.2.1, result.2.2.disk,
        s.log.committed ++ if result.1 then pending s.log.journal else []⟩
      device := applyAll result.2.2.writes s.device }
  | op => { s with log := s.log.perform op }

def Failing.next (s : Failing) : Event → Failing
  | .attempt op answers => s.attempt answers op
  | .writeBack num => { s with device := update s.device num (s.log.disk num) }

def Failing.Step (s : Failing) (event : Event) (after : Failing) : Prop := after = s.next event

theorem Failing.next_step (s : Failing) (event : Event) : Failing.Step s event (s.next event) :=
  rfl

/-- The transaction fits as before, and where the cache gives the descriptor and the images, all
blocks from the first image on are written. -/
def Survives (journalStart numBlocks : Nat) (s : Failing) : Failing.Event → Prop
  | .attempt op answers => Fits journalStart numBlocks s.log op ∧ ∀ ticks, op = .commit ticks →
      (∀ i ≤ s.log.journal.currentTxn.blocks.length, (answers i).given = true) →
        ∀ i ≤ s.log.journal.currentTxn.blocks.length + 2, answers (1 + i) = .written
  | .writeBack _ => True

/-- The log on a disk is a chain of the transactions whose commit succeeded, and the next mount
applies them. -/
structure Usable (journalStart numBlocks : Nat) (start disk : Disk) (committed : List Images) :
    Prop where
  chain : Chain disk (decodeHeader (disk journalStart)).startBlock
    (decodeHeader (disk journalStart)).head committed (decodeHeader (disk journalStart)).tail
  replayed : ∀ j : Journal, Restored journalStart numBlocks committed start
    (openJournal served j journalStart numBlocks disk).2

variable {k blockNum i low high num journalStart numBlocks : Nat} {answers : Nat → Answer}
  {images : List (Nat × Block)} {dev : Device} {disk start : Disk} {s : Logging}
  {device : Nat → Block} {event : Failing.Event} {after : Failing}

theorem writeImages_refused (small : k < images.length)
    (refused : (answers (1 + (i + k))).given = false) :
    (writeImages answers blockNum i images dev).1 = false := by
  induction images generalizing i k dev with
  | nil => cases small
  | cons image rest ih =>
    unfold writeImages
    split
    next here =>
      obtain ⟨k, rfl⟩ : ∃ less, k = less + 1 := by
        refine Nat.exists_eq_add_one.mpr (Nat.pos_of_ne_zero ?_)
        rintro rfl
        exact absurd (refused.symm.trans here) (by decide)
      rw [List.length_cons] at small
      rw [show i + (k + 1) = i + 1 + k by omega] at refused
      exact ih (by omega) refused
    · rfl

structure Spares (dev : Device) (disk : Disk) (low high : Nat) : Prop where
  cached : ∀ num, num < low ∨ high ≤ num → dev.disk num = disk num
  written : ∀ write ∈ dev.writes, low ≤ write.1 ∧ write.1 < high

theorem syncBlock_spares (spares : Spares dev disk low high) (above : low ≤ num)
    (below : num < high) (block : Block) (answer : Answer) :
    Spares (syncBlock dev num block answer) disk low high where
  cached other outside := by
    have apart : other ≠ num := by omega
    exact (update_of_ne apart _ _).trans (spares.cached other outside)
  written write member := by
    unfold syncBlock at member
    dsimp only at member
    split at member
    · rcases List.mem_append.mp member with old | new
      · exact spares.written write old
      · cases List.mem_singleton.mp new
        exact ⟨above, below⟩
    · exact spares.written write member

theorem writeImages_spares (spares : Spares dev disk low high) (above : low ≤ blockNum + 1 + i)
    (below : blockNum + 1 + i + images.length ≤ high) :
    Spares (writeImages answers blockNum i images dev).2 disk low high := by
  induction images generalizing i dev with
  | nil => exact spares
  | cons image rest ih =>
    rw [List.length_cons] at below
    unfold writeImages
    split
    · exact ih (syncBlock_spares spares above (by omega) _ _) (by omega) (by omega)
    · exact spares

theorem commit_cut {j : Journal} (ticks : Nat) (disk : Disk)
    (active : j.currentTxn.active = true) (some : j.currentTxn.blocks ≠ [])
    (here : reclaim j.header j.currentTxn.blocks.length = j.header)
    (small : i ≤ j.currentTxn.blocks.length) (refused : (answers i).given = false) :
    ∃ dev, j.commit ticks answers ⟨disk, []⟩ = (false, j.abort, dev) ∧
      Spares dev disk (j.header.startBlock + j.header.tail)
        (j.header.startBlock + j.header.tail + 1 + j.currentTxn.blocks.length) := by
  have empty : j.currentTxn.blocks.isEmpty = false := by simpa using some
  have nothing : Spares ⟨disk, []⟩ disk (j.header.startBlock + j.header.tail)
      (j.header.startBlock + j.header.tail + 1 + j.currentTxn.blocks.length) :=
    ⟨fun _ _ => rfl, fun _ member => nomatch member⟩
  unfold Journal.commit writeTransaction
  simp only [active, empty, here, Bool.not_true, Bool.false_eq_true, if_false]
  cases first : (answers 0).given with
  | false => exact ⟨_, rfl, nothing⟩
  | true =>
    obtain ⟨k, rfl⟩ : ∃ k, i = 1 + (0 + k) := by
      refine ⟨i - 1, ?_⟩
      have later : i ≠ 0 := by
        rintro rfl
        exact absurd (refused.symm.trans first) (by decide)
      omega
    have described := syncBlock_spares nothing (Nat.le_refl _) (by omega)
      (describe (disk (j.header.startBlock + j.header.tail)) j.currentTxn ticks) (answers 0)
    simp only [Bool.not_true, Bool.false_eq_true, if_false]
    generalize syncBlock _ _ _ _ = dev at described ⊢
    rcases written : writeImages answers (j.header.startBlock + j.header.tail) 0
      j.currentTxn.blocks dev with ⟨ok, after⟩
    have stopped : (ok, after).1 = false := written ▸ writeImages_refused (by omega) refused
    cases stopped
    have spares : Spares (false, after).2 disk _ _ :=
      written ▸ writeImages_spares described (by omega) (by omega)
    exact ⟨after, rfl, spares⟩

structure Sound (journalStart numBlocks : Nat) (start : Disk) (s : Failing) : Prop where
  ordered : Ordered journalStart numBlocks start s.log
  same : ∀ num, num < journalStart + 1 + s.log.journal.header.tail ∨
    journalStart + numBlocks ≤ num → s.device num = s.log.disk num

theorem ordered_elsewhere (ordered : Ordered journalStart numBlocks start s)
    (same : ∀ num, num < journalStart + 1 + s.journal.header.tail ∨
      journalStart + numBlocks ≤ num → disk num = s.disk num) :
    Ordered journalStart numBlocks start { s with disk := disk } := by
  have begins := ordered.shape.start
  have chain := chain_congr ordered.chain fun num low high => same num (.inl (by omega))
  refine { ordered with onDisk := ?_, chain := chain, frame := fun num outside => ?_ }
  · dsimp only
    rw [same _ (.inl (by omega))]
    exact ordered.onDisk
  · exact (same num (by omega)).trans (ordered.frame num outside)

theorem ordered_usable (ordered : Ordered journalStart numBlocks start s) :
    Usable journalStart numBlocks start s.disk s.committed where
  chain := by
    obtain ⟨sequence, found⟩ := ordered.onDisk
    rw [found]
    exact ordered.chain
  replayed j := ordered_restored ordered j fun _ _ => rfl

theorem dataWrites_places {images : Images} (low : blockNum + 1 + i ≤ num)
    (high : num < blockNum + 1 + i + images.length) :
    num ∈ (dataWrites blockNum i images).map Prod.fst := by
  induction images generalizing i with
  | nil => exact absurd high (Nat.not_lt.mpr low)
  | cons image rest ih =>
    rw [List.length_cons] at high
    rw [dataWrites, List.map_cons, List.mem_cons]
    by_cases here : num = blockNum + 1 + i
    · exact .inl here
    · exact .inr (ih (by omega) (by omega))

/-- The first write of the descriptor is made good by the second. -/
theorem carriedOut_apply (answer : Answer) (txn : Transaction) (ticks : Nat) (last : Nat × Block)
    (device : Disk) : applyAll (carriedOut answer disk blockNum txn ticks ++
        closingWrites disk blockNum txn ticks ++ [last]) device =
      applyAll (transactionWrites disk blockNum txn ticks ++ [last]) device := by
  unfold carriedOut
  split
  · rfl
  funext num
  rw [transactionWrites, leadingWrites, List.append_assoc, List.cons_append, List.cons_append,
    List.append_assoc]
  refine applyAll_agree ?_
  by_cases here : num = blockNum
  · exact .inr (by simp [here, closingWrites])
  · exact .inl (update_of_ne here _ _).symm

/-- The blocks of a transaction are on the device as they are in the cache. -/
theorem transactionWrites_agree (txn : Transaction) (ticks : Nat) (last : Nat × Block)
    (settled : device num = disk num ∨ blockNum ≤ num ∧ num < blockNum + txn.blocks.length + 2 ∨
      num = last.1) :
    applyAll (transactionWrites disk blockNum txn ticks ++ [last]) device num =
      applyAll (transactionWrites disk blockNum txn ticks ++ [last]) disk num := by
  refine applyAll_agree (settled.imp_right fun place => ?_)
  simp only [transactionWrites, leadingWrites, closingWrites, List.map_append, List.map_cons,
    List.mem_append, List.mem_cons, List.map_nil]
  rcases place with ⟨low, high⟩ | final
  · by_cases image : blockNum + 1 ≤ num ∧ num < blockNum + 1 + txn.blocks.length
    · exact .inl (.inl (.inr (dataWrites_places image.1 image.2)))
    · omega
  · exact .inr (.inl final)

section

variable {s : Failing} (sound : Sound journalStart numBlocks start s)

include sound

theorem commit_sound (answers : Nat → Answer) (ticks : Nat)
    (survives : Survives journalStart numBlocks s (.attempt (.commit ticks) answers)) :
    Sound journalStart numBlocks start (s.attempt answers (.commit ticks)) := by
  obtain ⟨fits, completed⟩ := survives
  have ordered := sound.ordered
  by_cases busy : s.log.journal.currentTxn.active = true ∧ s.log.journal.currentTxn.blocks ≠ []
  · obtain ⟨room, early⟩ := fits busy.1 busy.2
    have size := (ordered_bounds ordered).1
    have begins := ordered.shape.start
    have count := ordered.shape.size
    have here := reclaim_fits size room
    by_cases met : ∀ i ≤ s.log.journal.currentTxn.blocks.length, (answers i).given = true
    · have result := commit_met ticks s.log.disk busy.1 busy.2 here (met 0 (Nat.zero_le _))
        (completed ticks rfl met)
      have served := commit_fitting room busy.1 busy.2 size ticks
      have after := @commit_ordered _ _ ticks _ _ ordered room busy.1 busy.2 early
      dsimp only [Logging.perform] at after
      rw [served] at after
      dsimp only [Failing.attempt]
      rw [result, if_pos rfl]
      refine ⟨after, fun num elsewhere => ?_⟩
      dsimp only
      rw [carriedOut_apply]
      refine transactionWrites_agree _ _ _ ?_
      have beyond : num < journalStart + 1 +
          (s.log.journal.header.tail + s.log.journal.currentTxn.blocks.length + 2) ∨
            journalStart + numBlocks ≤ num := elsewhere
      by_cases old : num < journalStart + 1 + s.log.journal.header.tail ∨
          journalStart + numBlocks ≤ num
      · exact .inl (sound.same num old)
      · exact .inr (.inl (by omega))
    · push Not at met
      obtain ⟨i, small, refused⟩ := met
      obtain ⟨dev, result, spares⟩ := commit_cut ticks s.log.disk busy.1 busy.2 here small
        (Bool.eq_false_iff.mpr refused)
      have kept := ordered_elsewhere ordered fun num elsewhere => spares.cached num (by omega)
      dsimp only [Failing.attempt]
      rw [result, if_neg Bool.false_ne_true, List.append_nil]
      refine ⟨ordered_idle kept fun active => (nomatch active), fun num elsewhere => ?_⟩
      have elsewhere : num < journalStart + 1 + s.log.journal.header.tail ∨
          journalStart + numBlocks ≤ num := elsewhere
      have written : ∀ write ∈ dev.writes, write.1 ≠ num := fun write member => by
        have inside := spares.written write member
        omega
      calc applyAll dev.writes s.device num = s.device num := applyAll_other written _
        _ = s.log.disk num := sound.same num elsewhere
        _ = dev.disk num := (spares.cached num (by omega)).symm
  · obtain ⟨none, txn, done, closed, result⟩ := commit_idle busy ticks answers s.log.disk
    dsimp only [Failing.attempt]
    rw [result, none, ite_self, List.append_nil]
    exact ⟨ordered_idle ordered fun active => by simp [closed] at active, sound.same⟩

/-- The other operations touch neither the blocks nor the tail. -/
theorem perform_sound (op : Op) (fits : Fits journalStart numBlocks s.log op)
    (tail : (s.log.perform op).journal.header.tail = s.log.journal.header.tail)
    (disk : (s.log.perform op).disk = s.log.disk) :
    Sound journalStart numBlocks start { s with log := s.log.perform op } where
  ordered := step_ordered sound.ordered fits rfl
  same num elsewhere := by
    dsimp only at elsewhere ⊢
    rw [tail] at elsewhere
    rw [disk]
    exact sound.same num elsewhere

theorem next_sound (survives : Survives journalStart numBlocks s event)
    (step : Failing.Step s event after) : Sound journalStart numBlocks start after := by
  cases step
  cases event with
  | writeBack num =>
    refine ⟨sound.ordered, fun other elsewhere => ?_⟩
    dsimp only [Failing.next] at elsewhere ⊢
    by_cases here : other = num
    · rw [here, update_self]
    · rw [update_of_ne here]
      exact sound.same other elsewhere
  | attempt op answers =>
    cases op with
    | commit ticks => exact commit_sound sound answers ticks survives
    | begin =>
      refine perform_sound sound .begin survives.1 ?_ rfl
      dsimp only [Logging.perform]
      unfold Journal.begin
      split_ifs <;> rfl
    | logBlock num data =>
      refine perform_sound sound (.logBlock num data) survives.1 ?_ rfl
      dsimp only [Logging.perform]
      unfold Journal.logBlock
      split_ifs <;> rfl
    | abort => exact perform_sound sound .abort survives.1 rfl rfl

end

/-- However commits fail before an image is written, the log stays a chain of those that
succeeded, and a mount finds and applies every one, with the blocks of the cache and with those
that are on the device. -/
theorem failed_commits_harmless {start : Logging} {s : Failing}
    {events : List Failing.Event}
    (opened : Opened journalStart numBlocks start)
    (run : Run (Guarded (Survives journalStart numBlocks) Failing.Step) ⟨start, start.disk⟩
      events s) :
    Usable journalStart numBlocks start.disk s.log.disk s.log.committed ∧
      Usable journalStart numBlocks start.disk s.device s.log.committed := by
  have opens : Sound journalStart numBlocks start.disk ⟨start, start.disk⟩ :=
    ⟨opened_ordered opened, fun _ _ => rfl⟩
  have sound : Sound journalStart numBlocks start.disk s :=
    @run_invariant _ _ _ (Sound journalStart numBlocks start.disk)
      (fun _ _ _ kept step => next_sound kept step.1 step.2) _ _ _ run opens
  have device := ordered_elsewhere sound.ordered sound.same
  exact ⟨ordered_usable sound.ordered, ordered_usable device⟩

/-- A commit with the given answers, and one after it of which the cache keeps the first write
and carries it out later. -/
def twoCommits (answers : Nat → Answer) : List Failing.Event :=
  [.attempt .begin served, .attempt (.logBlock 5 (image 1)) served,
    .attempt (.commit 0) answers, .attempt .begin served,
    .attempt (.logBlock 6 (image 2)) served,
    .attempt (.commit 0) (fun i => if i = 0 then .cached else .written), .writeBack 101]

def refusingAt (request : Nat) : Nat → Answer := fun i => if i = request then .refused else .written

theorem refused_image_harmless :
    let s := (twoCommits (refusingAt 1)).foldl Failing.next ⟨blankLogging, blankLogging.disk⟩
    s.log.committed = [[(6, image 2)]] ∧
      Usable 100 16 blankLogging.disk s.device s.log.committed := by
  intro s
  refine ⟨rfl, (@failed_commits_harmless _ _ _ s (twoCommits (refusingAt 1)) blankLogging_opened
    (.next ⟨⟨trivial, nofun⟩, rfl⟩ (.next ⟨⟨.inl (by decide), nofun⟩, rfl⟩
      (.next ⟨⟨fun _ _ => by decide, fun _ _ met => ?_⟩, rfl⟩ (.next ⟨⟨trivial, nofun⟩, rfl⟩
        (.next ⟨⟨.inl (by decide), nofun⟩, rfl⟩
          (.next ⟨⟨fun _ _ => by decide, fun _ _ _ i _ => ?_⟩, rfl⟩
            (.next ⟨trivial, rfl⟩ (.refl _))))))))).2⟩
  · exact absurd (met 1 (by decide)) (by decide)
  · exact if_neg (by omega)

/-- The commit record of the first transaction is refused. The second one is committed, but
`replay` looks for it one block behind its descriptor. -/
theorem refused_record_hides_next :
    let s := (twoCommits (refusingAt 2)).foldl Failing.next ⟨blankLogging, blankLogging.disk⟩
    Opened 100 16 blankLogging ∧
      Run Failing.Step ⟨blankLogging, blankLogging.disk⟩ (twoCommits (refusingAt 2)) s ∧
      s.log.committed = [[(6, image 2)]] ∧
      (openJournal served unopened 100 16 s.device).2 6 0 = 0 ∧
      ¬ Usable 100 16 blankLogging.disk s.device s.log.committed := by
  intro s
  have missed : (openJournal served unopened 100 16 s.device).2 6 0 = 0 := by decide +kernel
  refine ⟨blankLogging_opened, run_foldl Failing.next_step _ _, rfl, missed, fun usable => ?_⟩
  have wanted : _ = image 2 := usable.replayed unopened 6 (.inl (by decide))
  rw [wanted] at missed
  exact absurd missed (by decide)

end ViperDos.ViperFs
