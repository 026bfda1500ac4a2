import ViperDos.Journal
import ViperDos.WriteLog

/-!
What `replay` makes of a journal that is in order: a chain of committed transactions
from head to tail is applied from front to back, whatever else the blocks hold.
-/

namespace ViperDos.ViperFs

open ByteRecords WriteLog

abbrev Images := List (Nat × Block)

def Recorded (disk : Disk) (blockNum : Nat) : Nat → Images → Prop
  | _, [] => True
  | i, (num, data) :: rest =>
    (txnBlockNum (disk blockNum) i = num ∧ txnChecksum (disk blockNum) i = checksum data ∧
      disk (blockNum + 1 + i) = data) ∧ Recorded disk blockNum (i + 1) rest

structure Stored (disk : Disk) (blockNum : Nat) (images : Images) : Prop where
  magic : txnMagic (disk blockNum) = journalMagic
  state : txnState (disk blockNum) = txnCommitted
  count : txnNumBlocks (disk blockNum) = images.length
  small : images.length ≤ maxJournalBlocks
  records : Recorded disk blockNum 0 images
  sealed : verifyCommitRecord disk (blockNum + 1 + images.length)
    (txnSequence (disk blockNum)) = true

def Chain (disk : Disk) (start : Nat) : Nat → List Images → Nat → Prop
  | pos, [], tail => pos = tail
  | pos, images :: rest, tail =>
    Stored disk (start + pos) images ∧ Chain disk start (pos + images.length + 2) rest tail

variable {disk after : Disk} {blockNum i start pos tail k low high num fuel : Nat} {images : Images}
  {list : List Images} {header : JournalHeader}

theorem recorded_congr (recorded : Recorded disk blockNum i images)
    (same : ∀ num, blockNum ≤ num → num < blockNum + 1 + i + images.length → after num = disk num) :
    Recorded after blockNum i images := by
  induction images generalizing i with
  | nil => trivial
  | cons image rest ih =>
    rcases recorded with ⟨head, tail⟩
    rw [List.length_cons] at same
    refine ⟨?_, ih tail fun num low high => same num low (by omega)⟩
    rw [same blockNum (by omega) (by omega), same (blockNum + 1 + i) (by omega) (by omega)]
    exact head

theorem stored_congr (stored : Stored disk blockNum images)
    (same : ∀ num, blockNum ≤ num → num < blockNum + images.length + 2 → after num = disk num) :
    Stored after blockNum images := by
  have desc := same blockNum (by omega) (by omega)
  have record := same (blockNum + 1 + images.length) (by omega) (by omega)
  refine ⟨?_, ?_, ?_, stored.small, ?_, ?_⟩
  · rw [desc, stored.magic]
  · rw [desc, stored.state]
  · rw [desc, stored.count]
  · exact recorded_congr stored.records fun num low high => same num low (by omega)
  · rw [desc, verifyCommitRecord, record]
    exact stored.sealed

section

variable (chain : Chain disk start pos list tail)

include chain

theorem chain_bound : pos + 2 * list.length ≤ tail := by
  induction list generalizing pos with
  | nil => exact Nat.le_of_eq chain
  | cons images rest ih =>
    have later := ih chain.2
    rw [List.length_cons]
    omega

theorem chain_congr (same : ∀ num, start + pos ≤ num → num < start + tail → after num = disk num) :
    Chain after start pos list tail := by
  induction list generalizing pos with
  | nil => exact chain
  | cons images rest ih =>
    have bound := chain_bound chain.2
    exact ⟨stored_congr chain.1 fun num low high => same num low (by omega),
      ih chain.2 fun num low high => same num (by omega) high⟩

theorem chain_concat (stored : Stored disk (start + tail) images) :
    Chain disk start pos (list ++ [images]) (tail + images.length + 2) := by
  induction list generalizing pos with
  | nil =>
    cases chain
    exact ⟨stored, rfl⟩
  | cons first rest ih => exact ⟨chain.1, ih chain.2⟩

end

theorem recorded_checksum (recorded : Recorded disk blockNum i images) (low : i ≤ k)
    (high : k < i + images.length) :
    checksum (disk (blockNum + 1 + k)) = txnChecksum (disk blockNum) k := by
  induction images generalizing i with
  | nil =>
    rw [List.length_nil] at high
    omega
  | cons image rest ih =>
    rcases recorded with ⟨⟨_, sum, data⟩, tail⟩
    by_cases here : k = i
    · subst k
      rw [data, sum]
    · rw [List.length_cons] at high
      exact ih tail (by omega) (by omega)

theorem stored_checksums
    (stored : Stored disk blockNum images) : verifyTransactionChecksums disk blockNum = true := by
  refine List.all_eq_true.mpr fun k member => decide_eq_true ?_
  rw [stored.count, List.mem_range] at member
  exact recorded_checksum stored.records (Nat.zero_le k) (by omega)

def HomesOutside (images : Images) (low high : Nat) : Prop :=
  ∀ image ∈ images, image.1 < low ∨ high ≤ image.1

theorem applyAll_between (homes : HomesOutside images low high) (disk : Disk) (above : low ≤ num)
    (below : num < high) : applyAll images disk num = disk num := by
  apply applyAll_other
  intro image member same
  have outside := homes image member
  omega

theorem apply_recorded (recorded : Recorded disk blockNum i images)
    (count : txnNumBlocks (disk blockNum) = i + images.length) (enough : images.length ≤ fuel)
    (homes : HomesOutside images blockNum (blockNum + 1 + i + images.length)) :
    applyTransactionBlocks blockNum fuel i disk = applyAll images disk := by
  induction images generalizing disk fuel i with
  | nil =>
    cases fuel with
    | zero => rfl
    | succ fuel =>
      rw [List.length_nil] at count
      rw [applyTransactionBlocks, if_neg (by omega)]
      rfl
  | cons image rest ih =>
    rcases image with ⟨num, data⟩
    rw [List.length_cons] at count enough homes
    cases fuel with
    | zero => omega
    | succ fuel =>
      rcases recorded with ⟨⟨target, _, source⟩, tail⟩
      have outside := homes (num, data) (.head _)
      -- the write home leaves the descriptor and the images still to come alone
      have kept : ∀ other, blockNum ≤ other → other < blockNum + 1 + i + (rest.length + 1) →
          Function.update disk num data other = disk other := by
        intro other low high
        exact Function.update_of_ne (by omega) _ _
      have others : HomesOutside rest blockNum (blockNum + 1 + (i + 1) + rest.length) := by
        intro image member
        have home := homes image (.tail _ member)
        omega
      rw [applyTransactionBlocks, if_pos (by omega), target, source]
      refine ih (recorded_congr tail fun other low high => kept other low (by omega)) ?_
        (by omega) others
      rw [kept blockNum (by omega) (by omega), count]
      omega

theorem stored_applied (stored : Stored disk blockNum images)
    (homes : HomesOutside images blockNum (blockNum + images.length + 2)) :
    applyTransactionBlocks blockNum 255 0 disk = applyAll images disk := by
  have few := stored.small
  refine apply_recorded stored.records (by rw [stored.count]; omega) ?_ ?_
  · rw [maxJournalBlocks] at few
    omega
  · intro image member
    have outside := homes image member
    omega

theorem stored_valid
    (stored : Stored disk blockNum images) : validateTransactionHeader (disk blockNum) = true := by
  simp [validateTransactionHeader, stored.magic, stored.state, stored.count, stored.small,
    txnInvalid, txnCommitted]

theorem replayLoop_chain (counts : Nat × Nat)
    (chain : Chain disk header.startBlock pos list header.tail)
    (fits : header.tail ≤ header.numBlocks) (enough : list.length ≤ fuel)
    (homes : ∀ images ∈ list, HomesOutside images header.startBlock
      (header.startBlock + header.numBlocks)) :
    replayLoop header fuel pos counts disk =
      ((counts.1 + list.length, counts.2), applyAll list.flatten disk) := by
  induction list generalizing fuel pos counts disk with
  | nil =>
    cases fuel with
    | zero => rfl
    | succ fuel =>
      have done : pos = header.tail := chain
      rw [replayLoop, if_pos (.inl done)]
      rfl
  | cons images rest ih =>
    rcases chain with ⟨stored, tail⟩
    have bound := chain_bound tail
    rw [List.length_cons] at enough ⊢
    cases fuel with
    | zero => omega
    | succ fuel =>
      have mine := homes images (.head _)
      have near : HomesOutside images (header.startBlock + pos)
          (header.startBlock + pos + images.length + 2) := by
        intro image member
        have outside := mine image member
        omega
      have kept : ∀ num, header.startBlock + pos ≤ num → num < header.startBlock + header.tail →
          applyAll images disk num = disk num := fun num low high =>
        applyAll_between mine disk (by omega) (by omega)
      have going : ¬ (pos = header.tail ∨ header.numBlocks ≤ pos) := by omega
      have count : txnNumBlocks (applyAll images disk (header.startBlock + pos)) =
          images.length := by
        rw [kept _ (by omega) (by omega), stored.count]
      have next := ih (counts.1 + 1, counts.2)
        (chain_congr tail fun num low high => kept num (by omega) high)
        (by omega : rest.length ≤ fuel)
        (fun other member => homes other (.tail _ member))
      rw [replayLoop, if_neg going]
      dsimp only
      rw [stored_valid stored, stored.state, stored.count, stored.sealed,
        stored_checksums stored, stored_applied stored near]
      simp only [Bool.not_true, Bool.false_eq_true, if_false, ne_eq, not_true_eq_false,
        Bool.or_false]
      rw [count, next, List.flatten_cons, applyAll_append]
      simp only [Prod.mk.injEq, and_true]
      omega

/-- A replay of a chain, seen from outside the journal. -/
theorem replay_chain (j : Journal) (enabled : j.enabled = true)
    (chain : Chain disk j.header.startBlock j.header.head list j.header.tail)
    (fits : j.header.tail ≤ j.header.numBlocks)
    (homes : ∀ images ∈ list, HomesOutside images j.header.startBlock
      (j.header.startBlock + j.header.numBlocks)) (outside : num ≠ j.journalStart) :
    (j.replay disk).2 num = applyAll list.flatten disk num := by
  have bound := chain_bound chain
  have enough : list.length ≤ j.header.numBlocks := by omega
  unfold Journal.replay
  rw [replayLoop_chain (0, 0) chain fits enough homes]
  simp only [enabled, Bool.not_true, Bool.false_eq_true, if_false]
  split
  · exact Function.update_of_ne outside _ _
  · rfl

end ViperDos.ViperFs
