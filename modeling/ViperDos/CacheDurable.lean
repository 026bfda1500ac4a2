import ViperDos.CacheSequential

/-!
What the block cache does when the disk fails to write. `sync_block` looks at the answer and
leaves the entry dirty; `get`, `get_for_write`, `sync`, `invalidate` and `pin` do not look, and
whatever they wrote is clean, given up or replaced afterwards. So a call loses nothing exactly
when no write-back of these five fails.
-/

namespace ViperDos.BlockCache

open Transition

variable {Data : Type} {s after : System Data} {c : Cache Data} {entry num : Nat}
  {answers : Answers} {active : List Activity} {forWrite : Bool} {got result : Option Nat}
  {op : Op Data}

/-- The latest contents of every block are in a dirty entry or on the disk, and an entry whose
write-back failed is what it was. -/
structure Lossless (s : System Data) (answers : Answers) (op : Op Data) (after : System Data) :
    Prop where
  latest : ∀ num, (∃ entry, isDirty after.cache entry = true ∧
    (after.cache.blocks entry).blockNum = num ∧
      (after.cache.blocks entry).data = after.latest num) ∨
    after.cache.disk num = after.latest num
  failed : ∀ entry, WritesBack s.cache op entry → isDirty s.cache entry = true →
    answers.writes (s.cache.blocks entry).blockNum = false →
    isDirty after.cache entry = true ∧
      (after.cache.blocks entry).blockNum = (s.cache.blocks entry).blockNum

theorem spill_blocks (c : Cache Data) (answers : Answers) (entry : Nat) (old : Option Nat) :
    (spill c answers entry old).blocks = c.blocks := by
  cases old with
  | none => rfl
  | some n => cases ok : answers.writes n <;> simp [spill, writeBlock, ok]

/-- After a load the entry is not valid, or it is for the block that was loaded. -/
theorem load_replaces (why : Purpose) (reserved : (c.blocks entry).valid = false)
    (number : (c.blocks entry).blockNum = num)
    (valid : ((load c answers why num entry).blocks entry).valid = true) :
    ((load c answers why num entry).blocks entry).blockNum = num := by
  unfold load at valid ⊢
  cases ok : answers.reads num with
  | true => cases why <;> simp [finishLoad, readBlock, setBlock, number]
  | false => simp [ok, finishLoad, readBlock, setBlock, reserved] at valid

theorem reserve_entry (c : Cache Data) (num entry : Nat) :
    ((touch (reserve c num entry) entry).blocks entry).valid = false ∧
      ((touch (reserve c num entry) entry).blocks entry).blockNum = num := by
  have here := congrFun (reserve_blocks c num entry) entry
  rw [Function.update_self] at here
  exact ⟨congrArg CacheBlock.valid here, congrArg CacheBlock.blockNum here⟩

/-- A dirty entry that `get` takes for another block is no longer dirty for its own. -/
theorem get_forgets {after : Cache Data} (indexed : Indexed c active)
    (made : get c answers forWrite num = some (got, after)) (missing : findAny c num = none)
    (chosen : findEvictionVictim c = some entry) (dirty : isDirty c entry = true)
    (still : isDirty after entry = true) :
    (after.blocks entry).blockNum ≠ (c.blocks entry).blockNum := by
  have other := findAny_none indexed missing entry (.inl (dirty_valid dirty).1)
  rcases get_cases made with ⟨place, found, _⟩ | ⟨_, full, _⟩ | ⟨place, _, taken, _, rfl⟩
  · rw [missing] at found
    cases found
  · rw [chosen] at full
    cases full
  rw [chosen] at taken
  cases taken
  have blocks := congrFun (spill_blocks (touch (reserve c num entry) entry) answers entry
    (writeBackOf c entry)) entry
  obtain ⟨invalid, number⟩ := reserve_entry c num entry
  rw [load_replaces (purposeOf forWrite) (by rw [blocks, invalid]) (by rw [blocks, number])
    (dirty_valid still).1]
  exact other.symm

theorem pin_forgets (indexed : Indexed c active) (missing : findAny c num = none)
    (unfound : find c num = none) (chosen : findEvictionVictim c = some entry)
    (dirty : isDirty c entry = true) (still : isDirty (pin c answers num).2 entry = true) :
    ((pin c answers num).2.blocks entry).blockNum ≠ (c.blocks entry).blockNum := by
  have other := findAny_none indexed missing entry (.inl (dirty_valid dirty).1)
  have taken : (pin c answers num).2 =
      load (touch (reserve (writeBack c answers entry) num entry) entry) answers .pin num
        entry := by
    simp only [pin, unfound, chosen, if_pos dirty]
  rw [taken] at still ⊢
  obtain ⟨invalid, number⟩ := reserve_entry (writeBack c answers entry) num entry
  rw [load_replaces .pin invalid number (dirty_valid still).1]
  exact other.symm

theorem invalidate_forgets (found : find c num = some entry) :
    isDirty (invalidate c answers num) entry = false := by
  simp only [invalidate, found]
  split <;> simp [isDirty, discard, setBlock]

/-- A write-back that fails is forgotten, unless it was that of `sync_block`. -/
theorem failed_forgotten (coherent : Coherent s) (quiet : Quiet s.active)
    (made : call s answers op = some (result, after)) (wanted : WritesBack s.cache op entry)
    (other : ∀ which, op ≠ .syncBlock which) (dirty : isDirty s.cache entry = true) :
    ¬ (isDirty after.cache entry = true ∧
      (after.cache.blocks entry).blockNum = (s.cache.blocks entry).blockNum) := by
  rintro ⟨still, same⟩
  cases op with
  | get forWrite num =>
    obtain ⟨⟨got, cache⟩, returned, equal⟩ := Option.map_eq_some_iff.mp made
    cases equal
    exact get_forgets coherent.1 returned wanted.1 wanted.2 dirty still same
  | modify => exact wanted
  | release => exact wanted
  | sync =>
    cases made
    rw [sync_clean coherent.1] at still
    cases still
  | syncBlock which => exact other which rfl
  | invalidate num =>
    cases made
    rw [invalidate_forgets wanted] at still
    cases still
  | pin num =>
    cases made
    exact pin_forgets coherent.1 (find_missing coherent.1 quiet wanted.1) wanted.1 wanted.2
      dirty still same
  | unpin => exact wanted

/-- After any calls that lost nothing, the next call loses nothing exactly when none of its
write-backs fails, that of `sync_block` apart. -/
theorem write_errors_iff {disk memory : Nat → Data} {calls : List (Op Data × Answers)}
    (run : Run (Guarded Sound Calls) (boot disk memory) calls s) {op : Op Data}
    {result : Option Nat} (held : Held s.cache op)
    (made : call s answers op = some (result, after)) :
    Lossless s answers op after ↔ Written s.cache answers op := by
  obtain ⟨coherent, quiet⟩ := calls_coherent (fun _ _ sound => sound) run
  constructor
  · intro lossless entry wanted other dirty
    cases ok : answers.writes (s.cache.blocks entry).blockNum with
    | true => rfl
    | false =>
      exact absurd (lossless.failed entry wanted dirty ok)
        (failed_forgotten coherent quiet made wanted other dirty)
  · intro written
    obtain ⟨coherentAfter, quietAfter⟩ := call_coherent coherent quiet ⟨held, written⟩ made
    refine ⟨quiet_latest coherentAfter quietAfter, ?_⟩
    intro entry wanted dirty refused
    by_cases block : ∃ which, op = .syncBlock which
    · obtain ⟨which, rfl⟩ := block
      cases wanted
      cases made
      have unchanged : syncBlock s.cache answers entry = s.cache := by
        simp [syncBlock, refused]
      rw [unchanged]
      exact ⟨dirty, rfl⟩
    · have ok := written entry wanted (fun which same => block ⟨which, same⟩) dirty
      rw [refused] at ok
      cases ok

def refusing : Answers := ⟨fun _ => false, fun _ => true⟩

/-- A modified block that the disk refuses is kept by `sync_block` and lost by `sync`, which
loses nothing when the disk takes it. -/
theorem refused_block_kept : ∃ s kept lost saved : System Nat,
      Run (Guarded Sound Calls) (boot (fun _ => 0) fun _ => 0) modifyOne s ∧
      call s refusing (.syncBlock 63) = some (none, kept) ∧
      Lossless s refusing (.syncBlock 63) kept ∧
      call s refusing .sync = some (none, lost) ∧ ¬ Lossless s refusing .sync lost ∧
      call s reliable .sync = some (none, saved) ∧ Lossless s reliable .sync saved := by
  have gets : Sound (boot (fun _ => 0) fun _ => 0) ((.get true 1, reliable) : Op Nat × Answers) :=
    ⟨fun _ found => (nomatch found), fun _ _ _ _ => rfl⟩
  have run : Run (Guarded Sound Calls) (boot (fun _ => 0) fun _ => 0) modifyOne _ :=
    .next ⟨gets, _, rfl⟩ (.next ⟨⟨rfl, fun _ _ _ _ => rfl⟩, _, rfl⟩
      (.next ⟨⟨trivial, fun _ _ _ _ => rfl⟩, _, rfl⟩ (.refl _)))
  have room := room_of_few (calls_coherent (fun _ _ sound => sound) run).1.1 (by decide)
  refine ⟨_, _, _, _, run, rfl, (write_errors_iff run ?any rfl).mpr ?kept, rfl, ?lost, rfl,
    (write_errors_iff run ?held rfl).mpr fun _ _ _ _ => rfl⟩
  case any => trivial
  case kept => exact fun _ _ other => absurd rfl (other 63)
  case lost =>
    intro lossless
    refine absurd ((write_errors_iff run ?_ rfl).mp lossless 63 trivial nofun (by decide)) (by decide)
    exact fun entry _ => room entry
  case held => exact fun entry _ => room entry

/-- A failing write of `sync`: the block counts as clean, and its contents are nowhere. -/
theorem sync_forgets_failure : ∃ s after : System Nat, Run Calls (boot (fun _ => 0) fun _ => 0)
        [(.get true 1, reliable), (.modify writerHolds 5, reliable),
          (.release writerHolds, reliable)] s ∧
      call s refusing .sync = some (none, after) ∧ ¬ Lossless s refusing .sync after := by
  refine ⟨_, _, run_called rfl, rfl, fun lossless => ?_⟩
  have kept := (lossless.failed 63 trivial (by decide) rfl).1
  exact absurd kept (by decide)

end ViperDos.BlockCache
