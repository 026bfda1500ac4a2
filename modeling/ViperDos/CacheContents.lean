import ViperDos.CacheIndex

/-!
Where the latest contents of a block are: in its valid entry, in an entry that is reserved
for another block and still to be written back, or else on the disk. A clean entry agrees with
the disk, and so does one whose write-back has been done and not yet acknowledged.
-/

namespace ViperDos.BlockCache

open Function

def Stage.writing : Stage → Bool
  | .flush _ => true
  | .purge => true
  | .spill _ => true
  | _ => false

def Stage.wrote : Stage → Bool
  | .flushed _ => true
  | .purged => true
  | .spilled _ => true
  | _ => false

def Pending (active : List Activity) (num : Nat) : Prop :=
  ∃ a ∈ active, ∃ why, a.stage = .evict num why

variable {Data : Type} {active rest : List Activity} {latest : Nat → Data}
  {num left right entry : Nat} {why : Purpose} {ok : Bool} {stage : Stage}

def Present (c : Cache Data) (num : Nat) : Prop :=
  ∃ entry, (c.blocks entry).valid = true ∧ (c.blocks entry).blockNum = num

structure Current (c : Cache Data) (active : List Activity) (latest : Nat → Data) : Prop where
  cached : ∀ entry, (c.blocks entry).valid = true →
    (c.blocks entry).data = latest (c.blocks entry).blockNum ∧
      ((c.blocks entry).dirty = true ∨
        c.disk (c.blocks entry).blockNum = latest (c.blocks entry).blockNum)
  away : ∀ num, ¬ Present c num → ¬ Pending active num → c.disk num = latest num
  pending : ∀ a ∈ active, ∀ num why, a.stage = .evict num why →
    (c.blocks a.entry).data = latest num ∧ ¬ Present c num
  single : ∀ a ∈ active, ∀ b ∈ active, ∀ num why why', a.stage = .evict num why →
    b.stage = .evict num why' → a = b
  fetched : ∀ a ∈ active, ∀ why, a.stage = .loaded why true →
    (c.blocks a.entry).data = latest a.num ∧ ¬ Pending active a.num
  written : ∀ a ∈ active, a.stage.wrote = true → (c.blocks a.entry).valid = true →
    c.disk a.num = latest a.num
  working : ∀ a ∈ active, a.stage.writing = true → (c.blocks a.entry).valid = true

def Coherent (s : System Data) : Prop :=
  Indexed s.cache s.active ∧ Current s.cache s.active s.latest

variable {c after : Cache Data} {active' : List Activity} {a : Activity}

theorem pending_perm (perm : active.Perm rest) (num : Nat) :
    Pending active num ↔ Pending rest num := by
  simp only [Pending, perm.mem_iff]

theorem current_perm (perm : active.Perm rest) (current : Current c active latest) :
    Current c rest latest where
  cached := current.cached
  away num gone done := current.away num gone fun known => done ((pending_perm perm num).mp known)
  pending a member := current.pending a (perm.mem_iff.mpr member)
  single a first b second := current.single a (perm.mem_iff.mpr first) b (perm.mem_iff.mpr second)
  fetched a member why stage := by
    rw [← pending_perm perm]
    exact current.fetched a (perm.mem_iff.mpr member) why stage
  written a member := current.written a (perm.mem_iff.mpr member)
  working a member := current.working a (perm.mem_iff.mpr member)

theorem coherent_front (coherent : Coherent ⟨c, active, latest⟩) (member : a ∈ active) :
    Coherent ⟨c, a :: active.erase a, latest⟩ :=
  have front := List.perm_cons_erase member
  ⟨indexed_perm front coherent.1, current_perm front coherent.2⟩

theorem loading_of_evict (stage : a.stage = .evict num why) : a.stage.loading = true := by
  rw [stage]
  rfl

theorem loading_of_loaded (stage : a.stage = .loaded why ok) : a.stage.loading = true := by
  rw [stage]
  rfl

/-- The block of an entry that is being loaded is in no valid entry. -/
theorem loading_absent (indexed : Indexed c active) (member : a ∈ active)
    (loading : a.stage.loading = true) : ¬ Present c a.num := by
  rintro ⟨entry, valid, number⟩
  have same := indexed.unique entry a.entry (.inl valid) (.inr ⟨a, member, loading, rfl⟩)
    (number.trans (indexed.own a member).2.symm)
  exact valid_not_loading indexed valid member loading same.symm

theorem present_unique (indexed : Indexed c active) (first : (c.blocks left).valid = true)
    (second : (c.blocks right).valid = true)
    (same : (c.blocks left).blockNum = (c.blocks right).blockNum) : left = right :=
  indexed.unique left right (.inl first) (.inl second) same

/-- A change of an entry that is not valid, before and after, is no change of the contents. -/
theorem present_congr (others : ∀ other, other ≠ entry → after.blocks other = c.blocks other)
    (invalid : (after.blocks entry).valid = false) (before : (c.blocks entry).valid = false)
    (n : Nat) : Present after n ↔ Present c n := by
  refine exists_congr fun other => ?_
  by_cases same : other = entry
  · simp [same, invalid, before]
  · rw [others other same]

theorem cached_congr (current : Current c active latest)
    (others : ∀ other, other ≠ entry → after.blocks other = c.blocks other)
    (invalid : (after.blocks entry).valid = false) (disk : after.disk = c.disk) (other : Nat)
    (valid : (after.blocks other).valid = true) :
    (after.blocks other).data = latest (after.blocks other).blockNum ∧
      ((after.blocks other).dirty = true ∨
        after.disk (after.blocks other).blockNum = latest (after.blocks other).blockNum) := by
  by_cases same : other = entry
  · rw [same, invalid] at valid
    cases valid
  · rw [disk]
    rw [others other same] at valid ⊢
    exact current.cached other valid

structure Fair (c : Cache Data) (active : List Activity) (latest : Nat → Data) (a : Activity) :
    Prop where
  pending : ∀ num why, a.stage = .evict num why →
    ((c.blocks a.entry).data = latest num ∧ ¬ Present c num) ∧
      ∀ b ∈ active, ∀ why', b.stage = .evict num why' → a = b
  fetched : ∀ why, a.stage = .loaded why true →
    (c.blocks a.entry).data = latest a.num ∧ ¬ Pending active a.num
  written : a.stage.wrote = true → (c.blocks a.entry).valid = true → c.disk a.num = latest a.num
  working : a.stage.writing = true → (c.blocks a.entry).valid = true

theorem Current.fair (current : Current c active latest) (member : a ∈ active) :
    Fair c active latest a where
  pending num why stage := ⟨current.pending a member num why stage,
    fun b other why' => current.single a member b other num why why' stage⟩
  fetched := current.fetched a member
  written := current.written a member
  working := current.working a member

theorem current_of_fair (cached : ∀ entry, (c.blocks entry).valid = true →
      (c.blocks entry).data = latest (c.blocks entry).blockNum ∧ ((c.blocks entry).dirty = true ∨
          c.disk (c.blocks entry).blockNum = latest (c.blocks entry).blockNum))
    (away : ∀ num, ¬ Present c num → ¬ Pending active num → c.disk num = latest num)
    (fair : ∀ a ∈ active, Fair c active latest a) : Current c active latest where
  cached := cached
  away := away
  pending a member num why stage := ((fair a member).pending num why stage).1
  single a first b second num why why' atA := ((fair a first).pending num why atA).2 b second why'
  fetched a member := (fair a member).fetched
  written a member := (fair a member).written
  working a member := (fair a member).working

theorem fair_quiet (quiet : a.stage.loading = false)
    (written : a.stage.wrote = true → c.disk a.num = latest a.num)
    (working : a.stage.writing = true → (c.blocks a.entry).valid = true) :
    Fair c active latest a where
  pending num why stage := by
    rw [loading_of_evict stage] at quiet
    cases quiet
  fetched why stage := by
    rw [loading_of_loaded stage] at quiet
    cases quiet
  written done _ := written done
  working := working

section

-- write-backs that others have begun meanwhile are of blocks that were in the cache
variable (fair : Fair c active latest a)
  (disk : c.disk a.num = latest a.num → after.disk a.num = latest a.num)
  (present : ∀ n why, a.stage = .evict n why → Present after n → Present c n)
  (begun : ∀ b ∈ active', ∀ n why, b.stage = .evict n why →
    b ∈ active ∨ (Present c n ∧ (a.stage.loading = true → n ≠ a.num)))

include fair disk present begun

theorem Fair.keep
    (data : a.stage.loading = true → (after.blocks a.entry).data = (c.blocks a.entry).data)
    (valid : a.stage.wrote = true → (after.blocks a.entry).valid = true →
      (c.blocks a.entry).valid = true)
    (still : a.stage.writing = true → (c.blocks a.entry).valid = true →
      (after.blocks a.entry).valid = true) : Fair after active' latest a where
  pending num why stage := by
    obtain ⟨⟨contents, gone⟩, single⟩ := fair.pending num why stage
    rw [data (loading_of_evict stage)]
    refine ⟨⟨contents, fun here => gone (present num why stage here)⟩, fun b member why' atB => ?_⟩
    rcases begun b member num why' atB with old | ⟨here, -⟩
    · exact single b old why' atB
    · exact absurd here gone
  fetched why stage := by
    have loading := loading_of_loaded stage
    obtain ⟨contents, done⟩ := fair.fetched why stage
    rw [data loading]
    refine ⟨contents, ?_⟩
    rintro ⟨b, member, why', atB⟩
    rcases begun b member a.num why' atB with old | ⟨-, other⟩
    · exact done ⟨b, old, why', atB⟩
    · exact other loading rfl
  written wrote isValid := disk (fair.written wrote (valid wrote isValid))
  working writing := still writing (fair.working writing)

theorem Fair.other (same : after.blocks a.entry = c.blocks a.entry) :
    Fair after active' latest a := by
  apply fair.keep disk present begun
  all_goals
    rw [same]
    intros
    trivial

end

/-- What no change of the contents has to do with: activities come and go, flags are set. -/
theorem current_keep (current : Current c active latest)
    (num : ∀ other, (after.blocks other).blockNum = (c.blocks other).blockNum)
    (valid : ∀ other, (after.blocks other).valid = (c.blocks other).valid)
    (data : ∀ other, (after.blocks other).data = (c.blocks other).data)
    (dirty : ∀ other, (c.blocks other).valid = true → (c.blocks other).dirty = true →
      (after.blocks other).dirty = true ∨ c.disk (c.blocks other).blockNum =
        latest (c.blocks other).blockNum)
    (disk : ∀ num, c.disk num = latest num → after.disk num = latest num)
    (stages : ∀ b ∈ active', b ∈ active ∨ (b.stage.loading = false ∧
      (b.stage.wrote = true → after.disk b.num = latest b.num) ∧
      (b.stage.writing = true → (c.blocks b.entry).valid = true)))
    (kept : ∀ b ∈ active, b.stage.loading = true → b ∈ active') :
    Current after active' latest := by
  have present : ∀ n, Present after n ↔ Present c n := by
    intro n
    simp only [Present, num, valid]
  refine current_of_fair ?_ ?_ ?_
  · intro other isValid
    rw [valid] at isValid
    obtain ⟨contents, clean⟩ := current.cached other isValid
    rw [num, data]
    refine ⟨contents, ?_⟩
    rcases clean with isDirty | same
    · exact (dirty other isValid isDirty).imp_right (disk _)
    · exact .inr (disk _ same)
  · intro n gone done
    rw [present] at gone
    refine disk n (current.away n gone ?_)
    rintro ⟨b, member, why, stage⟩
    exact done ⟨b, kept b member (loading_of_evict stage), why, stage⟩
  · intro b member
    rcases stages b member with old | ⟨quiet, written, working⟩
    · refine (current.fair old).keep (disk _) (fun n _ _ => (present n).mp)
        (fun d memberD n why stage => ?_) (fun _ => data _) (by simp [valid]) (by simp [valid])
      · rcases stages d memberD with old | ⟨quiet, -⟩
        · exact .inl old
        · rw [loading_of_evict stage] at quiet
          cases quiet
    · refine fair_quiet quiet written ?_
      rw [valid]
      exact working

/-- The write-back that a load begins with: the contents are on the disk from now on. -/
theorem current_written_back (current : Current c (a :: rest) latest)
    (stage : a.stage = .evict num why) (blocks : after.blocks = c.blocks)
    (disk : ∀ other, after.disk other = if other = num then latest num else c.disk other) :
    Current after ({ a with stage := .load why } :: rest) latest := by
  have known : ∀ n, c.disk n = latest n → after.disk n = latest n := by
    intro n same
    rw [disk]
    split
    next here => rw [here]
    · exact same
  have present : ∀ n, Present after n ↔ Present c n := by
    intro n
    simp only [Present, blocks]
  refine current_of_fair ?_ ?_ ?_
  · intro entry valid
    rw [blocks] at valid ⊢
    obtain ⟨contents, clean⟩ := current.cached entry valid
    exact ⟨contents, clean.imp_right (known _)⟩
  · intro n gone done
    rw [present] at gone
    by_cases here : n = num
    · rw [disk, if_pos here, here]
    refine known n (current.away n gone ?_)
    rintro ⟨b, member, why', atB⟩
    rcases List.mem_cons.mp member with rfl | old
    · rw [stage] at atB
      cases atB
      exact here rfl
    · exact done ⟨b, .tail _ old, why', atB⟩
  · intro b member
    rcases List.mem_cons.mp member with rfl | old
    · constructor <;> intros <;> contradiction
    refine (current.fair (.tail _ old)).other (known _) (fun n _ _ => (present n).mp)
      (fun d memberD n why' atD => .inl ?_) (by rw [blocks])
    rcases List.mem_cons.mp memberD with rfl | oldD
    · cases atD
    · exact .tail _ oldD

/-- An entry is reserved: what it held goes with the activity if it is not on the disk. -/
theorem current_reserve (indexed : Indexed c active) (current : Current c active latest)
    (free : (c.blocks entry).refcount = 0) (num : Nat)
    (spared : stage.wrote = false ∧ stage.writing = false ∧ ∀ why ok, stage ≠ .loaded why ok)
    (carries : ∀ n, (∃ why, stage = .evict n why) ↔
      (isDirty c entry = true ∧ (c.blocks entry).blockNum = n)) :
    Current (touch (reserve c num entry) entry) (⟨entry, num, stage⟩ :: active) latest := by
  have unused := unused_of_refcount indexed free
  have blocks := reserve_blocks c num entry
  have disk : (touch (reserve c num entry) entry).disk = c.disk := (reserve_recent c num entry).2
  have isOther : ∀ other, ((touch (reserve c num entry) entry).blocks other).valid = true →
      other ≠ entry := by
    rintro other valid rfl
    rw [blocks, update_self] at valid
    cases valid
  have present : ∀ n, Present (touch (reserve c num entry) entry) n → Present c n ∧
      ¬ ((c.blocks entry).valid = true ∧ (c.blocks entry).blockNum = n) := by
    rintro n ⟨other, valid, number⟩
    have different := isOther other valid
    rw [blocks, update_of_ne different] at valid number
    refine ⟨⟨other, valid, number⟩, fun held => different ?_⟩
    exact present_unique indexed valid held.1 (number.trans held.2.symm)
  have dirtyHere : ∀ {n}, (∃ why, stage = .evict n why) → (c.blocks entry).valid = true ∧
      (c.blocks entry).blockNum = n := by
    intro n evicts
    obtain ⟨dirty, number⟩ := (carries n).mp evicts
    rw [isDirty, Bool.and_eq_true] at dirty
    exact ⟨dirty.1, number⟩
  refine current_of_fair ?_ ?_ ?_
  · intro other valid
    have different := isOther other valid
    rw [disk]
    rw [blocks, update_of_ne different] at valid ⊢
    exact current.cached other valid
  · intro n gone done
    rw [disk]
    by_cases held : (c.blocks entry).valid = true ∧ (c.blocks entry).blockNum = n
    · rcases (current.cached entry held.1).2 with dirty | clean
      · obtain ⟨why, same⟩ := (carries n).mpr ⟨by rw [isDirty, held.1, dirty]; rfl, held.2⟩
        exact absurd ⟨_, .head _, why, same⟩ done
      · rw [held.2] at clean
        exact clean
    · refine current.away n ?_ fun ⟨b, member, atB⟩ => done ⟨b, .tail _ member, atB⟩
      rintro ⟨place, valid, number⟩
      have different : place ≠ entry := by
        rintro rfl
        exact held ⟨valid, number⟩
      refine gone ⟨place, ?_⟩
      rw [blocks, update_of_ne different]
      exact ⟨valid, number⟩
  · intro b member
    rcases List.mem_cons.mp member with rfl | old
    · refine ⟨fun n why atB => ?_, fun why atB => absurd atB (spared.2.2 why true), ?_, ?_⟩
      · -- a block with a write-back to be done is not in a valid entry, the reserved one was
        obtain ⟨valid, number⟩ := dirtyHere ⟨why, atB⟩
        rw [blocks, update_self]
        refine ⟨⟨?_, fun still => (present n still).2 ⟨valid, number⟩⟩, fun d memberD why' atD => ?_⟩
        · rw [← number]
          exact (current.cached entry valid).1
        · rcases List.mem_cons.mp memberD with rfl | oldD
          · rfl
          · exact absurd ⟨entry, valid, number⟩ (current.pending d oldD n why' atD).2
      · simp [spared.1]
      · simp [spared.2.1]
    · refine (current.fair old).other (by rw [disk]; exact id)
        (fun n _ _ still => (present n still).1) ?_
        (by rw [blocks, update_of_ne (not_used unused old)])
      intro d memberD n why atD
      rcases List.mem_cons.mp memberD with rfl | oldD
      · have here : Present c n := ⟨entry, dirtyHere ⟨why, atD⟩⟩
        refine .inr ⟨here, fun loading same => ?_⟩
        exact loading_absent indexed old loading (same ▸ here)
      · exact .inl oldD

section

variable (indexed : Indexed c (a :: rest)) (current : Current c (a :: rest) latest)

include indexed current

/-- The transfer from the disk. It brings the latest contents, since no write-back of the
block is left to be done. -/
theorem current_read (stage : a.stage = .load why) (done : ¬ Pending (a :: rest) a.num)
    (ok : Bool) :
    Current (readBlock c a.num a.entry ok) ({ a with stage := .loaded why ok } :: rest) latest := by
  have loading : a.stage.loading = true := by
    rw [stage]
    rfl
  have invalid := (indexed.alone a (.head _) loading).1
  have fresh : c.disk a.num = latest a.num :=
    current.away a.num (loading_absent indexed (.head _) loading) done
  have others : ∀ other, other ≠ a.entry →
      (readBlock c a.num a.entry ok).blocks other = c.blocks other := by
    intro other different
    cases ok with
    | false => rfl
    | true => exact update_of_ne different _ _
  have still : ((readBlock c a.num a.entry ok).blocks a.entry).valid = false := by
    cases ok with
    | false => exact invalid
    | true => simpa [readBlock, setBlock] using invalid
  have disk : (readBlock c a.num a.entry ok).disk = c.disk := by cases ok <;> rfl
  have present : ∀ n, Present (readBlock c a.num a.entry ok) n ↔ Present c n :=
    present_congr others still invalid
  have pending : ∀ n, Pending ({ a with stage := .loaded why ok } :: rest) n ↔
      Pending (a :: rest) n := by
    intro n
    simp [Pending, stage]
  refine current_of_fair ?_ ?_ ?_
  · exact cached_congr current others still disk
  · intro n gone settled
    rw [present] at gone
    rw [pending] at settled
    rw [disk]
    exact current.away n gone settled
  · intro b member
    rcases List.mem_cons.mp member with rfl | old
    · constructor
      case fetched =>
        intro why' atB
        cases atB
        rw [pending]
        refine ⟨?_, done⟩
        simp only [readBlock, if_true, setBlock, update_self]
        exact fresh
      all_goals
        intros
        contradiction
    · refine (current.fair (.tail _ old)).other (by rw [disk]; exact id)
        (fun n _ _ => (present n).mp) (fun d memberD n why' atD => .inl ?_)
        (others _ (not_used (loading_unused indexed loading) old))
      · rcases List.mem_cons.mp memberD with rfl | oldD
        · cases atD
        · exact .tail _ oldD

theorem current_loaded (stage : a.stage = .loaded why true)
    (others : ∀ other, other ≠ a.entry → after.blocks other = c.blocks other)
    (num : (after.blocks a.entry).blockNum = a.num)
    (data : (after.blocks a.entry).data = (c.blocks a.entry).data)
    (disk : after.disk = c.disk)
    (fewer : ∀ b ∈ active', b ∈ rest ∨ b.stage = .hold) (kept : ∀ b ∈ rest, b ∈ active') :
    Current after active' latest := by
  have loading := loading_of_loaded stage
  have invalid := (indexed.alone a (.head _) loading).1
  obtain ⟨contents, done⟩ := current.fetched a (.head _) why stage
  have fresh : c.disk a.num = latest a.num :=
    current.away a.num (loading_absent indexed (.head _) loading) done
  refine current_of_fair ?_ ?_ ?_
  · intro other valid
    rw [disk]
    by_cases same : other = a.entry
    · rw [same, num, data]
      exact ⟨contents, .inr fresh⟩
    · rw [others other same] at valid ⊢
      exact current.cached other valid
  · intro n gone settled
    rw [disk]
    refine current.away n ?_ ?_
    · rintro ⟨other, valid, number⟩
      have different : other ≠ a.entry := by
        rintro rfl
        rw [invalid] at valid
        cases valid
      refine gone ⟨other, ?_⟩
      rw [others other different]
      exact ⟨valid, number⟩
    · rintro ⟨b, member, why', atB⟩
      rcases List.mem_cons.mp member with rfl | known
      · rw [stage] at atB
        cases atB
      · exact settled ⟨b, kept b known, why', atB⟩
  · intro b member
    rcases fewer b member with old | hold
    · refine (current.fair (.tail _ old)).other (by rw [disk]; exact id) ?_
        (fun d memberD n why' atD => .inl ?_)
        (others _ (not_used (loading_unused indexed loading) old))
      · rintro n why' atB ⟨other, valid, number⟩
        by_cases same : other = a.entry
        · rw [same, num] at number
          exact absurd ⟨b, .tail _ old, why', number ▸ atB⟩ done
        · rw [others other same] at valid number
          exact ⟨other, valid, number⟩
      · rcases fewer d memberD with oldD | hold
        · exact .tail _ oldD
        · rw [hold] at atD
          cases atD
    · refine fair_quiet ?_ ?_ ?_ <;> simp [hold, Stage.loading, Stage.wrote, Stage.writing]

/-- An invalid entry that nobody has use for any more may change as it likes. -/
theorem current_abandon (stage : a.stage = .loaded why false)
    (others : ∀ other, other ≠ a.entry → after.blocks other = c.blocks other)
    (invalid : (after.blocks a.entry).valid = false) (disk : after.disk = c.disk) :
    Current after rest latest := by
  have loading := loading_of_loaded stage
  have present := present_congr others invalid (indexed.alone a (.head _) loading).1
  refine current_of_fair ?_ ?_ ?_
  · exact cached_congr current others invalid disk
  · intro n gone settled
    rw [present] at gone
    rw [disk]
    refine current.away n gone fun pending => settled ?_
    simpa [Pending, stage] using pending
  · intro b member
    exact (current.fair (.tail _ member)).other (by rw [disk]; exact id)
      (fun n _ _ => (present n).mp) (fun d memberD _ _ _ => .inl (.tail _ memberD))
      (others _ (not_used (loading_unused indexed loading) member))

end

/-- A modification of a valid entry whose write-backs, if any, are not done yet. -/
theorem current_modify (indexed : Indexed c active)
    (current : Current c active latest) (valid : (c.blocks entry).valid = true)
    (unwritten : ∀ b ∈ active, b.stage.wrote = true → b.entry ≠ entry) (data : Data) :
    Current (modify c entry data) active (update latest (c.blocks entry).blockNum data) := by
  have others : ∀ other, other ≠ entry → (modify c entry data).blocks other = c.blocks other :=
    fun other different => update_of_ne different _ _
  have here : (modify c entry data).blocks entry = { c.blocks entry with data, dirty := true } :=
    update_self _ _ _
  have present : ∀ n, Present (modify c entry data) n ↔ Present c n := by
    intro n
    refine exists_congr fun other => ?_
    by_cases same : other = entry
    · rw [same, here]
    · rw [others other same]
  have elsewhere : ∀ n, ¬ Present c n →
      update latest (c.blocks entry).blockNum data n = latest n := by
    intro n gone
    refine update_of_ne ?_ _ _
    rintro rfl
    exact gone ⟨entry, valid, rfl⟩
  constructor
  case cached =>
    intro other isValid
    by_cases same : other = entry
    · rw [same, here]
      exact ⟨(update_self (c.blocks entry).blockNum data latest).symm, .inl rfl⟩
    rw [others other same] at isValid ⊢
    have different : (c.blocks other).blockNum ≠ (c.blocks entry).blockNum :=
      fun equal => same (present_unique indexed isValid valid equal)
    rw [update_of_ne different]
    exact current.cached other isValid
  case away =>
    intro n gone done
    rw [present] at gone
    rw [elsewhere n gone]
    exact current.away n gone done
  case pending =>
    intro b member n why stage
    have apart := valid_not_loading indexed valid member (loading_of_evict stage)
    obtain ⟨contents, gone⟩ := current.pending b member n why stage
    rw [others b.entry apart, present, elsewhere n gone]
    exact ⟨contents, gone⟩
  case single => exact current.single
  case fetched =>
    intro b member why stage
    have loading := loading_of_loaded stage
    have apart := valid_not_loading indexed valid member loading
    rw [others b.entry apart, elsewhere b.num (loading_absent indexed member loading)]
    exact current.fetched b member why stage
  case written =>
    intro b member wrote isValid
    have apart := unwritten b member wrote
    rw [others b.entry apart] at isValid
    have different : b.num ≠ (c.blocks entry).blockNum := by
      intro same
      rw [← (indexed.own b member).2] at same
      exact apart (present_unique indexed isValid valid same)
    rw [update_of_ne different]
    exact current.written b member wrote isValid
  case working =>
    intro b member writing
    by_cases same : b.entry = entry
    · rw [same, here]
      exact valid
    · rw [others b.entry same]
      exact current.working b member writing

/-- A block whose latest contents are on the disk may leave the cache. -/
theorem current_discard (current : Current c active latest) (clean : (c.blocks entry).valid = true →
      c.disk (c.blocks entry).blockNum = latest (c.blocks entry).blockNum)
    (idle : ∀ b ∈ active, b.stage.loading = true → b.entry ≠ entry)
    (unwritten : ∀ b ∈ active, b.stage.writing = true → b.entry ≠ entry) :
    Current (discard c entry) active latest := by
  have others : ∀ other, other ≠ entry → (discard c entry).blocks other = c.blocks other :=
    fun other different => update_of_ne different _ _
  have invalid : ((discard c entry).blocks entry).valid = false := by
    simp only [discard, setBlock, update_self]
  have valid : ∀ other, ((discard c entry).blocks other).valid = true →
      other ≠ entry ∧ (c.blocks other).valid = true := by
    intro other valid
    by_cases same : other = entry
    · rw [same, invalid] at valid
      cases valid
    · rw [others other same] at valid
      exact ⟨same, valid⟩
  refine current_of_fair (cached_congr current others invalid rfl) ?_ ?_
  · intro n gone done
    by_cases held : (c.blocks entry).valid = true ∧ (c.blocks entry).blockNum = n
    · have same := clean held.1
      rw [held.2] at same
      exact same
    refine current.away n ?_ done
    rintro ⟨other, isValid, number⟩
    have different : other ≠ entry := by
      rintro rfl
      exact held ⟨isValid, number⟩
    refine gone ⟨other, ?_⟩
    rw [others other different]
    exact ⟨isValid, number⟩
  · intro b member
    refine (current.fair member).keep id ?_ (fun d memberD _ _ _ => .inl memberD) ?_
      (fun _ still => (valid _ still).2) ?_
    · rintro n why - ⟨other, still, number⟩
      obtain ⟨different, before⟩ := valid other still
      rw [others other different] at number
      exact ⟨other, before, number⟩
    · intro loading
      rw [others _ (idle b member loading)]
    · intro writing isValid
      rw [others _ (unwritten b member writing)]
      exact isValid

end ViperDos.BlockCache
