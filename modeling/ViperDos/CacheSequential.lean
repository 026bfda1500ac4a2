import ViperDos.CacheRuns

/-!
The block cache with one caller at a time, as its header file assumes. A call is put together
from the locked parts and the transfers of the function, and the disk says of each transfer
whether it fails. Between two calls nobody is in the middle of anything, so a call is a run of
the moves of the callers side by side, and what holds along careful runs holds here.
-/

namespace ViperDos.BlockCache

open Transition Function

/-- Whether the disk carries out the transfers of a call, by block. No call writes a block
twice. -/
structure Answers where
  writes : Nat → Bool
  reads : Nat → Bool

variable {Data : Type}

section

variable (c : Cache Data) (answers : Answers)

def writeBack (entry : Nat) : Cache Data :=
  let num := (c.blocks entry).blockNum
  markClean (writeBlock (addRef c entry) num entry (answers.writes num)) entry

def load (why : Purpose) (num entry : Nat) : Cache Data :=
  finishLoad (readBlock c num entry (answers.reads num)) why num entry (answers.reads num)

def spill (entry : Nat) : Option Nat → Cache Data
  | some num => writeBlock c num entry (answers.writes num)
  | none => c

def prefetch (ahead : Nat) : Option (Cache Data) :=
  match findAny c ahead with
  | some _ => some c
  | none =>
    (findEvictionVictim c).map fun entry =>
      let written := spill (reserve c ahead entry) answers entry (writeBackOf c entry)
      let loaded := readBlock written ahead entry (answers.reads ahead)
      if answers.reads ahead then
        setBlock loaded entry { loaded.blocks entry with valid := true, refcount := 0 }
      else
        setBlock (removeHash loaded entry) entry
          { loaded.blocks entry with blockNum := 0, refcount := 0 }

def readAheadUnlocked (c : Cache Data) (answers : Answers) (num : Nat) : Nat → Cache Data
  | 0 => c
  | left + 1 =>
    match prefetch c answers (num + 1) with
    | none => c
    | some after => readAheadUnlocked after answers (num + 1) left

/-- `get` and `get_for_write`. There is no result when the call never returns: it tries again
for as long as the block is being loaded. -/
def get (forWrite : Bool) (num : Nat) : Option (Option Nat × Cache Data) :=
  match lookup c forWrite num with
  | .busy => none
  | .full => some (none, c)
  | .hit entry after => some (some entry, after)
  | .miss entry old after =>
    let loaded := load (spill after answers entry old) answers (purposeOf forWrite) num entry
    if answers.reads num then
      if !forWrite ∧ num = c.lastBlock + 1 then
        some (some entry, readAheadUnlocked loaded answers num readAheadBlocks)
      else some (some entry, loaded)
    else some (none, loaded)

def syncBlock (entry : Nat) : Cache Data :=
  let num := (c.blocks entry).blockNum
  if isDirty c entry && answers.writes num then
    setBlock (writeBlock c num entry true) entry { c.blocks entry with dirty := false }
  else c

def syncEach (answers : Answers) (c : Cache Data) : List Nat → Cache Data
  | [] => c
  | entry :: rest =>
    if isDirty c entry then syncEach answers (writeBack c answers entry) rest
    else syncEach answers c rest

def sync : Cache Data :=
  syncEach answers c (dirtyIndices c)

def invalidate (num : Nat) : Cache Data :=
  match find c num with
  | none => c
  | some entry =>
    if (c.blocks entry).dirty then discard (writeBack c answers entry) entry
    else discard c entry

def pin (c : Cache Data) (answers : Answers) (num : Nat) : Bool × Cache Data :=
  match find c num with
  | some entry => (true, setPinned c entry true)
  | none =>
    match findEvictionVictim c with
    | none => (false, c)
    | some entry =>
      let written := if isDirty c entry then writeBack c answers entry else c
      (answers.reads num,
        load (touch (reserve written num entry) entry) answers .pin num entry)

def unpin (c : Cache Data) (num : Nat) : Cache Data :=
  match find c num with
  | none => c
  | some entry => setPinned c entry false

inductive Op (Data : Type) where
  | get (forWrite : Bool) (num : Nat)
  | modify (a : Activity) (data : Data)
  | release (a : Activity)
  | sync
  | syncBlock (entry : Nat)
  | invalidate (num : Nat)
  | pin (num : Nat)
  | unpin (num : Nat)

/-- A call, with the entry that `get` returns. A block is modified and released by somebody
who has got it. -/
def call (s : System Data) (answers : Answers) : Op Data → Option (Option Nat × System Data)
  | .get forWrite num =>
    (get s.cache answers forWrite num).map fun (got, cache) =>
      (got, { s with
        cache
        active := got.elim s.active fun entry => ⟨entry, num, .hold⟩ :: s.active })
  | .modify a data => (perform s (.modify a data)).map fun after => (none, after)
  | .release a => (perform s (.release a)).map fun after => (none, after)
  | .sync => some (none, { s with cache := sync s.cache answers })
  | .syncBlock entry => some (none, { s with cache := syncBlock s.cache answers entry })
  | .invalidate num => some (none, { s with cache := invalidate s.cache answers num })
  | .pin num => some (none, { s with cache := (pin s.cache answers num).2 })
  | .unpin num => some (none, { s with cache := unpin s.cache num })

def Calls (s : System Data) (made : Op Data × Answers) (after : System Data) : Prop :=
  ∃ result, call s made.2 made.1 = some (result, after)

/-- Blocks are modified through valid entries, and one more use can be counted of an entry
that a call comes to use. -/
def Held (c : Cache Data) : Op Data → Prop
  | .get _ num => ∀ entry, findAny c num = some entry → Room c entry
  | .modify a _ => (c.blocks a.entry).valid = true
  | .sync => ∀ entry, isDirty c entry = true → Room c entry
  | .invalidate num => ∀ entry, find c num = some entry → Room c entry
  | _ => True

def WritesBack (c : Cache Data) : Op Data → Nat → Prop
  | .get _ num => fun entry => findAny c num = none ∧ findEvictionVictim c = some entry
  | .sync => fun _ => True
  | .syncBlock which => fun entry => entry = which
  | .invalidate num => fun entry => find c num = some entry
  | .pin num => fun entry => find c num = none ∧ findEvictionVictim c = some entry
  | _ => fun _ => False

def Written (op : Op Data) : Prop :=
  ∀ entry, WritesBack c op entry → (∀ which, op ≠ .syncBlock which) →
    isDirty c entry = true → answers.writes (c.blocks entry).blockNum = true

end

def Sound (s : System Data) (made : Op Data × Answers) : Prop :=
  Held s.cache made.1 ∧ Written s.cache made.2 made.1

def Reaches (s after : System Data) : Prop :=
  ∃ moves, Run (Guarded Careful Moves) s moves after

def Quiet (active : List Activity) : Prop := ∀ a ∈ active, a.stage = .hold

variable {s : System Data} {c : Cache Data}

theorem reaches_refl (s : System Data) : Reaches s s := ⟨[], Run.refl s⟩

variable {middle after : System Data} {move : Move Data} {a b : Activity} {num entry other : Nat}
  {stage : Stage} {active : List Activity} {latest disk memory : Nat → Data} {answers : Answers}
  {old got result : Option Nat} {forWrite : Bool} {op : Op Data} {calls : List (Op Data × Answers)}
  {todo : List Nat} {made : Op Data × Answers}

theorem reaches_trans (first : Reaches s middle) (second : Reaches middle after) :
    Reaches s after := by
  obtain ⟨left, before⟩ := first
  obtain ⟨right, later⟩ := second
  exact ⟨left ++ right, run_append before later⟩

theorem reaches_step (performed : perform s move = some middle) (careful : Careful s move)
    (rest : Reaches middle after) : Reaches s after := by
  obtain ⟨moves, run⟩ := rest
  exact ⟨move :: moves, Run.next ⟨careful, performed⟩ run⟩

theorem reaches_coherent (coherent : Coherent s) (reached : Reaches s after) : Coherent after := by
  obtain ⟨moves, run⟩ := reached
  exact run_coherent coherent run

theorem advance_front (a : Activity) (rest : List Activity) (stage : Stage) :
    advance (a :: rest) a stage = { a with stage } :: rest := by
  simp [advance]

theorem perform_write (wanted : writeOf a = some (num, stage)) (ok : Bool) :
    perform ⟨c, a :: active, latest⟩ (.write a ok) =
      some ⟨writeBlock c num a.entry ok, { a with stage } :: active, latest⟩ := by
  simp [perform, wanted, advance_front]

theorem perform_finish (ended : finishStage ⟨c, a :: active, latest⟩ a = some after) :
    perform ⟨c, a :: active, latest⟩ (.finish a) = some after := by
  rw [perform, if_pos (.head _), ended]

section

variable (quiet : Quiet active)

include quiet

theorem quiet_pending : ¬ Pending active num := by
  rintro ⟨a, member, why, stage⟩
  rw [quiet a member] at stage
  cases stage

theorem quiet_writing (member : b ∈ active) : b.stage.writing = false := by
  rw [quiet b member]
  rfl

theorem quiet_listed (listed : Listed c active entry) : (c.blocks entry).valid = true := by
  rcases listed with valid | ⟨a, member, loading, _⟩
  · exact valid
  · rw [quiet a member] at loading
    cases loading

theorem quiet_hold (entry num : Nat) : Quiet (⟨entry, num, .hold⟩ :: active) := by
  intro a member
  rcases List.mem_cons.mp member with rfl | old
  · rfl
  · exact quiet a old

theorem reaches_load (why : Purpose) :
    Reaches ⟨c, ⟨entry, num, .load why⟩ :: active, latest⟩ ⟨load c answers why num entry,
        if answers.reads num ∧ why ≠ .pin then ⟨entry, num, .hold⟩ :: active else active,
        latest⟩ := by
  have unpended : ¬ Pending (⟨entry, num, .load why⟩ :: active) num := by
    rintro ⟨a, member, other, stage⟩
    rcases List.mem_cons.mp member with rfl | old
    · cases stage
    · exact quiet_pending quiet ⟨a, old, other, stage⟩
  have reads : perform ⟨c, ⟨entry, num, .load why⟩ :: active, latest⟩
      (.read ⟨entry, num, .load why⟩ (answers.reads num)) =
        some ⟨readBlock c num entry (answers.reads num),
          ⟨entry, num, .loaded why (answers.reads num)⟩ :: active, latest⟩ := by
    simp [perform, advance_front]
  have ends : perform ⟨readBlock c num entry (answers.reads num),
      ⟨entry, num, .loaded why (answers.reads num)⟩ :: active, latest⟩
      (.finish ⟨entry, num, .loaded why (answers.reads num)⟩) = some ⟨load c answers why num entry,
          if answers.reads num ∧ why ≠ .pin then ⟨entry, num, .hold⟩ :: active else active,
          latest⟩ :=
    perform_finish (by simp [finishStage, load])
  exact reaches_step reads unpended (reaches_step ends trivial (reaches_refl _))

theorem reaches_pinned :
    Reaches ⟨c, ⟨entry, num, .load .pin⟩ :: active, latest⟩
      ⟨load c answers .pin num entry, active, latest⟩ := by
  simpa using reaches_load (c := c) quiet .pin

end

theorem reaches_spill (written : ∀ n, old = some n → answers.writes n = true) (why : Purpose) :
    Reaches ⟨c, ⟨entry, num, reserved old why⟩ :: active, latest⟩
      ⟨spill c answers entry old, ⟨entry, num, .load why⟩ :: active, latest⟩ := by
  cases old with
  | none => exact reaches_refl _
  | some n =>
    exact reaches_step (perform_write rfl (answers.writes n)) (.inl (written n rfl))
      (reaches_refl _)

theorem get_cases {after : Cache Data} (made : get c answers forWrite num = some (got, after)) :
    (∃ entry, findAny c num = some entry ∧ (c.blocks entry).valid = true ∧ got = some entry ∧
      after = takeHit c forWrite num entry) ∨
    (findAny c num = none ∧ findEvictionVictim c = none ∧ got = none ∧ after = c) ∨
    ∃ entry, findAny c num = none ∧ findEvictionVictim c = some entry ∧
      got = (if answers.reads num then some entry else none) ∧
      after = load (spill (touch (reserve c num entry) entry) answers entry (writeBackOf c entry))
        answers (purposeOf forWrite) num entry := by
  -- the read-ahead is of no block
  simp only [get, readAheadBlocks, readAheadUnlocked, ite_self] at made
  rcases lookup_cases c forWrite num with ⟨_, _, _, looked⟩ | ⟨entry, found, valid, looked⟩ |
    ⟨found, full, looked⟩ | ⟨entry, found, chosen, looked⟩
  all_goals simp only [looked] at made
  · cases made
  · cases made
    exact .inl ⟨entry, found, valid, rfl, rfl⟩
  · cases made
    exact .inr (.inl ⟨found, full, rfl, rfl⟩)
  · refine .inr (.inr ⟨entry, found, chosen, ?_⟩)
    split at made
    next ok =>
      cases made
      exact ⟨(if_pos ok).symm, rfl⟩
    next failed =>
      cases made
      exact ⟨(if_neg failed).symm, rfl⟩

theorem get_returns (indexed : Indexed c active) (quiet : Quiet active) (answers : Answers)
    (forWrite : Bool) (num : Nat) : ∃ result, get c answers forWrite num = some result := by
  unfold get
  rcases lookup_cases c forWrite num with ⟨_, found, busy, looked⟩ | ⟨_, _, _, looked⟩ |
    ⟨_, _, looked⟩ | ⟨_, _, _, looked⟩
  all_goals rw [looked]
  · rw [quiet_listed quiet (findAny_spec indexed found).1] at busy
    cases busy
  · exact ⟨_, rfl⟩
  · exact ⟨_, rfl⟩
  dsimp only
  split
  · split
    · exact ⟨_, rfl⟩
    · exact ⟨_, rfl⟩
  · exact ⟨_, rfl⟩

theorem purposeOf_not_pin (forWrite : Bool) : purposeOf forWrite ≠ .pin := by
  cases forWrite <;> decide

theorem get_reaches {after : Cache Data} (quiet : Quiet active)
    (made : get c answers forWrite num = some (got, after))
    (held : Held c (.get forWrite num : Op Data))
    (written : Written c answers (.get forWrite num : Op Data)) :
    Reaches ⟨c, active, latest⟩
      ⟨after, got.elim active fun entry => ⟨entry, num, .hold⟩ :: active, latest⟩ := by
  rcases get_cases made with ⟨entry, found, valid, rfl, rfl⟩ | ⟨found, full, rfl, rfl⟩ |
    ⟨entry, found, chosen, rfl, rfl⟩
  · have hits : perform ⟨c, active, latest⟩ (.get forWrite num) =
        some ⟨takeHit c forWrite num entry, ⟨entry, num, .hold⟩ :: active, latest⟩ := by
      simp [perform, lookup, found, valid]
    exact reaches_step hits held (reaches_refl _)
  · exact reaches_refl _
  have misses : perform ⟨c, active, latest⟩ (.get forWrite num) =
      some ⟨touch (reserve c num entry) entry,
        ⟨entry, num, reserved (writeBackOf c entry) (purposeOf forWrite)⟩ :: active, latest⟩ := by
    simp [perform, lookup, found, chosen]
  have spilled : ∀ n, writeBackOf c entry = some n → answers.writes n = true := by
    intro n wanted
    unfold writeBackOf at wanted
    split at wanted
    next dirty =>
      cases wanted
      exact written entry ⟨found, chosen⟩ (fun _ same => by cases same) dirty
    · cases wanted
  refine reaches_step misses held (reaches_trans (reaches_spill spilled _) ?_)
  have holds : (if answers.reads num then some entry else none).elim active
      (fun entry => ⟨entry, num, .hold⟩ :: active) =
        if answers.reads num ∧ purposeOf forWrite ≠ .pin then ⟨entry, num, .hold⟩ :: active
        else active := by
    cases answers.reads num
    · simp
    · simp [purposeOf_not_pin]
  rw [holds]
  exact reaches_load quiet _

theorem find_missing (indexed : Indexed c active) (quiet : Quiet active)
    (missing : find c num = none) : findAny c num = none := by
  cases known : findAny c num with
  | none => rfl
  | some entry =>
    obtain ⟨listed, number⟩ := findAny_spec indexed known
    exact absurd ⟨entry, quiet_listed quiet listed, number⟩ (find_none indexed missing)

theorem writeBack_done (ok : answers.writes (c.blocks entry).blockNum = true) :
    markClean (writeBlock (addRef c entry) (c.blocks entry).blockNum entry true) entry =
      writeBack c answers entry := by
  rw [writeBack, ok]

theorem writeBack_blocks (c : Cache Data) (answers : Answers) (entry : Nat) :
    (writeBack c answers entry).blocks =
      update c.blocks entry { c.blocks entry with dirty := false } := by
  cases ok : answers.writes (c.blocks entry).blockNum <;>
    simp [writeBack, writeBlock, addRef, markClean, setBlock, ok]

theorem writeBack_refcount (c : Cache Data) (answers : Answers) (entry other : Nat) :
    ((writeBack c answers entry).blocks other).refcount = (c.blocks other).refcount := by
  rw [writeBack_blocks]
  by_cases same : other = entry
  · rw [same, update_self]
  · rw [update_of_ne same]

theorem writeBack_dirty (still : isDirty (writeBack c answers entry) other = true) :
    isDirty c other = true ∧ other ≠ entry := by
  rw [isDirty, writeBack_blocks] at still
  by_cases same : other = entry
  · rw [same, update_self, Bool.and_false] at still
    cases still
  · rw [update_of_ne same] at still
    exact ⟨still, same⟩

theorem reaches_sync (todo : List Nat) (room : ∀ entry ∈ todo, Room c entry)
    (written : ∀ entry, isDirty c entry = true → answers.writes (c.blocks entry).blockNum = true) :
    Reaches (flushNext ⟨c, active, latest⟩ todo) ⟨syncEach answers c todo, active, latest⟩ := by
  induction todo generalizing c with
  | nil => exact reaches_refl _
  | cons entry rest ih =>
    by_cases dirty : isDirty c entry = true
    · have ok := written entry dirty
      have start : flushNext ⟨c, active, latest⟩ (entry :: rest) =
          ⟨addRef c entry, ⟨entry, (c.blocks entry).blockNum, .flush rest⟩ :: active, latest⟩ := by
        simp [flushNext, nextDirty, dirty]
      have equal := writeBack_done ok
      have marks : perform ⟨writeBlock (addRef c entry) (c.blocks entry).blockNum entry true,
          ⟨entry, (c.blocks entry).blockNum, .flushed rest⟩ :: active, latest⟩
          (.finish ⟨entry, (c.blocks entry).blockNum, .flushed rest⟩) =
            some (flushNext ⟨writeBack c answers entry, active, latest⟩ rest) :=
        perform_finish (by simp [finishStage, equal])
      have roomy : ∀ other ∈ rest, Room (writeBack c answers entry) other := by
        intro other member
        unfold Room
        rw [writeBack_refcount]
        exact room other (.tail _ member)
      have cleaner : ∀ other, isDirty (writeBack c answers entry) other = true →
          answers.writes ((writeBack c answers entry).blocks other).blockNum = true := by
        intro other still
        obtain ⟨before, apart⟩ := writeBack_dirty still
        rw [writeBack_blocks, update_of_ne apart]
        exact written other before
      have loop : syncEach answers c (entry :: rest) =
          syncEach answers (writeBack c answers entry) rest := by
        rw [syncEach, if_pos dirty]
      rw [start, loop]
      refine reaches_step (perform_write rfl true) (.inl rfl)
        (reaches_step marks ?_ (ih roomy cleaner))
      exact fun other member => equal ▸ roomy other member
    · have skip : flushNext ⟨c, active, latest⟩ (entry :: rest) =
          flushNext ⟨c, active, latest⟩ rest := by
        simp [flushNext, nextDirty, dirty]
      have loop : syncEach answers c (entry :: rest) = syncEach answers c rest := by
        rw [syncEach, if_neg dirty]
      rw [skip, loop]
      exact ih (fun other member => room other (.tail _ member)) written

theorem dirtyIndices_dirty (listed : entry ∈ dirtyIndices c) : isDirty c entry = true := by
  unfold dirtyIndices at listed
  rw [List.mem_insertionSort, List.mem_filter] at listed
  exact listed.2

theorem sync_reaches (held : Held c (.sync : Op Data))
    (written : Written c answers (.sync : Op Data)) :
    Reaches ⟨c, active, latest⟩ ⟨sync c answers, active, latest⟩ := by
  refine reaches_step (show perform _ .sync = _ from rfl) held (reaches_sync _ ?_ ?_)
  · exact fun entry listed => held entry (dirtyIndices_dirty listed)
  · exact fun entry dirty => written entry trivial (fun _ same => by cases same) dirty

theorem invalidate_reaches (indexed : Indexed c active) (quiet : Quiet active)
    (held : Held c (.invalidate num : Op Data))
    (written : Written c answers (.invalidate num : Op Data)) :
    Reaches ⟨c, active, latest⟩ ⟨invalidate c answers num, active, latest⟩ := by
  unfold invalidate
  cases found : find c num with
  | none => exact reaches_refl _
  | some entry =>
    obtain ⟨valid, rfl⟩ := find_spec indexed found
    obtain room := held entry found
    have quietly : ∀ b ∈ active, b.stage.writing = true → b.entry ≠ entry := by
      intro b member writing
      rw [quiet_writing quiet member] at writing
      cases writing
    have careful : Careful ⟨c, active, latest⟩
        (.invalidate (c.blocks entry).blockNum : Move Data) := by
      intro other same
      rw [found] at same
      cases same
      exact ⟨room, fun _ => quietly⟩
    by_cases dirty : (c.blocks entry).dirty = true
    · have ok := written entry found (fun _ same => by cases same)
        (by rw [isDirty, valid, dirty]; rfl)
      have starts : perform ⟨c, active, latest⟩ (.invalidate (c.blocks entry).blockNum) =
          some ⟨addRef c entry, ⟨entry, (c.blocks entry).blockNum, .purge⟩ :: active, latest⟩ := by
        simp [perform, found, dirty]
      have equal := writeBack_done ok
      have ends : perform ⟨writeBlock (addRef c entry) (c.blocks entry).blockNum entry true,
          ⟨entry, (c.blocks entry).blockNum, .purged⟩ :: active, latest⟩
          (.finish ⟨entry, (c.blocks entry).blockNum, .purged⟩) =
            some ⟨discard (writeBack c answers entry) entry, active, latest⟩ :=
        perform_finish (by simp [finishStage, equal])
      simp only [if_pos dirty]
      refine reaches_step starts careful (reaches_step (perform_write rfl true) (.inl rfl)
        (reaches_step ends ?_ (reaches_refl _)))
      intro b member writing
      rcases List.mem_cons.mp member with rfl | old
      · cases writing
      · exact quietly b old writing
    · have drops : perform ⟨c, active, latest⟩ (.invalidate (c.blocks entry).blockNum) =
          some ⟨discard c entry, active, latest⟩ := by
        simp [perform, found, dirty]
      simp only [if_neg dirty]
      exact reaches_step drops careful (reaches_refl _)

theorem pin_reaches (indexed : Indexed c active) (quiet : Quiet active)
    (written : Written c answers (.pin num : Op Data)) :
    Reaches ⟨c, active, latest⟩ ⟨(pin c answers num).2, active, latest⟩ := by
  unfold pin
  have careful : Careful ⟨c, active, latest⟩ (.pin num : Move Data) :=
    fun entry known => quiet_listed quiet (findAny_spec indexed known).1
  cases found : find c num with
  | some entry =>
    have pins : perform ⟨c, active, latest⟩ (.pin num) =
        some ⟨setPinned c entry true, active, latest⟩ := by
      simp [perform, found]
    exact reaches_step pins careful (reaches_refl _)
  | none =>
    cases chosen : findEvictionVictim c with
    | none => exact reaches_refl _
    | some entry =>
      have missing := find_missing indexed quiet found
      by_cases dirty : isDirty c entry = true
      · have ok := written entry ⟨found, chosen⟩ (fun _ same => by cases same) dirty
        have starts : perform ⟨c, active, latest⟩ (.pin num) =
            some ⟨addRef c entry, ⟨entry, (c.blocks entry).blockNum, .spill num⟩ :: active,
              latest⟩ := by
          simp [perform, found, chosen, dirty]
        have equal := writeBack_done ok
        have takes : perform ⟨writeBlock (addRef c entry) (c.blocks entry).blockNum entry true,
            ⟨entry, (c.blocks entry).blockNum, .spilled num⟩ :: active, latest⟩
            (.finish ⟨entry, (c.blocks entry).blockNum, .spilled num⟩) =
              some ⟨touch (reserve (writeBack c answers entry) num entry) entry,
                ⟨entry, num, .load .pin⟩ :: active, latest⟩ :=
          perform_finish (by simp [finishStage, equal, pinLoad])
        have unused := unused_of_refcount indexed (victim_spec indexed chosen).1
        have apart : ∀ b ∈ active, b.entry ≠ entry := fun b member => not_used unused member
        have same : findAny (writeBlock (addRef c entry) (c.blocks entry).blockNum entry true)
            num = findAny c num :=
          findAny_same rfl (setBlock_field c CacheBlock.blockNum rfl)
        simp only [if_pos dirty]
        refine reaches_step starts careful (reaches_step (perform_write rfl true) (.inl rfl)
          (reaches_step takes ⟨?_, same.trans missing⟩ ?_))
        · rw [List.erase_cons_head]
          exact apart
        · exact reaches_pinned quiet
      · have takes : perform ⟨c, active, latest⟩ (.pin num) =
            some ⟨touch (reserve c num entry) entry, ⟨entry, num, .load .pin⟩ :: active,
              latest⟩ := by
          simp [perform, found, chosen, dirty, pinLoad]
        simp only [if_neg dirty]
        exact reaches_step takes careful (reaches_pinned quiet)

theorem written_coherent (coherent : Coherent ⟨c, active, latest⟩)
    (valid : (c.blocks entry).valid = true) :
    Coherent ⟨writeBlock c (c.blocks entry).blockNum entry true, active, latest⟩ := by
  obtain ⟨indexed, current⟩ := coherent
  have contents := (current.cached entry valid).1
  have same : ∀ n, c.disk n = latest n →
      (writeBlock c (c.blocks entry).blockNum entry true).disk n = latest n := by
    intro n equal
    by_cases here : n = (c.blocks entry).blockNum
    · rw [here]
      exact (update_self _ _ _).trans contents
    · exact (update_of_ne here _ _).trans equal
  refine ⟨⟨indexed.refs, indexed.own, indexed.inside, indexed.recent, indexed.filed,
    indexed.unique, indexed.alone⟩, ?_⟩
  exact current_keep current (fun _ => rfl) (fun _ => rfl) (fun _ => rfl)
    (fun _ _ dirty => .inl dirty) same (fun _ member => .inl member) fun _ member _ => member

theorem syncBlock_coherent (coherent : Coherent ⟨c, active, latest⟩) (answers : Answers)
    (entry : Nat) : Coherent ⟨syncBlock c answers entry, active, latest⟩ := by
  unfold syncBlock
  dsimp only
  split
  next writes =>
    rw [Bool.and_eq_true] at writes
    obtain ⟨valid, _⟩ := dirty_valid writes.1
    have contents := (coherent.2.cached entry valid).1
    refine coherent_flags (written_coherent coherent valid) rfl rfl rfl rfl fun _ => .inr ?_
    exact (update_self _ _ _).trans contents
  · exact coherent

/-- A call keeps the cache coherent, and leaves nobody in the middle of anything. -/
theorem call_coherent (coherent : Coherent s) (quiet : Quiet s.active)
    (sound : Sound s (op, answers)) (made : call s answers op = some (result, after)) :
    Coherent after ∧ Quiet after.active := by
  obtain ⟨c, active, latest⟩ := s
  obtain ⟨held, written⟩ := sound
  cases op with
  | get forWrite num =>
    obtain ⟨⟨got, cache⟩, returned, same⟩ := Option.map_eq_some_iff.mp made
    cases same
    refine ⟨reaches_coherent coherent (get_reaches quiet returned held written), ?_⟩
    cases result with
    | none => exact quiet
    | some entry => exact quiet_hold quiet entry num
  | modify a data =>
    obtain ⟨next, performed, same⟩ := Option.map_eq_some_iff.mp made
    cases same
    have careful : Careful ⟨c, active, latest⟩ (.modify a data) := by
      refine ⟨held, fun b member wrote => ?_⟩
      rw [quiet b member] at wrote
      cases wrote
    refine ⟨perform_coherent coherent careful performed, ?_⟩
    simp only [perform] at performed
    split at performed
    · cases performed
      exact quiet
    · cases performed
  | release a =>
    obtain ⟨next, performed, same⟩ := Option.map_eq_some_iff.mp made
    cases same
    refine ⟨release_coherent coherent performed, ?_⟩
    simp only [perform] at performed
    split at performed
    · cases performed
      exact fun b member => quiet b (List.mem_of_mem_erase member)
    · cases performed
  | sync =>
    cases made
    exact ⟨reaches_coherent coherent (sync_reaches held written), quiet⟩
  | syncBlock entry =>
    cases made
    exact ⟨syncBlock_coherent coherent answers entry, quiet⟩
  | invalidate num =>
    cases made
    exact ⟨reaches_coherent coherent (invalidate_reaches coherent.1 quiet held written), quiet⟩
  | pin num =>
    cases made
    exact ⟨reaches_coherent coherent (pin_reaches coherent.1 quiet written), quiet⟩
  | unpin num =>
    cases made
    refine ⟨?_, quiet⟩
    simp only [unpin]
    split
    · exact coherent
    · exact setPinned_coherent coherent _ false

theorem calls_coherent {guard : System Data → Op Data × Answers → Prop}
    (sound : ∀ before made, guard before made → Sound before made)
    (run : Run (Guarded guard Calls) (boot disk memory) calls s) : Coherent s ∧ Quiet s.active := by
  have keeps : ∀ (before : System Data) (made : Op Data × Answers) (next : System Data),
      Coherent before ∧ Quiet before.active → Guarded guard Calls before made next →
      Coherent next ∧ Quiet next.active := by
    rintro before made next ⟨coherent, quiet⟩ ⟨guarded, result, step⟩
    exact call_coherent coherent quiet (sound before made guarded) step
  exact run_invariant keeps run ⟨boot_coherent disk memory, fun _ member => nomatch member⟩

theorem syncEach_dirty (still : isDirty (syncEach answers c todo) other = true) :
    isDirty c other = true ∧ other ∉ todo := by
  induction todo generalizing c with
  | nil => exact ⟨still, List.not_mem_nil⟩
  | cons entry rest ih =>
    rw [syncEach] at still
    split at still
    · obtain ⟨before, unlisted⟩ := ih still
      obtain ⟨dirty, apart⟩ := writeBack_dirty before
      exact ⟨dirty, List.not_mem_cons_of_ne_of_not_mem apart unlisted⟩
    next clean =>
    obtain ⟨before, unlisted⟩ := ih still
    have apart : other ≠ entry := by
      rintro rfl
      exact clean before
    exact ⟨before, List.not_mem_cons_of_ne_of_not_mem apart unlisted⟩

theorem sync_clean (indexed : Indexed c active) (answers : Answers) (entry : Nat) :
    isDirty (sync c answers) entry = false := by
  rw [← Bool.not_eq_true]
  intro still
  obtain ⟨dirty, unlisted⟩ := syncEach_dirty still
  refine unlisted ?_
  unfold dirtyIndices
  rw [List.mem_insertionSort, List.mem_filter, List.mem_range]
  exact ⟨indexed.inside entry (dirty_valid dirty).1, dirty⟩

/-- Between two calls the latest contents of a block are in a dirty entry or on the disk. -/
theorem quiet_latest (coherent : Coherent s) (quiet : Quiet s.active) (num : Nat) :
    (∃ entry, isDirty s.cache entry = true ∧ (s.cache.blocks entry).blockNum = num ∧
      (s.cache.blocks entry).data = s.latest num) ∨ s.cache.disk num = s.latest num := by
  obtain ⟨indexed, current⟩ := coherent
  by_cases present : Present s.cache num
  · obtain ⟨entry, valid, rfl⟩ := present
    obtain ⟨contents, dirty | same⟩ := current.cached entry valid
    · left
      refine ⟨entry, ?_, rfl, contents⟩
      rw [isDirty, valid, dirty]
      rfl
    · exact .inr same
  · exact .inr (current.away num present (quiet_pending quiet))

theorem load_valid (ok : answers.reads num = true) (why : Purpose) :
    ((load c answers why num entry).blocks entry).valid = true := by
  unfold load
  rw [ok]
  cases why <;> simp [finishLoad, setBlock]

theorem get_valid {after : Cache Data}
    (made : get c answers forWrite num = some (some entry, after)) :
    (after.blocks entry).valid = true := by
  rcases get_cases made with ⟨place, _, valid, same, rfl⟩ | ⟨_, _, same, _⟩ |
    ⟨place, _, _, same, rfl⟩
  · cases same
    cases forWrite <;> simp [takeHit, touch, addRef, setBlock, valid]
  · cases same
  split at same
  next ok =>
    cases same
    exact load_valid ok _
  · cases same

def reliable : Answers := ⟨fun _ => true, fun _ => true⟩

def Orderly (s : System Data) (made : Op Data × Answers) : Prop :=
  made.2 = reliable ∧ Held s.cache made.1

theorem orderly_sound (orderly : Orderly s made) : Sound s made := by
  obtain ⟨op, answers⟩ := made
  obtain ⟨rfl, held⟩ := orderly
  exact ⟨held, fun _ _ _ _ => rfl⟩

/-- What the cache is for: a block that is got has its latest contents, no block is in two
entries, and after `sync` the disk has the latest contents of every block. -/
structure Serves (op : Op Data) (result : Option Nat) (after : System Data) : Prop where
  contents : ∀ forWrite num entry, op = .get forWrite num → result = some entry →
    (after.cache.blocks entry).data = after.latest num
  single : ∀ left right, (after.cache.blocks left).valid = true →
    (after.cache.blocks right).valid = true →
    (after.cache.blocks left).blockNum = (after.cache.blocks right).blockNum → left = right
  synced : op = .sync → ∀ num, after.cache.disk num = after.latest num

/-- After any calls on a disk that never fails, with blocks modified through valid entries
only, the next such call serves, and `get` returns. -/
theorem sequential_coherent
    (run : Run (Guarded Orderly Calls) (boot disk memory) calls s) {op : Op Data}
    (held : Held s.cache op) :
    (∀ forWrite num, op = .get forWrite num → ∃ returned, call s reliable op = some returned) ∧
      ∀ result after, call s reliable op = some (result, after) → Serves op result after := by
  obtain ⟨coherent, quiet⟩ := calls_coherent (fun _ _ orderly => orderly_sound orderly) run
  constructor
  · rintro forWrite num rfl
    obtain ⟨returned, made⟩ := get_returns coherent.1 quiet reliable forWrite num
    exact ⟨_, Option.map_eq_some_iff.mpr ⟨returned, made, rfl⟩⟩
  intro result after made
  obtain ⟨coherentAfter, quietAfter⟩ :=
    call_coherent coherent quiet (orderly_sound ⟨rfl, held⟩) made
  constructor
  case contents =>
    rintro forWrite num entry rfl rfl
    obtain ⟨⟨got, cache⟩, returned, same⟩ := Option.map_eq_some_iff.mp made
    cases same
    have number := (coherentAfter.1.own ⟨entry, num, .hold⟩ (.head _)).2
    have latest := (coherentAfter.2.cached entry (get_valid returned)).1
    rw [latest]
    exact congrArg s.latest number
  case single => exact fun left right => present_unique coherentAfter.1
  case synced =>
    rintro rfl num
    rcases quiet_latest coherentAfter quietAfter num with ⟨entry, dirty, _⟩ | same
    · cases made
      rw [sync_clean coherent.1 reliable entry] at dirty
      cases dirty
    · exact same

theorem run_called (made : calls.foldlM (fun s made => (call s made.2 made.1).map Prod.snd) s =
    some after) : Run Calls s calls after := by
  refine run_foldlM (fun before made after step => ?_) made
  obtain ⟨⟨result, _⟩, called, rfl⟩ := Option.map_eq_some_iff.mp step
  exact ⟨result, called⟩

def modifyOne : List (Op Nat × Answers) :=
  [(.get true 1, reliable), (.modify writerHolds 5, reliable), (.release writerHolds, reliable)]

/-- The block is written by `sync` and thrown out, and it is got again as it was left. -/
theorem synced_block_served : ∃ s after : System Nat,
      Run (Guarded Orderly Calls) (boot (fun _ => 3) fun _ => 0)
        (modifyOne ++ [(.sync, reliable), (.invalidate 1, reliable)]) s ∧
      call s reliable (.get false 1) = some (some 62, after) ∧ after.latest 1 = 5 ∧
      Serves (.get false 1) (some 62) after := by
  have gets : Held (boot (fun _ => 3) fun _ => 0).cache (.get true 1 : Op Nat) :=
    fun _ found => nomatch found
  have modified : Run (Guarded Orderly Calls) (boot (fun _ => 3) fun _ => 0) modifyOne _ :=
    .next ⟨⟨rfl, gets⟩, _, rfl⟩ (.next ⟨⟨rfl, rfl⟩, _, rfl⟩ (.next ⟨⟨rfl, trivial⟩, _, rfl⟩
      (.refl _)))
  have room := room_of_few (calls_coherent (fun _ _ => orderly_sound) modified).1.1 (by decide)
  have synced : Run (Guarded Orderly Calls) (boot (fun _ => 3) fun _ => 0)
      (modifyOne ++ [(.sync, reliable)]) _ :=
    run_append modified (.next ⟨⟨rfl, fun entry _ => room entry⟩, none, rfl⟩ (.refl _))
  have later := room_of_few (calls_coherent (fun _ _ => orderly_sound) synced).1.1 (by decide)
  have run : Run (Guarded Orderly Calls) (boot (fun _ => 3) fun _ => 0)
      (modifyOne ++ [(.sync, reliable)] ++ [(.invalidate 1, reliable)]) _ :=
    run_append synced (.next ⟨⟨rfl, fun entry _ => later entry⟩, none, rfl⟩ (.refl _))
  refine ⟨_, _, run, rfl, rfl, (sequential_coherent run ?_).2 _ _ rfl⟩
  exact fun _ found => nomatch found

/-- The block is thrown out while somebody has it, and what they write then is lost. -/
theorem invalidated_write_lost : ∃ s after : System Nat, Run Calls (boot (fun _ => 0) fun _ => 0)
        [(.get true 1, reliable), (.invalidate 1, reliable), (.modify writerHolds 5, reliable),
          (.release writerHolds, reliable)] s ∧
      call s reliable (.get false 1) = some (some 62, after) ∧
      ¬ Serves (.get false 1) (some 62) after := by
  refine ⟨_, _, run_called rfl, rfl, fun serves => ?_⟩
  exact absurd (serves.contents false 1 62 rfl rfl) (by decide)

end ViperDos.BlockCache
