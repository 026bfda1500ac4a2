import ViperDos.CacheContents
import ViperDos.Transition

/-!
The block cache under any interleaving of its callers. The moves that keep it coherent are
named first: a block is not read from the disk while a write-back of it is still to be done, a
block is not modified between its write-back and the moment it is marked clean, a block that
somebody is writing back is not thrown out, and a write-back that fails had nothing new to
write. After such moves every block that `get` returns has its latest contents, and no flag is
cleared that stands for contents not on the disk.
-/

namespace ViperDos.BlockCache

open HashChains Transition Function

variable {Data : Type} {active rest : List Activity} {num entry : Nat} {block : CacheBlock Data}
  {latest : Nat → Data} {a : Activity} {forWrite ok : Bool} {after start : System Data}
  {why : Purpose} {todo : List Nat} {data : Data} {move : Move Data} {moves : List (Move Data)}

def Room (c : Cache Data) (entry : Nat) : Prop := (c.blocks entry).refcount ≠ 0xFFFFFFFF

def CarefulFinish (s : System Data) (a : Activity) : Stage → Prop
  | .flushed rest => ∀ entry ∈ rest, Room (markClean s.cache a.entry) entry
  | .purged => ∀ b ∈ s.active, b.stage.writing = true → b.entry ≠ a.entry
  | .spilled wanted =>
    (∀ b ∈ s.active.erase a, b.entry ≠ a.entry) ∧ findAny s.cache wanted = none
  | _ => True

def Careful (s : System Data) : Move Data → Prop
  | .get _ num => ∀ entry, findAny s.cache num = some entry → Room s.cache entry
  | .write a ok => ok = true ∨ ∀ num stage, writeOf a = some (num, stage) →
      s.cache.disk num = (s.cache.blocks a.entry).data
  | .read a _ => ¬ Pending s.active a.num
  | .finish a => CarefulFinish s a a.stage
  | .modify a _ => (s.cache.blocks a.entry).valid = true ∧
      ∀ b ∈ s.active, b.stage.wrote = true → b.entry ≠ a.entry
  | .release _ => True
  | .sync => ∀ entry, isDirty s.cache entry = true → Room s.cache entry
  | .invalidate num => ∀ entry, find s.cache num = some entry → Room s.cache entry ∧
      ((s.cache.blocks entry).dirty = false →
        ∀ b ∈ s.active, b.stage.writing = true → b.entry ≠ entry)
  | .pin num => ∀ entry, findAny s.cache num = some entry → (s.cache.blocks entry).valid = true
  | .unpin _ => True

variable {s : System Data} {c : Cache Data}

section

variable (indexed : Indexed c active)

include indexed

theorem findAny_spec (found : findAny c num = some entry) :
    Listed c active entry ∧ (c.blocks entry).blockNum = num := by
  obtain ⟨listed, _, wanted⟩ := find_filed indexed.filed found
  exact ⟨listed, of_decide_eq_true wanted⟩

theorem findAny_none (missing : findAny c num = none) :
    ∀ other, Listed c active other → (c.blocks other).blockNum ≠ num := by
  rintro other listed rfl
  have unwanted := find_none_filed indexed.filed missing listed
  exact absurd rfl (of_decide_eq_false unwanted)

theorem find_spec (found : find c num = some entry) :
    (c.blocks entry).valid = true ∧ (c.blocks entry).blockNum = num := by
  obtain ⟨_, _, wanted⟩ := find_filed indexed.filed found
  rw [Bool.and_eq_true, decide_eq_true_eq] at wanted
  exact wanted

theorem find_none (missing : find c num = none) : ¬ Present c num := by
  rintro ⟨other, valid, rfl⟩
  have unwanted := find_none_filed indexed.filed missing (.inl valid)
  rw [valid, Bool.true_and] at unwanted
  exact absurd rfl (of_decide_eq_false unwanted)

theorem victim_spec (found : findEvictionVictim c = some entry) :
    (c.blocks entry).refcount = 0 ∧ entry < cacheBlocks := by
  have wanted := List.find?_some found
  rw [Bool.and_eq_true, decide_eq_true_eq] at wanted
  have member := List.mem_of_find?_eq_some found
  exact ⟨wanted.1, indexed.recent entry (List.mem_reverse.mp member)⟩

end

theorem dirty_valid (dirty : isDirty c entry = true) :
    (c.blocks entry).valid = true ∧ (c.blocks entry).dirty = true := by
  rw [isDirty, Bool.and_eq_true] at dirty
  exact dirty

theorem setBlock_field {β : Type} (c : Cache Data) (field : CacheBlock Data → β)
    (same : field block = field (c.blocks entry)) (other : Nat) :
    field ((setBlock c entry block).blocks other) = field (c.blocks other) := by
  by_cases here : other = entry
  · rw [here, ← same]
    exact congrArg field (update_self _ _ _)
  · exact congrArg field (update_of_ne here _ _)

/-- A flag of an entry changes that the bookkeeping does not look at. -/
theorem indexed_same (indexed : Indexed c active) (num : block.blockNum = (c.blocks entry).blockNum)
    (valid : block.valid = (c.blocks entry).valid)
    (count : block.refcount = (c.blocks entry).refcount) :
    Indexed (setBlock c entry block) active := by
  have differs : Differs c (setBlock c entry block) entry :=
    ⟨fun other apart => update_of_ne apart _ _, indexed.recent⟩
  have here : (setBlock c entry block).blocks entry = block := update_self _ _ _
  refine indexed_keep indexed differs ⟨fun _ _ => .rfl, fun _ _ => rfl⟩ rfl (by rw [here, num])
    ?_ (listed_congr (by rw [here, valid]) .rfl) (fun b member same => same ▸ indexed.own b member)
    ?_ ?_
  · rw [here, valid]
    exact indexed.inside entry
  · rw [here, count]
    exact indexed.refs entry
  · intro b member loading same
    rw [here, valid]
    exact same ▸ indexed.alone b member loading

theorem Differs.field {after : Cache Data} {β : Type} (differs : Differs c after entry)
    (field : CacheBlock Data → β)
    (same : field (after.blocks entry) = field (c.blocks entry)) (other : Nat) :
    field (after.blocks other) = field (c.blocks other) := by
  by_cases here : other = entry
  · rw [here, same]
  · rw [differs.others other here]

variable {stage : Stage}

/-- Flags of an entry change; one that was dirty stays so if the disk is not up to date. -/
theorem coherent_flags (coherent : Coherent ⟨c, active, latest⟩)
    (num : block.blockNum = (c.blocks entry).blockNum)
    (valid : block.valid = (c.blocks entry).valid) (data : block.data = (c.blocks entry).data)
    (count : block.refcount = (c.blocks entry).refcount)
    (dirty : (c.blocks entry).dirty = true → block.dirty = true ∨
      c.disk (c.blocks entry).blockNum = latest (c.blocks entry).blockNum) :
    Coherent ⟨setBlock c entry block, active, latest⟩ := by
  refine ⟨indexed_same coherent.1 num valid count, ?_⟩
  refine current_keep coherent.2 (setBlock_field c CacheBlock.blockNum num)
    (setBlock_field c CacheBlock.valid valid) (setBlock_field c CacheBlock.data data) ?_
    (fun _ same => same) (fun _ member => .inl member) fun _ member _ => member
  intro other _ before
  by_cases same : other = entry
  · subst same
    simpa [setBlock] using dirty before
  · simpa [setBlock, update_of_ne same] using .inl before

theorem coherent_use {after : Cache Data} (coherent : Coherent ⟨c, active, latest⟩)
    (differs : Differs c after entry)
    (hash : after.hash = c.hash) (disk : after.disk = c.disk) (here : after.blocks entry = block)
    (valid : (c.blocks entry).valid = true) (room : Room c entry)
    (num : block.blockNum = (c.blocks entry).blockNum) (still : block.valid = true)
    (data : block.data = (c.blocks entry).data)
    (dirty : (c.blocks entry).dirty = true → block.dirty = true)
    (count : block.refcount = (c.blocks entry).refcount + 1) (quiet : stage.loading = false)
    (unwritten : stage.wrote = false) :
    Coherent ⟨after, ⟨entry, (c.blocks entry).blockNum, stage⟩ :: active, latest⟩ := by
  obtain ⟨indexed, current⟩ := coherent
  subst here
  constructor
  · exact indexed_use (a := ⟨entry, (c.blocks entry).blockNum, stage⟩) indexed differs hash valid
      still num count room quiet rfl
  refine current_keep current (differs.field CacheBlock.blockNum num)
    (differs.field CacheBlock.valid (still.trans valid.symm)) (differs.field CacheBlock.data data)
    ?_ ?_ ?_ ?_
  · intro other _ isDirty
    by_cases at' : other = entry
    · subst at'
      exact .inl (dirty isDirty)
    · rw [differs.others other at']
      exact .inl isDirty
  · intro n equal
    rw [disk]
    exact equal
  · intro b member
    rcases List.mem_cons.mp member with rfl | old
    · refine .inr ⟨quiet, fun wrote => ?_, fun _ => valid⟩
      rw [unwritten] at wrote
      cases wrote
    · exact .inl old
  · intro b member _
    exact .tail _ member

/-- A use comes to its end. If it was a write-back, the entry is clean now. -/
theorem coherent_unuse {after : Cache Data} (coherent : Coherent ⟨c, a :: rest, latest⟩)
    (differs : Differs c after a.entry) (hash : after.hash = c.hash) (disk : after.disk = c.disk)
    (here : after.blocks a.entry = block) (num : block.blockNum = (c.blocks a.entry).blockNum)
    (valid : block.valid = (c.blocks a.entry).valid) (data : block.data = (c.blocks a.entry).data)
    (dirty : block.dirty = (c.blocks a.entry).dirty ∨ a.stage.wrote = true)
    (count : block.refcount = (c.blocks a.entry).refcount - 1) (quiet : a.stage.loading = false) :
    Coherent ⟨after, rest, latest⟩ := by
  obtain ⟨indexed, current⟩ := coherent
  subst here
  constructor
  · exact indexed_unuse indexed differs hash valid num count quiet
  refine current_keep current (differs.field CacheBlock.blockNum num)
    (differs.field CacheBlock.valid valid) (differs.field CacheBlock.data data) ?_ ?_ ?_ ?_
  · intro other isValid isDirty
    by_cases at' : other = a.entry
    · subst at'
      rcases dirty with kept | wrote
      · rw [kept]
        exact .inl isDirty
      · right
        rw [(indexed.own a (.head _)).2]
        exact current.written a (.head _) wrote isValid
    · rw [differs.others other at']
      exact .inl isDirty
  · intro n equal
    rw [disk]
    exact equal
  · intro b member
    exact .inl (.tail _ member)
  intro b member loading
  rcases List.mem_cons.mp member with rfl | old
  · rw [quiet] at loading
    cases loading
  · exact old

theorem takeHit_coherent (coherent : Coherent ⟨c, active, latest⟩)
    (valid : (c.blocks entry).valid = true) (number : (c.blocks entry).blockNum = num)
    (room : Room c entry) (forWrite : Bool) :
    Coherent ⟨takeHit c forWrite num entry, ⟨entry, num, .hold⟩ :: active, latest⟩ := by
  have recent := touch_recent coherent.1 (coherent.1.inside entry valid)
  subst number
  cases forWrite with
  | true =>
    have differs : Differs c (takeHit c true (c.blocks entry).blockNum entry) entry := by
      refine ⟨fun other apart => ?_, recent⟩
      simp only [takeHit, if_true, touch, addRef, setBlock, update_of_ne apart]
    refine coherent_use coherent differs rfl rfl (update_self _ _ _) valid room
      ?_ ?_ ?_ ?_ ?_ rfl rfl
    all_goals simp [touch, addRef, setBlock, valid]
  | false =>
    have differs : Differs c (takeHit c false (c.blocks entry).blockNum entry) entry := by
      refine ⟨fun other apart => ?_, recent⟩
      simp only [takeHit, Bool.false_eq_true, if_false, touch, addRef, setBlock, update_of_ne apart]
    refine coherent_use coherent differs rfl rfl (update_self _ _ _) valid room
      ?_ ?_ ?_ ?_ ?_ rfl rfl
    all_goals simp [valid]

theorem reserve_coherent (coherent : Coherent ⟨c, active, latest⟩)
    (free : (c.blocks entry).refcount = 0) (inside : entry < cacheBlocks)
    (absent : ∀ other, Listed c active other → (c.blocks other).blockNum ≠ num) (why : Purpose) :
    Coherent ⟨touch (reserve c num entry) entry,
      ⟨entry, num, reserved (writeBackOf c entry) why⟩ :: active, latest⟩ := by
  have stages : (reserved (writeBackOf c entry) why).loading = true ∧
      (reserved (writeBackOf c entry) why).wrote = false ∧
      (reserved (writeBackOf c entry) why).writing = false ∧
      (∀ why' ok, reserved (writeBackOf c entry) why ≠ .loaded why' ok) ∧
      ∀ n, (∃ why', reserved (writeBackOf c entry) why = .evict n why') ↔
        (isDirty c entry = true ∧ (c.blocks entry).blockNum = n) := by
    unfold writeBackOf isDirty
    split
    next dirty => simp [reserved, Stage.loading, Stage.wrote, Stage.writing, dirty]
    next clean => simp [reserved, Stage.loading, Stage.wrote, Stage.writing, clean]
  obtain ⟨loading, unwritten, idle, fresh, carries⟩ := stages
  exact ⟨indexed_reserve coherent.1 free inside absent loading,
    current_reserve coherent.1 coherent.2 free num ⟨unwritten, idle, fresh⟩ carries⟩

theorem writeBackOf_clean (clean : isDirty c entry = false) : writeBackOf c entry = none := by
  unfold writeBackOf
  rw [isDirty] at clean
  rw [clean]
  rfl

theorem lookup_cases (c : Cache Data) (forWrite : Bool) (num : Nat) :
    (∃ entry, findAny c num = some entry ∧ (c.blocks entry).valid = false ∧
      lookup c forWrite num = .busy) ∨
    (∃ entry, findAny c num = some entry ∧ (c.blocks entry).valid = true ∧
      lookup c forWrite num = .hit entry (takeHit c forWrite num entry)) ∨
    (findAny c num = none ∧ findEvictionVictim c = none ∧ lookup c forWrite num = .full) ∨
    ∃ entry, findAny c num = none ∧ findEvictionVictim c = some entry ∧
      lookup c forWrite num =
        .miss entry (writeBackOf c entry) (touch (reserve c num entry) entry) := by
  unfold lookup
  cases found : findAny c num with
  | some entry => cases valid : (c.blocks entry).valid <;> simp [valid]
  | none => cases chosen : findEvictionVictim c <;> simp

theorem get_coherent (coherent : Coherent s) (careful : Careful s (.get forWrite num))
    (performed : perform s (.get forWrite num) = some after) : Coherent after := by
  rcases lookup_cases s.cache forWrite num with ⟨_, _, _, looked⟩ | ⟨entry, found, valid, looked⟩ |
    ⟨_, _, looked⟩ | ⟨entry, found, chosen, looked⟩
  all_goals
    simp only [perform, looked] at performed
    cases performed
  · exact coherent
  · exact takeHit_coherent coherent valid (findAny_spec coherent.1 found).2 (careful entry found)
      forWrite
  · exact coherent
  · obtain ⟨free, inside⟩ := victim_spec coherent.1 chosen
    exact reserve_coherent coherent free inside (findAny_none coherent.1 found) _

theorem writeBlock_disk (done : ok = true ∨ c.disk num = (c.blocks entry).data) :
    (writeBlock c num entry ok).blocks = c.blocks ∧ (writeBlock c num entry ok).hash = c.hash ∧
      (writeBlock c num entry ok).lru = c.lru ∧
      ∀ n, (writeBlock c num entry ok).disk n =
        if n = num then (c.blocks entry).data else c.disk n := by
  unfold writeBlock
  split
  · exact ⟨rfl, rfl, rfl, fun n => update_apply _ _ _ _⟩
  next failed =>
  refine ⟨rfl, rfl, rfl, fun n => ?_⟩
  split
  next here =>
    rw [here]
    exact done.resolve_left failed
  · rfl

theorem writing_not_loading (writing : stage.writing = true) : stage.loading = false := by
  cases stage <;> first | rfl | cases writing

theorem current_written {after : Cache Data} (indexed : Indexed c (a :: rest))
    (current : Current c (a :: rest) latest) (writing : a.stage.writing = true)
    (blocks : after.blocks = c.blocks)
    (disk : ∀ n, after.disk n = if n = a.num then (c.blocks a.entry).data else c.disk n)
    (quiet : stage.loading = false) (done : stage.writing = false) :
    Current after ({ a with stage } :: rest) latest := by
  have valid := current.working a (.head _) writing
  have contents := (current.cached a.entry valid).1
  rw [(indexed.own a (.head _)).2] at contents
  have same : ∀ n, c.disk n = latest n → after.disk n = latest n := by
    intro n equal
    rw [disk]
    split
    next here => rw [here, contents]
    · exact equal
  refine current_keep current (fun other => by rw [blocks]) (fun other => by rw [blocks])
    (fun other => by rw [blocks]) ?_ same ?_ ?_
  · intro other _ dirty
    rw [blocks]
    exact .inl dirty
  · intro b member
    rcases List.mem_cons.mp member with rfl | old
    · refine .inr ⟨quiet, fun _ => ?_, fun again => ?_⟩
      · rw [disk, if_pos rfl, contents]
      · rw [done] at again
        cases again
    · exact .inl (.tail _ old)
  · intro b member loading
    rcases List.mem_cons.mp member with rfl | old
    · rw [writing_not_loading writing] at loading
      cases loading
    · exact .tail _ old

/-- What is written is what an entry held before it was reserved, or the block of the entry. -/
theorem writeOf_cases (wanted : writeOf a = some (num, stage)) :
    (∃ why, a.stage = .evict num why ∧ stage = .load why) ∨
      (num = a.num ∧ a.stage.writing = true ∧ stage.loading = false ∧ stage.writing = false) := by
  unfold writeOf at wanted
  cases at' : a.stage <;> rw [at'] at wanted <;> cases wanted
  · exact .inl ⟨_, rfl, rfl⟩
  all_goals exact .inr ⟨rfl, rfl, rfl, rfl⟩

theorem write_coherent (coherent : Coherent s) (careful : Careful s (.write a ok))
    (performed : perform s (.write a ok) = some after) : Coherent after := by
  obtain ⟨member, written⟩ := Option.ite_none_right_eq_some.mp performed
  obtain ⟨⟨n, stage⟩, wanted, rfl⟩ := Option.map_eq_some_iff.mp written
  obtain ⟨indexed, current⟩ := coherent_front (c := s.cache) coherent member
  have done : ok = true ∨ s.cache.disk n = (s.cache.blocks a.entry).data :=
    careful.imp_right fun redundant => redundant n stage wanted
  obtain ⟨blocks, hash, recent, disk⟩ := writeBlock_disk (c := s.cache) done
  have differs : Differs s.cache (writeBlock s.cache n a.entry ok) a.entry := by
    refine ⟨fun other _ => by rw [blocks], ?_⟩
    rw [recent]
    exact indexed.recent
  have kept := fun kind : stage.loading = a.stage.loading =>
    indexed_stage indexed differs hash (by rw [blocks]) (by rw [blocks]) (by rw [blocks]) kind
  rcases writeOf_cases wanted with ⟨why, evicts, rfl⟩ | ⟨rfl, writing, quiet, written⟩
  · refine ⟨kept (by rw [evicts]; rfl), ?_⟩
    refine current_written_back current evicts blocks fun other => ?_
    rw [disk, (current.pending a (.head _) n why evicts).1]
  · exact ⟨kept (quiet.trans (writing_not_loading writing).symm),
      current_written indexed current writing blocks disk quiet written⟩

theorem read_coherent (coherent : Coherent s) (careful : Careful s (.read a ok))
    (performed : perform s (.read a ok) = some after) : Coherent after := by
  simp only [perform] at performed
  split at performed
  next why stage =>
    obtain ⟨member, read⟩ := Option.ite_none_right_eq_some.mp performed
    cases read
    obtain ⟨indexed, current⟩ := coherent_front (c := s.cache) coherent member
    have done : ¬ Pending (a :: s.active.erase a) a.num := by
      rw [← pending_perm (List.perm_cons_erase member)]
      exact careful
    have fields : (readBlock s.cache a.num a.entry ok).hash = s.cache.hash ∧
        ((readBlock s.cache a.num a.entry ok).blocks a.entry).valid =
          (s.cache.blocks a.entry).valid ∧
        ((readBlock s.cache a.num a.entry ok).blocks a.entry).blockNum =
          (s.cache.blocks a.entry).blockNum ∧
        ((readBlock s.cache a.num a.entry ok).blocks a.entry).refcount =
          (s.cache.blocks a.entry).refcount := by
      cases ok <;> simp [readBlock, setBlock]
    have differs : Differs s.cache (readBlock s.cache a.num a.entry ok) a.entry := by
      cases ok with
      | false => exact ⟨fun _ _ => rfl, indexed.recent⟩
      | true => exact ⟨fun _ apart => update_of_ne apart _ _, indexed.recent⟩
    exact ⟨indexed_stage indexed differs fields.1 fields.2.1 fields.2.2.1 fields.2.2.2
        (by rw [stage]; rfl),
      current_read indexed current stage done ok⟩
  · cases performed

section

variable (coherent : Coherent ⟨c, a :: rest, latest⟩)

include coherent

theorem loaded_coherent (stage : a.stage = .loaded why true) :
    Coherent ⟨finishLoad c why a.num a.entry true,
      if why ≠ .pin then { a with stage := .hold } :: rest else rest, latest⟩ := by
  obtain ⟨indexed, current⟩ := coherent
  have loading := loading_of_loaded stage
  have number := (indexed.own a (.head _)).2
  have others : ∀ other, other ≠ a.entry →
      (finishLoad c why a.num a.entry true).blocks other = c.blocks other := by
    intro other apart
    cases why <;> exact update_of_ne apart _ _
  have differs : Differs c (finishLoad c why a.num a.entry true) a.entry := by
    refine ⟨others, ?_⟩
    cases why <;> exact indexed.recent
  have fields : (finishLoad c why a.num a.entry true).hash = c.hash ∧
      (finishLoad c why a.num a.entry true).disk = c.disk ∧
      ((finishLoad c why a.num a.entry true).blocks a.entry).blockNum =
        (c.blocks a.entry).blockNum ∧
      ((finishLoad c why a.num a.entry true).blocks a.entry).data = (c.blocks a.entry).data ∧
      ((finishLoad c why a.num a.entry true).blocks a.entry).valid = true ∧
      ((finishLoad c why a.num a.entry true).blocks a.entry).refcount =
        if why = .pin then 0 else (c.blocks a.entry).refcount := by
    cases why <;> simp [finishLoad, setBlock]
  obtain ⟨hash, disk, num, data, valid, count⟩ := fields
  by_cases pins : why = .pin
  · rw [if_neg (not_not.mpr pins)]
    rw [if_pos pins] at count
    exact ⟨indexed_loaded indexed loading differs hash num valid (.inr ⟨rfl, count⟩),
      current_loaded indexed current stage others (num.trans number) data disk
        (fun b member => .inl member) fun b member => member⟩
  · rw [if_pos pins]
    rw [if_neg pins] at count
    refine ⟨indexed_loaded indexed loading differs hash num valid (.inl ⟨rfl, count⟩),
      current_loaded indexed current stage others (num.trans number) data disk ?_
        fun b member => .tail _ member⟩
    intro b member
    rcases List.mem_cons.mp member with rfl | old
    · exact .inr rfl
    · exact .inl old

theorem abandoned_coherent (stage : a.stage = .loaded why false) :
    Coherent ⟨finishLoad c why a.num a.entry false, rest, latest⟩ := by
  obtain ⟨indexed, current⟩ := coherent
  have loading := loading_of_loaded stage
  refine ⟨indexed_abandon indexed loading why, ?_⟩
  refine current_abandon indexed current stage (fun other apart => update_of_ne apart _ _) ?_ rfl
  simp only [finishLoad, Bool.false_eq_true, if_false, setBlock, update_self]
  exact (indexed.alone a (.head _) loading).1

theorem markClean_coherent (wrote : a.stage.wrote = true) :
    Coherent ⟨markClean c a.entry, rest, latest⟩ := by
  have quiet : a.stage.loading = false := by
    cases at' : a.stage <;> rw [at'] at wrote <;> first | rfl | cases wrote
  have differs : Differs c (markClean c a.entry) a.entry :=
    ⟨fun other apart => update_of_ne apart _ _, coherent.1.recent⟩
  exact coherent_unuse coherent differs rfl rfl (update_self _ _ _) rfl rfl rfl
    (.inr wrote) rfl quiet

end

theorem nextDirty_spec {rest : List Nat} (next : nextDirty c todo = some (entry, rest)) :
    isDirty c entry = true ∧ entry ∈ todo := by
  induction todo with
  | nil => cases next
  | cons first others ih =>
    unfold nextDirty at next
    split at next
    next dirty =>
      cases next
      exact ⟨dirty, .head _⟩
    · obtain ⟨dirty, member⟩ := ih next
      exact ⟨dirty, .tail _ member⟩

theorem addRef_coherent (coherent : Coherent ⟨c, active, latest⟩)
    (valid : (c.blocks entry).valid = true) (room : Room c entry) (writing : stage.writing = true) :
    Coherent ⟨addRef c entry, ⟨entry, (c.blocks entry).blockNum, stage⟩ :: active, latest⟩ := by
  have unwritten : stage.wrote = false := by cases stage <;> first | rfl | cases writing
  have differs : Differs c (addRef c entry) entry :=
    ⟨fun other apart => update_of_ne apart _ _, coherent.1.recent⟩
  exact coherent_use coherent differs rfl rfl (update_self _ _ _) valid room rfl valid rfl
    (fun dirty => dirty) rfl (writing_not_loading writing) unwritten

theorem findAny_same {after : Cache Data} (hash : after.hash = c.hash)
    (numbers : ∀ other, (after.blocks other).blockNum = (c.blocks other).blockNum) :
    findAny after num = findAny c num := by
  unfold findAny
  rw [hash]
  simp only [numbers]

theorem flushNext_coherent (coherent : Coherent s)
    (room : ∀ entry ∈ todo, isDirty s.cache entry = true → Room s.cache entry) :
    Coherent (flushNext s todo) := by
  unfold flushNext
  cases next : nextDirty s.cache todo with
  | none => exact coherent
  | some chosen =>
    obtain ⟨dirty, member⟩ := nextDirty_spec next
    exact addRef_coherent coherent (dirty_valid dirty).1 (room _ member dirty) rfl

theorem discard_coherent (coherent : Coherent ⟨c, active, latest⟩)
    (clean : (c.blocks entry).dirty = false)
    (idle : ∀ b ∈ active, b.stage.loading = true → b.entry ≠ entry)
    (unwritten : ∀ b ∈ active, b.stage.writing = true → b.entry ≠ entry) :
    Coherent ⟨discard c entry, active, latest⟩ := by
  obtain ⟨indexed, current⟩ := coherent
  refine ⟨indexed_discard indexed idle, current_discard current ?_ idle unwritten⟩
  intro valid
  rcases (current.cached entry valid).2 with dirty | same
  · rw [clean] at dirty
    cases dirty
  · exact same

theorem pinLoad_coherent (coherent : Coherent s) (free : (s.cache.blocks entry).refcount = 0)
    (inside : entry < cacheBlocks) (clean : isDirty s.cache entry = false)
    (absent : ∀ other, Listed s.cache s.active other → (s.cache.blocks other).blockNum ≠ num) :
    Coherent (pinLoad s num entry) := by
  have reserves := reserve_coherent (c := s.cache) coherent free inside absent .pin
  rw [writeBackOf_clean clean] at reserves
  exact reserves

theorem markClean_free (coherent : Coherent ⟨c, a :: rest, latest⟩)
    (wrote : a.stage.wrote = true) (last : ∀ b ∈ rest, b.entry ≠ a.entry) :
    ((markClean c a.entry).blocks a.entry).refcount = 0 := by
  have next := markClean_coherent coherent wrote
  have unused : uses rest a.entry = 0 := by
    refine List.count_eq_zero.mpr fun member => ?_
    obtain ⟨b, known, same⟩ := List.mem_map.mp member
    exact last b known same
  rw [(next.1.refs a.entry).1, unused]
  rfl

section

variable (coherent : Coherent s)

include coherent

theorem finish_coherent (careful : Careful s (.finish a))
    (performed : perform s (.finish a) = some after) : Coherent after := by
  obtain ⟨member, performed⟩ := Option.ite_none_right_eq_some.mp performed
  have front : Coherent ⟨s.cache, a :: s.active.erase a, s.latest⟩ :=
    coherent_front coherent member
  unfold finishStage at performed
  have marked := fun wrote : a.stage.wrote = true => markClean_coherent front wrote
  simp only [Careful] at careful
  cases stage : a.stage with simp only [stage, CarefulFinish] at performed careful marked
  | loaded why ok =>
    cases performed
    cases ok with
    | true =>
      have loaded := loaded_coherent front stage
      simpa only [true_and] using loaded
    | false =>
      have given := abandoned_coherent front stage
      simpa only [Bool.false_eq_true, false_and, if_false] using given
  | flushed rest =>
    cases performed
    exact flushNext_coherent (marked rfl) fun entry known _ => careful entry known
  | purged =>
    cases performed
    refine discard_coherent (marked rfl) ?_ ?_ ?_
    · simp only [markClean, setBlock, update_self]
    · intro b known loading
      exact used_not_loading front.1 known loading
    · intro b known writing
      exact careful b (List.mem_of_mem_erase known) writing
  | spilled wanted =>
    cases performed
    obtain ⟨last, missing⟩ := careful
    have wrote : a.stage.wrote = true := by rw [stage]; rfl
    refine pinLoad_coherent (marked rfl) (markClean_free front wrote last)
      (front.1.own a (.head _)).1 ?_ ?_
    · simp only [isDirty, markClean, setBlock, update_self, Bool.and_false]
    have same : findAny (markClean s.cache a.entry) wanted = findAny s.cache wanted :=
      findAny_same rfl (setBlock_field s.cache CacheBlock.blockNum rfl)
    exact findAny_none (marked rfl).1 (same.trans missing)
  | _ => cases performed

theorem modify_coherent (careful : Careful s (.modify a data))
    (performed : perform s (.modify a data) = some after) : Coherent after := by
  obtain ⟨holds, modified⟩ := Option.ite_none_right_eq_some.mp performed
  cases modified
  obtain ⟨indexed, current⟩ := coherent
  obtain ⟨valid, unwritten⟩ := careful
  refine ⟨indexed_same indexed rfl rfl rfl, ?_⟩
  have next := current_modify indexed current valid unwritten data
  rw [(indexed.own a holds.1).2] at next
  exact next

theorem release_coherent (performed : perform s (.release a) = some after) : Coherent after := by
  obtain ⟨holds, released⟩ := Option.ite_none_right_eq_some.mp performed
  cases released
  have front : Coherent ⟨s.cache, a :: s.active.erase a, s.latest⟩ :=
    coherent_front coherent holds.1
  have quiet : a.stage.loading = false := by rw [holds.2]; rfl
  have counted : 0 < (s.cache.blocks a.entry).refcount := by
    obtain ⟨refs, small⟩ := coherent.1.refs a.entry
    rw [refs, UInt32.lt_iff_toNat_lt, UInt32.toNat_ofNat_of_lt' small]
    exact uses_pos holds.1
  unfold release
  rw [if_pos counted]
  exact coherent_unuse front
    ⟨fun other apart => update_of_ne apart _ _, coherent.1.recent⟩ rfl rfl
    (update_self _ _ _) rfl rfl rfl (.inl rfl) rfl quiet

theorem invalidate_coherent (careful : Careful s (.invalidate num))
    (performed : perform s (.invalidate num) = some after) : Coherent after := by
  simp only [perform] at performed
  cases found : find s.cache num with
  | none =>
    simp only [found] at performed
    cases performed
    exact coherent
  | some entry =>
    obtain ⟨valid, rfl⟩ := find_spec coherent.1 found
    obtain ⟨room, unwritten⟩ := careful entry found
    simp only [found] at performed
    split at performed
    · cases performed
      exact addRef_coherent coherent valid room rfl
    next clean =>
    cases performed
    rw [Bool.not_eq_true] at clean
    exact discard_coherent coherent clean
      (fun b member loading => valid_not_loading coherent.1 valid member loading)
      (unwritten clean)

theorem setPinned_coherent (entry : Nat) (pinned : Bool) :
    Coherent { s with cache := setPinned s.cache entry pinned } :=
  coherent_flags coherent rfl rfl rfl rfl .inl

theorem pin_coherent (careful : Careful s (.pin num))
    (performed : perform s (.pin num) = some after) : Coherent after := by
  simp only [perform] at performed
  cases found : find s.cache num with
  | some entry =>
    simp only [found] at performed
    cases performed
    exact setPinned_coherent coherent entry true
  | none =>
    simp only [found] at performed
    cases chosen : findEvictionVictim s.cache with
    | none =>
      simp only [chosen] at performed
      cases performed
      exact coherent
    | some entry =>
      obtain ⟨free, inside⟩ := victim_spec coherent.1 chosen
      simp only [chosen] at performed
      split at performed
      next dirty =>
        cases performed
        refine addRef_coherent coherent (dirty_valid dirty).1 ?_ rfl
        unfold Room
        rw [free]
        decide
      next clean =>
      cases performed
      rw [Bool.not_eq_true] at clean
      have missing : findAny s.cache num = none := by
        cases known : findAny s.cache num with
        | none => rfl
        | some other =>
          have number := (findAny_spec coherent.1 known).2
          exact absurd ⟨other, careful other known, number⟩ (find_none coherent.1 found)
      exact pinLoad_coherent coherent free inside clean (findAny_none coherent.1 missing)

theorem perform_coherent (careful : Careful s move) (performed : perform s move = some after) :
    Coherent after := by
  cases move with
  | get forWrite num => exact get_coherent coherent careful performed
  | write a ok => exact write_coherent coherent careful performed
  | read a ok => exact read_coherent coherent careful performed
  | finish a => exact finish_coherent coherent careful performed
  | modify a data => exact modify_coherent coherent careful performed
  | release a => exact release_coherent coherent performed
  | sync =>
    cases performed
    exact flushNext_coherent coherent fun entry _ dirty => careful entry dirty
  | invalidate num => exact invalidate_coherent coherent careful performed
  | pin num => exact pin_coherent coherent careful performed
  | unpin num =>
    simp only [perform] at performed
    split at performed
    · cases performed
      exact coherent
    · cases performed
      exact setPinned_coherent coherent _ false

end

theorem boot_coherent (disk memory : Nat → Data) : Coherent (boot disk memory) := by
  have unlisted : ∀ entry, ¬ Listed (init disk memory) [] entry := by
    rintro entry (valid | ⟨a, member, _⟩)
    · cases valid
    · cases member
  constructor
  · constructor
    case refs => exact fun _ => ⟨rfl, Nat.two_pow_pos 32⟩
    case inside => exact fun _ valid => Bool.noConfusion valid
    case recent => exact fun entry member => List.mem_range.mp member
    case filed =>
      refine ⟨fun h entry => ?_, fun h => List.nodup_nil⟩
      exact ⟨fun member => absurd member List.not_mem_nil,
        fun known => absurd known.1 (unlisted entry)⟩
    case unique => exact fun left _ known => absurd known (unlisted left)
    all_goals exact fun a member => absurd member List.not_mem_nil
  · constructor
    case cached => exact fun _ valid => Bool.noConfusion valid
    case away => exact fun _ _ _ => rfl
    all_goals exact fun a member => absurd member List.not_mem_nil

def Moves (s : System Data) (move : Move Data) (after : System Data) : Prop :=
  perform s move = some after

theorem run_coherent (coherent : Coherent start) (run : Run (Guarded Careful Moves) start moves s) :
    Coherent s := by
  have keeps : ∀ (before : System Data) (move : Move Data) (after : System Data),
      Coherent before → Guarded Careful Moves before move after → Coherent after :=
    fun _ _ _ coherent step => perform_coherent coherent step.1 step.2
  exact run_invariant keeps run coherent

def Returns (s : System Data) (move : Move Data) (entry num : Nat) : Prop :=
  (∃ forWrite c, move = .get forWrite num ∧ lookup s.cache forWrite num = .hit entry c) ∨
    ∃ a why, move = .finish a ∧ a.stage = .loaded why true ∧ why ≠ .pin ∧ a.entry = entry ∧
      a.num = num

/-- What a caller may rely on: a block it gets has the contents of the last modification, and
`sync` marks a block clean only when the disk has what is in it. -/
structure Honest (s : System Data) (move : Move Data) (after : System Data) : Prop where
  latest : ∀ entry num, Returns s move entry num →
    (after.cache.blocks entry).data = after.latest num
  synced : ∀ a rest, move = .finish a → a.stage = .flushed rest →
    (s.cache.blocks a.entry).valid = true → s.cache.disk a.num = (s.cache.blocks a.entry).data

theorem takeHit_data (c : Cache Data) (forWrite : Bool) (num entry : Nat) :
    ((takeHit c forWrite num entry).blocks entry).data = (c.blocks entry).data := by
  cases forWrite <;> simp [takeHit, touch, addRef, setBlock]

theorem finishLoad_data (c : Cache Data) (why : Purpose) (num entry : Nat) :
    ((finishLoad c why num entry true).blocks entry).data = (c.blocks entry).data := by
  cases why <;> simp [finishLoad, setBlock]

/-- In any interleaving of callers whose moves are all careful, every block that is got has
its latest contents, and no modification is marked clean that was not written. -/
theorem callers_coherent {disk memory : Nat → Data}
    (run : Run (Guarded Careful Moves) (boot disk memory) moves s) {move : Move Data}
    {after : System Data} (careful : Careful s move) (performed : Moves s move after) :
    Honest s move after := by
  obtain ⟨indexed, current⟩ := run_coherent (boot_coherent disk memory) run
  constructor
  case latest =>
    rintro entry num (⟨forWrite, c, rfl, hit⟩ | ⟨a, why, rfl, stage, returned, rfl, rfl⟩)
    · simp only [Moves, perform, hit, Option.some.injEq] at performed
      subst performed
      rcases lookup_cases s.cache forWrite num with ⟨_, _, _, looked⟩ |
        ⟨place, found, valid, looked⟩ | ⟨_, _, looked⟩ | ⟨_, _, _, looked⟩
      all_goals
        rw [looked] at hit
        cases hit
      rw [takeHit_data, (current.cached entry valid).1, (findAny_spec indexed found).2]
    · simp only [Moves, perform, finishStage, stage] at performed
      obtain ⟨member, finished⟩ := Option.ite_none_right_eq_some.mp performed
      cases finished
      rw [finishLoad_data]
      exact (current.fetched a member why stage).1
  case synced =>
    rintro a rest rfl stage valid
    obtain ⟨member, _⟩ := Option.ite_none_right_eq_some.mp performed
    rw [(current.cached a.entry valid).1, (indexed.own a member).2]
    exact current.written a member (by rw [stage]; rfl) valid

def writerLoads : Activity := ⟨63, 1, .load .write⟩
def writerLoaded : Activity := ⟨63, 1, .loaded .write true⟩
def writerHolds : Activity := ⟨63, 1, .hold⟩
def syncWrites : Activity := ⟨63, 1, .flush []⟩
def syncWrote : Activity := ⟨63, 1, .flushed []⟩

def writerFirst : List (Move Nat) :=
  [.get true 1, .read writerLoads true, .finish writerLoaded, .modify writerHolds 5, .sync,
    .write syncWrites true]

theorem room_of_few (indexed : Indexed c active) (few : active.length < 0xFFFFFFFF) (entry : Nat) :
    Room c entry := by
  have counted : uses active entry ≤ active.length :=
    List.count_le_length.trans_eq (List.length_map _)
  obtain ⟨refs, bound⟩ := indexed.refs entry
  intro full
  rw [refs, ← UInt32.toNat_inj, UInt32.toNat_ofNat_of_lt' bound] at full
  exact absurd full (Nat.ne_of_lt (counted.trans_lt few))

/-- A second caller gets the block that the first has modified, and `sync` marks it clean. -/
theorem shared_block_honest : ∃ s between after : System Nat,
      Run (Guarded Careful Moves) (boot (fun _ => 0) fun _ => 0) writerFirst s ∧
      Returns s (.get false 1) 63 1 ∧ Moves s (.get false 1) between ∧ between.latest 1 = 5 ∧
      Honest s (.get false 1) between ∧
      Moves between (.finish syncWrote) after ∧ Honest between (.finish syncWrote) after := by
  have gets : Careful (boot (fun _ => 0) fun _ => 0 : System Nat) (.get true 1) :=
    fun _ found => nomatch found
  have loads : ¬ Pending [writerLoads] 1 := by
    rintro ⟨a, member, why, stage⟩
    cases List.mem_singleton.mp member
    cases stage
  have modified : Run (Guarded Careful Moves) (boot (fun _ => 0) fun _ => 0) (writerFirst.take 4) _ :=
    .next ⟨gets, rfl⟩ (.next ⟨loads, rfl⟩ (.next ⟨trivial, rfl⟩
      (.next ⟨⟨rfl, by decide⟩, rfl⟩ (.refl _))))
  have room := room_of_few (run_coherent (boot_coherent _ _) modified).1 (by decide)
  have synced : Run (Guarded Careful Moves) (boot (fun _ => 0) fun _ => 0) writerFirst _ :=
    run_append modified
      (.next ⟨fun entry _ => room entry, rfl⟩ (.next ⟨.inl rfl, rfl⟩ (.refl _)))
  have again := room_of_few (run_coherent (boot_coherent _ _) synced).1 (by decide)
  have got : Run (Guarded Careful Moves) (boot (fun _ => 0) fun _ => 0)
      (writerFirst ++ [.get false 1]) _ :=
    run_append synced (.next ⟨fun entry _ => again entry, rfl⟩ (.refl _))
  refine ⟨_, _, _, synced, .inl ⟨false, _, rfl, rfl⟩, rfl, rfl,
    callers_coherent synced (fun entry _ => again entry) rfl, rfl,
    callers_coherent got (fun _ member => nomatch member) rfl⟩

/-- The second modification is made while `sync` has written the first and not yet marked the
block clean. -/
theorem sync_clears_unwritten : ∃ s after : System Nat,
      Run Moves (boot (fun _ => 0) fun _ => 0) (writerFirst ++ [.modify writerHolds 7]) s ∧
      Moves s (.finish syncWrote) after ∧ ¬ Honest s (.finish syncWrote) after := by
  refine ⟨_, _, run_foldlM (fun _ _ _ made => made) rfl, rfl, fun honest => ?_⟩
  exact absurd (honest.synced syncWrote [] rfl rfl rfl) (by decide)

end ViperDos.BlockCache
