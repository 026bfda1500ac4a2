import ViperDos.CacheCallers
import Mathlib.Data.List.Count
import Mathlib.Data.UInt

/-!
The bookkeeping of the block cache. An entry is in the hash table exactly when it is valid
or being loaded, no two of these are for the same block, and the reference count of an entry
is the number of activities that use it. Each kind of change to an entry and to what its
users are doing keeps this; the moves are put together from these changes.
-/

namespace ViperDos.BlockCache

open HashChains Function

def Stage.loading : Stage → Bool
  | .evict _ _ => true
  | .load _ => true
  | .loaded _ _ => true
  | _ => false

variable {Data : Type} {active rest active' : List Activity} {entry other num : Nat} {b : Activity}
  {stage : Stage}

def Listed (c : Cache Data) (active : List Activity) (entry : Nat) : Prop :=
  (c.blocks entry).valid = true ∨ ∃ a ∈ active, a.stage.loading = true ∧ a.entry = entry

def uses (active : List Activity) (entry : Nat) : Nat := (active.map Activity.entry).count entry

structure Indexed (c : Cache Data) (active : List Activity) : Prop where
  refs : ∀ entry, (c.blocks entry).refcount = UInt32.ofNat (uses active entry) ∧
    uses active entry < 2 ^ 32
  own : ∀ a ∈ active, a.entry < cacheBlocks ∧ (c.blocks a.entry).blockNum = a.num
  inside : ∀ entry, (c.blocks entry).valid = true → entry < cacheBlocks
  recent : ∀ entry ∈ c.lru, entry < cacheBlocks
  filed : Filed (fun entry => hashFunc (c.blocks entry).blockNum) (Listed c active) c.hash
  unique : ∀ left right, Listed c active left → Listed c active right →
    (c.blocks left).blockNum = (c.blocks right).blockNum → left = right
  alone : ∀ a ∈ active, a.stage.loading = true →
    (c.blocks a.entry).valid = false ∧ uses active a.entry = 1

structure Differs (c after : Cache Data) (entry : Nat) : Prop where
  others : ∀ other, other ≠ entry → after.blocks other = c.blocks other
  recent : ∀ other ∈ after.lru, other < cacheBlocks

variable {c after : Cache Data} {a : Activity}

theorem uses_cons (a : Activity) (rest : List Activity) (entry : Nat) :
    uses (a :: rest) entry = uses rest entry + if a.entry = entry then 1 else 0 := by
  simp only [uses, List.map_cons, List.count_cons, beq_iff_eq]

theorem uses_pos (member : a ∈ active) : 0 < uses active a.entry :=
  List.count_pos_iff.mpr (List.mem_map_of_mem member)

theorem uses_perm (perm : active.Perm rest) (entry : Nat) : uses active entry = uses rest entry :=
  (perm.map Activity.entry).count_eq entry

theorem listed_perm (perm : active.Perm rest) (c : Cache Data) (entry : Nat) :
    Listed c active entry ↔ Listed c rest entry := by
  simp only [Listed, perm.mem_iff]

theorem indexed_perm (perm : active.Perm rest) (indexed : Indexed c active) : Indexed c rest where
  refs entry := by
    rw [← uses_perm perm]
    exact indexed.refs entry
  own a member := indexed.own a (perm.mem_iff.mpr member)
  inside := indexed.inside
  recent := indexed.recent
  filed := filed_congr indexed.filed fun entry => ⟨(listed_perm perm c entry).symm, fun _ => rfl⟩
  unique left right first second :=
    indexed.unique left right ((listed_perm perm c left).mpr first)
      ((listed_perm perm c right).mpr second)
  alone a member loading := by
    rw [← uses_perm perm]
    exact indexed.alone a (perm.mem_iff.mpr member) loading

structure Users (active active' : List Activity) (entry : Nat) : Prop where
  members : ∀ b, b.entry ≠ entry → (b ∈ active' ↔ b ∈ active)
  counts : ∀ other, other ≠ entry → uses active' other = uses active other

theorem users_cons (a : Activity) (rest : List Activity) : Users rest (a :: rest) a.entry where
  members b apart := List.mem_cons.trans
    (or_iff_right fun same => apart (congrArg Activity.entry same))
  counts other apart := by rw [uses_cons, if_neg apart.symm, Nat.add_zero]

theorem users_uncons (a : Activity) (rest : List Activity) : Users (a :: rest) rest a.entry where
  members b apart := ((users_cons a rest).members b apart).symm
  counts other apart := ((users_cons a rest).counts other apart).symm

theorem users_stage (a : Activity) (stage : Stage) (rest : List Activity) :
    Users (a :: rest) ({ a with stage } :: rest) a.entry where
  members b apart := ((users_cons { a with stage } rest).members b apart).trans
    ((users_uncons a rest).members b apart)
  counts other apart := ((users_cons { a with stage } rest).counts other apart).trans
    ((users_uncons a rest).counts other apart)

theorem listed_elsewhere (differs : Differs c after entry) (users : Users active active' entry)
    (apart : other ≠ entry) : Listed after active' other ↔ Listed c active other := by
  unfold Listed
  rw [differs.others other apart]
  refine or_congr_right ⟨?_, ?_⟩
  · rintro ⟨b, member, loading, rfl⟩
    exact ⟨b, (users.members b apart).mp member, loading, rfl⟩
  · rintro ⟨b, member, loading, rfl⟩
    exact ⟨b, (users.members b apart).mpr member, loading, rfl⟩

section

variable (indexed : Indexed c active) (differs : Differs c after entry)
    (users : Users active active' entry)

include indexed differs users

/-- Where one entry and its users change, the bookkeeping is a matter of that entry. -/
theorem indexed_here (refs : (after.blocks entry).refcount = UInt32.ofNat (uses active' entry) ∧
      uses active' entry < 2 ^ 32)
    (own : ∀ b ∈ active', b.entry = entry →
      entry < cacheBlocks ∧ (after.blocks entry).blockNum = b.num)
    (inside : (after.blocks entry).valid = true → entry < cacheBlocks)
    (filed : Filed (fun other => hashFunc (after.blocks other).blockNum) (Listed after active')
      after.hash)
    (unique : Listed after active' entry → ∀ other, other ≠ entry → Listed c active other →
      (c.blocks other).blockNum ≠ (after.blocks entry).blockNum)
    (alone : ∀ b ∈ active', b.stage.loading = true → b.entry = entry →
      (after.blocks entry).valid = false ∧ uses active' entry = 1) : Indexed after active' := by
  have elsewhere := fun other apart => @listed_elsewhere _ _ _ _ other _ _ differs users apart
  constructor
  case refs =>
    intro other
    by_cases same : other = entry
    · rw [same]
      exact refs
    · rw [users.counts other same, differs.others other same]
      exact indexed.refs other
  case own =>
    intro b member
    by_cases same : b.entry = entry
    · rw [same]
      exact own b member same
    · rw [differs.others b.entry same]
      exact indexed.own b ((users.members b same).mp member)
  case inside =>
    intro other valid
    by_cases same : other = entry
    · rw [same] at valid ⊢
      exact inside valid
    · rw [differs.others other same] at valid
      exact indexed.inside other valid
  case recent => exact differs.recent
  case filed => exact filed
  case unique =>
    intro left right first second same
    by_cases atLeft : left = entry
    · by_cases atRight : right = entry
      · rw [atLeft, atRight]
      · rw [atLeft, differs.others right atRight] at same
        exact absurd same.symm
          (unique (atLeft ▸ first) right atRight ((elsewhere right atRight).mp second))
    · by_cases atRight : right = entry
      · rw [atRight, differs.others left atLeft] at same
        exact absurd same (unique (atRight ▸ second) left atLeft ((elsewhere left atLeft).mp first))
      · rw [differs.others left atLeft, differs.others right atRight] at same
        exact indexed.unique left right ((elsewhere left atLeft).mp first)
          ((elsewhere right atRight).mp second) same
  case alone =>
    intro b member loading
    by_cases same : b.entry = entry
    · rw [same]
      exact alone b member loading same
    · rw [users.counts b.entry same, differs.others b.entry same]
      exact indexed.alone b ((users.members b same).mp member) loading

/-- The entry keeps its block and stays in the hash table, or out of it. -/
theorem indexed_keep (hash : after.hash = c.hash)
    (num : (after.blocks entry).blockNum = (c.blocks entry).blockNum)
    (inside : (after.blocks entry).valid = true → entry < cacheBlocks)
    (listed : Listed after active' entry ↔ Listed c active entry)
    (own : ∀ b ∈ active', b.entry = entry →
      entry < cacheBlocks ∧ (c.blocks entry).blockNum = b.num)
    (refs : (after.blocks entry).refcount = UInt32.ofNat (uses active' entry) ∧
      uses active' entry < 2 ^ 32)
    (alone : ∀ b ∈ active', b.stage.loading = true → b.entry = entry →
      (after.blocks entry).valid = false ∧ uses active' entry = 1) : Indexed after active' := by
  refine indexed_here indexed differs users refs (num ▸ own) inside ?_ ?_ alone
  · rw [hash]
    refine filed_congr indexed.filed fun other => ?_
    by_cases same : other = entry
    · rw [same, num]
      exact ⟨listed, fun _ => rfl⟩
    · rw [differs.others other same]
      exact ⟨listed_elsewhere differs users same, fun _ => rfl⟩
  · intro here other apart known same
    exact apart (indexed.unique other entry known (listed.mp here) (same.trans num))

end

theorem listed_congr (valid : (after.blocks entry).valid = (c.blocks entry).valid)
    (loading : (∃ b ∈ active', b.stage.loading = true ∧ b.entry = entry) ↔
      ∃ b ∈ active, b.stage.loading = true ∧ b.entry = entry) :
    Listed after active' entry ↔ Listed c active entry := by
  unfold Listed
  rw [valid, loading]

theorem loading_iff_cons (quiet : a.stage.loading = false) (other : Nat) :
    (∃ b ∈ a :: rest, b.stage.loading = true ∧ b.entry = other) ↔
      ∃ b ∈ rest, b.stage.loading = true ∧ b.entry = other := by
  simp [quiet]

/-- An entry that is valid is in nobody's hands to load it. -/
theorem valid_not_loading (indexed : Indexed c active) (valid : (c.blocks entry).valid = true)
    (member : a ∈ active) (loading : a.stage.loading = true) : a.entry ≠ entry := by
  rintro rfl
  rw [(indexed.alone a member loading).1] at valid
  cases valid

theorem used_not_loading (indexed : Indexed c (a :: rest)) (member : b ∈ rest)
    (loading : b.stage.loading = true) : b.entry ≠ a.entry := by
  intro same
  have one := (indexed.alone b (.tail _ member) loading).2
  have here := uses_pos member
  rw [uses_cons, same, if_pos rfl] at one
  rw [same] at here
  omega

theorem indexed_use (indexed : Indexed c active) (differs : Differs c after a.entry)
    (hash : after.hash = c.hash) (valid : (c.blocks a.entry).valid = true)
    (still : (after.blocks a.entry).valid = true)
    (num : (after.blocks a.entry).blockNum = (c.blocks a.entry).blockNum)
    (count : (after.blocks a.entry).refcount = (c.blocks a.entry).refcount + 1)
    (room : (c.blocks a.entry).refcount ≠ 0xFFFFFFFF) (quiet : a.stage.loading = false)
    (owns : (c.blocks a.entry).blockNum = a.num) : Indexed after (a :: active) := by
  have settled : ∀ b ∈ a :: active, b.stage.loading = true → b.entry ≠ a.entry := by
    intro b member loading
    rcases List.mem_cons.mp member with rfl | old
    · rw [quiet] at loading
      cases loading
    · exact valid_not_loading indexed valid old loading
  refine indexed_keep indexed differs (users_cons a active) hash num
    (fun _ => indexed.inside _ valid)
    (listed_congr (still.trans valid.symm) (loading_iff_cons quiet _)) ?_ ?_
    (fun b member loading same => absurd same (settled b member loading))
  · intro b member same
    rcases List.mem_cons.mp member with rfl | old
    · exact ⟨indexed.inside _ valid, owns⟩
    · exact same ▸ indexed.own b old
  · obtain ⟨refs, small⟩ := indexed.refs a.entry
    rw [refs] at room count
    have below : uses active a.entry ≠ 0xFFFFFFFF := fun full => room (by rw [full]; rfl)
    rw [uses_cons, if_pos rfl, count]
    refine ⟨?_, by omega⟩
    rw [UInt32.ofNat_add]
    rfl

section

variable (indexed : Indexed c (a :: rest)) (differs : Differs c after a.entry)
  (hash : after.hash = c.hash) (valid : (after.blocks a.entry).valid = (c.blocks a.entry).valid)
  (number : (after.blocks a.entry).blockNum = (c.blocks a.entry).blockNum)

include indexed differs hash valid number

theorem indexed_unuse (count : (after.blocks a.entry).refcount = (c.blocks a.entry).refcount - 1)
    (quiet : a.stage.loading = false) : Indexed after rest := by
  have inside := (indexed.own a (.head _)).1
  refine indexed_keep indexed differs (users_uncons a rest) hash number (fun _ => inside)
    (listed_congr valid (loading_iff_cons quiet _).symm) ?_ ?_
    (fun b member loading same => absurd same (used_not_loading indexed member loading))
  · intro b member same
    exact same ▸ indexed.own b (.tail _ member)
  obtain ⟨refs, small⟩ := indexed.refs a.entry
  rw [uses_cons, if_pos rfl] at refs small
  refine ⟨?_, by omega⟩
  rw [count, refs, UInt32.ofNat_add]
  exact UInt32.add_sub_cancel _ _

theorem indexed_stage (count : (after.blocks a.entry).refcount = (c.blocks a.entry).refcount)
    (kind : stage.loading = a.stage.loading) : Indexed after ({ a with stage } :: rest) := by
  have uses : uses ({ a with stage } :: rest) a.entry = uses (a :: rest) a.entry := by
    rw [uses_cons, uses_cons]
  refine indexed_keep indexed differs (users_stage a stage rest) hash number
    (fun _ => (indexed.own a (.head _)).1) (listed_congr valid (by simp [kind])) ?_ ?_ ?_
  · intro b member same
    rcases List.mem_cons.mp member with rfl | old
    · exact indexed.own a (.head _)
    · exact same ▸ indexed.own b (.tail _ old)
  · rw [uses, count]
    exact indexed.refs a.entry
  intro b member loading same
  rw [uses, valid]
  rcases List.mem_cons.mp member with rfl | old
  · exact indexed.alone a (.head _) (kind ▸ loading)
  · exact same ▸ indexed.alone b (.tail _ old) loading

end

theorem unused_of_refcount (indexed : Indexed c active) (free : (c.blocks entry).refcount = 0) :
    uses active entry = 0 := by
  obtain ⟨refs, small⟩ := indexed.refs entry
  rw [refs] at free
  have zero := congrArg UInt32.toNat free
  rw [UInt32.toNat_ofNat_of_lt' small] at zero
  exact zero

theorem not_used (unused : uses active entry = 0) (member : a ∈ active) : a.entry ≠ entry := by
  rintro rfl
  exact absurd (uses_pos member) (by omega)

theorem loading_unused (indexed : Indexed c (a :: rest)) (loading : a.stage.loading = true) :
    uses rest a.entry = 0 := by
  have single := (indexed.alone a (.head _) loading).2
  rw [uses_cons, if_pos rfl] at single
  omega

theorem touch_recent (indexed : Indexed c active) (inside : entry < cacheBlocks) :
    ∀ other ∈ entry :: c.lru.erase entry, other < cacheBlocks := by
  intro other member
  rcases List.mem_cons.mp member with same | old
  · rw [same]
    exact inside
  · exact indexed.recent other (List.mem_of_mem_erase old)

/-- The chains with one entry taken out, which may have been in none. -/
theorem filed_without (indexed : Indexed c active)
    (idle : ∀ a ∈ active, a.stage.loading = true → a.entry ≠ entry) :
    Filed (fun other => hashFunc (c.blocks other).blockNum)
      (fun other => Listed c active other ∧ other ≠ entry)
      (if (c.blocks entry).valid then removeHash c entry else c).hash := by
  have others : ∀ other, other ≠ entry →
      ((Listed c active other ∧ other ≠ entry) ↔ Listed c active other) ∧
        hashFunc (c.blocks other).blockNum = hashFunc (c.blocks other).blockNum :=
    fun other apart => ⟨and_iff_left apart, rfl⟩
  by_cases valid : (c.blocks entry).valid = true
  · rw [if_pos valid]
    exact filed_remove indexed.filed (fun known => known.2 rfl) others
  rw [if_neg valid]
  refine filed_congr indexed.filed fun other => ⟨⟨fun known => known.1, fun known => ?_⟩,
    fun _ => rfl⟩
  refine ⟨known, ?_⟩
  rintro rfl
  rcases known with isValid | ⟨a, member, loading, same⟩
  · exact valid isValid
  · exact idle a member loading same

theorem reserve_blocks (c : Cache Data) (num entry : Nat) :
    (touch (reserve c num entry) entry).blocks = update c.blocks entry
      { c.blocks entry with blockNum := num, valid := false, dirty := false, refcount := 1 } := by
  unfold touch reserve
  split <;> rfl

theorem reserve_recent (c : Cache Data) (num entry : Nat) :
    (reserve c num entry).lru = c.lru ∧ (reserve c num entry).disk = c.disk := by
  unfold reserve
  split <;> exact ⟨rfl, rfl⟩

theorem indexed_reserve (indexed : Indexed c active) (free : (c.blocks entry).refcount = 0)
    (inside : entry < cacheBlocks)
    (absent : ∀ other, Listed c active other → (c.blocks other).blockNum ≠ num)
    (loading : stage.loading = true) :
    Indexed (touch (reserve c num entry) entry) (⟨entry, num, stage⟩ :: active) := by
  have unused := unused_of_refcount indexed free
  have blocks := reserve_blocks c num entry
  have idle : ∀ a ∈ active, a.stage.loading = true → a.entry ≠ entry :=
    fun a member _ => not_used unused member
  have users : Users active (⟨entry, num, stage⟩ :: active) entry := users_cons ⟨entry, num, stage⟩ active
  have single : uses (⟨entry, num, stage⟩ :: active) entry = 1 := by
    rw [uses_cons, unused, if_pos rfl]
  have differs : Differs c (touch (reserve c num entry) entry) entry := by
    refine ⟨fun other apart => by rw [blocks, update_of_ne apart], ?_⟩
    dsimp only [touch]
    rw [(reserve_recent c num entry).1]
    exact touch_recent indexed inside
  apply indexed_here indexed differs users
  case refs =>
    rw [single, blocks, update_self]
    exact ⟨rfl, by decide⟩
  case own =>
    intro b member same
    rw [blocks, update_self]
    rcases List.mem_cons.mp member with rfl | old
    · exact ⟨inside, rfl⟩
    · exact absurd same (not_used unused old)
  case inside => exact fun _ => inside
  case filed =>
    refine filed_insert (filed_without indexed idle) (fun known => known.2 rfl)
      (.inr ⟨_, .head _, loading, rfl⟩) fun other apart => ?_
    rw [listed_elsewhere differs users apart, and_iff_left apart, differs.others other apart]
    exact ⟨.rfl, rfl⟩
  case unique =>
    intro _ other apart known
    rw [blocks, update_self]
    exact absent other known
  case alone =>
    intro b _ _ _
    rw [single, blocks, update_self]
    exact ⟨rfl, rfl⟩

/-- A load has come to its end: the entry is valid, and is held or left to itself. -/
theorem indexed_loaded (indexed : Indexed c (a :: rest)) (loading : a.stage.loading = true)
    (differs : Differs c after a.entry) (hash : after.hash = c.hash)
    (num : (after.blocks a.entry).blockNum = (c.blocks a.entry).blockNum)
    (valid : (after.blocks a.entry).valid = true)
    (users : (active = { a with stage := .hold } :: rest ∧
        (after.blocks a.entry).refcount = (c.blocks a.entry).refcount) ∨
      (active = rest ∧ (after.blocks a.entry).refcount = 0)) : Indexed after active := by
  have unused := loading_unused indexed loading
  have inside := (indexed.own a (.head _)).1
  have listed : Listed after active a.entry ↔ Listed c (a :: rest) a.entry :=
    ⟨fun _ => .inr ⟨a, .head _, loading, rfl⟩, fun _ => .inl valid⟩
  have idle : ∀ b ∈ rest, b.entry ≠ a.entry := fun b member => not_used unused member
  rcases users with ⟨rfl, count⟩ | ⟨rfl, count⟩
  · refine indexed_keep indexed differs (users_stage a .hold rest) hash num (fun _ => inside) listed
      ?_ ?_ ?_
    · intro b member same
      rcases List.mem_cons.mp member with rfl | old
      · exact indexed.own a (.head _)
      · exact absurd same (idle b old)
    · have before := indexed.refs a.entry
      rw [count]
      exact before
    · intro b member isLoading same
      rcases List.mem_cons.mp member with rfl | old
      · cases isLoading
      · exact absurd same (idle b old)
  · refine indexed_keep indexed differs (users_uncons a active) hash num (fun _ => inside) listed
      (fun b member same => absurd same (idle b member)) ?_
      (fun b member _ same => absurd same (idle b member))
    rw [count, unused]
    exact ⟨rfl, by decide⟩

theorem indexed_unlist (indexed : Indexed c active) (differs : Differs c after entry)
    (hash : after.hash = (removeHash c entry).hash) (invalid : (after.blocks entry).valid = false)
    (users : Users active active' entry)
    (idle : ∀ b ∈ active', b.stage.loading = true → b.entry ≠ entry)
    (own : ∀ b ∈ active', b.entry = entry →
      entry < cacheBlocks ∧ (after.blocks entry).blockNum = b.num)
    (refs : (after.blocks entry).refcount = UInt32.ofNat (uses active' entry) ∧
      uses active' entry < 2 ^ 32) : Indexed after active' := by
  have gone : ¬ Listed after active' entry := by
    rintro (valid | ⟨b, member, loading, at'⟩)
    · rw [invalid] at valid
      cases valid
    · exact idle b member loading at'
  refine indexed_here indexed differs users refs own
    (fun valid => absurd (.inl valid) gone) ?_ (fun here => absurd here gone)
    (fun b member loading same => absurd same (idle b member loading))
  rw [hash]
  refine filed_remove indexed.filed gone fun other apart => ?_
  rw [listed_elsewhere differs users apart, differs.others other apart]
  exact ⟨.rfl, rfl⟩

theorem indexed_abandon (indexed : Indexed c (a :: rest)) (loading : a.stage.loading = true)
    (why : Purpose) : Indexed (finishLoad c why a.num a.entry false) rest := by
  have unused := loading_unused indexed loading
  have apart : ∀ b ∈ rest, b.entry ≠ a.entry := fun b member => not_used unused member
  have differs : Differs c (finishLoad c why a.num a.entry false) a.entry :=
    ⟨fun other different => update_of_ne different _ _, indexed.recent⟩
  refine indexed_unlist indexed differs rfl ?_ (users_uncons a rest) (fun b member _ => apart b member)
    (fun b member same => absurd same (apart b member)) ?_
  · simp only [finishLoad, Bool.false_eq_true, if_false, setBlock, update_self]
    exact (indexed.alone a (.head _) loading).1
  · simp only [finishLoad, Bool.false_eq_true, if_false, setBlock, update_self, unused]
    exact ⟨rfl, by decide⟩

/-- `invalidate` takes a block out of the cache, used or not. -/
theorem indexed_discard (indexed : Indexed c active)
    (idle : ∀ b ∈ active, b.stage.loading = true → b.entry ≠ entry) :
    Indexed (discard c entry) active := by
  have differs : Differs c (discard c entry) entry :=
    ⟨fun other different => update_of_ne different _ _, indexed.recent⟩
  refine indexed_unlist indexed differs rfl ?_ ⟨fun _ _ => .rfl, fun _ _ => rfl⟩ idle ?_ ?_
  · simp only [discard, setBlock, update_self]
  · intro b member same
    simp only [discard, setBlock, update_self]
    exact same ▸ indexed.own b member
  · simp only [discard, setBlock, update_self]
    exact indexed.refs entry

end ViperDos.BlockCache
