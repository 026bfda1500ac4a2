import ViperDos.MapCalls
import ViperDos.RawReads

/-!
What `sys_map_device` lets a process reach. The hardware follows descriptors from the root
and lets user code read the pages and blocks that carry the user bit; `Readable` says which
bytes of memory these are. A request is checked in bytes and mapped in pages, and the check
adds two words without looking at the carry.
-/

namespace ViperDos.Memory

open Function

inductive Walked (words : UInt64 → UInt64) (root : UInt64) : Nat → UInt64 → Prop where
  | root : Walked words root 0 root
  | down {level : Nat} {page : UInt64} {index : Fin 512} (table : Walked words root level page)
      (above : level < 3) (descriptor : isTable (words (entryAt page index)) = true) :
      Walked words root (level + 1) (pageOf (words (entryAt page index)))

def isUser (descriptor : UInt64) : Bool := isValid descriptor && descriptor &&& pteApEl0 ≠ 0

/-- The bytes that a descriptor at a level gives to user code: a page at the last level, a
block of 2 MB or 1 GB above it. -/
def Gives (level : Nat) (descriptor byte : UInt64) : Prop :=
  isUser descriptor = true ∧
    (level = 3 ∧ descriptor &&& ptePage ≠ 0 ∧ InPage byte (pageOf descriptor) ∨
      level = 2 ∧ descriptor &&& pteTable = 0 ∧ byte >>> 21 = pageOf descriptor >>> 21 ∨
      level = 1 ∧ descriptor &&& pteTable = 0 ∧ byte >>> 30 = pageOf descriptor >>> 30)

def Readable (words : UInt64 → UInt64) (root byte : UInt64) : Prop :=
  ∃ level page index, Walked words root level page ∧ Gives level (words (entryAt page index)) byte

def BlocksLow (kind : UInt64 → Option (Nat × Rank)) (words : UInt64 → UInt64) : Prop :=
  ∀ page pid index, kind page = some (pid, .first) → index.val < 2 →
    isTable (words (entryAt page index)) = false

def Rank.level : Rank → Nat
  | .root => 0
  | .first => 1
  | .upper => 1
  | .middle => 2
  | .leaf => 3

variable {index : Fin 512} {next below : Rank} {page root parent table byte pte va entry : UInt64}
  {kind : UInt64 → Option (Nat × Rank)} {pid level : Nat} {rest : List UInt64} {spot : Place}

section

variable {roots : Nat → Option UInt64} {memory : RawMemory} {rank : Rank}

theorem below_level (leads : rank.below index = some next) : next.level = rank.level + 1 := by
  cases rank <;> grind [Rank.below, Rank.level]

theorem newEntry_isUser (good : Good page) : isUser (page ||| pteValid ||| pteTable) = false := by
  have flags : page ||| pteValid ||| pteTable = page ||| (pteValid ||| pteTable) :=
    UInt64.or_assoc ..
  have user := Bits.or_field good (pteValid ||| pteTable) (show addrMask &&& pteApEl0 = 0 by decide)
  rw [isUser, flags, user]
  simp only [Bool.and_eq_false_iff]
  right
  decide

variable (laid : Laid roots kind memory) (blocks : BlocksLow kind memory.words)
  (rooted : roots pid = some root)

include laid blocks rooted

/-- In order, the hardware comes to the tables that the kernel knows. -/
theorem walked_kind (walked : Walked memory.words root level page) :
    ∃ rank, kind page = some (pid, rank) ∧ rank.level = level := by
  induction walked with
  | root => exact ⟨.root, laid.rooted pid root rooted, rfl⟩
  | @down level page index _ above descriptor ih =>
    obtain ⟨rank, owned, same⟩ := ih
    have valid := (Bool.and_eq_true_iff.mp descriptor).1
    cases leads : rank.below index with
    | some next =>
      refine ⟨next, (laid.child page pid rank index next owned leads valid).2, ?_⟩
      rw [below_level leads, same]
    | none =>
      -- only a last-level table and the two blocks lead to no table
      cases rank with
      | root => cases leads
      | first =>
        simp only [Rank.below] at leads
        split at leads
        next low =>
          rw [blocks page pid index owned low] at descriptor
          cases descriptor
        · cases leads
      | upper => cases leads
      | middle => cases leads
      | leaf =>
        simp only [Rank.level] at same
        omega

section NewTable

variable (free : memory.free = page :: rest) (owned : kind parent = some (pid, rank))

include free owned

/-- The hardware comes to the new table, and to those it came to before. -/
theorem opened_walked
    (walked : Walked (opened memory page rest (entryAt parent index)).words root level table) :
    table = page ∨ Walked memory.words root level table := by
  obtain ⟨good, _⟩ := laid.pool page (by simp [free])
  induction walked with
  | root => exact .inr .root
  | @down level table position _ above descriptor ih =>
    rcases ih with rfl | before
    · rw [opened_zero laid free owned] at descriptor
      cases descriptor
    obtain ⟨_, known, _⟩ := walked_kind laid blocks rooted before
    by_cases here : entryAt table position = entryAt parent index
    · left
      rw [here]
      exact opened_entry good
    · rw [opened_table laid free known here] at descriptor ⊢
      exact .inr (.down before above descriptor)

theorem opened_readable
    (readable : Readable (opened memory page rest (entryAt parent index)).words root byte) :
    Readable memory.words root byte := by
  obtain ⟨good, _⟩ := laid.pool page (by simp [free])
  obtain ⟨level, table, position, walked, gives⟩ := readable
  rcases opened_walked laid blocks rooted free owned walked with rfl | before
  · rw [opened_zero laid free owned] at gives
    cases gives.1
  obtain ⟨_, known, _⟩ := walked_kind laid blocks rooted before
  by_cases here : entryAt table position = entryAt parent index
  · have user := gives.1
    rw [here, opened_here, newEntry_isUser good] at user
    cases user
  · rw [opened_table laid free known here] at gives
    exact ⟨level, table, position, before, gives⟩

omit rooted in
theorem opened_blocks {next : UInt64 → Option (Nat × Rank)} (leads : rank.below index = some below)
    (after : Laid roots next (opened memory page rest (entryAt parent index)))
    (step : Extends pid kind next memory (opened memory page rest (entryAt parent index))) :
    BlocksLow next (opened memory page rest (entryAt parent index)).words := by
  intro table owner position known low
  rcases opened_origin free after step known with before | rfl
  · have away : entryAt table position ≠ entryAt parent index := by
      intro same
      obtain ⟨rfl, rfl⟩ := entryAt_inj (laid.good table _ before) (laid.good parent _ owned) same
      rw [before, Option.some.injEq, Prod.mk.injEq] at owned
      rw [← owned.2] at leads
      simp [Rank.below, low] at leads
    rw [opened_table laid free before away]
    exact blocks table owner position before low
  · rw [opened_zero laid free owned]
    rfl

end NewTable

/-- The tables stay in order and nothing new can be read; a table in the answer has the rank. -/
def Quiet (roots : Nat → Option UInt64) (memory : RawMemory) (pid : Nat) (root : UInt64)
    (below : Rank) (result : Option UInt64 × RawMemory) : Prop :=
  ∃ next, Laid roots next result.2 ∧ BlocksLow next result.2.words ∧
    (∀ byte, Readable result.2.words root byte → Readable memory.words root byte) ∧
    ∀ table, result.1 = some table → next table = some (pid, below)

theorem getOrAllocTable_quiet (owned : kind parent = some (pid, rank))
    (leads : rank.below index = some below) :
    Quiet roots memory pid root below (memory.getOrAllocTable parent index) := by
  obtain ⟨next, after, step, found⟩ := getOrAllocTable_laid laid owned leads
  -- nothing is a new table as long as no page left the pool
  unfold Quiet
  by_cases same : (memory.getOrAllocTable parent index).2 = memory
  · rw [same] at after step ⊢
    refine ⟨next, after, ?_, fun _ readable => readable, found⟩
    intro table owner position known low
    rcases step.fresh table _ known with before | fresh
    · exact blocks table owner position before low
    · rw [(after.pool table fresh).2] at known
      cases known
  rcases rawTable_cases memory parent index with
    none | ⟨_, _, there⟩ | ⟨page, rest, free, _, result⟩
  · exact absurd (congrArg Prod.snd none) same
  · exact absurd (congrArg Prod.snd there) same
  · have opens := congrArg Prod.snd result
    rw [opens] at after step ⊢
    exact ⟨next, after, opened_blocks laid blocks free owned leads after step,
      fun _ readable => opened_readable laid blocks rooted free owned readable, found⟩

theorem obtainL3_quiet (high : ¬ Low spot) :
    Quiet roots memory pid root .leaf (memory.obtainL3 root spot) := by
  obtain ⟨rank, toSecond, toThird⟩ := rank_walk high
  obtain ⟨kind1, laid1, blocks1, quiet1, owned1⟩ :=
    getOrAllocTable_quiet laid blocks rooted (laid.rooted pid root rooted) toSecond
  unfold RawMemory.obtainL3
  rcases result1 : memory.getOrAllocTable root spot.1 with ⟨_ | l1, memory1⟩
  all_goals rw [result1] at laid1 blocks1 quiet1 owned1
  · exact ⟨kind1, laid1, blocks1, quiet1, fun table found => by cases found⟩
  obtain ⟨kind2, laid2, blocks2, quiet2, owned2⟩ :=
    getOrAllocTable_quiet laid1 blocks1 rooted (owned1 l1 rfl) toThird
  dsimp only at laid2 blocks2 quiet2 owned2 quiet1 ⊢
  rcases result2 : memory1.getOrAllocTable l1 spot.2.1 with ⟨_ | l2, memory2⟩
  all_goals rw [result2] at laid2 blocks2 quiet2 owned2
  · exact ⟨kind2, laid2, blocks2, fun byte readable => quiet1 byte (quiet2 byte readable),
      fun table found => by cases found⟩
  have toLeaf : Rank.middle.below spot.2.2.1 = some .leaf := rfl
  obtain ⟨kind3, laid3, blocks3, quiet3, owned3⟩ :=
    getOrAllocTable_quiet laid2 blocks2 rooted (owned2 l2 rfl) toLeaf
  exact ⟨kind3, laid3, blocks3,
    fun byte readable => quiet1 byte (quiet2 byte (quiet3 byte readable)), owned3⟩

theorem putLeaf_walked (owned : kind table = some (pid, .leaf)) (index : Fin 512) (pte : UInt64)
    (walked : Walked (memory.put (entryAt table index) pte).words root level page) :
    Walked memory.words root level page := by
  induction walked with
  | root => exact .root
  | @down level page position _ above descriptor ih =>
    obtain ⟨rank, known, same⟩ := walked_kind laid blocks rooted ih
    have away : entryAt page position ≠ entryAt table index := by
      intro here
      rw [leaf_entry laid owned known here, Rank.level] at same
      omega
    rw [put_away away] at descriptor ⊢
    exact .down ih above descriptor

theorem putLeaf_readable (owned : kind table = some (pid, .leaf))
    (readable : Readable (memory.put (entryAt table index) pte).words root byte) :
    Readable memory.words root byte ∨ InPage byte (pageOf pte) := by
  obtain ⟨level, page, position, walked, gives⟩ := readable
  have before := putLeaf_walked laid blocks rooted owned index pte walked
  obtain ⟨rank, known, same⟩ := walked_kind laid blocks rooted before
  by_cases here : entryAt page position = entryAt table index
  · right
    rw [leaf_entry laid owned known here, Rank.level] at same
    rw [here, put_here] at gives
    rcases gives.2 with ⟨_, _, inside⟩ | ⟨two, _⟩ | ⟨one, _⟩
    · exact inside
    all_goals omega
  · rw [put_away here] at gives
    exact .inl ⟨level, page, position, before, gives⟩

theorem writePte_readable (high : ¬ Low (place va))
    (readable : Readable (memory.writePte root va entry).2.words root byte) :
    Readable memory.words root byte ∨ InPage byte (pageOf entry) := by
  unfold RawMemory.writePte at readable
  split at readable
  · exact .inl readable
  obtain ⟨next, after, blocksAfter, quiet, leaf⟩ := obtainL3_quiet laid blocks rooted high
  split at readable
  next result =>
    rw [result] at quiet
    exact .inl (quiet byte readable)
  next l3 middle result =>
  rw [result] at after blocksAfter quiet leaf
  rcases putLeaf_readable after blocksAfter rooted (leaf l3 rfl) readable with before | inside
  · exact .inl (quiet byte before)
  · exact .inr inside

end

-- Requests

def validatedDevice (physAddr size : UInt64) : Option DeviceRegion :=
  knownDevices.find? fun device =>
    device.physBase ≤ physAddr && physAddr + size ≤ device.physBase + device.size

def DeviceRegion.Contains (device : DeviceRegion) (byte : UInt64) : Prop :=
  device.physBase.toNat ≤ byte.toNat ∧ byte.toNat < device.physBase.toNat + device.size.toNat

def Accepted (physAddr size : UInt64) : Prop :=
  size ≠ 0 ∧ size ≤ 16 * 1024 * 1024 ∧ validDevice physAddr size = true

/-- The request lies, without wrapping around, in a region of whole pages. -/
def WholePages (physAddr size : UInt64) : Prop :=
  ∃ device ∈ knownDevices, device.size.toNat % 4096 = 0 ∧
    device.physBase.toNat ≤ physAddr.toNat ∧
    physAddr.toNat + size.toNat ≤ device.physBase.toNat + device.size.toNat

variable {device : DeviceRegion}

/-- The regions in numbers: three of a page each, and 32 of 512 bytes in four pages. -/
theorem knownDevices_toNat (known : device ∈ knownDevices) :
    (device.physBase.toNat = 0x09000000 ∨ device.physBase.toNat = 0x09010000 ∨
        device.physBase.toNat = 0x09030000) ∧ device.size.toNat = 0x1000 ∨
      (0x0a000000 ≤ device.physBase.toNat ∧ device.physBase.toNat < 0x0a004000 ∧
        device.physBase.toNat % 0x200 = 0) ∧ device.size.toNat = 0x200 := by
  simp only [knownDevices, List.cons_append, List.nil_append, List.mem_cons, List.mem_map,
    List.mem_range] at known
  rcases known with rfl | rfl | rfl | ⟨i, small, rfl⟩
  · exact .inl ⟨.inl rfl, rfl⟩
  · exact .inl ⟨.inr (.inl rfl), rfl⟩
  · exact .inl ⟨.inr (.inr rfl), rfl⟩
  · refine .inr ⟨?_, rfl⟩
    simp only [UInt64.toNat_add, UInt64.toNat_ofNat', UInt64.reduceToNat]
    omega

variable {physAddr size : UInt64}

theorem validated_toNat (found : validatedDevice physAddr size = some device) :
    device ∈ knownDevices ∧ device.physBase.toNat ≤ physAddr.toNat ∧
      (physAddr.toNat + size.toNat) % 2 ^ 64 ≤ device.physBase.toNat + device.size.toNat := by
  have known := List.mem_of_find?_eq_some found
  have checked := List.find?_some found
  simp only [Bool.and_eq_true, decide_eq_true_eq, UInt64.le_iff_toNat_le, UInt64.toNat_add]
    at checked
  exact ⟨known, checked.1, by omega⟩

theorem accepted_device (accepted : Accepted physAddr size) :
    ∃ device, validatedDevice physAddr size = some device := by
  rw [← Option.isSome_iff_exists, validatedDevice, List.isSome_find?]
  exact accepted.2.2

theorem accepted_pos (accepted : Accepted physAddr size) : 0 < size.toNat := by
  rw [Nat.pos_iff_ne_zero]
  exact fun zero => accepted.1 (UInt64.toNat_inj.mp zero)

theorem or_flag {word flags field : UInt64} (flagged : flags &&& field ≠ 0) :
    (word ||| flags) &&& field ≠ 0 := by
  rw [Bits.or_and]
  intro zero
  exact flagged (UInt64.or_eq_zero_iff.mp zero).2

/-- What the hardware makes of the entry of a page, whatever the address is. -/
theorem makeEntry_reads (pa : UInt64) :
    pageOf (makeEntry pa protRw) = pageOf pa ∧ isTable (makeEntry pa protRw) = true ∧
      isUser (makeEntry pa protRw) = true := by
  rw [makeEntry_eq]
  refine ⟨?_, ?_, ?_⟩
  · rw [pageOf, Bits.or_and, entryFlags_mask, UInt64.or_zero, pageOf]
  · simp only [isTable, isValid, Bool.and_eq_true, decide_eq_true_eq]
    exact ⟨or_flag (by decide), or_flag (by decide)⟩
  · simp only [isUser, isValid, Bool.and_eq_true, decide_eq_true_eq]
    exact ⟨or_flag (by decide), or_flag (by decide)⟩

def requestPages (physAddr size : UInt64) : Nat := ((deviceSize physAddr size + 4095) / 4096).toNat

theorem requestPages_eq (small : size ≤ 16 * 1024 * 1024) :
    requestPages physAddr size = (size.toNat + physAddr.toNat % 4096 + 4095) / 4096 := by
  have bound : size.toNat ≤ 16 * 1024 * 1024 := UInt64.le_iff_toNat_le.mp small
  have down := pageAlignDown_toNat physAddr
  have below : pageAlignDown physAddr ≤ physAddr := by
    rw [UInt64.le_iff_toNat_le, down]
    omega
  have offset : (physAddr - pageAlignDown physAddr).toNat = physAddr.toNat % 4096 := by
    rw [UInt64.toNat_sub_of_le _ _ below, down]
    omega
  have rounded : (deviceSize physAddr size).toNat =
      (size.toNat + physAddr.toNat % 4096 + 4095) / 4096 * 4096 := by
    rw [deviceSize, pageAlignUp, @Bits.and_toNat 52 12 (~~~pageMask) _ (by decide)]
    simp only [UInt64.toNat_add, offset, UInt64.reduceToNat]
    omega
  unfold requestPages
  simp only [UInt64.toNat_div, UInt64.toNat_add, rounded, UInt64.reduceToNat]
  omega

/-- A request in whole pages is mapped in one page, all of which is in the region. -/
theorem wholePages_page (whole : WholePages physAddr size) (accepted : Accepted physAddr size) :
    requestPages physAddr size = 1 ∧ Good (pageAlignDown physAddr) ∧
      ∃ device, validatedDevice physAddr size = some device ∧
        ∀ byte, InPage byte (pageAlignDown physAddr) → device.Contains byte := by
  have positive := accepted_pos accepted
  have down := pageAlignDown_toNat physAddr
  obtain ⟨region, known, paged, base, top⟩ := whole
  obtain ⟨device, found⟩ := accepted_device accepted
  obtain ⟨listed, lower, upper⟩ := validated_toNat found
  have placed := knownDevices_toNat known
  have other := knownDevices_toNat listed
  -- the check stops at the same region, as no two overlap
  refine ⟨?_, ?_, device, found, ?_⟩
  · rw [requestPages_eq accepted.2.1]
    omega
  · apply UInt64.toNat_inj.mp
    rw [show pageAlignDown physAddr &&& addrMask = pageOf (pageAlignDown physAddr) from rfl,
      pageOf_toNat, down]
    omega
  · intro byte inside
    rw [inPage_toNat (by omega), down] at inside
    unfold DeviceRegion.Contains
    omega

variable {j : Nat} {other target : Rank} {addr : UInt64}

/-- Any other request that is accepted is mapped in pages each of which has a byte outside
the region. -/
theorem strayPage (stray : ¬ WholePages physAddr size) (accepted : Accepted physAddr size)
    (inside : j < requestPages physAddr size) :
    ∃ byte, InPage byte (pageOf (pageAlignDown physAddr + UInt64.ofNat (4096 * j))) ∧
      ∀ device, validatedDevice physAddr size = some device → ¬ device.Contains byte := by
  have bound : size.toNat ≤ 16 * 1024 * 1024 := UInt64.le_iff_toNat_le.mp accepted.2.1
  rw [requestPages_eq accepted.2.1] at inside
  have down := pageAlignDown_toNat physAddr
  have address := physAddr.toNat_lt
  have page := pageOf_toNat (pageAlignDown physAddr + UInt64.ofNat (4096 * j))
  rw [UInt64.toNat_add, UInt64.toNat_ofNat', down] at page
  obtain ⟨device, found⟩ := accepted_device accepted
  obtain ⟨listed, lower, upper⟩ := validated_toNat found
  have placed := knownDevices_toNat listed
  simp only [found, Option.some.injEq, forall_eq', DeviceRegion.Contains]
  by_cases wraps : 2 ^ 64 ≤ physAddr.toNat + size.toNat
  · -- the pages are at the top of the address space and below the first region
    refine ⟨pageOf (pageAlignDown physAddr + UInt64.ofNat (4096 * j)), ?_, by omega⟩
    rw [inPage_toNat (by omega)]
    omega
  · -- the region has 512 bytes of the page
    have slot : device.size.toNat = 0x200 ∧ 0x0a000000 ≤ device.physBase.toNat := by
      by_contra large
      exact stray ⟨device, listed, by omega, lower, by omega⟩
    have first : j = 0 := by omega
    subst j
    by_cases start : device.physBase.toNat % 4096 = 0
    · have next : (device.physBase + 0x200).toNat = device.physBase.toNat + 0x200 := by
        simp only [UInt64.toNat_add, UInt64.reduceToNat]
        omega
      refine ⟨device.physBase + 0x200, ?_, by omega⟩
      rw [inPage_toNat (by omega)]
      omega
    · refine ⟨pageOf (pageAlignDown physAddr + UInt64.ofNat (4096 * 0)), ?_, by omega⟩
      rw [inPage_toNat (by omega)]
      omega

/-- Whatever the state of the page tables, as long as they are in order, the bytes that the
call lets the process read are in the region its check stopped at. -/
def MapsOnlyDevice (physAddr size userVirt : UInt64) : Prop :=
  ∀ (roots : Nat → Option UInt64) (kind : UInt64 → Option (Nat × Rank)) (pid : Nat)
    (viper : RawViper) (memory : RawMemory),
    Laid roots kind memory → BlocksLow kind memory.words → roots pid = some viper.root →
      ∀ byte, ¬ Readable memory.words viper.root byte →
        Readable (sysMapDevice viper physAddr size userVirt memory).2.words viper.root byte →
          ∃ device, validatedDevice physAddr size = some device ∧ device.Contains byte

/-- The memory after the call: unchanged, or with the pages mapped as far as they could be. -/
theorem sysMapDevice_memory (viper : RawViper) (physAddr size userVirt : UInt64)
    (memory : RawMemory) :
    (sysMapDevice viper physAddr size userVirt memory).2 = memory ∨
      Accepted physAddr size ∧ (sysMapDevice viper physAddr size userVirt memory).2 =
        (memory.mapPages viper.root (deviceVirt physAddr userVirt) (pageAlignDown physAddr) protRw
          (requestPages physAddr size)).2 := by
  have mapped : ∀ {result : Bool × RawMemory}, memory.map viper.root (deviceVirt physAddr userVirt)
      (pageAlignDown physAddr) (deviceSize physAddr size) protRw = result →
      result.2 = memory ∨ result.2 = (memory.mapPages viper.root (deviceVirt physAddr userVirt)
        (pageAlignDown physAddr) protRw (requestPages physAddr size)).2 := by
    rintro result rfl
    unfold RawMemory.map requestPages
    split
    · exact .inl rfl
    · exact .inr rfl
  unfold sysMapDevice
  split
  · exact .inl rfl
  next sized =>
  split
  · exact .inl rfl
  split
  · exact .inl rfl
  split
  · exact .inl rfl
  next valid =>
  have bounds := not_or.mp sized
  have accepted : Accepted physAddr size :=
    ⟨bounds.1, UInt64.not_lt.mp bounds.2, by simpa using valid⟩
  split <;> next result => exact (mapped result).imp_right fun same => ⟨accepted, same⟩

theorem mapPages_one (memory : RawMemory) (root va pa : UInt64) (protFlags : UInt32) :
    (memory.mapPages root va pa protFlags 1).2 =
      (memory.writePte root va (makeEntry pa protFlags)).2 := by
  unfold RawMemory.mapPages
  split
  next result => rw [result]
  next result =>
    rw [result]
    rfl

variable {userVirt : UInt64}

theorem wholePages_mapsOnly (whole : WholePages physAddr size)
    (high : ¬ Low (place (deviceVirt physAddr userVirt))) :
    MapsOnlyDevice physAddr size userVirt := by
  intro roots kind pid viper memory laid blocks rooted byte hidden readable
  rcases sysMapDevice_memory viper physAddr size userVirt memory with same | ⟨accepted, result⟩
  · rw [same] at readable
    exact absurd readable hidden
  obtain ⟨one, good, device, found, contains⟩ := wholePages_page whole accepted
  rw [result, one, mapPages_one] at readable
  rcases writePte_readable laid blocks rooted high readable with before | inside
  · exact absurd before hidden
  · rw [makeEntry_page good] at inside
    exact ⟨device, found, contains byte inside⟩

theorem refused_mapsOnly (refused : ¬ Accepted physAddr size) :
    MapsOnlyDevice physAddr size userVirt := by
  intro roots kind pid viper memory _ _ _ byte hidden readable
  rcases sysMapDevice_memory viper physAddr size userVirt memory with same | ⟨accepted, _⟩
  · rw [same] at readable
    exact absurd readable hidden
  · exact absurd accepted refused

-- A process whose tables are all there, one of each rank. Every address outside the
-- kernel's two gigabytes leads to the last-level table; what the walk finds inside them
-- depends on the rest of memory.

def samplePage : Rank → UInt64
  | .root => 0x50000000
  | .first => 0x50001000
  | .upper => 0x50002000
  | .middle => 0x50003000
  | .leaf => 0x50004000

def sampleEntry : Rank → Fin 512 → UInt64
  | .root, index => if index = 0 then 0x50001003 else 0x50002003
  | .first, index =>
    if index = 0 then 0x401 else if index = 1 then 0x40000401 else 0x50003003
  | .upper, _ => 0x50003003
  | .middle, _ => 0x50004003
  | .leaf, _ => 0

def ranks : List Rank := [.root, .first, .upper, .middle, .leaf]

def sampleMemory (rest : UInt64 → UInt64) : RawMemory where
  words := fun addr =>
    match ranks.find? fun rank => InPage addr (samplePage rank) with
    | some rank => sampleEntry rank (Fin.ofNat 512 ((addr - samplePage rank).toNat / 8))
    | none => rest addr
  free := []

def sampleKind (page : UInt64) : Option (Nat × Rank) :=
  (ranks.find? fun rank => samplePage rank = page).map (0, ·)

def sampleRoots (pid : Nat) : Option UInt64 := if pid = 0 then some (samplePage .root) else none

theorem samplePage_good (rank : Rank) : Good (samplePage rank) := by
  unfold Good
  cases rank <;> decide

variable {rank : Rank}

theorem samplePage_inj (same : samplePage rank = samplePage other) : rank = other := by
  revert same
  cases rank <;> cases other <;> decide

theorem sampleKind_iff : sampleKind page = some (pid, rank) ↔ pid = 0 ∧ page = samplePage rank := by
  constructor
  · intro known
    obtain ⟨found, hit, pair⟩ := Option.map_eq_some_iff.mp known
    cases pair
    have equal := List.find?_some hit
    exact ⟨rfl, (of_decide_eq_true equal).symm⟩
  · rintro ⟨rfl, rfl⟩
    cases rank <;> rfl

variable {rest : UInt64 → UInt64}

theorem sample_rest (outside : ∀ rank, ¬ InPage addr (samplePage rank)) :
    (sampleMemory rest).words addr = rest addr := by
  have none : (ranks.find? fun rank => decide (InPage addr (samplePage rank))) = none := by
    simp [outside]
  simp only [sampleMemory, none]

theorem sample_words (rest : UInt64 → UInt64) (rank : Rank) (index : Fin 512) :
    (sampleMemory rest).words (entryAt (samplePage rank) index) = sampleEntry rank index := by
  have hit : ∀ other, decide (InPage (entryAt (samplePage rank) index) (samplePage other)) =
      decide (other = rank) := by
    intro other
    by_cases same : other = rank
    · simp [same, entryAt_inPage]
    · have away := entryAt_outside (samplePage_good other) (samplePage_good rank)
        (fun equal => same (samplePage_inj equal).symm) index
      simp [same, away]
  have found : (ranks.find? fun other =>
      decide (InPage (entryAt (samplePage rank) index) (samplePage other))) = some rank := by
    simp only [hit]
    cases rank <;> rfl
  have position : Fin.ofNat 512 ((entryAt (samplePage rank) index - samplePage rank).toNat / 8) =
      index := by
    rw [entryAt, Bits.add_sub_left, UInt64.toNat_ofNat']
    apply Fin.ext
    simp only [Fin.ofNat]
    omega
  simp only [sampleMemory, found, position]

theorem firstBlocks (low : index.val < 2) : index = 0 ∨ index = 1 := by
  rcases index with ⟨value, small⟩
  simp only [Fin.ext_iff]
  change value < 2 at low
  omega

theorem sampleEntry_user (rank : Rank) (index : Fin 512) :
    isUser (sampleEntry rank index) = false := by
  cases rank <;> simp only [sampleEntry]
  case root => split <;> decide
  case first =>
    split
    · decide
    · split <;> decide
  all_goals decide

theorem sampleEntry_below (leads : rank.below index = some next) :
    isTable (sampleEntry rank index) = true ∧ pageOf (sampleEntry rank index) = samplePage next := by
  cases rank with
  | root =>
    simp only [Rank.below, Option.some.injEq] at leads
    subst next
    simp only [sampleEntry]
    split <;> decide
  | first =>
    simp only [Rank.below] at leads
    split at leads
    · cases leads
    next high =>
    cases leads
    have later : index ≠ 0 ∧ index ≠ 1 := by
      constructor <;> rintro rfl <;> exact high (by decide)
    simp only [sampleEntry, later, if_false]
    decide
  | upper | middle =>
    cases leads
    simp only [sampleEntry]
    decide
  | leaf => cases leads

/-- The two blocks, which the kernel's walk takes for tables. -/
theorem sampleEntry_block (low : index.val < 2) : isValid (sampleEntry .first index) = true ∧
      (pageOf (sampleEntry .first index) = 0 ∨ pageOf (sampleEntry .first index) = 0x40000000) := by
  rcases firstBlocks low with rfl | rfl <;> decide

theorem sample_tables (rest : UInt64 → UInt64) (rank : Rank) :
    TableOf (sampleMemory rest).words (samplePage .root) rank (samplePage rank) := by
  have down : ∀ {above below : Rank} (index : Fin 512), above.below index = some below →
      TableOf (sampleMemory rest).words (samplePage .root) above (samplePage above) →
        TableOf (sampleMemory rest).words (samplePage .root) below (samplePage below) := by
    intro above below index leads table
    obtain ⟨descriptor, target⟩ := sampleEntry_below leads
    rw [← sample_words rest] at descriptor target
    rw [← target]
    exact .down table leads descriptor
  have upper := down 1 rfl .root
  have middle := @down .upper .middle 0 rfl upper
  cases rank with
  | root => exact .root
  | first => exact down 0 rfl .root
  | upper => exact upper
  | middle => exact middle
  | leaf => exact @down .middle .leaf 0 rfl middle

theorem sample_laid (rest : UInt64 → UInt64) : Laid sampleRoots sampleKind (sampleMemory rest) := by
  constructor
  case good =>
    rintro page ⟨pid, rank⟩ known
    obtain ⟨_, rfl⟩ := sampleKind_iff.mp known
    exact samplePage_good rank
  case pool => exact fun page member => by cases member
  case nodup => exact List.nodup_nil
  case rooted =>
    intro pid root found
    unfold sampleRoots at found
    split at found
    next zero =>
      cases found
      exact sampleKind_iff.mpr ⟨zero, rfl⟩
    · cases found
  case child =>
    intro page pid rank index below known leads _
    obtain ⟨rfl, rfl⟩ := sampleKind_iff.mp known
    rw [sample_words]
    obtain ⟨descriptor, target⟩ := sampleEntry_below leads
    exact ⟨descriptor, sampleKind_iff.mpr ⟨rfl, target⟩⟩
  case reach =>
    intro page pid rank known
    obtain ⟨rfl, rfl⟩ := sampleKind_iff.mp known
    exact ⟨samplePage .root, rfl, sample_tables rest rank⟩

theorem sample_blocks (rest : UInt64 → UInt64) : BlocksLow sampleKind
    (sampleMemory rest).words := by
  intro page pid index known low
  obtain ⟨_, rfl⟩ := sampleKind_iff.mp known
  rw [sample_words]
  rcases firstBlocks low with rfl | rfl <;> decide

theorem sample_unreadable (rest : UInt64 → UInt64) (byte : UInt64) :
    ¬ Readable (sampleMemory rest).words (samplePage .root) byte := by
  rintro ⟨level, page, index, walked, gives⟩
  obtain ⟨rank, known, _⟩ := walked_kind (sample_laid rest) (sample_blocks rest)
    (show sampleRoots 0 = some (samplePage .root) from rfl) walked
  obtain ⟨_, rfl⟩ := sampleKind_iff.mp known
  have user := gives.1
  rw [sample_words, sampleEntry_user] at user
  cases user

structure Leads (target : Rank) (memory : RawMemory) : Prop where
  tables : ∀ rank index, rank ≠ .leaf →
    memory.words (entryAt (samplePage rank) index) = sampleEntry rank index
  blocks : ∀ block index, block = 0 ∨ block = 0x40000000 →
    memory.words (entryAt block index) = samplePage target ||| 3

variable {memory : RawMemory}

theorem getOrAllocTable_valid
    (valid : isValid (memory.words (entryAt parent index)) = true) :
    memory.getOrAllocTable parent index =
      (some (pageOf (memory.words (entryAt parent index))), memory) := by
  exact if_pos valid

section

variable (leads : Leads target memory)

include leads

theorem leads_next
    (below : rank.below index = some next) :
    memory.getOrAllocTable (samplePage rank) index = (some (samplePage next), memory) := by
  have above : rank ≠ .leaf := by
    rintro rfl
    cases below
  obtain ⟨descriptor, page⟩ := sampleEntry_below below
  rw [← leads.tables rank index above] at descriptor page
  rw [getOrAllocTable_valid (Bool.and_eq_true_iff.mp descriptor).1, page]

def lastTable (target : Rank) (spot : Place) : Rank := if Low spot then target else .leaf

theorem obtainL3_leads (spot : Place) :
    memory.obtainL3 (samplePage .root) spot =
      (some (samplePage (lastTable target spot)), memory) := by
  unfold RawMemory.obtainL3 lastTable
  by_cases low : Low spot
  · rw [if_pos low]
    have toFirst : Rank.root.below spot.1 = some .first := by simp [Rank.below, low.1]
    have entry := leads.tables .first spot.2.1 (by decide)
    obtain ⟨valid, block⟩ := sampleEntry_block low.2
    rw [← entry] at valid block
    have back := leads.blocks _ spot.2.2.1 block
    have bits : isValid (samplePage target ||| 3) = true ∧
        pageOf (samplePage target ||| 3) = samplePage target := by
      cases target <;> decide
    rw [leads_next leads toFirst]
    dsimp only
    rw [getOrAllocTable_valid valid]
    dsimp only
    rw [getOrAllocTable_valid (by rw [back]; exact bits.1), back, bits.2]
  · rw [if_neg low]
    obtain ⟨rank, toSecond, toThird⟩ := rank_walk low
    rw [leads_next leads toSecond]
    dsimp only
    rw [leads_next leads toThird]
    exact leads_next leads rfl

theorem writePte_leads (va entry : UInt64) :
    memory.writePte (samplePage .root) va entry = (true, memory.put
        (entryAt (samplePage (lastTable target (place va))) (place va).2.2.2) entry) := by
  unfold RawMemory.writePte
  rw [if_neg (by decide), obtainL3_leads leads]

theorem leads_put (index : Fin 512) (entry : UInt64) :
    Leads target (memory.put (entryAt (samplePage .leaf) index) entry) := by
  have apart : ∀ {page : UInt64} (position : Fin 512), Good page → page ≠ samplePage .leaf →
      (memory.put (entryAt (samplePage .leaf) index) entry).words (entryAt page position) =
        memory.words (entryAt page position) := by
    intro page position good other
    exact put_away fun same => other (entryAt_inj good (samplePage_good .leaf) same).1
  constructor
  case tables =>
    intro rank position above
    rw [apart position (samplePage_good rank) fun same => above (samplePage_inj same)]
    exact leads.tables rank position above
  case blocks =>
    intro block position either
    rw [apart position]
    · exact leads.blocks block position either
    · unfold Good
      rcases either with rfl | rfl <;> decide
    · rcases either with rfl | rfl <;> decide

omit leads in
/-- The pages of a request go to the last-level table, over one another where they are more
than it holds; the entry of one of them is there in the end. -/
theorem mapPages_leads (pages : Nat) (leads : Leads .leaf memory) (va pa : UInt64) :
    Leads .leaf (memory.mapPages (samplePage .root) va pa protRw (pages + 1)).2 ∧
      ∃ j ≤ pages, ∃ index, (memory.mapPages (samplePage .root) va pa protRw (pages + 1)).2.words
          (entryAt (samplePage .leaf) index) = makeEntry (pa + UInt64.ofNat (4096 * j)) protRw := by
  have leaf : lastTable .leaf (place va) = .leaf := ite_self _
  induction pages generalizing memory va pa with
  | zero =>
    rw [mapPages_one, writePte_leads leads, leaf]
    refine ⟨leads_put leads _ _, 0, le_rfl, (place va).2.2.2, ?_⟩
    rw [put_here, show pa + UInt64.ofNat (4096 * 0) = pa from UInt64.add_zero pa]
  | succ pages ih =>
    rw [RawMemory.mapPages, writePte_leads leads, leaf]
    obtain ⟨kept, j, within, index, last⟩ :=
      ih (leads_put leads (place va).2.2.2 (makeEntry pa protRw)) (va + 4096) (pa + 4096)
        (ite_self _)
    refine ⟨kept, j + 1, by omega, index, ?_⟩
    exact last.trans (congrArg (makeEntry · protRw) (next_page pa j))

end

theorem leads_walked (leads : Leads target memory) :
    Walked memory.words (samplePage .root) 3 (samplePage .leaf) := by
  have down : ∀ {level : Nat} {above next : Rank} (index : Fin 512), above.below index = some next →
      level < 3 → Walked memory.words (samplePage .root) level (samplePage above) →
        Walked memory.words (samplePage .root) (level + 1) (samplePage next) := by
    intro level above next index below bound walked
    have inner : above ≠ .leaf := by
      rintro rfl
      cases below
    obtain ⟨descriptor, page⟩ := sampleEntry_below below
    rw [← leads.tables above index inner] at descriptor page
    rw [← page]
    exact .down walked bound descriptor
  have upper := down 1 rfl (by decide) .root
  have middle := @down 1 .upper .middle 0 rfl (by decide) upper
  exact @down 2 .middle .leaf 0 rfl (by decide) middle

def sampleViper : RawViper where
  root := samplePage .root
  vmaList := initMemoryRegions
  mmapNext := userMmapBase
  capTable := some (CapTable.insert (CapTable.init 1) 0xFFFFFFFFFFFFFFF8 .device capDeviceAccess).1
  locked := false

theorem sysMapDevice_accepted (accepted : Accepted physAddr size)
    (userVirt : UInt64) (memory : RawMemory) :
    (sysMapDevice sampleViper physAddr size userVirt memory).2 =
      (memory.mapPages (samplePage .root) (deviceVirt physAddr userVirt) (pageAlignDown physAddr)
        protRw (requestPages physAddr size)).2 := by
  obtain ⟨some, small, valid⟩ := accepted
  have sized : ¬ (size = 0 ∨ 16 * 1024 * 1024 < size) :=
    not_or.mpr ⟨some, UInt64.not_lt.mpr small⟩
  have capable : hasDeviceCap
      (CapTable.insert (CapTable.init 1) 0xFFFFFFFFFFFFFFF8 .device capDeviceAccess).1
      capDeviceAccess = true := by decide
  have mapped : memory.map (samplePage .root) (deviceVirt physAddr userVirt)
      (pageAlignDown physAddr) (deviceSize physAddr size) protRw =
      memory.mapPages (samplePage .root) (deviceVirt physAddr userVirt) (pageAlignDown physAddr)
        protRw (requestPages physAddr size) := if_neg (by decide)
  simp only [sysMapDevice, sampleViper, if_neg sized, capable, valid, Bool.not_true,
    Bool.false_eq_true, if_false, mapped]
  split <;> next result => rw [result]

theorem samplePage_away (good : Good page) (away : ∀ rank, page ≠ samplePage rank)
    (rest : UInt64 → UInt64) (index : Fin 512) :
    (sampleMemory rest).words (entryAt page index) = rest (entryAt page index) :=
  sample_rest fun rank => entryAt_outside (samplePage_good rank) good (away rank) index

theorem sample_leads (low : ∀ block index, block = 0 ∨ block = 0x40000000 →
      rest (entryAt block index) = samplePage target ||| 3) : Leads target (sampleMemory rest) := by
  constructor
  case tables => exact fun rank index _ => sample_words rest rank index
  case blocks =>
    intro block index either
    rw [samplePage_away]
    · exact low block index either
    · unfold Good
      rcases either with rfl | rfl <;> decide
    · intro rank
      rcases either with rfl | rfl <;> cases rank <;> decide

/-- A request that the check accepts, but not in whole pages, shows a process with all its
tables a byte outside the region. -/
theorem strays (accepted : Accepted physAddr size)
    (stray : ¬ WholePages physAddr size) : ¬ MapsOnlyDevice physAddr size userVirt := by
  intro only
  let memory := sampleMemory fun _ => samplePage .leaf ||| 3
  have leads : Leads .leaf memory := sample_leads fun _ _ _ => rfl
  have positive := accepted_pos accepted
  have some : 0 < requestPages physAddr size := by
    rw [requestPages_eq accepted.2.1]
    omega
  obtain ⟨pages, count⟩ := Nat.exists_eq_add_one.mpr some
  obtain ⟨after, j, within, index, entry⟩ :=
    mapPages_leads pages leads (deviceVirt physAddr userVirt) (pageAlignDown physAddr)
  have result := sysMapDevice_accepted accepted userVirt memory
  rw [count] at result
  rw [← result] at after entry
  obtain ⟨byte, inside, outside⟩ := strayPage stray accepted (j := j) (by omega)
  obtain ⟨page, _, user⟩ := makeEntry_reads (pageAlignDown physAddr + UInt64.ofNat (4096 * j))
  obtain ⟨device, found, contains⟩ := only sampleRoots sampleKind 0 sampleViper memory
    (sample_laid _) (sample_blocks _) rfl byte (sample_unreadable _ byte)
    ⟨3, samplePage .leaf, index, leads_walked after, by
      rw [entry]
      refine ⟨user, .inl ⟨rfl, ?_, by rw [page]; exact inside⟩⟩
      rw [makeEntry_eq]
      exact or_flag (by decide)⟩
  exact outside device found contains

/-- Memory in which the kernel's two gigabytes lead back to the root, and the registers of a
device read as the descriptor of a block. -/
def loopedMemory (device : UInt64) : RawMemory :=
  sampleMemory fun addr => if InPage addr device then 0x80000441 else samplePage .root ||| 3

theorem looped_leads {device : UInt64} (good : Good device)
    (apart : device ≠ 0 ∧ device ≠ 0x40000000) : Leads .root (loopedMemory device) := by
  apply sample_leads
  intro block index either
  apply if_neg
  rcases either with rfl | rfl
  · exact entryAt_outside good (by unfold Good; decide) apart.1.symm index
  · exact entryAt_outside good (by unfold Good; decide) apart.2.symm index

/-- The write to a page of the kernel's two gigabytes goes to the root there, which makes the
device a table. -/
theorem looped_readable {device : UInt64} (good : Good device) (below : device.toNat < 0x40000000)
    (positive : device ≠ 0) (low : Low (place va)) :
    Readable ((loopedMemory device).mapPages (samplePage .root) va device protRw 1).2.words
      (samplePage .root) 0x80000000 := by
  have apart : device ≠ 0x40000000 := by
    rintro rfl
    exact absurd below (by decide)
  have away : ∀ rank, device ≠ samplePage rank := by
    rintro rank rfl
    revert below
    cases rank <;> decide
  have last : lastTable .root (place va) = .root := if_pos low
  rw [mapPages_one, writePte_leads (looped_leads good ⟨positive, apart⟩), last]
  obtain ⟨_, table, _⟩ := makeEntry_reads device
  have page := makeEntry_page good protRw
  set after := (loopedMemory device).put (entryAt (samplePage .root) (place va).2.2.2)
    (makeEntry device protRw) with written
  have entry : after.words (entryAt (samplePage .root) (place va).2.2.2) =
      makeEntry device protRw := put_here _ _
  have register : after.words (entryAt device 0) = 0x80000441 := by
    rw [written, put_away fun same => away .root (entryAt_inj good (samplePage_good .root) same).1,
      loopedMemory, samplePage_away good away]
    exact if_pos (entryAt_inPage device 0)
  refine ⟨1, device, 0, ?_, ?_⟩
  · have walked : Walked after.words (samplePage .root) 1
        (pageOf (after.words (entryAt (samplePage .root) (place va).2.2.2))) :=
      .down .root (by decide) (by rw [entry]; exact table)
    rw [entry, page] at walked
    exact walked
  · rw [register]
    exact ⟨by decide, .inr (.inr ⟨rfl, by decide, by decide⟩)⟩

theorem wholePages_below (whole : WholePages physAddr size) :
    (pageAlignDown physAddr).toNat < 0x40000000 ∧ pageAlignDown physAddr ≠ 0 := by
  have down := pageAlignDown_toNat physAddr
  obtain ⟨region, known, paged, base, top⟩ := whole
  have placed := knownDevices_toNat known
  refine ⟨by omega, ?_⟩
  intro zero
  rw [zero] at down
  have none : (0 : UInt64).toNat = 0 := rfl
  omega

theorem low_strays (accepted : Accepted physAddr size)
    (whole : WholePages physAddr size) (low : Low (place (deviceVirt physAddr userVirt))) :
    ¬ MapsOnlyDevice physAddr size userVirt := by
  intro only
  obtain ⟨one, good, _⟩ := wholePages_page whole accepted
  obtain ⟨below, positive⟩ := wholePages_below whole
  have result := sysMapDevice_accepted accepted userVirt (loopedMemory (pageAlignDown physAddr))
  rw [one] at result
  have readable := looped_readable good below positive low
  rw [← result] at readable
  obtain ⟨device, found, contains⟩ := only sampleRoots sampleKind 0 sampleViper
    (loopedMemory (pageAlignDown physAddr)) (sample_laid _) (sample_blocks _) rfl 0x80000000
    (sample_unreadable _ _) readable
  have placed := knownDevices_toNat (validated_toNat found).1
  have byte : (0x80000000 : UInt64).toNat = 0x80000000 := rfl
  unfold DeviceRegion.Contains at contains
  omega

/-- A request makes only bytes of the region it was checked against readable exactly if it is
refused, or lies, without wrapping around, in a region of whole pages and is mapped outside
the kernel's two gigabytes. -/
theorem mapDevice_confined_iff (physAddr size userVirt : UInt64) :
    MapsOnlyDevice physAddr size userVirt ↔ ¬ Accepted physAddr size ∨
        WholePages physAddr size ∧ ¬ Low (place (deviceVirt physAddr userVirt)) := by
  constructor
  · intro only
    by_cases accepted : Accepted physAddr size
    · by_cases whole : WholePages physAddr size
      · exact .inr ⟨whole, fun low => low_strays accepted whole low only⟩
      · exact absurd only (strays accepted whole)
    · exact .inl accepted
  · rintro (refused | ⟨whole, high⟩)
    · exact refused_mapsOnly refused
    · exact wholePages_mapsOnly whole high

def driverViper : RawViper := { sampleViper with root := 0x40200000 }

def virtioMapped : RawMemory := (sysMapDevice driverViper 0x0a000000 0x200 0 createdKernel.memory).2

/-- The tables of a new process are the root and the one with the two blocks, which user code
cannot read. -/
theorem created_unreadable (byte : UInt64) :
    ¬ Readable createdKernel.memory.words driverViper.root byte := by
  have entries : (∀ index : Fin 512, isUser (createdKernel.memory.words
      (entryAt 0x40200000 index)) = false ∧
      (isTable (createdKernel.memory.words (entryAt 0x40200000 index)) = true →
        pageOf (createdKernel.memory.words (entryAt 0x40200000 index)) = 0x40201000)) ∧
      ∀ index : Fin 512, isUser (createdKernel.memory.words (entryAt 0x40201000 index)) = false ∧
        isTable (createdKernel.memory.words (entryAt 0x40201000 index)) = false := by
    decide +kernel
  have tables : ∀ {level : Nat} {page : UInt64},
      Walked createdKernel.memory.words driverViper.root level page →
        page = 0x40200000 ∨ page = 0x40201000 := by
    intro level page walked
    induction walked with
    | root => exact .inl rfl
    | @down level page index _ _ descriptor ih =>
      rcases ih with rfl | rfl
      · exact .inr ((entries.1 index).2 descriptor)
      · rw [(entries.2 index).2] at descriptor
        cases descriptor
  rintro ⟨level, page, index, walked, user, _⟩
  rcases tables walked with rfl | rfl
  · rw [(entries.1 index).1] at user
    cases user
  · rw [(entries.2 index).1] at user
    cases user

theorem virtio_readable : Readable virtioMapped.words driverViper.root 0x0a000200 := by
  have words : virtioMapped.words (entryAt 0x40200000 0) = 0x40201003 ∧
      virtioMapped.words (entryAt 0x40201000 4) = 0x40202003 ∧
      virtioMapped.words (entryAt 0x40202000 80) = 0x40203003 ∧
      virtioMapped.words (entryAt 0x40203000 0) = makeEntry 0x0a000000 protRw := by
    decide
  obtain ⟨root, first, middle, leaf⟩ := words
  have down : ∀ {level : Nat} {page descriptor : UInt64} (index : Fin 512),
      virtioMapped.words (entryAt page index) = descriptor → level < 3 →
      isTable descriptor = true → Walked virtioMapped.words driverViper.root level page →
        Walked virtioMapped.words driverViper.root (level + 1) (pageOf descriptor) := by
    rintro level page descriptor index rfl bound table walked
    exact .down walked bound table
  have walked := down 80 middle (by decide) (by decide)
    (down 4 first (by decide) (by decide) (down 0 root (by decide) (by decide) .root))
  refine ⟨3, 0x40203000, 0, walked, ?_⟩
  obtain ⟨page, _, user⟩ := makeEntry_reads 0x0a000000
  refine ⟨user, .inl ⟨rfl, by decide, ?_⟩⟩
  decide

/-- A new process with the capability maps the 512 bytes of the first virtio slot. The page
it gets holds the seven slots after it as well. -/
theorem virtio_neighbour_mapped :
    (sysMapDevice driverViper 0x0a000000 0x200 0 createdKernel.memory).1 = .ok 0x10a000000 ∧
      (validatedDevice 0x0a000000 0x200).map DeviceRegion.physBase = some 0x0a000000 ∧
      (validatedDevice 0x0a000000 0x200).map DeviceRegion.size = some 0x200 ∧
      ¬ Readable createdKernel.memory.words driverViper.root 0x0a000200 ∧
      Readable virtioMapped.words driverViper.root 0x0a000200 ∧
      ¬ MapsOnlyDevice 0x0a000000 0x200 0 := by
  have accepted : Accepted 0x0a000000 0x200 := by
    unfold Accepted
    decide
  have partly : ¬ WholePages 0x0a000000 0x200 := by
    rintro ⟨device, known, paged, base, top⟩
    have placed := knownDevices_toNat known
    have start : (0x0a000000 : UInt64).toNat = 0x0a000000 := rfl
    omega
  exact ⟨by decide, by decide, by decide, created_unreadable _, virtio_readable,
    strays accepted partly⟩

end ViperDos.Memory
