import ViperDos.FaultFrame

/-!
Page tables as the words of physical memory, which kernel/viper/address_space.cpp walks
from the root. A walk takes every valid descriptor for that of a table, also the two
block descriptors of the kernel's low gigabytes, whose addresses are those of memory.
-/

namespace ViperDos.Memory

open Function

def pteTable : UInt64 := 2

def entryAt (table : UInt64) (index : Fin 512) : UInt64 := table + UInt64.ofNat (8 * index.val)

def InPage (addr page : UInt64) : Prop := addr - page < 4096

instance (addr page : UInt64) : Decidable (InPage addr page) :=
  inferInstanceAs (Decidable (_ < _))

/-- `words` holds the word at each address that is a multiple of eight. -/
structure RawMemory where
  words : UInt64 → UInt64
  free : List UInt64

namespace RawMemory

section

variable (memory : RawMemory)

def put (addr value : UInt64) : RawMemory :=
  { memory with words := update memory.words addr value }

def fillWords (page : UInt64) (content : UInt64 → UInt64) : RawMemory :=
  { memory with
    words := fun addr => if InPage addr page then content (addr - page) else memory.words addr }

/-- The new descriptor is read back after it is written. -/
def getOrAllocTable (parent : UInt64) (index : Fin 512) : Option UInt64 × RawMemory :=
  let entry := entryAt parent index
  if isValid (memory.words entry) then (some (pageOf (memory.words entry)), memory)
  else
    match memory.free with
    | [] => (none, memory)
    | page :: rest =>
      let memory := fillWords { memory with free := rest } page fun _ => 0
      let memory := memory.put entry (page ||| pteValid ||| pteTable)
      (some (pageOf (memory.words entry)), memory)

def obtainL3 (root : UInt64) (spot : Place) : Option UInt64 × RawMemory :=
  match memory.getOrAllocTable root spot.1 with
  | (none, memory) => (none, memory)
  | (some l1, memory) =>
    match memory.getOrAllocTable l1 spot.2.1 with
    | (none, memory) => (none, memory)
    | (some l2, memory) => memory.getOrAllocTable l2 spot.2.2.1

def writePte (root va entry : UInt64) : Bool × RawMemory :=
  if root = 0 then (false, memory)
  else
    match memory.obtainL3 root (place va) with
    | (none, memory) => (false, memory)
    | (some l3, memory) => (true, memory.put (entryAt l3 (place va).2.2.2) entry)

def mapPages (memory : RawMemory) (root va pa : UInt64) (protFlags : UInt32) :
    Nat → Bool × RawMemory
  | 0 => (true, memory)
  | pages + 1 =>
    match memory.writePte root va (makeEntry pa protFlags) with
    | (false, memory) => (false, memory)
    | (true, memory) => mapPages memory root (va + 4096) (pa + 4096) protFlags pages

def map (root va pa size : UInt64) (protFlags : UInt32) : Bool × RawMemory :=
  if root = 0 then (false, memory)
  else memory.mapPages root va pa protFlags ((size + 4095) / 4096).toNat

def nextTable (table : UInt64) (index : Fin 512) : Option UInt64 :=
  let descriptor := memory.words (entryAt table index)
  if isValid descriptor then some (pageOf descriptor) else none

def findL3 (root : UInt64) (spot : Place) : Option UInt64 :=
  match memory.nextTable root spot.1 with
  | none => none
  | some l1 =>
    match memory.nextTable l1 spot.2.1 with
    | none => none
    | some l2 => memory.nextTable l2 spot.2.2.1

def readPte (root va : UInt64) : UInt64 :=
  if root = 0 then 0
  else
    match memory.findL3 root (place va) with
    | none => 0
    | some l3 => memory.words (entryAt l3 (place va).2.2.2)

def unmapPage (root va : UInt64) : RawMemory :=
  match memory.findL3 root (place va) with
  | none => memory
  | some l3 => memory.put (entryAt l3 (place va).2.2.2) 0

def unmapPages (memory : RawMemory) (root va : UInt64) : Nat → RawMemory
  | 0 => memory
  | pages + 1 => unmapPages (memory.unmapPage root va) root (va + 4096) pages

def unmap (root va size : UInt64) : RawMemory :=
  if root = 0 then memory else memory.unmapPages root va ((size + 4095) / 4096).toNat

def frameWord (frame : Frame) (offset : UInt64) : UInt64 :=
  (List.range 8).foldr (fun i word => word <<< 8 ||| (frame (offset + UInt64.ofNat i)).toUInt64) 0

def placeFresh (root : UInt64) (request : Request) : Bool × RawMemory :=
  match memory.free with
  | [] => (false, memory)
  | page :: rest =>
    let filled := fillWords { memory with free := rest } page (frameWord request.fill)
    match filled.map root request.addr page 4096 (asProt request.prot) with
    | (true, memory) => (true, memory)
    | (false, memory) => (false, { memory with free := page :: memory.free })

end

def placeEach (memory : RawMemory) (root : UInt64) : List Request → RawMemory
  | [] => memory
  | request :: rest =>
    match memory.placeFresh root request with
    | (true, memory) => memory.placeEach root rest
    | (false, memory) => memory

end RawMemory

/-- What a table is for: the tables below index 0 of a root hold the block descriptors. -/
inductive Rank where
  | root | first | upper | middle | leaf
  deriving DecidableEq

def Rank.below : Rank → Fin 512 → Option Rank
  | .root, index => some (if index = 0 then .first else .upper)
  | .first, index => if index.val < 2 then none else some .middle
  | .upper, _ => some .middle
  | .middle, _ => some .leaf
  | .leaf, _ => none

def isTable (descriptor : UInt64) : Bool := isValid descriptor && descriptor &&& pteTable ≠ 0

inductive TableOf (words : UInt64 → UInt64) (root : UInt64) : Rank → UInt64 → Prop where
  | root : TableOf words root .root root
  | down {rank next : Rank} {page : UInt64} {index : Fin 512}
      (table : TableOf words root rank page) (leads : rank.below index = some next)
      (descriptor : isTable (words (entryAt page index)) = true) :
      TableOf words root next (pageOf (words (entryAt page index)))

/-- Every page table has one place in one address space, and no free page is one. -/
structure Laid (roots : Nat → Option UInt64) (kind : UInt64 → Option (Nat × Rank))
    (memory : RawMemory) : Prop where
  good : ∀ page owner, kind page = some owner → Good page
  pool : ∀ page ∈ memory.free, Good page ∧ kind page = none
  nodup : memory.free.Nodup
  rooted : ∀ pid root, roots pid = some root → kind root = some (pid, .root)
  child : ∀ page pid rank index below, kind page = some (pid, rank) →
    rank.below index = some below → isValid (memory.words (entryAt page index)) = true →
      isTable (memory.words (entryAt page index)) = true ∧
        kind (pageOf (memory.words (entryAt page index))) = some (pid, below)
  reach : ∀ page pid rank, kind page = some (pid, rank) →
    ∃ root, roots pid = some root ∧ TableOf memory.words root rank page

variable {page other root addr value parent l3 va entry table size : UInt64}
  {count i pid pages otherPid : Nat} {index position : Fin 512}
  {kind next last : UInt64 → Option (Nat × Rank)} {memory middle after start : RawMemory}
  {rank below otherRank target : Rank} {owner : Nat × Rank} {spot : Place}
  {roots : Nat → Option UInt64} {rest : List UInt64} {request : Request} {wanted : List Request}

theorem good_toNat (good : Good page) : page.toNat % 4096 = 0 ∧ page.toNat < 2 ^ 48 := by
  have value := congrArg UInt64.toNat good
  rw [@Bits.and_toNat 36 12 addrMask page (by decide)] at value
  omega

/-- Pages that are all good follow each other without wrapping around. -/
theorem run_toNat (good : ∀ i < count, Good (page + UInt64.ofNat (4096 * i)))
    (inside : i < count) :
    (page + UInt64.ofNat (4096 * i)).toNat = page.toNat + 4096 * i := by
  induction i with
  | zero => exact congrArg UInt64.toNat (UInt64.add_zero page)
  | succ i ih =>
    have before := ih (Nat.lt_of_succ_lt inside)
    obtain ⟨_, bound⟩ := good_toNat (good i (Nat.lt_of_succ_lt inside))
    rw [Nat.mul_add, UInt64.ofNat_add, ← UInt64.add_assoc, UInt64.toNat_add, before]
    have step : (UInt64.ofNat (4096 * 1)).toNat = 4096 := rfl
    omega

theorem entryAt_toNat (good : Good page) (index : Fin 512) :
    (entryAt page index).toNat = page.toNat + 8 * index.val := by
  obtain ⟨_, bound⟩ := good_toNat good
  unfold entryAt
  rw [UInt64.toNat_add, UInt64.toNat_ofNat']
  omega

theorem entryAt_inPage (page : UInt64) (index : Fin 512) : InPage (entryAt page index) page := by
  have limit : (4096 : UInt64).toNat = 4096 := rfl
  rw [InPage, entryAt, Bits.add_sub_left, UInt64.lt_iff_toNat_lt, UInt64.toNat_ofNat']
  omega

theorem entryAt_outside (good : Good page) (otherGood : Good other)
    (apart : other ≠ page) (index : Fin 512) : ¬ InPage (entryAt other index) page := by
  obtain ⟨aligned, bound⟩ := good_toNat good
  obtain ⟨otherAligned, otherBound⟩ := good_toNat otherGood
  have different : other.toNat ≠ page.toNat := fun same => apart (UInt64.toNat_inj.mp same)
  have limit : (4096 : UInt64).toNat = 4096 := rfl
  unfold InPage
  rw [UInt64.lt_iff_toNat_lt, UInt64.toNat_sub, entryAt_toNat otherGood]
  omega

theorem entryAt_inj (good : Good page) (otherGood : Good other)
    (same : entryAt page index = entryAt other position) : page = other ∧ index = position := by
  obtain ⟨aligned, _⟩ := good_toNat good
  obtain ⟨otherAligned, _⟩ := good_toNat otherGood
  have equal := congrArg UInt64.toNat same
  rw [entryAt_toNat good, entryAt_toNat otherGood] at equal
  exact ⟨UInt64.toNat_inj.mp (by omega), Fin.ext (by omega)⟩

/-- The entries of tables that the step of a process may change: those of its last-level
tables, and those that led nowhere. -/
structure Extends (pid : Nat) (kind next : UInt64 → Option (Nat × Rank))
    (memory after : RawMemory) : Prop where
  kept : ∀ page owner, kind page = some owner → next page = some owner
  fresh : ∀ page owner, next page = some owner → kind page = some owner ∨ page ∈ memory.free
  fewer : ∀ page ∈ after.free, page ∈ memory.free
  changed : ∀ addr, after.words addr ≠ memory.words addr →
    (∃ page ∈ memory.free, InPage addr page) ∨
      ∃ page rank index, kind page = some (pid, rank) ∧ addr = entryAt page index ∧
        (rank = .leaf ∨ isValid (memory.words addr) = false)

theorem extends_refl : Extends pid kind kind memory memory where
  kept := fun _ _ owned => owned
  fresh := fun _ _ owned => .inl owned
  fewer := fun _ member => member
  changed := fun _ different => absurd rfl different

theorem extends_trans (first : Extends pid kind next memory middle)
    (second : Extends pid next last middle after) : Extends pid kind last memory after := by
  constructor
  case kept => exact fun page owner owned => second.kept page owner (first.kept page owner owned)
  case fresh =>
    intro page owner owned
    rcases second.fresh page owner owned with before | free
    · exact first.fresh page owner before
    · exact .inr (first.fewer page free)
  case fewer => exact fun page member => first.fewer page (second.fewer page member)
  case changed =>
    intro addr different
    by_cases same : middle.words addr = memory.words addr
    · rw [← same] at different ⊢
      rcases second.changed addr different with ⟨page, free, inside⟩ | ⟨page, rank, index, owned,
        place, open_⟩
      · exact .inl ⟨page, first.fewer page free, inside⟩
      · rcases first.fresh page _ owned with before | free
        · exact .inr ⟨page, rank, index, before, place, open_⟩
        · exact .inl ⟨page, free, place ▸ entryAt_inPage page index⟩
    · exact first.changed addr same

section

/-- Tables stay as long as the descriptors that lead to them do. -/
theorem tableOf_kept {after : UInt64 → UInt64} {words : UInt64 → UInt64}
    (same : ∀ page rank index below, TableOf words root rank page →
      rank.below index = some below → isTable (words (entryAt page index)) = true →
        after (entryAt page index) = words (entryAt page index))
    (table : TableOf words root rank page) : TableOf after root rank page := by
  induction table with
  | root => exact .root
  | down table leads descriptor ih =>
    have entry := same _ _ _ _ table leads descriptor
    rw [← entry] at descriptor ⊢
    exact .down ih leads descriptor

theorem newEntry_bits (good : Good page) :
    isTable (page ||| pteValid ||| pteTable) = true ∧ pageOf (page ||| pteValid ||| pteTable) = page := by
  have flags : page ||| pteValid ||| pteTable = page ||| (pteValid ||| pteTable) :=
    UInt64.or_assoc ..
  rw [flags]
  constructor
  · have valid := Bits.or_field good (pteValid ||| pteTable) (show addrMask &&& pteValid = 0 by decide)
    have table := Bits.or_field good (pteValid ||| pteTable) (show addrMask &&& pteTable = 0 by decide)
    simp only [isTable, isValid, valid, table]
    decide
  · exact Bits.or_mask good (by decide)

theorem put_here (addr value : UInt64) : (memory.put addr value).words addr = value :=
  update_self ..

theorem put_away (away : other ≠ addr) :
    (memory.put addr value).words other = memory.words other := update_of_ne away ..

theorem put_valid (value : UInt64) (invalid : isValid (memory.words addr) = false)
    (valid : isValid (memory.words other) = true) :
    (memory.put addr value).words other = memory.words other := by
  apply update_of_ne
  intro same
  rw [same, invalid] at valid
  cases valid

theorem attach_origin (known : update kind page (some (pid, below)) other = some owner) :
    (other = page ∧ owner = (pid, below)) ∨ kind other = some owner := by
  by_cases same : other = page
  · rw [same, update_self, Option.some.injEq] at known
    exact .inl ⟨same, known.symm⟩
  · rw [update_of_ne same] at known
    exact .inr known

/-- A page that is ready to be a table of some rank: it is in no use, and those of its
entries that are for tables lead nowhere. -/
structure Blank (kind : UInt64 → Option (Nat × Rank)) (memory : RawMemory) (page : UInt64)
    (rank : Rank) : Prop where
  good : Good page
  unowned : kind page = none
  unfree : page ∉ memory.free
  entries : ∀ index target, rank.below index = some target →
    isValid (memory.words (entryAt page index)) = false

theorem blank_apart (blank : Blank kind memory page below)
    (owned : kind other = some owner) : other ≠ page := by
  intro same
  rw [same, blank.unowned] at owned
  cases owned

theorem attach_extends (first : Extends pid kind kind start memory) (free : page ∈ start.free)
    (unowned : kind page = none) (owned : kind parent = some (pid, rank))
    (same : memory.words (entryAt parent index) = start.words (entryAt parent index))
    (invalid : isValid (memory.words (entryAt parent index)) = false) (value : UInt64) :
    Extends pid kind (update kind page (some (pid, below))) start
      (memory.put (entryAt parent index) value) := by
  constructor
  case kept =>
    intro other owner known
    have different : other ≠ page := by
      intro here
      rw [here, unowned] at known
      cases known
    rw [update_of_ne different]
    exact known
  case fresh =>
    intro other owner known
    rcases attach_origin known with ⟨rfl, _⟩ | before
    · exact .inr free
    · exact .inl before
  case fewer => exact first.fewer
  case changed =>
    intro addr different
    by_cases here : addr = entryAt parent index
    · refine .inr ⟨parent, rank, index, owned, here, .inr ?_⟩
      rw [here, ← same]
      exact invalid
    · apply first.changed addr
      rwa [put_away here] at different

def Low (spot : Place) : Prop := spot.1 = 0 ∧ spot.2.1.val < 2

instance (spot : Place) : Decidable (Low spot) := inferInstanceAs (Decidable (_ ∧ _))

/-- The rank of the second table of a walk, and that it has a third for other addresses. -/
theorem rank_walk (high : ¬ Low spot) :
    ∃ rank, Rank.root.below spot.1 = some rank ∧ rank.below spot.2.1 = some .middle := by
  by_cases first : spot.1 = 0
  · have above : ¬ spot.2.1.val < 2 := fun low => high ⟨first, low⟩
    exact ⟨.first, by simp [Rank.below, first], by simp [Rank.below, above]⟩
  · exact ⟨.upper, by simp [Rank.below, first], rfl⟩

theorem findL3_steps (found : memory.findL3 root spot = some l3) :
    ∃ l1 l2, memory.nextTable root spot.1 = some l1 ∧ memory.nextTable l1 spot.2.1 = some l2 ∧
      memory.nextTable l2 spot.2.2.1 = some l3 := by
  unfold RawMemory.findL3 at found
  split at found
  · cases found
  next l1 first =>
  split at found
  · cases found
  next l2 second => exact ⟨l1, l2, first, second, found⟩

/-- A step that leaves the tables in order and changes only what is its own. -/
def Confined (roots : Nat → Option UInt64) (pid : Nat) (kind : UInt64 → Option (Nat × Rank))
    (memory after : RawMemory) : Prop :=
  ∃ next, Laid roots next after ∧ Extends pid kind next memory after

theorem confined_trans (first : Extends pid kind next memory middle)
    (second : Confined roots pid next middle after) : Confined roots pid kind memory after := by
  obtain ⟨last, laid, step⟩ := second
  exact ⟨last, laid, extends_trans first step⟩

def HighPages (va : UInt64) (pages : Nat) : Prop :=
  ∀ i < pages, ¬ Low (place (va + UInt64.ofNat (4096 * i)))

theorem next_page (addr : UInt64) (i : Nat) :
    addr + 4096 + UInt64.ofNat (4096 * i) = addr + UInt64.ofNat (4096 * (i + 1)) := by
  rw [UInt64.add_assoc, Nat.mul_add, UInt64.ofNat_add, UInt64.add_comm 4096]
  rfl

theorem highPages_succ (high : HighPages va (pages + 1)) :
    ¬ Low (place va) ∧ HighPages (va + 4096) pages := by
  constructor
  · simpa using high 0 (Nat.succ_pos _)
  · intro i inside
    rw [next_page]
    exact high (i + 1) (Nat.succ_lt_succ inside)

theorem highPages_one (high : ¬ Low (place va)) :
    HighPages va (((4096 : UInt64) + 4095) / 4096).toNat := by
  have one : (((4096 : UInt64) + 4095) / 4096).toNat = 1 := by decide
  intro i first
  have zero : i = 0 := by omega
  simpa [zero] using high

variable (laid : Laid roots kind memory)

include laid

theorem tableOf_kind (found : roots pid = some root)
    (table : TableOf memory.words root rank page) : kind page = some (pid, rank) := by
  induction table with
  | root => exact laid.rooted pid root found
  | down _ leads descriptor ih =>
    have valid := (Bool.and_eq_true_iff.mp descriptor).1
    exact (laid.child _ _ _ _ _ ih leads valid).2

/-- Memory may change where no descriptor of a table is, and pages may leave the pool. -/
theorem laid_scribble
    (fewer : ∀ page ∈ after.free, page ∈ memory.free) (nodup : after.free.Nodup)
    (same : ∀ page pid rank index below, kind page = some (pid, rank) →
      rank.below index = some below →
        after.words (entryAt page index) = memory.words (entryAt page index)) :
    Laid roots kind after := by
  constructor
  case good => exact laid.good
  case pool => exact fun page member => laid.pool page (fewer page member)
  case nodup => exact nodup
  case rooted => exact laid.rooted
  case child =>
    intro page pid rank index below owned leads valid
    rw [same page pid rank index below owned leads] at valid ⊢
    exact laid.child page pid rank index below owned leads valid
  case reach =>
    intro page pid rank owned
    obtain ⟨root, found, table⟩ := laid.reach page pid rank owned
    refine ⟨root, found, tableOf_kept ?_ table⟩
    intro page rank index below table leads _
    exact same page pid rank index below (tableOf_kind laid found table) leads

theorem laid_apart (free : page ∈ memory.free) (owned : kind other = some owner) :
    other ≠ page := by
  intro same
  rw [same, (laid.pool page free).2] at owned
  cases owned

theorem fillWords_laid (free : memory.free = page :: rest) (content : UInt64 → UInt64) :
    Laid roots kind (RawMemory.fillWords { memory with free := rest } page content) ∧
      Extends pid kind kind memory
        (RawMemory.fillWords { memory with free := rest } page content) := by
  have member : page ∈ memory.free := by simp [free]
  have unique := laid.nodup
  rw [free] at unique
  have fewer : ∀ other ∈ rest, other ∈ memory.free := by
    intro other inRest
    rw [free]
    exact .tail _ inRest
  constructor
  · apply laid_scribble laid fewer (List.nodup_cons.mp unique).2
    intro other otherPid rank index below known _
    exact if_neg (entryAt_outside (laid.pool page member).1 (laid.good other _ known)
      (laid_apart laid member known) index)
  · refine ⟨fun _ _ known => known, fun _ _ known => .inl known, fewer, ?_⟩
    intro addr different
    refine .inl ⟨page, member, ?_⟩
    by_contra outside
    exact different (if_neg outside)

section

variable (blank : Blank kind memory page below) (owned : kind parent = some (pid, rank))
  (leads : rank.below index = some below)

include blank owned leads

theorem attach_child
    (known : update kind page (some (pid, below)) other = some (otherPid, otherRank))
    (leadsOther : otherRank.below position = some target)
    (written : (memory.put (entryAt parent index)
      (page ||| pteValid ||| pteTable)).words (entryAt other position) = entry)
    (valid : isValid entry = true) : isTable entry = true ∧
      update kind page (some (pid, below)) (pageOf entry) = some (otherPid, target) := by
  have parentGood := laid.good parent _ owned
  subst written
  rcases attach_origin known with ⟨rfl, owner⟩ | before
  · cases owner
    have elsewhere : entryAt other position ≠ entryAt parent index := fun same =>
      blank_apart blank owned (entryAt_inj blank.good parentGood same).1.symm
    rw [put_away elsewhere, blank.entries position target leadsOther] at valid
    cases valid
  by_cases same : entryAt other position = entryAt parent index
  · obtain ⟨rfl, rfl⟩ := entryAt_inj (laid.good other _ before) parentGood same
    obtain ⟨table, leadsTo⟩ := newEntry_bits blank.good
    rw [before, Option.some.injEq, Prod.mk.injEq] at owned
    obtain ⟨rfl, rfl⟩ := owned
    rw [leads, Option.some.injEq] at leadsOther
    rw [same, put_here, leadsTo, update_self, leadsOther]
    exact ⟨table, rfl⟩
  · rw [put_away same] at valid ⊢
    obtain ⟨table, lower⟩ := laid.child other _ _ position target before leadsOther valid
    rw [update_of_ne (blank_apart blank lower)]
    exact ⟨table, lower⟩

theorem attach_laid
    (invalid : isValid (memory.words (entryAt parent index)) = false) :
    Laid roots (update kind page (some (pid, below)))
      (memory.put (entryAt parent index) (page ||| pteValid ||| pteTable)) := by
  have still : ∀ other otherPid otherRank, kind other = some (otherPid, otherRank) →
      ∃ root, roots otherPid = some root ∧
        TableOf (memory.put (entryAt parent index) (page ||| pteValid ||| pteTable)).words root
          otherRank other := by
    intro other otherPid otherRank known
    obtain ⟨root, found, reached⟩ := laid.reach other otherPid otherRank known
    refine ⟨root, found, tableOf_kept ?_ reached⟩
    intro above rank position target _ _ descriptor
    exact put_valid _ invalid (Bool.and_eq_true_iff.mp descriptor).1
  constructor
  case good =>
    intro other owner known
    rcases attach_origin known with ⟨same, _⟩ | before
    · rw [same]
      exact blank.good
    · exact laid.good other owner before
  case pool =>
    intro other inPool
    have different : other ≠ page := fun same => blank.unfree (same ▸ inPool)
    rw [update_of_ne different]
    exact laid.pool other inPool
  case nodup => exact laid.nodup
  case rooted =>
    intro other root found
    have known := laid.rooted other root found
    rw [update_of_ne (blank_apart blank known), known]
  case child =>
    intro other otherPid otherRank position target known leadsOther valid
    exact attach_child laid blank owned leads known leadsOther rfl valid
  case reach =>
    intro other otherPid otherRank known
    rcases attach_origin known with ⟨rfl, owner⟩ | before
    · cases owner
      obtain ⟨root, found, reached⟩ := still parent pid rank owned
      obtain ⟨table, leadsTo⟩ := newEntry_bits blank.good
      have down := TableOf.down reached leads (by rw [put_here]; exact table)
      rw [put_here, leadsTo] at down
      exact ⟨root, found, down⟩
    · exact still other otherPid otherRank before

end

theorem zeroed_blank (free : memory.free = page :: rest) :
    Blank kind (RawMemory.fillWords { memory with free := rest } page fun _ => 0) page rank := by
  obtain ⟨good, unowned⟩ := laid.pool page (by simp [free])
  have unique := laid.nodup
  rw [free] at unique
  refine ⟨good, unowned, (List.nodup_cons.mp unique).1, ?_⟩
  intro index _ _
  unfold RawMemory.fillWords
  dsimp only
  rw [if_pos (entryAt_inPage page index)]
  rfl

theorem getOrAllocTable_laid (owned : kind parent = some (pid, rank))
    (leads : rank.below index = some below) :
    ∃ next, Laid roots next (memory.getOrAllocTable parent index).2 ∧
      Extends pid kind next memory (memory.getOrAllocTable parent index).2 ∧
      ∀ table, (memory.getOrAllocTable parent index).1 = some table →
        next table = some (pid, below) := by
  unfold RawMemory.getOrAllocTable
  dsimp only
  split
  next valid =>
    obtain ⟨_, lower⟩ := laid.child parent pid rank index below owned leads valid
    refine ⟨kind, laid, extends_refl, ?_⟩
    intro table found
    cases found
    exact lower
  next invalid =>
  rw [Bool.not_eq_true] at invalid
  split
  next => exact ⟨kind, laid, extends_refl, fun table found => by cases found⟩
  next page rest free =>
  have member : page ∈ memory.free := by simp [free]
  obtain ⟨filled, step⟩ := @fillWords_laid _ pid _ _ _ _ laid free fun _ => 0
  have blank : Blank kind (RawMemory.fillWords { memory with free := rest } page fun _ => 0)
      page below := zeroed_blank laid free
  have same : (RawMemory.fillWords { memory with free := rest } page fun _ => 0).words
      (entryAt parent index) = memory.words (entryAt parent index) :=
    if_neg (entryAt_outside blank.good (laid.good parent _ owned) (laid_apart laid member owned)
      index)
  refine ⟨_, attach_laid filled blank owned leads (same ▸ invalid),
    attach_extends step member blank.unowned owned same (same ▸ invalid) _, ?_⟩
  intro table found
  have written : pageOf (page ||| pteValid ||| pteTable) = table := by
    rw [← Option.some.inj found, put_here]
  rw [← written, (newEntry_bits blank.good).2, update_self]

theorem nextTable_owned {next : UInt64} (owned : kind table = some (pid, rank))
    (leads : rank.below index = some below)
    (found : memory.nextTable table index = some next) : kind next = some (pid, below) := by
  unfold RawMemory.nextTable at found
  dsimp only at found
  split at found
  next valid =>
    cases found
    exact (laid.child table pid rank index below owned leads valid).2
  · cases found

section

variable (owned : kind table = some (pid, .leaf))

include owned

/-- An entry of a last-level table is in no other. -/
theorem leaf_entry {owner : Nat} (known : kind other = some (owner, rank))
    (same : entryAt other position = entryAt table index) : rank = .leaf := by
  obtain ⟨rfl, _⟩ := entryAt_inj (laid.good other _ known) (laid.good table _ owned) same
  rw [owned, Option.some.injEq, Prod.mk.injEq] at known
  exact known.2.symm

/-- An entry of a last-level table leads to no table. -/
theorem putLeaf_words {next : Rank} (index : Fin 512) (pte : UInt64) {owner : Nat}
    (known : kind other = some (owner, rank)) (leads : rank.below position = some next) :
    (memory.put (entryAt table index) pte).words (entryAt other position) =
      memory.words (entryAt other position) := by
  apply update_of_ne
  intro same
  rw [leaf_entry laid owned known same] at leads
  cases leads

theorem putLeaf_laid (index : Fin 512) (pte : UInt64) :
    Laid roots kind (memory.put (entryAt table index) pte) ∧
      Extends pid kind kind memory (memory.put (entryAt table index) pte) := by
  refine ⟨laid_scribble laid (fun _ member => member) laid.nodup ?_, ?_⟩
  · intro page otherPid rank position below known leads
    exact putLeaf_words laid owned index pte known leads
  refine ⟨fun _ _ known => known, fun _ _ known => .inl known, fun _ member => member, ?_⟩
  intro addr different
  by_cases same : addr = entryAt table index
  · exact .inr ⟨table, .leaf, index, owned, same, .inl rfl⟩
  · exact absurd (update_of_ne same ..) different

theorem putLeaf_confined (index : Fin 512) (pte : UInt64) :
    Confined roots pid kind memory (memory.put (entryAt table index) pte) :=
  ⟨kind, putLeaf_laid laid owned index pte⟩

end

theorem confined_refl : Confined roots pid kind memory memory :=
  ⟨kind, laid, extends_refl⟩

/-- A page that was taken from the pool and did not become a table may go back. -/
theorem putBack_confined (free : memory.free = page :: rest) (left : middle.free = rest)
    (laid' : Laid roots next after) (later : Extends pid kind next middle after)
    (whole : Extends pid kind next memory after) :
    Confined roots pid kind memory { after with free := page :: after.free } := by
  have member : page ∈ memory.free := by simp [free]
  obtain ⟨pageGood, unowned⟩ := laid.pool page member
  have unique := laid.nodup
  rw [free, ← left] at unique
  obtain ⟨absent, _⟩ := List.nodup_cons.mp unique
  have untaken : next page = none := by
    rw [Option.eq_none_iff_forall_ne_some]
    intro owner known
    rcases later.fresh page owner known with before | inRest
    · rw [unowned] at before
      cases before
    · exact absent inRest
  refine ⟨next, { laid' with pool := ?pool, nodup := ?nodup }, { whole with fewer := ?fewer }⟩
  case pool =>
    intro other inPool
    rcases List.mem_cons.mp inPool with rfl | inAfter
    · exact ⟨pageGood, untaken⟩
    · exact laid'.pool other inAfter
  case nodup =>
    exact List.nodup_cons.mpr ⟨fun inAfter => absent (later.fewer page inAfter), laid'.nodup⟩
  case fewer =>
    intro other inPool
    rcases List.mem_cons.mp inPool with rfl | inAfter
    · exact member
    · exact whole.fewer other inAfter

section

variable (owned : kind root = some (pid, .root))

include owned

theorem obtainL3_laid (high : ¬ Low spot) :
    ∃ next, Laid roots next (memory.obtainL3 root spot).2 ∧
      Extends pid kind next memory (memory.obtainL3 root spot).2 ∧
      ∀ table, (memory.obtainL3 root spot).1 = some table → next table = some (pid, .leaf) := by
  obtain ⟨rank, toSecond, toThird⟩ := rank_walk high
  obtain ⟨kind1, laid1, extends1, owned1⟩ := getOrAllocTable_laid laid owned toSecond
  unfold RawMemory.obtainL3
  rcases result1 : memory.getOrAllocTable root spot.1 with ⟨_ | l1, memory1⟩
  all_goals rw [result1] at laid1 extends1 owned1
  · exact ⟨kind1, laid1, extends1, fun table found => by cases found⟩
  obtain ⟨kind2, laid2, extends2, owned2⟩ := getOrAllocTable_laid laid1 (owned1 l1 rfl) toThird
  dsimp only at laid2 extends2 owned2 ⊢
  rcases result2 : memory1.getOrAllocTable l1 spot.2.1 with ⟨_ | l2, memory2⟩
  all_goals rw [result2] at laid2 extends2 owned2
  · exact ⟨kind2, laid2, extends_trans extends1 extends2, fun table found => by cases found⟩
  have toLeaf : Rank.middle.below spot.2.2.1 = some .leaf := rfl
  obtain ⟨kind3, laid3, extends3, owned3⟩ := getOrAllocTable_laid laid2 (owned2 l2 rfl) toLeaf
  exact ⟨kind3, laid3, extends_trans (extends_trans extends1 extends2) extends3, owned3⟩

theorem findL3_owned (high : ¬ Low spot) (found : memory.findL3 root spot = some l3) :
    kind l3 = some (pid, .leaf) := by
  obtain ⟨rank, toSecond, toThird⟩ := rank_walk high
  obtain ⟨l1, l2, first, second, last⟩ := findL3_steps found
  have owned1 := nextTable_owned laid owned toSecond first
  exact nextTable_owned laid (nextTable_owned laid owned1 toThird second) rfl last

theorem writePte_confined (high : ¬ Low (place va)) (entry : UInt64) :
    Confined roots pid kind memory (memory.writePte root va entry).2 := by
  unfold RawMemory.writePte
  split
  · exact confined_refl laid
  obtain ⟨next, laid', step, leaf⟩ := obtainL3_laid laid owned high
  split
  next after result =>
    rw [result] at laid' step
    exact ⟨next, laid', step⟩
  next l3 after result =>
    rw [result] at laid' step leaf
    exact confined_trans step (putLeaf_confined laid' (leaf l3 rfl) _ entry)

theorem mapPages_confined (pa : UInt64) (protFlags : UInt32) (high : HighPages va pages) :
    Confined roots pid kind memory (memory.mapPages root va pa protFlags pages).2 := by
  induction pages generalizing kind memory va pa with
  | zero => exact confined_refl laid
  | succ pages ih =>
    obtain ⟨here, later⟩ := highPages_succ high
    have written := writePte_confined laid owned here (makeEntry pa protFlags)
    unfold RawMemory.mapPages
    split
    next after result =>
      rw [result] at written
      exact written
    next after result =>
      rw [result] at written
      obtain ⟨next, laid', step⟩ := written
      exact confined_trans step (ih laid' (step.kept _ _ owned) (pa + 4096) later)

theorem map_confined (pa : UInt64) (protFlags : UInt32)
    (high : HighPages va ((size + 4095) / 4096).toNat) :
    Confined roots pid kind memory (memory.map root va pa size protFlags).2 := by
  unfold RawMemory.map
  split
  · exact confined_refl laid
  · exact mapPages_confined laid owned pa protFlags high

theorem unmapPage_confined (high : ¬ Low (place va)) :
    Confined roots pid kind memory (memory.unmapPage root va) := by
  unfold RawMemory.unmapPage
  split
  · exact confined_refl laid
  next l3 found => exact putLeaf_confined laid (findL3_owned laid owned high found) _ 0

theorem unmap_confined (high : HighPages va ((size + 4095) / 4096).toNat) :
    Confined roots pid kind memory (memory.unmap root va size) := by
  have loop : ∀ (pages : Nat) (kind : UInt64 → Option (Nat × Rank)) (memory : RawMemory)
      (va : UInt64), Laid roots kind memory → kind root = some (pid, .root) → HighPages va pages →
        Confined roots pid kind memory (memory.unmapPages root va pages) := by
    intro pages
    induction pages with
    | zero => exact fun kind memory va laid _ _ => confined_refl laid
    | succ pages ih =>
      intro kind memory va laid owned high
      obtain ⟨here, later⟩ := highPages_succ high
      obtain ⟨next, laid', step⟩ := unmapPage_confined laid owned here
      exact confined_trans step (ih next _ _ laid' (step.kept _ _ owned) later)
  unfold RawMemory.unmap
  split
  · exact confined_refl laid
  · exact loop _ kind memory va laid owned high

theorem placeFresh_confined (high : ¬ Low (place request.addr)) :
    Confined roots pid kind memory (memory.placeFresh root request).2 := by
  unfold RawMemory.placeFresh
  split
  · exact confined_refl laid
  next page rest free =>
  obtain ⟨filled, step⟩ := @fillWords_laid _ pid _ _ _ _ laid free (RawMemory.frameWord request.fill)
  obtain ⟨next, laid', mapped⟩ := map_confined filled owned page (asProt request.prot)
    (highPages_one high)
  dsimp only
  split
  next after result =>
    rw [result] at laid' mapped
    exact ⟨next, laid', extends_trans step mapped⟩
  next after result =>
    rw [result] at laid' mapped
    exact putBack_confined laid free rfl laid' mapped (extends_trans step mapped)

theorem placeEach_confined (high : ∀ request ∈ wanted, ¬ Low (place request.addr)) :
    Confined roots pid kind memory (memory.placeEach root wanted) := by
  induction wanted generalizing kind memory with
  | nil => exact confined_refl laid
  | cons request rest ih =>
    have placed := placeFresh_confined laid owned (high request (.head _))
    unfold RawMemory.placeEach
    split
    next after result =>
      rw [result] at placed
      obtain ⟨next, laid', step⟩ := placed
      exact confined_trans step (ih laid' (step.kept _ _ owned) fun other member =>
        high other (.tail _ member))
    next after result =>
      rw [result] at placed
      exact placed

end

end

end ViperDos.Memory
