import ViperDos.CapTable
import ViperDos.RawTables

/-!
The system calls that map memory, kernel/syscall/handlers/mmap.cpp and `sys_map_device` of
device.cpp, and the page faults, over page tables that are words of memory. `sys_mmap` and
`sys_munmap` take the lock of the areas and then call `add` and `remove_range`, which take
it again, so they never return: what they did before is done, and the lock stays taken.
-/

namespace ViperDos.Memory

open Transition Function

def mapProtRead : UInt32 := 1
def mapProtWrite : UInt32 := 2
def mapProtExec : UInt32 := 4

def mapShared : UInt32 := 0x01
def mapPrivate : UInt32 := 0x02
def mapFixed : UInt32 := 0x10
def mapAnonymous : UInt32 := 0x20

def verrNotFound : Int64 := -4
def verrPermission : Int64 := -6
def verrNotSupported : Int64 := -7

/-- `locked` says that a call holds the lock of the areas for ever. -/
structure RawViper where
  root : UInt64
  vmaList : VmaList
  mmapNext : UInt64
  capTable : Option CapTable.Table
  locked : Bool

inductive Outcome where
  | ok (value : UInt64)
  | error (code : Int64)
  | hangs
  deriving DecidableEq

def posixToVmaProt (posixProt : UInt32) : UInt32 :=
  (if posixProt &&& mapProtRead ≠ 0 then vmaRead else 0) |||
    (if posixProt &&& mapProtWrite ≠ 0 then vmaWrite else 0) |||
    (if posixProt &&& mapProtExec ≠ 0 then vmaExec else 0)

section

variable (viper : RawViper) (addr len : UInt64)

/-- Only the next address of the region for mappings is left changed. -/
def sysMmap (flags : UInt32) : Outcome × RawViper :=
  if len = 0 then (.error verrInvalidArg, viper)
  else if flags &&& mapPrivate = 0 ∧ flags &&& mapShared = 0 then (.error verrInvalidArg, viper)
  else if flags &&& mapAnonymous = 0 then (.error verrNotSupported, viper)
  else if flags &&& mapFixed ≠ 0 then
    if pageAlignDown addr = 0 then (.error verrInvalidArg, viper)
    else (.hangs, { viper with locked := true })
  else
    (.hangs,
      { viper with mmapNext := pageAlignUp viper.mmapNext + pageAlignUp len, locked := true })

/-- The pages are unmapped before the lock is taken. -/
def sysMunmap (memory : RawMemory) : Outcome × RawViper × RawMemory :=
  let addr := pageAlignDown addr
  let len := pageAlignUp len
  if len = 0 ∨ addr = 0 then (.error verrInvalidArg, viper, memory)
  else (.hangs, { viper with locked := true }, memory.unmap viper.root addr len)

def protectAreas (prot : UInt32) (addr finish : UInt64) : List Nat → VmaList → VmaList
  | [], areas => areas
  | slot :: rest, areas =>
    let area := areas.pool slot
    if finish ≤ area.start then areas
    else if area.finish ≤ addr then protectAreas prot addr finish rest areas
    else
      protectAreas prot addr finish rest
        { areas with pool := update areas.pool slot { area with prot } }

def protectedEntry (oldPte : UInt64) (prot : UInt32) : UInt64 :=
  let phys := oldPte &&& addrMask
  let entry := phys ||| pteValid ||| ptePage ||| pteAf ||| pteShInner ||| pteApEl0 ||| pteAttrNormal
  let entry := if prot &&& mapProtWrite = 0 then entry ||| pteApRo else entry
  if prot &&& mapProtExec = 0 then entry ||| (pteUxn ||| ptePxn) else entry

def protectPages (root : UInt64) (prot : UInt32) : List UInt64 → RawMemory → RawMemory
  | [], memory => memory
  | va :: rest, memory =>
    let oldPte := memory.readPte root va
    if isValid oldPte then
      protectPages root prot rest (memory.writePte root va (protectedEntry oldPte prot)).2
    else protectPages root prot rest memory

def sysMprotect (prot : UInt32) (memory : RawMemory) : Outcome × RawViper × RawMemory :=
  let addr := pageAlignDown addr
  let len := pageAlignUp len
  if len = 0 ∨ addr = 0 then (.error verrInvalidArg, viper, memory)
  else if viper.locked then (.hangs, viper, memory)
  else
    let areas := protectAreas (posixToVmaProt prot) addr (addr + len) viper.vmaList.chain
      viper.vmaList
    (.ok 0, { viper with vmaList := areas },
      protectPages viper.root prot (pageRange addr (addr + len)) memory)

end

structure DeviceRegion where
  physBase : UInt64
  size : UInt64

def knownDevices : List DeviceRegion :=
  [⟨0x09000000, 0x1000⟩, ⟨0x09010000, 0x1000⟩, ⟨0x09030000, 0x1000⟩] ++
    (List.range 32).map fun i => ⟨0x0a000000 + UInt64.ofNat (0x200 * i), 0x200⟩

def capDeviceAccess : CapTable.Rights := (1 : UInt32) <<< 10

def hasDeviceCap (table : CapTable.Table) (required : CapTable.Rights) : Bool :=
  (List.range table.capacity).any fun i =>
    (table.entries i).kind = .device && CapTable.hasRights (table.entries i).rights required

/-- Both sums of the check may wrap around. -/
def validDevice (physAddr size : UInt64) : Bool :=
  knownDevices.any fun device =>
    device.physBase ≤ physAddr && physAddr + size ≤ device.physBase + device.size

def deviceVirt (physAddr userVirt : UInt64) : UInt64 :=
  pageAlignDown (if userVirt = 0 then 0x100000000 + (physAddr &&& 0x0FFFFFFF) else userVirt)

def deviceSize (physAddr size : UInt64) : UInt64 :=
  pageAlignUp (size + (physAddr - pageAlignDown physAddr))

def sysMapDevice (viper : RawViper) (physAddr size userVirt : UInt64) (memory : RawMemory) :
    Outcome × RawMemory :=
  if size = 0 ∨ 16 * 1024 * 1024 < size then (.error verrInvalidArg, memory)
  else
    match viper.capTable with
    | none => (.error verrNotFound, memory)
    | some table =>
      if !hasDeviceCap table capDeviceAccess then (.error verrPermission, memory)
      else if !validDevice physAddr size then (.error verrPermission, memory)
      else
        match memory.map viper.root (deviceVirt physAddr userVirt) (pageAlignDown physAddr)
            (deviceSize physAddr size) protRw with
        | (false, memory) => (.error verrOutOfMemory, memory)
        | (true, memory) =>
          (.ok (deviceVirt physAddr userVirt + (physAddr - pageAlignDown physAddr)), memory)

namespace RawMemory

def translate (memory : RawMemory) (root va : UInt64) : UInt64 :=
  let pte := memory.readPte root va
  if isValid pte then pageOf pte ||| (va &&& pageMask) else 0

def takePage (memory : RawMemory) (content : UInt64 → UInt64) : Option (UInt64 × RawMemory) :=
  match memory.free with
  | [] => none
  | page :: rest => some (page, fillWords { memory with free := rest } page content)

def copyKernel (memory : RawMemory) (kernelRoot l1 : UInt64) : RawMemory :=
  let kernelL0 := memory.words (entryAt kernelRoot 0)
  if isValid kernelL0 then
    let memory := memory.put (entryAt l1 0) (memory.words (entryAt (pageOf kernelL0) 0))
    memory.put (entryAt l1 1) (memory.words (entryAt (pageOf kernelL0) 1))
  else memory

def initSpace (memory : RawMemory) (kernelRoot : UInt64) : Option UInt64 × RawMemory :=
  match memory.takePage fun _ => 0 with
  | none => (none, memory)
  | some (l0, memory) =>
    if kernelRoot = 0 then (some l0, memory)
    else
      match memory.takePage fun _ => 0 with
      | none => (none, { memory with free := l0 :: memory.free })
      | some (l1, memory) =>
        (some l0,
          (memory.copyKernel kernelRoot l1).put (entryAt l0 0) (l1 ||| pteValid ||| pteTable))

end RawMemory

section

variable (viper : RawViper) (addr : UInt64)

/-- What swap has for the page comes with the fault: nothing if the device is not there
or does not answer. The lock is taken when the page is read already. -/
def swapFault (swapped : Option Frame) (memory : RawMemory) : Bool × RawMemory :=
  let pageAddr := pageAlignDown addr
  match swapped with
  | none => (false, memory)
  | some frame =>
    if !isSwapEntry (memory.readPte viper.root pageAddr) then (false, memory)
    else if viper.locked then
      match memory.takePage (RawMemory.frameWord frame) with
      | none => (false, memory)
      | some (_, memory) => (true, memory)
    else
      let prot := match viper.vmaList.find addr with
        | none => vmaRead ||| vmaWrite
        | some slot => (viper.vmaList.pool slot).prot
      memory.placeFresh viper.root ⟨pageAddr, frame, prot⟩

def demandFault (isWrite : Bool) (env : Environment) (swapped : Option Frame) (memory : RawMemory) :
    RawViper × RawMemory :=
  match swapFault viper addr swapped memory with
  | (true, memory) => (viper, memory)
  | (false, memory) =>
    if viper.locked then (viper, memory)
    else
      ({ viper with vmaList := grown viper.vmaList addr },
        memory.placeEach viper.root (requests viper.vmaList addr isWrite env))

def cowFault (memory : RawMemory) (cow : CowManager) : RawMemory × CowManager :=
  let pageAddr := pageAlignDown addr
  if viper.locked then (memory, cow)
  else
    match viper.vmaList.find addr with
    | none => (memory, cow)
    | some slot =>
      let area := viper.vmaList.pool slot
      if area.prot &&& vmaWrite = 0 ∨ area.flags &&& vmaCow = 0 then (memory, cow)
      else
        let oldPhys := memory.translate viper.root pageAddr
        if oldPhys = 0 then (memory, cow)
        else if cow.getRef oldPhys ≤ 1 then
          match (memory.unmap viper.root pageAddr 4096).map viper.root pageAddr oldPhys 4096
              (asProt area.prot) with
          | (true, memory) => (memory, cow.clearCow oldPhys)
          | (false, memory) => (memory, cow)
        else
          match memory.takePage fun offset => memory.words (oldPhys + offset) with
          | none => (memory, cow)
          | some (newPhys, memory) =>
            match (memory.unmap viper.root pageAddr 4096).map viper.root pageAddr newPhys 4096
                (asProt area.prot) with
            | (false, memory) => ({ memory with free := newPhys :: memory.free }, cow)
            | (true, memory) =>
              let (last, cow) := cow.decRef oldPhys
              (if last then { memory with free := oldPhys :: memory.free } else memory,
                cow.incRef newPhys)

end

inductive FaultType where
  | translation | permission | other
  deriving DecidableEq

inductive MapCall where
  | create
  | mmap (addr len : UInt64) (prot flags : UInt32)
  | munmap (addr len : UInt64)
  | mprotect (addr len : UInt64) (prot : UInt32)
  | mapDevice (physAddr size userVirt : UInt64)
  | fault (addr : UInt64) (type : FaultType) (isWrite : Bool) (env : Environment)
      (swapped : Option Frame)

structure Kernel where
  vipers : Nat → Option RawViper
  memory : RawMemory
  cow : CowManager
  kernelRoot : UInt64

section

variable (kernel : Kernel) (pid : Nat)

def Kernel.setViper (viper : RawViper) (memory : RawMemory) : Kernel :=
  { kernel with vipers := update kernel.vipers pid (some viper), memory }

def Kernel.create : Kernel :=
  match kernel.memory.initSpace kernel.kernelRoot with
  | (none, memory) => { kernel with memory }
  | (some root, memory) =>
    kernel.setViper pid
      ⟨root, initMemoryRegions, userMmapBase, some (CapTable.init 256), false⟩ memory

def Kernel.fault (viper : RawViper) (addr : UInt64) (isWrite : Bool) (env : Environment)
    (swapped : Option Frame) : FaultType → Kernel
  | .translation =>
    let (viper, memory) := demandFault viper addr isWrite env swapped kernel.memory
    kernel.setViper pid viper memory
  | .permission =>
    if isWrite then
      let (memory, cow) := cowFault viper addr kernel.memory kernel.cow
      { kernel with memory, cow }
    else kernel
  | .other => kernel

def Kernel.perform (call : MapCall) : Kernel :=
  match kernel.vipers pid, call with
  | none, .create => kernel.create pid
  | some viper, .mmap addr len _ flags =>
    kernel.setViper pid (sysMmap viper addr len flags).2 kernel.memory
  | some viper, .munmap addr len =>
    let (_, viper, memory) := sysMunmap viper addr len kernel.memory
    kernel.setViper pid viper memory
  | some viper, .mprotect addr len prot =>
    let (_, viper, memory) := sysMprotect viper addr len prot kernel.memory
    kernel.setViper pid viper memory
  | some viper, .mapDevice physAddr size userVirt =>
    { kernel with memory := (sysMapDevice viper physAddr size userVirt kernel.memory).2 }
  | some viper, .fault addr type isWrite env swapped =>
    kernel.fault pid viper addr isWrite env swapped type
  | _, _ => kernel

end

variable {after : RawMemory} {l1 l0 descriptor : UInt64} {rest addrs : List UInt64}
  {pid owner : Nat} {kind : UInt64 → Option (Nat × Rank)} {rank : Rank}
  {index : Fin 512} {content : UInt64 → UInt64} {isWrite : Bool} {env : Environment}

section

variable {memory : RawMemory} {page root addr va : UInt64} {viper : RawViper}
  {roots : Nat → Option UInt64}

theorem takePage_some
    (taken : memory.takePage content = some (page, after)) :
    ∃ rest, memory.free = page :: rest ∧
      after = RawMemory.fillWords { memory with free := rest } page content := by
  unfold RawMemory.takePage at taken
  split at taken
  · cases taken
  next free =>
    cases taken
    exact ⟨_, free, rfl⟩

theorem copyKernel_free (memory : RawMemory) (kernelRoot l1 : UInt64) :
    (memory.copyKernel kernelRoot l1).free = memory.free := by
  unfold RawMemory.copyKernel
  dsimp only
  split <;> rfl

theorem copyKernel_words (memory : RawMemory) (kernelRoot l1 : UInt64)
    (first : addr ≠ entryAt l1 0) (second : addr ≠ entryAt l1 1) :
    (memory.copyKernel kernelRoot l1).words addr = memory.words addr := by
  unfold RawMemory.copyKernel
  dsimp only
  split
  · rw [put_away second, put_away first]
  · rfl

theorem copyKernel_outside (memory : RawMemory) (kernelRoot : UInt64) (outside : ¬ InPage addr l1) :
    (memory.copyKernel kernelRoot l1).words addr = memory.words addr := by
  apply copyKernel_words
  · intro same
    exact outside (same ▸ entryAt_inPage l1 0)
  · intro same
    exact outside (same ▸ entryAt_inPage l1 1)

def adopted (roots : Nat → Option UInt64) (pid : Nat) : Option UInt64 → Nat → Option UInt64
  | none => roots
  | some root => update roots pid (some root)

def twoTables (memory : RawMemory) (kernelRoot l0 l1 : UInt64) (rest : List UInt64) : RawMemory :=
  (RawMemory.fillWords (RawMemory.fillWords { memory with free := rest } l0 fun _ => 0) l1
    fun _ => 0).copyKernel kernelRoot l1

theorem twoTables_outside (kernelRoot : UInt64) (first : ¬ InPage addr l0)
    (second : ¬ InPage addr l1) :
    (twoTables memory kernelRoot l0 l1 rest).words addr = memory.words addr := by
  unfold twoTables
  rw [copyKernel_outside _ _ second]
  unfold RawMemory.fillWords
  dsimp only
  rw [if_neg second, if_neg first]

theorem twoTables_extends (free : memory.free = l0 :: l1 :: rest) (kernelRoot value : UInt64) :
    Extends pid kind kind memory
      ((twoTables memory kernelRoot l0 l1 rest).put (entryAt l0 0) value) := by
  refine ⟨fun _ _ known => known, fun _ _ known => .inl known, ?_, ?_⟩
  · intro page inRest
    have left : (twoTables memory kernelRoot l0 l1 rest).free = rest := copyKernel_free ..
    simp [free, (congrArg (page ∈ ·) left).mp inRest]
  intro addr different
  by_cases first : InPage addr l0
  · exact .inl ⟨l0, by simp [free], first⟩
  by_cases second : InPage addr l1
  · exact .inl ⟨l1, by simp [free], second⟩
  have elsewhere : addr ≠ entryAt l0 0 := fun same => first (same ▸ entryAt_inPage l0 0)
  rw [put_away elsewhere] at different
  exact absurd (twoTables_outside kernelRoot first second) different

def blockEntry (memory : RawMemory) (root va : UInt64) : Option UInt64 :=
  let l0 := memory.words (entryAt root (place va).1)
  let l1 := memory.words (entryAt (pageOf l0) (place va).2.1)
  if isTable l0 ∧ isValid l1 ∧ ¬ isTable l1 then some l1 else none

theorem blockEntry_some (found : blockEntry memory root va = some descriptor) :
    isTable (memory.words (entryAt root (place va).1)) = true ∧
      isValid (memory.words (entryAt (pageOf (memory.words (entryAt root (place va).1)))
        (place va).2.1)) = true := by
  unfold blockEntry at found
  dsimp only at found
  split at found
  next descriptors => exact ⟨descriptors.1, descriptors.2.1⟩
  · cases found

variable {next : UInt64 → Option (Nat × Rank)}

variable (laid : Laid roots kind memory)

include laid

/-- Descriptors above the last level stay when they are valid. -/
theorem valid_kept (step : Extends pid kind next memory after)
    (owned : kind page = some (owner, rank)) (above : rank ≠ .leaf)
    (valid : isValid (memory.words (entryAt page index)) = true) :
    after.words (entryAt page index) = memory.words (entryAt page index) := by
  by_contra different
  rcases step.changed _ different with ⟨other, free, inside⟩ | ⟨other, otherRank, position, known,
    same, reason⟩
  · exact entryAt_outside (laid.pool other free).1 (laid.good page _ owned)
      (laid_apart laid free owned) index inside
  obtain ⟨rfl, _⟩ := entryAt_inj (laid.good page _ owned) (laid.good other _ known) same
  rw [owned, Option.some.injEq, Prod.mk.injEq] at known
  rcases reason with leaf | invalid
  · exact above (known.2.trans leaf)
  · rw [valid] at invalid
    cases invalid

theorem blockEntry_kept (step : Extends pid kind next memory after)
    (rooted : roots owner = some root)
    (found : blockEntry memory root va = some descriptor) :
    blockEntry after root va = some descriptor := by
  obtain ⟨table, valid⟩ := blockEntry_some found
  have owned := laid.rooted owner root rooted
  have first := valid_kept laid step owned (by decide) (Bool.and_eq_true_iff.mp table).1
  have leads : Rank.root.below (place va).1 =
      some (if (place va).1 = 0 then .first else .upper) := rfl
  have lower := (laid.child _ _ _ _ _ owned leads (Bool.and_eq_true_iff.mp table).1).2
  have above : (if (place va).1 = 0 then Rank.first else Rank.upper) ≠ .leaf := by
    split <;> decide
  have second := valid_kept laid step lower above valid
  unfold blockEntry at found ⊢
  dsimp only at found ⊢
  rw [first, second]
  exact found

theorem takePage_laid (taken : memory.takePage content = some (page, after)) :
    Laid roots kind after ∧ Extends pid kind kind memory after ∧
      memory.free = page :: after.free := by
  obtain ⟨rest, free, rfl⟩ := takePage_some taken
  obtain ⟨filled, step⟩ := @fillWords_laid _ pid _ _ _ _ laid free content
  exact ⟨filled, step, free⟩

/-- A blank page may become the root of a process that has none. -/
theorem adopt_laid (vacant : roots pid = none) (blank : Blank kind memory page .root) :
    Laid (update roots pid (some page)) (update kind page (some (pid, .root))) memory := by
  have other_root : ∀ other root, roots other = some root → other ≠ pid := by
    intro other root found same
    rw [same, vacant] at found
    cases found
  constructor
  case good =>
    intro other owner known
    rcases attach_origin known with ⟨same, _⟩ | before
    · rw [same]
      exact blank.good
    · exact laid.good other owner before
  case pool =>
    intro other inPool
    have different : other ≠ page := fun same => blank.unfree (same ▸ inPool)
    rw [update_of_ne different]
    exact laid.pool other inPool
  case nodup => exact laid.nodup
  case rooted =>
    intro other root found
    by_cases same : other = pid
    · rw [same, update_self, Option.some.injEq] at found
      rw [same, ← found, update_self]
    · rw [update_of_ne same] at found
      have known := laid.rooted other root found
      rw [update_of_ne (blank_apart blank known), known]
  case child =>
    intro other otherPid rank index below known leads valid
    rcases attach_origin known with ⟨rfl, owner⟩ | before
    · cases owner
      rw [blank.entries index below leads] at valid
      cases valid
    · obtain ⟨table, lower⟩ := laid.child other otherPid rank index below before leads valid
      rw [update_of_ne (blank_apart blank lower)]
      exact ⟨table, lower⟩
  case reach =>
    intro other otherPid rank known
    rcases attach_origin known with ⟨rfl, owner⟩ | before
    · cases owner
      exact ⟨other, update_self .., .root⟩
    · obtain ⟨root, found, table⟩ := laid.reach other otherPid rank before
      exact ⟨root, by rw [update_of_ne (other_root _ _ found), found], table⟩

theorem twoTables_laid (free : memory.free = l0 :: l1 :: rest)
    (kernelRoot : UInt64) :
    Laid roots kind (twoTables memory kernelRoot l0 l1 rest) ∧
      Blank kind (twoTables memory kernelRoot l0 l1 rest) l0 .root ∧
      Blank kind (twoTables memory kernelRoot l0 l1 rest) l1 .first ∧ l1 ≠ l0 := by
  obtain ⟨good0, unowned0⟩ := laid.pool l0 (by simp [free])
  obtain ⟨good1, unowned1⟩ := laid.pool l1 (by simp [free])
  have unique := laid.nodup
  rw [free] at unique
  obtain ⟨absent0, unique1⟩ := List.nodup_cons.mp unique
  obtain ⟨absent1, unique2⟩ := List.nodup_cons.mp unique1
  have different : l1 ≠ l0 := fun same => absent0 (same ▸ (.head _))
  have left : (twoTables memory kernelRoot l0 l1 rest).free = rest := copyKernel_free ..
  refine ⟨?_, ?_, ?_, different⟩
  · apply laid_scribble laid
    · intro page inRest
      rw [left] at inRest
      simp [free, inRest]
    · rw [left]
      exact unique2
    intro page owner rank index below known _
    have good := laid.good page _ known
    exact twoTables_outside kernelRoot
      (entryAt_outside good0 good (laid_apart laid (by simp [free]) known) index)
      (entryAt_outside good1 good (laid_apart laid (by simp [free]) known) index)
  · refine ⟨good0, unowned0, by rw [left]; exact fun inRest => absent0 (.tail _ inRest), ?_⟩
    intro index _ _
    have outside := entryAt_outside good1 good0 different.symm index
    unfold twoTables
    rw [copyKernel_outside _ _ outside]
    unfold RawMemory.fillWords
    dsimp only
    rw [if_neg outside, if_pos (entryAt_inPage l0 index)]
    rfl
  · refine ⟨good1, unowned1, by rw [left]; exact absent1, ?_⟩
    intro index target leads
    -- the two entries that were copied are for blocks
    have upper : ¬ index.val < 2 := by
      intro low
      rw [Rank.below, if_pos low] at leads
      cases leads
    unfold twoTables
    rw [copyKernel_words]
    · unfold RawMemory.fillWords
      dsimp only
      rw [if_pos (entryAt_inPage l1 index)]
      rfl
    all_goals
      intro same
      rw [(entryAt_inj good1 good1 same).2] at upper
      exact upper (by decide)

theorem initSpace_laid (vacant : roots pid = none) (kernelRoot : UInt64) :
    ∃ middle next, Extends pid kind middle memory (memory.initSpace kernelRoot).2 ∧
      Laid (adopted roots pid (memory.initSpace kernelRoot).1) next
        (memory.initSpace kernelRoot).2 := by
  unfold RawMemory.initSpace
  split
  · exact ⟨kind, kind, extends_refl, laid⟩
  next l0 first taken =>
  obtain ⟨filled, step, _⟩ := @takePage_laid _ pid _ _ _ _ _ laid taken
  obtain ⟨rest, free, rfl⟩ := takePage_some taken
  split
  · exact ⟨kind, _, step, adopt_laid filled vacant (zeroed_blank laid free)⟩
  split
  · obtain ⟨next, laid', whole⟩ := putBack_confined laid free rfl filled extends_refl step
    exact ⟨next, next, whole, laid'⟩
  next l1 second taken' =>
  obtain ⟨rest', free', rfl⟩ := takePage_some taken'
  have two : memory.free = l0 :: l1 :: rest' := by
    rw [free]
    exact congrArg (l0 :: ·) free'
  obtain ⟨laid', root, table, different⟩ := twoTables_laid laid two kernelRoot
  have rooted := adopt_laid laid' vacant root
  have table' : Blank (update kind l0 (some (pid, .root)))
      (twoTables memory kernelRoot l0 l1 rest') l1 .first :=
    ⟨table.good, by rw [update_of_ne different, table.unowned], table.unfree, table.entries⟩
  have invalid := root.entries 0 .first rfl
  exact ⟨kind, _, twoTables_extends two kernelRoot _,
    attach_laid rooted table' (update_self ..) rfl invalid⟩

section

variable (owned : kind root = some (pid, .root))

include owned

theorem protectPages_confined (prot : UInt32) (high : ∀ va ∈ addrs, ¬ Low (place va)) :
    Confined roots pid kind memory (protectPages root prot addrs memory) := by
  induction addrs generalizing kind memory with
  | nil => exact confined_refl laid
  | cons va rest ih =>
    have later : ∀ va ∈ rest, ¬ Low (place va) := fun other member =>
      high other (.tail _ member)
    unfold protectPages
    dsimp only
    split
    · obtain ⟨next, laid', step⟩ := writePte_confined laid owned (high va (.head _))
        (protectedEntry (memory.readPte root va) prot)
      exact confined_trans step (ih laid' (step.kept _ _ owned) later)
    · exact ih laid owned later

theorem remap_confined (high : ¬ Low (place va)) (pa : UInt64) (protFlags : UInt32) :
    Confined roots pid kind memory ((memory.unmap root va 4096).map root va pa 4096 protFlags).2 := by
  obtain ⟨next, laid', step⟩ := unmap_confined laid owned (highPages_one high)
  exact confined_trans step (map_confined laid' (step.kept _ _ owned) pa protFlags
    (highPages_one high))

end

variable (owned : kind viper.root = some (pid, .root))

include owned

theorem swapFault_confined (high : ¬ Low (place (pageAlignDown addr))) (swapped : Option Frame) :
    Confined roots pid kind memory (swapFault viper addr swapped memory).2 := by
  unfold swapFault
  dsimp only
  split
  · exact confined_refl laid
  split
  · exact confined_refl laid
  split
  · split
    · exact confined_refl laid
    next taken =>
      obtain ⟨filled, step, _⟩ := @takePage_laid _ pid _ _ _ _ _ laid taken
      exact ⟨kind, filled, step⟩
  · exact placeFresh_confined laid owned high

theorem demandFault_confined (swapped : Option Frame) (here : ¬ Low (place (pageAlignDown addr)))
    (high : ∀ request ∈ requests viper.vmaList addr isWrite env, ¬ Low (place request.addr)) :
    Confined roots pid kind memory (demandFault viper addr isWrite env swapped memory).2 := by
  obtain ⟨next, laid', step⟩ := swapFault_confined laid owned here swapped
  unfold demandFault
  rcases tried : swapFault viper addr swapped memory with ⟨resolved, middle⟩
  rw [tried] at laid' step
  cases resolved with
  | true => exact ⟨next, laid', step⟩
  | false =>
    dsimp only
    split
    · exact ⟨next, laid', step⟩
    · exact confined_trans step (placeEach_confined laid' (step.kept _ _ owned) high)

theorem cowFault_confined (high : ¬ Low (place (pageAlignDown addr))) (cow : CowManager) :
    Confined roots pid kind memory (cowFault viper addr memory cow).1 := by
  have unchanged := @confined_refl pid kind memory roots laid
  unfold cowFault
  dsimp only
  split
  · exact unchanged
  split
  · exact unchanged
  next slot found =>
  split
  · exact unchanged
  split
  · exact unchanged
  split
  · have remapped := remap_confined laid owned high
      (memory.translate viper.root (pageAlignDown addr)) (asProt (viper.vmaList.pool slot).prot)
    split <;> next result =>
      rw [result] at remapped
      exact remapped
  next shared =>
  split
  · exact unchanged
  next newPhys middle taken =>
  obtain ⟨filled, step, free⟩ := @takePage_laid _ pid _ _ _ _ _ laid taken
  obtain ⟨next, laid', remapped⟩ := remap_confined filled owned high newPhys
    (asProt (viper.vmaList.pool slot).prot)
  split
  next after result =>
    rw [result] at laid' remapped
    exact putBack_confined laid free rfl laid' remapped (extends_trans step remapped)
  next after result =>
    rw [result] at laid' remapped
    rw [decRef_shared shared]
    exact ⟨next, laid', extends_trans step remapped⟩

end

/-- A call leaves the block descriptors of every process alone, and writes only to the page
tables of its own process and to pages that were free. -/
structure Harmless (before : Kernel) (call : Nat × MapCall) (after : Kernel) : Prop where
  blocks : ∀ pid viper va descriptor, before.vipers pid = some viper →
    blockEntry before.memory viper.root va = some descriptor →
      ∃ later, after.vipers pid = some later ∧
        blockEntry after.memory later.root va = some descriptor
  writes : ∀ addr, after.memory.words addr ≠ before.memory.words addr →
    (∃ viper rank page, before.vipers call.1 = some viper ∧
      TableOf before.memory.words viper.root rank page ∧ InPage addr page) ∨
      ∃ page ∈ before.memory.free, InPage addr page

def MapStep (kernel : Kernel) (call : Nat × MapCall) (after : Kernel) : Prop :=
  after = kernel.perform call.1 call.2

/-- No page that the call may map, unmap or protect lies in the kernel's two gigabytes. -/
def StaysHigh (kernel : Kernel) (call : Nat × MapCall) : Prop :=
  match call.2 with
  | .create => True
  | .mmap .. => True
  | .munmap addr len => HighPages (pageAlignDown addr) ((pageAlignUp len + 4095) / 4096).toNat
  | .mprotect addr len _ =>
    ∀ va ∈ pageRange (pageAlignDown addr) (pageAlignDown addr + pageAlignUp len),
      ¬ Low (place va)
  | .mapDevice physAddr size userVirt =>
    HighPages (deviceVirt physAddr userVirt) ((deviceSize physAddr size + 4095) / 4096).toNat
  | .fault addr _ isWrite env _ =>
    ¬ Low (place (pageAlignDown addr)) ∧ ∀ viper, kernel.vipers call.1 = some viper →
      ∀ request ∈ requests viper.vmaList addr isWrite env, ¬ Low (place request.addr)

def Kernel.roots (kernel : Kernel) (pid : Nat) : Option UInt64 :=
  (kernel.vipers pid).map RawViper.root

def Tidy (kernel : Kernel) : Prop := ∃ kind, Laid kernel.roots kind kernel.memory

variable {prot : UInt32} {physAddr size userVirt : UInt64} {call : Nat × MapCall}

section

variable {kernel : Kernel} {viper : RawViper}

theorem setViper_roots (found : kernel.vipers pid = some viper) {later : RawViper}
    (same : later.root = viper.root) (memory : RawMemory) :
    (kernel.setViper pid later memory).roots = kernel.roots := by
  funext other
  unfold Kernel.roots Kernel.setViper
  by_cases here : other = pid
  · simp [here, found, same]
  · simp [here]

theorem sysMmap_root (addr len : UInt64) (flags : UInt32) :
    (sysMmap viper addr len flags).2.root = viper.root := by
  unfold sysMmap
  split_ifs <;> rfl

theorem sysMunmap_root (addr len : UInt64) (memory : RawMemory) :
    (sysMunmap viper addr len memory).2.1.root = viper.root := by
  unfold sysMunmap
  dsimp only
  split <;> rfl

theorem sysMprotect_root (addr len : UInt64) (prot : UInt32) (memory : RawMemory) :
    (sysMprotect viper addr len prot memory).2.1.root = viper.root := by
  unfold sysMprotect
  dsimp only
  split_ifs <;> rfl

theorem demandFault_root (addr : UInt64) (isWrite : Bool) (env : Environment)
    (swapped : Option Frame) (memory : RawMemory) :
    (demandFault viper addr isWrite env swapped memory).1.root = viper.root := by
  unfold demandFault
  split
  · rfl
  · split <;> rfl

variable {addr len : UInt64}

section

variable (laid : Laid kernel.roots kind kernel.memory) (owned : kind viper.root = some (pid, .root))

include laid owned

theorem sysMunmap_confined (high : StaysHigh kernel (pid, .munmap addr len)) :
    Confined kernel.roots pid kind kernel.memory (sysMunmap viper addr len kernel.memory).2.2 := by
  unfold sysMunmap
  dsimp only
  split
  · exact confined_refl laid
  · exact unmap_confined laid owned high

theorem sysMprotect_confined (high : StaysHigh kernel (pid, .mprotect addr len prot)) :
    Confined kernel.roots pid kind kernel.memory
      (sysMprotect viper addr len prot kernel.memory).2.2 := by
  unfold sysMprotect
  dsimp only
  split
  · exact confined_refl laid
  split
  · exact confined_refl laid
  · exact protectPages_confined laid owned prot high

theorem sysMapDevice_confined (high : StaysHigh kernel (pid, .mapDevice physAddr size userVirt)) :
    Confined kernel.roots pid kind kernel.memory
      (sysMapDevice viper physAddr size userVirt kernel.memory).2 := by
  have mapped := map_confined laid owned (pageAlignDown physAddr) protRw high
  unfold sysMapDevice
  split
  · exact confined_refl laid
  split
  · exact confined_refl laid
  split
  · exact confined_refl laid
  split
  · exact confined_refl laid
  split
  all_goals next result =>
    rw [result] at mapped
    exact mapped

end

theorem roots_found (found : kernel.vipers pid = some viper) :
    kernel.roots pid = some viper.root := by
  unfold Kernel.roots
  rw [found, Option.map_some]

theorem roots_some {root : UInt64} (found : kernel.roots pid = some root) :
    ∃ viper, kernel.vipers pid = some viper ∧ viper.root = root :=
  Option.map_eq_some_iff.mp found

variable {after : Kernel}

theorem extends_harmless {next : UInt64 → Option (Nat × Rank)} (call : MapCall)
    (laid : Laid kernel.roots kind kernel.memory)
    (step : Extends pid kind next kernel.memory after.memory)
    (kept : ∀ other root, kernel.roots other = some root → after.roots other = some root) :
    Harmless kernel (pid, call) after := by
  constructor
  case blocks =>
    intro other viper va descriptor found block
    have rooted := roots_found found
    obtain ⟨later, present, same⟩ := roots_some (kept other _ rooted)
    exact ⟨later, present, by rw [same]; exact blockEntry_kept laid step rooted block⟩
  case writes =>
    intro addr different
    rcases step.changed addr different with free | ⟨page, rank, index, owned, same, _⟩
    · exact .inr free
    · obtain ⟨root, rooted, table⟩ := laid.reach page pid rank owned
      obtain ⟨viper, present, rfl⟩ := roots_some rooted
      exact .inl ⟨viper, rank, page, present, table, same ▸ entryAt_inPage page index⟩

theorem create_step (laid : Laid kernel.roots kind kernel.memory)
    (vacant : kernel.vipers pid = none) :
    Tidy (kernel.create pid) ∧ Harmless kernel (pid, .create) (kernel.create pid) := by
  have rootless : kernel.roots pid = none := by
    unfold Kernel.roots
    rw [vacant, Option.map_none]
  obtain ⟨middle, next, step, laid'⟩ := initSpace_laid laid rootless kernel.kernelRoot
  have others : ∀ other root, kernel.roots other = some root → other ≠ pid := by
    intro other root found same
    rw [same, rootless] at found
    cases found
  unfold Kernel.create
  rcases made : kernel.memory.initSpace kernel.kernelRoot with ⟨_ | root, memory⟩
  all_goals rw [made] at step laid'
  · exact ⟨⟨next, laid'⟩, extends_harmless .create laid step fun _ _ found => found⟩
  have renewed : (kernel.setViper pid
      ⟨root, initMemoryRegions, userMmapBase, some (CapTable.init 256), false⟩ memory).roots =
        adopted kernel.roots pid (some root) := by
    funext other
    unfold Kernel.roots Kernel.setViper adopted
    by_cases here : other = pid <;> simp [here]
  refine ⟨⟨next, renewed ▸ laid'⟩, extends_harmless .create laid step ?_⟩
  intro other found present
  rw [renewed]
  exact (update_of_ne (others other found present) ..).trans present

theorem perform_confined (found : kernel.vipers pid = some viper)
    (laid : Laid kernel.roots kind kernel.memory) (call : MapCall)
    (high : StaysHigh kernel (pid, call)) :
    (kernel.perform pid call).roots = kernel.roots ∧
      Confined kernel.roots pid kind kernel.memory (kernel.perform pid call).memory := by
  have owned := laid.rooted pid viper.root (roots_found found)
  unfold Kernel.perform
  rw [found]
  cases call with
  | create => exact ⟨rfl, confined_refl laid⟩
  | mmap addr len prot flags =>
    exact ⟨setViper_roots found (sysMmap_root ..) _, confined_refl laid⟩
  | munmap addr len =>
    exact ⟨setViper_roots found (sysMunmap_root ..) _, sysMunmap_confined laid owned high⟩
  | mprotect addr len prot =>
    exact ⟨setViper_roots found (sysMprotect_root ..) _, sysMprotect_confined laid owned high⟩
  | mapDevice physAddr size userVirt =>
    exact ⟨rfl, sysMapDevice_confined laid owned high⟩
  | fault addr type isWrite env swapped =>
    obtain ⟨here, wanted⟩ := high
    cases type with
    | translation =>
      exact ⟨setViper_roots found (demandFault_root ..) _,
        demandFault_confined laid owned swapped here (wanted viper found)⟩
    | permission =>
      cases isWrite with
      | true => exact ⟨rfl, cowFault_confined laid owned here kernel.cow⟩
      | false => exact ⟨rfl, confined_refl laid⟩
    | other => exact ⟨rfl, confined_refl laid⟩

theorem mapStep_harmless (tidy : Tidy kernel) (high : StaysHigh kernel call)
    (step : MapStep kernel call after) : Tidy after ∧ Harmless kernel call after := by
  obtain ⟨pid, call⟩ := call
  obtain ⟨kind, laid⟩ := tidy
  cases step
  cases found : kernel.vipers pid with
  | none =>
    have idle : Tidy kernel ∧ Harmless kernel (pid, call) kernel :=
      ⟨⟨kind, laid⟩, extends_harmless call laid extends_refl fun _ _ present => present⟩
    unfold Kernel.perform
    rw [found]
    cases call with
    | create => exact create_step laid found
    | _ => exact idle
  | some viper =>
    obtain ⟨same, next, laid', extension⟩ := perform_confined found laid call high
    refine ⟨⟨next, same ▸ laid'⟩, extends_harmless call laid extension ?_⟩
    intro other root present
    rw [same]
    exact present

/-- In every history of calls and faults that stay out of the kernel's two gigabytes, each
one leaves the block descriptors alone and writes only where it may. -/
theorem high_calls_harmless {start : Kernel} {history : List ((Nat × MapCall) × Kernel)}
    (tidy : Tidy start) (trace : Trace (Guarded StaysHigh MapStep) start history) :
    Trace Harmless start history := by
  induction history generalizing start with
  | nil => trivial
  | cons visited rest ih =>
    obtain ⟨⟨high, step⟩, tail⟩ := trace
    obtain ⟨tidy', harmless⟩ := mapStep_harmless tidy high step
    exact ⟨harmless, ih tidy' tail⟩

/-- Before the first process the pages of the pool are all there is to know. -/
theorem booted_tidy (vacant : ∀ pid, kernel.vipers pid = none)
    (pool : ∀ page ∈ kernel.memory.free, Good page) (nodup : kernel.memory.free.Nodup) :
    Tidy kernel := by
  have rootless : ∀ pid root, kernel.roots pid ≠ some root := by
    intro pid root found
    obtain ⟨viper, present, _⟩ := roots_some found
    rw [vacant pid] at present
    cases present
  refine ⟨fun _ => none, ?_⟩
  constructor
  case good => exact fun _ _ owned => by cases owned
  case pool => exact fun page member => ⟨pool page member, rfl⟩
  case nodup => exact nodup
  case rooted => exact fun pid root found => absurd found (rootless pid root)
  case child => exact fun _ _ _ _ _ owned => by cases owned
  case reach => exact fun _ _ _ owned => by cases owned

end

/-- The kernel's tables, and the first word of memory, which is odd. -/
def bootWords (addr : UInt64) : UInt64 :=
  if addr = 0x40100000 then 0x40101003
  else if addr = 0x40101000 then 0x401
  else if addr = 0x40101008 then 0x40000401
  else if addr = 0x40000000 then 0x40201003
  else 0

def bootKernel : Kernel where
  vipers := fun _ => none
  memory := ⟨bootWords, [0x40200000, 0x40201000, 0x40202000, 0x40203000, 0x40204000, 0x40205000,
    0x40206000, 0x40207000]⟩
  cow := ⟨true, 0x40000000, 0x80000000, fun _ => ⟨0, false⟩⟩
  kernelRoot := 0x40100000

theorem bootKernel_tidy : Tidy bootKernel := by
  apply booted_tidy
  · intro _
    rfl
  · have aligned : (bootKernel.memory.free.all fun page => page &&& addrMask = page) = true := by
      decide
    intro page member
    unfold Good
    simpa using List.all_eq_true.mp aligned page member
  · decide

def createdKernel : Kernel := bootKernel.perform 0 .create

def heapFault : MapCall := .fault userHeapBase .translation true noFiles none

def faultedKernel : Kernel := createdKernel.perform 0 heapFault

def protectedKernel : Kernel := faultedKernel.perform 0 (.mprotect userHeapBase 0x1000 mapProtRead)

def heapHistory : List ((Nat × MapCall) × Kernel) :=
  [((0, .create), createdKernel), ((0, heapFault), faultedKernel),
    ((0, .mprotect userHeapBase 0x1000 mapProtRead), protectedKernel),
    ((0, .munmap userHeapBase 0x1000),
      protectedKernel.perform 0 (.munmap userHeapBase 0x1000))]

/-- A process touches its heap, makes the page read-only and unmaps it. -/
theorem heap_calls_harmless : Trace (Guarded StaysHigh MapStep) bootKernel heapHistory ∧
    Trace Harmless bootKernel heapHistory := by
  have faultHigh : StaysHigh createdKernel (0, heapFault) := by
    have wanted : ((createdKernel.vipers 0).all fun viper =>
        (requests viper.vmaList userHeapBase true noFiles).all fun request =>
          !decide (Low (place request.addr))) = true := by
      decide
    refine ⟨by decide, ?_⟩
    intro viper found request member
    rw [found] at wanted
    simpa using List.all_eq_true.mp wanted request member
  have protectHigh : StaysHigh faultedKernel (0, .mprotect userHeapBase 0x1000 mapProtRead) := by
    have wanted : ((pageRange (pageAlignDown userHeapBase)
        (pageAlignDown userHeapBase + pageAlignUp 0x1000)).all fun va =>
          !decide (Low (place va))) = true := by
      decide
    intro va member
    simpa using List.all_eq_true.mp wanted va member
  have unmapHigh : StaysHigh protectedKernel (0, .munmap userHeapBase 0x1000) := by
    unfold StaysHigh HighPages
    decide
  refine ⟨?guarded, high_calls_harmless bootKernel_tidy ?guarded⟩
  exact ⟨⟨trivial, rfl⟩, ⟨faultHigh, rfl⟩, ⟨protectHigh, rfl⟩, ⟨unmapHigh, rfl⟩, trivial⟩

def unmappedKernel : Kernel := createdKernel.perform 0 (.munmap 0x40001000 0x1000)

def lowHistory : List ((Nat × MapCall) × Kernel) :=
  [((0, .create), createdKernel), ((0, .munmap 0x40001000 0x1000), unmappedKernel)]

/-- Where the kernel's memory starts with a word that looks like a table descriptor, a
process can unmap the memory of the kernel. -/
theorem munmap_takes_kernel_memory : Tidy bootKernel ∧ Trace MapStep bootKernel lowHistory ∧
    ¬ Trace Harmless bootKernel lowHistory := by
  have mapped : ((createdKernel.vipers 0).map fun viper =>
      blockEntry createdKernel.memory viper.root 0x40000000) = some (some 0x40000401) := by
    decide
  have gone : ((unmappedKernel.vipers 0).map fun viper =>
      blockEntry unmappedKernel.memory viper.root 0x40000000) = some none := by
    decide
  refine ⟨bootKernel_tidy, ⟨rfl, rfl, trivial⟩, ?_⟩
  intro trace
  obtain ⟨_, harmless, _⟩ := trace
  obtain ⟨viper, found, block⟩ := Option.map_eq_some_iff.mp mapped
  obtain ⟨later, present, kept⟩ := harmless.blocks 0 viper _ _ found block
  rw [present, Option.map_some, kept] at gone
  cases gone

end ViperDos.Memory
