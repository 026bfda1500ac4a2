import ViperDos.Buddy
import ViperDos.PageTables
import ViperDos.Transition

/-!
Processes and their memory: creation, fork and sbrk of kernel/viper/viper.cpp, the
page fault handlers of kernel/mm/fault.cpp and kernel/mm/vma.cpp, and the events that
change memory. A process is a slot of the table of 64; names, identifiers, process
groups, limits, file descriptors and capabilities play no part here, except that
creation can fail on the capability table. What a file or the swap device answers
comes with the event.
-/

namespace ViperDos.Memory

def userCodeBase : UInt64 := 0x80000000
def userHeapBase : UInt64 := 0x100000000
def userMmapBase : UInt64 := 0x200000000
def userStackTop : UInt64 := 0x7FFFFFFF0000
def userStackSize : UInt64 := 0x100000
def initialHeapMax : UInt64 := userHeapBase + 0x4000000

def maxVipers : Nat := 64

structure Viper where
  heapStart : UInt64
  heapBreak : UInt64
  heapMax : UInt64
  mmapNext : UInt64
  memoryUsed : UInt64
  vmaList : VmaList
  space : L0

structure Machine where
  vipers : Nat → Option Viper
  phys : Physical

def setViper (m : Machine) (pid : Nat) (viper : Viper) : Machine :=
  { m with vipers := Function.update m.vipers pid (some viper) }

def initMemoryRegions : VmaList :=
  let stackBottom := userStackTop - userStackSize
  let areas := (VmaList.init.add userHeapBase initialHeapMax (vmaRead ||| vmaWrite) .anonymous).2
  let areas := (areas.add stackBottom userStackTop (vmaRead ||| vmaWrite) .stack).2
  (areas.add (stackBottom - 4096) stackBottom 0 .guard).2

def newViper (space : L0) : Viper where
  heapStart := userHeapBase
  heapBreak := userHeapBase
  heapMax := initialHeapMax
  mmapNext := userMmapBase
  memoryUsed := 0
  vmaList := initMemoryRegions
  space := space

def allocViper (m : Machine) : Option Nat :=
  (List.range maxVipers).find? fun pid => (m.vipers pid).isNone

def create (m : Machine) (capsOk : Bool) : Option Nat × Machine :=
  match allocViper m with
  | none => (none, m)
  | some pid =>
    match initSpace m.phys with
    | (none, phys) => (none, { m with phys })
    | (some space, phys) =>
      if capsOk then (some pid, setViper { m with phys } pid (newViper space))
      else (none, { m with phys := destroySpace space phys })

def destroy (m : Machine) (pid : Nat) : Machine :=
  match m.vipers pid with
  | none => m
  | some viper =>
    { vipers := Function.update m.vipers pid none
      phys := destroySpace viper.space m.phys }

/-- The loop of `fork` over the parent's areas. What it has marked copy-on-write in the
parent stays marked when a later area cannot be added. -/
def copyVmas : List Nat → VmaList → VmaList → Bool × VmaList × VmaList
  | [], parent, child => (true, parent, child)
  | slot :: rest, parent, child =>
    let area := parent.pool slot
    match child.add area.start area.finish area.prot area.type with
    | (none, child) => (false, parent, child)
    | (some copy, child) =>
      if area.type = .anonymous ∨ area.type = .stack then
        copyVmas rest (parent.setFlags slot (area.flags ||| vmaCow))
          (child.setFlags copy ((child.pool copy).flags ||| vmaCow))
      else copyVmas rest parent child

def inherit (parent child : Viper) : Viper :=
  { child with
    heapStart := parent.heapStart
    heapBreak := parent.heapBreak
    heapMax := parent.heapMax
    mmapNext := parent.mmapNext }

def forkInto (m : Machine) (pid childPid : Nat) (parent child : Viper) : Option Nat × Machine :=
  match copyVmas parent.vmaList.chain parent.vmaList child.vmaList with
  | (false, parentAreas, childAreas) =>
    (none, destroy (setViper (setViper m pid { parent with vmaList := parentAreas })
      childPid { child with vmaList := childAreas }) childPid)
  | (true, parentAreas, childAreas) =>
    let (cloned, parentSpace, childSpace, phys) := cloneCowFrom parent.space child.space m.phys
    let parent := { parent with vmaList := parentAreas, space := parentSpace }
    let child := { child with vmaList := childAreas, space := childSpace }
    if cloned then
      (some childPid, setViper (setViper { m with phys } pid parent) childPid
        (inherit parent child))
    else (none, destroy (setViper (setViper { m with phys } pid parent) childPid child) childPid)

def fork (m : Machine) (pid : Nat) (capsOk : Bool) : Option Nat × Machine :=
  match m.vipers pid with
  | none => (none, m)
  | some parent =>
    match create m capsOk with
    | (none, m) => (none, m)
    | (some childPid, m) =>
      match m.vipers childPid with
      | none => (none, m)
      | some child => forkInto m pid childPid parent child

inductive Placed where
  | noMemory | notMapped | mapped

def fillPage (phys : Physical) (page : UInt64) : Option Frame → Physical
  | none => phys
  | some frame => setFrame phys page frame

def placeFresh (space : L0) (va : UInt64) (fill : Option Frame) (protFlags : UInt32)
    (phys : Physical) : Placed × L0 × Physical :=
  match allocPage phys with
  | (none, phys) => (.noMemory, space, phys)
  | (some page, phys) =>
    match map space va page 4096 protFlags (fillPage phys page fill) with
    | (true, space, phys) => (.mapped, space, phys)
    | (false, space, phys) => (.notMapped, space, freePage phys page)

/-- The addresses of `for (addr = start; addr < finish; addr += PAGE_SIZE)`. -/
def pageRange (start finish : UInt64) : List UInt64 :=
  if start < finish then
    (List.range ((finish - start + 4095) / 4096).toNat).map fun i => start + UInt64.ofNat (4096 * i)
  else []

def asProt (prot : UInt32) : UInt32 :=
  (if prot &&& vmaRead ≠ 0 then protRead else 0) |||
    (if prot &&& vmaWrite ≠ 0 then protWrite else 0) |||
    (if prot &&& vmaExec ≠ 0 then protExec else 0)

inductive FaultResult where
  | handled | unhandled | stackGrow | error
  deriving DecidableEq

structure Environment where
  file : UInt64 → UInt64 → Option Frame
  deviceOk : Bool

def growStack (viper : Viper) (prot : UInt32) :
    List UInt64 → Physical → FaultResult × Viper × Physical
  | [], phys => (.stackGrow, viper, phys)
  | addr :: rest, phys =>
    match placeFresh viper.space addr (some zeroFrame) (asProt prot) phys with
    | (.mapped, space, phys) => growStack { viper with space } prot rest phys
    | (_, space, phys) => (.error, { viper with space }, phys)

def prefault (viper : Viper) (finish : UInt64) (prot : UInt32) :
    List UInt64 → Physical → Viper × Physical
  | [], phys => (viper, phys)
  | addr :: rest, phys =>
    if finish ≤ addr then (viper, phys)
    else
      match placeFresh viper.space addr (some zeroFrame) (asProt prot) phys with
      | (.mapped, space, phys) => prefault { viper with space } finish prot rest phys
      | (_, space, phys) => ({ viper with space }, phys)

def growable (areas : VmaList) (addr : UInt64) : Option Nat :=
  areas.chain.find? fun slot =>
    (areas.pool slot).type = .stack && (areas.pool slot).start - 0x10000 ≤ addr &&
      addr < (areas.pool slot).start

def maxStackSize : UInt64 := 0x800000

def demandFill (area : Vma) (pageAddr : UInt64) (env : Environment) : Frame :=
  if area.type = .file ∧ area.fileInode ≠ 0 then
    (env.file area.fileInode (area.fileOffset + (pageAddr - area.start))).getD zeroFrame
  else zeroFrame

def prefaultAddrs (pageAddr : UInt64) : List UInt64 :=
  [pageAddr + 0x1000, pageAddr + 0x2000, pageAddr + 0x3000, pageAddr + 0x4000]

section

variable (viper : Viper) (faultAddr : UInt64)

def handleDemandFault (isWrite : Bool) (env : Environment) (phys : Physical) : FaultResult × Viper ×
    Physical :=
  let pageAddr := pageAlignDown faultAddr
  match viper.vmaList.find faultAddr with
  | none =>
    match growable viper.vmaList faultAddr with
    | none => (.unhandled, viper, phys)
    | some slot =>
      let area := viper.vmaList.pool slot
      if pageAddr < 0x1000 then (.unhandled, viper, phys)
      else if maxStackSize < area.finish - pageAddr then (.unhandled, viper, phys)
      else growStack { viper with vmaList := viper.vmaList.setStart slot pageAddr } area.prot
        (pageRange pageAddr area.start) phys
  | some slot =>
    let area := viper.vmaList.pool slot
    if area.type = .guard then (.unhandled, viper, phys)
    else if isWrite ∧ area.prot &&& vmaWrite = 0 then (.unhandled, viper, phys)
    else
      match placeFresh viper.space pageAddr (some (demandFill area pageAddr env))
          (asProt area.prot) phys with
      | (.mapped, space, phys) =>
        let viper := { viper with space }
        match viper.vmaList.find pageAddr with
        | none => (.handled, viper, phys)
        | some next =>
          let ahead := viper.vmaList.pool next
          if area.type = .anonymous ∧ ahead.type = .anonymous then
            (.handled, prefault viper ahead.finish ahead.prot (prefaultAddrs pageAddr) phys)
          else (.handled, viper, phys)
      | (_, space, phys) => (.error, { viper with space }, phys)

def handleCowFault (phys : Physical) : FaultResult × Viper × Physical :=
  let pageAddr := pageAlignDown faultAddr
  match viper.vmaList.find faultAddr with
  | none => (.unhandled, viper, phys)
  | some slot =>
    let area := viper.vmaList.pool slot
    if area.prot &&& vmaWrite = 0 then (.unhandled, viper, phys)
    else if area.flags &&& vmaCow = 0 then (.unhandled, viper, phys)
    else
      let oldPhys := translate viper.space pageAddr
      if oldPhys = 0 then (.unhandled, viper, phys)
      else if phys.cow.getRef oldPhys ≤ 1 then
        -- taken for the only owner
        match map (unmap viper.space pageAddr 4096) pageAddr oldPhys 4096 (asProt area.prot)
            phys with
        | (true, space, phys) =>
          (.handled, { viper with space }, { phys with cow := phys.cow.clearCow oldPhys })
        | (false, space, phys) => (.error, { viper with space }, phys)
      else
        match allocPage phys with
        | (none, phys) => (.error, viper, phys)
        | (some newPhys, phys) =>
          let phys := setFrame phys newPhys (phys.frames oldPhys)
          match map (unmap viper.space pageAddr 4096) pageAddr newPhys 4096 (asProt area.prot)
              phys with
          | (true, space, phys) =>
            let (last, cow) := phys.cow.decRef oldPhys
            let phys := { phys with cow }
            let phys := if last then freePage phys oldPhys else phys
            (.handled, { viper with space }, { phys with cow := phys.cow.incRef newPhys })
          | (false, space, phys) => (.error, { viper with space }, freePage phys newPhys)

def trySwapIn (env : Environment) (phys : Physical) : Bool × Viper × Physical :=
  let pageAddr := pageAlignDown faultAddr
  let pte := readPte viper.space pageAddr
  if !phys.swap.available then (false, viper, phys)
  else if !isSwapEntry pte then (false, viper, phys)
  else
    match allocPage phys with
    | (none, phys) => (false, viper, phys)
    | (some page, phys) =>
      match swapIn phys pte page env.deviceOk with
      | (false, phys) => (false, viper, freePage phys page)
      | (true, phys) =>
        let prot := match viper.vmaList.find faultAddr with
          | none => vmaRead ||| vmaWrite
          | some slot => (viper.vmaList.pool slot).prot
        match map viper.space pageAddr page 4096 (asProt prot) phys with
        | (true, space, phys) => (true, { viper with space }, phys)
        | (false, space, phys) => (false, { viper with space }, freePage phys page)

def FaultResult.resumes (result : FaultResult) : Bool :=
  result = .handled || result = .stackGrow

def tryDemandPaging (isWrite : Bool) (env : Environment) (phys : Physical) : Bool × Viper × Physical
    :=
  match trySwapIn viper faultAddr env phys with
  | (true, viper, phys) => (true, viper, phys)
  | (false, viper, phys) =>
    let (result, viper, phys) := handleDemandFault viper faultAddr isWrite env phys
    (result.resumes, viper, phys)

def tryCowHandling (phys : Physical) : Bool × Viper × Physical :=
  let (result, viper, phys) := handleCowFault viper faultAddr phys
  (result.resumes, viper, phys)

/-- Whether the process resumes; otherwise it gets SIGSEGV. An entry that is not valid
gives a translation fault and any other a permission fault. -/
def handlePageFault (isWrite : Bool) (env : Environment) (phys : Physical) : Bool × Viper × Physical
    :=
  if !isValid (readPte viper.space faultAddr) then
    tryDemandPaging viper faultAddr isWrite env phys
  else if isWrite then tryCowHandling viper faultAddr phys
  else (false, viper, phys)

end

def verrInvalidArg : Int64 := -2
def verrOutOfMemory : Int64 := -3

def growHeap (fill : Option Frame) : List UInt64 → L0 → Physical → Bool × L0 × Physical
  | [], space, phys => (true, space, phys)
  | addr :: rest, space, phys =>
    match placeFresh space addr fill protRw phys with
    | (.mapped, space, phys) => growHeap fill rest space phys
    | (_, space, phys) => (false, space, phys)

/-- The shrinking loop of `do_sbrk`, which asks no reference count. -/
def shrinkHeap : List UInt64 → L0 → Physical → L0 × Physical
  | [], space, phys => (space, phys)
  | addr :: rest, space, phys =>
    let page := translate space addr
    if page = 0 then shrinkHeap rest space phys
    else shrinkHeap rest (unmap space addr 4096) (freePage phys page)

def doSbrk (viper : Viper) (increment : Int64) (phys : Physical) : Int64 × Viper × Physical :=
  let oldBreak := viper.heapBreak
  let decrement := (-increment).toUInt64
  let newBreak := if 0 < increment then oldBreak + increment.toUInt64 else oldBreak - decrement
  if increment = 0 then (oldBreak.toInt64, viper, phys)
  else if increment < 0 ∧ oldBreak - viper.heapStart < decrement then
    (verrInvalidArg, viper, phys)
  else if viper.heapMax < newBreak then (verrOutOfMemory, viper, phys)
  else if 0 < increment then
    match growHeap (some zeroFrame) (pageRange (pageAlignUp oldBreak) (pageAlignUp newBreak))
        viper.space phys with
    | (false, space, phys) => (verrOutOfMemory, { viper with space }, phys)
    | (true, space, phys) =>
      (oldBreak.toInt64,
        { viper with
          space
          heapBreak := newBreak
          memoryUsed := viper.memoryUsed + increment.toUInt64 }, phys)
  else
    let (space, phys) := shrinkHeap (pageRange (pageAlignUp newBreak) (pageAlignUp oldBreak))
      viper.space phys
    (oldBreak.toInt64,
      { viper with
        space
        heapBreak := newBreak
        memoryUsed := viper.memoryUsed - decrement }, phys)

/-- The system call, which is not `do_sbrk`: its pages are not cleared, and shrinking
keeps them mapped. -/
def sysSbrk (viper : Viper) (increment : Int64) (phys : Physical) :
    Except Int64 UInt64 × Viper × Physical :=
  let oldBreak := viper.heapBreak
  let newBreak := oldBreak + increment.toUInt64
  if increment = 0 then (.ok oldBreak, viper, phys)
  else if 0 < increment ∧ newBreak < oldBreak then (.error verrOutOfMemory, viper, phys)
  else if increment < 0 ∧ oldBreak < newBreak then (.error verrInvalidArg, viper, phys)
  else if newBreak < viper.heapStart then (.error verrInvalidArg, viper, phys)
  else if viper.heapMax < newBreak then (.error verrOutOfMemory, viper, phys)
  else if 0 < increment then
    match growHeap none (pageRange (pageAlignUp oldBreak) (pageAlignUp newBreak)) viper.space
        phys with
    | (false, space, phys) => (.error verrOutOfMemory, { viper with space }, phys)
    | (true, space, phys) => (.ok oldBreak, { viper with space, heapBreak := newBreak }, phys)
  else (.ok oldBreak, { viper with heapBreak := newBreak }, phys)

def runOf (page : UInt64) (count : Nat) : List UInt64 :=
  (List.range count).map fun i => page + UInt64.ofNat (4096 * i)

def pageCount (size : UInt64) : Nat := ((size + 4095) / 4096).toNat

def takeRun (phys : Physical) (run : List UInt64) : Physical :=
  { phys with free := phys.free.filter (· ∉ run) }

def zeroRun (phys : Physical) (run : List UInt64) : Physical :=
  { phys with frames := fun page => if page ∈ run then zeroFrame else phys.frames page }

/-- `alloc_map` when `pmm::alloc_pages` takes so many pages from `page` on. It zeroes and maps
as many as it asked for. If the tables run out it gives as many back, and the entries that it
has made stay. -/
def allocMap (space : L0) (virt size : UInt64) (protFlags : UInt32) (page : UInt64) (taken : Nat)
    (phys : Physical) : Bool × L0 × Physical :=
  let asked := runOf page (pageCount size)
  match map space virt page size protFlags
      (zeroRun (takeRun phys (runOf page taken)) asked) with
  | (true, space, phys) => (true, space, phys)
  | (false, space, phys) => (false, space, { phys with free := asked ++ phys.free })

def permits (pte : UInt64) (isWrite : Bool) : Bool :=
  isValid pte && pte &&& pteApEl0 ≠ 0 && !(isWrite && isReadOnly pte)

def storeByte (phys : Physical) (pte addr : UInt64) (value : UInt8) : Physical :=
  setFrame phys (pageOf pte)
    (Function.update (phys.frames (pageOf pte)) (addr &&& pageMask) value)

/-- The byte a process sees at an address: in the page mapped there, or on the swap
device if the page was moved out. -/
def readByte (phys : Physical) (space : L0) (va : UInt64) : Option UInt8 :=
  let pte := readPte space va
  if isValid pte then some (phys.frames (pageOf pte) (va &&& pageMask))
  else if isSwapEntry pte ∧ phys.swap.used (getSwapSlot pte) then
    some (phys.swap.disk (getSwapSlot pte) (va &&& pageMask))
  else none

/-- Accesses to memory, and the forks that share it. The allocator may come to hand its
free pages out in another order at any time. -/
inductive Access where
  | store (pid : Nat) (addr : UInt64) (value : UInt8)
  | fault (pid : Nat) (addr : UInt64) (isWrite : Bool) (env : Environment)
  | fork (pid : Nat) (capsOk : Bool)
  | reorder (free : List UInt64)

def setMemory (m : Machine) (pid : Nat) (viper : Viper) (phys : Physical) : Machine :=
  setViper { m with phys } pid viper

def AccessStep (m : Machine) : Access → Machine → Prop
  | .store pid addr value, after => ∃ viper, m.vipers pid = some viper ∧
      permits (readPte viper.space addr) true = true ∧
      after = { m with phys := storeByte m.phys (readPte viper.space addr) addr value }
  | .fault pid addr isWrite env, after => ∃ viper, m.vipers pid = some viper ∧
      userCodeBase ≤ addr ∧ permits (readPte viper.space addr) isWrite = false ∧
      after = setMemory m pid (handlePageFault viper addr isWrite env m.phys).2.1
        (handlePageFault viper addr isWrite env m.phys).2.2
  | .fork pid capsOk, after => after = (fork m pid capsOk).2
  | .reorder free, after => free.Perm m.phys.free ∧
      after = { m with phys := { m.phys with free } }

/-- The loader has each segment of a program mapped by `alloc_map` and then puts the break
after them. -/
inductive Event where
  | access (access : Access)
  | create (capsOk : Bool)
  | load (pid : Nat) (virt size : UInt64) (protFlags : UInt32) (page : UInt64) (taken : Nat)
  | setBreak (pid : Nat) (brk : UInt64)
  | doSbrk (pid : Nat) (increment : Int64)
  | sysSbrk (pid : Nat) (increment : Int64)
  | destroy (pid : Nat)

def Step (m : Machine) : Event → Machine → Prop
  | .access access, after => AccessStep m access after
  | .create capsOk, after => after = (create m capsOk).2
  | .load pid virt size protFlags page taken, after => ∃ viper, m.vipers pid = some viper ∧
      userCodeBase ≤ virt ∧ 0 < pageCount size ∧ Buddy.Grants (pageCount size) taken ∧
      (∀ member ∈ runOf page taken, member ∈ m.phys.free) ∧
      after = setMemory m pid
        { viper with space := (allocMap viper.space virt size protFlags page taken m.phys).2.1 }
        (allocMap viper.space virt size protFlags page taken m.phys).2.2
  | .setBreak pid brk, after => ∃ viper, m.vipers pid = some viper ∧
      after = setMemory m pid { viper with heapStart := brk, heapBreak := brk } m.phys
  | .doSbrk pid increment, after => ∃ viper, m.vipers pid = some viper ∧
      after = setMemory m pid (doSbrk viper increment m.phys).2.1
        (doSbrk viper increment m.phys).2.2
  | .sysSbrk pid increment, after => ∃ viper, m.vipers pid = some viper ∧
      after = setMemory m pid (sysSbrk viper increment m.phys).2.1
        (sysSbrk viper increment m.phys).2.2
  | .destroy pid, after => after = destroy m pid

variable {page other : UInt64} {count : Nat}

theorem mem_runOf :
    other ∈ runOf page count ↔ ∃ i < count, page + UInt64.ofNat (4096 * i) = other := by
  simp [runOf]

theorem placeFresh_cases (space : L0) (va : UInt64) (fill : Option Frame) (protFlags : UInt32)
    (phys : Physical) :
    (phys.free = [] ∧ placeFresh space va fill protFlags phys = (.noMemory, space, phys)) ∨
    ∃ page rest, phys.free = page :: rest ∧ ∃ next after,
      (mapPage space va page protFlags (fillPage { phys with free := rest } page fill) =
          (true, next, after) ∧
        placeFresh space va fill protFlags phys = (.mapped, next, after)) ∨
      (mapPage space va page protFlags (fillPage { phys with free := rest } page fill) =
          (false, next, after) ∧
        placeFresh space va fill protFlags phys = (.notMapped, next, freePage after page)) := by
  unfold placeFresh allocPage
  cases free : phys.free with
  | nil => exact .inl ⟨rfl, rfl⟩
  | cons page rest =>
    right
    rcases mapped : mapPage space va page protFlags
      (fillPage { phys with free := rest } page fill) with ⟨_ | _, next, after⟩
    · exact ⟨page, rest, rfl, next, after, .inr ⟨mapped, by simp [map_page, mapped]⟩⟩
    · exact ⟨page, rest, rfl, next, after, .inl ⟨mapped, by simp [map_page, mapped]⟩⟩

end ViperDos.Memory
