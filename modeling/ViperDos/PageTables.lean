import ViperDos.Bits
import ViperDos.Vma
import Mathlib.Data.List.FinRange

/-!
Physical pages, copy-on-write reference counts, swap slots and the four-level
page tables of kernel/viper/address_space.cpp. Tables are reached through their
parents only, so an address space is a tree whose nodes carry the address of the
page they occupy. An entry that is valid without being a table, as the kernel's two
low gigabytes are, is a `block`; no user mapping goes through one. TLB maintenance
and address space identifiers are left out.
-/

namespace ViperDos.Memory

open Function

abbrev Frame := UInt64 → UInt8

structure PageInfo where
  refcount : UInt16
  cow : Bool

structure CowManager where
  initialized : Bool
  memStart : UInt64
  memEnd : UInt64
  pageInfo : UInt64 → PageInfo

def CowManager.tracks (manager : CowManager) (page : UInt64) : Bool :=
  manager.initialized && manager.memStart ≤ page && page < manager.memEnd

def CowManager.setInfo (manager : CowManager) (page : UInt64) (info : PageInfo) : CowManager :=
  { manager with pageInfo := update manager.pageInfo page info }

section

variable (manager : CowManager) (physPage : UInt64)

def CowManager.incRef : CowManager :=
  let page := pageAlignDown physPage
  let info := manager.pageInfo page
  if !manager.tracks page then manager
  else if 0xFFFF ≤ info.refcount then manager
  else manager.setInfo page { info with refcount := info.refcount + 1 }

/-- The flag says that the count reached zero. -/
def CowManager.decRef : Bool × CowManager :=
  let page := pageAlignDown physPage
  let info := manager.pageInfo page
  if !manager.tracks page then (false, manager)
  else if info.refcount = 0 then (false, manager)
  else (info.refcount - 1 = 0, manager.setInfo page { info with refcount := info.refcount - 1 })

def CowManager.getRef : UInt16 :=
  let page := pageAlignDown physPage
  if !manager.tracks page then 0 else (manager.pageInfo page).refcount

def CowManager.setCow (cow : Bool) : CowManager :=
  let page := pageAlignDown physPage
  if !manager.tracks page then manager
  else manager.setInfo page { manager.pageInfo page with cow }

def CowManager.markCow : CowManager :=
  manager.setCow physPage true

def CowManager.clearCow : CowManager :=
  manager.setCow physPage false

end

def isSwapEntry (pte : UInt64) : Bool := pte &&& 1 = 0 && pte &&& 2 ≠ 0

def getSwapSlot (pte : UInt64) : Nat := ((pte &&& 0xFFFFFFFFFFFFF000) >>> 12).toNat

def swapSlots : Nat := 1024

structure Swap where
  available : Bool
  used : Nat → Bool
  disk : Nat → Frame

def Swap.freeSlot (swap : Swap) (pte : UInt64) : Swap :=
  if swap.available ∧ isSwapEntry pte ∧ getSwapSlot pte < swapSlots then
    { swap with used := update swap.used (getSwapSlot pte) false }
  else swap

/-- `free` lists the pages of the allocator in the order in which it will hand them out. -/
structure Physical where
  free : List UInt64
  frames : UInt64 → Frame
  cow : CowManager
  swap : Swap

def allocPage (phys : Physical) : Option UInt64 × Physical :=
  match phys.free with
  | [] => (none, phys)
  | page :: rest => (some page, { phys with free := rest })

def freePage (phys : Physical) (page : UInt64) : Physical :=
  { phys with free := page :: phys.free }

def setFrame (phys : Physical) (page : UInt64) (frame : Frame) : Physical :=
  { phys with frames := update phys.frames page frame }

def zeroFrame : Frame := fun _ => 0

def swapIn (phys : Physical) (pte dest : UInt64) (deviceOk : Bool) : Bool × Physical :=
  let slot := getSwapSlot pte
  if !phys.swap.available then (false, phys)
  else if !isSwapEntry pte then (false, phys)
  else if swapSlots ≤ slot then (false, phys)
  else if !phys.swap.used slot then (false, phys)
  else if !deviceOk then (false, phys)
  else
    let filled := setFrame phys dest (phys.swap.disk slot)
    (true, { filled with swap := { phys.swap with used := update phys.swap.used slot false } })

def pteValid : UInt64 := 1
def ptePage : UInt64 := 2
def pteAf : UInt64 := 0x400
def pteShInner : UInt64 := 0x300
def pteApEl0 : UInt64 := 0x40
def pteApRo : UInt64 := 0x80
def pteUxn : UInt64 := 0x40000000000000
def ptePxn : UInt64 := 0x20000000000000
def pteAttrNormal : UInt64 := 4
def pteAttrNc : UInt64 := 8
def addrMask : UInt64 := 0x0000FFFFFFFFF000

def protRead : UInt32 := 1
def protWrite : UInt32 := 2
def protExec : UInt32 := 4
def protUncached : UInt32 := 8
def protRw : UInt32 := protRead ||| protWrite

def isValid (pte : UInt64) : Bool := pte &&& pteValid ≠ 0
def isReadOnly (pte : UInt64) : Bool := pte &&& pteApRo ≠ 0
def pageOf (pte : UInt64) : UInt64 := pte &&& addrMask

def makeEntry (pa : UInt64) (protFlags : UInt32) : UInt64 :=
  let attr := if protFlags &&& protUncached ≠ 0 then pteAttrNc else pteAttrNormal
  let entry := pa ||| pteValid ||| ptePage ||| pteAf ||| pteShInner ||| pteApEl0 ||| attr
  let entry := if protFlags &&& protWrite = 0 then entry ||| pteApRo else entry
  if protFlags &&& protExec = 0 then entry ||| pteUxn ||| ptePxn else entry

inductive Slot (Child : Type) where
  | empty
  | block
  | table (child : Child)

structure Table (Child : Type) where
  page : UInt64
  entries : Fin 512 → Slot Child

structure L3 where
  page : UInt64
  entries : Fin 512 → UInt64

abbrev L2 := Table L3
abbrev L1 := Table L2
abbrev L0 := Table L1

def emptyTable (Child : Type) (page : UInt64) : Table Child := ⟨page, fun _ => .empty⟩
def emptyL3 (page : UInt64) : L3 := ⟨page, fun _ => 0⟩

instance entries_nonzero : NeZero 512 := ⟨Nat.succ_ne_zero 511⟩

abbrev Place := Fin 512 × Fin 512 × Fin 512 × Fin 512

def place (va : UInt64) : Place :=
  (Fin.ofNat 512 (va >>> 39).toNat, Fin.ofNat 512 (va >>> 30).toNat,
    Fin.ofNat 512 (va >>> 21).toNat, Fin.ofNat 512 (va >>> 12).toNat)

variable {Child Key : Type} {other index : Fin 512} {key : Key} {pte pa : UInt64}
  {before after : Child} {done : Bool} {parent : Table Child} {fresh : UInt64 → Child}
  {body : Child → Physical → Bool × Child × Physical} {phys middle : Physical}

def Table.set (table : Table Child) (index : Fin 512) (child : Child) : Table Child :=
  { table with entries := update table.entries index (.table child) }

def L3.set (table : L3) (index : Fin 512) (pte : UInt64) : L3 :=
  { table with entries := update table.entries index pte }

def getOrAllocTable (fresh : UInt64 → Child) (parent : Table Child) (index : Fin 512)
    (phys : Physical) : Option Child × Physical :=
  match parent.entries index with
  | .table child => (some child, phys)
  | .block => (none, phys)
  | .empty =>
    match allocPage phys with
    | (none, phys) => (none, phys)
    | (some page, phys) => (some (fresh page), phys)

def within (fresh : UInt64 → Child) (body : Child → Physical → Bool × Child × Physical)
    (index : Fin 512) (parent : Table Child) (phys : Physical) : Bool × Table Child × Physical :=
  match getOrAllocTable fresh parent index phys with
  | (none, phys) => (false, parent, phys)
  | (some child, phys) =>
    let (done, child, phys) := body child phys
    (done, parent.set index child, phys)

def along (body : Child → Child) (index : Fin 512) (parent : Table Child) : Table Child :=
  match parent.entries index with
  | .table child => parent.set index (body child)
  | _ => parent

def Table.view {Key : Type} (view : Child → Key → UInt64) (table : Table Child)
    (key : Fin 512 × Key) : UInt64 :=
  match table.entries key.1 with
  | .table child => view child key.2
  | _ => 0

def cloneTable (fresh : UInt64 → Child)
    (body : Child → Child → Physical → Bool × Child × Child × Physical) :
    List (Fin 512) → Table Child → Table Child → Physical →
      Bool × Table Child × Table Child × Physical
  | [], parent, child, phys => (true, parent, child, phys)
  | index :: rest, parent, child, phys =>
    match parent.entries index with
    | .table parentNext =>
      match getOrAllocTable fresh child index phys with
      | (none, phys) => (false, parent, child, phys)
      | (some childNext, phys) =>
        let (done, parentNext, childNext, phys) := body parentNext childNext phys
        let parent := parent.set index parentNext
        let child := child.set index childNext
        if done then cloneTable fresh body rest parent child phys
        else (false, parent, child, phys)
    | _ => cloneTable fresh body rest parent child phys

def destroyTable (body : Fin 512 → Child → Physical → Physical) (indices : List (Fin 512))
    (table : Table Child) (phys : Physical) : Physical :=
  freePage (indices.foldl (fun phys index =>
    match table.entries index with
    | .table child => body index child phys
    | _ => phys) phys) table.page

def readAt : L0 → Place → UInt64 := Table.view (Table.view (Table.view L3.entries))

section

variable (space : L0)

def readPte (va : UInt64) : UInt64 := readAt space (place va)

def translate (va : UInt64) : UInt64 :=
  let pte := readPte space va
  if isValid pte then pageOf pte ||| (va &&& pageMask) else 0

def writeAt (spot : Place) (pte : UInt64) (space : L0) (phys : Physical) : Bool × L0 × Physical :=
  within (emptyTable L2) (within (emptyTable L3) (within emptyL3
    (fun l3 phys => (true, l3.set spot.2.2.2 pte, phys)) spot.2.2.1) spot.2.1) spot.1 space phys

def mapPage (va pa : UInt64) (protFlags : UInt32) (phys : Physical) : Bool × L0 × Physical :=
  writeAt (place va) (makeEntry pa protFlags) space phys

def mapPages (space : L0) (va pa : UInt64) (protFlags : UInt32) (phys : Physical) :
    Nat → Bool × L0 × Physical
  | 0 => (true, space, phys)
  | pages + 1 =>
    match mapPage space va pa protFlags phys with
    | (false, space, phys) => (false, space, phys)
    | (true, space, phys) => mapPages space (va + 4096) (pa + 4096) protFlags phys pages

def map (va pa size : UInt64) (protFlags : UInt32) (phys : Physical) : Bool × L0 × Physical :=
  mapPages space va pa protFlags phys ((size + 4095) / 4096).toNat

def clearAt (spot : Place) : L0 → L0 :=
  along (along (along (fun l3 => l3.set spot.2.2.2 0) spot.2.2.1) spot.2.1) spot.1

def unmapPage (va : UInt64) : L0 := clearAt (place va) space

def unmapPages (space : L0) (va : UInt64) : Nat → L0
  | 0 => space
  | pages + 1 => unmapPages (unmapPage space va) (va + 4096) pages

def unmap (va size : UInt64) : L0 :=
  unmapPages space va ((size + 4095) / 4096).toNat

def initSpace (phys : Physical) : Option L0 × Physical :=
  match allocPage phys with
  | (none, phys) => (none, phys)
  | (some l0Page, phys) =>
    match allocPage phys with
    | (none, phys) => (none, freePage phys l0Page)
    | (some l1Page, phys) =>
      let l1 : L1 := ⟨l1Page, fun index => if index.val < 2 then .block else .empty⟩
      (some ((emptyTable L1 l0Page).set 0 l1), phys)

def shareEntry (pte : UInt64) : UInt64 := if isValid pte then pte ||| pteApRo else pte

def shareRefs (entries : Fin 512 → UInt64) (manager : CowManager) : CowManager :=
  (List.finRange 512).foldl (fun manager index =>
    if isValid (entries index) then
      (manager.incRef (pageOf (entries index))).markCow (pageOf (entries index))
    else manager) manager

def cloneL3 (parent child : L3) (phys : Physical) : Bool × L3 × L3 × Physical :=
  (true,
    { parent with entries := fun index => shareEntry (parent.entries index) },
    { child with
      entries := fun index =>
        if isValid (parent.entries index) then parent.entries index ||| pteApRo
        else child.entries index },
    { phys with cow := shareRefs parent.entries phys.cow })

@[irreducible] def indices : List (Fin 512) := List.finRange 512

/-- The parent, the child and whether the clone was complete; slot 0 of the root is skipped. -/
def cloneCowFrom (parent child : L0) (phys : Physical) : Bool × L0 × L0 × Physical :=
  cloneTable (emptyTable L2) (cloneTable (emptyTable L3) (cloneTable emptyL3 cloneL3
    indices) indices) indices.tail parent child phys

def releaseLeaf (phys : Physical) (pte : UInt64) : Physical :=
  if isValid pte then
    let page := pageOf pte
    if 1 < phys.cow.getRef page then { phys with cow := (phys.cow.decRef page).2 }
    else if phys.cow.getRef page = 1 then
      freePage { phys with cow := (phys.cow.decRef page).2 } page
    else freePage phys page
  else if isSwapEntry pte then { phys with swap := phys.swap.freeSlot pte }
  else phys

def destroyL3 (table : L3) (phys : Physical) : Physical :=
  freePage (indices.foldl (fun phys index => releaseLeaf phys (table.entries index)) phys)
    table.page

/-- In slot 0 of the root the first two entries belong to the kernel. -/
def destroySpace (phys : Physical) : Physical :=
  destroyTable (fun index => destroyTable (fun _ => destroyTable (fun _ => destroyL3) indices)
    (if index = 0 then indices.drop 2 else indices)) indices space phys

end

theorem indices_nodup : indices.Nodup := by
  unfold indices
  exact List.nodup_finRange 512

section Views

variable {view : Child → Key → UInt64}

theorem view_set_same (table : Table Child) (index : Fin 512) (child : Child) (key : Key) :
    (table.set index child).view view (index, key) = view child key := by
  simp [Table.view, Table.set]

theorem view_set_other (table : Table Child) (child : Child) (key : Key)
    (different : other ≠ index) :
    (table.set index child).view view (other, key) = table.view view (other, key) := by
  simp [Table.view, Table.set, update_of_ne different]

/-- What obtaining a table can do: it was there, or it takes the next free page. -/
theorem getOrAllocTable_cases (fresh : UInt64 → Child) (parent : Table Child) (index : Fin 512)
    (phys : Physical) :
    getOrAllocTable fresh parent index phys = (none, phys) ∨
    (∃ child, parent.entries index = .table child ∧
      getOrAllocTable fresh parent index phys = (some child, phys)) ∨
    ∃ page rest, parent.entries index = .empty ∧ phys.free = page :: rest ∧
      getOrAllocTable fresh parent index phys =
        (some (fresh page), { phys with free := rest }) := by
  unfold getOrAllocTable allocPage
  cases entry : parent.entries index with
  | table child => exact .inr (.inl ⟨child, rfl, rfl⟩)
  | block => exact .inl rfl
  | empty =>
    cases free : phys.free with
    | nil => exact .inl rfl
    | cons page rest => exact .inr (.inr ⟨page, rest, rfl, rfl, rfl⟩)

def Wrote [DecidableEq Key] (view : Child → Key → UInt64) (key : Key) (pte : UInt64)
    (before after : Child) (done : Bool) : Prop :=
  ∀ other, view after other = if done = true ∧ other = key then pte else view before other

variable [DecidableEq Key]

theorem wrote_set (wrote : Wrote view key pte before after done)
    (held : ∀ other, parent.view view (index, other) = view before other) :
    Wrote (Table.view view) (index, key) pte parent (parent.set index after) done := by
  rintro ⟨position, other⟩
  by_cases here : position = index
  · subst position
    rw [view_set_same, wrote, held]
    simp
  · rw [view_set_other parent after other here, if_neg]
    simp [here]

theorem within_wrote (blank : ∀ page other, view (fresh page) other = 0)
    (wrote : ∀ child phys, Wrote view key pte child (body child phys).2.1 (body child phys).1)
    (index : Fin 512) (parent : Table Child) (phys : Physical) :
    Wrote (Table.view view) (index, key) pte parent
      (within fresh body index parent phys).2.1 (within fresh body index parent phys).1 := by
  rcases getOrAllocTable_cases fresh parent index phys with
    refused | ⟨child, entry, found⟩ | ⟨page, rest, entry, _, taken⟩
  · simp [within, refused, Wrote]
  · simp only [within, found]
    exact wrote_set (wrote child phys) (fun other => by simp [Table.view, entry])
  · simp only [within, taken]
    exact wrote_set (wrote _ _) (fun other => by simp [Table.view, entry, blank])

theorem along_wrote {body : Child → Child}
    (wrote : ∀ child, Wrote view key 0 child (body child) true) (index : Fin 512)
    (parent : Table Child) :
    Wrote (Table.view view) (index, key) 0 parent (along body index parent) true := by
  unfold along
  cases entry : parent.entries index with
  | table child => exact wrote_set (wrote child) (fun other => by simp [Table.view, entry])
  | block | empty =>
    rintro ⟨position, other⟩
    by_cases here : (position, other) = (index, key)
    · simp only [Prod.mk.injEq] at here
      simp [here, Table.view, entry]
    · simp [here]

end Views

theorem l3_wrote (index : Fin 512) (pte : UInt64) (table : L3) :
    Wrote L3.entries index pte table (table.set index pte) true := by
  intro other
  by_cases here : other = index <;> simp [L3.set, here]

theorem writeAt_wrote (spot : Place) (pte : UInt64) (space : L0) (phys : Physical) :
    Wrote readAt spot pte space (writeAt spot pte space phys).2.1
      (writeAt spot pte space phys).1 := by
  refine within_wrote (fun _ _ => rfl) (fun _ _ => ?_) spot.1 space phys
  refine within_wrote (fun _ _ => rfl) (fun _ _ => ?_) spot.2.1 _ _
  refine within_wrote (fun _ _ => rfl) (fun _ _ => ?_) spot.2.2.1 _ _
  exact l3_wrote spot.2.2.2 pte _

theorem clearAt_wrote (spot : Place) (space : L0) :
    Wrote readAt spot 0 space (clearAt spot space) true := by
  refine along_wrote (fun _ => ?_) spot.1 space
  refine along_wrote (fun _ => ?_) spot.2.1 _
  refine along_wrote (fun _ => ?_) spot.2.2.1 _
  exact l3_wrote spot.2.2.2 0 _

def Supplied (phys after : Physical) : Prop :=
  ∃ taken, phys.free = taken ++ after.free ∧ after = { phys with free := after.free }

theorem supplied_refl (phys : Physical) : Supplied phys phys := ⟨[], rfl, rfl⟩

theorem supplied_trans {after : Physical} (first : Supplied phys middle)
    (second : Supplied middle after) :
    Supplied phys after := by
  rcases first with ⟨left, leftFree, leftRest⟩
  rcases second with ⟨right, rightFree, rightRest⟩
  refine ⟨left ++ right, ?_, ?_⟩
  · rw [leftFree, rightFree, List.append_assoc]
  · rw [rightRest, leftRest]

theorem within_supplied (fresh : UInt64 → Child)
    (supplied : ∀ child phys, Supplied phys (body child phys).2.2) (index : Fin 512)
    (parent : Table Child) (phys : Physical) :
    Supplied phys (within fresh body index parent phys).2.2 := by
  rcases getOrAllocTable_cases fresh parent index phys with
    refused | ⟨child, _, found⟩ | ⟨page, rest, _, free, taken⟩
  · simp only [within, refused]
    exact supplied_refl phys
  · simp only [within, found]
    exact supplied child phys
  · have popped : Supplied phys { phys with free := rest } := ⟨[page], free, rfl⟩
    simp only [within, taken]
    exact supplied_trans popped (supplied _ _)

theorem writeAt_supplied (spot : Place) (pte : UInt64) (space : L0) (phys : Physical) :
    Supplied phys (writeAt spot pte space phys).2.2 := by
  refine within_supplied _ (fun _ _ => ?_) spot.1 space phys
  refine within_supplied _ (fun _ _ => ?_) spot.2.1 _ _
  refine within_supplied _ (fun _ _ => ?_) spot.2.2.1 _ _
  exact supplied_refl _

theorem mapPages_supplied (space : L0) (va pa : UInt64) (protFlags : UInt32) (phys : Physical)
    (count : Nat) : Supplied phys (mapPages space va pa protFlags phys count).2.2 := by
  induction count generalizing space va pa phys with
  | zero => exact supplied_refl phys
  | succ count ih =>
    have first := writeAt_supplied (place va) (makeEntry pa protFlags) space phys
    unfold mapPages
    rw [mapPage]
    generalize writeAt (place va) (makeEntry pa protFlags) space phys = result at first ⊢
    rcases result with ⟨_ | _, next, after⟩
    · exact first
    · exact supplied_trans first (ih _ _ _ _)

def Table.Open {Child Key : Type} (below : Child → Key → Prop) (table : Table Child)
    (key : Fin 512 × Key) : Prop :=
  match table.entries key.1 with
  | .table child => below child key.2
  | .block => False
  | .empty => True

instance {Child Key : Type} (below : Child → Key → Prop)
    [∀ child key, Decidable (below child key)] (table : Table Child) (key : Fin 512 × Key) :
    Decidable (table.Open below key) :=
  match entry : table.entries key.1 with
  | .table child => decidable_of_iff (below child key.2) (by simp [Table.Open, entry])
  | .block => isFalse (by simp [Table.Open, entry])
  | .empty => isTrue (by simp [Table.Open, entry])

def Table.missing {Child Key : Type} (below : Child → Key → Nat) (all : Nat) (table : Table Child)
    (key : Fin 512 × Key) : Nat :=
  match table.entries key.1 with
  | .table child => below child key.2
  | .block | .empty => all

abbrev Region := Fin 512 × Fin 512 × Fin 512 × Unit

def regionOf (spot : Place) : Region := (spot.1, spot.2.1, spot.2.2.1, ())

def Open : L0 → Region → Prop := Table.Open (Table.Open (Table.Open fun _ _ => True))

def missingTables : L0 → Region → Nat := Table.missing (Table.missing (Table.missing
  (fun _ _ => 0) 1) 2) 3

section Succeeds

variable {reach : Child → Key → Prop} {missing : Child → Key → Nat} {need all : Nat}

/-- An action succeeds with the pages for the missing tables. It puts no block in the way, and
the tables are there afterwards. -/
def Succeeds (reach : Child → Key → Prop) (missing : Child → Key → Nat) (key : Key)
    (body : Child → Physical → Bool × Child × Physical) : Prop :=
  ∀ child phys, reach child key → missing child key ≤ phys.free.length →
    ∃ next after, body child phys = (true, next, after) ∧
      phys.free.length ≤ after.free.length + missing child key ∧ missing next key = 0 ∧
      (∀ other, reach child other → reach next other) ∧
      ∀ other, missing next other ≤ missing child other

theorem within_succeeds (fresh : UInt64 → Child)
    (blank : ∀ page other, reach (fresh page) other)
    (few : ∀ page other, missing (fresh page) other ≤ need)
    (succeeds : Succeeds reach missing key body) (index : Fin 512) :
    Succeeds (Table.Open reach) (Table.missing missing (need + 1)) (index, key)
      (within fresh body index) := by
  intro table phys open_ enough
  have opened : ∀ child next, (∀ other, reach child other → reach next other) →
      (∀ other, table.Open reach (index, other) → reach child other) →
      ∀ other, table.Open reach other → (table.set index next).Open reach other := by
    intro child next kept held ⟨position, other⟩ before
    by_cases here : position = index
    · subst position
      simpa [Table.Open, Table.set] using kept other (held other before)
    · simpa [Table.Open, Table.set, Function.update_of_ne here] using before
  have lowered : ∀ next, (∀ other, missing next other ≤
        table.missing missing (need + 1) (index, other)) →
      ∀ other, (table.set index next).missing missing (need + 1) other ≤
        table.missing missing (need + 1) other := by
    intro next less ⟨position, other⟩
    by_cases here : position = index
    · subst position
      simpa [Table.missing, Table.set] using less other
    · simp [Table.missing, Table.set, Function.update_of_ne here]
  unfold within getOrAllocTable
  cases entry : table.entries index with
  | block => simp [Table.Open, entry] at open_
  | table child =>
    have below : ∀ other, table.Open reach (index, other) → reach child other := by
      intro other before
      simpa [Table.Open, entry] using before
    have cost : ∀ other, table.missing missing (need + 1) (index, other) = missing child other := by
      simp [Table.missing, entry]
    rw [cost] at enough ⊢
    obtain ⟨next, after, done, spent, there, kept, less⟩ :=
      succeeds child phys (below key open_) enough
    exact ⟨table.set index next, after, by simp [done], spent,
      by simpa [Table.missing, Table.set] using there, opened child next kept below,
      lowered next fun other => (less other).trans_eq (cost other).symm⟩
  | empty =>
    have cost : ∀ other, table.missing missing (need + 1) (index, other) = need + 1 := by
      simp [Table.missing, entry]
    rw [cost] at enough ⊢
    obtain ⟨page, rest, free⟩ := List.exists_cons_of_length_pos (show 0 < phys.free.length by omega)
    have needed := few page key
    have left : missing (fresh page) key ≤ rest.length := by
      rw [free, List.length_cons] at enough
      omega
    obtain ⟨next, after, done, spent, there, kept, less⟩ :=
      succeeds (fresh page) { phys with free := rest } (blank page key) left
    refine ⟨table.set index next, after, by simp [allocPage, free, done], ?_,
      by simpa [Table.missing, Table.set] using there,
      opened (fresh page) next kept fun other _ => blank page other, lowered next fun other => ?_⟩
    · rw [free, List.length_cons]
      dsimp only at spent
      omega
    · rw [cost]
      exact (less other).trans ((few page other).trans (Nat.le_succ _))

end Succeeds

theorem missing_le {below : Child → Key → Nat} {all : Nat}
    (few : ∀ child key, below child key ≤ all) (table : Table Child) (key : Fin 512 × Key) :
    table.missing below all key ≤ all := by
  unfold Table.missing
  split
  · exact few _ _
  all_goals exact Nat.le_refl _

theorem missingTables_le (space : L0) (region : Region) : missingTables space region ≤ 3 :=
  missing_le (fun _ _ => (missing_le (fun _ _ => (missing_le (fun _ _ => Nat.zero_le _) _ _).trans
    (by decide)) _ _).trans (by decide)) _ _

theorem writeAt_succeeds (spot : Place) (pte : UInt64) :
    Succeeds Open missingTables (regionOf spot) (writeAt spot pte) := by
  have leaf : Succeeds (fun (_ : L3) (_ : Unit) => True) (fun _ _ => 0) ()
      (fun l3 phys => (true, l3.set spot.2.2.2 pte, phys)) :=
    fun child phys _ _ =>
      ⟨_, phys, rfl, Nat.le_refl _, rfl, fun _ _ => trivial, fun _ => Nat.le_refl _⟩
  have third := within_succeeds emptyL3 (fun _ _ => trivial) (fun _ _ => Nat.le_refl 0) leaf
    spot.2.2.1
  have second := within_succeeds (emptyTable L3) (fun _ _ => trivial) (fun _ _ => Nat.le_refl 1)
    third spot.2.1
  exact within_succeeds (emptyTable L2) (fun _ _ => trivial) (fun _ _ => Nat.le_refl 2) second
    spot.1

theorem map_page (space : L0) (va pa : UInt64) (protFlags : UInt32) (phys : Physical) :
    map space va pa 4096 protFlags phys = mapPage space va pa protFlags phys := by
  have one : (((4096 : UInt64) + 4095) / 4096).toNat = 1 := by decide
  rw [map, one]
  simp only [mapPages]
  rcases mapPage space va pa protFlags phys with ⟨_ | _, after, rest⟩ <;> rfl

theorem unmap_page (space : L0) (va : UInt64) : unmap space va 4096 = unmapPage space va := by
  rfl

/-- An address that the allocator hands out fits the address field of an entry. -/
def Good (page : UInt64) : Prop := page &&& addrMask = page

def entryFlags (protFlags : UInt32) : UInt64 :=
  (pteValid ||| ptePage ||| pteAf ||| pteShInner ||| pteApEl0 |||
    (if protFlags &&& protUncached ≠ 0 then pteAttrNc else pteAttrNormal)) |||
    (if protFlags &&& protWrite = 0 then pteApRo else 0) |||
    (if protFlags &&& protExec = 0 then pteUxn ||| ptePxn else 0)

theorem makeEntry_eq (pa : UInt64) (protFlags : UInt32) :
    makeEntry pa protFlags = pa ||| entryFlags protFlags := by
  simp only [makeEntry, entryFlags]
  split <;> split <;> split <;> simp only [UInt64.or_assoc, UInt64.or_zero]

theorem entryFlags_mask (protFlags : UInt32) : entryFlags protFlags &&& addrMask = 0 := by
  simp only [entryFlags]
  split <;> split <;> split <;> decide

theorem entryFlags_valid (protFlags : UInt32) : entryFlags protFlags &&& pteValid = 1 := by
  simp only [entryFlags]
  split <;> split <;> split <;> decide

theorem makeEntry_page (good : Good pa) (protFlags : UInt32) :
    pageOf (makeEntry pa protFlags) = pa := by
  rw [pageOf, makeEntry_eq]
  exact Bits.or_mask good (entryFlags_mask protFlags)

theorem makeEntry_valid (good : Good pa) (protFlags : UInt32) :
    isValid (makeEntry pa protFlags) = true := by
  rw [isValid, makeEntry_eq, Bits.or_field good _ (by decide), entryFlags_valid]
  decide

theorem pageOf_good (pte : UInt64) : Good (pageOf pte) := by
  rw [Good, pageOf, UInt64.and_assoc, UInt64.and_self]

end ViperDos.Memory
