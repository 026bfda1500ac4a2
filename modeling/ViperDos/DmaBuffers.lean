import Mathlib.Data.Bool.AllAny
import ViperDos.PageOwnership
import ViperDos.RawReads
import ViperDos.Transition

/-!
DMA buffers (`sys_dma_alloc` and `sys_dma_free` of kernel/syscall/handlers/device.cpp). One table
of 64 entries serves all processes. The address of a new buffer lies above the buffers in the
entries before the first free one; those behind it are not looked at, so it can fall into one
that the process still has. The pages of a buffer are taken from the allocator's pool, which
gives no more than 512 however many are asked for.
-/

namespace ViperDos.Memory.Dma

open Transition

structure DmaAllocation where
  physAddr : UInt64
  virtAddr : UInt64
  size : UInt64
  ownerViperId : Nat
  inUse : Bool
  deriving DecidableEq

def maxDmaAllocations : Nat := 64

structure State where
  allocations : List DmaAllocation
  spaces : Nat → Option L0
  phys : Physical

def numPages (size : UInt64) : UInt64 := (size + 4095) / 4096

def scan : List DmaAllocation → Nat → UInt64 → Option (Nat × UInt64)
  | [], _, _ => none
  | a :: rest, i, virtAddr =>
    if !a.inUse then some (i, virtAddr)
    else scan rest (i + 1)
      (if virtAddr < a.virtAddr + a.size then pageAlignUp (a.virtAddr + a.size) else virtAddr)

def giveBack (phys : Physical) (run : List UInt64) : Physical :=
  { phys with free := run ++ phys.free }

/-- `physAddr` is what the page allocator returns, when it takes so many pages; `permitted` are
the checks of the result pointer and of the right to use DMA. -/
def sysDmaAlloc (s : State) (pid : Nat) (size : UInt64) (permitted : Bool) (physAddr : UInt64)
    (taken : Nat) : State :=
  if size = 0 ∨ 16 * 1024 * 1024 < size ∨ permitted = false ∨ physAddr = 0 then s
  else
    let phys := takeRun s.phys (runOf physAddr taken)
    let asked := runOf physAddr (numPages size).toNat
    match s.spaces pid, scan s.allocations 0 0x200000000 with
    | some space, some (slot, virtAddr) =>
      match map space virtAddr physAddr (numPages size * 4096) protRw phys with
      | (false, space, phys) =>
        { s with
          spaces := Function.update s.spaces pid (some space)
          phys := giveBack phys asked }
      | (true, space, phys) =>
        { allocations :=
            s.allocations.set slot ⟨physAddr, virtAddr, numPages size * 4096, pid, true⟩
          spaces := Function.update s.spaces pid (some space)
          phys := phys }
    | _, _ => { s with phys := giveBack phys asked }

def held (pid : Nat) (virtAddr : UInt64) (a : DmaAllocation) : Bool :=
  a.inUse && a.virtAddr = virtAddr && a.ownerViperId = pid

def sysDmaFree (s : State) (pid : Nat) (virtAddr : UInt64) : State :=
  match s.allocations.findIdx? (held pid virtAddr) with
  | none => s
  | some slot =>
    let a := s.allocations.getD slot ⟨0, 0, 0, 0, false⟩
    { s with
      allocations := s.allocations.set slot { a with inUse := false }
      spaces := Function.update s.spaces pid ((s.spaces pid).map (unmap · virtAddr a.size))
      phys := giveBack s.phys (runOf a.physAddr (a.size / 4096).toNat) }

-- Pages

theorem mapPages_readAt (space : L0) (va pa : UInt64) (protFlags : UInt32) (phys : Physical)
    (pages : Nat) :
    (∀ spot, (∀ i < pages, place (va + UInt64.ofNat (4096 * i)) ≠ spot) →
      readAt (mapPages space va pa protFlags phys pages).2.1 spot = readAt space spot) ∧
    ((mapPages space va pa protFlags phys pages).1 = true → ∀ i < pages,
      (∀ j < pages, place (va + UInt64.ofNat (4096 * j)) = place (va + UInt64.ofNat (4096 * i)) →
        j = i) →
      readAt (mapPages space va pa protFlags phys pages).2.1
        (place (va + UInt64.ofNat (4096 * i))) = makeEntry (pa + UInt64.ofNat (4096 * i)) protFlags) := by
  induction pages generalizing space va pa phys with
  | zero => exact ⟨fun _ _ => rfl, fun _ i inside => absurd inside (Nat.not_lt_zero i)⟩
  | succ pages ih =>
    have first (addr : UInt64) : addr + UInt64.ofNat (4096 * 0) = addr := UInt64.add_zero addr
    have wrote := writeAt_wrote (place va) (makeEntry pa protFlags) space phys
    change Wrote readAt (place va) (makeEntry pa protFlags) space
      (mapPage space va pa protFlags phys).2.1 (mapPage space va pa protFlags phys).1 at wrote
    simp only [mapPages]
    generalize mapPage space va pa protFlags phys = result at wrote ⊢
    rcases result with ⟨_ | _, middle, left⟩
    · refine ⟨fun spot _ => ?_, fun done => absurd done Bool.false_ne_true⟩
      simpa using wrote spot
    obtain ⟨others, placed⟩ := ih middle (va + 4096) (pa + 4096) left
    refine ⟨fun spot away => ?_, fun done i inside unique => ?_⟩
    · have start := away 0 (Nat.succ_pos pages)
      rw [first] at start
      rw [others spot fun i inside => ?_, wrote spot, if_neg fun same => start same.2.symm]
      rw [next_page]
      exact away (i + 1) (Nat.succ_lt_succ inside)
    · cases i with
      | zero =>
        rw [first, first, others _ fun j small same => ?_, wrote, if_pos ⟨rfl, rfl⟩]
        rw [next_page] at same
        exact absurd (unique (j + 1) (Nat.succ_lt_succ small) (by rw [first]; exact same))
          (Nat.succ_ne_zero j)
      | succ i =>
        rw [← next_page, ← next_page]
        refine placed done i (Nat.lt_of_succ_lt_succ inside) fun j small same => ?_
        rw [next_page, next_page] at same
        exact Nat.succ.inj (unique (j + 1) (Nat.succ_lt_succ small) same)

theorem unmapPages_readAt (space : L0) (va : UInt64) (pages : Nat) (spot : Place)
    (away : ∀ i < pages, place (va + UInt64.ofNat (4096 * i)) ≠ spot) :
    readAt (unmapPages space va pages) spot = readAt space spot := by
  induction pages generalizing space va with
  | zero => rfl
  | succ pages ih =>
    have start : place va ≠ spot := by simpa using away 0 (Nat.succ_pos pages)
    have wrote := clearAt_wrote (place va) space spot
    rw [if_neg fun same => start same.2.symm] at wrote
    refine (ih (unmapPage space va) (va + 4096) fun i inside => ?_).trans wrote
    rw [next_page]
    exact away (i + 1) (Nat.succ_lt_succ inside)

-- Buffers

def dmaBase : Nat := 0x200000000

namespace DmaAllocation

def pages (a : DmaAllocation) : Nat := a.size.toNat / 4096

def virtPage (a : DmaAllocation) (k : Nat) : UInt64 := a.virtAddr + UInt64.ofNat (4096 * k)

def physPage (a : DmaAllocation) (k : Nat) : UInt64 := a.physAddr + UInt64.ofNat (4096 * k)

end DmaAllocation

def Apart (start size other otherSize : UInt64) : Prop :=
  start.toNat + size.toNat ≤ other.toNat ∨ other.toNat + otherSize.toNat ≤ start.toNat

def Mapped (s : State) (a : DmaAllocation) : Prop :=
  ∃ space, s.spaces a.ownerViperId = some space ∧ ∀ k < a.pages,
    isValid (readPte space (a.virtPage k)) = true ∧ pageOf (readPte space (a.virtPage k)) = a.physPage k

def Live (s : State) (i : Nat) (a : DmaAllocation) : Prop :=
  s.allocations[i]? = some a ∧ a.inUse = true

/-- The buffers of a process do not overlap, each is mapped, and no two share a page. -/
structure Separate (s : State) : Prop where
  virt : ∀ i j a b, Live s i a → Live s j b → i ≠ j → a.ownerViperId = b.ownerViperId →
    Apart a.virtAddr a.size b.virtAddr b.size
  phys : ∀ i j a b, Live s i a → Live s j b → i ≠ j → Apart a.physAddr a.size b.physAddr b.size
  mapped : ∀ i a, Live s i a → Mapped s a

/-- Entry `i` of the table ends at most 16 MB above the entry before it could. -/
structure Placed (i : Nat) (a : DmaAllocation) : Prop where
  some : 0 < a.size.toNat
  whole : a.size.toNat % 4096 = 0
  aligned : a.virtAddr.toNat % 4096 = 0
  above : dmaBase ≤ a.virtAddr.toNat
  below : a.virtAddr.toNat + a.size.toNat ≤ dmaBase + (i + 1) * 2 ^ 24

structure Pooled (s : State) : Prop where
  nodup : s.phys.free.Nodup
  good : ∀ page ∈ s.phys.free, Good page
  whole : ∀ i a, Live s i a → ∀ k < a.pages, Good (a.physPage k)
  away : ∀ i a, Live s i a → ∀ k < a.pages, a.physPage k ∉ s.phys.free

structure Sound (s : State) : Prop extends Separate s, Pooled s where
  slots : s.allocations.length = maxDmaAllocations
  placed : ∀ i a, Live s i a → Placed i a

variable {s after : State} {i k j l first slot pid count taken : Nat}
  {a b new buffer : DmaAllocation} {space changed : L0} {addr least page : UInt64}
  {found : Nat × UInt64} {spaces : Nat → Option L0} {phys : Physical} {run : List UInt64}
  {permitted : Bool}

theorem Sound.index_lt (sound : Sound s) (live : Live s i a) : i < 64 := by
  obtain ⟨inside, _⟩ := List.getElem?_eq_some_iff.mp live.1
  rwa [sound.slots] at inside

theorem Placed.page_toNat (placed : Placed i a) (small : i < 64) (inside : k < a.pages) :
    (a.virtPage k).toNat = a.virtAddr.toNat + 4096 * k := by
  have := placed.below
  unfold DmaAllocation.pages at inside
  unfold dmaBase at this
  rw [DmaAllocation.virtPage, UInt64.toNat_add, UInt64.toNat_ofNat']
  omega

section

variable (placed : Placed i a) (other : Placed j b) (small : i < 64) (otherSmall : j < 64)

include placed other small otherSmall

theorem Placed.page_inj (inside : k < a.pages) (otherInside : l < b.pages)
    (same : place (a.virtPage k) = place (b.virtPage l)) :
    a.virtAddr.toNat + 4096 * k = b.virtAddr.toNat + 4096 * l := by
  have here := placed.page_toNat small inside
  have there := other.page_toNat otherSmall otherInside
  have := placed.below
  have := other.below
  have := placed.aligned
  have := other.aligned
  unfold DmaAllocation.pages at inside otherInside
  unfold dmaBase at *
  have pages := place_inj (by omega) (by omega) same
  omega

theorem Placed.place_ne (apart : Apart a.virtAddr a.size b.virtAddr b.size) (inside : k < a.pages)
    (otherInside : l < b.pages) : place (a.virtPage k) ≠ place (b.virtPage l) := by
  intro same
  have pages := placed.page_inj other small otherSmall inside otherInside same
  unfold DmaAllocation.pages at inside otherInside
  unfold Apart at apart
  omega

end

theorem mapped_congr (mapped : Mapped s a) (before : s.spaces a.ownerViperId = some space)
    (now : after.spaces a.ownerViperId = some changed)
    (same : ∀ k < a.pages, readAt changed (place (a.virtPage k)) = readAt space (place (a.virtPage
      k))) : Mapped after a := by
  obtain ⟨mine, found, entries⟩ := mapped
  obtain rfl := Option.some.inj (before.symm.trans found)
  refine ⟨changed, now, fun k inside => ?_⟩
  unfold readPte
  rw [same k inside]
  exact entries k inside

theorem pageAlignUp_whole (aligned : addr.toNat % 4096 = 0) : pageAlignUp addr = addr := by
  have small := addr.toNat_lt
  have sum : (addr + 4095).toNat = (addr.toNat + 4095) % 2 ^ 64 := UInt64.toNat_add addr 4095
  apply UInt64.toNat_inj.mp
  rw [pageAlignUp, @Bits.and_toNat 52 12 (~~~pageMask) _ (by decide)]
  omega

structure Scanned (allocations : List DmaAllocation) (first slot : Nat) (least virtAddr : UInt64) :
    Prop where
  free : ∃ a, allocations[slot]? = some a ∧ a.inUse = false
  used : ∀ i < slot, ∀ a, allocations[i]? = some a → a.inUse = true
  above : ∀ i < slot, ∀ a, allocations[i]? = some a →
    a.virtAddr.toNat + a.size.toNat ≤ virtAddr.toNat
  least : least.toNat ≤ virtAddr.toNat
  aligned : virtAddr.toNat % 4096 = 0
  below : virtAddr.toNat ≤ dmaBase + (first + slot) * 2 ^ 24

variable {allocations : List DmaAllocation}

theorem scan_scanned (few : first + allocations.length ≤ 64)
    (placed : ∀ i a, allocations[i]? = some a → a.inUse = true → Placed (first + i) a)
    (aligned : least.toNat % 4096 = 0) (low : least.toNat ≤ dmaBase + first * 2 ^ 24)
    (done : scan allocations first least = some found) :
    ∃ slot, found.1 = first + slot ∧ Scanned allocations first slot least found.2 := by
  induction allocations generalizing first least with
  | nil => exact absurd done (by simp [scan])
  | cons a rest ih =>
    simp only [scan] at done
    split at done
    next free =>
      obtain rfl := Option.some.inj done
      refine ⟨0, rfl, ⟨a, rfl, by simpa using free⟩, ?_, ?_, Nat.le_refl _, aligned, low⟩
      · exact fun i no => absurd no (Nat.not_lt_zero i)
      · exact fun i no => absurd no (Nat.not_lt_zero i)
    next busy =>
    have inUse : a.inUse = true := by simpa using busy
    have here := placed 0 a rfl inUse
    have ends : (a.virtAddr + a.size).toNat = a.virtAddr.toNat + a.size.toNat := by
      have := here.below
      unfold dmaBase at this
      rw [UInt64.toNat_add]
      omega
    have whole : (a.virtAddr + a.size).toNat % 4096 = 0 := by
      have := here.whole
      have := here.aligned
      omega
    rw [pageAlignUp_whole whole] at done
    generalize next : (if least < a.virtAddr + a.size then a.virtAddr + a.size else least) =
      raised at done
    have bounds : least.toNat ≤ raised.toNat ∧ a.virtAddr.toNat + a.size.toNat ≤ raised.toNat ∧
        raised.toNat % 4096 = 0 ∧ raised.toNat ≤ dmaBase + (first + 1) * 2 ^ 24 := by
      have := here.below
      rw [← next]
      split
      next less =>
        have := UInt64.lt_iff_toNat_lt.mp less
        omega
      next more =>
        have := mt UInt64.lt_iff_toNat_lt.mpr more
        omega
    obtain ⟨slot, number, scanned⟩ := ih (by simp only [List.length_cons] at few; omega)
      (fun i b at' use => Nat.add_right_comm first 1 i ▸ placed (i + 1) b at' use)
      bounds.2.2.1 bounds.2.2.2 done
    refine ⟨slot + 1, by omega, scanned.free, ?_, ?_, ?_, scanned.aligned, ?_⟩
    · intro i inside b found
      cases i with
      | zero => exact Option.some.inj found ▸ inUse
      | succ i => exact scanned.used i (Nat.lt_of_succ_lt_succ inside) b found
    · intro i inside b found
      cases i with
      | zero => exact Option.some.inj found ▸ bounds.2.1.trans scanned.least
      | succ i => exact scanned.above i (Nat.lt_of_succ_lt_succ inside) b found
    · exact bounds.1.trans scanned.least
    · have same : first + 1 + slot = first + (slot + 1) := by omega
      exact same ▸ scanned.below

-- Runs

inductive DmaCall where
  | alloc (size : UInt64) (permitted : Bool) (physAddr : UInt64) (taken : Nat)
  | free (virtAddr : UInt64)

def perform (s : State) (pid : Nat) : DmaCall → State
  | .alloc size permitted physAddr taken => sysDmaAlloc s pid size permitted physAddr taken
  | .free virtAddr => sysDmaFree s pid virtAddr

/-- The page allocator takes a run of its pool, or answers zero. -/
def Handed (s : State) : DmaCall → Prop
  | .alloc size _ physAddr taken => physAddr ≠ 0 → Buddy.Grants (numPages size).toNat taken ∧
      ∀ page ∈ runOf physAddr taken, page ∈ s.phys.free
  | .free _ => True

def Step (s : State) (call : Nat × DmaCall) (after : State) : Prop :=
  Handed s call.2 ∧ after = perform s call.1 call.2

/-- A process asks for two megabytes at most, and only while no free entry lies before one of
its own. -/
def Modest (s : State) (call : Nat × DmaCall) : Prop :=
  match call.2 with
  | .alloc size _ _ _ => (numPages size).toNat ≤ 512 ∧ ∀ j b, Live s j b →
      b.ownerViperId = call.1 → ∀ i < j, ∀ a, s.allocations[i]? = some a → a.inUse = true
  | .free _ => True

variable {size : UInt64}

theorem numPages_toNat (some : size ≠ 0) (small : ¬ 16 * 1024 * 1024 < size) :
    (0 < (numPages size).toNat ∧ (numPages size).toNat ≤ 4096) ∧
      (numPages size * 4096).toNat = 4096 * (numPages size).toNat ∧
      ((numPages size * 4096 + 4095) / 4096).toNat = (numPages size).toNat := by
  have bound := mt UInt64.lt_iff_toNat_lt.mpr small
  change ¬ 16777216 < size.toNat at bound
  have pages : (numPages size).toNat = (size.toNat + 4095) / 4096 := by
    change (size.toNat + 4095) % 2 ^ 64 / 4096 = _
    omega
  have bytes : (numPages size * 4096).toNat = 4096 * (numPages size).toNat := by
    change (numPages size).toNat * 4096 % 2 ^ 64 = _
    omega
  have positive : 0 < size.toNat := Nat.pos_of_ne_zero fun zero => some (UInt64.toNat_inj.mp zero)
  refine ⟨by omega, bytes, ?_⟩
  change ((numPages size * 4096).toNat + 4095) % 2 ^ 64 / 4096 = _
  omega

theorem live_set (inside : slot < allocations.length)
    (live : Live ⟨allocations.set slot new, spaces, phys⟩ i a) :
    i = slot ∧ a = new ∧ new.inUse = true ∨ i ≠ slot ∧ allocations[i]? = some a ∧ a.inUse = true := by
  obtain ⟨found, inUse⟩ := live
  by_cases here : i = slot
  · subst here
    rw [List.getElem?_set_self inside] at found
    obtain rfl := Option.some.inj found
    exact .inl ⟨rfl, rfl, inUse⟩
  · rw [List.getElem?_set_ne (Ne.symm here)] at found
    exact .inr ⟨here, found, inUse⟩

section

variable (inside : slot < s.allocations.length)

include inside

theorem live_set_all {P : Nat → DmaAllocation → Prop} (added : P slot buffer)
    (before : ∀ i a, Live s i a → P i a) (i : Nat) (a : DmaAllocation)
    (live : Live ⟨s.allocations.set slot buffer, s.spaces, s.phys⟩ i a) : P i a := by
  rcases live_set inside live with ⟨rfl, rfl, _⟩ | ⟨_, old⟩
  · exact added
  · exact before i a old

theorem live_set_pairs {R : DmaAllocation → DmaAllocation → Prop} (symm : ∀ a b, R a b → R b a)
    (added : ∀ i a, Live s i a → R a buffer)
    (before : ∀ i j a b, Live s i a → Live s j b → i ≠ j → R a b) (i j : Nat)
    (a b : DmaAllocation) (first : Live ⟨s.allocations.set slot buffer, s.spaces, s.phys⟩ i a)
    (second : Live ⟨s.allocations.set slot buffer, s.spaces, s.phys⟩ j b) (different : i ≠ j) :
    R a b := by
  rcases live_set inside first with ⟨rfl, rfl, _⟩ | ⟨_, old⟩ <;>
    rcases live_set inside second with ⟨rfl, rfl, _⟩ | ⟨_, other⟩
  · exact absurd rfl different
  · exact symm _ _ (added j b other)
  · exact added i a old
  · exact before i j a b old other different

theorem live_removed (unused : new.inUse = false)
    (live : Live ⟨s.allocations.set slot new, s.spaces, s.phys⟩ i a) : i ≠ slot ∧ Live s i a := by
  rcases live_set inside live with ⟨_, _, inUse⟩ | old
  · exact absurd (unused.symm.trans inUse) (by simp)
  · exact old

end

/-- A change in one address space that leaves the entries of the buffers that stay, with
pages taken from the pool. -/
theorem Sound.respaced (sound : Sound s) (spaces : s.spaces pid = some space)
    (same : ∀ i a, Live s i a → a.ownerViperId = pid → ∀ k < a.pages,
      readAt changed (place (a.virtPage k)) = readAt space (place (a.virtPage k)))
    (fewer : phys.free.Sublist s.phys.free) :
    Sound ⟨s.allocations, Function.update s.spaces pid (some changed), phys⟩ where
  virt := sound.virt
  phys := sound.phys
  mapped i a live := by
    by_cases owner : a.ownerViperId = pid
    · exact mapped_congr (sound.mapped i a live) (owner ▸ spaces) (by simp [owner])
        (same i a live owner)
    · obtain ⟨mine, found, entries⟩ := sound.mapped i a live
      exact ⟨mine, by simpa [owner] using found, entries⟩
  nodup := sound.nodup.sublist fewer
  good := fun page member => sound.good page (fewer.subset member)
  whole := sound.whole
  away := fun i a live k inside member => sound.away i a live k inside (fewer.subset member)
  slots := sound.slots
  placed := sound.placed

/-- Pages go back that are neither in the pool nor in a buffer. -/
theorem Sound.returned (sound : Sound s) (nodup : run.Nodup) (good : ∀ page ∈ run, Good page)
    (out : ∀ page ∈ run, page ∉ s.phys.free)
    (unused : ∀ i a, Live s i a → ∀ k < a.pages, a.physPage k ∉ run) :
    Sound ⟨s.allocations, s.spaces, giveBack s.phys run⟩ where
  virt := sound.virt
  phys := sound.phys
  mapped := sound.mapped
  nodup := List.nodup_append'.mpr ⟨nodup, sound.nodup, out⟩
  good := fun page member => (List.mem_append.mp member).elim (good page) (sound.good page)
  whole := sound.whole
  away := fun i a live k inside member =>
    (List.mem_append.mp member).elim (unused i a live k inside) (sound.away i a live k inside)
  slots := sound.slots
  placed := sound.placed

theorem run_nodup (good : ∀ k < count, Good (page + UInt64.ofNat (4096 * k))) :
    (runOf page count).Nodup := by
  refine List.Nodup.map_on (fun i first j second same => ?_) List.nodup_range
  have equal := congrArg UInt64.toNat same
  rw [run_toNat good (List.mem_range.mp first), run_toNat good (List.mem_range.mp second)] at equal
  omega

theorem apart_of_pages (placed : Placed i a) (other : Placed j b)
    (aGood : ∀ k < a.pages, Good (a.physPage k))
    (bGood : ∀ k < b.pages, Good (b.physPage k))
    (distinct : ∀ k < a.pages, ∀ l < b.pages, a.physPage k ≠ b.physPage l) :
    Apart a.physAddr a.size b.physAddr b.size := by
  have := placed.some
  have := placed.whole
  have := other.some
  have := other.whole
  unfold DmaAllocation.pages DmaAllocation.physPage at *
  by_contra close
  unfold Apart at close
  have aStart := good_toNat (aGood 0 (by omega))
  have bStart := good_toNat (bGood 0 (by omega))
  rw [run_toNat aGood (by omega)] at aStart
  rw [run_toNat bGood (by omega)] at bStart
  -- the one that starts later starts in a page of the other
  rcases Nat.le_total a.physAddr.toNat b.physAddr.toNat with first | first
  · refine distinct ((b.physAddr.toNat - a.physAddr.toNat) / 4096) (by omega) 0 (by omega)
      (UInt64.toNat_inj.mp ?_)
    rw [run_toNat aGood (by omega), run_toNat bGood (by omega)]
    omega
  · refine distinct 0 (by omega) ((a.physAddr.toNat - b.physAddr.toNat) / 4096) (by omega)
      (UInt64.toNat_inj.mp ?_)
    rw [run_toNat aGood (by omega), run_toNat bGood (by omega)]
    omega

/-- A new buffer, mapped and away from those of its owner, with pages that nobody has. -/
theorem Sound.added (sound : Sound s) (placed : Placed slot buffer)
    (inside : slot < s.allocations.length) (mapped : Mapped s buffer)
    (virt : ∀ i a, Live s i a → a.ownerViperId = buffer.ownerViperId →
      Apart a.virtAddr a.size buffer.virtAddr buffer.size)
    (good : ∀ k < buffer.pages, Good (buffer.physPage k))
    (out : ∀ k < buffer.pages, buffer.physPage k ∉ s.phys.free)
    (distinct : ∀ i a, Live s i a → ∀ k < a.pages, ∀ l < buffer.pages,
      a.physPage k ≠ buffer.physPage l) :
    Sound ⟨s.allocations.set slot buffer, s.spaces, s.phys⟩ := by
  have phys : ∀ i a, Live s i a → Apart a.physAddr a.size buffer.physAddr buffer.size :=
    fun i a live => apart_of_pages (sound.placed i a live) placed (sound.whole i a live) good
      (distinct i a live)
  exact
    { virt := live_set_pairs inside (fun _ _ apart owner => (apart owner.symm).symm) virt sound.virt
      phys := live_set_pairs inside (fun _ _ => Or.symm) phys sound.phys
      mapped := live_set_all inside mapped sound.mapped
      nodup := sound.nodup
      good := sound.good
      whole := live_set_all inside good sound.whole
      away := live_set_all inside out sound.away
      slots := by rw [List.length_set]; exact sound.slots
      placed := live_set_all inside placed sound.placed }

theorem Sound.removed (sound : Sound s) (inside : slot < s.allocations.length)
    (unused : new.inUse = false) : Sound ⟨s.allocations.set slot new, s.spaces, s.phys⟩ := by
  have old {i : Nat} {a : DmaAllocation}
      (live : Live ⟨s.allocations.set slot new, s.spaces, s.phys⟩ i a) : Live s i a :=
    (live_removed inside unused live).2
  exact
    { virt := fun i j a b first second => sound.virt i j a b (old first) (old second)
      phys := fun i j a b first second => sound.phys i j a b (old first) (old second)
      mapped := fun i a live => sound.mapped i a (old live)
      nodup := sound.nodup
      good := sound.good
      whole := fun i a live => sound.whole i a (old live)
      away := fun i a live => sound.away i a (old live)
      slots := by rw [List.length_set]; exact sound.slots
      placed := fun i a live => sound.placed i a (old live) }

variable {virtAddr : UInt64}

theorem Sound.scanned (sound : Sound s)
    (found : scan s.allocations 0 0x200000000 = some (slot, virtAddr)) :
    Scanned s.allocations 0 slot 0x200000000 virtAddr := by
  obtain ⟨place, number, scanned⟩ := scan_scanned (Nat.le_of_eq (by rw [sound.slots]; rfl))
    (fun i a at' inUse => by rw [Nat.zero_add]; exact sound.placed i a ⟨at', inUse⟩) (by decide)
    (by decide) found
  obtain rfl : slot = place := number.trans (Nat.zero_add place)
  exact scanned

variable {physAddr : UInt64}

/-- What the allocator has taken has so many pages from `physAddr` on, and no buffer has them. -/
structure Drawn (s : State) (physAddr : UInt64) (taken count : Nat) : Prop where
  good : ∀ k < count, Good (physAddr + UInt64.ofNat (4096 * k))
  out : ∀ k < count,
    physAddr + UInt64.ofNat (4096 * k) ∉ (takeRun s.phys (runOf physAddr taken)).free
  unused : ∀ i a, Live s i a → ∀ k < a.pages, ∀ l < count,
    a.physPage k ≠ physAddr + UInt64.ofNat (4096 * l)

theorem Sound.drawn (sound : Sound s) (pool : ∀ page ∈ runOf physAddr taken, page ∈ s.phys.free)
    (covered : count ≤ taken) : Drawn s physAddr taken count := by
  have inRun : ∀ k < count, physAddr + UInt64.ofNat (4096 * k) ∈ runOf physAddr taken :=
    fun k inside => mem_runOf.mpr ⟨k, by omega, rfl⟩
  refine ⟨fun k inside => sound.good _ (pool _ (inRun k inside)), fun k inside member => ?_,
    fun i a live k inPage l inside same => ?_⟩
  · exact of_decide_eq_true (List.mem_filter.mp member).2 (inRun k inside)
  · exact sound.away i a live k inPage (same ▸ pool _ (inRun l inside))

theorem Drawn.given_back (drawn : Drawn s physAddr taken count)
    (fewer : phys.free.Sublist (takeRun s.phys (runOf physAddr taken)).free)
    (kept : Sound ⟨s.allocations, spaces, phys⟩) :
    Sound ⟨s.allocations, spaces, giveBack phys (runOf physAddr count)⟩ := by
  refine kept.returned (run_nodup drawn.good) ?_ ?_ ?_
  · intro page member
    obtain ⟨k, inside, rfl⟩ := mem_runOf.mp member
    exact drawn.good k inside
  · intro page member free
    obtain ⟨k, inside, rfl⟩ := mem_runOf.mp member
    exact drawn.out k inside (fewer.subset free)
  · intro i a live k inPage member
    obtain ⟨l, inside, same⟩ := mem_runOf.mp member
    exact drawn.unused i a live k inPage l inside same.symm

/-- The buffers of a process without holes lie in the entries before the free one. -/
theorem Scanned.apart (scanned : Scanned s.allocations 0 slot least virtAddr) (live : Live s i a)
    (noHole : ∀ j < i, ∀ b, s.allocations[j]? = some b → b.inUse = true) (size : UInt64) :
    Apart a.virtAddr a.size virtAddr size := by
  obtain ⟨vacant, atSlot, notUsed⟩ := scanned.free
  refine .inl (scanned.above i ?_ a live.1)
  by_contra behind
  rcases Nat.lt_or_eq_of_le (Nat.not_lt.mp behind) with later | same
  · rw [noHole slot later vacant atSlot] at notUsed
    exact absurd notUsed (by simp)
  · rw [same, live.1] at atSlot
    rw [← Option.some.inj atSlot, live.2] at notUsed
    exact absurd notUsed (by simp)

theorem alloc_sound (sound : Sound s) (handed : Handed s (.alloc size permitted physAddr taken))
    (modest : Modest s (pid, .alloc size permitted physAddr taken)) :
    Sound (sysDmaAlloc s pid size permitted physAddr taken) := by
  obtain ⟨small, noHole⟩ := modest
  unfold sysDmaAlloc
  split
  · exact sound
  next accepted =>
  simp only [not_or] at accepted
  obtain ⟨few, bytes, rounded⟩ := numPages_toNat accepted.1 accepted.2.1
  obtain ⟨grants, pool⟩ := handed accepted.2.2.2
  have drawn := sound.drawn pool (Buddy.grants_covers grants small)
  have less : (takeRun s.phys (runOf physAddr taken)).free.Sublist s.phys.free :=
    List.filter_sublist
  split
  next space slot virtAddr spaces found =>
    have scanned := sound.scanned found
    obtain ⟨vacant, atSlot, _⟩ := scanned.free
    obtain ⟨inside, _⟩ := List.getElem?_eq_some_iff.mp atSlot
    have small : slot < 64 := by rwa [sound.slots] at inside
    let buffer : DmaAllocation := ⟨physAddr, virtAddr, numPages size * 4096, pid, true⟩
    have pages : buffer.pages = (numPages size).toNat := by
      change (numPages size * 4096).toNat / 4096 = _
      omega
    have placed : Placed slot buffer := by
      have high := scanned.below
      refine ⟨?_, ?_, scanned.aligned, scanned.least, ?_⟩
      · change 0 < (numPages size * 4096).toNat
        omega
      · change (numPages size * 4096).toNat % 4096 = 0
        omega
      · change virtAddr.toNat + (numPages size * 4096).toNat ≤ _
        omega
    have apart (i : Nat) (a : DmaAllocation) (live : Live s i a) (owner : a.ownerViperId = pid) :=
      scanned.apart live (noHole i a live owner) buffer.size
    have writes := mapPages_readAt space virtAddr physAddr protRw
      (takeRun s.phys (runOf physAddr taken)) (numPages size).toNat
    obtain ⟨used, left, _⟩ := mapPages_supplied space virtAddr physAddr protRw
      (takeRun s.phys (runOf physAddr taken)) (numPages size).toNat
    simp only [map, rounded]
    generalize mapPages space virtAddr physAddr protRw _ (numPages size).toNat = result
      at writes left ⊢
    obtain ⟨done, changed, phys⟩ := result
    have fewer : phys.free.Sublist (takeRun s.phys (runOf physAddr taken)).free := by
      rw [left]
      exact List.sublist_append_right _ _
    have same (i : Nat) (a : DmaAllocation) (live : Live s i a) (owner : a.ownerViperId = pid)
        (k : Nat) (inPage : k < a.pages) :
        readAt changed (place (a.virtPage k)) = readAt space (place (a.virtPage k)) :=
      writes.1 _ fun l inNew => placed.place_ne (sound.placed i a live) small
        (sound.index_lt live) (apart i a live owner).symm (pages.symm ▸ inNew) inPage
    have kept := sound.respaced spaces same (fewer.trans less)
    cases done with
    | false => exact drawn.given_back fewer kept
    | true =>
      rw [← pages] at drawn
      refine kept.added placed inside ⟨changed, by simp, fun k inPage => ?_⟩ apart drawn.good
        (fun k inPage member => drawn.out k inPage (fewer.subset member)) drawn.unused
      have entry := writes.2 rfl k (pages ▸ inPage) fun j inNew clash => by
        have := placed.page_inj placed small small (pages.symm ▸ inNew) inPage clash
        omega
      rw [readPte, show buffer.virtPage k = virtAddr + UInt64.ofNat (4096 * k) from rfl, entry]
      have whole := drawn.good k inPage
      exact ⟨makeEntry_valid whole protRw, makeEntry_page whole protRw⟩
  next =>
    refine drawn.given_back (List.Sublist.refl _) { sound with
      nodup := sound.nodup.sublist less
      good := fun page member => sound.good page (less.subset member)
      away := fun i a live k inside member => sound.away i a live k inside (less.subset member) }

theorem free_sound (sound : Sound s) : Sound (sysDmaFree s pid virtAddr) := by
  unfold sysDmaFree
  split
  · exact sound
  next slot found =>
  obtain ⟨inside, hit, _⟩ := List.findIdx?_eq_some_iff_getElem.mp found
  simp only [List.getD_eq_getElem _ _ inside]
  generalize entry : s.allocations[slot] = a at hit
  simp only [held, Bool.and_eq_true, decide_eq_true_eq] at hit
  obtain ⟨⟨inUse, rfl⟩, rfl⟩ := hit
  have live : Live s slot a := ⟨List.getElem?_eq_some_iff.mpr ⟨inside, entry⟩, inUse⟩
  -- the other buffers first, then the address space they are in, then the pages
  have fewer := sound.removed inside (show { a with inUse := false }.inUse = false from rfl)
  obtain ⟨space, spaces, _⟩ := sound.mapped slot a live
  have placed := sound.placed slot a live
  have pages : ((a.size + 4095) / 4096).toNat = a.pages := by
    have whole := placed.whole
    have size := a.size.toNat_lt
    change (a.size.toNat + 4095) % 2 ^ 64 / 4096 = a.size.toNat / 4096
    omega
  have back : (a.size / 4096).toNat = a.pages := rfl
  rw [spaces, Option.map_some, back]
  have respaced := @Sound.respaced _ _ _ (unmap space a.virtAddr a.size) _ fewer spaces
    (fun i b still owner k inPage => by
      obtain ⟨different, old⟩ := live_removed inside rfl still
      refine unmapPages_readAt space a.virtAddr _ _ fun l inOld => ?_
      rw [pages] at inOld
      exact placed.place_ne (sound.placed i b old) (sound.index_lt live) (sound.index_lt old)
        (sound.virt slot i a b live old different.symm owner.symm) inOld inPage)
    (List.Sublist.refl _)
  refine respaced.returned ?_ ?_ ?_ ?_
  · exact run_nodup (sound.whole slot a live)
  · intro page member
    obtain ⟨k, inPage, rfl⟩ := mem_runOf.mp member
    exact sound.whole slot a live k inPage
  · intro page member
    obtain ⟨k, inPage, rfl⟩ := mem_runOf.mp member
    exact sound.away slot a live k inPage
  · intro i b still k inPage member
    obtain ⟨l, inOld, same⟩ := mem_runOf.mp member
    obtain ⟨different, old⟩ := live_removed inside rfl still
    have apart := sound.phys slot i a b live old different.symm
    have equal := congrArg UInt64.toNat same
    rw [DmaAllocation.physPage, run_toNat (sound.whole slot a live) inOld,
      run_toNat (sound.whole i b old) inPage] at equal
    unfold DmaAllocation.pages at inOld inPage
    unfold Apart at apart
    omega

theorem step_sound (before : State) (call : Nat × DmaCall) (after : State) (sound : Sound before)
    (step : Guarded Modest Step before call after) : Sound after := by
  obtain ⟨modest, handed, rfl⟩ := step
  obtain ⟨pid, call⟩ := call
  cases call with
  | alloc size permitted physAddr taken => exact alloc_sound sound handed modest
  | free virtAddr => exact free_sound sound

def Initial (s : State) : Prop :=
  s.allocations.length = maxDmaAllocations ∧ (∀ a ∈ s.allocations, a.inUse = false) ∧
    s.phys.free.Nodup ∧ ∀ page ∈ s.phys.free, Good page

theorem initial_sound (initial : Initial s) : Sound s := by
  obtain ⟨slots, unused, nodup, good⟩ := initial
  have none (i : Nat) (a : DmaAllocation) (live : Live s i a) : False := by
    have free := unused a (List.mem_of_getElem? live.1)
    exact absurd (free.symm.trans live.2) (by simp)
  exact
    { virt := fun i _ a _ live => (none i a live).elim
      phys := fun i _ a _ live => (none i a live).elim
      mapped := fun i a live => (none i a live).elim
      nodup := nodup
      good := good
      whole := fun i a live => (none i a live).elim
      away := fun i a live => (none i a live).elim
      slots := slots
      placed := fun i a live => (none i a live).elim }

theorem buffers_separate {start last : State} {calls : List (Nat × DmaCall)}
    (initial : Initial start) (run : Run (Guarded Modest Step) start calls last) : Separate last :=
  (run_invariant step_sound run (initial_sound initial)).toSeparate

instance (start size other otherSize : UInt64) : Decidable (Apart start size other otherSize) :=
  inferInstanceAs (Decidable (_ ∨ _))

instance (page : UInt64) : Decidable (Good page) := inferInstanceAs (Decidable (_ = _))

def freshState : State where
  allocations := List.replicate 64 ⟨0, 0, 0, 0, false⟩
  spaces pid := if pid = 1 ∨ pid = 2 then some (emptyTable L1 (0x1000 * UInt64.ofNat pid)) else none
  phys := ⟨(List.range 16).map fun i => 0x10000 + UInt64.ofNat (4096 * i), fun _ => zeroFrame,
    ⟨false, 0, 0, fun _ => ⟨0, false⟩⟩, ⟨false, fun _ => false, fun _ => zeroFrame⟩⟩

theorem freshState_initial : Initial freshState := by
  refine ⟨rfl, fun a member => ?_, by decide, List.all_iff_forall_prop.mp (by decide)⟩
  rw [List.eq_of_mem_replicate member]

def performNext (s : State) (call : Nat × DmaCall) : State := perform s call.1 call.2

def handed (s : State) (call : Nat × DmaCall) : Bool :=
  match call.2 with
  | .alloc size _ physAddr taken =>
    (taken = 2 ^ Buddy.pagesToOrder (numPages size).toNat || taken = (numPages size).toNat) &&
      (runOf physAddr taken).all (· ∈ s.phys.free)
  | .free _ => true

theorem handed_step (s : State) (call : Nat × DmaCall) (checked : handed s call = true) :
    Step s call (performNext s call) := by
  obtain ⟨pid, call⟩ := call
  cases call with
  | free => exact ⟨trivial, rfl⟩
  | alloc size permitted physAddr taken =>
    simp only [handed, Bool.and_eq_true, Bool.or_eq_true, decide_eq_true_eq,
      List.all_eq_true] at checked
    exact ⟨fun _ => checked, rfl⟩

def modest (s : State) (call : Nat × DmaCall) : Bool :=
  match call.2 with
  | .alloc size _ _ _ => decide ((numPages size).toNat ≤ 512) &&
    (List.range s.allocations.length).all fun j => (s.allocations[j]?).all fun b =>
      !(b.inUse && b.ownerViperId = call.1) || (s.allocations.take j).all (·.inUse)
  | .free _ => true

theorem modest_step (s : State) (call : Nat × DmaCall)
    (checked : (handed s call && modest s call) = true) :
    Guarded Modest Step s call (performNext s call) := by
  rw [Bool.and_eq_true] at checked
  refine ⟨?_, handed_step s call checked.1⟩
  obtain ⟨pid, call⟩ := call
  cases call with
  | free => trivial
  | alloc size permitted physAddr taken =>
    simp only [modest, Bool.and_eq_true, decide_eq_true_eq, List.all_eq_true,
      List.mem_range] at checked
    refine ⟨checked.2.1, fun j b live owner i before a found => ?_⟩
    obtain ⟨inside, _⟩ := List.getElem?_eq_some_iff.mp live.1
    have earlier := checked.2.2 j inside
    simp only [live.1, Option.all_some, live.2, owner, decide_true, Bool.and_self, Bool.not_true,
      Bool.false_or, List.all_eq_true] at earlier
    refine earlier a (List.mem_of_getElem? (i := i) ?_)
    rw [List.getElem?_take_of_lt before]
    exact found

/-- Two processes have a buffer each, one of them frees its own and asks for a larger one. -/
def bufferCalls : List (Nat × DmaCall) :=
  [(1, .alloc 4096 true 0x18000 1), (2, .alloc 8192 true 0x1A000 2), (2, .free 0x200001000),
    (2, .alloc 12288 true 0x1C000 4)]

theorem larger_buffer_separate : let last := bufferCalls.foldl performNext freshState
    Run (Guarded Modest Step) freshState bufferCalls last ∧
      Live last 0 ⟨0x18000, 0x200000000, 0x1000, 1, true⟩ ∧
      Live last 1 ⟨0x1C000, 0x200001000, 0x3000, 2, true⟩ ∧ Separate last := by
  intro last
  have run : Run (Guarded Modest Step) freshState bufferCalls last :=
    run_admitted modest_step (by decide)
  exact ⟨run, ⟨by decide, rfl⟩, ⟨by decide, rfl⟩, buffers_separate freshState_initial run⟩

/-- The first of two buffers is freed, and a larger one is put in its place. -/
def holeCalls : List (Nat × DmaCall) :=
  [(1, .alloc 4096 true 0x18000 1), (1, .alloc 4096 true 0x19000 1), (1, .free 0x200000000),
    (1, .alloc 8192 true 0x1A000 2)]

theorem freed_entry_reused : Initial freshState ∧
    Run Step freshState holeCalls (holeCalls.foldl performNext freshState) ∧
    ¬ Separate (holeCalls.foldl performNext freshState) := by
  have first : Live (holeCalls.foldl performNext freshState) 0
      ⟨0x1A000, 0x200000000, 0x2000, 1, true⟩ := ⟨by decide, rfl⟩
  have second : Live (holeCalls.foldl performNext freshState) 1
      ⟨0x19000, 0x200001000, 0x1000, 1, true⟩ := ⟨by decide, rfl⟩
  refine ⟨freshState_initial, run_admitted handed_step (by decide), fun separate => ?_⟩
  exact absurd (separate.virt 0 1 _ _ first second (by decide) rfl) (by decide)

end ViperDos.Memory.Dma
