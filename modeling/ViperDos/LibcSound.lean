import ViperDos.LibcCalls
import ViperDos.Transition
import Mathlib.Data.List.Nodup

/-!
The allocator of the C library over whole runs. Whatever a program does with what it
holds, its allocations stay apart and as large as it asked, and `realloc` takes the old
bytes along, as long as no request is so large that its size wraps. The alignment that is
documented does not come with it: a header is 24 bytes, so the blocks lie at multiples of 16
and between them in turn, and only every second block of the heap is aligned.
-/

namespace ViperDos.Libc

open ByteRecords Transition

def Apart (a c : Allocation) : Prop :=
  a.ptr + a.requested ≤ c.ptr ∨ c.ptr + c.requested ≤ a.ptr

instance (a c : Allocation) : Decidable (Apart a c) := inferInstanceAs (Decidable (_ ∨ _))

def Roomy (p : Process) (a : Allocation) : Prop :=
  a.requested ≤ blockSize p.memory (headerOf a.ptr) ∧
    a.ptr + blockSize p.memory (headerOf a.ptr) ≤ p.brk

def target : Call → Option Nat
  | .malloc _ _ => none
  | .calloc _ _ _ => none
  | .realloc _ ptr _ => some ptr
  | .free ptr => some ptr
  | .write ptr _ _ => some ptr

def Preserved (before : World) (call : Call) (result : Nat) (after : World) : Prop :=
  ∀ granted ptr size, call = .realloc granted ptr size → result ≠ 0 →
    ∀ a ∈ before.live, a.ptr = ptr → ∀ i < a.requested, i < size →
      after.process.memory (result + i) = before.process.memory (ptr + i)

structure Meets (before : World) (call : Call) (result : Nat) (after : World) : Prop where
  apart : after.live.Pairwise Apart
  room : ∀ a ∈ after.live, Roomy after.process a
  aligned : 16 ∣ result
  preserved : Preserved before call result after
  others : ∀ a ∈ before.live, some a.ptr ≠ target call → a ∈ after.live ∧
    ∀ i < a.requested, after.process.memory (a.ptr + i) = before.process.memory (a.ptr + i)

/-- A pointer given to a call is null or of an allocation the program holds, and the
program writes inside what it holds. -/
def Legal (w : World) : Call → Prop
  | .malloc _ _ => True
  | .calloc _ _ _ => True
  | .realloc _ ptr _ => ptr = 0 ∨ ∃ a ∈ w.live, a.ptr = ptr
  | .free ptr => ptr = 0 ∨ ∃ a ∈ w.live, a.ptr = ptr
  | .write ptr offset _ => ∃ a ∈ w.live, a.ptr = ptr ∧ offset < a.requested

def requested : Call → Nat
  | .malloc _ size => size
  | .calloc _ nmemb size => nmemb * size
  | .realloc _ _ size => size
  | .free _ => 0
  | .write _ _ _ => 0

def chainLength (p : Process) : Nat := position p.memory (fun _ => false) addresses p.freeList

def firstFit (p : Process) (size : Nat) : Nat :=
  position p.memory (fun block => Fitting p.memory (alignSize size) block) addresses p.freeList

def placeOf (p : Process) (ptr : Nat) : Nat :=
  position p.memory (fun block => block = headerOf ptr) addresses p.freeList

/-- The request gets the second, fourth, ... block of the chain, or nothing. -/
def WellPlaced (p : Process) (granted : Bool) (size : Nat) : Prop :=
  size = 0 ∨ firstFit p size % 2 = 1 ∨
    (firstFit p size = chainLength p ∧
      sbrk p granted ((headerSize + alignSize size) % 2 ^ 64) = none)

def Suits (w : World) : Call → Prop
  | .malloc granted size => WellPlaced w.process granted size
  | .calloc granted nmemb size => WellPlaced w.process granted (nmemb * size)
  | .realloc granted ptr size =>
    if ptr = 0 then WellPlaced w.process granted size
    else size = 0 ∨
      if size ≤ blockSize w.process.memory (headerOf ptr) then placeOf w.process ptr % 2 = 1
      else WellPlaced w.process granted size
  | .free _ => True
  | .write _ _ _ => True

def Holds (base : Nat) (blocks : List Block) (a : Allocation) : Prop :=
  ∃ (place : Nat) (b : Block), blocks[place]? = some b ∧ b.free = false ∧
    a.ptr = addressOf base blocks place + headerSize ∧ a.requested ≤ b.size

structure Kept (base : Nat) (w : World) (blocks : List Block) : Prop where
  arranged : Arranged base w.process blocks
  held : ∀ a ∈ w.live, Holds base blocks a
  once : (w.live.map Allocation.ptr).Nodup

variable {w : World}

variable {blocks blocks' : List Block} {left right base place ptr size i offset nmemb : Nat}
  {b c : Block} {p after : Process} {memory : Bytes} {live : List Allocation} {a : Allocation}
  {call : Call} {value : UInt8}

theorem addressOf_apart (base : Nat) (first : blocks[left]? = some b)
    (second : blocks[right]? = some c) (different : left ≠ right) :
    addressOf base blocks left + headerSize + b.size ≤ addressOf base blocks right ∨
      addressOf base blocks right + headerSize + c.size ≤ addressOf base blocks left := by
  rcases Nat.lt_or_gt_of_ne different with before | behind
  · exact .inl (addressOf_behind base first before)
  · exact .inr (addressOf_behind base second behind)

theorem kept_apart (kept : Kept base w blocks) : w.live.Pairwise Apart := by
  have once : w.live.Pairwise fun a c => a.ptr ≠ c.ptr := List.pairwise_map.mp kept.once
  refine once.imp_of_mem fun {a c} memberA memberC different => ?_
  obtain ⟨left, b, foundB, _, ptrA, roomA⟩ := kept.held a memberA
  obtain ⟨right, d, foundD, _, ptrC, roomC⟩ := kept.held c memberC
  have places : left ≠ right := by
    rintro rfl
    exact different (ptrA.trans ptrC.symm)
  have apart := addressOf_apart base foundB foundD places
  unfold Apart
  omega

/-- The header of an allocation is where `free` and `realloc` look for it. -/
theorem held_header (arranged : Arranged base w.process blocks) (found : blocks[place]? = some b) :
    headerOf (addressOf base blocks place + headerSize) = addressOf base blocks place ∧
      blockSize w.process.memory (addressOf base blocks place) = b.size := by
  have ends := laid_inside arranged.laid found
  have high := arranged.high
  exact ⟨headerOf_payload (by omega), (laid_header arranged.laid found).1⟩

theorem kept_roomy (kept : Kept base w blocks) : ∀ a ∈ w.live, Roomy w.process a := by
  intro a member
  obtain ⟨place, b, found, _, ptr, room⟩ := kept.held a member
  obtain ⟨header, size⟩ := held_header kept.arranged found
  have ends := laid_inside kept.arranged.laid found
  unfold Roomy
  rw [ptr, header, size]
  exact ⟨room, ends⟩

section

variable (arranged : Arranged base p blocks)

include arranged

theorem chainLength_arranged (positive : 0 < base) : chainLength p = blocks.length := by
  unfold chainLength
  rw [arranged.chain]
  refine position_laid arranged.laid positive (few_blocks arranged) (Nat.le_refl _) ?_ ?_
  · intro _ _
    rfl
  · intro beyond
    exact absurd beyond (Nat.lt_irrefl _)

theorem fitting_place (inside : place < blocks.length) (size : Nat) :
    decide (Fitting p.memory size (addressOf base blocks place)) =
      fitting size (blocks.get ⟨place, inside⟩) := by
  obtain ⟨length, free⟩ := laid_header arranged.laid (List.getElem?_eq_getElem inside)
  rw [Bool.eq_iff_iff, decide_eq_true_eq, Fitting, fitting, length, free, List.get_eq_getElem]
  cases blocks[place].free <;> simp [flag]

theorem firstFit_arranged (positive : 0 < base) (size : Nat) :
    firstFit p size = blocks.findIdx (fitting (alignSize size)) := by
  unfold firstFit
  rw [arranged.chain]
  refine position_laid arranged.laid positive (few_blocks arranged) List.findIdx_le_length ?_ ?_
  · intro earlier before
    have inside := Nat.lt_of_lt_of_le before List.findIdx_le_length
    rw [fitting_place arranged inside]
    exact List.not_of_lt_findIdx before
  · intro inside
    rw [fitting_place arranged inside]
    exact List.findIdx_getElem

theorem placeOf_arranged (positive : 0 < base) (found : blocks[place]? = some b) :
    placeOf p (addressOf base blocks place + headerSize) = place := by
  have inside := (List.getElem?_eq_some_iff.mp found).1
  have ends := laid_inside arranged.laid found
  have high := arranged.high
  have bound : headerSize = 24 := rfl
  unfold placeOf
  rw [arranged.chain, headerOf_payload (by omega)]
  refine position_laid arranged.laid positive (few_blocks arranged) (Nat.le_of_lt inside) ?_ ?_
  · intro earlier before
    have behind := addressOf_behind base (List.getElem?_eq_getElem (Nat.lt_trans before inside))
      before
    exact decide_eq_false (by omega)
  · intro _
    exact decide_eq_true rfl

/-- Which blocks are aligned: the headers alternate, so those at odd places. -/
theorem aligned_place (aligned : 16 ∣ base) (inside : place ≤ blocks.length) :
    16 ∣ addressOf base blocks place + headerSize ↔ place % 2 = 1 := by
  have residue := addressOf_residue arranged.laid inside
  have bound : headerSize = 24 := rfl
  omega

end

theorem obtained_payload (live : List Allocation) (block size : Nat) :
    obtained live (block + headerSize) size = ⟨block + headerSize, size⟩ :: live :=
  if_neg (Nat.succ_ne_zero _)

theorem arranged_payload (arranged : Arranged base p blocks) (found : blocks[place]? = some b)
    (same : ∀ x, x < addressOf base blocks place + headerSize ∨
      addressOf base blocks place + headerSize + b.size ≤ x → memory x = p.memory x) :
    Arranged base { p with memory } blocks := by
  constructor
  case laid =>
    refine laid_congr arranged.laid fun other inside x low high => same x ?_
    by_cases less : x < addressOf base blocks place + headerSize
    · exact .inl less
    · refine .inr (Nat.le_of_not_lt fun more => ?_)
      have apart := header_apart found (Nat.le_of_not_lt less) more inside
      omega
  case chain => exact arranged.chain
  case high => exact arranged.high

theorem release_mem : a ∈ release live ptr ↔ a ∈ live ∧ a.ptr ≠ ptr := by
  simp only [release, List.mem_filter, decide_eq_true_eq]

theorem release_once (once : (live.map Allocation.ptr).Nodup) (ptr : Nat) :
    ((release live ptr).map Allocation.ptr).Nodup :=
  once.sublist (List.filter_sublist.map _)

/-- A fresh allocation is aligned if its block is at an odd place. -/
theorem taken_aligned (taken : Taken base p after blocks blocks' size place b)
    (aligned : 16 ∣ base) : 16 ∣ addressOf base blocks' place + headerSize ↔ place % 2 = 1 :=
  aligned_place taken.arranged aligned (Nat.le_of_lt (List.getElem?_eq_some_iff.mp taken.found).1)

/-- What is shown of a call: it returns, the allocations are again blocks of the heap, the
bytes of the others and those `realloc` takes along are as they were, and the result is
aligned if the call suits. -/
def Works (base : Nat) (w : World) (call : Call) : Prop :=
  ∃ result after blocks', perform w call = some (result, after) ∧ Kept base after blocks' ∧
    Preserved w call result after ∧
    (∀ a ∈ w.live, some a.ptr ≠ target call → a ∈ after.live ∧
      ∀ i < a.requested, after.process.memory (a.ptr + i) = w.process.memory (a.ptr + i)) ∧
    (16 ∣ result ↔ Suits w call)

section

variable (kept : Kept base w blocks)

include kept

section

variable (taken : Taken base w.process after blocks blocks' size place b)

include taken

theorem taken_kept :
    Kept base ⟨after, ⟨addressOf base blocks' place + headerSize, size⟩ :: w.live⟩ blocks' := by
  have moved : ∀ a ∈ w.live, ∃ (other : Nat) (c : Block), other ≠ place ∧
      blocks'[other]? = some c ∧ c.free = false ∧
      a.ptr = addressOf base blocks' other + headerSize ∧ a.requested ≤ c.size := by
    intro a member
    obtain ⟨other, c, found, used, ptr, room⟩ := kept.held a member
    obtain ⟨different, still⟩ := taken.others other c found used
    have inside := Nat.le_of_lt (List.getElem?_eq_some_iff.mp found).1
    exact ⟨other, c, different, still, used, by rw [taken.addresses other inside]; exact ptr, room⟩
  constructor
  case arranged => exact taken.arranged
  case held =>
    intro a member
    rcases List.mem_cons.mp member with rfl | old
    · exact ⟨place, b, taken.found, taken.used, rfl, taken.room⟩
    · obtain ⟨other, c, _, rest⟩ := moved a old
      exact ⟨other, c, rest⟩
  case once =>
    refine List.nodup_cons.mpr ⟨?_, kept.once⟩
    intro member
    obtain ⟨a, old, same⟩ := List.mem_map.mp member
    change a.ptr = addressOf base blocks' place + headerSize at same
    obtain ⟨other, c, different, found, _, ptr, _⟩ := moved a old
    have apart := addressOf_apart base found taken.found different
    have bound : headerSize = 24 := rfl
    omega

theorem taken_bytes (member : a ∈ w.live) (inside : i < a.requested) :
    after.memory (a.ptr + i) = w.process.memory (a.ptr + i) := by
  obtain ⟨other, c, found, _, ptr, room⟩ := kept.held a member
  exact taken.bytes other c found _ (by omega) (by omega)

/-- Clearing or copying into a fresh block touches no other allocation. -/
theorem taken_payload (memory : Bytes) (same : ∀ x, x < addressOf base blocks' place + headerSize ∨
      addressOf base blocks' place + headerSize + b.size ≤ x → memory x = after.memory x) :
    Kept base ⟨{ after with memory },
        ⟨addressOf base blocks' place + headerSize, size⟩ :: w.live⟩ blocks' ∧
      ∀ a ∈ w.live, ∀ i < a.requested, memory (a.ptr + i) = w.process.memory (a.ptr + i) := by
  have fresh := taken_kept kept taken
  constructor
  · exact ⟨arranged_payload taken.arranged taken.found same, fresh.held, fresh.once⟩
  intro a member i inside
  obtain ⟨other, c, found, used, ptr, room⟩ := kept.held a member
  obtain ⟨different, still⟩ := taken.others other c found used
  have spot := taken.addresses other (Nat.le_of_lt (List.getElem?_eq_some_iff.mp found).1)
  have apart := addressOf_apart base still taken.found different
  rw [← taken_bytes kept taken member inside]
  exact same _ (by omega)

end

theorem free_kept (member : a ∈ w.live) :
    ∃ blocks', Kept base ⟨free w.process a.ptr, release w.live a.ptr⟩ blocks' ∧
      ∀ c ∈ w.live, ∀ i < c.requested,
        (free w.process a.ptr).memory (c.ptr + i) = w.process.memory (c.ptr + i) := by
  obtain ⟨place, b, found, used, ptr, room⟩ := kept.held a member
  rw [ptr, free_payload kept.arranged found]
  refine ⟨blocks.set place { b with free := true }, ?_, ?_⟩
  · constructor
    case arranged => exact setFree_arranged kept.arranged found true
    case held =>
      intro c remaining
      obtain ⟨old, different⟩ := release_mem.mp remaining
      obtain ⟨other, d, foundD, usedD, ptrC, roomC⟩ := kept.held c old
      have places : place ≠ other := by
        rintro rfl
        exact different ptrC
      refine ⟨other, d, ?_, usedD, ?_, roomC⟩
      · rw [List.getElem?_set_ne places]
        exact foundD
      · rw [addressOf_set place found true other]
        exact ptrC
    case once => exact release_once kept.once _
  · intro c old i inside
    obtain ⟨other, d, foundD, _, ptrC, roomC⟩ := kept.held c old
    exact setFree_bytes foundD (by omega) (by omega) (List.getElem?_eq_some_iff.mp found).1 _ _

/-- `malloc` in a run: nothing changes, or there is a new allocation, and the place of its
block says whether it is aligned. -/
theorem malloc_kept (positive : 0 < base) (small : Small size) (granted : Bool) :
    (malloc w.process granted size = some (0, w.process) ∧ WellPlaced w.process granted size) ∨
    ∃ after blocks' place b,
      malloc w.process granted size = some (addressOf base blocks' place + headerSize, after) ∧
      Taken base w.process after blocks blocks' size place b ∧
      (WellPlaced w.process granted size ↔ place % 2 = 1) := by
  by_cases zero : size = 0
  · subst zero
    exact .inl ⟨rfl, .inl rfl⟩
  have first := firstFit_arranged kept.arranged positive size
  have length := chainLength_arranged kept.arranged positive
  rcases malloc_cases kept.arranged positive small zero granted with failed | found
  · obtain ⟨result, last, refused⟩ := failed
    exact .inl ⟨result, .inr (.inr ⟨by rw [first, last, length], refused⟩)⟩
  obtain ⟨after, blocks', place, b, result, taken, given⟩ := found
  refine .inr ⟨after, blocks', place, b, result, taken, ?_⟩
  unfold WellPlaced
  rw [first, length, ← taken.first]
  unfold Refused at given
  rw [← taken.first] at given
  simp only [zero, given, false_or, or_false]

theorem idle_works (performed : perform w call = some (0, w)) (suits : Suits w call) :
    Works base w call :=
  ⟨0, w, blocks, performed, kept, fun _ _ _ _ failed => absurd rfl failed,
    fun _ member _ => ⟨member, fun _ _ => rfl⟩, iff_of_true (Nat.dvd_zero 16) suits⟩

theorem zero_not_live (member : a ∈ w.live) : a.ptr ≠ 0 := by
  obtain ⟨_, _, _, _, ptr, _⟩ := kept.held a member
  rw [ptr]
  exact Nat.succ_ne_zero _

theorem release_zero : release w.live 0 = w.live := by
  refine List.filter_eq_self.mpr fun a member => ?_
  exact decide_eq_true (zero_not_live kept member)

theorem free_works (legal : Legal w (.free ptr)) : Works base w (.free ptr) := by
  rcases legal with rfl | ⟨a, member, rfl⟩
  · refine idle_works kept ?_ trivial
    rw [perform, release_zero kept]
    rfl
  · obtain ⟨blocks', freed, bytes⟩ := free_kept kept member
    refine ⟨0, _, blocks', rfl, freed, ?_, ?_, ?_⟩
    · intro _ _ _ different
      cases different
    · intro c old different
      exact ⟨release_mem.mpr ⟨old, ne_of_apply_ne some different⟩, bytes c old⟩
    · exact ⟨fun _ => trivial, fun _ => Nat.dvd_zero 16⟩

theorem write_works (legal : Legal w (.write ptr offset value)) :
    Works base w (.write ptr offset value) := by
  obtain ⟨a, member, rfl, inside⟩ := legal
  obtain ⟨place, b, found, used, ptr, room⟩ := kept.held a member
  refine ⟨0, _, blocks, rfl, ?_, ?_, ?_, ?_⟩
  · refine ⟨arranged_payload kept.arranged found fun x outside => ?_, kept.held, kept.once⟩
    exact Function.update_of_ne (by omega) _ _
  · intro _ _ _ different
    cases different
  · intro c old different
    refine ⟨old, fun i small => ?_⟩
    obtain ⟨other, d, foundD, _, ptrC, roomC⟩ := kept.held c old
    have places : place ≠ other := by
      rintro rfl
      exact different (congrArg some (ptrC.trans ptr.symm))
    have far := addressOf_apart base found foundD places
    exact Function.update_of_ne (by omega) _ _
  · exact ⟨fun _ => trivial, fun _ => Nat.dvd_zero 16⟩

theorem realloc_null (granted : Bool) (size : Nat) :
    perform w (.realloc granted 0 size) = perform w (.malloc granted size) := by
  simp only [perform, realloc, if_true, release_zero kept, ite_self]

variable (positive : 0 < base) (aligned : 16 ∣ base)

include positive aligned

theorem malloc_works (granted : Bool) (small : Small size) :
    Works base w (.malloc granted size) := by
  rcases malloc_kept kept positive small granted with ⟨result, placed⟩ | found
  · refine idle_works kept ?_ placed
    rw [perform, result]
    rfl
  · obtain ⟨after, blocks', place, b, result, taken, placed⟩ := found
    refine ⟨addressOf base blocks' place + headerSize, _, blocks', ?_,
      taken_kept kept taken, ?_, ?_, ?_⟩
    · simp only [perform, result, Option.map_some, obtained_payload]
    · intro _ _ _ different
      cases different
    · intro a member _
      exact ⟨.tail _ member, fun i inside => taken_bytes kept taken member inside⟩
    · exact (taken_aligned taken aligned).trans placed.symm

theorem calloc_works (granted : Bool) (small : Small (nmemb * size)) :
    Works base w (.calloc granted nmemb size) := by
  have total : nmemb * size % 2 ^ 64 = nmemb * size := by
    unfold Small at small
    exact Nat.mod_eq_of_lt (by omega)
  rcases malloc_kept kept positive small granted with ⟨result, placed⟩ | found
  · refine idle_works kept ?_ placed
    simp only [perform, calloc, total, result, ne_eq, not_true_eq_false, if_false]
    rfl
  · obtain ⟨after, blocks', place, b, result, taken, placed⟩ := found
    have nonzero : addressOf base blocks' place + headerSize ≠ 0 := Nat.succ_ne_zero _
    have room := taken.room
    obtain ⟨cleared, bytes⟩ := taken_payload kept taken
      (memset after.memory (addressOf base blocks' place + headerSize) 0 (nmemb * size))
      fun x outside => blit_outside _ _ _ (by omega)
    refine ⟨addressOf base blocks' place + headerSize, _, blocks', ?_, cleared, ?_, ?_, ?_⟩
    · simp only [perform, calloc, total, result, ne_eq, nonzero, not_false_eq_true, if_true,
        Option.map_some, obtained_payload]
    · intro _ _ _ different
      cases different
    · intro a member _
      exact ⟨.tail _ member, bytes a member⟩
    · exact (taken_aligned taken aligned).trans placed.symm

theorem realloc_in_place (granted : Bool) (member : a ∈ w.live) (some' : size ≠ 0)
    (enough : size ≤ blockSize w.process.memory (headerOf a.ptr)) :
    Works base w (.realloc granted a.ptr size) := by
  have nonzero := zero_not_live kept member
  obtain ⟨place, b, found, used, ptr, room⟩ := kept.held a member
  obtain ⟨header, stored⟩ := held_header kept.arranged found
  have inside := Nat.le_of_lt (List.getElem?_eq_some_iff.mp found).1
  refine ⟨a.ptr, ⟨w.process, ⟨a.ptr, size⟩ :: release w.live a.ptr⟩, blocks, ?_, ?_, ?_, ?_, ?_⟩
  · simp only [perform, realloc, nonzero, some', enough, obtained, if_false, if_true,
      Option.map_some, false_and]
  · constructor
    case arranged => exact kept.arranged
    case held =>
      intro c current
      rcases List.mem_cons.mp current with rfl | other
      · refine ⟨place, b, found, used, ptr, ?_⟩
        rw [ptr, header, stored] at enough
        exact enough
      · exact kept.held c (release_mem.mp other).1
    case once =>
      refine List.nodup_cons.mpr ⟨?_, release_once kept.once _⟩
      intro again
      obtain ⟨c, current, same⟩ := List.mem_map.mp again
      exact (release_mem.mp current).2 same
  · intro _ _ _ same _ c _ _ i _ _
    cases same
    rfl
  · intro c old different
    exact ⟨.tail _ (release_mem.mpr ⟨old, ne_of_apply_ne some different⟩), fun _ _ => rfl⟩
  have spot : placeOf w.process a.ptr = place := by
    rw [ptr]
    exact placeOf_arranged kept.arranged positive found
  simp only [Suits, nonzero, some', enough, if_false, if_true, false_or, spot]
  rw [ptr]
  exact aligned_place kept.arranged aligned inside

theorem realloc_moves (granted : Bool) (member : a ∈ w.live) (some' : size ≠ 0) (small : Small size)
    (short : ¬ size ≤ blockSize w.process.memory (headerOf a.ptr)) :
    Works base w (.realloc granted a.ptr size) := by
  have nonzero := zero_not_live kept member
  have suits : Suits w (.realloc granted a.ptr size) ↔ WellPlaced w.process granted size := by
    simp only [Suits, nonzero, some', short, if_false, false_or]
  rcases malloc_kept kept positive small granted with ⟨result, placed⟩ | found
  · refine idle_works kept ?_ (suits.mpr placed)
    simp only [perform, realloc, nonzero, some', short, result, obtained, ne_eq,
      not_true_eq_false, not_false_eq_true, and_self, if_false, if_true, Option.map_some]
  · obtain ⟨after, blocks', place, b, result, taken, placed⟩ := found
    obtain ⟨old, c, foundC, usedC, ptr, room⟩ := kept.held a member
    have inside := Nat.le_of_lt (List.getElem?_eq_some_iff.mp foundC).1
    have header : headerOf a.ptr = addressOf base blocks' old := by
      rw [ptr, (held_header kept.arranged foundC).1, taken.addresses old inside]
    have stored : blockSize after.memory (headerOf a.ptr) = c.size := by
      rw [header]
      exact (laid_header taken.arranged.laid (taken.others old c foundC usedC).2).1
    have shorter : c.size < size := by
      rw [ptr, (held_header kept.arranged foundC).1, (held_header kept.arranged foundC).2] at short
      exact Nat.lt_of_not_le short
    have larger := taken.room
    obtain ⟨copied, bytes⟩ := taken_payload kept taken
      (memcpy after.memory (addressOf base blocks' place + headerSize) a.ptr c.size)
      fun x outside => blit_outside _ _ _ (by omega)
    obtain ⟨blocks'', freed, still⟩ := free_kept copied (.tail _ member)
    have fresh : addressOf base blocks' place + headerSize ≠ a.ptr := fun same =>
      (List.nodup_cons.mp copied.once).1 (List.mem_map.mpr ⟨a, member, same.symm⟩)
    have released : release (⟨addressOf base blocks' place + headerSize, size⟩ :: w.live) a.ptr =
        ⟨addressOf base blocks' place + headerSize, size⟩ :: release w.live a.ptr :=
      List.filter_cons_of_pos (decide_eq_true fresh)
    rw [released] at freed
    refine ⟨addressOf base blocks' place + headerSize, _, blocks'', ?_, freed, ?_, ?_, ?_⟩
    · have given : addressOf base blocks' place + headerSize ≠ 0 := Nat.succ_ne_zero _
      simp only [perform, realloc, nonzero, some', short, result, given, stored, obtained_payload,
        ne_eq, not_false_eq_true, false_and, if_false, if_true, Option.map_some]
    · intro _ _ _ same _ d current samePtr i less more
      cases same
      cases List.inj_on_of_nodup_map kept.once current member samePtr
      rw [still _ (.head _) i more, ← taken_bytes kept taken member less]
      refine (blit_inside _ _ _ (Nat.le_add_right _ _) (by omega)).trans ?_
      rw [Nat.add_sub_cancel_left]
    · intro d current different
      refine ⟨.tail _ (release_mem.mpr ⟨current, ne_of_apply_ne some different⟩),
        fun i less => ?_⟩
      rw [← bytes d current i less]
      exact still d (.tail _ current) i less
    · exact (taken_aligned taken aligned).trans (placed.symm.trans suits.symm)

theorem realloc_works (granted : Bool) (small : Small size)
    (legal : Legal w (.realloc granted ptr size)) : Works base w (.realloc granted ptr size) := by
  rcases legal with rfl | ⟨a, member, rfl⟩
  · obtain ⟨result, after, blocks', performed, next, _, others, placed⟩ :=
      malloc_works kept positive aligned granted small
    refine ⟨result, after, blocks', ?_, next, ?_, ?_, placed⟩
    · rw [realloc_null kept]
      exact performed
    · intro _ _ _ same _ a member zero
      cases same
      exact absurd zero (zero_not_live kept member)
    · intro a member _
      exact others a member (by intro missing; cases missing)
  · by_cases zero : size = 0
    · subst zero
      have nonzero := zero_not_live kept member
      obtain ⟨result, after, blocks', performed, next, _, others, _⟩ :=
        free_works kept (.inr ⟨a, member, rfl⟩)
      cases performed
      refine ⟨0, _, blocks', ?_, next, ?_, others, ?_⟩
      · simp only [perform, realloc, nonzero, obtained, ne_eq, not_true_eq_false, and_false,
          if_false, if_true, Option.map_some]
      · intro _ _ _ _ failed
        exact absurd rfl failed
      · simp only [Suits, nonzero, true_or, if_false, iff_true]
        exact Nat.dvd_zero 16
    · by_cases enough : size ≤ blockSize w.process.memory (headerOf a.ptr)
      · exact realloc_in_place kept positive aligned granted member zero enough
      · exact realloc_moves kept positive aligned granted member zero small enough

theorem call_works (legal : Legal w call) (small : Small (requested call)) : Works base w call := by
  cases call with
  | malloc granted size => exact malloc_works kept positive aligned granted small
  | calloc granted nmemb size => exact calloc_works kept positive aligned granted small
  | realloc granted ptr size => exact realloc_works kept positive aligned granted small legal
  | free ptr => exact free_works kept legal
  | write ptr offset value => exact write_works kept legal

end

def fresh (base : Nat) (memory : Bytes) : World := ⟨⟨memory, base, 0⟩, []⟩

theorem fresh_kept (below : base < 2 ^ 64) (memory : Bytes) : Kept base (fresh base memory) [] :=
  ⟨⟨rfl, rfl, below⟩, fun _ member => absurd member List.not_mem_nil, List.nodup_nil⟩

def Calls (w : World) (step : Call × Nat) (after : World) : Prop :=
  Legal w step.1 ∧ Small (requested step.1) ∧ perform w step.1 = some (step.2, after)

/-- After any calls whose requests are at most 2^63 - 32 bytes, such a call returns, and it
meets what the allocator promises if and only if the block it returns is at an odd place of
the chain, counted from zero. Only the alignment depends on the place. -/
theorem allocator_sound_iff (positive : 0 < base) (below : base < 2 ^ 64)
    (aligned : 16 ∣ base) (memory : Bytes) {steps : List (Call × Nat)} {w : World}
    (run : Run Calls (fresh base memory) steps w) {call : Call} (legal : Legal w call)
    (small : Small (requested call)) :
    ∃ result after, perform w call = some (result, after) ∧
      (Meets w call result after ↔ Suits w call) ∧
      after.live.Pairwise Apart ∧ (∀ a ∈ after.live, Roomy after.process a) ∧
      Preserved w call result after := by
  have preserves : ∀ before step after, (∃ blocks, Kept base before blocks) →
      Calls before step after → ∃ blocks, Kept base after blocks := by
    rintro before step after ⟨blocks, kept⟩ ⟨allowed, fits, performed⟩
    obtain ⟨_, _, blocks', same, next, _⟩ := call_works kept positive aligned allowed fits
    rw [performed] at same
    cases same
    exact ⟨blocks', next⟩
  obtain ⟨blocks, kept⟩ := run_invariant preserves run ⟨[], fresh_kept below memory⟩
  obtain ⟨result, after, blocks', performed, next, preserved, others, placed⟩ :=
    call_works kept positive aligned legal small
  have apart := kept_apart next
  have room := kept_roomy next
  refine ⟨result, after, performed, ?_, apart, room, preserved⟩
  constructor
  · intro meets
    exact placed.mp meets.aligned
  · intro suits
    exact ⟨apart, room, placed.mpr suits, preserved, others⟩

def started : World := fresh 0x100000000 fun _ => 0

def firstHeld : World := ((perform started (.malloc true 1)).map Prod.snd).getD started

theorem firstHeld_reached :
    Run Calls (fresh 0x100000000 fun _ => 0) [(.malloc true 1, 0x100000018)] firstHeld :=
  Run.next ⟨trivial, by decide, rfl⟩ (Run.refl _)

/-- The second block of the heap is aligned. -/
theorem second_block_meets : Suits firstHeld (.malloc true 100) ∧
    ∃ result after, perform firstHeld (.malloc true 100) = some (result, after) ∧
      (Meets firstHeld (.malloc true 100) result after ↔ Suits firstHeld (.malloc true 100)) ∧
      after.live.Pairwise Apart ∧ (∀ a ∈ after.live, Roomy after.process a) ∧
      Preserved firstHeld (.malloc true 100) result after :=
  ⟨.inr (.inl (by decide)),
    allocator_sound_iff (by decide) (by decide) (by decide) (fun _ => 0) firstHeld_reached
      trivial (by decide)⟩

/-- The first block of the heap is not aligned, a request of all but one byte of the address
space gets a block of none, one of all but 32 bytes lowers the break, and an array whose size
wraps gets a block that is too small. -/
theorem first_block_misaligned :
    (∃ result after, perform started (.malloc true 1) = some (result, after) ∧
      ¬ Meets started (.malloc true 1) result after) ∧
    (∃ result after, perform started (.malloc true (2 ^ 64 - 1)) = some (result, after) ∧
      ¬ Meets started (.malloc true (2 ^ 64 - 1)) result after) ∧
    (∃ result after, perform firstHeld (.malloc true (2 ^ 64 - 32)) = some (result, after) ∧
      ¬ Meets firstHeld (.malloc true (2 ^ 64 - 32)) result after) ∧
    ∃ result after, perform started (.calloc true (2 ^ 32 + 1) (2 ^ 32)) = some (result, after) ∧
      ¬ Meets started (.calloc true (2 ^ 32 + 1) (2 ^ 32)) result after := by
  refine ⟨⟨_, _, rfl, fun meets => ?_⟩, ⟨_, _, rfl, fun meets => ?_⟩, ⟨_, _, rfl, fun meets => ?_⟩,
    ⟨_, _, rfl, fun meets => ?_⟩⟩
  · exact absurd meets.aligned (by decide)
  · exact absurd (meets.room _ (.head _)).1 (by decide)
  · exact absurd (meets.room _ (.head _)).2 (by decide)
  · exact absurd (meets.room _ (.head _)).1 (by decide)

end ViperDos.Libc
