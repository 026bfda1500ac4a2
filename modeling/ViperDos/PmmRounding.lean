import ViperDos.PageLedger
import ViperDos.Pmm

/-!
When the pages of an allocation come back as they were. The buddy allocator hands out a
whole order and gets back the pages that were asked for, so the two have to be the same; the
bitmap always gets back what it gave.
-/

namespace ViperDos.Buddy

open BuddyAllocator PowerBlocks Pmm Function

variable {order target page p count word total start runLength startPage i runStart left found : Nat}
  {x cpu addr rounds high ramStart kernelEnd ramSize base : Nat} {before middle after : Pmm}
  {rest : BuddyAllocator}

theorem orderFrom_pow (steps : Nat) (low : order ≤ target) (high : target ≤ order + steps) :
    orderFrom (2 ^ target) order steps = target := by
  induction steps generalizing order with
  | zero => exact Nat.le_antisymm low high
  | succ steps ih =>
    unfold orderFrom
    split
    next less =>
      have lt : order < target := (Nat.pow_lt_pow_iff_right (by decide)).mp less
      exact ih lt (by omega)
    next reached =>
      have ge : target ≤ order := (Nat.pow_le_pow_iff_right (by decide)).mp (Nat.not_lt.mp reached)
      exact Nat.le_antisymm low ge

theorem pagesToOrder_pow (inside : order < maxOrder) : pagesToOrder (2 ^ order) = order := by
  unfold pagesToOrder
  split
  next single =>
    have zero : ¬ 0 < order := by
      intro positive
      have larger := Nat.one_lt_two_pow (Nat.pos_iff_ne_zero.mp positive)
      omega
    omega
  · exact orderFrom_pow _ (Nat.zero_le _) (by unfold maxOrder at *; omega)

def SameButBits (before after : Pmm) : Prop :=
  after = { before with
    used := after.used, freeCount := after.freeCount, nextFreeHint := after.nextFreeHint }

theorem sameButBits_trans (first : SameButBits before middle) (second : SameButBits middle after) :
    SameButBits before after := by
  unfold SameButBits at *
  rw [second, first]

structure TakesBits (before : Pmm) (page count : Nat) (after : Pmm) : Prop where
  inside : page + count ≤ before.totalPages
  clear : ∀ p, page ≤ p → p < page + count → before.used p = false
  same : SameButBits before after
  bits : ∀ p, after.used p = (decide (page ≤ p ∧ p < page + count) || before.used p)

section Bitmap

variable {pmm : Pmm}

theorem no_page : ¬ (page ≤ p ∧ p < page) := by omega

theorem next_pages (other : p ≠ page) : decide (page + 1 ≤ p ∧ p < page + 1 + count) =
    decide (page ≤ p ∧ p < page + (count + 1)) :=
  decide_eq_decide.mpr (by omega)

theorem setBits_used (pmm : Pmm) (page count p : Nat) :
    (pmm.setBits page count).used p = (decide (page ≤ p ∧ p < page + count) || pmm.used p) := by
  induction count generalizing pmm page with
  | zero => simp [setBits, no_page]
  | succ count ih =>
    unfold setBits
    rw [ih]
    by_cases here : p = page
    · simp [setBit, here]
    · rw [next_pages here]
      simp [setBit, here]

theorem setBits_same (pmm : Pmm) (page count : Nat) : SameButBits pmm (pmm.setBits page count) := by
  induction count generalizing pmm page with
  | zero => rfl
  | succ count ih =>
    have first : SameButBits pmm (pmm.setBit page) := rfl
    have later := ih (pmm.setBit page) (page + 1)
    exact sameButBits_trans first later

theorem scanWord_some (found : pmm.scanWord word = some page) :
    page < pmm.totalPages ∧ pmm.used page = false := by
  have chosen := List.find?_some found
  simpa using chosen

theorem takeBit_cases (pmm : Pmm) :
    pmm.takeBit = (0, pmm) ∨ ∃ page, pmm.takeBit.1 = pmm.pageToAddr page ∧
      TakesBits pmm page 1 pmm.takeBit.2 := by
  unfold takeBit
  dsimp only
  split
  · exact .inl rfl
  next word page found =>
  right
  obtain ⟨i, _, scanned⟩ := List.exists_of_findSome?_eq_some found
  obtain ⟨other, hit, pair⟩ := Option.map_eq_some_iff.mp scanned
  cases pair
  obtain ⟨inside, clear⟩ := scanWord_some hit
  refine ⟨page, rfl, inside, ?_, rfl, ?_⟩
  · intro p low high
    have only : p = page := by omega
    rw [only, clear]
  intro p
  by_cases here : p = page
  · simp [setBit, here]
  · have apart : ¬ (page ≤ p ∧ p < page + 1) := by omega
    rw [decide_eq_false apart]
    simp [setBit, here]

structure RunSoFar (pmm : Pmm) (startPage i runStart runLength : Nat) : Prop where
  inside : runStart + runLength ≤ pmm.totalPages
  clear : ∀ p, runStart ≤ p → p < runStart + runLength → pmm.used p = false
  last : 0 < runLength → ∃ before, i = before + 1 ∧
    (startPage + before) % pmm.totalPages + 1 = runStart + runLength

theorem next_page {before : Nat} (positive : 0 < total)
    (nonzero : (start + (before + 1)) % total ≠ 0) :
    (start + (before + 1)) % total = (start + before) % total + 1 := by
  have bound := Nat.mod_lt (start + before) positive
  rw [← Nat.add_assoc, Nat.add_mod] at nonzero ⊢
  by_cases single : total = 1
  · subst single
    simp [Nat.mod_one] at nonzero
  have one : 1 % total = 1 := Nat.mod_eq_of_lt (by omega)
  rw [one] at nonzero ⊢
  by_cases wraps : (start + before) % total + 1 = total
  · rw [wraps, Nat.mod_self] at nonzero
    exact absurd rfl nonzero
  · exact Nat.mod_eq_of_lt (by omega)

/-- The run that is found does not go around the end, as the first page is never free. -/
theorem findRun_some (first : pmm.used 0 = true) (total : 0 < pmm.totalPages)
    (short : runLength < count) (soFar : RunSoFar pmm startPage i runStart runLength)
    (run : pmm.findRun count startPage i runStart runLength left = some found) :
    found + count ≤ pmm.totalPages ∧ ∀ p, found ≤ p → p < found + count → pmm.used p = false := by
  induction left generalizing i runStart runLength with
  | zero => cases run
  | succ left ih =>
    unfold findRun at run
    dsimp only at run
    split at run
    next occupied =>
      refine ih (by omega) ?_ run
      exact ⟨by have := soFar.inside; omega, fun p low high => absurd high (by omega),
        fun some => absurd some (by omega)⟩
    next clear =>
    rw [Bool.not_eq_true] at clear
    have bound := Nat.mod_lt (startPage + i) total
    have nonzero : (startPage + i) % pmm.totalPages ≠ 0 := by
      intro zero
      rw [zero, first] at clear
      cases clear
    -- the page extends the run, or begins one
    have extended : RunSoFar pmm startPage (i + 1)
        (if runLength = 0 then (startPage + i) % pmm.totalPages else runStart)
        (runLength + 1) ∧
        (startPage + i) % pmm.totalPages + 1 =
          (if runLength = 0 then (startPage + i) % pmm.totalPages else runStart) +
            (runLength + 1) := by
      by_cases empty : runLength = 0
      · rw [if_pos empty, empty]
        refine ⟨⟨by omega, ?_, fun _ => ⟨i, rfl, rfl⟩⟩, rfl⟩
        intro p low high
        have only : p = (startPage + i) % pmm.totalPages := by omega
        rw [only, clear]
      · rw [if_neg empty]
        obtain ⟨before, rfl, last⟩ := soFar.last (by omega)
        have next := next_page total nonzero
        refine ⟨⟨by omega, ?_, fun _ => ⟨before + 1, rfl, by omega⟩⟩, by omega⟩
        intro p low high
        by_cases end_ : p = runStart + runLength
        · rw [end_, ← last, ← next, clear]
        · exact soFar.clear p low (by omega)
    obtain ⟨soFar', ends⟩ := extended
    split at run
    next complete =>
      cases run
      rw [← complete]
      exact ⟨soFar'.inside, soFar'.clear⟩
    next more => exact ih (by omega) soFar' run

theorem takeRun_cases (first : pmm.used 0 = true) (some : 0 < count) :
    pmm.takeRun count = (0, pmm) ∨ ∃ page, (pmm.takeRun count).1 = pmm.pageToAddr page ∧
      TakesBits pmm page count (pmm.takeRun count).2 := by
  unfold takeRun
  dsimp only
  split
  · exact .inl rfl
  next page found =>
  right
  have total : 0 < pmm.totalPages := by
    by_contra none
    have zero : pmm.totalPages = 0 := by omega
    rw [zero] at found
    cases found
  obtain ⟨inside, clear⟩ := findRun_some first total some
    ⟨by omega, fun p low high => absurd high (by omega), fun some => absurd some (by omega)⟩ found
  refine ⟨page, rfl, inside, clear, ?_, setBits_used pmm page count⟩
  have same := setBits_same pmm page count
  unfold SameButBits at same ⊢
  rw [same]

theorem addrToPage_pageToAddr (pmm : Pmm) (page : Nat) :
    pmm.addrToPage (pmm.pageToAddr page) = page := by
  unfold addrToPage pageToAddr pageSize
  omega

theorem freePageUnlocked_used (whole : pmm.pageToAddr pmm.totalPages ≤ pmm.memEnd)
    (inside : page < pmm.totalPages) (taken : pmm.used page = true) :
    (pmm.freePageUnlocked (pmm.pageToAddr page)).used = update pmm.used page false ∧
      SameButBits pmm (pmm.freePageUnlocked (pmm.pageToAddr page)) := by
  have range : ¬ (pmm.pageToAddr page < pmm.memStart ∨ pmm.memEnd ≤ pmm.pageToAddr page) := by
    unfold pageToAddr pageSize at *
    omega
  unfold freePageUnlocked
  rw [if_neg range, addrToPage_pageToAddr, if_neg (by simp [taken])]
  exact ⟨rfl, rfl⟩

theorem freeBits_used (whole : pmm.pageToAddr pmm.totalPages ≤ pmm.memEnd)
    (inside : page + count ≤ pmm.totalPages)
    (taken : ∀ p, page ≤ p → p < page + count → pmm.used p = true) :
    (∀ p, (pmm.freeBits (pmm.pageToAddr page) count).used p =
      (!decide (page ≤ p ∧ p < page + count) && pmm.used p)) ∧
      SameButBits pmm (pmm.freeBits (pmm.pageToAddr page) count) := by
  induction count generalizing pmm page with
  | zero => exact ⟨fun p => by simp [freeBits, no_page], rfl⟩
  | succ count ih =>
    obtain ⟨bits, same⟩ := freePageUnlocked_used whole (by omega)
      (taken page (Nat.le_refl _) (by omega))
    have next : pmm.pageToAddr page + pageSize =
        (pmm.freePageUnlocked (pmm.pageToAddr page)).pageToAddr (page + 1) := by
      rw [same]
      unfold pageToAddr
      rw [Nat.mul_succ, Nat.add_assoc]
    unfold freeBits
    rw [next]
    have total : (pmm.freePageUnlocked (pmm.pageToAddr page)).totalPages = pmm.totalPages := by
      rw [same]
    obtain ⟨later, laterSame⟩ := @ih (page + 1) (pmm.freePageUnlocked (pmm.pageToAddr page))
      (by rw [same]; exact whole) (by omega) (by
        intro p low high
        rw [bits, update_of_ne (by omega)]
        exact taken p (by omega) (by omega))
    constructor
    · intro p
      rw [later, bits]
      by_cases here : p = page
      · simp [here]
      · rw [next_pages here, update_of_ne here]
    · exact sameButBits_trans same laterSame

end Bitmap

section Conservation

variable {pmm : Pmm}

/-- Neither allocator counts the memory of the other as free. -/
theorem held_not_bitFree (sound : SoundPmm pmm) (available : pmm.buddyAvailable = true)
    (above : pmm.buddyRegionStart ≤ x) : ¬ BitFree pmm x := by
  rintro ⟨low, high, clear⟩
  have inside : pmm.addrToPage x < pmm.totalPages := by
    unfold addrToPage pageToAddr pageSize at *
    omega
  have ends := sound.before available _ inside clear
  unfold addrToPage pageToAddr pageSize at *
  omega

theorem held_above (sound : SoundPmm pmm) (available : pmm.buddyAvailable = true)
    (held : Held pmm.buddy x) : pmm.buddyRegionStart ≤ x := by
  obtain ⟨kept, _, start, _⟩ := sound.buddy available
  obtain ⟨b, member, covers⟩ := held
  have bound := (kept.packed.within b member).1
  exact start.trans (bound.trans covers.1)

theorem sound_of_bits (sound : SoundPmm pmm) (same : SameButBits pmm after)
    (bits : ∀ p, pmm.used p = true → after.used p = true) : SoundPmm after := by
  unfold SameButBits at same
  generalize after.used = used, after.freeCount = freeCount, after.nextFreeHint = hint
    at same bits
  subst same
  refine ⟨sound.buddy, fun available page inside clear => ?_, bits 0 sound.first, sound.whole⟩
  refine sound.before available page inside ?_
  by_contra taken
  cases clear.symm.trans (bits page (by simpa using taken))

theorem isFree_same (same : SameButBits pmm after) (bits : after.used = pmm.used) :
    IsFree after x ↔ IsFree pmm x := by
  rw [same]
  unfold IsFree BitFree addrToPage pageToAddr
  rw [bits]

theorem bits_conserved (sound : SoundPmm pmm) (taken : TakesBits pmm page count after)
    (some : 0 < count) (returning : Nat) :
    (∀ x, pmm.pageToAddr page ≤ x → x < pmm.pageToAddr page + pageSize * count →
        IsFree pmm x ∧ ¬ IsFree after x) ∧
      (∀ x, IsFree (after.freePages returning (pmm.pageToAddr page) count) x ↔ IsFree pmm x) ∧
      SoundPmm (after.freePages returning (pmm.pageToAddr page) count) := by
  have sameBuddy : after.buddyAvailable = pmm.buddyAvailable ∧ after.buddy = pmm.buddy := by
    rw [taken.same]
    exact ⟨rfl, rfl⟩
  constructor
  · intro x low high
    have inRange : page ≤ pmm.addrToPage x ∧ pmm.addrToPage x < page + count := by
      unfold addrToPage pageToAddr pageSize at *
      omega
    have clear := taken.clear _ inRange.1 inRange.2
    have inside := taken.inside
    have free : BitFree pmm x := by
      refine ⟨?_, ?_, clear⟩ <;> (unfold addrToPage pageToAddr pageSize at *; omega)
    refine ⟨.inr free, ?_⟩
    rintro (⟨available, held⟩ | ⟨_, _, bit⟩)
    · rw [sameBuddy.1] at available
      rw [sameBuddy.2] at held
      exact held_not_bitFree sound available (held_above sound available held) free
    · have index : after.addrToPage x = pmm.addrToPage x := by rw [taken.same]; rfl
      rw [index, taken.bits] at bit
      simp [inRange] at bit
  · -- the pages go back to the bitmap
    have outside : after.inBuddyRegion (pmm.pageToAddr page) = false := by
      by_contra region
      rw [Bool.not_eq_false] at region
      unfold inBuddyRegion at region
      simp only [Bool.and_eq_true, decide_eq_true_eq] at region
      obtain ⟨⟨available, low⟩, _⟩ := region
      rw [sameBuddy.1] at available
      have start : after.buddyRegionStart = pmm.buddyRegionStart := by rw [taken.same]
      have inside := taken.inside
      have ends := sound.before available page (by omega) (taken.clear page (Nat.le_refl _) (by omega))
      unfold pageToAddr pageSize at *
      omega
    have place : after.pageToAddr = pmm.pageToAddr := by rw [taken.same]; rfl
    have total : after.totalPages = pmm.totalPages := by rw [taken.same]
    have finish : after.memEnd = pmm.memEnd := by rw [taken.same]
    obtain ⟨bits, same⟩ := @freeBits_used page count after
      (by rw [place, total, finish]; exact sound.whole) (by rw [total]; exact taken.inside) (by
        intro p low high
        rw [taken.bits]
        simp [low, high])
    have restored : (after.freeBits (pmm.pageToAddr page) count).used = pmm.used := by
      funext p
      rw [← place, bits, taken.bits]
      by_cases inRange : page ≤ p ∧ p < page + count
      · simp [inRange, taken.clear p inRange.1 inRange.2]
      · simp [inRange]
    unfold Pmm.freePages
    rw [if_neg (by simp [outside])]
    rw [place] at same
    have whole := sameButBits_trans taken.same same
    exact ⟨fun x => isFree_same whole restored, sound_of_bits sound whole fun p set => by
      rwa [restored]⟩

theorem pagesToOrder_zero (some : count ≠ 0) (zero : pagesToOrder count = 0) : count = 1 := by
  unfold pagesToOrder at zero
  split at zero
  · omega
  next several =>
  have first : orderFrom count 0 (maxOrder - 1) = orderFrom count 1 8 :=
    if_pos (show 2 ^ 0 < count by omega)
  have bound := orderFrom_bounds count 1 8
  omega

def bitmapPart (pmm : Pmm) (count : Nat) : Nat × Pmm :=
  if count = 1 then pmm.takeBit else pmm.takeRun count

theorem bitmapPart_cases (sound : SoundPmm pmm) (some : count ≠ 0) :
    bitmapPart pmm count = (0, pmm) ∨ ∃ page, (bitmapPart pmm count).1 = pmm.pageToAddr page ∧
        TakesBits pmm page count (bitmapPart pmm count).2 := by
  unfold bitmapPart
  split
  next single =>
    subst single
    exact takeBit_cases pmm
  · exact takeRun_cases sound.first (Nat.pos_of_ne_zero some)

theorem allocPages_unavailable (some : count ≠ 0) (missing : pmm.buddyAvailable = false)
    (cpu : Nat) : pmm.allocPages cpu count = bitmapPart pmm count := by
  unfold Pmm.allocPages allocPage bitmapPart
  rw [if_neg some, missing]
  rfl

theorem allocPages_available (some : count ≠ 0) (available : pmm.buddyAvailable = true)
    (result : pmm.buddy.allocPages cpu (pagesToOrder count) = (addr, rest)) :
    pmm.allocPages cpu count = if addr = 0 then bitmapPart { pmm with buddy := rest } count
      else (addr, { pmm with buddy := rest }) := by
  unfold Pmm.allocPages allocPage bitmapPart
  rw [if_neg some]
  by_cases single : count = 1
  · subst single
    have zero : pmm.buddy.allocPages cpu 0 = (addr, rest) := result
    rw [if_pos rfl, if_pos rfl, if_pos available, zero]
    cases addr <;> rfl
  · rw [if_neg single, if_neg single, if_pos available, result]
    cases addr <;> rfl

theorem allocPages_cases (sound : SoundPmm pmm) (some : count ≠ 0) (cpu : Nat) :
    (pmm.buddyAvailable = true ∧ (count = 1 ∨ Stocked pmm.buddy (pagesToOrder count)) ∧
        ∃ addr rest, addr ≠ 0 ∧ TakesOut pmm.buddy ⟨addr, pagesToOrder count⟩ rest ∧
          Counted rest ∧ pmm.allocPages cpu count = (addr, { pmm with buddy := rest })) ∨
      ((pmm.buddyAvailable = false ∨ ¬ Stocked pmm.buddy (pagesToOrder count)) ∧
        pmm.allocPages cpu count = bitmapPart pmm count) := by
  rcases Bool.eq_false_or_eq_true pmm.buddyAvailable with available | missing
  · obtain ⟨kept, counted, _⟩ := sound.buddy available
    rcases allocPages_takesOut kept counted (pagesToOrder_lt count) cpu with
      ⟨nothing, empty⟩ | ⟨stocked, nonzero, taken⟩
    · refine .inr ⟨.inr empty, ?_⟩
      rw [allocPages_available some available nothing, if_pos rfl]
    left
    have whole := allocPages_available some available (Prod.mk.eta.symm :
      pmm.buddy.allocPages cpu (pagesToOrder count) = (_, _))
    rw [if_neg nonzero] at whole
    exact ⟨available, stocked.imp_left (pagesToOrder_zero some), _, _, nonzero, taken,
      allocPages_counted counted _ _, whole⟩
  · exact .inr ⟨.inl missing, allocPages_unavailable some missing cpu⟩

/-- What the buddy allocator hands out, and what it holds when some of the pages are back. -/
theorem block_held {buddy : BuddyAllocator} (sound : SoundPmm pmm)
    (available : pmm.buddyAvailable = true) (taken : TakesOut pmm.buddy ⟨addr, order⟩ buddy)
    (counted : Counted buddy) :
    (∀ x, IsFree pmm x ↔ Covers pageShift ⟨addr, order⟩ x ∨ IsFree { pmm with buddy } x) ∧
      (∀ x, Covers pageShift ⟨addr, order⟩ x → ¬ IsFree { pmm with buddy } x) ∧
      SoundPmm { pmm with buddy } ∧ ∀ count ≤ 2 ^ order, ∀ returning,
        (∀ x, IsFree (Pmm.freePages { pmm with buddy } returning addr count) x ↔
          (addr ≤ x ∧ x < addr + pageSize * count) ∨ IsFree { pmm with buddy } x) ∧
        SoundPmm (Pmm.freePages { pmm with buddy } returning addr count) := by
  obtain ⟨kept, _, start, finish⟩ := sound.buddy available
  have packed := takesOut_packed kept taken
  obtain ⟨aligned, within, apart, _⟩ := packed_cons.mp packed
  obtain ⟨lowSame, highSame, ready⟩ := taken.region
  have held : ∀ x, Held pmm.buddy x ↔ Covers pageShift ⟨addr, order⟩ x ∨ Held buddy x :=
    takesOut_held taken
  have positive : 0 < buddy.memStart := lowSame ▸ kept.positive
  have stays : ∀ {buddy : BuddyAllocator}, Kept buddy → Counted buddy →
      buddy.memStart = pmm.buddy.memStart ∧ buddy.memEnd = pmm.buddy.memEnd →
      SoundPmm { pmm with buddy } := fun kept counted ⟨low, high⟩ =>
    { sound with buddy := fun _ => ⟨kept, counted, low ▸ start, high ▸ finish⟩ }
  refine ⟨?_, ?_, stays ⟨ready.trans kept.initialized, positive,
    packed_sublist (List.sublist_cons_self ..) packed⟩ counted ⟨lowSame, highSame⟩, ?_⟩
  · intro x
    unfold IsFree BitFree addrToPage pageToAddr
    rw [held]
    simp only [available, true_and, or_assoc]
  · rintro x covered (⟨_, b, member, other⟩ | bit)
    · exact apart_iff_covers.mp (apart b member) x covered other
    · have above := covered.1
      have low := within.1
      exact held_not_bitFree sound available (by dsimp only at above low; omega) bit
  · intro count le returning
    have region : Pmm.inBuddyRegion { pmm with buddy } addr = true := by
      have positive := size_pos pageShift order
      unfold Within at within
      unfold inBuddyRegion
      simp only [available, Bool.true_and, Bool.and_eq_true, decide_eq_true_eq]
      dsimp only at within
      omega
    have parts : Packed pageShift buddy.memStart buddy.memEnd
        (units pageShift addr count ++ (buddy.freeBlocks ++ buddy.cachedBlocks)) := by
      have cut := ((recut_units aligned _).packed buddy.memStart buddy.memEnd []).mp
        (by rw [List.append_nil]; exact packed)
      rw [List.append_nil] at cut
      exact packed_sublist ((units_sublist le).append_right _) cut
    obtain ⟨⟨low, high, returned⟩, back⟩ :=
      freeEach_held (ready.trans kept.initialized) parts returning
    unfold Pmm.freePages
    rw [if_pos region]
    refine ⟨fun x => ?_, stays (returned positive) (freeEach_counted counted _ _ _)
      ⟨low.trans lowSame, high.trans highSame⟩⟩
    unfold IsFree BitFree addrToPage pageToAddr
    rw [back]
    simp only [available, true_and, or_assoc]

/-- The pages of every successful request are its own and come back when it is returned
exactly if the number of pages is that of an order, or the request falls to the bitmap. -/
theorem pages_conserved_iff_exact (sound : SoundPmm pmm) (cpu returning count : Nat) :
    Conserves pmm cpu returning count ↔ Exact pmm count := by
  unfold Conserves Exact
  by_cases zero : count = 0
  · subst zero
    exact iff_of_true (fun served => absurd rfl served) (.inl rfl)
  rcases allocPages_cases sound zero cpu with
    ⟨available, stocked, addr, rest, nonzero, taken, counted, result⟩ | ⟨unserved, result⟩
  · rw [result]
    obtain ⟨before, apart, -, after⟩ := block_held sound available taken counted
    have double : size pageShift (pagesToOrder count) = pageSize * 2 ^ pagesToOrder count :=
      Nat.pow_add ..
    have pages : ∀ n m, n < m → pageSize * n < pageSize * m := fun n m less =>
      Nat.mul_lt_mul_of_pos_left less (by decide)
    constructor
    · intro conserves
      obtain ⟨own, back⟩ := conserves nonzero
      right
      left
      refine ⟨pagesToOrder count, pagesToOrder_lt count, ?_⟩
      rcases Nat.lt_trichotomy count (2 ^ pagesToOrder count) with fewer | same | more
      · -- the page behind the last one that was asked for does not come back
        have inside : Covers pageShift ⟨addr, pagesToOrder count⟩ (addr + pageSize * count) := by
          have less := pages _ _ fewer
          unfold Covers
          dsimp only
          omega
        have returned := (back _).mpr ((before _).mpr (.inl inside))
        rcases ((after count fewer.le returning).1 _).mp returned with range | kept
        · omega
        · exact absurd kept (apart _ inside)
      · exact same
      -- the page behind the block was not taken
      have less := pages _ _ more
      obtain ⟨free, taken⟩ := own (addr + pageSize * 2 ^ pagesToOrder count) (by omega) (by omega)
      rcases (before _).mp free with inside | kept
      · unfold Covers at inside
        dsimp only at inside
        omega
      · exact absurd kept taken
    · intro exact_ _
      have same : count = 2 ^ pagesToOrder count := by
        rcases exact_ with none | ⟨order, inside, power⟩ | missing | empty
        · exact absurd none zero
        · rw [power, pagesToOrder_pow inside]
        · rw [available] at missing
          cases missing
        · rw [stocked.resolve_right empty]
          rfl
      have range : ∀ x, Covers pageShift ⟨addr, pagesToOrder count⟩ x ↔
          addr ≤ x ∧ x < addr + pageSize * count := by
        intro x
        unfold Covers
        rw [double, ← same]
      constructor
      · intro x low high
        have inside := (range x).mpr ⟨low, high⟩
        exact ⟨(before x).mpr (.inl inside), apart x inside⟩
      · intro x
        rw [(after count same.le returning).1 x, before x, range x]
  · rw [result]
    refine iff_of_true (fun served => ?_) (.inr (.inr unserved))
    rcases bitmapPart_cases sound zero with failed | ⟨page, base, taken⟩
    · rw [failed] at served
      exact absurd rfl served
    · rw [base]
      have ⟨own, back, _⟩ := bits_conserved sound taken (Nat.pos_of_ne_zero zero) returning
      exact ⟨own, back⟩

/-- The memory manager stays sound when pages are allocated, and when those that a request was
for are returned. -/
theorem allocPages_sound (sound : SoundPmm pmm) (cpu returning count : Nat) :
    SoundPmm (pmm.allocPages cpu count).2 ∧
      ((pmm.allocPages cpu count).1 ≠ 0 → count ≤ 2 ^ pagesToOrder count →
        SoundPmm ((pmm.allocPages cpu count).2.freePages returning
          (pmm.allocPages cpu count).1 count)) := by
  by_cases zero : count = 0
  · subst zero
    exact ⟨sound, fun served => absurd rfl served⟩
  rcases allocPages_cases sound zero cpu with
    ⟨available, _, addr, rest, _, taken, counted, result⟩ | ⟨_, result⟩
  · rw [result]
    obtain ⟨_, _, less, back⟩ := block_held sound available taken counted
    exact ⟨less, fun _ fits => (back count fits returning).2⟩
  · rw [result]
    rcases bitmapPart_cases sound zero with failed | ⟨page, base, taken⟩
    · rw [failed]
      exact ⟨sound, fun served => absurd rfl served⟩
    · rw [base]
      exact ⟨sound_of_bits sound taken.same fun p set => by simp [taken.bits, set], fun _ _ =>
        (bits_conserved sound taken (Nat.pos_of_ne_zero zero) returning).2.2⟩

end Conservation

section Init

variable {allocator : BuddyAllocator}

theorem addBlocks_counted (counted : Counted allocator)
    (addr rounds : Nat) : Counted (allocator.addBlocks addr rounds) := by
  induction rounds generalizing allocator addr with
  | zero => exact counted
  | succ rounds ih =>
    unfold addBlocks
    split
    · apply ih
      exact addToFreeList_counted counted _ _
    · exact counted

theorem le_pageAlignUp (roomy : addr + pageSize ≤ 2 ^ 64) : addr ≤ pageAlignUp addr := by
  unfold pageAlignUp pageSize at *
  omega

/-- The buddy allocator after `init` on memory that is all free. -/
theorem init_kept {after : BuddyAllocator} {memStart memEnd : Nat}
    (empty : ∀ cpu, allocator.cache cpu = [])
    (started : allocator.init memStart memEnd memStart = (true, after)) (some : 0 < memStart)
    (less : memStart < memEnd) (roomy : memEnd + 2 ^ 21 ≤ 2 ^ 64) :
    Kept after ∧ Counted after ∧ memStart ≤ after.memStart ∧ after.memEnd ≤ memEnd := by
  have separate := init_separate empty started (Nat.le_refl _) roomy
  unfold Separate Ledger.blocks at separate
  rw [List.append_nil] at separate
  obtain ⟨blank, rounds, start, finish, areas, -, result⟩ := init_blank started
  obtain ⟨low, high⟩ := sameButLists_bounds (addBlocks_same blank (pageAlignUp memStart) rounds)
  have lower : after.memStart = pageAlignUp memStart := by rw [result]; exact low.trans start
  have upper : after.memEnd = pageAlignDown memEnd := by rw [result]; exact high.trans finish
  have below : pageAlignDown memEnd ≤ memEnd := Nat.div_mul_le_self ..
  have aligned : memStart ≤ pageAlignUp memStart := le_pageAlignUp (by unfold pageSize; omega)
  have counted : Counted blank := by
    intro order _
    rw [areas]
    rfl
  have kept : Kept after := ⟨by rw [result], by omega, separate⟩
  refine ⟨kept, ?_, by omega, by omega⟩
  rw [result]
  exact addBlocks_counted counted _ _

theorem clearPages_same (pmm : Pmm) (addr rounds : Nat) :
    SameButBits pmm (pmm.clearPages addr rounds) := by
  induction rounds generalizing pmm addr with
  | zero => rfl
  | succ rounds ih =>
    unfold clearPages
    dsimp only
    split
    · have first : SameButBits pmm { pmm with
          used := update pmm.used (pmm.addrToPage addr) false
          freeCount := pmm.freeCount + 1 } := rfl
      exact sameButBits_trans first (ih _ _)
    · exact ih _ _

/-- A page that the loop frees is that of an address before the framebuffer. -/
theorem clearPages_used {pmm : Pmm} (below : pageSize * rounds < high - addr + pageSize)
    (clear : (pmm.clearPages addr rounds).used page = false) :
    pmm.used page = false ∨ ∃ x, addr ≤ x ∧ x < high ∧ page = pmm.addrToPage x := by
  induction rounds generalizing pmm addr with
  | zero => exact .inl clear
  | succ rounds ih =>
    have here : addr < high := by
      rw [Nat.mul_succ] at below
      omega
    have later : pageSize * rounds < high - (addr + pageSize) + pageSize := by
      unfold pageSize at *
      omega
    unfold clearPages at clear
    dsimp only at clear
    split at clear
    · rcases ih later clear with earlier | ⟨x, above, inside, eq⟩
      · by_cases same : page = pmm.addrToPage addr
        · exact .inr ⟨addr, Nat.le_refl _, here, same⟩
        · left
          simpa [same] using earlier
      · exact .inr ⟨x, by omega, inside, eq⟩
    · rcases ih later clear with earlier | ⟨x, above, inside, eq⟩
      · exact .inl earlier
      · exact .inr ⟨x, by omega, inside, eq⟩

theorem initBuddyRegion_cases (pmm : Pmm) (fbEnd : Nat) :
    (∃ allocator, pmm.initBuddyRegion fbEnd = { pmm with buddy := allocator }) ∨
    ∃ allocator, fbEnd < pmm.memEnd ∧ pmm.buddy.init fbEnd pmm.memEnd fbEnd = (true, allocator) ∧
      pmm.initBuddyRegion fbEnd = { pmm with
        buddyAvailable := true
        buddyRegionStart := fbEnd
        buddyRegionEnd := pmm.memEnd
        buddy := allocator } := by
  unfold initBuddyRegion
  split
  · exact .inl ⟨_, rfl⟩
  next less =>
    split
    · exact .inl ⟨_, rfl⟩
    next started => exact .inr ⟨_, Nat.not_le.mp less, started, rfl⟩

theorem usable_above (kernel : ramStart + pageSize ≤ kernelEnd)
    (roomy : kernelEnd + ramSize + 2 ^ 21 ≤ 2 ^ 64) :
    ramStart + pageSize ≤
      pageAlignUp (pageAlignUp kernelEnd + (ramSize / pageSize + 63) / 64 * 8) := by
  unfold pageAlignUp pageSize at *
  omega

/-- After `init`, with the kernel in the first page and a framebuffer of a page or more, the
memory manager is sound. -/
theorem init_sound {size : Nat} (empty : ∀ cpu, allocator.cache cpu = [])
    (kernel : ramStart + pageSize ≤ kernelEnd) (wide : size = 0 ∨ pageSize ≤ size)
    (roomy : kernelEnd + ramSize + 2 ^ 21 ≤ 2 ^ 64) :
    SoundPmm (Pmm.init allocator ramStart ramSize kernelEnd base size) := by
  have usable := usable_above kernel roomy
  have covering : pageSize ≤ if size ≠ 0 then size else fbSize := by
    split
    · omega
    · decide
  unfold Pmm.init
  dsimp only
  generalize pageAlignUp (pageAlignUp kernelEnd + (ramSize / pageSize + 63) / 64 * 8) =
    usableStart at *
  generalize (if base ≠ 0 then base else fbBase) = fbStart
  have behind := Nat.add_le_add_left covering fbStart
  generalize fbStart + (if size ≠ 0 then size else fbSize) = fbEnd at *
  generalize bare : (⟨false, ramStart, ramStart + ramSize, ramSize / pageSize, 0, 0, 0,
    fun _ => true, (ramSize / pageSize + 63) / 64, 0, allocator⟩ : Pmm) = pmm
  have below : pageSize * ((fbStart - usableStart + (pageSize - 1)) / pageSize) <
      fbStart - usableStart + pageSize := by
    unfold pageSize
    omega
  have same := clearPages_same (pmm.initBuddyRegion fbEnd) usableStart
    ((fbStart - usableStart + (pageSize - 1)) / pageSize)
  have clear := fun page => @clearPages_used page usableStart _ _ (pmm.initBuddyRegion fbEnd) below
  generalize (pmm.initBuddyRegion fbEnd).clearPages usableStart
    ((fbStart - usableStart + (pageSize - 1)) / pageSize) = final at *
  have region := initBuddyRegion_cases pmm fbEnd
  have start : final.memStart = ramStart ∧ final.totalPages = ramSize / pageSize ∧
      final.memEnd = ramStart + ramSize := by
    rcases region with ⟨_, eq⟩ | ⟨_, _, _, eq⟩ <;> rw [same, eq, ← bare] <;> exact ⟨rfl, rfl, rfl⟩
  have freed : ∀ page, final.used page = false →
      ∃ x, usableStart ≤ x ∧ x < fbStart ∧ page = (x - ramStart) / pageSize := by
    intro page free
    have earlier := clear page free
    rcases region with ⟨_, eq⟩ | ⟨_, _, _, eq⟩ <;> rw [eq, ← bare] at earlier
      <;> exact earlier.resolve_left (by intro taken; cases taken)
  constructor
  case buddy =>
    intro available
    rcases region with ⟨_, eq⟩ | ⟨allocator, less, started, eq⟩
    · rw [same, eq, ← bare] at available
      cases available
    have positive : 0 < fbEnd := Nat.lt_of_lt_of_le (by decide) (Nat.le_of_add_left_le behind)
    have fits : ramStart + ramSize + 2 ^ 21 ≤ 2 ^ 64 := by omega
    rw [same, eq]
    rw [← bare] at started less ⊢
    exact init_kept empty started positive less fits
  case before =>
    intro available page _ free
    obtain ⟨x, above, low, rfl⟩ := freed page free
    rcases region with ⟨_, eq⟩ | ⟨allocator, less, started, eq⟩
    · rw [same, eq, ← bare] at available
      cases available
    have regionStart : final.buddyRegionStart = fbEnd := by rw [same, eq]
    have whole := Nat.mul_div_le (x - ramStart) pageSize
    unfold pageToAddr
    rw [regionStart, start.1, Nat.mul_succ]
    omega
  case first =>
    rw [← Bool.not_eq_false]
    intro free
    obtain ⟨x, above, -, zero⟩ := freed 0 free
    have later := (Nat.div_eq_zero_iff_lt (by decide)).mp zero.symm
    omega
  case whole =>
    unfold pageToAddr
    rw [start.1, start.2.1, start.2.2]
    unfold pageSize
    omega

end Init

/-- Sixteen pages: the kernel, the bitmap, four pages on the bitmap, a framebuffer of two and
eight in the buddy allocator. -/
def sixteenPages : Pmm := Pmm.init bareAllocator 0x40000000 0x10000 0x40001000 0x40006000 0x2000

theorem sixteenPages_sound : SoundPmm sixteenPages :=
  init_sound (fun _ => rfl) (by decide) (by decide) (by decide)

/-- Two pages are an order. -/
theorem two_pages_conserved : (sixteenPages.allocPages 0 2).1 = 0x4000e000 ∧
    Exact sixteenPages 2 ∧ Conserves sixteenPages 0 1 2 := by
  have exact_ : Exact sixteenPages 2 := .inr (.inl ⟨1, by decide, rfl⟩)
  exact ⟨by decide, exact_, (pages_conserved_iff_exact sixteenPages_sound 0 1 2).mpr exact_⟩

def threeReturned : Pmm :=
  (sixteenPages.allocPages 0 3).2.freePages 0 (sixteenPages.allocPages 0 3).1 3

/-- Three pages are taken out as a block of four and only three come back. -/
theorem fourth_page_lost : SoundPmm sixteenPages ∧ ¬ Conserves sixteenPages 0 0 3 := by
  have given : (sixteenPages.allocPages 0 3).1 = 0x4000c000 := by decide
  have before : (⟨0x40008000, 3⟩ : Block) ∈ sixteenPages.buddy.freeBlocks := by decide
  have covered : Covers pageShift ⟨0x40008000, 3⟩ 0x4000f000 := ⟨by decide, by decide⟩
  have after : ∀ b ∈ threeReturned.buddy.freeBlocks ++ threeReturned.buddy.cachedBlocks,
      b.addr + blockSize b.order ≤ 0x4000f000 := by decide
  have bit : threeReturned.used (threeReturned.addrToPage 0x4000f000) = true := by decide
  refine ⟨sixteenPages_sound, ?_⟩
  intro conserves
  have back := (conserves (by rw [given]; decide)).2 0x4000f000
  rcases back.mpr (.inl ⟨rfl, _, List.mem_append_left _ before, covered⟩) with held | free
  · obtain ⟨-, b, member, -, high⟩ := held
    exact absurd high (Nat.not_lt.mpr (after b member))
  · exact Bool.noConfusion (bit.symm.trans free.2.2)

end ViperDos.Buddy
