import ViperDos.Buddy
import ViperDos.HeapSteps
import ViperDos.Transition

/-!
The table of the heap's regions beside the pages that were obtained for the heap. Pages that
begin at `heap_end` are added to the last region of the table, which need not be the one that
ends there: a region elsewhere leaves `heap_end` as it is. `pmm::alloc_pages` takes a block of
its buddy allocator or a run of its bitmap from the free pages; a block has at most 512 pages,
also when more were asked for.
-/

namespace ViperDos.KHeap

open Tilings Transition

structure Claimed where
  heap : Heap
  obtained : List Span
  free : List Nat

/-- An answer of 0 stands for no pages; otherwise it is the first of `taken` pages. -/
structure Expansion where
  needed : Nat
  answer : Nat
  taken : Nat

def runOf (answer taken : Nat) : List Nat := (List.range taken).map (answer + · * pageSize)

def Expansion.pages (e : Expansion) : Span :=
  ⟨e.answer, e.answer + min (pagesNeeded e.needed) e.taken * pageSize⟩

def Claimed.init (headers : Nat → BlockHeader) (answer : Nat) (free : List Nat) : Claimed :=
  ⟨Heap.init headers fun _ => answer, if answer = 0 then [] else [⟨answer, answer + 16 * pageSize⟩],
    if answer = 0 then free else free.filter (· ∉ runOf answer 16)⟩

def Claimed.expand (s : Claimed) (e : Expansion) : Claimed :=
  match s.heap.expandHeap (fun _ => e.answer) e.needed with
  | (true, heap) => ⟨heap, e.pages :: s.obtained, s.free.filter (· ∉ runOf e.answer e.taken)⟩
  | (false, heap) => ⟨heap, s.obtained, s.free⟩

def Answers (free : List Nat) (count answer taken : Nat) : Prop :=
  answer ≠ 0 → 0 < count ∧ Buddy.Grants count taken ∧ ∀ page ∈ runOf answer taken, page ∈ free

def Expands (before : Claimed) (e : Expansion) (after : Claimed) : Prop :=
  Answers before.free (pagesNeeded e.needed) e.answer e.taken ∧ after = before.expand e

/-- The request fits a block, and pages at the end of the heap follow the last region. -/
def Follows (s : Claimed) (e : Expansion) : Prop :=
  pagesNeeded e.needed ≤ 512 ∧
    (e.answer = s.heap.heapEnd → ∃ rest last, s.heap.regions = rest ++ [last] ∧ last.finish = e.answer)

structure Recorded (s : Claimed) : Prop where
  apart : s.heap.regions.Pairwise Apart
  union : ∀ addr, (∃ r ∈ s.heap.regions, Covers r addr) ↔ ∃ span ∈ s.obtained, Covers span addr
  isInHeap : ∀ addr, s.heap.isInHeap addr = true ↔ ∃ span ∈ s.obtained, Covers span addr

variable {s : Claimed} {answer taken page count : Nat} {span : Span} {free : List Nat}
  {e : Expansion}

theorem recorded_of_tiled (tiled : Tiled s.obtained s.heap.regions) : Recorded s where
  apart := tiled.apart
  union := tiled.covers
  isInHeap addr := by
    rw [← tiled.covers addr]
    unfold Heap.isInHeap
    simp only [List.any_eq_true, decide_eq_true_eq]

structure Exact (s : Claimed) : Prop where
  tiled : Tiled s.obtained s.heap.regions
  aligned : ∀ page ∈ s.free, pageSize ∣ page
  whole : ∀ span ∈ s.obtained, pageSize ∣ span.start ∧ span.start < span.finish
  unclaimed : ∀ page ∈ s.free, ∀ span ∈ s.obtained, ¬ Covers span page

theorem mem_runOf : page ∈ runOf answer taken ↔ ∃ i < taken, answer + i * pageSize = page := by
  simp only [runOf, List.mem_map, List.mem_range]

theorem covers_run (aligned : pageSize ∣ answer) (whole : pageSize ∣ page) (few : count ≤ taken)
    (inside : Covers ⟨answer, answer + count * pageSize⟩ page) : page ∈ runOf answer taken := by
  obtain ⟨low, high⟩ := inside
  obtain ⟨i, offset⟩ := (Nat.dvd_sub whole aligned : pageSize ∣ page - answer)
  refine mem_runOf.mpr ⟨i, ?_, ?_⟩
  · have below : pageSize * i < pageSize * count := by
      rw [← offset, Nat.mul_comm pageSize count]
      dsimp only at low high
      omega
    exact Nat.lt_of_lt_of_le (Nat.lt_of_mul_lt_mul_left below) few
  · rw [Nat.mul_comm, ← offset]
    exact Nat.add_sub_of_le low

/-- Pages that overlap a span share a page with it: the first one of either. -/
theorem apart_of_free (aligned : pageSize ∣ answer) (whole : pageSize ∣ span.start)
    (few : count ≤ taken) (solid : span.start < span.finish) (some : 0 < count)
    (unclaimed : ∀ page ∈ runOf answer taken, ¬ Covers span page) :
    Apart ⟨answer, answer + count * pageSize⟩ span := by
  by_contra touching
  obtain ⟨left, right⟩ := not_or.mp touching
  dsimp only at left right
  have positive : 0 < count * pageSize := Nat.mul_pos some (by decide)
  rcases Nat.le_total answer span.start with before | behind
  · exact unclaimed span.start (covers_run aligned whole few ⟨before, by dsimp only; omega⟩)
      ⟨Nat.le_refl _, solid⟩
  · exact unclaimed answer (covers_run aligned aligned few ⟨Nat.le_refl _, by dsimp only; omega⟩)
      ⟨behind, by omega⟩

theorem init_exact (headers : Nat → BlockHeader) (aligned : ∀ page ∈ free, pageSize ∣ page)
    (answered : Answers free 16 answer 16) : Exact (Claimed.init headers answer free) := by
  unfold Claimed.init Heap.init
  dsimp only
  split
  · exact ⟨⟨.nil, fun _ => List.not_mem_nil.elim, fun _ => Iff.rfl⟩, aligned,
      fun _ => List.not_mem_nil.elim, fun _ _ _ => List.not_mem_nil.elim⟩
  next nonzero =>
  have start : pageSize ∣ answer :=
    aligned _ ((answered nonzero).2.2 _ (mem_runOf.mpr ⟨0, by decide, by simp⟩))
  refine ⟨⟨List.pairwise_singleton .., ?_, fun _ => Iff.rfl⟩,
    fun page member => aligned page (List.mem_of_mem_filter member), ?_, ?_⟩
  · intro span member
    rw [List.mem_singleton.mp member]
    exact Nat.lt_add_of_pos_right (by decide)
  · intro span member
    rw [List.mem_singleton.mp member]
    exact ⟨start, Nat.lt_add_of_pos_right (by decide)⟩
  · intro page member span only inside
    rw [List.mem_singleton.mp only] at inside
    obtain ⟨unused, outside⟩ := List.mem_filter.mp member
    exact of_decide_eq_true outside (covers_run start (aligned page unused) (Nat.le_refl _) inside)

/-- An expansion that succeeds: the pages it obtained are no longer free. -/
theorem exact_grow {heap : Heap} (sound : Exact s) (start : pageSize ∣ e.answer)
    (some : 0 < pagesNeeded e.needed) (enough : pagesNeeded e.needed ≤ e.taken)
    (tiled : Tiled (e.pages :: s.obtained) heap.regions) :
    Exact ⟨heap, e.pages :: s.obtained, s.free.filter (· ∉ runOf e.answer e.taken)⟩ where
  tiled := tiled
  aligned page member := sound.aligned page (List.mem_of_mem_filter member)
  whole := by
    refine List.forall_mem_cons.mpr ⟨⟨start, ?_⟩, sound.whole⟩
    exact Nat.lt_add_of_pos_right (Nat.mul_pos (lt_min some (some.trans_le enough)) (by decide))
  unclaimed page member := by
    obtain ⟨unused, outside⟩ := List.mem_filter.mp member
    refine List.forall_mem_cons.mpr ⟨fun inside => ?_, sound.unclaimed page unused⟩
    exact of_decide_eq_true outside
      (covers_run start (sound.aligned page unused) (Nat.min_le_right ..) inside)

theorem expand_exact (sound : Exact s) (follows : Follows s e)
    (answered : Answers s.free (pagesNeeded e.needed) e.answer e.taken) : Exact (s.expand e) := by
  -- a request of at most 512 pages gets them all
  have enough : e.answer ≠ 0 → pagesNeeded e.needed ≤ e.taken := fun nonzero =>
    Buddy.grants_covers (answered nonzero).2.1 follows.1
  have start : e.answer ≠ 0 → pageSize ∣ e.answer := fun nonzero =>
    sound.aligned _ ((answered nonzero).2.2 _ (mem_runOf.mpr
      ⟨0, (answered nonzero).1.trans_le (enough nonzero), by simp⟩))
  have pages : e.answer ≠ 0 →
      e.pages = ⟨e.answer, e.answer + pagesNeeded e.needed * pageSize⟩ := fun nonzero => by
    rw [Expansion.pages, Nat.min_eq_left (enough nonzero)]
  have grown : e.answer ≠ 0 → Tiled (e.pages :: s.obtained) (e.pages :: s.heap.regions) := by
    intro nonzero
    obtain ⟨some, -, free⟩ := answered nonzero
    have solid := Nat.lt_add_of_pos_right (n := e.answer) (Nat.mul_pos some (show 0 < pageSize by decide))
    rw [pages nonzero]
    refine tiled_grow sound.tiled solid (fun span member => ?_) fun x => List.exists_mem_cons_iff ..
    obtain ⟨whole, nonempty⟩ := sound.whole span member
    exact apart_of_free (start nonzero) whole (enough nonzero) nonempty some
      fun page taken => sound.unclaimed page (free page taken) span member
  unfold Claimed.expand Heap.expandHeap
  dsimp only
  split_ifs with large none atEnd full
  · exact sound
  · exact sound
  · refine exact_grow sound (start none) (answered none).1 (enough none) ?_
    -- the last region and the new pages are joined
    obtain ⟨rest, last, regions, finish⟩ := follows.2 atEnd
    have low : last.start < e.answer := finish ▸ sound.tiled.solid last (by simp [regions])
    have moved : (e.pages :: s.heap.regions).Perm (⟨last.start, e.answer⟩ :: e.pages :: rest) := by
      rw [regions, ← finish]
      exact ((List.perm_append_singleton last rest).cons e.pages).trans (List.Perm.swap ..)
    have apart := tiled_perm moved (grown none)
    rw [pages none] at apart
    have high : e.answer < e.answer + pagesNeeded e.needed * pageSize := apart.solid _ (.tail _ (.head _))
    have joined := (tiled_cut low high).mpr apart
    rw [pages none]
    change Tiled _ (extendLast _ s.heap.regions)
    rw [← atEnd, regions, extendLast_append]
    exact tiled_perm (List.perm_append_singleton ..).symm joined
  · exact sound
  · refine exact_grow sound (start none) (answered none).1 (enough none) ?_
    change Tiled _ (s.heap.regions ++ [_])
    rw [← pages none]
    exact tiled_perm (List.perm_append_singleton ..).symm (grown none)

/-- As long as the requests fit a block and pages at the end of the heap follow the last region,
the table is sound. -/
theorem regions_recorded {headers : Nat → BlockHeader}
    {calls : List Expansion} {s : Claimed} (aligned : ∀ page ∈ free, pageSize ∣ page)
    (answered : Answers free 16 answer 16)
    (run : Run (Guarded Follows Expands) (Claimed.init headers answer free) calls s) : Recorded s := by
  have kept : ∀ before e after, Exact before → Guarded Follows Expands before e after →
      Exact after := by
    rintro before e after sound ⟨follows, answered, rfl⟩
    exact expand_exact sound follows answered
  exact recorded_of_tiled (run_invariant kept run (init_exact headers aligned answered)).tiled

def freePages : List Nat := runOf 0x100000 20 ++ runOf 0x200000 8

def started : Claimed := Claimed.init (fun _ => ⟨0, 0⟩) 0x100000 freePages

/-- The heap grows at its end and elsewhere, where a block of four pages is taken for three. -/
theorem two_expansions_recorded :
    let first := ⟨4096, 0x110000, 1⟩; let second := ⟨12000, 0x200000, 4⟩
    Recorded ((started.expand first).expand second) ∧
      ((started.expand first).expand second).heap.regions =
        [⟨0x100000, 0x111000⟩, ⟨0x200000, 0x203000⟩] := by
  have first : Guarded Follows Expands started ⟨4096, 0x110000, 1⟩ _ :=
    ⟨⟨by decide, fun _ => ⟨[], ⟨0x100000, 0x110000⟩, rfl, rfl⟩⟩, fun _ => by decide, rfl⟩
  have second : Guarded Follows Expands (started.expand ⟨4096, 0x110000, 1⟩) ⟨12000, 0x200000, 4⟩ _ :=
    ⟨⟨by decide, fun same => absurd same (by decide)⟩, fun _ => by decide, rfl⟩
  exact ⟨regions_recorded (by decide) (fun _ => by decide) (.next first (.next second (.refl _))),
    by decide⟩

/-- The heap grows elsewhere and then at its end: the other region loses its pages. -/
theorem region_lost :
    Run Expands started [⟨4096, 0x200000, 1⟩, ⟨4096, 0x110000, 1⟩]
        ((started.expand ⟨4096, 0x200000, 1⟩).expand ⟨4096, 0x110000, 1⟩) ∧
      ¬ Recorded ((started.expand ⟨4096, 0x200000, 1⟩).expand ⟨4096, 0x110000, 1⟩) := by
  have first : Expands started ⟨4096, 0x200000, 1⟩ _ := ⟨fun _ => by decide, rfl⟩
  have second : Expands (started.expand ⟨4096, 0x200000, 1⟩) ⟨4096, 0x110000, 1⟩ _ :=
    ⟨fun _ => by decide, rfl⟩
  refine ⟨.next first (.next second (.refl _)), fun recorded => ?_⟩
  have missing := (recorded.isInHeap 0x200000).not.mp (by decide)
  exact missing ⟨⟨0x200000, 0x201000⟩, by decide, by decide⟩

end ViperDos.KHeap
