import Mathlib.Data.List.Nodup
import Mathlib.Data.List.Pairwise
import Mathlib.Data.List.Perm.Basic

/-!
Spans of addresses that tile a set of regions: no two of them overlap, and together they
cover exactly the addresses of the regions. Cutting a span and joining two neighbours keep a
tiling, and a new span goes with new addresses of the regions.
-/

namespace ViperDos.Tilings

structure Span where
  start : Nat
  finish : Nat
  deriving DecidableEq

def Covers (s : Span) (x : Nat) : Prop := s.start ≤ x ∧ x < s.finish

def Apart (s t : Span) : Prop := s.finish ≤ t.start ∨ t.finish ≤ s.start

def Within (region s : Span) : Prop := region.start ≤ s.start ∧ s.finish ≤ region.finish

instance (s : Span) (x : Nat) : Decidable (Covers s x) := inferInstanceAs (Decidable (_ ∧ _))

instance (s t : Span) : Decidable (Apart s t) := inferInstanceAs (Decidable (_ ∨ _))

instance (region s : Span) : Decidable (Within region s) := inferInstanceAs (Decidable (_ ∧ _))

def Clear (regions : List Span) : Prop :=
  ∀ r ∈ regions, ∀ t ∈ regions, r = t ∨ r.finish < t.start ∨ t.finish < r.start

structure Tiled (regions spans : List Span) : Prop where
  apart : spans.Pairwise Apart
  solid : ∀ s ∈ spans, s.start < s.finish
  covers : ∀ x, (∃ s ∈ spans, Covers s x) ↔ ∃ r ∈ regions, Covers r x

variable {s t : Span} {regions spans others rest larger : List Span} {start middle finish x : Nat}

theorem apart_symm (apart : Apart s t) : Apart t s := Or.symm apart

instance : Std.Symm Apart := ⟨fun _ _ => apart_symm⟩

theorem tiled_perm (perm : spans.Perm others) (tiled : Tiled regions spans) :
    Tiled regions others where
  apart := tiled.apart.perm perm apart_symm
  solid s member := tiled.solid s (perm.mem_iff.mpr member)
  covers x := by
    rw [← tiled.covers x]
    simp only [perm.mem_iff]

theorem covers_cut (low : start ≤ middle) (high : middle ≤ finish) (x : Nat) :
    Covers ⟨start, finish⟩ x ↔ Covers ⟨start, middle⟩ x ∨ Covers ⟨middle, finish⟩ x := by
  unfold Covers
  dsimp only
  omega

theorem apart_cut (low : start < middle) (high : middle < finish) (solid : t.start < t.finish) :
    Apart ⟨start, finish⟩ t ↔ Apart ⟨start, middle⟩ t ∧ Apart ⟨middle, finish⟩ t := by
  unfold Apart
  dsimp only
  omega

theorem tiled_cut (low : start < middle) (high : middle < finish) :
    Tiled regions (⟨start, finish⟩ :: rest) ↔
      Tiled regions (⟨start, middle⟩ :: ⟨middle, finish⟩ :: rest) := by
  have same : ∀ x, (∃ s ∈ (⟨start, finish⟩ :: rest : List Span), Covers s x) ↔
      ∃ s ∈ (⟨start, middle⟩ :: ⟨middle, finish⟩ :: rest : List Span), Covers s x := by
    intro x
    simp only [List.exists_mem_cons_iff, covers_cut (Nat.le_of_lt low) (Nat.le_of_lt high), or_assoc]
  constructor
  · intro tiled
    have whole := List.pairwise_cons.mp tiled.apart
    have solid : ∀ t ∈ rest, t.start < t.finish := fun t member =>
      tiled.solid t (.tail _ member)
    have parts : ∀ t ∈ rest, Apart ⟨start, middle⟩ t ∧ Apart ⟨middle, finish⟩ t := fun t member =>
      (apart_cut low high (solid t member)).mp (whole.1 t member)
    constructor
    case apart =>
      rw [List.pairwise_cons, List.pairwise_cons]
      refine ⟨?_, fun t member => (parts t member).2, whole.2⟩
      intro t member
      rcases List.mem_cons.mp member with rfl | member
      · exact .inl (Nat.le_refl _)
      · exact (parts t member).1
    case solid =>
      simp only [List.forall_mem_cons]
      exact ⟨low, high, solid⟩
    case covers =>
      intro x
      rw [← tiled.covers x, same]
  · intro tiled
    obtain ⟨first, second, packed⟩ := List.pairwise_cons.mp tiled.apart |>.imp_right
      List.pairwise_cons.mp
    have solid : ∀ t ∈ rest, t.start < t.finish := fun t member =>
      tiled.solid t (.tail _ (.tail _ member))
    constructor
    case apart =>
      rw [List.pairwise_cons]
      refine ⟨?_, packed⟩
      intro t member
      exact (apart_cut low high (solid t member)).mpr ⟨first t (.tail _ member), second t member⟩
    case solid =>
      simp only [List.forall_mem_cons]
      exact ⟨Nat.lt_trans low high, solid⟩
    case covers =>
      intro x
      rw [← tiled.covers x, same]

section

variable (tiled : Tiled regions spans)

include tiled

theorem tiled_grow (solid : s.start < s.finish) (fresh : ∀ r ∈ regions, Apart s r)
    (grown : ∀ x, (∃ r ∈ larger, Covers r x) ↔ Covers s x ∨ ∃ r ∈ regions, Covers r x) :
    Tiled larger (s :: spans) where
  apart := by
    rw [List.pairwise_cons]
    refine ⟨?_, tiled.apart⟩
    intro t member
    -- an address in both would be one of a region
    have positive := tiled.solid t member
    by_contra overlap
    have common : ∃ x, Covers s x ∧ Covers t x := by
      refine ⟨max s.start t.start, ?_⟩
      unfold Apart at overlap
      unfold Covers
      omega
    obtain ⟨x, inNew, inOld⟩ := common
    obtain ⟨r, region, inside⟩ := (tiled.covers x).mp ⟨t, member, inOld⟩
    have apart := fresh r region
    unfold Apart at apart
    unfold Covers at inNew inside
    omega
  solid := List.forall_mem_cons.mpr ⟨solid, tiled.solid⟩
  covers x := by rw [grown x, ← tiled.covers x, List.exists_mem_cons_iff]

theorem starts_nodup : (spans.map Span.start).Nodup := by
  rw [List.Nodup, List.pairwise_map]
  refine List.Pairwise.imp_of_mem ?_ tiled.apart
  intro s t left right apart same
  have first := tiled.solid s left
  have second := tiled.solid t right
  unfold Apart at apart
  omega

theorem covered (member : s ∈ spans) (inside : Covers s x) : ∃ r ∈ regions, Covers r x :=
  (tiled.covers x).mp ⟨s, member, inside⟩

/-- If the regions do not touch, every span lies in one of them. -/
theorem tiled_within (clear : Clear regions) (member : s ∈ spans) : ∃ r ∈ regions, Within r s := by
  have solid := tiled.solid s member
  obtain ⟨r, region, inside⟩ := covered tiled member ⟨Nat.le_refl _, solid⟩
  refine ⟨r, region, inside.1, ?_⟩
  by_contra beyond
  -- the address behind the region would be that of another one, which then touches it
  have behind : Covers s r.finish := by
    unfold Covers at inside ⊢
    omega
  obtain ⟨t, other, holds⟩ := covered tiled member behind
  have apart := clear r region t other
  unfold Covers at inside holds
  rcases apart with rfl | below | above <;> omega

end

end ViperDos.Tilings
