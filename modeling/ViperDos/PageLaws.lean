import ViperDos.MapCalls
import ViperDos.RawReads

/-!
The laws of `map`, `unmap` and `translate`, for whole pages of a 48-bit address space above the
kernel's two gigabytes. `translate` takes the block descriptors of those for tables, so for
their addresses it returns whatever the memory behind them makes it find.
-/

namespace ViperDos.Memory

def Usable (va : UInt64) : Prop := 2 ^ 31 ≤ va.toNat ∧ va.toNat < 2 ^ 48

instance (va : UInt64) : Decidable (Usable va) := inferInstanceAs (Decidable (_ ∧ _))

def InSpan (start length va : UInt64) : Prop :=
  start.toNat ≤ va.toNat ∧ va.toNat < start.toNat + length.toNat

instance (start length va : UInt64) : Decidable (InSpan start length va) :=
  inferInstanceAs (Decidable (_ ∧ _))

structure Paged (first size : UInt64) : Prop where
  start : first.toNat % 4096 = 0
  length : size.toNat % 4096 = 0
  bound : first.toNat + size.toNat ≤ 2 ^ 48

def Treelike (roots : Nat → Option UInt64) (memory : RawMemory) : Prop :=
  ∃ kind, Laid roots kind memory ∧ Single kind memory

variable {i pid : Nat} {p va root : UInt64} {roots : Nat → Option UInt64} {protFlags : UInt32}
  {after : RawMemory}

section

variable {memory : RawMemory} {v n : UInt64}

theorem Paged.count (whole : Paged v n) : ((n + 4095) / 4096).toNat = n.toNat / 4096 := by
  obtain ⟨_, length, bound⟩ := whole
  change (n.toNat + 4095) % 2 ^ 64 / 4096 = _
  omega

theorem Paged.page_toNat (whole : Paged v n) (inside : i < n.toNat / 4096) :
    (v + UInt64.ofNat (4096 * i)).toNat = v.toNat + 4096 * i :=
  Memory.page_toNat (by have := whole.bound; omega) inside

theorem Paged.good (whole : Paged p n) (inside : i < n.toNat / 4096) :
    Good (p + UInt64.ofNat (4096 * i)) := by
  have number := whole.page_toNat inside
  obtain ⟨start, _, bound⟩ := whole
  apply UInt64.toNat_inj.mp
  exact (pageOf_toNat _).trans (by omega)

/-- The places of the pages are those of the addresses in the range. -/
theorem Paged.place_iff (whole : Paged v n) (usable : Usable va) :
    (∃ i < n.toNat / 4096, place (v + UInt64.ofNat (4096 * i)) = place va) ↔ InSpan v n va := by
  have ⟨start, length, bound⟩ := whole
  unfold InSpan
  constructor
  · rintro ⟨i, inside, same⟩
    have number := whole.page_toNat inside
    have page := place_inj (by omega) usable.2 same
    omega
  · intro range
    have inside : (va.toNat - v.toNat) / 4096 < n.toNat / 4096 := by omega
    have number := whole.page_toNat inside
    exact ⟨_, inside, place_congr (by omega)⟩

theorem translate_readAt (there : root ≠ 0) (va : UInt64) : memory.translate root va =
    if isValid (memory.readAt root (place va)) then
      pageOf (memory.readAt root (place va)) ||| (va &&& pageMask) else 0 := by
  unfold RawMemory.translate
  rw [readPte_readAt there]

/-- The addresses of a range are translated anew, those of other pages as before, and the page
tables stay in order. -/
def Retranslates (roots : Nat → Option UInt64) (root v n : UInt64) (target : UInt64 → UInt64)
    (memory after : RawMemory) : Prop :=
  Treelike roots after ∧ ∀ va, Usable va → after.translate root va =
    if InSpan v n va then target va else memory.translate root va

variable (trees : Treelike roots memory) (rooted : roots pid = some root)
  (range : Paged v n) (above : 2 ^ 31 ≤ v.toNat)

include trees rooted range above

theorem map_translate (physical : Paged p n)
    (result : memory.map root v p n protFlags = (true, after)) :
    Retranslates roots root v n (fun va => p + (va - v)) memory after := by
  obtain ⟨kind, laid, single⟩ := trees
  have bound := range.bound
  unfold RawMemory.map at result
  split at result
  · cases result
  next there =>
  rw [range.count] at result
  obtain ⟨next, laid', single', _, others, placed⟩ := mapPages_reads laid single
    (laid.rooted pid root rooted) (highPages_user above (by omega)) result
  refine ⟨⟨next, laid', single'⟩, ?_⟩
  intro va usable
  rw [translate_readAt there, translate_readAt there]
  by_cases inSpan : InSpan v n va
  · obtain ⟨i, inside, same⟩ := (range.place_iff usable).mpr inSpan
    have number := range.page_toNat inside
    have entry := placed i inside (by
      intro j small equal
      have other := range.page_toNat small
      have page := place_inj (by omega) (by omega) equal
      omega)
    have page := place_inj (by omega) usable.2 same
    have start := range.start
    have good := physical.good inside
    have target := physical.page_toNat inside
    have limit := physical.bound
    rw [if_pos inSpan, ← same, entry, makeEntry_valid good, if_pos rfl, makeEntry_page good]
    apply UInt64.toNat_inj.mp
    rw [physical_toNat good, target, UInt64.toNat_add, UInt64.toNat_sub]
    omega
  · have away := mt (range.place_iff usable).mp inSpan
    rw [if_neg inSpan, others (place va) (high_place usable.1 usable.2) fun i inside same =>
      away ⟨i, inside, same⟩]

theorem unmap_translate :
    Retranslates roots root v n (fun _ => 0) memory (memory.unmap root v n) := by
  obtain ⟨kind, laid, single⟩ := trees
  have bound := range.bound
  unfold RawMemory.unmap
  split
  next none =>
    refine ⟨⟨kind, laid, single⟩, fun va _ => ?_⟩
    simp [RawMemory.translate, RawMemory.readPte, none, show isValid 0 = false by decide]
  next there =>
  obtain ⟨laid', single', reads⟩ := unmapPages_reads laid single (laid.rooted pid root rooted)
    (highPages_user above (show v.toNat + 4096 * (n.toNat / 4096) ≤ 2 ^ 48 by omega))
  rw [range.count]
  refine ⟨⟨kind, laid', single'⟩, ?_⟩
  intro va usable
  rw [translate_readAt there, translate_readAt there, reads _ (high_place usable.1 usable.2)]
  simp only [range.place_iff usable]
  split
  · rfl
  · rfl

/-- After `map` the pages of a range are translated to the pages they were mapped to, after
`unmap` to nothing, and all other addresses of the process as before. -/
theorem page_table_laws :
    (∀ p protFlags after, Paged p n → memory.map root v p n protFlags = (true, after) →
      Retranslates roots root v n (fun va => p + (va - v)) memory after) ∧
    Retranslates roots root v n (fun _ => 0) memory (memory.unmap root v n) :=
  ⟨fun _ _ _ physical result => map_translate trees rooted range above physical result,
    unmap_translate trees rooted range above⟩

end

-- A new process has two tables, and one entry leads from the first to the second.

theorem created_table {rank : Rank} {page : UInt64}
    (table : TableOf createdKernel.memory.words 0x40200000 rank page) :
    page = 0x40200000 ∧ rank = .root ∨ page = 0x40201000 ∧ rank = .first := by
  have entries : (∀ index : Fin 512, isTable (createdKernel.memory.words
      (entryAt 0x40200000 index)) = true → index = 0) ∧
      ∀ index : Fin 512, isTable (createdKernel.memory.words (entryAt 0x40201000 index)) =
        false := by
    decide +kernel
  induction table with
  | root => exact .inl ⟨rfl, rfl⟩
  | @down _ _ _ index _ leads descriptor ih =>
    rcases ih with ⟨rfl, rfl⟩ | ⟨rfl, rfl⟩
    · obtain rfl := entries.1 index descriptor
      cases leads
      exact .inr (by decide)
    · rw [entries.2 index] at descriptor
      cases descriptor

theorem created_laid : ∃ kind, Laid createdKernel.roots kind createdKernel.memory :=
  (@mapStep_harmless (0, .create) _ createdKernel bootKernel_tidy trivial rfl).1

section

variable {kind : UInt64 → Option (Nat × Rank)}
  (laid : Laid createdKernel.roots kind createdKernel.memory)

include laid

theorem created_known {page : UInt64} {rank : Rank}
    (known : kind page = some (pid, rank)) :
    pid = 0 ∧ (page = 0x40200000 ∧ rank = .root ∨ page = 0x40201000 ∧ rank = .first) := by
  obtain ⟨root, found, table⟩ := laid.reach page pid rank known
  by_cases first : pid = 0
  · subst first
    cases found
    exact ⟨rfl, created_table table⟩
  · have other : createdKernel.vipers pid = none := Function.update_of_ne first ..
    rw [Kernel.roots, other] at found
    cases found

theorem created_entry {page : UInt64} {rank next : Rank} {index : Fin 512}
    (known : kind page = some (pid, rank)) (leads : rank.below index = some next)
    (valid : isValid (createdKernel.memory.words (entryAt page index)) = true) :
    page = 0x40200000 ∧ index = 0 ∧ next = .first := by
  obtain ⟨-, child⟩ := laid.child page pid rank index next known leads valid
  obtain ⟨-, below⟩ := created_known laid child
  have second : next = .first := by
    rcases below with ⟨-, rfl⟩ | ⟨-, rfl⟩
    · cases rank <;> grind [Rank.below]
    · rfl
  subst second
  obtain ⟨-, ⟨rfl, rfl⟩ | ⟨-, rfl⟩⟩ := created_known laid known
  · simp only [Rank.below, Option.some.injEq, ite_eq_left_iff, reduceCtorEq, imp_false,
      not_not] at leads
    exact ⟨rfl, leads, rfl⟩
  · simp [Rank.below] at leads

theorem created_single : Single kind createdKernel.memory := by
  intro page other pid rank otherRank index position next otherNext known otherKnown leads
    otherLeads valid otherValid _
  obtain ⟨rfl, rfl, _⟩ := created_entry laid known leads valid
  obtain ⟨rfl, rfl, _⟩ := created_entry laid otherKnown otherLeads otherValid
  exact ⟨rfl, rfl⟩

end

/-- A page is mapped for a new process: it is found where it was put, and nothing next to it. -/
theorem new_page_translated :
    (createdKernel.memory.map 0x40200000 0x80000000 0x40206000 0x1000 protRw).1 = true ∧
      (createdKernel.memory.map 0x40200000 0x80000000 0x40206000 0x1000 protRw).2.translate
        0x40200000 0x80000123 = 0x40206123 ∧
      (createdKernel.memory.map 0x40200000 0x80000000 0x40206000 0x1000 protRw).2.translate
        0x40200000 0x80001000 = createdKernel.memory.translate 0x40200000 0x80001000 := by
  have mapped : (createdKernel.memory.map 0x40200000 0x80000000 0x40206000 0x1000 protRw).1 =
      true := by
    decide
  obtain ⟨kind, laid⟩ := created_laid
  have laws := ((page_table_laws ⟨kind, laid, created_single laid⟩
    (show createdKernel.roots 0 = some 0x40200000 by decide) ⟨by decide, by decide, by decide⟩
    (by decide)).1 0x40206000 protRw _ ⟨by decide, by decide, by decide⟩ (Prod.ext mapped rfl)).2
  exact ⟨mapped, laws 0x80000123 (by decide), laws 0x80001000 (by decide)⟩

def onePage (p : UInt64) : RawMemory :=
  (createdKernel.memory.map 0x40200000 0x80000000 p 0x1000 protRw).2

/-- An address of the kernel's part and one of more than 48 bits are translated differently
after the page is mapped, and a page behind the first 48 bits is not found where it was put. -/
theorem other_addresses_change : Tidy createdKernel ∧
    (createdKernel.memory.map 0x40200000 0x80000000 0x40206000 0x1000 protRw).1 = true ∧
    (onePage 0x40206000).translate 0x40200000 0x40002000 ≠
      createdKernel.memory.translate 0x40200000 0x40002000 ∧
    (onePage 0x40206000).translate 0x40200000 0x1000080000000 ≠
      createdKernel.memory.translate 0x40200000 0x1000080000000 ∧
    (onePage 0x1000000000000).translate 0x40200000 0x80000000 ≠ 0x1000000000000 := by
  have tidy := (@mapStep_harmless (0, .create) _ createdKernel bootKernel_tidy trivial rfl).1
  exact ⟨tidy, by decide, by decide, by decide, by decide⟩

end ViperDos.Memory
