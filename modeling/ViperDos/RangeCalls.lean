import ViperDos.PageLaws

/-!
Whether `munmap` and `mprotect` act on exactly the pages they are given. What a process has at
a page is an area that covers it, with its protection, and the entry in its page tables.
`munmap` never comes back from a range that it accepts. `mprotect` gives every area that it
meets the protection as a whole and rebuilds the entries of the pages, whatever they are shared
with, so it is exact if the areas and the pages of the range happen to allow for that.
-/

namespace ViperDos.Memory

open Function

section Areas

variable (areas : VmaList)

def VmaList.slotAt (va : UInt64) : Option Nat :=
  areas.chain.find? fun slot => (areas.pool slot).start ≤ va && va < (areas.pool slot).finish

def VmaList.areaAt (va : UInt64) : Option Vma := (areas.slotAt va).map areas.pool

/-- The areas of a chain that the loop of `mprotect` comes to and does not pass over. -/
def VmaList.met (addr finish : UInt64) : List Nat → List Nat
  | [] => []
  | slot :: rest =>
    if finish ≤ (areas.pool slot).start then []
    else if (areas.pool slot).finish ≤ addr then met addr finish rest
    else slot :: met addr finish rest

end Areas

def mayRead (pte : UInt64) : Prop := pte &&& pteApEl0 ≠ 0
def mayWrite (pte : UInt64) : Prop := pte &&& pteApEl0 ≠ 0 ∧ pte &&& pteApRo = 0
def mayExecute (pte : UInt64) : Prop := pte &&& pteUxn = 0

section

variable (viper : RawViper) (memory : RawMemory)

/-- `munmap` comes back, and takes the areas and the entries of its pages and nothing else. -/
structure MunmapExact (addr len : UInt64) : Prop where
  returns : (sysMunmap viper addr len memory).1 ≠ .hangs
  areas : ∀ va, (sysMunmap viper addr len memory).2.1.vmaList.areaAt va =
    if InSpan addr len va then none else viper.vmaList.areaAt va
  gone : ∀ va, InSpan addr len va →
    isValid ((sysMunmap viper addr len memory).2.2.readPte viper.root va) = false
  entries : ∀ va, ¬ InSpan addr len va →
    (sysMunmap viper addr len memory).2.2.readPte viper.root va = memory.readPte viper.root va
  contents : ∀ word va, ¬ InSpan addr len va → isValid (memory.readPte viper.root va) →
    InPage word (pageOf (memory.readPte viper.root va)) →
    (sysMunmap viper addr len memory).2.2.words word = memory.words word

/-- `mprotect` comes back, gives the areas and the entries of its pages the protection and
changes nothing else that the process has, and no shared page becomes writable. -/
structure MprotectExact (cow : CowManager) (addr len : UInt64) (prot : UInt32) : Prop where
  returns : (sysMprotect viper addr len prot memory).1 ≠ .hangs
  areas : ∀ va, (sysMprotect viper addr len prot memory).2.1.vmaList.areaAt va =
    if InSpan addr len va then
      (viper.vmaList.areaAt va).map fun area => { area with prot := posixToVmaProt prot }
    else viper.vmaList.areaAt va
  inside : ∀ va, Usable va → InSpan addr len va → isValid (memory.readPte viper.root va) →
    let pte := (sysMprotect viper addr len prot memory).2.2.readPte viper.root va
    (mayRead pte ↔ prot &&& mapProtRead ≠ 0) ∧ (mayWrite pte ↔ prot &&& mapProtWrite ≠ 0) ∧
      (mayExecute pte ↔ prot &&& mapProtExec ≠ 0) ∧
      pageOf pte = pageOf (memory.readPte viper.root va)
  entries : ∀ va, Usable va → ¬ (InSpan addr len va ∧ isValid (memory.readPte viper.root va)) →
    (sysMprotect viper addr len prot memory).2.2.readPte viper.root va =
      memory.readPte viper.root va
  contents : ∀ word va, Usable va → isValid (memory.readPte viper.root va) →
    InPage word (pageOf (memory.readPte viper.root va)) →
    (sysMprotect viper addr len prot memory).2.2.words word = memory.words word
  shared : ∀ va, Usable va → isValid (memory.readPte viper.root va) →
    isReadOnly (memory.readPte viper.root va) →
    1 < cow.getRef (pageOf (memory.readPte viper.root va)) →
    isReadOnly ((sysMprotect viper addr len prot memory).2.2.readPte viper.root va)

/-- The call refuses the range, and there is nothing in it. -/
def NothingToDo (addr len : UInt64) : Prop :=
  len = 0 ∨ (addr = 0 ∧ ∀ va, InSpan addr len va →
    viper.vmaList.areaAt va = none ∧ isValid (memory.readPte viper.root va) = false)

/-- The areas that `mprotect` changes are those of the range and of no other page, and the
mapped pages of the range may be read and are not shared if they are to be written. -/
structure Protects (cow : CowManager) (addr len : UInt64) (prot : UInt32) : Prop where
  unlocked : viper.locked = false
  areas : ∀ va slot, viper.vmaList.slotAt va = some slot →
    (viper.vmaList.pool slot).prot ≠ posixToVmaProt prot →
    (slot ∈ viper.vmaList.met addr (addr + len) viper.vmaList.chain ↔ InSpan addr len va)
  readable : ∀ va, Usable va → InSpan addr len va → isValid (memory.readPte viper.root va) →
    prot &&& mapProtRead ≠ 0
  alone : prot &&& mapProtWrite ≠ 0 → ∀ va, Usable va → InSpan addr len va →
    isValid (memory.readPte viper.root va) → isReadOnly (memory.readPte viper.root va) →
    cow.getRef (pageOf (memory.readPte viper.root va)) ≤ 1

/-- The page tables are in order, and no page of the process is one of them. -/
def Sane (root : UInt64) (memory : RawMemory) : Prop :=
  root ≠ 0 ∧ ∃ roots kind pid, Laid roots kind memory ∧ Single kind memory ∧
    roots pid = some root ∧ ∀ va, Usable va → isValid (memory.readPte root va) →
      kind (pageOf (memory.readPte root va)) = none

end

variable {root : UInt64}

section

variable {viper : RawViper} {memory : RawMemory} {cow : CowManager} {addr len : UInt64}
  {prot : UInt32} {va : UInt64}

section

variable (viper memory) (aligned : pageAlignDown addr = addr ∧ pageAlignUp len = len)

include aligned

theorem sysMunmap_refused (refused : len = 0 ∨ addr = 0) :
    sysMunmap viper addr len memory = (.error verrInvalidArg, viper, memory) := by
  unfold sysMunmap
  rw [aligned.1, aligned.2]
  exact if_pos refused

theorem sysMunmap_hangs
    (accepted : ¬ (len = 0 ∨ addr = 0)) : (sysMunmap viper addr len memory).1 = .hangs := by
  unfold sysMunmap
  rw [aligned.1, aligned.2]
  rw [if_neg accepted]

end

theorem empty_span (empty : len = 0) : ¬ InSpan addr len va := by
  rintro ⟨start, finish⟩
  rw [empty, UInt64.toNat_zero] at finish
  omega

theorem munmap_exact_iff (aligned : pageAlignDown addr = addr ∧ pageAlignUp len = len) :
    MunmapExact viper memory addr len ↔ NothingToDo viper memory addr len := by
  constructor
  · intro exact_
    by_cases refused : len = 0 ∨ addr = 0
    · refine refused.imp_right fun zero => ⟨zero, fun va inside => ?_⟩
      have areas := exact_.areas va
      have gone := exact_.gone va inside
      rw [sysMunmap_refused viper memory aligned refused, if_pos inside] at areas
      rw [sysMunmap_refused viper memory aligned refused] at gone
      exact ⟨areas, gone⟩
    · exact absurd (sysMunmap_hangs viper memory aligned refused) exact_.returns
  · intro nothing
    have none : ∀ va, InSpan addr len va →
        viper.vmaList.areaAt va = none ∧ isValid (memory.readPte viper.root va) = false := by
      rcases nothing with empty | ⟨-, none⟩
      · exact fun va inside => absurd inside (empty_span empty)
      · exact none
    have refused := sysMunmap_refused viper memory aligned (nothing.imp id And.left)
    constructor <;> rw [refused]
    case returns => exact Outcome.noConfusion
    case areas =>
      intro va
      split
      next inside => exact (none va inside).1
      · rfl
    case gone => exact fun va inside => (none va inside).2
    case entries => exact fun _ _ => rfl
    case contents => exact fun _ _ _ _ _ => rfl

-- The areas

theorem met_congr (areas : VmaList) {other : VmaList} (chain : List Nat)
    (same : ∀ slot, (other.pool slot).start = (areas.pool slot).start ∧
      (other.pool slot).finish = (areas.pool slot).finish) (addr finish : UInt64) :
    other.met addr finish chain = areas.met addr finish chain := by
  induction chain with
  | nil => rfl
  | cons slot rest ih => simp only [VmaList.met, (same slot).1, (same slot).2, ih]

theorem protectAreas_met (newProt : UInt32) (addr finish : UInt64) (chain : List Nat)
    (areas : VmaList) : protectAreas newProt addr finish chain areas = { areas with
      pool := fun slot => if slot ∈ areas.met addr finish chain then
        { areas.pool slot with prot := newProt } else areas.pool slot } := by
  induction chain generalizing areas with
  | nil => rfl
  | cons slot rest ih =>
    unfold protectAreas VmaList.met
    dsimp only
    split
    · rfl
    split
    · exact ih areas
    · rw [ih, met_congr areas rest]
      · congr 1
        funext other
        by_cases same : other = slot
        · subst same
          simp
        · simp [same]
      · intro other
        by_cases same : other = slot
        · subst same
          simp
        · simp [same]

theorem protectAreas_areaAt (newProt : UInt32) (addr finish va : UInt64) (areas : VmaList) :
    (protectAreas newProt addr finish areas.chain areas).areaAt va =
      (areas.slotAt va).map fun slot => if slot ∈ areas.met addr finish areas.chain then
        { areas.pool slot with prot := newProt } else areas.pool slot := by
  rw [protectAreas_met]
  unfold VmaList.areaAt VmaList.slotAt
  dsimp only
  congr 2
  funext slot
  split <;> rfl

theorem prot_same_iff (area : Vma) (newProt : UInt32) :
    { area with prot := newProt } = area ↔ area.prot = newProt := by
  constructor
  · exact fun same => (congrArg Vma.prot same).symm
  · rintro rfl
    rfl

/-- The areas come out as they should if the loop meets those of the range, and others only if
they have the protection anyway. -/
theorem areas_exact_iff (areas : VmaList) (newProt : UInt32) (addr len : UInt64) :
    (∀ va, (protectAreas newProt addr (addr + len) areas.chain areas).areaAt va =
      if InSpan addr len va then (areas.areaAt va).map fun area => { area with prot := newProt }
      else areas.areaAt va) ↔
    ∀ va slot, areas.slotAt va = some slot → (areas.pool slot).prot ≠ newProt →
      (slot ∈ areas.met addr (addr + len) areas.chain ↔ InSpan addr len va) := by
  refine forall_congr' fun va => ?_
  rw [protectAreas_areaAt, VmaList.areaAt]
  cases areas.slotAt va with
  | none => simp
  | some slot =>
    simp only [Option.map_some, Option.some.injEq, forall_eq']
    have same := prot_same_iff (areas.pool slot) newProt
    by_cases met : slot ∈ areas.met addr (addr + len) areas.chain <;>
      by_cases inside : InSpan addr len va <;> simp [met, inside, same, eq_comm.trans same]

-- The entries

theorem protectedEntry_flags (old : UInt64) (prot : UInt32) : ∃ flags, flags &&& addrMask = 0 ∧
    flags &&& pteValid ≠ 0 ∧ flags &&& pteApEl0 ≠ 0 ∧
    (flags &&& pteApRo = 0 ↔ prot &&& mapProtWrite ≠ 0) ∧
    (flags &&& pteUxn = 0 ↔ prot &&& mapProtExec ≠ 0) ∧
    protectedEntry old prot = pageOf old ||| flags := by
  unfold protectedEntry
  by_cases write : prot &&& mapProtWrite = 0 <;> by_cases exec : prot &&& mapProtExec = 0 <;>
    simp only [write, exec, if_true, if_false, UInt64.or_assoc] <;>
    exact ⟨_, by decide, by decide, by decide, by simp [write]; decide, by simp [exec]; decide, rfl⟩

theorem protectedEntry_page (old : UInt64) (prot : UInt32) :
    pageOf (protectedEntry old prot) = pageOf old := by
  obtain ⟨flags, outside, -, -, -, -, entry⟩ := protectedEntry_flags old prot
  rw [entry]
  exact Bits.or_mask (pageOf_good old) outside

/-- The page of an entry does not show in a field that is outside its mask. -/
theorem protectedEntry_bits (old : UInt64) (prot : UInt32) :
    isValid (protectedEntry old prot) = true ∧ mayRead (protectedEntry old prot) ∧
      (isReadOnly (protectedEntry old prot) = false ↔ prot &&& mapProtWrite ≠ 0) ∧
      (mayExecute (protectedEntry old prot) ↔ prot &&& mapProtExec ≠ 0) := by
  obtain ⟨flags, -, valid, user, writable, executable, entry⟩ := protectedEntry_flags old prot
  have field : ∀ field : UInt64, addrMask &&& field = 0 →
      protectedEntry old prot &&& field = flags &&& field := by
    intro field apart
    rw [entry]
    exact Bits.or_field (pageOf_good old) flags apart
  unfold isValid mayRead isReadOnly mayExecute
  rw [field pteValid (by decide), field pteApEl0 (by decide), field pteApRo (by decide),
    field pteUxn (by decide)]
  exact ⟨decide_eq_true valid, user, by simpa using writable, executable⟩

theorem protectedEntry_again (old : UInt64) (prot : UInt32) :
    protectedEntry (protectedEntry old prot) prot = protectedEntry old prot := by
  have page := protectedEntry_page old prot
  unfold pageOf at page
  rw [protectedEntry, page]
  rfl

-- The walks

theorem getOrAllocTable_found {table next : UInt64} {index : Fin 512}
    (found : memory.nextTable table index = some next) :
    memory.getOrAllocTable table index = (some next, memory) := by
  obtain ⟨valid, page⟩ := nextTable_some found
  unfold RawMemory.getOrAllocTable
  rw [if_pos valid, page]

theorem obtainL3_found {root l3 : UInt64} {spot : Place}
    (found : memory.findL3 root spot = some l3) :
    memory.obtainL3 root spot = (some l3, memory) := by
  obtain ⟨l1, l2, first, second, third⟩ := findL3_steps found
  unfold RawMemory.obtainL3
  rw [getOrAllocTable_found first]
  dsimp only
  rw [getOrAllocTable_found second]
  exact getOrAllocTable_found third

/-- The tables stay as they are but for entries of last-level tables, and what the walks of the
process read is given. -/
structure Rewrites (roots : Nat → Option UInt64) (kind : UInt64 → Option (Nat × Rank)) (pid : Nat)
    (root : UInt64) (reads : Place → UInt64) (memory after : RawMemory) : Prop where
  laid : Laid roots kind after
  single : Single kind after
  reads : ∀ spot, ¬ Low spot → after.readAt root spot = reads spot
  words : ∀ word, after.words word ≠ memory.words word →
    ∃ table index, kind table = some (pid, .leaf) ∧ word = entryAt table index

section

variable {roots : Nat → Option UInt64} {kind : UInt64 → Option (Nat × Rank)} {pid : Nat}
  (laid : Laid roots kind memory) (single : Single kind memory)
  (owned : kind root = some (pid, .root)) (there : root ≠ 0)

include laid single owned there

theorem protectPage_rewrites (high : ¬ Low (place va)) (entry : UInt64)
    (valid : isValid (memory.readAt root (place va)) = true) :
    Rewrites roots kind pid root
      (fun spot => if spot = place va then entry else memory.readAt root spot) memory
      (memory.writePte root va entry).2 := by
  rw [readAt_findL3] at valid
  cases found : memory.findL3 root (place va) with
  | none =>
    rw [found] at valid
    exact absurd valid (show ¬ isValid 0 = true by decide)
  | some l3 =>
    have leaf := findL3_owned laid owned high found
    unfold RawMemory.writePte
    rw [if_neg there, obtainL3_found found]
    refine ⟨(putLeaf_laid laid leaf _ _).1, putLeaf_single laid single leaf _ _,
      fun spot spotHigh => putLeaf_reads laid single owned high found entry spotHigh, ?_⟩
    intro word different
    refine ⟨l3, (place va).2.2.2, leaf, ?_⟩
    by_contra away
    exact different (update_of_ne away ..)

theorem protectPages_rewrites (prot : UInt32) {addrs : List UInt64}
    (high : ∀ va ∈ addrs, ¬ Low (place va)) :
    Rewrites roots kind pid root
      (fun spot => if (∃ va ∈ addrs, place va = spot) ∧ isValid (memory.readAt root spot) then
        protectedEntry (memory.readAt root spot) prot else memory.readAt root spot) memory
      (protectPages root prot addrs memory) := by
  induction addrs generalizing memory with
  | nil => exact ⟨laid, single, fun _ _ => by simp [protectPages],
      fun _ different => absurd rfl different⟩
  | cons va rest ih =>
    have later : ∀ other ∈ rest, ¬ Low (place other) := fun other member =>
      high other (.tail _ member)
    unfold protectPages
    dsimp only
    rw [readPte_readAt there]
    split
    next valid =>
      have first := protectPage_rewrites laid single owned there (high va (.head _))
        (protectedEntry (memory.readAt root (place va)) prot) valid
      have last := ih first.laid first.single later
      refine ⟨last.laid, last.single, ?_, ?_⟩
      · intro spot spotHigh
        rw [last.reads spot spotHigh, first.reads spot spotHigh]
        by_cases same : spot = place va
        · subst same
          simp [valid, protectedEntry_again, (protectedEntry_bits _ prot).1]
        · simp [same, Ne.symm same]
      · intro word different
        by_cases same : (memory.writePte root va
            (protectedEntry (memory.readAt root (place va)) prot)).2.words word = memory.words word
        · exact last.words word (same ▸ different)
        · exact first.words word same
    next invalid =>
      have last := ih laid single later
      refine { last with reads := fun spot spotHigh => ?_ }
      rw [last.reads spot spotHigh]
      by_cases same : spot = place va
      · subst same
        simp [invalid]
      · simp [Ne.symm same]

end

-- The call

section

variable (range : Paged addr len) (above : 2 ^ 31 ≤ addr.toNat)

include range

theorem pageRange_paged (some : len ≠ 0) : pageRange addr (addr + len) =
    (List.range (len.toNat / 4096)).map fun i => addr + UInt64.ofNat (4096 * i) := by
  have bound := range.bound
  have positive : len.toNat ≠ 0 := fun zero => some (UInt64.toNat_inj.mp zero)
  have before : addr < addr + len := by
    rw [UInt64.lt_iff_toNat_lt, UInt64.toNat_add]
    omega
  rw [pageRange, if_pos before, Bits.add_sub_left, range.count]

theorem pageRange_place (some : len ≠ 0) (usable : Usable va) :
    (∃ page ∈ pageRange addr (addr + len), place page = place va) ↔ InSpan addr len va := by
  rw [pageRange_paged range some, ← range.place_iff usable]
  simp

include above

theorem pageRange_high (some : len ≠ 0) : ∀ page ∈ pageRange addr (addr + len),
    ¬ Low (place page) := by
  have bound := range.bound
  rw [pageRange_paged range some]
  simp only [List.mem_map, List.mem_range, forall_exists_index, and_imp, forall_apply_eq_imp_iff₂]
  intro i inside
  have number := range.page_toNat inside
  exact high_place (by omega) (by omega)

/-- What an accepted call does to the memory: the valid entries of the range are rebuilt, and
no page that the process has mapped is written. -/
theorem protectPages_exact (sane : Sane root memory) (some : len ≠ 0) (prot : UInt32) :
    let after := protectPages root prot (pageRange addr (addr + len)) memory
    (∀ va, Usable va → after.readPte root va =
      if InSpan addr len va ∧ isValid (memory.readPte root va) then
        protectedEntry (memory.readPte root va) prot else memory.readPte root va) ∧
    ∀ word va, Usable va → isValid (memory.readPte root va) →
      InPage word (pageOf (memory.readPte root va)) → after.words word = memory.words word := by
  obtain ⟨there, roots, kind, pid, laid, single, rooted, pages⟩ := sane
  have rewrites := protectPages_rewrites laid single (laid.rooted pid root rooted) there prot
    (pageRange_high range above some)
  constructor
  · intro va usable
    rw [readPte_readAt there, readPte_readAt there,
      rewrites.reads _ (high_place usable.1 usable.2)]
    simp only [pageRange_place range some usable]
  · intro word va usable valid inside
    by_contra different
    obtain ⟨table, index, leaf, rfl⟩ := rewrites.words word different
    have same := inPage_unique (pageOf_good _) (laid.good _ _ leaf) inside
      (entryAt_inPage table index)
    rw [← same, pages va usable valid] at leaf
    cases leaf

end

theorem Paged.of_aligned (aligned : pageAlignDown addr = addr ∧ pageAlignUp len = len)
    (bound : addr.toNat + len.toNat ≤ 2 ^ 48) : Paged addr len := by
  have start := congrArg UInt64.toNat aligned.1
  have length := congrArg UInt64.toNat aligned.2
  rw [pageAlignDown_toNat] at start
  rw [pageAlignUp, @Bits.and_toNat 52 12 (~~~pageMask) _ (by decide)] at length
  exact ⟨by omega, by omega, bound⟩

section

variable (aligned : pageAlignDown addr = addr ∧ pageAlignUp len = len)

include aligned

variable (viper memory prot) in
theorem sysMprotect_empty (empty : len = 0) :
    sysMprotect viper addr len prot memory = (.error verrInvalidArg, viper, memory) := by
  unfold sysMprotect
  rw [aligned.1, aligned.2]
  exact if_pos (.inl empty)

variable (viper memory prot) in
theorem sysMprotect_accepted (accepted : ¬ (len = 0 ∨ addr = 0)) :
    sysMprotect viper addr len prot memory =
      if viper.locked then (.hangs, viper, memory) else
        (.ok 0, { viper with
          vmaList := protectAreas (posixToVmaProt prot) addr (addr + len) viper.vmaList.chain
            viper.vmaList },
          protectPages viper.root prot (pageRange addr (addr + len)) memory) := by
  unfold sysMprotect
  rw [aligned.1, aligned.2]
  exact if_neg accepted

theorem empty_mprotect_exact (empty : len = 0) : MprotectExact viper memory cow addr len prot := by
  have refused := sysMprotect_empty viper memory prot aligned empty
  constructor <;> simp only [refused, empty_span empty, if_false]
  case returns => exact Outcome.noConfusion
  case areas => exact fun _ => trivial
  case inside => exact fun _ _ inside => inside.elim
  case entries => exact fun _ _ _ => trivial
  case contents => exact fun _ _ _ _ _ => trivial
  case shared => exact fun _ _ _ readOnly _ => readOnly

variable (sane : Sane viper.root memory) (above : 2 ^ 31 ≤ addr.toNat)
  (bound : addr.toNat + len.toNat ≤ 2 ^ 48)

include sane above bound

theorem mprotect_exact_iff : MprotectExact viper memory cow addr len prot ↔
    len = 0 ∨ Protects viper memory cow addr len prot := by
  by_cases empty : len = 0
  · simp only [empty, true_or, iff_true]
    exact empty ▸ empty_mprotect_exact aligned empty
  have accepted : ¬ (len = 0 ∨ addr = 0) := by
    rintro (zero | rfl)
    · exact empty zero
    · exact absurd above (by decide)
  have call := sysMprotect_accepted viper memory prot aligned accepted
  have range := Paged.of_aligned aligned bound
  obtain ⟨reads, words⟩ := protectPages_exact range above sane empty prot
  rw [or_iff_right empty]
  by_cases locked : viper.locked
  · rw [if_pos locked] at call
    constructor
    · exact fun exact_ => absurd (by rw [call]) exact_.returns
    · exact fun protects => absurd locked (by simp [protects.unlocked])
  rw [if_neg locked] at call
  constructor
  · intro exact_
    obtain ⟨-, areas, inside, -, -, shared⟩ := exact_
    rw [call] at areas inside shared
    refine ⟨by simpa using locked, (areas_exact_iff ..).mp areas, ?_, ?_⟩
    · intro va usable span valid
      have here := (inside va usable span valid).1
      rw [reads va usable, if_pos ⟨span, valid⟩] at here
      exact here.mp (protectedEntry_bits _ prot).2.1
    · intro write va usable span valid readOnly
      by_contra many
      have here := shared va usable valid readOnly (UInt16.not_le.mp many)
      rw [reads va usable, if_pos ⟨span, valid⟩] at here
      rw [(protectedEntry_bits _ prot).2.2.1.mpr write] at here
      cases here
  · intro protects
    constructor <;> rw [call]
    case returns => exact Outcome.noConfusion
    case areas => exact (areas_exact_iff ..).mpr protects.areas
    case inside =>
      intro va usable span valid
      obtain ⟨-, read, write, execute⟩ := protectedEntry_bits (memory.readPte viper.root va) prot
      rw [reads va usable, if_pos ⟨span, valid⟩]
      refine ⟨iff_of_true read (protects.readable va usable span valid), ?_, execute,
        protectedEntry_page _ prot⟩
      rw [← write, isReadOnly, decide_eq_false_iff_not, not_not]
      exact and_iff_right read
    case entries =>
      intro va usable outside
      rw [reads va usable, if_neg outside]
    case contents => exact words
    case shared =>
      intro va usable valid readOnly many
      rw [reads va usable]
      split
      next changed =>
        by_contra writable
        have write := (protectedEntry_bits (memory.readPte viper.root va) prot).2.2.1.mp
          (by simpa using writable)
        have few := protects.alone write va usable changed.1 valid readOnly
        exact UInt16.not_lt.mpr few many
      · exact readOnly

end

end

/-- A new process has no page mapped. -/
theorem created_unmapped {kind : UInt64 → Option (Nat × Rank)}
    (laid : Laid createdKernel.roots kind createdKernel.memory) {spot : Place}
    (high : ¬ Low spot) : createdKernel.memory.findL3 0x40200000 spot = none := by
  obtain ⟨rank, toSecond, toThird⟩ := rank_walk high
  cases found : createdKernel.memory.findL3 0x40200000 spot with
  | none => rfl
  | some l3 =>
    obtain ⟨l1, l2, first, second, -⟩ := findL3_steps found
    have owned := nextTable_owned laid (laid.rooted 0 0x40200000 (by decide)) toSecond first
    obtain ⟨-, -, same⟩ := created_entry laid owned toThird (nextTable_some second).1
    cases same

def mappedMemory : RawMemory :=
  (createdKernel.memory.map 0x40200000 0x80000000 0x40300000 0x1000 protRw).2

theorem mappedMemory_sane : Sane 0x40200000 mappedMemory := by
  obtain ⟨before, laid⟩ := created_laid
  have result : createdKernel.memory.mapPages 0x40200000 0x80000000 0x40300000 protRw 1 =
      (true, mappedMemory) := Prod.ext (by decide) rfl
  have page : HighPages 0x80000000 1 := highPages_one (by decide)
  have root : createdKernel.roots 0 = some 0x40200000 := by decide
  obtain ⟨kind, laid', single, step, others, placed⟩ := mapPages_reads laid (created_single laid)
    (laid.rooted 0 _ root) page result
  refine ⟨by decide, _, kind, 0, laid', single, root, ?_⟩
  intro va usable valid
  have high := high_place usable.1 usable.2
  rw [readPte_readAt (by decide)] at valid ⊢
  by_cases same : place 0x80000000 = place va
  · have entry := placed 0 (by decide) (fun j small _ => by omega)
    rw [show (0x80000000 : UInt64) + UInt64.ofNat (4096 * 0) = 0x80000000 by decide, same] at entry
    rw [entry, show pageOf _ = (0x40300000 : UInt64) by decide, Option.eq_none_iff_forall_ne_some]
    intro owner known
    rcases step.fresh _ _ known with earlier | free
    · obtain ⟨-, here⟩ := created_known laid earlier
      exact absurd here (by simp)
    · exact absurd free (show (0x40300000 : UInt64) ∉ createdKernel.memory.free by decide)
  · have apart := others (place va) high fun i inside => by
      obtain rfl : i = 0 := by omega
      exact same
    rw [apart, readAt_findL3, created_unmapped laid high] at valid
    exact absurd valid (show ¬ isValid 0 = true by decide)

def twoAreas : VmaList :=
  ((VmaList.init.add 0x80000000 0x80001000 (vmaRead ||| vmaWrite) .anonymous).2.add 0x80001000
    0x80003000 (vmaRead ||| vmaWrite) .anonymous).2

def twoAreasViper : RawViper := ⟨0x40200000, twoAreas, userMmapBase, none, false⟩

def heapViper : RawViper := (faultedKernel.vipers 0).getD twoAreasViper

end ViperDos.Memory
