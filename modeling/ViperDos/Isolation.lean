import ViperDos.Cloning
import ViperDos.CopyOnWrite
import ViperDos.DemandPaging

/-!
What processes read back from memory that a fork shared. Beside the machine stands what
each process is entitled to read: the byte it last stored or, failing that, the byte
it saw when it took part in a fork. The handlers keep that up as long as a page taken
for unshared is unshared, mapping ahead hits no page in use, and a clone is complete.
-/

namespace ViperDos.Memory

open CopyOnWrite Transition Function

abbrev Expected := Nat × Place → UInt64 → Option UInt8

structure Observed where
  machine : Machine
  expected : Expected

def seen (phys : Physical) (pte offset : UInt64) : Option UInt8 :=
  if isValid pte then some (phys.frames (pageOf pte) offset)
  else if isSwapEntry pte ∧ phys.swap.used (getSwapSlot pte) then
    some (phys.swap.disk (getSwapSlot pte) offset)
  else none

def remember (m : Machine) (expected : Expected) : Access → Expected
  | .store pid addr value =>
    update expected (pid, place addr)
      (update (expected (pid, place addr)) (addr &&& pageMask) (some value))
  | .fork pid capsOk =>
    match (fork m pid capsOk).1, m.vipers pid with
    | some childPid, some parent => fun owner offset =>
      if owner.1 = pid ∨ owner.1 = childPid then
        seen m.phys (readAt parent.space owner.2) offset
      else expected owner offset
    | _, _ => expected
  | _ => expected

def Observe (s : Observed) (access : Access) (after : Observed) : Prop :=
  AccessStep s.machine access after.machine ∧
    after.expected = remember s.machine s.expected access

/-- Every process reads what it is entitled to. A store of another process never shows,
as it changes nothing in what this one is entitled to. -/
def ReadsBack (s : Observed) : Prop :=
  ∀ pid va value, s.expected (pid, place va) (va &&& pageMask) = some value →
    ∃ viper, s.machine.vipers pid = some viper ∧
      readByte s.machine.phys viper.space va = some value

def mapping (pte : UInt64) : Option (Mapping UInt64) :=
  if isValid pte then some ⟨pageOf pte, !isReadOnly pte⟩ else none

def entries (vipers : Nat → Option Viper) (owner : Nat × Place) : Option (Mapping UInt64) :=
  (vipers owner.1).bind fun viper => mapping (readAt viper.space owner.2)

def ahead (viper : Viper) (addr : UInt64) : List UInt64 :=
  match viper.vmaList.find addr with
  | none =>
    match growable viper.vmaList addr with
    | none => []
    | some slot => pageRange (pageAlignDown addr) (viper.vmaList.pool slot).start
  | some slot =>
    match viper.vmaList.find (pageAlignDown addr) with
    | none => []
    | some next =>
      if (viper.vmaList.pool slot).type = .anonymous ∧
          (viper.vmaList.pool next).type = .anonymous then
        (prefaultAddrs (pageAlignDown addr)).filter (· < (viper.vmaList.pool next).finish)
      else []

def UnsharedAt (m : Machine) (pid : Nat) (viper : Viper) (addr : UInt64) : Prop :=
  ∀ slot, viper.vmaList.find addr = some slot →
    (viper.vmaList.pool slot).flags &&& vmaCow ≠ 0 →
    m.phys.cow.getRef (pageOf (readPte viper.space addr)) ≤ 1 →
    ∀ other theirs, entries m.vipers other = some theirs →
      theirs.page = pageOf (readPte viper.space addr) → other = (pid, place addr)

def Careful (m : Machine) : Access → Prop
  | .fault pid addr isWrite _ => ∀ viper, m.vipers pid = some viper →
      (isValid (readPte viper.space addr) = false →
        ∀ target ∈ ahead viper addr, isValid (readPte viper.space target) = false) ∧
      (isValid (readPte viper.space addr) = true → isWrite = true → UnsharedAt m pid viper addr)
  | .fork pid _ => ∀ parent, m.vipers pid = some parent → Copyable parent →
      (∀ spot : Place, spot.1 = 0 → isValid (readAt parent.space spot) = false) ∧
      clonedTables parent.space + 2 ≤ m.phys.free.length
  | _ => True

structure Tame (vipers : Nat → Option Viper) (expected : Expected) (pid : Nat) (viper : Viper)
    (phys : Physical) : Prop where
  isolated : Isolated (entries (update vipers pid (some viper))) phys.frames phys.free
    expected
  good : ∀ page ∈ phys.free, Good page
  unswapped : ∀ spot, isSwapEntry (readAt viper.space spot) = false

variable {spot : Place} {pte page va shift addr offset other : UInt64} {vipers : Nat → Option Viper}
  {pid width childPid : Nat} {viper parent : Viper} {space next : L0} {done isWrite capsOk : Bool}
  {protFlags : UInt32} {phys after : Physical} {expected : Expected} {env : Environment}
  {request : Request} {Key Child : Type} {view : Child → Key → UInt64} {m : Machine}
  {owner : Nat × Place} {mine : Mapping UInt64} {s : Observed} {value : UInt8} {access : Access}

theorem entries_wrote {next : Viper} (wrote : Wrote readAt spot pte viper.space next.space true) :
    entries (update vipers pid (some next)) =
      update (entries (update vipers pid (some viper))) (pid, spot) (mapping pte) := by
  funext ⟨other, there⟩
  by_cases same : other = pid
  · subst other
    by_cases here : there = spot
    · subst there
      simp [entries, wrote spot]
    · simp [entries, wrote there, here]
  · have different : (other, there) ≠ (pid, spot) := fun equal => same (congrArg Prod.fst equal)
    simp [entries, update_of_ne same, update_of_ne different]

theorem entries_same (viper next : Viper)
    (same : ∀ spot, readAt next.space spot = readAt viper.space spot) :
    entries (update vipers pid (some next)) = entries (update vipers pid (some viper)) := by
  funext ⟨other, spot⟩
  by_cases here : other = pid
  · subst other
    simp [entries, same]
  · simp [entries, update_of_ne here]

theorem valid_unswapped (valid : isValid pte = true) : isSwapEntry pte = false := by
  have set : pte &&& 1 ≠ 0 := of_decide_eq_true valid
  simp [isSwapEntry, set]

theorem mapping_makeEntry (good : Good page) (protFlags : UInt32) :
    mapping (makeEntry page protFlags) = some ⟨page, !isReadOnly (makeEntry page protFlags)⟩ := by
  simp [mapping, makeEntry_valid good, makeEntry_page good]

theorem wrote_unswapped (wrote : Wrote readAt spot pte space next done)
    (valid : isValid pte = true) (unswapped : ∀ spot, isSwapEntry (readAt space spot) = false)
    (other : Place) : isSwapEntry (readAt next other) = false := by
  rw [wrote other]
  split
  · exact valid_unswapped valid
  · exact unswapped other

theorem mapPage_wrote (mapped : mapPage space va page protFlags phys = (done, next, after)) :
    Wrote readAt (place va) (makeEntry page protFlags) space next done ∧ Drew phys after := by
  have wrote := writeAt_wrote (place va) (makeEntry page protFlags) space phys
  have drew := drew_of_supplied (writeAt_supplied (place va) (makeEntry page protFlags) space phys)
  rw [mapPage] at mapped
  rw [mapped] at wrote drew
  exact ⟨wrote, drew⟩

/-- A new page may be put where nothing is to be read. -/
theorem placeFresh_tame (tame : Tame vipers expected pid viper phys)
    (nothing : ∀ offset, expected (pid, place va) offset = none) (frame : Frame)
    (protFlags : UInt32) :
    Tame vipers expected pid
      { viper with space := (placeFresh viper.space va (some frame) protFlags phys).2.1 }
      (placeFresh viper.space va (some frame) protFlags phys).2.2 := by
  rcases placeFresh_cases viper.space va (some frame) protFlags phys with
    ⟨_, result⟩ | ⟨page, rest, free, next, after, outcome⟩
  · rw [result]
    exact ⟨tame.isolated, tame.good, tame.unswapped⟩
  have good := tame.good page (by rw [free]; exact .head _)
  have isolated := tame.isolated
  rw [free] at isolated
  rcases outcome with ⟨mapped, result⟩ | ⟨failed, result⟩
  · rcases mapPage_wrote mapped with ⟨wrote, frames, suffix⟩
    rw [result]
    refine ⟨?_, ?_, ?_⟩
    · have blank : ∀ offset value, expected (pid, place va) offset = some value →
          frame offset = value := by
        intro offset value entitled
        rw [nothing] at entitled
        cases entitled
      have taken := isolated_take isolated blank (!isReadOnly (makeEntry page protFlags))
      rw [entries_wrote wrote, mapping_makeEntry good, frames]
      exact isolated_pool taken suffix.sublist.subperm
    · intro other member
      exact tame.good other (by rw [free]; exact .tail _ (suffix.subset member))
    · exact wrote_unswapped wrote (makeEntry_valid good protFlags) tame.unswapped
  · rcases mapPage_wrote failed with ⟨wrote, frames, suffix⟩
    rw [result]
    refine ⟨?_, ?_, ?_⟩
    · have scribbled := isolated_scribble isolated (.head _) frame
      have same : ∀ spot, readAt next spot = readAt viper.space spot := fun spot => by
        simpa using wrote spot
      rw [entries_same viper _ same, freePage, frames]
      exact isolated_pool scribbled (suffix.sublist.cons_cons page).subperm
    · intro other member
      rcases List.mem_cons.mp member with rfl | inside
      · exact good
      · exact tame.good other (by rw [free]; exact .tail _ (suffix.subset inside))
    · exact wrote_unswapped wrote (makeEntry_valid good protFlags) tame.unswapped

theorem tame_nothing (tame : Tame vipers expected pid viper phys)
    (unmapped : isValid (readPte viper.space va) = false) (offset : UInt64) :
    expected (pid, place va) offset = none := by
  cases entitled : expected (pid, place va) offset with
  | none => rfl
  | some value =>
    rcases tame.isolated.reads _ _ _ entitled with ⟨mine, found, _⟩
    rw [readPte] at unmapped
    simp [entries, mapping, unmapped] at found

theorem shift_pageAlignDown (ones : (~~~pageMask >>> shift).toNat = 2 ^ width - 1)
    (total : 2 ^ (shift.toNat % 64) * 2 ^ width = 2 ^ 64) (addr : UInt64) :
    pageAlignDown addr >>> shift = addr >>> shift := by
  have bound : (addr >>> shift).toNat < 2 ^ width := by
    rw [UInt64.toNat_shiftRight, Nat.shiftRight_eq_div_pow]
    exact Nat.div_lt_of_lt_mul (by rw [total]; exact addr.toNat_lt)
  apply UInt64.toNat_inj.mp
  rw [pageAlignDown, UInt64.shiftRight_and, UInt64.toNat_and, ones,
    Nat.and_two_pow_sub_one_eq_mod, Nat.mod_eq_of_lt bound]

theorem place_pageAlignDown (addr : UInt64) : place (pageAlignDown addr) = place addr := by
  have l0 : pageAlignDown addr >>> 39 = addr >>> 39 :=
    shift_pageAlignDown (show _ = 2 ^ 25 - 1 by decide) (by decide) addr
  have l1 : pageAlignDown addr >>> 30 = addr >>> 30 :=
    shift_pageAlignDown (show _ = 2 ^ 34 - 1 by decide) (by decide) addr
  have l2 : pageAlignDown addr >>> 21 = addr >>> 21 :=
    shift_pageAlignDown (show _ = 2 ^ 43 - 1 by decide) (by decide) addr
  have l3 : pageAlignDown addr >>> 12 = addr >>> 12 :=
    shift_pageAlignDown (show _ = 2 ^ 52 - 1 by decide) (by decide) addr
  simp only [place, l0, l1, l2, l3]

theorem readPte_pageAlignDown (space : L0) (addr : UInt64) :
    readPte space (pageAlignDown addr) = readPte space addr := by
  rw [readPte, place_pageAlignDown, readPte]

theorem areas_tame (tame : Tame vipers expected pid viper phys)
    (areas : VmaList) : Tame vipers expected pid { viper with vmaList := areas } phys := by
  have same : entries (update vipers pid (some { viper with vmaList := areas })) =
      entries (update vipers pid (some viper)) := entries_same viper _ fun _ => rfl
  exact ⟨by rw [same]; exact tame.isolated, tame.good, tame.unswapped⟩

theorem requests_ahead (wanted : request ∈ requests viper.vmaList addr isWrite env) :
    request.addr = pageAlignDown addr ∨ request.addr ∈ ahead viper addr := by
  unfold requests growth prefaults at wanted
  unfold ahead
  cases located : viper.vmaList.find addr with
  | none =>
    simp only [located] at wanted ⊢
    cases stack : growable viper.vmaList addr with
    | none => simp [stack] at wanted
    | some slot =>
      simp only [stack] at wanted ⊢
      by_cases refused : pageAlignDown addr < 0x1000 ∨
          maxStackSize < (viper.vmaList.pool slot).finish - pageAlignDown addr
      · rcases refused with low | deep
        · simp [low] at wanted
        · simp [deep] at wanted
      obtain ⟨high, shallow⟩ := not_or.mp refused
      simp only [high, shallow, if_false] at wanted
      obtain ⟨target, member, rfl⟩ := List.mem_map.mp wanted
      exact .inr member
  | some slot =>
    simp only [located] at wanted ⊢
    split at wanted
    · simp at wanted
    split at wanted
    · simp at wanted
    rcases List.mem_cons.mp wanted with rfl | later
    · exact .inl rfl
    cases again : viper.vmaList.find (pageAlignDown addr) with
    | none => simp [again] at later
    | some next =>
      simp only [again, zeroPages] at later ⊢
      split at later
      · next anonymous =>
        obtain ⟨target, member, rfl⟩ := List.mem_map.mp later
        have below := List.all_eq_true.mp List.all_takeWhile target member
        right
        rw [if_pos anonymous]
        exact List.mem_filter.mpr ⟨(List.takeWhile_sublist _).subset member, by simpa using below⟩
      · simp at later

theorem handleDemandFault_tame (tame : Tame vipers expected pid viper phys) (isWrite : Bool)
    (env : Environment) (unmapped : isValid (readPte viper.space addr) = false)
    (clear : ∀ target ∈ ahead viper addr, isValid (readPte viper.space target) = false) :
    Tame vipers expected pid (handleDemandFault viper addr isWrite env phys).2.1
      (handleDemandFault viper addr isWrite env phys).2.2 := by
  have nothing : ∀ request ∈ requests viper.vmaList addr isWrite env,
      ∀ offset, expected (pid, place request.addr) offset = none := by
    intro request wanted
    rcases requests_ahead wanted with here | later
    · rw [here, place_pageAlignDown]
      exact tame_nothing tame unmapped
    · exact tame_nothing tame (clear _ later)
  rw [handleDemandFault_places]
  exact areas_tame (placeEach_rule (P := fun space phys => Tame vipers expected pid
    { viper with space } phys) (fun request wanted space between tame =>
      placeFresh_tame tame (nothing request wanted) _ _) tame) _

theorem trySwapIn_unswapped (unswapped : ∀ spot, isSwapEntry (readAt viper.space spot) = false)
    (addr : UInt64) (env : Environment) (phys : Physical) :
    trySwapIn viper addr env phys = (false, viper, phys) := by
  have resident : isSwapEntry (readPte viper.space (pageAlignDown addr)) = false := unswapped _
  unfold trySwapIn
  simp only [resident, Bool.not_false, if_true, ite_self]

section Remap

variable {key : Key}

/-- Where an entry was mapped the tables are there, so replacing it takes no page. -/
theorem within_along (fresh : UInt64 → Child) (put : Child → Physical → Bool × Child × Physical)
    (clear : Child → Child) (phys : Physical)
    (replaced : ∀ child, isValid (view child key) = true →
      ∃ next, put (clear child) phys = (true, next, phys)) (index : Fin 512) (table : Table Child)
    (present : isValid (table.view view (index, key)) = true) :
    ∃ next, within fresh put index (along clear index table) phys = (true, next, phys) := by
  cases entry : table.entries index with
  | table child =>
    simp only [Table.view, entry] at present
    rcases replaced child present with ⟨next, result⟩
    refine ⟨((table.set index (clear child)).set index next), ?_⟩
    simp [along, entry, within, getOrAllocTable, Table.set, result]
  | block | empty =>
    simp only [Table.view, entry] at present
    exact absurd present (by decide)

end Remap

theorem remap_present (present : isValid (readPte space va) = true)
    (page : UInt64) (protFlags : UInt32) (phys : Physical) :
    ∃ next, map (unmap space va 4096) va page 4096 protFlags phys = (true, next, phys) ∧
      Wrote readAt (place va) (makeEntry page protFlags) space next true := by
  have third := within_along emptyL3
    (fun table phys => (true, table.set (place va).2.2.2 (makeEntry page protFlags), phys))
    (fun table => table.set (place va).2.2.2 0) phys
    (fun table (_ : isValid (table.entries (place va).2.2.2) = true) => ⟨_, rfl⟩) (place va).2.2.1
  have second := within_along (emptyTable L3) _ _ phys third (place va).2.1
  rcases within_along (emptyTable L2) _ _ phys second (place va).1 space present with ⟨next, result⟩
  have mapped : mapPage (unmapPage space va) va page protFlags phys = (true, next, phys) := result
  refine ⟨next, by rw [map_page, unmap_page, mapped], fun other => ?_⟩
  rw [(mapPage_wrote mapped).1 other, unmapPage, clearAt_wrote (place va) space other]
  by_cases here : other = place va <;> simp [here]

theorem translate_pageAlignDown (present : isValid (readPte space addr) = true) :
    translate space (pageAlignDown addr) = pageOf (readPte space addr) := by
  have aligned : pageAlignDown addr &&& pageMask = 0 := by
    have apart : ~~~pageMask &&& pageMask = 0 := by decide
    rw [pageAlignDown, UInt64.and_assoc, apart, UInt64.and_zero]
  simp [translate, readPte_pageAlignDown, present, aligned]

theorem decRef_shared {manager : CowManager}
    (shared : ¬ manager.getRef page ≤ 1) : (manager.decRef page).1 = false := by
  unfold CowManager.getRef at shared
  unfold CowManager.decRef
  dsimp only at shared ⊢
  split
  · rfl
  rename_i tracked
  rw [if_neg tracked] at shared
  split
  · rfl
  simp only [decide_eq_false_iff_not]
  intro last
  apply shared
  have one : (manager.pageInfo (pageAlignDown page)).refcount = 1 := by
    have sum := congrArg (· + 1) last
    simpa using sum
  rw [one]
  exact UInt16.le_refl 1

theorem handleCowFault_tame (tame : Tame vipers expected pid viper phys)
    (present : isValid (readPte viper.space addr) = true)
    (unshared : ∀ slot, viper.vmaList.find addr = some slot →
      (viper.vmaList.pool slot).flags &&& vmaCow ≠ 0 →
      phys.cow.getRef (pageOf (readPte viper.space addr)) ≤ 1 →
      ∀ other theirs, entries (update vipers pid (some viper)) other = some theirs →
        theirs.page = pageOf (readPte viper.space addr) → other = (pid, place addr)) :
    Tame vipers expected pid (handleCowFault viper addr phys).2.1
      (handleCowFault viper addr phys).2.2 := by
  have mine : entries (update vipers pid (some viper)) (pid, place addr) =
      some ⟨pageOf (readPte viper.space addr), !isReadOnly (readPte viper.space addr)⟩ := by
    rw [readPte] at present ⊢
    simp [entries, mapping, present]
  have aligned : isValid (readPte viper.space (pageAlignDown addr)) = true := by
    rw [readPte_pageAlignDown]
    exact present
  unfold handleCowFault
  dsimp only
  rw [translate_pageAlignDown present]
  cases located : viper.vmaList.find addr with
  | none => exact tame
  | some slot =>
    dsimp only
    split
    · exact tame
    split
    · exact tame
    rename_i marked
    split
    · exact tame
    split
    next low =>
      -- the page is taken for the only owner's
      rcases remap_present aligned (pageOf (readPte viper.space addr))
        (asProt (viper.vmaList.pool slot).prot) phys with ⟨next, result, wrote⟩
      rw [place_pageAlignDown] at wrote
      have good := pageOf_good (readPte viper.space addr)
      simp only [result]
      refine ⟨?_, tame.good, wrote_unswapped wrote (makeEntry_valid good _) tame.unswapped⟩
      rw [entries_wrote wrote, mapping_makeEntry good]
      exact isolated_promote tame.isolated mine (unshared slot located marked low) _
    next shared =>
      cases free : phys.free with
      | nil =>
        simp only [allocPage, free]
        exact tame
      | cons page rest =>
        have good := tame.good page (by rw [free]; exact .head _)
        have isolated := tame.isolated
        rw [free] at isolated
        simp only [allocPage, free]
        rcases remap_present aligned page (asProt (viper.vmaList.pool slot).prot)
          (setFrame { phys with free := rest } page
            (phys.frames (pageOf (readPte viper.space addr)))) with ⟨next, result, wrote⟩
        rw [place_pageAlignDown] at wrote
        have copied := isolated_take isolated (fun offset value entitled => by
            rcases tame.isolated.reads _ _ _ entitled with ⟨again, found, holds⟩
            rw [mine] at found
            cases found
            exact holds)
          (!isReadOnly (makeEntry page (asProt (viper.vmaList.pool slot).prot)))
        have kept := decRef_shared shared
        simp only [result]
        refine ⟨?_, ?_, wrote_unswapped wrote (makeEntry_valid good _) tame.unswapped⟩
        · simp only [setFrame, kept, Bool.false_eq_true, if_false]
          rw [entries_wrote wrote, mapping_makeEntry good]
          exact copied
        · simp only [setFrame, kept, Bool.false_eq_true, if_false]
          intro other member
          exact tame.good other (by rw [free]; exact .tail _ member)

theorem handlePageFault_tame (found : m.vipers pid = some viper)
    (tame : Tame m.vipers expected pid viper m.phys)
    (careful : Careful m (.fault pid addr isWrite env)) :
    Tame m.vipers expected pid (handlePageFault viper addr isWrite env m.phys).2.1
      (handlePageFault viper addr isWrite env m.phys).2.2 := by
  rcases careful viper found with ⟨clear, unshared⟩
  unfold handlePageFault
  by_cases present : isValid (readPte viper.space addr) = true
  · simp only [present, Bool.not_true, Bool.false_eq_true, if_false]
    split
    next writes =>
      have same : update m.vipers pid (some viper) = m.vipers := by
        rw [← found, update_eq_self]
      refine handleCowFault_tame tame present ?_
      rw [same]
      exact unshared present writes
    · exact tame
  · have unmapped : isValid (readPte viper.space addr) = false := by simpa using present
    simp only [unmapped, Bool.not_false, if_true, tryDemandPaging,
      trySwapIn_unswapped tame.unswapped]
    exact handleDemandFault_tame tame isWrite env unmapped (clear unmapped)

structure Orderly (s : Observed) : Prop where
  isolated : Isolated (entries s.machine.vipers) s.machine.phys.frames s.machine.phys.free
    s.expected
  good : ∀ page ∈ s.machine.phys.free, Good page
  unswapped : ∀ pid viper spot, s.machine.vipers pid = some viper →
    isSwapEntry (readAt viper.space spot) = false

theorem entries_some (found : entries vipers owner = some mine) :
    ∃ viper, vipers owner.1 = some viper ∧ isValid (readAt viper.space owner.2) = true ∧
      mine = ⟨pageOf (readAt viper.space owner.2), !isReadOnly (readAt viper.space owner.2)⟩ := by
  rcases Option.bind_eq_some_iff.mp found with ⟨viper, present, mapped⟩
  unfold mapping at mapped
  split at mapped
  next valid => exact ⟨viper, present, valid, (Option.some.inj mapped).symm⟩
  · cases mapped

theorem orderly_readsBack (orderly : Orderly s) : ReadsBack s := by
  intro pid va value entitled
  rcases orderly.isolated.reads _ _ _ entitled with ⟨mine, found, holds⟩
  rcases entries_some found with ⟨viper, present, valid, rfl⟩
  have mapped : isValid (readPte viper.space va) = true := valid
  refine ⟨viper, present, ?_⟩
  rw [readByte, if_pos mapped]
  exact congrArg some holds

theorem orderly_tame (orderly : Orderly s) (found : s.machine.vipers pid = some viper) :
    Tame s.machine.vipers s.expected pid viper s.machine.phys := by
  have same : update s.machine.vipers pid (some viper) = s.machine.vipers := by
    rw [← found, update_eq_self]
  exact ⟨by rw [same]; exact orderly.isolated, orderly.good,
    fun spot => orderly.unswapped pid viper spot found⟩

theorem tame_orderly (orderly : Orderly s)
    (tame : Tame s.machine.vipers s.expected pid viper phys) :
    Orderly ⟨setMemory s.machine pid viper phys, s.expected⟩ := by
  refine ⟨tame.isolated, tame.good, ?_⟩
  intro other current spot found
  by_cases same : other = pid
  · subst other
    simp only [setMemory, setViper, update_self, Option.some.injEq] at found
    rw [← found]
    exact tame.unswapped spot
  · simp only [setMemory, setViper, update_of_ne same] at found
    exact orderly.unswapped other current spot found

theorem store_orderly (orderly : Orderly s) (found : s.machine.vipers pid = some viper)
    (permitted : permits (readPte viper.space addr) true = true) (value : UInt8) :
    Orderly ⟨{ s.machine with
        phys := storeByte s.machine.phys (readPte viper.space addr) addr value },
      remember s.machine s.expected (.store pid addr value)⟩ := by
  simp only [permits, Bool.and_eq_true, Bool.true_and, Bool.not_eq_true'] at permitted
  rcases permitted with ⟨⟨valid, _⟩, writable⟩
  have mine : entries s.machine.vipers (pid, place addr) =
      some ⟨pageOf (readPte viper.space addr), true⟩ := by
    rw [readPte] at valid writable ⊢
    simp [entries, found, mapping, valid, writable]
  have written := isolated_write orderly.isolated mine rfl (addr &&& pageMask) value
  exact ⟨written, orderly.good, orderly.unswapped⟩

def sharedEntry (pte : UInt64) : Option (Mapping UInt64) :=
  if isValid pte then some ⟨pageOf pte, false⟩ else none

theorem sharedEntry_some
    (found : sharedEntry pte = some mine) : isValid pte = true ∧ mine = ⟨pageOf pte, false⟩ := by
  unfold sharedEntry at found
  split at found
  next valid => exact ⟨valid, (Option.some.inj found).symm⟩
  · cases found

theorem seen_some (unswapped : isSwapEntry pte = false)
    (found : seen phys pte offset = some value) :
    isValid pte = true ∧ phys.frames (pageOf pte) offset = value := by
  unfold seen at found
  split at found
  next valid => exact ⟨valid, Option.some.inj found⟩
  · simp [unswapped] at found

theorem readOnly_valid (pte : UInt64) : isValid (pte ||| pteApRo) = isValid pte := by
  rw [isValid, isValid, Bits.or_and, show pteApRo &&& pteValid = 0 by decide, UInt64.or_zero]

theorem mapping_readOnly (valid : isValid pte = true) :
    mapping (pte ||| pteApRo) = sharedEntry pte := by
  have field : (pte ||| pteApRo) &&& addrMask = pte &&& addrMask := by
    rw [Bits.or_and, show pteApRo &&& addrMask = 0 by decide, UInt64.or_zero]
  have kept := (readOnly_valid pte).trans valid
  have locked : isReadOnly (pte ||| pteApRo) = true := by
    rw [isReadOnly, Bits.or_and, UInt64.and_self]
    simp [UInt64.or_eq_zero_iff, pteApRo]
  simp [mapping, sharedEntry, valid, kept, locked, pageOf, field]

theorem mapping_shareEntry (pte : UInt64) : mapping (shareEntry pte) = sharedEntry pte := by
  unfold shareEntry
  split
  next valid => exact mapping_readOnly valid
  next invalid =>
    simp [mapping, sharedEntry, invalid]

theorem mapping_inheritEntry (pte : UInt64) : mapping (inheritEntry pte 0) = sharedEntry pte := by
  unfold inheritEntry
  split
  next valid => exact mapping_readOnly valid
  next invalid =>
    have zero : isValid 0 = false := by decide
    simp [mapping, sharedEntry, invalid, zero]

theorem readOnly_unswapped (unswapped : isSwapEntry pte = false)
    (otherUnswapped : isSwapEntry other = false) :
    isSwapEntry (shareEntry pte) = false ∧ isSwapEntry (inheritEntry pte other) = false := by
  have kept : isValid pte = true → isSwapEntry (pte ||| pteApRo) = false := fun valid =>
    valid_unswapped ((readOnly_valid pte).trans valid)
  unfold shareEntry inheritEntry
  split
  next valid => exact ⟨kept valid, kept valid⟩
  · exact ⟨unswapped, otherUnswapped⟩

theorem fork_entries (found : m.vipers pid = some parent)
    (forked : (fork m pid capsOk).1 = some childPid)
    (low : ∀ spot : Place, spot.1 = 0 → isValid (readAt parent.space spot) = false)
    (unswapped : ∀ spot, isSwapEntry (readAt parent.space spot) = false) :
    pid ≠ childPid ∧ Drew m.phys (fork m pid capsOk).2.phys ∧
      (∀ owner, entries (fork m pid capsOk).2.vipers owner =
        if owner.1 = pid ∨ owner.1 = childPid then sharedEntry (readAt parent.space owner.2)
        else entries m.vipers owner) ∧
      ∀ other viper spot, (fork m pid capsOk).2.vipers other = some viper →
        (m.vipers other = some viper ∨ isSwapEntry (readAt viper.space spot) = false) := by
  rcases fork_some forked with ⟨again, space, phys, present, vacant, made, parentAreas, childAreas,
    _, parentSpace, childSpace, after, cloned, result⟩
  rw [found] at present
  cases present
  have apart : pid ≠ childPid := by
    rintro rfl
    rw [found] at vacant
    cases vacant
  rcases initSpace_cases m.phys with refused | ⟨l0Page, l1Page, rest, free, first⟩
  · rw [refused] at made
    cases made
  rw [first] at made
  cases made
  have done : (cloneCowFrom parent.space (firstSpace l0Page l1Page)
      { m.phys with free := rest }).1 = true := by rw [cloned]
  have shared := cloneCowFrom_entries done
  have drew := cloneCowFrom_drew parent.space (firstSpace l0Page l1Page)
    { m.phys with free := rest }
  rw [cloned] at drew
  simp only [cloned, firstSpace_unmapped] at shared
  have nothing : ∀ spot : Place, spot.1 = 0 → sharedEntry (readAt parent.space spot) = none := by
    intro spot lowest
    simp [sharedEntry, low spot lowest]
  have parentEntry : ∀ spot, mapping (readAt parentSpace spot) =
      sharedEntry (readAt parent.space spot) := by
    intro spot
    rw [(shared spot).1]
    split
    next lowest =>
      rw [nothing spot lowest]
      simp [mapping, low spot lowest]
    · exact mapping_shareEntry _
  have childEntry : ∀ spot, mapping (readAt childSpace spot) =
      sharedEntry (readAt parent.space spot) := by
    intro spot
    rw [(shared spot).2]
    split
    next lowest =>
      rw [nothing spot lowest]
      rfl
    · exact mapping_inheritEntry _
  have zero : isSwapEntry 0 = false := by decide
  refine ⟨apart, ?_, ?_, ?_⟩
  · rw [result]
    have taken : Drew m.phys { m.phys with free := rest } := ⟨rfl, [l0Page, l1Page], free.symm⟩
    exact drew_trans taken drew
  · rintro ⟨other, spot⟩
    rw [result]
    by_cases isChild : other = childPid
    · subst other
      simp [entries, setViper, inherit, childEntry]
    · by_cases isParent : other = pid
      · subst other
        simp [entries, setViper, update_of_ne isChild, parentEntry]
      · simp [entries, setViper, isChild, isParent]
  · intro other viper spot lookup
    rw [result] at lookup
    by_cases isChild : other = childPid
    · subst other
      simp only [setViper, update_self, Option.some.injEq] at lookup
      subst lookup
      right
      simp only [inherit]
      rw [(shared spot).2]
      split
      · exact zero
      · exact (readOnly_unswapped (unswapped spot) zero).2
    · by_cases isParent : other = pid
      · subst other
        simp only [setViper, update_of_ne isChild, update_self, Option.some.injEq] at lookup
        subst lookup
        right
        rw [(shared spot).1]
        split
        · exact unswapped spot
        · exact (readOnly_unswapped (unswapped spot) zero).1
      · simp only [setViper, update_of_ne isChild, update_of_ne isParent] at lookup
        exact .inl lookup

theorem fork_orderly (orderly : Orderly s) (careful : Careful s.machine (.fork pid capsOk)) :
    Orderly ⟨(fork s.machine pid capsOk).2, remember s.machine s.expected (.fork pid capsOk)⟩ := by
  rcases fork_cases s.machine pid capsOk with
    failed | ⟨parent, found, ⟨areas, marked⟩ | ⟨copyable, childPid, l0Page, l1Page, rest, _, free,
      succeeds⟩⟩
  · simp only [remember, failed]
    exact orderly
  · simp only [remember, marked]
    exact tame_orderly orderly (areas_tame (orderly_tame orderly found) areas)
  rcases careful parent found copyable with ⟨low, enough⟩
  have vacant : ∀ index, index ≠ 0 → (firstSpace l0Page l1Page).entries index = .empty := by
    intro index different
    simp [firstSpace, Table.set, emptyTable, update_of_ne different]
  have room : clonedTables parent.space ≤ rest.length := by
    rw [free, List.length_cons, List.length_cons] at enough
    omega
  have forked := succeeds (cloneCowFrom_succeeds vacant room)
  have unswapped := fun spot => orderly.unswapped pid parent spot found
  rcases fork_entries found forked low unswapped with ⟨apart, ⟨frames, suffix⟩, shared, resident⟩
  simp only [remember, forked, found]
  refine ⟨?_, ?_, ?_⟩
  · rw [frames]
    refine isolated_pool ?_ suffix.sublist.subperm
    refine isolated_share orderly.isolated
      (fun owner => if owner.1 = childPid then (pid, owner.2) else owner) ?_ ?_
    · intro owner mine lookup
      rw [shared] at lookup
      by_cases group : owner.1 = pid ∨ owner.1 = childPid
      · -- parent and child take the parent's pages over
        rw [if_pos group] at lookup
        rcases sharedEntry_some lookup with ⟨valid, rfl⟩
        have origin : (if owner.1 = childPid then (pid, owner.2) else owner) = (pid, owner.2) := by
          rcases group with isParent | isChild
          · rw [if_neg (isParent ▸ apart), ← isParent]
          · rw [if_pos isChild]
        rw [origin]
        refine ⟨⟨pageOf (readAt parent.space owner.2), !isReadOnly (readAt parent.space owner.2)⟩,
          ?_, rfl, fun impossible => by cases impossible⟩
        simp [entries, found, mapping, valid]
      · -- everybody else keeps its own
        rw [if_neg group] at lookup
        rcases not_or.mp group with ⟨notParent, notChild⟩
        simp only [if_neg notChild]
        refine ⟨mine, lookup, rfl, fun writable => ⟨writable, fun other same => ?_⟩⟩
        split at same
        · exact absurd (congrArg Prod.fst same).symm notParent
        · exact same
    · intro owner offset value entitled
      rw [shared]
      dsimp only at entitled
      by_cases group : owner.1 = pid ∨ owner.1 = childPid
      · rw [if_pos group] at entitled ⊢
        rcases seen_some (unswapped owner.2) entitled with ⟨valid, holds⟩
        exact ⟨⟨pageOf (readAt parent.space owner.2), false⟩, by simp [sharedEntry, valid], holds⟩
      · rw [if_neg group] at entitled ⊢
        exact orderly.isolated.reads owner offset value entitled
  · exact fun page member => orderly.good page (suffix.subset member)
  · intro other viper spot lookup
    rcases resident other viper spot lookup with before | clear
    · exact orderly.unswapped other viper spot before
    · exact clear

theorem observe_orderly {after : Observed} (orderly : Orderly s)
    (careful : Careful s.machine access)
    (step : Observe s access after) : Orderly after := by
  rcases after with ⟨machine, expected⟩
  rcases step with ⟨step, remembered⟩
  subst remembered
  cases access with
  | store pid addr value =>
    rcases step with ⟨viper, found, permitted, rfl⟩
    exact store_orderly orderly found permitted value
  | fault pid addr isWrite env =>
    rcases step with ⟨viper, found, _, _, rfl⟩
    exact tame_orderly orderly (handlePageFault_tame found (orderly_tame orderly found) careful)
  | fork pid capsOk =>
    rcases step with rfl
    exact fork_orderly orderly careful
  | reorder free =>
    rcases step with ⟨perm, rfl⟩
    exact ⟨isolated_pool orderly.isolated perm.subperm,
      fun page member => orderly.good page (perm.mem_iff.mp member), orderly.unswapped⟩

def unobserved (m : Machine) : Observed := ⟨m, fun _ _ => none⟩

/-- Nothing has been observed yet; a page mapped for writing is mapped once, no mapped
page is free, and none is on the swap device. -/
def Settled (m : Machine) : Prop := Orderly (unobserved m)

/-- In every run of stores, faults and forks that respects sharing, each process reads
back the last value it stored or, failing that, the value at the time of the fork. -/
theorem careful_runs_read_back {start : Machine} (settled : Settled start)
    {history : List (Access × Observed)}
    (trace : Trace (Guarded (fun s access => Careful s.machine access) Observe)
      (unobserved start) history) : ∀ visited ∈ history, ReadsBack visited.2 := by
  have preserved : ∀ before access after, Orderly before →
      Guarded (fun s access => Careful s.machine access) Observe before access after →
      Orderly after :=
    fun _ _ _ orderly step => observe_orderly orderly step.1 step.2
  have orderly := trace_invariant preserved settled trace
  exact fun visited member => orderly_readsBack (orderly visited member)

def perform (m : Machine) : Access → Machine
  | .store pid addr value =>
    match m.vipers pid with
    | none => m
    | some viper => { m with phys := storeByte m.phys (readPte viper.space addr) addr value }
  | .fault pid addr isWrite env =>
    match m.vipers pid with
    | none => m
    | some viper =>
      setMemory m pid (handlePageFault viper addr isWrite env m.phys).2.1
        (handlePageFault viper addr isWrite env m.phys).2.2
  | .fork pid capsOk => (fork m pid capsOk).2
  | .reorder free => { m with phys := { m.phys with free } }

def enabled (m : Machine) : Access → Bool
  | .store pid addr _ => (m.vipers pid).any fun viper => permits (readPte viper.space addr) true
  | .fault pid addr isWrite _ => (m.vipers pid).any fun viper =>
    userCodeBase ≤ addr && !permits (readPte viper.space addr) isWrite
  | .fork _ _ => true
  | .reorder free => free.isPerm m.phys.free

theorem perform_step (ready : enabled m access = true) :
    AccessStep m access (perform m access) := by
  cases access with
  | store pid addr value =>
    cases found : m.vipers pid with
    | none => simp [enabled, found] at ready
    | some viper =>
      simp only [enabled, found, Option.any_some] at ready
      exact ⟨viper, found, ready, by simp only [perform, found]⟩
  | fault pid addr isWrite env =>
    cases found : m.vipers pid with
    | none => simp [enabled, found] at ready
    | some viper =>
      simp only [enabled, found, Option.any_some, Bool.and_eq_true, decide_eq_true_eq,
        Bool.not_eq_true'] at ready
      exact ⟨viper, found, ready.1, ready.2, by simp only [perform, found]⟩
  | fork pid capsOk => rfl
  | reorder free => exact ⟨List.isPerm_iff.mp ready, rfl⟩

def advance (s : Observed) (access : Access) : Observed :=
  ⟨perform s.machine access, remember s.machine s.expected access⟩

def ready (s : Observed) (access : Access) : Bool := enabled s.machine access

theorem advance_observes (s : Observed) (access : Access) (admitted : ready s access = true) :
    Observe s access (advance s access) :=
  ⟨perform_step admitted, rfl⟩

/-- A fault where nothing is mapped yet, or a fork that is refused. -/
def cautious (m : Machine) : Access → Bool
  | .fault pid addr _ _ => (m.vipers pid).all fun viper => !isValid (readPte viper.space addr) &&
    (ahead viper addr).all fun target => !isValid (readPte viper.space target)
  | .fork pid _ => (m.vipers pid).all fun parent =>
    !(copyVmas parent.vmaList.chain parent.vmaList initMemoryRegions).1
  | _ => true

theorem cautious_careful (checked : cautious m access = true) : Careful m access := by
  cases access with
  | fault pid addr isWrite env =>
    intro viper found
    simp only [cautious, found, Option.all_some, Bool.and_eq_true, Bool.not_eq_true',
      List.all_eq_true] at checked
    exact ⟨fun _ => checked.2, fun valid => by simp [checked.1] at valid⟩
  | fork pid capsOk =>
    intro parent found copyable
    simp only [cautious, found, Option.all_some, Bool.not_eq_true'] at checked
    rw [Copyable, checked] at copyable
    cases copyable
  | store | reorder => trivial

/-- Nothing is mapped yet, in any of the processes. -/
theorem unmapped_settled (unmapped : ∀ pid viper spot, m.vipers pid = some viper →
      readAt viper.space spot = 0) (nodup : m.phys.free.Nodup)
    (good : ∀ page ∈ m.phys.free, Good page) : Settled m := by
  have zero : isValid 0 = false := by decide
  have nothing : ∀ owner mine, entries m.vipers owner ≠ some mine := by
    intro owner mine found
    obtain ⟨viper, lookup, valid, _⟩ := entries_some found
    rw [unmapped _ _ _ lookup, zero] at valid
    cases valid
  refine ⟨⟨?_, ?_, nodup, ?_⟩, good, ?_⟩
  · exact fun owner _ mine _ found => absurd found (nothing owner mine)
  · exact fun owner mine found => absurd found (nothing owner mine)
  · exact fun _ _ _ impossible => by cases impossible
  · intro pid viper spot found
    rw [unmapped pid viper spot found]
    decide

def twoProcesses : Machine := (create (create ⟨fun _ => none, bootMemory⟩ true).2 true).2

theorem twoProcesses_settled : Settled twoProcesses := by
  have free : twoProcesses.phys.free = bootMemory.free.drop 4 := rfl
  refine unmapped_settled (fun pid viper spot found => ?_) ?_ ?_
  · have made : twoProcesses.vipers =
        update (update (fun _ => none) 0 (some (newViper (firstSpace 0x41000000 0x41001000)))) 1
          (some (newViper (firstSpace 0x41002000 0x41003000))) := rfl
    rw [made] at found
    by_cases second : pid = 1
    · subst second
      rw [update_self] at found
      cases found
      exact firstSpace_unmapped ..
    rw [update_of_ne second] at found
    by_cases first : pid = 0
    · subst first
      rw [update_self] at found
      cases found
      exact firstSpace_unmapped ..
    · rw [update_of_ne first] at found
      cases found
  · rw [free]
    exact bootMemory_nodup.sublist (List.drop_sublist _ _)
  · rw [free]
    exact fun page member => bootMemory_good page (List.mem_of_mem_drop member)

/-- Both use the first page of their heap, and one of them tries to fork. -/
def sideBySide : List Access :=
  [.fault 0 userHeapBase true noFiles, .store 0 userHeapBase 1,
    .fault 1 userHeapBase true noFiles, .store 1 userHeapBase 2, .fork 0 true,
    .store 0 userHeapBase 3]

theorem side_by_side_reads_back :
    let history := historyOf advance (unobserved twoProcesses) sideBySide
    Trace (Guarded (fun s access => Careful s.machine access) Observe) (unobserved twoProcesses)
        history ∧
      ∀ visited ∈ history, ReadsBack visited.2 := by
  intro history
  have takes : ∀ s access, (ready s access && cautious s.machine access) = true →
      Guarded (fun s access => Careful s.machine access) Observe s access (advance s access) := by
    intro s access both
    rw [Bool.and_eq_true] at both
    exact ⟨cautious_careful both.2, advance_observes s access both.1⟩
  have trace : Trace (Guarded (fun s access => Careful s.machine access) Observe)
      (unobserved twoProcesses) history := historyOf_trace takes (by decide +kernel)
  exact ⟨trace, careful_runs_read_back twoProcesses_settled trace⟩

/-- A store to heap page 10, then a fault on page 8, which maps pages 9 to 12 ahead. -/
def clobberRun : List Access :=
  [.fault 0 0x10000A000 true noFiles, .store 0 0x10000A000 7, .fault 0 0x100008000 true noFiles]

theorem not_readsBack {other : UInt8}
    (entitled : s.expected (pid, place va) (va &&& pageMask) = some value)
    (reads : ((s.machine.vipers pid).bind fun viper =>
      readByte s.machine.phys viper.space va) = some other) (different : other ≠ value) :
    ¬ ReadsBack s := by
  intro readsBack
  rcases readsBack pid va value entitled with ⟨viper, found, seen⟩
  rw [found, Option.bind_some, seen] at reads
  exact different (Option.some.inj reads).symm

/-- The process loses what it stored to its heap. -/
theorem stored_byte_lost : Settled twoProcesses ∧
    Trace Observe (unobserved twoProcesses)
      (historyOf advance (unobserved twoProcesses) clobberRun) ∧
    ∃ visited ∈ historyOf advance (unobserved twoProcesses) clobberRun, ¬ ReadsBack visited.2 := by
  refine ⟨twoProcesses_settled, historyOf_trace advance_observes (by decide +kernel), _,
    .tail _ (.tail _ (.head _)), ?_⟩
  have entitled : (clobberRun.foldl advance (unobserved twoProcesses)).expected
      (0, place 0x10000A000) (0x10000A000 &&& pageMask) = some 7 := by
    decide +kernel
  have reads : (((clobberRun.foldl advance (unobserved twoProcesses)).machine.vipers 0).bind
      fun viper => readByte (clobberRun.foldl advance (unobserved twoProcesses)).machine.phys
        viper.space 0x10000A000) = some 0 := by
    decide +kernel
  exact not_readsBack entitled reads (by decide)

end ViperDos.Memory
