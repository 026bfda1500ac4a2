import ViperDos.DemandPaging
import ViperDos.ForkAreas
import Mathlib.Data.List.Pairwise

/-!
The order of the memory areas of a process. Areas are added only where the scan of the
list finds no overlap, and the scan is right because the list is sorted. The growth of a
stack moves the start of an area in place and looks at no other area, so the order
depends on what lies between the stack and the address of the fault.
-/

namespace ViperDos.Memory

open Transition Function

def Below (pool : Nat → Vma) (lower upper : Nat) : Prop :=
  (pool lower).start < (pool upper).start ∧ (pool lower).finish ≤ (pool upper).start

def InOrder (areas : VmaList) : Prop := areas.chain.Pairwise (Below areas.pool)

structure Arranged (areas : VmaList) : Prop where
  inOrder : InOrder areas
  nonempty : ∀ slot ∈ areas.chain, (areas.pool slot).start < (areas.pool slot).finish
  live : ∀ slot ∈ areas.chain, areas.used slot = true

def ClearOf (pool : Nat → Vma) (start finish : UInt64) (slot : Nat) : Prop :=
  (pool slot).finish ≤ start ∨ finish ≤ (pool slot).start

instance (pool : Nat → Vma) (lower upper : Nat) : Decidable (Below pool lower upper) :=
  inferInstanceAs (Decidable (_ ∧ _))

instance (areas : VmaList) : Decidable (InOrder areas) :=
  inferInstanceAs (Decidable (List.Pairwise ..))

theorem pairwise_either {Item : Type} {relation : Item → Item → Prop} {items : List Item}
    (pairs : items.Pairwise relation) {first second : Item} (here : first ∈ items)
    (there : second ∈ items) (apart : first ≠ second) :
    relation first second ∨ relation second first := by
  have symmetric : Std.Symm fun left right => relation left right ∨ relation right left :=
    ⟨fun _ _ => Or.symm⟩
  have either : items.Pairwise fun left right => relation left right ∨ relation right left :=
    pairs.imp .inl
  exact either.forall here there apart

variable {pool : Nat → Vma} {start finish addr : UInt64} {chain rest : List Nat}
  {new slot other first second head prev : Nat} {areas : VmaList} {area : Vma} {viper : Viper}

/-- On a sorted list the scan for overlaps may stop where it does. -/
theorem findOverlap_none (sorted : chain.Pairwise (Below pool))
    (none : (findOverlap pool start finish chain).isSome = false) :
    ∀ slot ∈ chain, ClearOf pool start finish slot := by
  induction chain with
  | nil => simp
  | cons head rest ih =>
    obtain ⟨first, tail⟩ := List.pairwise_cons.mp sorted
    unfold findOverlap at none
    split at none
    · cases none
    next apart =>
    have here : ClearOf pool start finish head := by
      by_cases before : start < (pool head).finish
      · exact .inr (UInt64.not_lt.mp fun inside => apart ⟨before, inside⟩)
      · exact .inl (UInt64.not_lt.mp before)
    refine List.forall_mem_cons.mpr ⟨here, fun slot later => ?_⟩
    split at none
    next past => exact .inr (UInt64.le_trans past (UInt64.le_of_lt (first slot later).1))
    · exact ih tail none slot later

/-- Of two areas that do not overlap, one is below the other. -/
theorem below_of_clearOf (fresh : (pool new).start < (pool new).finish)
    (there : (pool slot).start < (pool slot).finish)
    (outside : ClearOf pool (pool new).start (pool new).finish slot) :
    Below pool slot new ∨ Below pool new slot := by
  rcases outside with before | behind
  · exact .inl ⟨UInt64.lt_of_lt_of_le there before, before⟩
  · exact .inr ⟨UInt64.lt_of_lt_of_le fresh behind, behind⟩

theorem below_all (least : Below pool new head) (sorted : (head :: rest).Pairwise (Below pool)) :
    ∀ slot ∈ head :: rest, Below pool new slot := by
  refine List.forall_mem_cons.mpr ⟨least, fun slot later => ?_⟩
  have next := ((List.pairwise_cons.mp sorted).1 slot later).1
  exact ⟨UInt64.lt_trans least.1 next, UInt64.le_trans least.2 (UInt64.le_of_lt next)⟩

theorem insertAfter_sorted (outside : ∀ slot ∈ rest, Below pool slot new ∨ Below pool new slot)
    (ahead : Below pool prev new) (sorted : (prev :: rest).Pairwise (Below pool)) :
    (insertAfter pool new prev rest).Pairwise (Below pool) := by
  obtain ⟨least, tail⟩ := List.pairwise_cons.mp sorted
  induction rest generalizing prev with
  | nil => exact List.pairwise_cons.mpr ⟨by simpa using ahead, List.pairwise_singleton ..⟩
  | cons next rest ih =>
    obtain ⟨either, outsideTail⟩ := List.forall_mem_cons.mp outside
    unfold insertAfter
    split
    next further =>
      have nextAhead := either.resolve_right fun above => UInt64.lt_asymm further above.1
      obtain ⟨nextLeast, nextTail⟩ := List.pairwise_cons.mp tail
      refine List.pairwise_cons.mpr ⟨?_, ih outsideTail nextAhead tail nextLeast nextTail⟩
      intro slot member
      rcases mem_insertAfter.mp member with same | old
      · rw [same]
        exact ahead
      · exact least slot old
    next here =>
    have behind := below_all (either.resolve_left fun below => here below.1) tail
    exact List.pairwise_cons.mpr
      ⟨List.forall_mem_cons.mpr ⟨ahead, least⟩, List.pairwise_cons.mpr ⟨behind, tail⟩⟩

theorem insertSorted_sorted (outside : ∀ slot ∈ chain, Below pool slot new ∨ Below pool new slot)
    (sorted : chain.Pairwise (Below pool)) :
    (insertSorted pool new chain).Pairwise (Below pool) := by
  cases chain with
  | nil => exact List.pairwise_singleton ..
  | cons head rest =>
    obtain ⟨either, outsideTail⟩ := List.forall_mem_cons.mp outside
    dsimp only [insertSorted]
    split
    next lowest =>
      have least := either.resolve_left fun below => UInt64.lt_asymm lowest below.1
      exact List.pairwise_cons.mpr ⟨below_all least sorted, sorted⟩
    next further =>
    -- two areas that start at one address would overlap
    exact insertAfter_sorted outsideTail (either.resolve_right fun above => further above.1) sorted

theorem insert_arranged (arranged : Arranged areas) (unused : areas.used slot = false)
    (nonempty : area.start < area.finish)
    (outside : ∀ other ∈ areas.chain, ClearOf areas.pool area.start area.finish other) :
    Arranged (areas.insert slot area) := by
  have apart : ∀ other ∈ areas.chain, (areas.insert slot area).pool other = areas.pool other := by
    intro other member
    apply update_of_ne
    intro same
    rw [same] at member
    rw [arranged.live slot member] at unused
    cases unused
  have here : (areas.insert slot area).pool slot = area := update_self ..
  have nonemptyAll : ∀ other ∈ slot :: areas.chain, ((areas.insert slot area).pool other).start <
      ((areas.insert slot area).pool other).finish := by
    refine List.forall_mem_cons.mpr ⟨by rwa [here], fun other old => ?_⟩
    rw [apart other old]
    exact arranged.nonempty other old
  constructor
  case inOrder =>
    apply insertSorted_sorted
    · intro other member
      apply below_of_clearOf (nonemptyAll slot (.head _)) (nonemptyAll other (.tail _ member))
      unfold ClearOf
      rw [apart other member, here]
      exact outside other member
    · apply arranged.inOrder.imp_of_mem
      intro lower upper lowerMember upperMember below
      unfold Below
      rw [apart lower lowerMember, apart upper upperMember]
      exact below
  case nonempty =>
    intro other member
    exact nonemptyAll other (List.mem_cons.mpr (mem_insertSorted.mp member))
  case live =>
    intro other member
    dsimp only [VmaList.insert]
    by_cases same : other = slot
    · rw [same, update_self]
    · rw [update_of_ne same]
      exact arranged.live other ((mem_insertSorted.mp member).resolve_left same)

theorem arranged_congr {after : VmaList} (arranged : Arranged areas)
    (chain : after.chain = areas.chain)
    (used : after.used = areas.used)
    (same : ∀ slot, (after.pool slot).start = (areas.pool slot).start ∧
      (after.pool slot).finish = (areas.pool slot).finish) : Arranged after := by
  constructor
  case inOrder =>
    unfold InOrder Below
    simp only [chain, same]
    exact arranged.inOrder
  case nonempty =>
    simp only [chain, same]
    exact arranged.nonempty
  case live =>
    rw [chain, used]
    exact arranged.live

section

variable (arranged : Arranged areas)

include arranged

theorem add_arranged (start finish : UInt64)
    (prot : UInt32) (type : VmaType) : Arranged (areas.add start finish prot type).2 := by
  unfold VmaList.add
  split
  · exact arranged
  split
  · exact arranged
  next forward =>
  split
  · exact arranged
  next clear =>
  split
  · exact arranged
  next slot found =>
    have unused : areas.used slot = false := by simpa using List.find?_some found
    have outside := findOverlap_none arranged.inOrder (Bool.eq_false_iff.mpr clear)
    exact insert_arranged arranged unused (UInt64.not_le.mp forward) outside

theorem addFile_arranged (start finish : UInt64) (prot : UInt32)
    (inode offset : UInt64) : Arranged (areas.addFile start finish prot inode offset).2 := by
  have added := add_arranged arranged start finish prot .file
  unfold VmaList.addFile
  split
  next refused =>
    rw [refused] at added
    exact added
  next slot after placed =>
  rw [placed] at added
  refine arranged_congr added rfl rfl ?_
  intro other
  by_cases here : other = slot
  · subst other
    simp
  · simp [update_of_ne here]

theorem release_arranged (slot : Nat) : Arranged (areas.release slot) := by
  have nodup : areas.chain.Nodup := arranged.inOrder.imp fun below same => by
    rw [same] at below
    exact UInt64.lt_irrefl _ below.1
  constructor
  case inOrder => exact arranged.inOrder.sublist List.erase_sublist
  case nonempty => exact fun other member => arranged.nonempty other (List.mem_of_mem_erase member)
  case live =>
    intro other member
    obtain ⟨apart, old⟩ := (List.Nodup.mem_erase_iff nodup).mp member
    dsimp only [VmaList.release]
    rw [update_of_ne apart]
    exact arranged.live other old

theorem remove_arranged (slot : Nat) : Arranged (areas.remove slot).2 := by
  unfold VmaList.remove
  split
  · exact release_arranged arranged slot
  · exact arranged

theorem removeRange_arranged (start finish : UInt64) :
    Arranged (areas.removeRange start finish) := by
  have loop : ∀ (chain : List Nat) (areas : VmaList), Arranged areas →
      Arranged (VmaList.removeFrom start finish chain areas) := by
    intro chain
    induction chain with
    | nil => exact fun areas arranged => arranged
    | cons slot rest ih =>
      intro areas arranged
      unfold VmaList.removeFrom
      split
      · exact ih areas arranged
      · exact ih _ (release_arranged arranged slot)
  exact loop areas.chain areas arranged

end

theorem growth_some (found : growth areas addr = some (slot, start)) :
    slot ∈ areas.chain ∧ start < (areas.pool slot).start := by
  obtain ⟨stack, rfl⟩ := growth_growable found
  have under := (growable_some stack).2
  exact ⟨List.mem_of_find?_eq_some stack, Nat.lt_of_le_of_lt Nat.and_le_left under⟩

/-- No other area lies between the stack and the page it would grow down to. -/
def GapClear (areas : VmaList) (slot : Nat) (start : UInt64) : Prop :=
  ∀ other ∈ areas.chain, other ≠ slot →
    ClearOf areas.pool start (areas.pool slot).start other

section

@[simp] theorem setStart_other (apart : other ≠ slot) :
    (areas.setStart slot start).pool other = areas.pool other :=
  update_of_ne apart ..

@[simp] theorem setStart_start : ((areas.setStart slot start).pool slot).start = start := by
  simp [VmaList.setStart]

@[simp] theorem setStart_finish :
    ((areas.setStart slot start).pool slot).finish = (areas.pool slot).finish := by
  simp [VmaList.setStart]

theorem below_setStart (arranged : Arranged areas) (lower : start < (areas.pool slot).start)
    (clear : GapClear areas slot start) (member : first ∈ areas.chain)
    (below : Below areas.pool first second) :
    Below (areas.setStart slot start).pool first second := by
  unfold Below at *
  by_cases same : first = slot
  · subst first
    have apart : second ≠ slot := by
      intro same
      rw [same] at below
      exact UInt64.lt_irrefl _ below.1
    simp only [setStart_start, setStart_finish, setStart_other apart]
    exact ⟨UInt64.lt_trans lower below.1, below.2⟩
  · rw [setStart_other same]
    by_cases here : second = slot
    · subst second
      rw [setStart_start]
      rcases clear first member same with before | behind
      · exact ⟨UInt64.lt_of_lt_of_le (arranged.nonempty first member) before, before⟩
      · exact absurd below.1 (UInt64.not_lt.mpr behind)
    · rw [setStart_other here]
      exact below

theorem setStart_arranged (arranged : Arranged areas) (member : slot ∈ areas.chain)
    (lower : start < (areas.pool slot).start) (clear : GapClear areas slot start) :
    Arranged (areas.setStart slot start) := by
  constructor
  case inOrder =>
    apply arranged.inOrder.imp_of_mem
    intro first second firstMember _ below
    exact below_setStart arranged lower clear firstMember below
  case nonempty =>
    intro other otherMember
    by_cases same : other = slot
    · rw [same, setStart_start, setStart_finish]
      exact UInt64.lt_trans lower (arranged.nonempty slot member)
    · rw [setStart_other same]
      exact arranged.nonempty other otherMember
  case live => exact arranged.live

/-- Areas that are still in order after the growth were not in its way. -/
theorem inOrder_gapClear (arranged : Arranged areas) (member : slot ∈ areas.chain)
    (ordered : InOrder (areas.setStart slot start)) : GapClear areas slot start := by
  intro other otherMember apart
  have pair := pairwise_either (ordered.and arranged.inOrder) otherMember member apart
  rcases pair with ⟨below, _⟩ | ⟨_, above⟩
  · unfold Below at below
    rw [setStart_other apart, setStart_start] at below
    exact .inl below.2
  · exact .inr (UInt64.le_of_lt above.1)

end

inductive AreaOp where
  | add (start finish : UInt64) (prot : UInt32) (type : VmaType)
  | addFile (start finish : UInt64) (prot : UInt32) (inode offset : UInt64)
  | remove (slot : Nat)
  | removeRange (start finish : UInt64)
  | fault (addr : UInt64) (isWrite : Bool) (env : Environment) (phys : Physical)

def AreaStep (viper : Viper) : AreaOp → Viper → Prop
  | .add start finish prot type, after =>
    after = { viper with vmaList := (viper.vmaList.add start finish prot type).2 }
  | .addFile start finish prot inode offset, after =>
    after = { viper with vmaList := (viper.vmaList.addFile start finish prot inode offset).2 }
  | .remove slot, after => after = { viper with vmaList := (viper.vmaList.remove slot).2 }
  | .removeRange start finish, after =>
    after = { viper with vmaList := viper.vmaList.removeRange start finish }
  | .fault addr isWrite env phys, after =>
    after = (handleDemandFault viper addr isWrite env phys).2.1

def GrowsClear (viper : Viper) : AreaOp → Prop
  | .fault addr _ _ _ => ∀ slot start, growth viper.vmaList addr = some (slot, start) →
      GapClear viper.vmaList slot start
  | _ => True

variable {op : AreaOp} {after : Viper}

theorem areaStep_arranged (arranged : Arranged viper.vmaList)
    (clear : GrowsClear viper op) (step : AreaStep viper op after) : Arranged after.vmaList := by
  cases op with
  | add start finish prot type =>
    cases step
    exact add_arranged arranged start finish prot type
  | addFile start finish prot inode offset =>
    cases step
    exact addFile_arranged arranged start finish prot inode offset
  | remove slot =>
    cases step
    exact remove_arranged arranged slot
  | removeRange start finish =>
    cases step
    exact removeRange_arranged arranged start finish
  | fault addr isWrite env phys =>
    cases step
    rw [handleDemandFault_areas, grown]
    split
    · exact arranged
    next slot start found =>
      obtain ⟨member, lower⟩ := growth_some found
      exact setStart_arranged arranged member lower (clear slot start found)

theorem inOrder_growsClear (arranged : Arranged viper.vmaList)
    (step : AreaStep viper op after) (ordered : InOrder after.vmaList) : GrowsClear viper op := by
  cases op with
  | fault addr isWrite env phys =>
    cases step
    intro slot start found
    rw [handleDemandFault_areas, grown, found] at ordered
    exact inOrder_gapClear arranged (growth_some found).1 ordered
  | _ => trivial

/-- In every history the areas stay sorted and apart exactly if each growth of a stack
finds nothing between the stack and the page of the fault. -/
theorem areas_in_order_iff_gaps_clear {start : Viper} {history : List (AreaOp × Viper)}
    (arranged : Arranged start.vmaList) (trace : Trace AreaStep start history) :
    Trace (Guarded GrowsClear AreaStep) start history ↔
      ∀ visited ∈ history, InOrder visited.2.vmaList := by
  refine @trace_guarded_iff _ _ _ (fun viper => Arranged viper.vmaList) _ _
    (fun viper => InOrder viper.vmaList) ?_ ?_ ?_ _ arranged trace
  · exact fun _ _ _ => areaStep_arranged
  · exact fun _ holds => holds.inOrder
  · exact fun _ _ _ => inOrder_growsClear

theorem initMemoryRegions_arranged : Arranged initMemoryRegions := by
  have empty : Arranged VmaList.init := by
    constructor
    case inOrder => exact List.Pairwise.nil
    case nonempty => simp [VmaList.init]
    case live => simp [VmaList.init]
  exact add_arranged (add_arranged (add_arranged empty ..) ..) ..

def bareViper : Viper := newViper (emptyTable L1 0)

def guardlessViper : Viper :=
  { bareViper with vmaList := bareViper.vmaList.removeRange 0x7FFFFFEEF000 0x7FFFFFEF0000 }

def deepViper : Viper :=
  (handleDemandFault guardlessViper 0x7FFFFFEEE000 true noFiles spareMemory).2.1

def guardlessHistory : List (AreaOp × Viper) :=
  [(.removeRange 0x7FFFFFEEF000 0x7FFFFFEF0000, guardlessViper),
    (.fault 0x7FFFFFEEE000 true noFiles spareMemory, deepViper)]

/-- Without its guard page the stack may grow by two pages. -/
theorem guardless_stack_in_order : InOrder guardlessViper.vmaList ∧ InOrder deepViper.vmaList := by
  have arranged : Arranged bareViper.vmaList := initMemoryRegions_arranged
  have clear : GrowsClear guardlessViper (.fault 0x7FFFFFEEE000 true noFiles spareMemory) := by
    intro slot start found
    have only : growth guardlessViper.vmaList 0x7FFFFFEEE000 = some (1, 0x7FFFFFEEE000) := by
      decide
    cases only.symm.trans found
    unfold GapClear ClearOf
    decide
  have ordered := (@areas_in_order_iff_gaps_clear _ guardlessHistory arranged
    ⟨rfl, rfl, trivial⟩).mp ⟨⟨trivial, rfl⟩, ⟨clear, rfl⟩, trivial⟩
  exact ⟨ordered _ (.head _), ordered _ (.tail _ (.head _))⟩

/-- A fault two pages below the stack of a new process makes it grow over its guard page. -/
theorem stack_grows_over_guard : Arranged bareViper.vmaList ∧
    ¬ InOrder (handleDemandFault bareViper 0x7FFFFFEEE000 true noFiles spareMemory).2.1.vmaList := by
  refine ⟨initMemoryRegions_arranged, ?_⟩
  decide

end ViperDos.Memory
