import ViperDos.DemandPaging
import ViperDos.ForkAreas
import ViperDos.Ownership
import Mathlib.Algebra.Order.BigOperators.Group.List

/-!
Who owns which physical page. An address space owns the pages of its tables and the
pages they map; a process that was created has the heap area that keeps it from
forking, so no page ever has two owners, and a page on the allocator's list has none.
-/

namespace ViperDos.Memory

open Ownership Transition Function

variable {Child Key : Type} {taken : UInt64 → Prop} {pool rest : List UInt64} {table : Table Child}
  {child : Child} {index : Fin 512}

section Levels

def L3.members (table : L3) (index : Fin 512) : Unit → Option UInt64 := fun _ =>
  if isValid (table.entries index) then some (pageOf (table.entries index)) else none

def L3.pages (table : L3) : Option (Fin 512 × Unit) → Option UInt64 :=
  withHead table.page (family table.members)

def Table.members (pages : Child → Key → Option UInt64) (table : Table Child)
    (index : Fin 512) : Key → Option UInt64 :=
  match table.entries index with
  | .table child => pages child
  | _ => fun _ => none

def Table.pages (pages : Child → Key → Option UInt64) (table : Table Child) :
    Option (Fin 512 × Key) → Option UInt64 :=
  withHead table.page (family (table.members pages))

variable {pages : Child → Key → Option UInt64}

theorem members_set (table : Table Child) (index : Fin 512) (child : Child) :
    (table.set index child).members pages = update (table.members pages) index (pages child) := by
  funext other
  by_cases same : other = index
  · subst other
    simp [Table.members, Table.set]
  · simp [Table.members, Table.set, update_of_ne same]

def Outside (pages : Child → Key → Option UInt64) (table : Table Child) (index : Fin 512)
    (taken : UInt64 → Prop) : UInt64 → Prop :=
  Beyond (table.members pages) index fun page => taken page ∨ page = table.page

theorem table_member (holds : Holds Good (table.pages pages) taken pool) (index : Fin 512) :
    Holds Good (table.members pages index) (Outside pages table index taken) pool :=
  holds_member (holds_tail holds) index

theorem table_replace (before : Holds Good (table.pages pages) taken pool)
    (holds : Holds Good (pages child) (Outside pages table index taken) rest) :
    Holds Good ((table.set index child).pages pages) taken rest := by
  refine holds_withHead before ?_
  rw [members_set]
  exact holds_replace (holds_tail before) holds

end Levels

variable {good : UInt64 → Prop} {fresh : UInt64 → Child}
  {body : Child → Physical → Bool × Child × Physical}

section Within

variable {pages : Child → Option Key → Option UInt64} {page : UInt64}

theorem holds_fresh (holds : Holds good (fun _ : Option Key => none) taken (page :: pool)) :
    Holds good (withHead page fun _ : Key => none) taken pool := by
  classical
  have owned := holds_take holds none
  have same : update (fun _ : Option Key => none) none (some page) =
      withHead page fun _ : Key => none := by
    funext key
    cases key <;> rfl
  rwa [same] at owned

def Consumes (pages : Child → Key → Option UInt64) (page : UInt64)
    (body : Child → Physical → Bool × Child × Physical) : Prop :=
  ∀ child phys taken, Holds Good (pages child) taken (page :: phys.free) →
    Holds Good (pages (body child phys).2.1) taken
      (if (body child phys).1 = true then (body child phys).2.2.free
        else page :: (body child phys).2.2.free)

theorem within_consumes (blank : ∀ page, pages (fresh page) = withHead page fun _ => none)
    (consumes : Consumes pages page body) (index : Fin 512) :
    Consumes (Table.pages pages) page (within fresh body index) := by
  intro parent phys taken holds
  rcases getOrAllocTable_cases fresh parent index phys with
    refused | ⟨child, entry, found⟩ | ⟨next, rest, entry, free, obtained⟩
  · simpa only [within, refused, Bool.false_eq_true, if_false] using holds
  · simp only [within, found]
    refine table_replace holds (consumes child phys _ ?_)
    have member := table_member holds index
    simpa only [Table.members, entry] using member
  · simp only [within, obtained]
    refine table_replace holds (consumes _ _ _ ?_)
    have member := table_member holds index
    simp only [Table.members, entry, free] at member
    rw [blank]
    exact holds_fresh (holds_perm member (List.Perm.swap ..))

end Within

abbrev SpaceKey :=
  Option (Fin 512 × Option (Fin 512 × Option (Fin 512 × Option (Fin 512 × Unit))))

def spacePages : L0 → SpaceKey → Option UInt64 :=
  Table.pages (Table.pages (Table.pages L3.pages))

theorem l3_set_pages (table : L3) (index : Fin 512) (pte : UInt64) :
    (table.set index pte).pages = update table.pages (some (index, ()))
      (if isValid pte then some (pageOf pte) else none) := by
  funext key
  rcases key with _ | ⟨other, ⟨⟩⟩
  · rfl
  by_cases same : other = index
  · subst other
    simp [L3.pages, L3.members, L3.set, withHead, family]
  · have different : some (other, ()) ≠ some (index, ()) := fun equal =>
      same (congrArg Prod.fst (Option.some.inj equal))
    simp [L3.pages, L3.members, L3.set, withHead, family, update_of_ne same, update_of_ne different]

theorem emptyL3_pages (page : UInt64) : (emptyL3 page).pages = withHead page fun _ => none := by
  funext key
  cases key with
  | none => rfl
  | some index => simp [L3.pages, L3.members, emptyL3, withHead, family, isValid]

variable {Spot : Type} {pte va page start finish addr : UInt64} {space middle next : L0}
  {phys between after : Physical} {protFlags : UInt32} {done : Bool} {count : Nat} {region : Region}
  {view : Child → Spot → UInt64} {addrs : List UInt64} {viper : Viper}
  {step : Physical → Fin 512 → Physical} {current : Fin 512 → Key → Option UInt64}

theorem emptyTable_pages (pages : Child → Key → Option UInt64)
    (page : UInt64) : (emptyTable Child page).pages pages = withHead page fun _ => none := by
  funext key
  cases key <;> rfl

theorem writeAt_consumes (spot : Place) (valid : isValid pte = true) :
    Consumes spacePages (pageOf pte) (writeAt spot pte) := by
  have leaf : Consumes L3.pages (pageOf pte)
      (fun table phys => (true, table.set spot.2.2.2 pte, phys)) := by
    intro table phys taken holds
    simp only [l3_set_pages, valid, if_true]
    exact holds_take holds (some (spot.2.2.2, ()))
  have third := within_consumes emptyL3_pages leaf spot.2.2.1
  have second := within_consumes (emptyTable_pages L3.pages) third spot.2.1
  exact within_consumes (emptyTable_pages (Table.pages L3.pages)) second spot.1

/-- An operation on one address space that keeps ownership exclusive, whatever the others
own, and counts no references. -/
def Keeps (space : L0) (phys : Physical) (next : L0) (after : Physical) : Prop :=
  after.cow = phys.cow ∧ ∀ taken, Holds Good (spacePages space) taken phys.free →
    Holds Good (spacePages next) taken after.free

theorem keeps_refl (space : L0) (phys : Physical) : Keeps space phys space phys :=
  ⟨rfl, fun _ holds => holds⟩

theorem keeps_trans (first : Keeps space phys middle between)
    (second : Keeps middle between next after) : Keeps space phys next after :=
  ⟨second.1.trans first.1, fun taken holds => second.2 taken (first.2 taken holds)⟩

theorem fillPage_free (phys : Physical) (page : UInt64) (fill : Option Frame) :
    (fillPage phys page fill).free = phys.free ∧ (fillPage phys page fill).cow = phys.cow := by
  cases fill <;> exact ⟨rfl, rfl⟩

/-- A page taken from the pool and mapped is owned, and otherwise still in hand. -/
theorem mapPage_holds (mapped : mapPage space va page protFlags phys = (done, next, after))
    (holds : Holds Good (spacePages space) taken (page :: phys.free)) :
    Holds Good (spacePages next) taken
      (if done = true then after.free else page :: after.free) := by
  have good : Good page := holds.poolGood page (.head _)
  have valid := makeEntry_valid good protFlags
  have consumed := writeAt_consumes (place va) valid space phys taken
  rw [makeEntry_page good protFlags] at consumed
  have result := consumed holds
  rw [mapPage] at mapped
  simpa only [mapped] using result

theorem mapPage_cow (mapped : mapPage space va page protFlags phys = (done, next, after)) :
    after.cow = phys.cow := by
  rcases writeAt_supplied (place va) (makeEntry page protFlags) space phys with ⟨_, _, same⟩
  rw [mapPage] at mapped
  rw [mapped] at same
  have equal := congrArg Physical.cow same
  exact equal

theorem runOf_cons (page : UInt64) (count : Nat) :
    runOf page (count + 1) = page :: runOf (page + 4096) count := by
  unfold runOf
  rw [List.range_succ_eq_map, List.map_cons, List.map_map]
  refine congrArg₂ List.cons (by simp) (List.map_congr_left fun i _ => ?_)
  have next : UInt64.ofNat (4096 * (i + 1)) = 4096 + UInt64.ofNat (4096 * i) := by
    rw [Nat.mul_succ, Nat.add_comm, UInt64.ofNat_add]
    rfl
  rw [Function.comp_apply, Nat.succ_eq_add_one, next, UInt64.add_assoc]

theorem mapPages_holds (mapped : mapPages space va page protFlags phys count = (true, next, after))
    (holds : Holds Good (spacePages space) taken (runOf page count ++ phys.free)) :
    Holds Good (spacePages next) taken after.free := by
  induction count generalizing space va page phys with
  | zero =>
    cases mapped
    exact holds
  | succ count ih =>
    rw [runOf_cons] at holds
    unfold mapPages at mapped
    rcases first : mapPage space va page protFlags phys with ⟨_ | _, middle, between⟩
    · rw [first] at mapped
      cases mapped
    rw [first] at mapped
    have owned := mapPage_holds first (holds_aside holds)
    rw [if_pos rfl] at owned
    have nodup := (List.nodup_append'.mp (List.nodup_cons.mp holds.nodup).2).1
    have rest := holds_return owned nodup
      (fun other kept => holds.poolGood other (.tail _ (List.mem_append_left _ kept)))
      fun other kept outside =>
        holds.reserved other outside (.tail _ (List.mem_append_left _ kept))
    exact ih mapped rest

theorem mapPages_cow (mapped : mapPages space va page protFlags phys count = (done, next, after)) :
    after.cow = phys.cow := by
  obtain ⟨_, _, same⟩ := mapPages_supplied space va page protFlags phys count
  rw [mapped] at same
  have equal := congrArg Physical.cow same
  exact equal

theorem sum_lowered {least most : Region → Nat} {regions : List Region}
    (less : ∀ region, least region ≤ most region) (zero : least region = 0)
    (member : region ∈ regions) :
    (regions.map least).sum + most region ≤ (regions.map most).sum := by
  induction regions with
  | nil => cases member
  | cons first rest ih =>
    rw [List.map_cons, List.map_cons, List.sum_cons, List.sum_cons]
    rcases List.mem_cons.mp member with rfl | later
    · have others := List.sum_le_sum fun other (_ : other ∈ rest) => less other
      omega
    · have others := ih later
      have here := less first
      omega

/-- A run is mapped if there are free pages for the tables that its regions miss. -/
theorem mapPages_succeeds {regions : List Region}
    (reach : ∀ addr ∈ runOf va count, Open space (regionOf (place addr)))
    (known : ∀ addr ∈ runOf va count, regionOf (place addr) ∈ regions)
    (enough : (regions.map (missingTables space)).sum ≤ phys.free.length) :
    (mapPages space va page protFlags phys count).1 = true := by
  induction count generalizing space va page phys with
  | zero => rfl
  | succ count ih =>
    rw [runOf_cons] at reach known
    have member := known va (.head _)
    have few := List.le_sum_of_mem (List.mem_map_of_mem (f := missingTables space) member)
    obtain ⟨next, after, done, spent, there, kept, less⟩ := writeAt_succeeds (place va)
      (makeEntry page protFlags) space phys (reach va (.head _)) (by omega)
    have lowered := sum_lowered less there member
    unfold mapPages mapPage
    rw [done]
    exact ih (fun addr later => kept _ (reach addr (.tail _ later)))
      (fun addr later => known addr (.tail _ later)) (by omega)

theorem placeFresh_keeps (space : L0) (va : UInt64) (fill : Option Frame) (protFlags : UInt32)
    (phys : Physical) :
    Keeps space phys (placeFresh space va fill protFlags phys).2.1
      (placeFresh space va fill protFlags phys).2.2 := by
  rcases placeFresh_cases space va fill protFlags phys with
    ⟨_, result⟩ | ⟨page, rest, free, next, after, outcome⟩
  · rw [result]
    exact keeps_refl space phys
  rcases fillPage_free { phys with free := rest } page fill with ⟨filledFree, filledCow⟩
  rcases outcome with ⟨mapped, result⟩ | ⟨failed, result⟩
  · rw [result]
    refine ⟨(mapPage_cow mapped).trans filledCow, fun taken holds => ?_⟩
    rw [free] at holds
    exact mapPage_holds mapped (filledFree ▸ holds)
  · rw [result]
    refine ⟨(mapPage_cow failed).trans filledCow, fun taken holds => ?_⟩
    rw [free] at holds
    exact mapPage_holds failed (filledFree ▸ holds)

theorem growHeap_keeps (fill : Option Frame) (addrs : List UInt64) (space : L0) (phys : Physical) :
    Keeps space phys (growHeap fill addrs space phys).2.1 (growHeap fill addrs space phys).2.2 := by
  induction addrs generalizing space phys with
  | nil => exact keeps_refl _ _
  | cons addr rest ih =>
    have placed := placeFresh_keeps space addr fill protRw phys
    rcases result : placeFresh space addr fill protRw phys with ⟨_ | _ | _, next, after⟩
    all_goals
      rw [result] at placed
      simp only [growHeap, result]
    · exact placed
    · exact placed
    · exact keeps_trans placed (ih next after)

def Releases {Child Key Spot : Type} (view : Child → Spot → UInt64)
    (pages : Child → Key → Option UInt64) (spot : Spot) (body : Child → Child) : Prop :=
  ∀ child taken pool, isValid (view child spot) = true → Holds Good (pages child) taken pool →
    Holds Good (pages (body child)) taken (pageOf (view child spot) :: pool)

variable {pages : Child → Key → Option UInt64}

theorem along_releases {body : Child → Child} {spot : Spot}
    (releases : Releases view pages spot body) (index : Fin 512) :
    Releases (Table.view view) (Table.pages pages) (index, spot) (along body index) := by
  intro table taken pool valid holds
  cases entry : table.entries index with
  | table child =>
    have member := table_member holds index
    simp only [Table.view, entry] at valid ⊢
    simp only [Table.members, entry] at member
    simp only [along, entry]
    exact table_replace holds (releases child _ pool valid member)
  | block | empty => simp [Table.view, entry, isValid] at valid

theorem l3_releases (index : Fin 512) :
    Releases L3.entries L3.pages index (fun table => table.set index 0) := by
  intro table taken pool valid holds
  have found : table.pages (some (index, ())) = some (pageOf (table.entries index)) := by
    simp [L3.pages, L3.members, withHead, family, valid]
  have cleared : isValid 0 = false := by decide
  rw [l3_set_pages, cleared]
  exact holds_release holds found

theorem clearAt_releases (spot : Place) : Releases readAt spacePages spot (clearAt spot) := by
  have third := along_releases (l3_releases spot.2.2.2) spot.2.2.1
  have second := along_releases third spot.2.1
  exact along_releases second spot.1

theorem shrinkHeap_keeps (aligned : ∀ addr ∈ addrs, addr &&& pageMask = 0) (space : L0)
    (phys : Physical) :
    Keeps space phys (shrinkHeap addrs space phys).1 (shrinkHeap addrs space phys).2 := by
  induction addrs generalizing space phys with
  | nil => exact keeps_refl _ _
  | cons addr rest ih =>
    have later := ih fun other member => aligned other (.tail _ member)
    by_cases absent : translate space addr = 0
    · simp only [shrinkHeap, absent, if_true]
      exact later space phys
    have valid : isValid (readAt space (place addr)) = true := by
      by_contra invalid
      simp [translate, readPte, invalid] at absent
    have page : translate space addr = pageOf (readAt space (place addr)) := by
      simp only [translate, readPte, valid, if_true, aligned addr (.head _), UInt64.or_zero]
    have freed : Keeps space phys (unmap space addr 4096)
        (freePage phys (translate space addr)) := by
      refine ⟨rfl, fun taken holds => ?_⟩
      rw [page, unmap_page, unmapPage]
      exact clearAt_releases (place addr) space taken phys.free valid holds
    simp only [shrinkHeap, absent, if_false]
    exact keeps_trans freed (later _ _)

theorem mask_mod (word : UInt64) : word &&& pageMask = 0 ↔ word.toNat % 4096 = 0 := by
  have value : (word &&& pageMask).toNat = word.toNat % 4096 := by
    exact Nat.and_two_pow_sub_one_eq_mod word.toNat 12
  rw [← value]
  exact ⟨fun zero => by rw [zero]; rfl, fun zero => UInt64.toNat_inj.mp zero⟩

theorem pageRange_aligned (aligned : start &&& pageMask = 0)
    (member : addr ∈ pageRange start finish) : addr &&& pageMask = 0 := by
  unfold pageRange at member
  split at member
  · rcases List.mem_map.mp member with ⟨i, _, rfl⟩
    rw [mask_mod] at aligned ⊢
    rw [UInt64.toNat_add, UInt64.toNat_ofNat']
    omega
  · cases member

theorem pageAlignUp_aligned (addr : UInt64) : pageAlignUp addr &&& pageMask = 0 := by
  have apart : ~~~pageMask &&& pageMask = 0 := by decide
  rw [pageAlignUp, UInt64.and_assoc, apart, UInt64.and_zero]

theorem doSbrk_keeps (viper : Viper) (increment : Int64) (phys : Physical) :
    Keeps viper.space phys (doSbrk viper increment phys).2.1.space
        (doSbrk viper increment phys).2.2 ∧
      (doSbrk viper increment phys).2.1.vmaList = viper.vmaList := by
  by_cases still : increment = 0
  · simp only [doSbrk, still, if_true]
    exact ⟨keeps_refl _ _, trivial⟩
  by_cases under : increment < 0 ∧ viper.heapBreak - viper.heapStart < (-increment).toUInt64
  · simp only [doSbrk, still, under, if_true, if_false, and_self]
    exact ⟨keeps_refl _ _, trivial⟩
  by_cases up : 0 < increment
  · by_cases beyond : viper.heapMax < viper.heapBreak + increment.toUInt64
    · simp only [doSbrk, still, under, up, beyond, if_true, if_false]
      exact ⟨keeps_refl _ _, trivial⟩
    have grown := growHeap_keeps (some zeroFrame) (pageRange (pageAlignUp viper.heapBreak)
      (pageAlignUp (viper.heapBreak + increment.toUInt64))) viper.space phys
    simp only [doSbrk, still, under, up, beyond, if_true, if_false]
    rcases result : growHeap (some zeroFrame) (pageRange (pageAlignUp viper.heapBreak)
      (pageAlignUp (viper.heapBreak + increment.toUInt64))) viper.space phys with
      ⟨_ | _, space, after⟩
    all_goals
      rw [result] at grown
      exact ⟨grown, rfl⟩
  · by_cases beyond : viper.heapMax < viper.heapBreak - (-increment).toUInt64
    · simp only [doSbrk, still, under, up, beyond, if_true, if_false]
      exact ⟨keeps_refl _ _, trivial⟩
    have aligned := pageAlignUp_aligned (viper.heapBreak - (-increment).toUInt64)
    simp only [doSbrk, still, under, up, beyond, if_false]
    exact ⟨shrinkHeap_keeps (fun addr member => pageRange_aligned aligned member)
      viper.space phys, trivial⟩

theorem sysSbrk_keeps (viper : Viper) (increment : Int64) (phys : Physical) :
    Keeps viper.space phys (sysSbrk viper increment phys).2.1.space
        (sysSbrk viper increment phys).2.2 ∧
      (sysSbrk viper increment phys).2.1.vmaList = viper.vmaList := by
  unfold sysSbrk
  dsimp only
  split
  · exact ⟨keeps_refl _ _, rfl⟩
  split
  · exact ⟨keeps_refl _ _, rfl⟩
  split
  · exact ⟨keeps_refl _ _, rfl⟩
  split
  · exact ⟨keeps_refl _ _, rfl⟩
  split
  · exact ⟨keeps_refl _ _, rfl⟩
  split
  · have grown := growHeap_keeps none (pageRange (pageAlignUp viper.heapBreak)
      (pageAlignUp (viper.heapBreak + increment.toUInt64))) viper.space phys
    rcases result : growHeap none (pageRange (pageAlignUp viper.heapBreak)
      (pageAlignUp (viper.heapBreak + increment.toUInt64))) viper.space phys with
      ⟨_ | _, space, after⟩
    all_goals
      rw [result] at grown
      exact ⟨grown, rfl⟩
  · exact ⟨keeps_refl _ _, rfl⟩

theorem swapIn_free (phys : Physical) (pte dest : UInt64) (deviceOk : Bool) :
    (swapIn phys pte dest deviceOk).2.free = phys.free ∧
      (swapIn phys pte dest deviceOk).2.cow = phys.cow := by
  unfold swapIn
  dsimp only
  repeat' split
  all_goals exact ⟨rfl, rfl⟩

theorem trySwapIn_keeps (viper : Viper) (addr : UInt64) (env : Environment) (phys : Physical) :
    Keeps viper.space phys (trySwapIn viper addr env phys).2.1.space
        (trySwapIn viper addr env phys).2.2 ∧
      (trySwapIn viper addr env phys).2.1.vmaList = viper.vmaList := by
  unfold trySwapIn
  dsimp only
  split
  · exact ⟨keeps_refl _ _, rfl⟩
  split
  · exact ⟨keeps_refl _ _, rfl⟩
  unfold allocPage
  cases free : phys.free with
  | nil => exact ⟨keeps_refl _ _, rfl⟩
  | cons page rest =>
    have filled := swapIn_free { phys with free := rest }
      (readPte viper.space (pageAlignDown addr)) page env.deviceOk
    dsimp only
    rcases result : swapIn { phys with free := rest }
      (readPte viper.space (pageAlignDown addr)) page env.deviceOk with ⟨_ | _, loaded⟩
    all_goals
      rw [result] at filled
      dsimp only at filled ⊢
    · refine ⟨⟨filled.2, fun taken holds => ?_⟩, rfl⟩
      rw [free] at holds
      simpa only [freePage, filled.1] using holds
    rw [map_page]
    split <;> rename_i mapped
    all_goals
      refine ⟨⟨(mapPage_cow mapped).trans filled.2, fun taken holds => ?_⟩, rfl⟩
      rw [free] at holds
      have owned := mapPage_holds mapped (filled.1 ▸ holds)
      simpa only [if_true, Bool.false_eq_true, if_false, freePage] using owned

def AreasKept (areas after : VmaList) : Prop :=
  after = areas ∨
    ∃ slot start, (areas.pool slot).type = .stack ∧ after = areas.setStart slot start

theorem grown_kept (areas : VmaList) (addr : UInt64) : AreasKept areas (grown areas addr) := by
  unfold grown
  cases found : growth areas addr with
  | none => exact .inl rfl
  | some grows =>
    obtain ⟨slot, start⟩ := grows
    exact .inr ⟨slot, start, (growable_some (growth_growable found).1).1, rfl⟩

theorem handleDemandFault_keeps (viper : Viper) (addr : UInt64) (isWrite : Bool)
    (env : Environment) (phys : Physical) :
    Keeps viper.space phys (handleDemandFault viper addr isWrite env phys).2.1.space
        (handleDemandFault viper addr isWrite env phys).2.2 ∧
      AreasKept viper.vmaList (handleDemandFault viper addr isWrite env phys).2.1.vmaList := by
  rw [handleDemandFault_places]
  refine ⟨placeEach_rule (P := Keeps viper.space phys) ?_ (keeps_refl _ _), grown_kept _ _⟩
  intro request _ space between kept
  exact keeps_trans kept (placeFresh_keeps _ _ _ _ _)

def Unmarked (areas : VmaList) : Prop := ∀ slot, (areas.pool slot).flags = 0

theorem handleCowFault_unmarked (unmarked : Unmarked viper.vmaList) (addr : UInt64)
    (phys : Physical) : handleCowFault viper addr phys = (.unhandled, viper, phys) := by
  unfold handleCowFault
  cases viper.vmaList.find addr with
  | none => rfl
  | some slot => simp [unmarked slot]

theorem handlePageFault_keeps (unmarked : Unmarked viper.vmaList)
    (addr : UInt64) (isWrite : Bool) (env : Environment) (phys : Physical) :
    Keeps viper.space phys (handlePageFault viper addr isWrite env phys).2.1.space
        (handlePageFault viper addr isWrite env phys).2.2 ∧
      AreasKept viper.vmaList (handlePageFault viper addr isWrite env phys).2.1.vmaList := by
  unfold handlePageFault
  split
  · rcases trySwapIn_keeps viper addr env phys with ⟨swapped, areas⟩
    unfold tryDemandPaging
    rcases result : trySwapIn viper addr env phys with ⟨_ | _, next, after⟩
    all_goals
      rw [result] at swapped areas
    · rcases handleDemandFault_keeps next addr isWrite env after with ⟨keeps, kept⟩
      rw [areas] at kept
      exact ⟨keeps_trans swapped keeps, kept⟩
    · exact ⟨swapped, .inl areas⟩
  split
  · simp only [tryCowHandling, handleCowFault_unmarked unmarked]
    exact ⟨keeps_refl _ _, .inl rfl⟩
  · exact ⟨keeps_refl _ _, .inl rfl⟩

def Uncounted (phys : Physical) : Prop := ∀ page, phys.cow.getRef page = 0

def Frees {Child Key : Type} (pages : Child → Key → Option UInt64)
    (body : Child → Physical → Physical) : Prop :=
  ∀ child phys taken, Uncounted phys → Holds Good (pages child) taken phys.free →
    (body child phys).cow = phys.cow ∧
      Holds Good (fun _ : Key => none) taken (body child phys).free

/-- The loop over the entries of a table frees them one after the other. What the skipped
entries own is never looked at again. -/
theorem entries_freed {members : Fin 512 → Key → Option UInt64}
    (frees : ∀ index, Frees (fun _ : Unit => members index) (fun _ phys => step phys index))
    {order : List (Fin 512)} (nodup : order.Nodup)
    (same : ∀ index ∈ order, current index = members index) (uncounted : Uncounted phys)
    (holds : Holds Good (family current) taken phys.free) :
    (order.foldl step phys).cow = phys.cow ∧ ∃ left : Fin 512 → Key → Option UInt64,
        Holds Good (family left) taken (order.foldl step phys).free := by
  induction order generalizing current phys with
  | nil => exact ⟨rfl, current, holds⟩
  | cons index rest ih =>
    have member := holds_member holds index
    rw [same index (.head _)] at member
    rcases frees index () phys _ uncounted member with ⟨cow, freed⟩
    have next := holds_replace holds freed
    have restSame : ∀ other ∈ rest, update current index (fun _ => none) other = members other := by
      intro other inRest
      have different : other ≠ index := by
        rintro rfl
        exact (List.nodup_cons.mp nodup).1 inRest
      rw [update_of_ne different, same other (.tail _ inRest)]
    have uncountedNext : Uncounted (step phys index) := by
      intro page
      rw [cow]
      exact uncounted page
    rcases ih (List.nodup_cons.mp nodup).2 restSame uncountedNext next with ⟨later, left, final⟩
    exact ⟨later.trans cow, left, final⟩

theorem table_freed {own left : Key → Option UInt64}
    (before : Holds Good (withHead page own) taken pool)
    (holds : Holds Good left (fun other => taken other ∨ other = page) rest) :
    Holds Good (fun _ : Option Key => none) taken (page :: rest) := by
  classical
  have head : withHead page left none = some page := rfl
  have released := holds_release (holds_withHead before holds) head
  exact holds_less released fun _ _ impossible => by cases impossible

theorem releaseLeaf_frees (table : L3) (index : Fin 512) :
    Frees (fun _ : Unit => table.members index)
      (fun _ phys => releaseLeaf phys (table.entries index)) := by
  intro _ phys taken uncounted holds
  have none_ : ∀ pool, Holds Good (table.members index) taken pool →
      Holds Good (fun _ : Unit => none) taken pool := fun pool owned =>
    holds_less owned fun _ _ impossible => by cases impossible
  by_cases valid : isValid (table.entries index) = true
  · have found : table.members index () = some (pageOf (table.entries index)) := by
      simp [L3.members, valid]
    have released := holds_release holds found
    have zero := uncounted (pageOf (table.entries index))
    have alone : releaseLeaf phys (table.entries index) =
        freePage phys (pageOf (table.entries index)) := by
      simp [releaseLeaf, valid, zero]
    simp only [alone]
    exact ⟨rfl, holds_less released fun _ _ impossible => by cases impossible⟩
  · by_cases swapped : isSwapEntry (table.entries index) = true
    · simp only [releaseLeaf, valid, swapped, if_true]
      exact ⟨rfl, none_ _ holds⟩
    · simp only [releaseLeaf, valid, swapped]
      exact ⟨rfl, none_ _ holds⟩

theorem destroyL3_frees : Frees L3.pages destroyL3 := by
  intro table phys taken uncounted holds
  rcases entries_freed (releaseLeaf_frees table) indices_nodup (fun _ _ => rfl) uncounted
    (holds_tail holds) with ⟨cow, left, freed⟩
  exact ⟨cow, table_freed holds freed⟩

theorem destroyTable_frees {body : Fin 512 → Child → Physical → Physical}
    (frees : ∀ index, Frees pages (body index))
    {order : Fin 512 → List (Fin 512)} (nodup : ∀ index, (order index).Nodup) (index : Fin 512) :
    Frees (Table.pages pages) (destroyTable body (order index)) := by
  intro table phys taken uncounted holds
  have step : ∀ entry, Frees (fun _ : Unit => table.members pages entry) (fun _ phys =>
      match table.entries entry with
      | .table child => body entry child phys
      | _ => phys) := by
    intro entry _ phys taken uncounted holds
    simp only [Table.members] at holds
    cases found : table.entries entry with
    | table child =>
      simp only [found] at holds ⊢
      exact frees entry child phys taken uncounted holds
    | block | empty =>
      simp only [found] at holds ⊢
      exact ⟨trivial, holds⟩
  rcases entries_freed step (nodup index) (fun _ _ => rfl) uncounted (holds_tail holds) with
    ⟨cow, left, freed⟩
  exact ⟨cow, table_freed holds freed⟩

theorem destroySpace_frees : Frees spacePages destroySpace := by
  have all : ∀ _ : Fin 512, indices.Nodup := fun _ => indices_nodup
  have user : ∀ index : Fin 512, (if index = 0 then indices.drop 2 else indices).Nodup := by
    intro index
    split
    · exact (List.drop_sublist 2 indices).nodup indices_nodup
    · exact indices_nodup
  have third := fun index => destroyTable_frees (fun _ => destroyL3_frees) all index
  have second := fun index => destroyTable_frees third user index
  exact destroyTable_frees second all 0

theorem initSpace_holds (holds : Holds Good (fun _ : SpaceKey => none) taken phys.free) :
    (initSpace phys).2.cow = phys.cow ∧ match (initSpace phys).1 with
      | none => Holds Good (fun _ : SpaceKey => none) taken (initSpace phys).2.free
      | some space => Holds Good (spacePages space) taken (initSpace phys).2.free := by
  unfold initSpace allocPage
  cases free : phys.free with
  | nil =>
    exact ⟨rfl, holds⟩
  | cons root rest =>
    rw [free] at holds
    cases rest with
    | nil => exact ⟨rfl, holds⟩
    | cons first rest =>
      have rootHeld := holds_fresh holds
      rw [← emptyTable_pages (Table.pages (Table.pages L3.pages))] at rootHeld
      have kernel : ∀ page, (Table.mk page fun index : Fin 512 =>
          if index.val < 2 then Slot.block else Slot.empty : L1).pages
            (Table.pages L3.pages) = withHead page fun _ => none := by
        intro page
        funext key
        rcases key with _ | ⟨index, key⟩
        · rfl
        · by_cases low : index.val < 2 <;>
            simp [Table.pages, Table.members, withHead, family, low]
      have firstHeld := holds_fresh (table_member rootHeld 0)
      rw [← kernel] at firstHeld
      exact ⟨rfl, table_replace rootHeld firstHeld⟩

end ViperDos.Memory
