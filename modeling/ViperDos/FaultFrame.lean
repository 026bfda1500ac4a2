import ViperDos.AreaOrder
import ViperDos.Isolation

/-!
What a demand fault does to pages that are mapped already: the handler never asks whether a
page it sets out to map is mapped.
-/

namespace ViperDos.Memory

def Spared (before after : L0) : Prop :=
  ∀ spot, isValid (readAt before spot) = true →
    isValid (readAt after spot) = true ∧ pageOf (readAt after spot) = pageOf (readAt before spot)

/-- The requests that the free pages suffice for, with the tables that are missing. -/
def affordable : List Request → L0 → Physical → List Request
  | [], _, _ => []
  | request :: rest, space, phys =>
    match placeFresh space request.addr (some request.fill) (asProt request.prot) phys with
    | (.mapped, space, phys) => request :: affordable rest space phys
    | _ => []

def Vacant (space : L0) (wanted : List Request) : Prop :=
  ∀ request ∈ wanted, isValid (readPte space request.addr) = false

/-- What placing one page can do to the entries: that of the page gets a page of the
allocator, or none changes. -/
theorem placeFresh_entries (space : L0) (va : UInt64) (fill : Option Frame) (protFlags : UInt32)
    (phys : Physical) :
    (∃ page ∈ phys.free, ∃ next after,
      placeFresh space va fill protFlags phys = (.mapped, next, after) ∧
      after.free ⊆ phys.free ∧ Wrote readAt (place va) (makeEntry page protFlags) space next true) ∨
    ∃ result next after, placeFresh space va fill protFlags phys = (result, next, after) ∧
      result ≠ .mapped ∧ ∀ spot, readAt next spot = readAt space spot := by
  rcases placeFresh_cases space va fill protFlags phys with
    ⟨_, result⟩ | ⟨page, rest, free, next, after, ⟨mapped, result⟩ | ⟨failed, result⟩⟩
  · exact .inr ⟨_, _, _, result, by simp, fun _ => rfl⟩
  · obtain ⟨wrote, _, suffix⟩ := mapPage_wrote mapped
    have fewer : after.free ⊆ phys.free := by
      rw [free]
      intro other member
      have inside := suffix.subset member
      cases fill with
      | none => exact .tail _ inside
      | some frame => exact .tail _ inside
    exact .inl ⟨page, by simp [free], next, after, result, fewer, wrote⟩
  · refine .inr ⟨_, _, _, result, by simp, fun spot => ?_⟩
    simpa using (mapPage_wrote failed).1 spot

variable {space next before : L0} {phys after : Physical} {rest wanted : List Request}
  {result : Placed} {spot : Place} {va : UInt64} {pool : List UInt64} {request : Request}

theorem placeEach_mapped
    (placed : placeFresh space request.addr (some request.fill) (asProt request.prot) phys =
      (.mapped, next, after)) :
    placeEach (request :: rest) space phys = placeEach rest next after ∧
      affordable (request :: rest) space phys = request :: affordable rest next after := by
  simp only [placeEach, affordable, placed, and_self]

theorem placeEach_stopped (stopped : result ≠ .mapped)
    (placed : placeFresh space request.addr (some request.fill) (asProt request.prot) phys =
      (result, next, after)) : placeEach (request :: rest) space phys = (next, after) ∧
        affordable (request :: rest) space phys = [] := by
  cases result with
  | mapped => exact absurd rfl stopped
  | noMemory | notMapped => simp only [placeEach, affordable, placed, and_self]

/-- Where nothing was mapped pages may be placed: the others are left alone. -/
theorem placeEach_spares (vacant : Vacant before (affordable wanted space phys))
    (kept : ∀ spot, isValid (readAt before spot) = true → readAt space spot = readAt before spot)
    (valid : isValid (readAt before spot) = true) :
    readAt (placeEach wanted space phys).1 spot = readAt before spot := by
  induction wanted generalizing space phys with
  | nil => exact kept spot valid
  | cons request rest ih =>
    rcases placeFresh_entries space request.addr (some request.fill) (asProt request.prot) phys
      with ⟨page, _, next, after, placed, _, wrote⟩ | ⟨result, next, after, placed, stopped, same⟩
    · rw [(placeEach_mapped placed).2] at vacant
      rw [(placeEach_mapped placed).1]
      refine ih (fun other member => vacant other (.tail _ member)) fun spot valid => ?_
      have elsewhere : spot ≠ place request.addr := by
        intro here
        have free := vacant request (.head _)
        rw [readPte, ← here, valid] at free
        cases free
      rw [wrote spot, if_neg (by simp [elsewhere]), kept spot valid]
    · rw [(placeEach_stopped stopped placed).1, same spot, kept spot valid]

theorem placeFresh_succeeds (reach : Open space (regionOf (place va)))
    (enough : 4 ≤ phys.free.length) (fill : Frame) (protFlags : UInt32) :
    ∃ next after, placeFresh space va (some fill) protFlags phys = (.mapped, next, after) ∧
      phys.free.length ≤ after.free.length + 4 ∧ ∀ other, Open space other → Open next other := by
  rcases placeFresh_cases space va (some fill) protFlags phys with
    ⟨none, _⟩ | ⟨page, rest, free, next, after, outcome⟩
  · simp [none] at enough
  have few := missingTables_le space (regionOf (place va))
  have left : missingTables space (regionOf (place va)) ≤ rest.length := by
    rw [free, List.length_cons] at enough
    omega
  obtain ⟨next', after', done, spent, _, kept, _⟩ := writeAt_succeeds (place va)
    (makeEntry page protFlags) space
    (fillPage { phys with free := rest } page (some fill)) reach left
  rcases outcome with ⟨mapped, result⟩ | ⟨failed, _⟩
  · cases mapped.symm.trans done
    refine ⟨next, after, result, ?_, kept⟩
    rw [free, List.length_cons]
    simp only [fillPage, setFrame] at spent
    omega
  · cases failed.symm.trans done

/-- Four free pages for each request are always enough. -/
theorem affordable_all (reach : ∀ request ∈ wanted, Open space (regionOf (place request.addr)))
    (enough : 4 * wanted.length ≤ phys.free.length) : affordable wanted space phys = wanted := by
  induction wanted generalizing space phys with
  | nil => rfl
  | cons first rest ih =>
    rw [List.length_cons] at enough
    have four : 4 ≤ phys.free.length := by omega
    obtain ⟨next, after, placed, spent, kept⟩ := placeFresh_succeeds
      (reach first (.head _)) four first.fill (asProt first.prot)
    rw [(placeEach_mapped placed).2,
      ih (fun other inside => kept _ (reach other (.tail _ inside))) (by omega)]

def FromPool (pool : List UInt64) (pte : UInt64) : Prop :=
  ∃ page ∈ pool, ∃ protFlags, pte = makeEntry page protFlags

theorem placeEach_fromPool (wanted : List Request) (pooled : phys.free ⊆ pool)
    (held : FromPool pool (readAt space spot)) :
    FromPool pool (readAt (placeEach wanted space phys).1 spot) := by
  induction wanted generalizing space phys with
  | nil => exact held
  | cons request rest ih =>
    rcases placeFresh_entries space request.addr (some request.fill) (asProt request.prot) phys
      with ⟨page, member, next, after, placed, fewer, wrote⟩ | ⟨result, next, after, placed,
        stopped, same⟩
    · rw [(placeEach_mapped placed).1]
      apply ih (List.Subset.trans fewer pooled)
      rw [wrote spot]
      split
      · exact ⟨page, pooled member, _, rfl⟩
      · exact held
    · rw [(placeEach_stopped stopped placed).1, same spot]
      exact held

/-- Every page that can be afforded gets one that was free. -/
theorem placeEach_replaces (pooled : phys.free ⊆ pool)
    (member : request ∈ affordable wanted space phys) :
    FromPool pool (readPte (placeEach wanted space phys).1 request.addr) := by
  induction wanted generalizing space phys with
  | nil => cases member
  | cons first rest ih =>
    rcases placeFresh_entries space first.addr (some first.fill) (asProt first.prot) phys with
      ⟨page, free, next, after, placed, fewer, wrote⟩ | ⟨result, _, _, placed, stopped, _⟩
    · rw [(placeEach_mapped placed).1]
      rw [(placeEach_mapped placed).2] at member
      rcases List.mem_cons.mp member with here | later
      · apply placeEach_fromPool rest (List.Subset.trans fewer pooled)
        rw [here, wrote (place first.addr), if_pos ⟨rfl, rfl⟩]
        exact ⟨page, pooled free, _, rfl⟩
      · exact ih (List.Subset.trans fewer pooled) later
    · rw [(placeEach_stopped stopped placed).2] at member
      cases member

structure Apart (space : L0) (phys : Physical) : Prop where
  good : ∀ page ∈ phys.free, Good page
  unmapped : ∀ spot, isValid (readAt space spot) = true → pageOf (readAt space spot) ∉ phys.free

/-- A demand fault spares every mapped page if and only if none of the pages is mapped that it
sets out to map and that the free pages suffice for. -/
theorem demand_fault_spares_iff_vacant (viper : Viper) (addr : UInt64) (isWrite : Bool)
    (env : Environment) (phys : Physical) :
    (Vacant viper.space (affordable (requests viper.vmaList addr isWrite env) viper.space phys) →
      Spared viper.space (handleDemandFault viper addr isWrite env phys).2.1.space) ∧
    (Apart viper.space phys →
      Spared viper.space (handleDemandFault viper addr isWrite env phys).2.1.space →
      Vacant viper.space
        (affordable (requests viper.vmaList addr isWrite env) viper.space phys)) := by
  rw [handleDemandFault_places, withPlaced]
  constructor
  · intro vacant spot valid
    have same := placeEach_spares vacant (fun _ _ => rfl) valid
    rw [same]
    exact ⟨valid, rfl⟩
  · intro apart spared request member
    refine Bool.eq_false_iff.mpr fun valid => ?_
    obtain ⟨page, free, protFlags, entry⟩ := placeEach_replaces (List.Subset.refl phys.free) member
    have kept := (spared (place request.addr) valid).2
    rw [readPte] at entry
    rw [entry, makeEntry_page (apart.good page free)] at kept
    rw [kept] at free
    exact apart.unmapped _ valid free

def firstViper : Viper := newViper (firstSpace 0x40FFE000 0x40FFF000)

def touched : Viper × Physical :=
  (handleDemandFault firstViper 0x10000A000 true noFiles bootMemory).2

theorem firstViper_apart : Apart firstViper.space bootMemory where
  good := bootMemory_good
  unmapped spot valid := by
    have blank : readAt firstViper.space spot = 0 := firstSpace_unmapped ..
    rw [blank] at valid
    cases valid

theorem first_fault_spares :
    let wanted := requests firstViper.vmaList 0x10000A000 true noFiles
    wanted.length = 5 ∧ affordable wanted firstViper.space bootMemory = wanted ∧
      Spared firstViper.space touched.1.space ∧ Vacant firstViper.space wanted := by
  intro wanted
  have vacant : Vacant firstViper.space wanted := by
    unfold Vacant
    decide
  have all : affordable wanted firstViper.space bootMemory = wanted := by
    refine affordable_all ?_ (by decide)
    unfold Open
    decide
  obtain ⟨sparing, needed⟩ := demand_fault_spares_iff_vacant firstViper 0x10000A000 true noFiles
    bootMemory
  have spared := sparing (all.symm ▸ vacant)
  exact ⟨rfl, all, spared, all ▸ needed firstViper_apart spared⟩

/-- A fault on page 8 of the heap maps new pages over pages 10 to 12, which the process
had in use. -/
theorem prefault_replaces_mapped_page : ¬ Spared touched.1.space
      (handleDemandFault touched.1 0x100008000 true noFiles touched.2).2.1.space := by
  intro spared
  have before : isValid (readAt touched.1.space (place 0x10000A000)) = true := by decide
  have moved : pageOf (readAt (handleDemandFault touched.1 0x100008000 true noFiles
      touched.2).2.1.space (place 0x10000A000)) ≠
        pageOf (readAt touched.1.space (place 0x10000A000)) := by
    decide
  exact moved (spared _ before).2

end ViperDos.Memory
