import ViperDos.Processes

/-!
What a demand fault sets out to do. The handler maps a list of pages, the page of the fault
and those ahead of it or the whole growth of a stack, and stops at the first that it cannot
map. The loops of the handler are this one list worked off, so what holds of one new page
holds of a whole fault.
-/

namespace ViperDos.Memory

def growth (areas : VmaList) (addr : UInt64) : Option (Nat × UInt64) :=
  match areas.find addr with
  | some _ => none
  | none =>
    match growable areas addr with
    | none => none
    | some slot =>
      if pageAlignDown addr < 0x1000 then none
      else if maxStackSize < (areas.pool slot).finish - pageAlignDown addr then none
      else some (slot, pageAlignDown addr)

def grown (areas : VmaList) (addr : UInt64) : VmaList :=
  match growth areas addr with
  | none => areas
  | some (slot, start) => areas.setStart slot start

variable {areas : VmaList} {addr start : UInt64} {slot : Nat}

theorem growable_some (found : growable areas addr = some slot) :
    (areas.pool slot).type = .stack ∧ addr < (areas.pool slot).start := by
  have holds := List.find?_some found
  simp only [Bool.and_eq_true, decide_eq_true_eq] at holds
  exact ⟨holds.1.1, holds.2⟩

theorem growth_growable (found : growth areas addr = some (slot, start)) :
    growable areas addr = some slot ∧ start = pageAlignDown addr := by
  unfold growth at found
  split at found
  · cases found
  split at found
  · cases found
  next stack =>
  split at found
  · cases found
  split at found
  · cases found
  · cases found
    exact ⟨stack, rfl⟩

structure Request where
  addr : UInt64
  fill : Frame
  prot : UInt32

def placeEach : List Request → L0 → Physical → L0 × Physical
  | [], space, phys => (space, phys)
  | request :: rest, space, phys =>
    match placeFresh space request.addr (some request.fill) (asProt request.prot) phys with
    | (.mapped, space, phys) => placeEach rest space phys
    | (_, space, phys) => (space, phys)

def zeroPages (prot : UInt32) (addrs : List UInt64) : List Request :=
  addrs.map fun addr => ⟨addr, zeroFrame, prot⟩

def prefaults (areas : VmaList) (type : VmaType) (pageAddr : UInt64) : List Request :=
  match areas.find pageAddr with
  | none => []
  | some next =>
    if type = .anonymous ∧ (areas.pool next).type = .anonymous then
      zeroPages (areas.pool next).prot
        ((prefaultAddrs pageAddr).takeWhile fun addr => !decide ((areas.pool next).finish ≤ addr))
    else []

def requests (areas : VmaList) (addr : UInt64) (isWrite : Bool) (env : Environment) :
    List Request :=
  match areas.find addr with
  | none =>
    match growth areas addr with
    | none => []
    | some (slot, start) => zeroPages (areas.pool slot).prot (pageRange start (areas.pool slot).start)
  | some slot =>
    let area := areas.pool slot
    if area.type = .guard then []
    else if isWrite ∧ area.prot &&& vmaWrite = 0 then []
    else
      ⟨pageAlignDown addr, demandFill area (pageAlignDown addr) env, area.prot⟩ ::
        prefaults areas area.type (pageAlignDown addr)

def withPlaced (viper : Viper) (wanted : List Request) (phys : Physical) : Viper × Physical :=
  ({ viper with space := (placeEach wanted viper.space phys).1 },
    (placeEach wanted viper.space phys).2)

theorem growStack_places (viper : Viper) (prot : UInt32) (addrs : List UInt64) (phys : Physical) :
    (growStack viper prot addrs phys).2 = withPlaced viper (zeroPages prot addrs) phys := by
  induction addrs generalizing viper phys with
  | nil => rfl
  | cons addr rest ih =>
    rcases placed : placeFresh viper.space addr (some zeroFrame) (asProt prot) phys with
      ⟨_ | _ | _, space, after⟩
    · simp [growStack, withPlaced, zeroPages, placeEach, placed]
    · simp [growStack, withPlaced, zeroPages, placeEach, placed]
    · simp only [growStack, withPlaced, zeroPages, List.map_cons, placeEach, placed]
      exact ih { viper with space } after

theorem prefault_places (viper : Viper) (finish : UInt64) (prot : UInt32) (addrs : List UInt64)
    (phys : Physical) : prefault viper finish prot addrs phys = withPlaced viper
      (zeroPages prot (addrs.takeWhile fun addr => !decide (finish ≤ addr))) phys := by
  induction addrs generalizing viper phys with
  | nil => rfl
  | cons addr rest ih =>
    by_cases beyond : finish ≤ addr
    · simp [prefault, beyond, withPlaced, zeroPages, placeEach]
    rcases placed : placeFresh viper.space addr (some zeroFrame) (asProt prot) phys with
      ⟨_ | _ | _, space, after⟩
    · simp [prefault, beyond, withPlaced, zeroPages, placeEach, placed]
    · simp [prefault, beyond, withPlaced, zeroPages, placeEach, placed]
    · simp only [prefault, beyond, if_false, withPlaced, zeroPages, List.takeWhile_cons,
        decide_false, Bool.not_false, if_true, List.map_cons, placeEach, placed]
      exact ih { viper with space } after

section

variable (viper : Viper) (addr : UInt64) (isWrite : Bool) (env : Environment) (phys : Physical)

theorem handleDemandFault_places :
    (handleDemandFault viper addr isWrite env phys).2 =
      withPlaced { viper with vmaList := grown viper.vmaList addr }
        (requests viper.vmaList addr isWrite env) phys := by
  unfold handleDemandFault requests grown growth
  cases viper.vmaList.find addr with
  | none =>
    cases growable viper.vmaList addr with
    | none => rfl
    | some slot =>
      dsimp only
      split
      · rfl
      split
      · rfl
      · exact growStack_places ..
  | some slot =>
    dsimp only
    split
    · rfl
    split
    · rfl
    rcases placed : placeFresh viper.space (pageAlignDown addr)
      (some (demandFill (viper.vmaList.pool slot) (pageAlignDown addr) env))
      (asProt (viper.vmaList.pool slot).prot) phys with ⟨_ | _ | _, space, after⟩
    · simp [withPlaced, placeEach, placed]
    · simp [withPlaced, placeEach, placed]
    simp only [withPlaced, placeEach, placed]
    unfold prefaults
    cases viper.vmaList.find (pageAlignDown addr) with
    | none => rfl
    | some next =>
      dsimp only
      split
      · exact prefault_places { viper with space } ..
      · rfl

theorem handleDemandFault_areas :
    (handleDemandFault viper addr isWrite env phys).2.1.vmaList = grown viper.vmaList addr := by
  rw [handleDemandFault_places, withPlaced]

end

variable {wanted : List Request} {space : L0} {phys : Physical}

theorem placeEach_rule {P : L0 → Physical → Prop}
    (step : ∀ request ∈ wanted, ∀ space phys, P space phys →
      P (placeFresh space request.addr (some request.fill) (asProt request.prot) phys).2.1
        (placeFresh space request.addr (some request.fill) (asProt request.prot) phys).2.2)
    (start : P space phys) : P (placeEach wanted space phys).1 (placeEach wanted space phys).2 := by
  induction wanted generalizing space phys with
  | nil => exact start
  | cons request rest ih =>
    have next := step request (.head _) space phys start
    have later := fun request member => step request (.tail _ member)
    rcases placed : placeFresh space request.addr (some request.fill) (asProt request.prot) phys with
      ⟨_ | _ | _, between, after⟩
    all_goals
      rw [placed] at next
      simp only [placeEach, placed]
    · exact next
    · exact next
    · exact ih later next

end ViperDos.Memory
