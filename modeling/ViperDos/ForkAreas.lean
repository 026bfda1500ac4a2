import ViperDos.Processes

/-!
The memory areas of a forked child. Creation has already given the child its heap,
stack and guard when `fork` adds the parent's areas, and an area is only added
where nothing overlaps. So a parent with the usual heap cannot fork at all.
-/

namespace ViperDos.Memory

open Function

def HasHeap (areas : VmaList) : Prop :=
  ∃ slot, Reaches areas.pool slot initialHeapMax areas.chain ∧
    (areas.pool slot).start = userHeapBase ∧ (areas.pool slot).finish = initialHeapMax

theorem initMemoryRegions_hasHeap : HasHeap initMemoryRegions :=
  ⟨0, .inl rfl, by decide, by decide⟩

variable {areas : VmaList} {m : Machine} {pid childPid : Nat} {capsOk : Bool}

theorem add_heap_refused (holds : HasHeap areas) (prot : UInt32) (type : VmaType) :
    areas.add userHeapBase initialHeapMax prot type = (none, areas) := by
  rcases add_cases areas userHeapBase initialHeapMax prot type with refused | ⟨clear, _⟩
  · exact refused
  rcases holds with ⟨heap, reaches, start, finish⟩
  have meets : userHeapBase < (areas.pool heap).finish ∧
      (areas.pool heap).start < initialHeapMax := by
    rw [start, finish]
    decide
  rw [findOverlap_reaches reaches meets] at clear
  cases clear

theorem create_cases (m : Machine) (capsOk : Bool) :
    ((create m capsOk).1 = none ∧ (create m capsOk).2.vipers = m.vipers) ∨
    ∃ pid space phys, m.vipers pid = none ∧ initSpace m.phys = (some space, phys) ∧
      create m capsOk = (some pid, setViper { m with phys } pid (newViper space)) := by
  unfold create
  cases found : allocViper m with
  | none => exact .inl ⟨rfl, rfl⟩
  | some pid =>
    have vacant : m.vipers pid = none := by
      simpa using List.find?_some found
    rcases made : initSpace m.phys with ⟨_ | space, phys⟩
    · exact .inl ⟨rfl, rfl⟩
    · cases capsOk with
      | false => exact .inl ⟨rfl, rfl⟩
      | true => exact .inr ⟨pid, space, phys, vacant, rfl, rfl⟩

/-- A successful fork: the child that creation made, with the areas copied and the
page tables cloned. -/
theorem fork_some (forked : (fork m pid capsOk).1 = some childPid) :
    ∃ parent space phys, m.vipers pid = some parent ∧ m.vipers childPid = none ∧
      initSpace m.phys = (some space, phys) ∧
      ∃ parentAreas childAreas, copyVmas parent.vmaList.chain parent.vmaList initMemoryRegions =
          (true, parentAreas, childAreas) ∧
        ∃ parentSpace childSpace after,
          cloneCowFrom parent.space space phys = (true, parentSpace, childSpace, after) ∧
          (fork m pid capsOk).2 = setViper (setViper { m with phys := after } pid
              { parent with vmaList := parentAreas, space := parentSpace }) childPid
              (inherit { parent with vmaList := parentAreas, space := parentSpace }
                { newViper space with vmaList := childAreas, space := childSpace }) := by
  unfold fork at forked ⊢
  cases found : m.vipers pid with
  | none => simp [found] at forked
  | some parent =>
    simp only [found] at forked ⊢
    rcases create_cases m capsOk with ⟨failed, _⟩ | ⟨newPid, space, phys, vacant, made, created⟩
    · rcases outcome : create m capsOk with ⟨_ | _, next⟩
      · simp [outcome] at forked
      · simp [outcome] at failed
    have present : (setViper { m with phys } newPid (newViper space)).vipers newPid =
        some (newViper space) := by
      simp [setViper]
    simp only [created, present, forkInto] at forked ⊢
    rcases copied : copyVmas parent.vmaList.chain parent.vmaList (newViper space).vmaList with
      ⟨_ | _, parentAreas, childAreas⟩
    · simp [copied] at forked
    rcases cloned : cloneCowFrom parent.space (newViper space).space phys with
      ⟨_ | _, parentSpace, childSpace, after⟩
    · simp [copied, setViper, cloned] at forked
    simp only [copied, setViper, cloned, if_true, Option.some.injEq] at forked ⊢
    have apart : newPid ≠ pid := by
      intro same
      rw [same, found] at vacant
      cases vacant
    subst childPid
    refine ⟨parent, space, phys, rfl, vacant, made, parentAreas, childAreas, copied,
      parentSpace, childSpace, after, cloned, ?_⟩
    rw [update_comm apart, update_idem]

def spareMemory : Physical where
  free := [0x41010000, 0x41011000, 0x41012000, 0x41013000, 0x41014000, 0x41015000, 0x41016000,
    0x41017000]
  frames := fun _ => zeroFrame
  cow := ⟨false, 0, 0, fun _ => ⟨0, false⟩⟩
  swap := ⟨false, fun _ => false, fun _ => zeroFrame⟩

def bootMemory : Physical :=
  { spareMemory with
    free := (List.range 32).map fun i => 0x41000000 + UInt64.ofNat (4096 * i) }

theorem bootMemory_nodup : bootMemory.free.Nodup := by
  decide

theorem bootMemory_good : ∀ page ∈ bootMemory.free, Good page := by
  have checked : bootMemory.free.all (fun page => page &&& addrMask = page) = true := by
    decide
  intro page member
  simpa [Good] using List.all_eq_true.mp checked page member

def noFiles : Environment := ⟨fun _ _ => none, false⟩

end ViperDos.Memory
