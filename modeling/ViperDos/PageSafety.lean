import Mathlib.Data.Bool.AllAny
import ViperDos.PageOwnership

/-!
Mapped pages are never free, as long as the loader gets the pages that it asks for. The
invariant over whole runs: the address spaces of all processes together own their pages
exclusively, and no page is reference counted. The first area of every process is the heap
it was created with, so that every fork fails before it shares anything.
-/

namespace ViperDos.Memory

open Ownership Transition Function

def viperPages : Option Viper → SpaceKey → Option UInt64
  | none => fun _ => none
  | some viper => spacePages viper.space

def vipersPages (vipers : Nat → Option Viper) (pid : Nat) : SpaceKey → Option UInt64 :=
  viperPages (vipers pid)

def FirstHeap (areas : VmaList) : Prop :=
  Unmarked areas ∧ ∃ slot rest, areas.chain = slot :: rest ∧
    (areas.pool slot).start = userHeapBase ∧ (areas.pool slot).finish = initialHeapMax ∧
    (areas.pool slot).type = .anonymous

def Heaps (m : Machine) : Prop :=
  ∀ pid viper, m.vipers pid = some viper → FirstHeap viper.vmaList

structure Sound (m : Machine) : Prop where
  owned : Holds Good (family (vipersPages m.vipers)) (fun _ => False) m.phys.free
  uncounted : Uncounted m.phys

theorem vipersPages_update (vipers : Nat → Option Viper) (pid : Nat) (next : Option Viper) :
    vipersPages (update vipers pid next) = update (vipersPages vipers) pid (viperPages next) := by
  funext other
  by_cases same : other = pid
  · subst other
    simp [vipersPages]
  · simp [vipersPages, update_of_ne same]

variable {m : Machine} {phys after : Physical} {next : Option Viper} {pid count taken : Nat}
  {viper : Viper} {areas child : VmaList} {access : Access} {event : Event}
  {size page virt : UInt64} {space : L0} {Child Key Spot : Type} {view : Child → Spot → UInt64}
  {free : List UInt64}

theorem sound_member (sound : Sound m) (pid : Nat) :
    Holds Good (viperPages (m.vipers pid)) (Beyond (vipersPages m.vipers) pid fun _ => False)
      m.phys.free :=
  holds_member sound.owned pid

theorem uncounted_of_cow (uncounted : Uncounted phys) (cow : after.cow = phys.cow) :
    Uncounted after := by
  intro page
  rw [cow]
  exact uncounted page

/-- What happens to one process, when the others are left alone. -/
theorem sound_replace (sound : Sound m) (cow : after.cow = m.phys.cow)
    (holds : Holds Good (viperPages next) (Beyond (vipersPages m.vipers) pid fun _ => False)
      after.free) : Sound ⟨update m.vipers pid next, after⟩ := by
  refine ⟨?_, uncounted_of_cow sound.uncounted cow⟩
  rw [vipersPages_update]
  exact holds_replace sound.owned holds

theorem sound_phys (sound : Sound m) (cow : after.cow = m.phys.cow)
    (holds : Holds Good (viperPages (m.vipers pid))
      (Beyond (vipersPages m.vipers) pid fun _ => False) after.free) :
    Sound { m with phys := after } := by
  have replaced := sound_replace sound cow holds
  rwa [update_eq_self] at replaced

theorem sound_keeps {next : Viper} (sound : Sound m) (found : m.vipers pid = some viper)
    (keeps : Keeps viper.space m.phys next.space after) : Sound (setMemory m pid next after) := by
  have member := sound_member sound pid
  rw [found] at member
  have kept : Holds Good (viperPages (some next)) _ after.free := keeps.2 _ member
  have replaced := sound_replace sound keeps.1 kept
  exact replaced

theorem heaps_replace (heaps : Heaps m)
    (heap : ∀ viper, next = some viper → FirstHeap viper.vmaList) (phys : Physical) :
    Heaps ⟨update m.vipers pid next, phys⟩ := by
  intro other viper lookup
  by_cases same : other = pid
  · subst other
    exact heap viper (by simpa using lookup)
  · exact heaps other viper (by simpa [update_of_ne same] using lookup)

theorem heaps_keeps {next : Viper} (heaps : Heaps m) (heap : FirstHeap next.vmaList)
    (after : Physical) :
    Heaps (setMemory m pid next after) :=
  heaps_replace heaps (fun _ same => Option.some.inj same ▸ heap) after

theorem areasKept_firstHeap {after : VmaList} (heap : FirstHeap areas)
    (kept : AreasKept areas after) :
    FirstHeap after := by
  rcases kept with rfl | ⟨stack, start, isStack, rfl⟩
  · exact heap
  rcases heap with ⟨unmarked, slot, rest, chain, low, high, anonymous⟩
  have different : slot ≠ stack := by
    rintro rfl
    rw [anonymous] at isStack
    cases isStack
  refine ⟨?_, slot, rest, chain, ?_⟩
  · intro other
    by_cases same : other = stack
    · subst other
      simpa [VmaList.setStart] using unmarked stack
    · simpa [VmaList.setStart, update_of_ne same] using unmarked other
  · simpa [VmaList.setStart, update_of_ne different] using ⟨low, high, anonymous⟩

theorem add_unmarked (unmarked : Unmarked areas) (start finish : UInt64)
    (prot : UInt32) (type : VmaType) : Unmarked (areas.add start finish prot type).2 := by
  rcases add_cases areas start finish prot type with refused | ⟨_, slot, _, added⟩
  · rw [refused]
    exact unmarked
  rw [added]
  intro other
  by_cases same : other = slot
  · subst other
    simp [VmaList.insert]
  · simpa [VmaList.insert, update_of_ne same] using unmarked other

theorem initMemoryRegions_firstHeap : FirstHeap initMemoryRegions := by
  have blank : Unmarked VmaList.init := fun _ => rfl
  refine ⟨?_, 0, [2, 1], by decide, ?_⟩
  · exact add_unmarked (add_unmarked (add_unmarked blank _ _ _ _) _ _ _ _) _ _ _ _
  · decide

theorem destroy_sound (sound : Sound m) (pid : Nat) : Sound (destroy m pid) := by
  unfold destroy
  cases found : m.vipers pid with
  | none => exact sound
  | some viper =>
    have member := sound_member sound pid
    rw [found] at member
    rcases destroySpace_frees viper.space m.phys _ sound.uncounted member with ⟨cow, freed⟩
    exact sound_replace sound cow freed

theorem destroy_heaps (heaps : Heaps m) (pid : Nat) : Heaps (destroy m pid) := by
  unfold destroy
  cases m.vipers pid with
  | none => exact heaps
  | some viper => exact heaps_replace heaps (fun _ impossible => by cases impossible) _

theorem allocViper_vacant (found : allocViper m = some pid) : m.vipers pid = none := by
  have vacant := List.find?_some found
  simpa using vacant

theorem create_sound (sound : Sound m) (capsOk : Bool) : Sound (create m capsOk).2 := by
  unfold create
  cases found : allocViper m with
  | none => exact sound
  | some pid =>
    have vacant := allocViper_vacant found
    have member := sound_member sound pid
    rw [vacant] at member
    rcases initSpace_holds member with ⟨cow, holds⟩
    rcases result : initSpace m.phys with ⟨_ | space, phys⟩
    all_goals
      rw [result] at cow holds
    · exact sound_phys sound cow (by rw [vacant]; exact holds)
    cases capsOk with
    | true =>
      have owned : Holds Good (viperPages (some (newViper space))) _ phys.free := holds
      have replaced := sound_replace sound cow owned
      exact replaced
    | false =>
      rcases destroySpace_frees space phys _ (uncounted_of_cow sound.uncounted cow) holds with
        ⟨after, freed⟩
      exact sound_phys sound (after.trans cow) (by rw [vacant]; exact freed)

theorem create_heaps (heaps : Heaps m) (capsOk : Bool) : Heaps (create m capsOk).2 := by
  rcases create_cases m capsOk with ⟨_, same⟩ | ⟨pid, space, phys, _, _, result⟩
  · exact fun pid viper found => heaps pid viper (same ▸ found)
  · rw [result]
    exact heaps_keeps heaps initMemoryRegions_firstHeap phys

/-- The first area to be copied is the heap, which the child already has. -/
theorem copyVmas_refused (heap : FirstHeap areas) (holds : HasHeap child) :
    copyVmas areas.chain areas child = (false, areas, child) := by
  rcases heap with ⟨_, slot, rest, chain, low, high, _⟩
  rw [chain, copyVmas, low, high]
  simp only [add_heap_refused holds]

/-- A fork comes to nothing: at most, it creates a child and destroys it. -/
theorem fork_refused (heaps : Heaps m) (pid : Nat) (capsOk : Bool) :
    (fork m pid capsOk).1 = none ∧ (fork m pid capsOk).2.vipers = m.vipers ∧
      ((fork m pid capsOk).2 = m ∨ (fork m pid capsOk).2 = (create m capsOk).2 ∨
        ∃ childPid, (fork m pid capsOk).2 = destroy (create m capsOk).2 childPid) := by
  unfold fork
  cases found : m.vipers pid with
  | none => exact ⟨rfl, rfl, .inl rfl⟩
  | some parent =>
    rcases create_cases m capsOk with ⟨failed, same⟩ | ⟨childPid, space, phys, vacant, _, result⟩
    · rcases result : create m capsOk with ⟨_ | childPid, next⟩
      · rw [result] at same
        exact ⟨rfl, same, .inr (.inl rfl)⟩
      · rw [result] at failed
        cases failed
    · have apart : pid ≠ childPid := by
        rintro rfl
        rw [vacant] at found
        cases found
      have refused := copyVmas_refused (heaps pid parent found) initMemoryRegions_hasHeap
      have same : setViper (setViper (setViper { m with phys } childPid (newViper space)) pid
          parent) childPid (newViper space) = setViper { m with phys } childPid (newViper space) := by
        simp [setViper, update_comm apart.symm, ← found]
      have gone : (destroy (setViper { m with phys } childPid (newViper space)) childPid).vipers =
          m.vipers := by
        simp [destroy, setViper, ← vacant]
      have destroyed := congrArg (destroy · childPid) same
      simp only [setViper] at destroyed gone
      simp only [result, setViper, update_self, forkInto, newViper, refused]
      refine ⟨trivial, ?_, .inr (.inr ⟨childPid, destroyed⟩)⟩
      exact (congrArg Machine.vipers destroyed).trans gone

theorem accessStep_heaps {after : Machine} (heaps : Heaps m) (step : AccessStep m access after) :
    Heaps after := by
  cases access with
  | store pid addr value =>
    rcases step with ⟨viper, _, _, rfl⟩
    exact heaps
  | fault pid addr isWrite env =>
    rcases step with ⟨viper, found, _, _, rfl⟩
    have heap := heaps pid viper found
    have areas := (handlePageFault_keeps heap.1 addr isWrite env m.phys).2
    exact heaps_keeps heaps (areasKept_firstHeap heap areas) _
  | fork pid capsOk =>
    rcases step with rfl
    rcases (fork_refused heaps pid capsOk).2.2 with same | same | ⟨childPid, same⟩ <;> rw [same]
    · exact heaps
    · exact create_heaps heaps capsOk
    · exact destroy_heaps (create_heaps heaps capsOk) childPid
  | reorder free =>
    rcases step with ⟨_, rfl⟩
    exact heaps

theorem step_heaps {after : Machine} (heaps : Heaps m) (step : Step m event after) :
    Heaps after := by
  cases event with
  | access access => exact accessStep_heaps heaps step
  | create capsOk =>
    rcases step with rfl
    exact create_heaps heaps capsOk
  | load pid virt size protFlags page taken =>
    rcases step with ⟨viper, found, _, _, _, _, rfl⟩
    refine heaps_keeps heaps ?_ _
    exact heaps pid viper found
  | setBreak pid brk =>
    rcases step with ⟨viper, found, rfl⟩
    refine heaps_keeps heaps ?_ _
    exact heaps pid viper found
  | doSbrk pid increment =>
    rcases step with ⟨viper, found, rfl⟩
    exact heaps_keeps heaps ((doSbrk_keeps viper increment m.phys).2 ▸ heaps pid viper found) _
  | sysSbrk pid increment =>
    rcases step with ⟨viper, found, rfl⟩
    exact heaps_keeps heaps ((sysSbrk_keeps viper increment m.phys).2 ▸ heaps pid viper found) _
  | destroy pid =>
    rcases step with rfl
    exact destroy_heaps heaps pid

theorem accessStep_sound {after : Machine} (sound : Sound m) (heaps : Heaps m)
    (step : AccessStep m access after) :
    Sound after := by
  cases access with
  | store pid addr value =>
    rcases step with ⟨viper, _, _, rfl⟩
    exact ⟨sound.owned, sound.uncounted⟩
  | fault pid addr isWrite env =>
    rcases step with ⟨viper, found, _, _, rfl⟩
    exact sound_keeps sound found
      (handlePageFault_keeps (heaps pid viper found).1 addr isWrite env m.phys).1
  | fork pid capsOk =>
    rcases step with rfl
    rcases (fork_refused heaps pid capsOk).2.2 with same | same | ⟨childPid, same⟩ <;> rw [same]
    · exact sound
    · exact create_sound sound capsOk
    · exact destroy_sound (create_sound sound capsOk) childPid
  | reorder free =>
    rcases step with ⟨perm, rfl⟩
    exact ⟨holds_perm sound.owned perm, sound.uncounted⟩

def segmentRegions (virt : UInt64) (pages : Nat) : List Region :=
  ((runOf virt pages).map fun addr => regionOf (place addr)).eraseDups

/-- The loader gets what it asks for: a segment has 512 pages at most, and there are free
pages for its tables as well. -/
def Backed (m : Machine) : Event → Prop
  | .load pid virt size _ _ taken => pageCount size ≤ 512 ∧ ∀ viper, m.vipers pid = some viper →
      (∀ region ∈ segmentRegions virt (pageCount size), Open viper.space region) ∧
      taken + ((segmentRegions virt (pageCount size)).map (missingTables viper.space)).sum ≤
        m.phys.free.length
  | _ => True

theorem runOf_nodup (page : UInt64) (small : count ≤ 512) : (runOf page count).Nodup := by
  refine List.Nodup.map_on (fun i first j second same => ?_) List.nodup_range
  have equal := congrArg UInt64.toNat (UInt64.add_right_inj _ |>.mp same)
  rw [List.mem_range] at first second
  rw [UInt64.toNat_ofNat', UInt64.toNat_ofNat', Nat.mod_eq_of_lt (by omega),
    Nat.mod_eq_of_lt (by omega)] at equal
  omega

theorem takeRun_length (nodup : phys.free.Nodup) (page : UInt64) (taken : Nat) :
    phys.free.length ≤ (takeRun phys (runOf page taken)).free.length + taken := by
  have parts := List.length_eq_length_filter_add (l := phys.free) fun other =>
    decide (other ∉ runOf page taken)
  have removed : (phys.free.filter fun other => !decide (other ∉ runOf page taken)).length ≤
      (runOf page taken).length :=
    (List.subperm_of_subset (nodup.filter _) fun other member => by
      simpa using (List.mem_filter.mp member).2).length_le
  rw [runOf, List.length_map, List.length_range] at removed
  exact parts.trans_le (Nat.add_le_add_left removed _)

theorem allocMap_keeps (nodup : phys.free.Nodup) (small : pageCount size ≤ taken)
    (few : pageCount size ≤ 512) (inside : ∀ member ∈ runOf page taken, member ∈ phys.free)
    (reach : ∀ region ∈ segmentRegions virt (pageCount size), Open space region)
    (enough : taken + ((segmentRegions virt (pageCount size)).map (missingTables space)).sum ≤
      phys.free.length) (protFlags : UInt32) :
    Keeps space phys (allocMap space virt size protFlags page taken phys).2.1
      (allocMap space virt size protFlags page taken phys).2.2 := by
  have known : ∀ addr ∈ runOf virt (pageCount size),
      regionOf (place addr) ∈ segmentRegions virt (pageCount size) := fun addr member =>
    List.mem_eraseDups.mpr (List.mem_map_of_mem member)
  have length := takeRun_length nodup page taken
  have succeeds : (map space virt page size protFlags (zeroRun (takeRun phys (runOf page taken))
      (runOf page (pageCount size)))).1 = true :=
    mapPages_succeeds (fun addr member => reach _ (known addr member)) known
      (show _ ≤ (takeRun phys (runOf page taken)).free.length by omega)
  rcases result : map space virt page size protFlags (zeroRun (takeRun phys (runOf page taken))
    (runOf page (pageCount size))) with ⟨done, next, after⟩
  rw [result] at succeeds
  cases succeeds
  have placed : allocMap space virt size protFlags page taken phys = (true, next, after) := by
    simp only [allocMap, result]
  rw [placed]
  have part : ∀ member ∈ runOf page (pageCount size), member ∈ runOf page taken := by
    intro member found
    obtain ⟨i, below, same⟩ := mem_runOf.mp found
    exact mem_runOf.mpr ⟨i, by omega, same⟩
  have held : ∀ others, Holds Good (spacePages space) others phys.free →
      Holds Good (spacePages space) others
        (runOf page (pageCount size) ++ (takeRun phys (runOf page taken)).free) := by
    intro others holds
    refine holds_subset holds (List.nodup_append'.mpr ⟨runOf_nodup page few, nodup.filter _, ?_⟩) ?_
    · exact fun member found free => absurd (part member found)
        (of_decide_eq_true (List.mem_filter.mp free).2)
    · intro member found
      rcases List.mem_append.mp found with run | free
      · exact inside member (part member run)
      · exact (List.mem_filter.mp free).1
  rw [map] at result
  have cow := mapPages_cow result
  exact ⟨cow, fun others holds => mapPages_holds result (held others holds)⟩

theorem step_sound {after : Machine} (sound : Sound m) (heaps : Heaps m) (backed : Backed m event)
    (step : Step m event after) : Sound after := by
  cases event with
  | access access => exact accessStep_sound sound heaps step
  | create capsOk =>
    rcases step with rfl
    exact create_sound sound capsOk
  | load pid virt size protFlags page taken =>
    rcases step with ⟨viper, found, _, _, grants, inside, rfl⟩
    obtain ⟨few, backed⟩ := backed
    obtain ⟨reach, enough⟩ := backed viper found
    exact sound_keeps sound found
      (allocMap_keeps sound.owned.nodup (Buddy.grants_covers grants few) few inside reach enough
        protFlags)
  | setBreak pid brk =>
    rcases step with ⟨viper, found, rfl⟩
    exact sound_keeps sound found (keeps_refl _ _)
  | doSbrk pid increment =>
    rcases step with ⟨viper, found, rfl⟩
    exact sound_keeps sound found (doSbrk_keeps viper increment m.phys).1
  | sysSbrk pid increment =>
    rcases step with ⟨viper, found, rfl⟩
    exact sound_keeps sound found (sysSbrk_keeps viper increment m.phys).1
  | destroy pid =>
    rcases step with rfl
    exact destroy_sound sound pid

/-- The machine before the first process: every free page is listed once, and the
copy-on-write manager has counted nothing. -/
structure Booted (m : Machine) : Prop where
  vacant : ∀ pid, m.vipers pid = none
  nodup : m.phys.free.Nodup
  good : ∀ page ∈ m.phys.free, Good page
  uncounted : Uncounted m.phys

theorem booted_sound (booted : Booted m) : Sound m := by
  have nothing : ∀ key page, family (vipersPages m.vipers) key ≠ some page := by
    intro key page found
    simp [family, vipersPages, viperPages, booted.vacant] at found
  refine ⟨⟨booted.nodup, booted.good, ?_, ?_, ?_, ?_⟩, booted.uncounted⟩
  · exact fun key page found => absurd found (nothing key page)
  · exact fun key _ page found => absurd found (nothing key page)
  · exact fun key page found => absurd found (nothing key page)
  · exact fun _ impossible => impossible.elim

theorem booted_heaps (booted : Booted m) : Heaps m := by
  intro pid viper found
  rw [booted.vacant] at found
  cases found

theorem table_view_owned {pages : Child → Key → Option UInt64} {spot : Spot}
    (owned : ∀ child, isValid (view child spot) = true →
      ∃ key, pages child key = some (pageOf (view child spot))) (index : Fin 512)
    (table : Table Child) (valid : isValid (Table.view view table (index, spot)) = true) :
    ∃ key, table.pages pages key = some (pageOf (Table.view view table (index, spot))) := by
  cases entry : table.entries index with
  | table child =>
    simp only [Table.view, entry] at valid ⊢
    rcases owned child valid with ⟨key, found⟩
    refine ⟨some (index, key), ?_⟩
    simpa [Table.pages, withHead, family, Table.members, entry] using found
  | block =>
    simp only [Table.view, entry] at valid
    exact absurd valid (by decide)
  | empty =>
    simp only [Table.view, entry] at valid
    exact absurd valid (by decide)

theorem readAt_owned (space : L0) (spot : Place) (valid : isValid (readAt space spot) = true) :
    ∃ key, spacePages space key = some (pageOf (readAt space spot)) := by
  have leaf : ∀ table : L3, isValid (table.entries spot.2.2.2) = true →
      ∃ key, table.pages key = some (pageOf (table.entries spot.2.2.2)) := by
    intro table valid
    exact ⟨some (spot.2.2.2, ()), by simp [L3.pages, withHead, family, L3.members, valid]⟩
  have third := table_view_owned leaf spot.2.2.1
  have second := table_view_owned third spot.2.1
  exact table_view_owned second spot.1 space valid

def MappedNotFree (m : Machine) : Prop :=
  ∀ pid viper spot, m.vipers pid = some viper → isValid (readAt viper.space spot) = true →
    pageOf (readAt viper.space spot) ∉ m.phys.free

theorem sound_mappedNotFree (sound : Sound m) : MappedNotFree m := by
  intro pid viper spot found valid
  rcases readAt_owned viper.space spot valid with ⟨key, owned⟩
  have member := sound_member sound pid
  rw [found] at member
  exact (member.apart key _ owned).1

/-- Processes are created, loaded, forked and destroyed, they fault, store and move their
break, in any order and from any boot. As long as the loader gets what it asks for, the
allocator never holds a page that is mapped. -/
theorem mapped_pages_never_free {start : Machine} (booted : Booted start)
    {history : List (Event × Machine)} (trace : Trace (Guarded Backed Step) start history) :
    ∀ visited ∈ history, MappedNotFree visited.2 := by
  have preserved : ∀ before event after, Sound before ∧ Heaps before →
      Guarded Backed Step before event after → Sound after ∧ Heaps after :=
    fun _ _ _ holds step =>
      ⟨step_sound holds.1 holds.2 step.1 step.2, step_heaps holds.2 step.2⟩
  have kept := trace_invariant preserved ⟨booted_sound booted, booted_heaps booted⟩ trace
  exact fun visited member => sound_mappedNotFree (kept visited member).1

def bootMachine : Machine := ⟨fun _ => none, bootMemory⟩

theorem booted_of_free (nodup : free.Nodup) (good : ∀ page ∈ free, Good page) :
    Booted ⟨fun _ => none, { spareMemory with free }⟩ where
  vacant _ := rfl
  nodup := nodup
  good := good
  uncounted page := by simp [spareMemory, CowManager.getRef, CowManager.tracks]

theorem bootMachine_booted : Booted bootMachine := booted_of_free bootMemory_nodup bootMemory_good

def loadInto (m : Machine) (viper : Viper) (virt size page : UInt64) (taken : Nat) : Machine :=
  setMemory m 0
    { viper with space := (allocMap viper.space virt size protRw page taken m.phys).2.1 }
    (allocMap viper.space virt size protRw page taken m.phys).2.2

def oneProcess : Machine := (create bootMachine true).2

theorem oneProcess_found : (oneProcess.vipers 0).isSome = true := by
  decide

def oneViper : Viper := (oneProcess.vipers 0).get oneProcess_found

def loadedProcess : Machine := loadInto oneProcess oneViper 0x801FF000 8192 0x41010000 2

theorem loadedProcess_found : (loadedProcess.vipers 0).isSome = true := by
  decide

def loadedViper : Viper := (loadedProcess.vipers 0).get loadedProcess_found

def touchedProcess : Machine :=
  setMemory loadedProcess 0
    (handlePageFault loadedViper userHeapBase true noFiles loadedProcess.phys).2.1
    (handlePageFault loadedViper userHeapBase true noFiles loadedProcess.phys).2.2

def lifeHistory : List (Event × Machine) :=
  [(.create true, oneProcess), (.load 0 0x801FF000 8192 protRw 0x41010000 2, loadedProcess),
    (.access (.fault 0 userHeapBase true noFiles), touchedProcess),
    (.access (.fork 0 true), (fork touchedProcess 0 true).2),
    (.destroy 0, destroy (fork touchedProcess 0 true).2 0)]

theorem lifeHistory_backed : Trace (Guarded Backed Step) bootMachine lifeHistory := by
  have backed : Backed oneProcess (.load 0 0x801FF000 8192 protRw 0x41010000 2) := by
    refine ⟨by decide, fun viper found => ?_⟩
    obtain rfl : viper = oneViper := Option.some.inj (found.symm.trans (Option.some_get _).symm)
    unfold Open
    exact ⟨List.all_iff_forall_prop.mp (by decide), by decide⟩
  refine ⟨⟨trivial, rfl⟩, ⟨backed, oneViper, (Option.some_get _).symm, by decide, by decide,
    .inr rfl, ?_, rfl⟩, ⟨trivial, loadedViper, (Option.some_get _).symm, ?_, ?_, rfl⟩,
    ⟨trivial, rfl⟩, ⟨trivial, rfl⟩, trivial⟩
  · exact List.all_iff_forall_prop.mp (by decide)
  · decide
  · decide

theorem life_history_safe : Booted bootMachine ∧
    Trace (Guarded Backed Step) bootMachine lifeHistory ∧
    ∀ visited ∈ lifeHistory, MappedNotFree visited.2 :=
  ⟨bootMachine_booted, lifeHistory_backed,
    mapped_pages_never_free bootMachine_booted lifeHistory_backed⟩

/-- No fork ever succeeds: in every state that a run from boot reaches the areas of the process
collide with those that the child was created with. -/
theorem no_fork_succeeds {start : Machine} (booted : Booted start)
    {history : List (Event × Machine)} (trace : Trace Step start history) :
    ∀ visited ∈ history, ∀ pid capsOk, (fork visited.2 pid capsOk).1 = none ∧
      (fork visited.2 pid capsOk).2.vipers = visited.2.vipers := by
  have preserved : ∀ before event after, Heaps before → Step before event after → Heaps after :=
    fun _ _ _ => step_heaps
  have heaps := trace_invariant preserved (booted_heaps booted) trace
  intro visited member pid capsOk
  obtain ⟨none, same, _⟩ := fork_refused (heaps visited member) pid capsOk
  exact ⟨none, same⟩

theorem loaded_process_cannot_fork : Trace Step bootMachine lifeHistory ∧
    (touchedProcess.vipers 0).isSome = true ∧ (fork touchedProcess 0 true).1 = none := by
  have trace := trace_unguarded lifeHistory_backed
  have member : (.access (.fault 0 userHeapBase true noFiles), touchedProcess) ∈ lifeHistory :=
    .tail _ (.tail _ (.head _))
  exact ⟨trace, rfl, (no_fork_succeeds bootMachine_booted trace _ member 0 true).1⟩

/-- Six free pages, of which a process takes two for its tables. -/
def lowMachine : Machine := ⟨fun _ => none, { spareMemory with
  free := (List.range 6).map fun i => 0x41000000 + UInt64.ofNat (4096 * i) }⟩

def lowProcess : Machine := (create lowMachine true).2

theorem lowProcess_found : (lowProcess.vipers 0).isSome = true := by
  decide

def lowViper : Viper := (lowProcess.vipers 0).get lowProcess_found

/-- Two pages are left for the tables of the segment, which needs three. -/
def halfLoaded : Machine := loadInto lowProcess lowViper 0x801FF000 8192 0x41004000 2

/-- The load fails, and the pages are free again with the first still mapped. -/
theorem failed_load_frees_mapped_page : Booted lowMachine ∧
    Trace Step lowMachine [(.create true, lowProcess),
      (.load 0 0x801FF000 8192 protRw 0x41004000 2, halfLoaded)] ∧
    ¬ MappedNotFree halfLoaded := by
  refine ⟨booted_of_free (by decide) ?_, ⟨rfl, ⟨lowViper, (Option.some_get _).symm, by decide,
    by decide, .inr rfl, List.all_iff_forall_prop.mp (by decide), rfl⟩, trivial⟩, fun safe => ?_⟩
  · unfold Good
    exact List.all_iff_forall_prop.mp (by decide)
  · exact safe 0 ((halfLoaded.vipers 0).get (by decide)) (place 0x801FF000)
      (Option.some_get _).symm (by decide) (by decide)

end ViperDos.Memory
