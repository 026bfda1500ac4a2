import ViperDos.Assigns

/-!
What the assign table is for: a registry of names, where each name is bound to a directory
or to the channel of a service, and may be bound for good as a system assign. The table
records a registry when every name has one entry that says what it is bound to. Setting,
adding a new name and removing change the registry at that name only.
-/

namespace ViperDos.Assign

open Function

def fold (name : Name) : Name := name.map lower

inductive Binding where
  | directory (inode : UInt64) (fs : FsPointer)
  | service (channel : UInt32)
  deriving DecidableEq

structure Bound where
  binding : Binding
  system : Bool
  deriving DecidableEq

abbrev Registry := Name → Option Bound

/-- The entry that `find_assign` comes to, which is all that a lookup of the name reads. -/
def lookup (table : Assigns) (name : Name) : Option AssignEntry := (findAssign table name).map table

def AssignEntry.bound (entry : AssignEntry) : Bound where
  binding :=
    if entry.flagged assignService then .service entry.channelId
    else .directory entry.dirInode entry.fs
  system := entry.flagged assignSystem

def Distinct (table : Assigns) : Prop :=
  ∀ i j, i < maxAssigns → j < maxAssigns → (table i).active = true →
    (table j).active = true → fold (table i).name = fold (table j).name → i = j

structure Records (table : Assigns) (registry : Registry) : Prop where
  unchained : ∀ i, (table i).next = none
  distinct : Distinct table
  agrees : ∀ name, registry (fold name) = (lookup table name).map AssignEntry.bound

theorem strEqNocase_iff (a b : Name) : strEqNocase a b = true ↔ fold a = fold b := by
  induction a generalizing b with
  | nil => cases b <;> simp [strEqNocase, fold]
  | cons x rest ih =>
    cases b with
    | nil => simp [strEqNocase, fold]
    | cons y others =>
      by_cases same : lower x = lower y
      · simpa [strEqNocase, fold, same] using ih others
      · simp [strEqNocase, fold, same]

variable {table after : Assigns} {name : Name} {i : Nat} {registry : Registry} {inode : UInt64}
  {flags : UInt32} {fs : FsPointer} {result : Except AssignError Unit}

theorem findAssign_some (found : findAssign table name = some i) :
    i < maxAssigns ∧ (table i).active = true ∧ fold (table i).name = fold name := by
  have matched := List.find?_some found
  simp only [Bool.and_eq_true, strEqNocase_iff] at matched
  exact ⟨List.mem_range.mp (List.mem_of_find?_eq_some found), matched⟩

theorem findAssign_iff (distinct : Distinct table) : findAssign table name = some i ↔
    i < maxAssigns ∧ (table i).active = true ∧ fold (table i).name = fold name := by
  refine ⟨findAssign_some, ?_⟩
  rintro ⟨inside, active, same⟩
  cases found : findAssign table name with
  | none =>
    have missed := List.find?_eq_none.mp found i (List.mem_range.mpr inside)
    simp [active, (strEqNocase_iff _ _).mpr same] at missed
  | some j =>
    obtain ⟨bound, other, alike⟩ := findAssign_some found
    rw [distinct i j inside bound active other (same.trans alike.symm)]

structure Slot (table : Assigns) (name : Name) (i : Nat) : Prop where
  inside : i < maxAssigns
  only : ∀ j < maxAssigns, (table j).active = true → fold (table j).name = fold name → j = i
  own : (table i).active = true → fold (table i).name = fold name

theorem channelId_setChannelId (entry : AssignEntry) (id : UInt32) :
    (entry.setChannelId id).channelId = id := by
  apply UInt32.toBitVec_inj.mp
  apply BitVec.eq_of_getLsbD_eq
  intro i small
  simp [AssignEntry.channelId, AssignEntry.setChannelId, small]

theorem service_flagged (flags : UInt32) : (flags ||| assignService) &&& assignService ≠ 0 := by
  intro none
  have bit := congrArg (fun word => word.toBitVec.getLsbD 3) none
  simp [assignService] at bit

theorem service_system (flags : UInt32) :
    (flags ||| assignService) &&& assignSystem = flags &&& assignSystem := by
  apply UInt32.toBitVec_inj.mp
  apply BitVec.eq_of_getLsbD_eq
  intro i small
  have apart : (assignService.toBitVec.getLsbD i && assignSystem.toBitVec.getLsbD i) = false := by
    revert i
    decide
  simp only [UInt32.toBitVec_and, UInt32.toBitVec_or, BitVec.getLsbD_and, BitVec.getLsbD_or]
  cases flags.toBitVec.getLsbD i <;> simp_all

theorem lower_lower (c : UInt8) : lower (lower c) = lower c := by
  by_cases upper : 0x41 ≤ c ∧ c ≤ 0x5A
  · have letter : lower c = c + 32 := if_pos upper
    have small : ¬ (0x41 ≤ c + 32 ∧ c + 32 ≤ 0x5A) := by
      simp only [UInt8.le_iff_toNat_le, UInt8.toNat_add, UInt8.reduceToNat] at upper ⊢
      omega
    rw [letter]
    exact if_neg small
  · have kept : lower c = c := if_neg upper
    rw [kept, kept]

theorem fold_fold (name : Name) : fold (fold name) = fold name := by
  simp [fold, lower_lower]

def registryOf (table : Assigns) : Registry := fun name => (lookup table name).map AssignEntry.bound

section

variable (records : Records table registry)

include records

theorem lookup_fold (name : Name) : lookup table (fold name) = lookup table name := by
  have found : findAssign table (fold name) = findAssign table name := by
    apply Option.ext
    intro i
    rw [findAssign_iff records.distinct, findAssign_iff records.distinct, fold_fold]
  rw [lookup, lookup, found]

theorem records_own : Records table (registryOf table) := by
  refine ⟨records.unchained, records.distinct, ?_⟩
  intro name
  rw [registryOf, lookup_fold records]

theorem slot_found (found : findAssign table name = some i) : Slot table name i := by
  obtain ⟨inside, active, same⟩ := findAssign_some found
  refine ⟨inside, ?_, fun _ => same⟩
  intro j bound alsoActive alike
  exact records.distinct j i bound inside alsoActive active (alike.trans same.symm)

theorem slot_free (missing : findAssign table name = none)
    (free : findFreeSlot table = some i) : Slot table name i := by
  have inactive := List.find?_some free
  refine ⟨List.mem_range.mp (List.mem_of_find?_eq_some free), ?_, ?_⟩
  · intro j inside active alike
    rw [(findAssign_iff records.distinct).mpr ⟨inside, active, alike⟩] at missing
    cases missing
  · intro active
    simp [active] at inactive

structure Rebinds (table : Assigns) (registry : Registry) (name : Name) (new : Option Bound)
    (after : Assigns) : Prop where
  records : Records after (update registry (fold name) new)
  others : ∀ other, fold other ≠ fold name → lookup after other = lookup table other
  unlocked : ∀ b, registry (fold name) = some b → b.system = false

/-- The one way in which the table changes: the slot of a name is filled or cleared. -/
theorem put_rebinds (slot : Slot table name i) {entry : AssignEntry}
    (named : entry.active = true → fold entry.name = fold name) (unchained : entry.next = none)
    (unlocked : (table i).active = true → (table i).flagged assignSystem = false) :
    Rebinds table registry name (if entry.active then some entry.bound else none)
      (update table i entry) := by
  have elsewhere : ∀ {j}, j ≠ i → update table i entry j = table j :=
    fun away => update_of_ne away _ _
  have distinct : Distinct (update table i entry) := by
    intro m n first second
    -- an entry other than the slot has another name
    by_cases atM : m = i <;> by_cases atN : n = i
    · intros
      rw [atM, atN]
    · subst atM
      rw [update_self, elsewhere atN]
      intro active other same
      exact (slot.only n second other (same.symm.trans (named active))).symm
    · subst atN
      rw [update_self, elsewhere atM]
      intro other active same
      exact slot.only m first other (same.trans (named active))
    · rw [elsewhere atM, elsewhere atN]
      exact records.distinct m n first second
  have others : ∀ other, fold other ≠ fold name →
      lookup (update table i entry) other = lookup table other := by
    intro other different
    have found : findAssign (update table i entry) other = findAssign table other := by
      apply Option.ext
      intro j
      rw [findAssign_iff distinct, findAssign_iff records.distinct]
      by_cases here : j = i
      · subst here
        rw [update_self]
        constructor
        · rintro ⟨_, active, same⟩
          exact absurd (same.symm.trans (named active)) different
        · rintro ⟨_, active, same⟩
          exact absurd (same.symm.trans (slot.own active)) different
      · rw [elsewhere here]
    unfold lookup
    rw [found]
    cases place : findAssign table other with
    | none => rfl
    | some j =>
      obtain ⟨_, active, same⟩ := findAssign_some place
      have away : j ≠ i := by
        rintro rfl
        exact different (same.symm.trans (slot.own active))
      simp [elsewhere away]
  refine ⟨⟨?_, distinct, ?_⟩, others, ?_⟩
  · intro j
    by_cases here : j = i
    · rw [here, update_self, unchained]
    · rw [elsewhere here, records.unchained]
  · intro other
    by_cases same : fold other = fold name
    · rw [same, update_self]
      by_cases active : entry.active = true
      · have found : findAssign (update table i entry) other = some i := by
          rw [findAssign_iff distinct, update_self]
          exact ⟨slot.inside, active, (named active).trans same.symm⟩
        simp [lookup, found, active]
      · have missing : findAssign (update table i entry) other = none := by
          rw [Option.eq_none_iff_forall_ne_some]
          intro j found
          obtain ⟨inside, other, alike⟩ := findAssign_some found
          by_cases here : j = i
          · rw [here, update_self] at other
            exact active other
          · rw [elsewhere here] at other alike
            exact here (slot.only j inside other (alike.trans same))
        simp [lookup, missing, active]
    · rw [update_of_ne same, others other same, records.agrees]
  · intro b bound
    rw [records.agrees, Option.map_eq_some_iff] at bound
    obtain ⟨e, found, rfl⟩ := bound
    obtain ⟨j, place, rfl⟩ := Option.map_eq_some_iff.mp found
    obtain ⟨inside, active, same⟩ := findAssign_some place
    cases slot.only j inside active same
    exact unlocked active

theorem set_rebinds (done : set table name inode flags fs = .ok after) :
    Rebinds table registry name
      (some ⟨if flags &&& assignService ≠ 0 then .service inode.toUInt32 else .directory inode fs,
        flags &&& assignSystem ≠ 0⟩) after := by
  unfold set at done
  split at done
  · cases done
  split at done
  next i found =>
    have same := (findAssign_some found).2
    split at done
    · cases done
    next open' =>
    cases done
    have put := @put_rebinds _ _ i _ records (slot_found records found)
      { (table i).setDirInode inode with fs, flags } (fun _ => same.2)
      (records.unchained i) (fun _ => by simpa using open')
    simpa [AssignEntry.setDirInode, same.1, AssignEntry.bound, AssignEntry.flagged,
      AssignEntry.channelId, AssignEntry.dirInode] using put
  next missing =>
  split at done
  · cases done
  next i free =>
  cases done
  have inactive := List.find?_some free
  have put := @put_rebinds _ _ i _ records (slot_free records missing free)
    { (table i).setDirInode inode with name, fs, flags, next := none, active := true }
    (fun _ => rfl) rfl (fun active => by simp [active] at inactive)
  simpa [AssignEntry.setDirInode, AssignEntry.bound, AssignEntry.flagged,
    AssignEntry.channelId, AssignEntry.dirInode] using put

theorem setChannel_rebinds {id : UInt32} (done : setChannel table name id flags = .ok after) :
    Rebinds table registry name (some ⟨.service id, flags &&& assignSystem ≠ 0⟩) after := by
  have service := service_flagged flags
  have system := service_system flags
  have number : ∀ i, ((table i).word &&& 0xFFFFFFFF00000000 ||| id.toUInt64).toUInt32 = id :=
    fun i => channelId_setChannelId (table i) id
  unfold setChannel at done
  split at done
  · cases done
  split at done
  next i found =>
    have same := (findAssign_some found).2
    split at done
    · cases done
    next open' =>
    cases done
    have put := @put_rebinds _ _ i _ records (slot_found records found)
      { (table i).setChannelId id with flags := flags ||| assignService }
      (fun _ => same.2) (records.unchained i) (fun _ => by simpa using open')
    simpa [AssignEntry.setChannelId, same.1, AssignEntry.bound, AssignEntry.flagged,
      AssignEntry.channelId, service, system, number] using put
  next missing =>
  split at done
  · cases done
  next i free =>
  cases done
  have inactive := List.find?_some free
  have put := @put_rebinds _ _ i _ records (slot_free records missing free)
    { (table i).setChannelId id with
      name, flags := flags ||| assignService, next := none, active := true }
    (fun _ => rfl) rfl (fun active => by simp [active] at inactive)
  simpa [AssignEntry.setChannelId, AssignEntry.bound, AssignEntry.flagged,
    AssignEntry.channelId, service, system, number] using put

theorem add_rebinds (missing : findAssign table name = none)
    (done : add table name inode = some (result, after)) :
    result = .ok () ∧ Rebinds table registry name (some ⟨.directory inode .null, false⟩) after ∨
      result ≠ .ok () ∧ after = table := by
  unfold add at done
  rw [missing] at done
  simp only at done
  split at done
  next accepted =>
    cases done
    exact .inl ⟨rfl, set_rebinds records accepted⟩
  · cases done
    exact .inr ⟨by simp, rfl⟩

theorem remove_rebinds (done : remove table name = .ok after) :
    Rebinds table registry name none after := by
  unfold remove at done
  split at done
  · cases done
  next i found =>
  split at done
  · cases done
  next open' =>
  cases done
  have put := @put_rebinds _ _ i _ records (slot_found records found)
    { (table i).setDirInode 0 with active := false, name := [], next := none }
    (by simp) rfl (fun _ => by simpa using open')
  simpa [removeChain, records.unchained i] using put

end

-- The table at boot

def Directories (table : Assigns) : Prop :=
  ∃ registry, Records table registry ∧
    ∀ name b, registry name = some b → ∃ inode fs, b.binding = .directory inode fs

theorem blank_directories : Directories blank := by
  have missing : ∀ name, findAssign blank name = none := by
    intro name
    simp [findAssign, blank]
  refine ⟨fun _ => none, ⟨fun _ => rfl, ?_, ?_⟩, by simp⟩
  · intro i j _ _ active
    simp [blank] at active
  · intro name
    simp [lookup, missing]

theorem setOr_directories (directories : Directories table) (name : Name) (inode : UInt64)
    (fs : FsPointer) : Directories (setOr table name inode assignSystem fs) := by
  obtain ⟨registry, records, only⟩ := directories
  unfold setOr
  split
  next done =>
    refine ⟨_, (set_rebinds records done).records, ?_⟩
    intro other b bound
    by_cases same : other = fold name
    · rw [same, update_self] at bound
      cases bound
      exact ⟨inode, fs, rfl⟩
    · rw [update_of_ne same] at bound
      exact only other b bound
  · exact ⟨registry, records, only⟩

theorem standard_directories (userFs : FsPointer) (paths : List (Name × UInt64))
    (directories : Directories table) : Directories (setupStandardAssigns userFs paths table) := by
  induction paths generalizing table with
  | nil => exact directories
  | cons head rest ih =>
    apply ih
    split
    · exact setOr_directories directories _ _ _
    · exact directories

theorem init_directories (rootInode : UInt64) : Directories (init rootInode) :=
  setOr_directories (setOr_directories blank_directories _ _ _) _ _ _

end ViperDos.Assign
