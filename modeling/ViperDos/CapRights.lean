import ViperDos.CapArrivals

/-!
Rights along the use of capabilities. A step leads from the place of a capability to the
places where it stands afterwards: its own, and those of the capabilities obtained from
it by deriving, by opening a file through a directory, by sending and by receiving.
Rights shrink along these steps except when a file is opened: `fs_open` gives reading
and writing whatever the directory handle allows.
-/

namespace ViperDos.Ipc

open CapTable Rings Transition

variable {current first : UInt32} {k after : Kernel} {label : Label} {x y : Place}
  {c d : TransferredHandle} {pid : Nat} {v : Viper} {call : Call}

theorem hasRights_iff {required : UInt32} :
    hasRights current required = true ↔ current &&& required = required := by
  simp [hasRights]

theorem hasRights_refl (rights : UInt32) : hasRights rights rights = true :=
  hasRights_iff.mpr UInt32.and_self

theorem hasRights_trans {second third : UInt32} (upper : hasRights first second = true)
    (lower : hasRights second third = true) : hasRights first third = true := by
  rw [hasRights_iff] at *
  calc
    first &&& third = first &&& (second &&& third) := by rw [lower]
    _ = first &&& second &&& third := (UInt32.and_assoc _ _ _).symm
    _ = second &&& third := by rw [upper]
    _ = third := lower

theorem hasRights_masked (rights mask : UInt32) : hasRights rights (rights &&& mask) = true := by
  rw [hasRights_iff, ← UInt32.and_assoc, UInt32.and_self]

/-- The capability at `y` after a step is the one at `x`, or was obtained from it. -/
inductive Leads (k : Kernel) (label : Label) (after : Kernel) (x y : Place) : Prop where
  | stays {c : TransferredHandle} (same : x = y) (before : capAt k x = some c)
      (still : capAt after y = some c)
  | obtained {v : Viper} {c : TransferredHandle} (running : k.vipers label.pid = some v)
      (arrives : Arrives k label.pid v label.call (some x) y c) (there : capAt after y = some c)

/-- A run along which a capability at `x` is followed to one at `y`. -/
inductive Descends (step : Kernel → Label → Kernel → Prop) :
    Kernel → Place → Kernel → Place → Prop where
  | here (k : Kernel) (x : Place) : Descends step k x k x
  | next {k middle after : Kernel} {label : Label} {x y z : Place}
      (first : step k label middle) (leads : Leads k label middle x y)
      (rest : Descends step middle y after z) : Descends step k x after z

/-- Files and directories are opened only through handles that have the rights every
open hands out. -/
def OpensWithin (k : Kernel) (label : Label) : Prop :=
  ∀ storage h name flags address, label.call = .fsOpen storage h name flags address →
    ∀ dir, capAt k (.slot label.pid (handleIndex h).toNat) = some dir →
      hasRights dir.rights openRights = true

theorem leads_shrinks (within : OpensWithin k label) (leads : Leads k label after x y)
    (before : capAt k x = some c) (there : capAt after y = some d) :
    hasRights c.rights d.rights = true := by
  cases leads with
  | stays same was still =>
    cases was.symm.trans before
    cases still.symm.trans there
    exact hasRights_refl _
  | @obtained v e running arrives found =>
    cases found.symm.trans there
    obtain ⟨pid, call⟩ := label
    -- the five ways to arrive: all but the opening of a file mask the source's rights
    cases arrives with
    | opened through granted =>
      cases before.symm.trans through
      have enough := within _ _ _ _ _ rfl c before
      simp only [grants, List.mem_cons, Prod.mk.injEq, true_and, List.not_mem_nil,
        or_false] at granted
      rcases granted with rfl | rfl <;> exact enough
    | derived source =>
      cases before.symm.trans source
      exact hasRights_masked _ _
    | sent _ source =>
      cases before.symm.trans source
      exact hasRights_refl _
    | received source =>
      cases before.symm.trans source
      exact hasRights_masked _ _

theorem arrives_source (arrives : Arrives k pid v call (some x) y c) :
    ∃ source, capAt k x = some source := by
  cases arrives with
  | opened through _ => exact ⟨_, through⟩
  | derived source => exact ⟨_, source⟩
  | sent _ source => exact ⟨_, source⟩
  | received source => exact ⟨_, source⟩

theorem descends_shrinks (descends : Descends (Guarded OpensWithin Step) k x after y)
    (before : capAt k x = some c) (there : capAt after y = some d) :
    hasRights c.rights d.rights = true := by
  induction descends generalizing c with
  | here k x =>
    cases before.symm.trans there
    exact hasRights_refl _
  | next first leads _ ih =>
    obtain ⟨e, between⟩ : ∃ e, capAt _ _ = some e := by
      cases leads with
      | stays _ _ still => exact ⟨_, still⟩
      | obtained _ _ found => exact ⟨_, found⟩
    exact hasRights_trans (leads_shrinks first.1 leads before between) (ih between there)

/-- Every capability a call leaves was there before, was created without a source, or was
obtained from one that was there; and in a run that opens files only through handles with
the rights to read and write, a capability has no right that the one it was obtained
from, at any remove, did not have. -/
theorem rights_never_grow {pids : List Nat} {assigns : Assign.Assigns} {earlier : List Label}
    {s : Kernel} (reached : Run Step (boot pids assigns) earlier s) :
    (∀ label after y d, Step s label after → capAt after y = some d →
      (∃ v, s.vipers label.pid = some v ∧ Arrives s label.pid v label.call none y d) ∨
        ∃ x c, capAt s x = some c ∧ Leads s label after x y) ∧
    ∀ after x y c d, Descends (Guarded OpensWithin Step) s x after y → capAt s x = some c →
      capAt after y = some d → hasRights c.rights d.rights = true ∧
          (c.rights &&& capWrite = 0 → d.rights &&& capWrite = 0) := by
  have sane := reached_sane reached
  constructor
  · intro label after y d step held
    obtain ⟨_, v, running, performs⟩ := step
    rcases deed_arrives sane running (performs_deed sane running performs) held with
      old | ⟨source, arrives⟩
    · exact .inr ⟨y, d, old, .stays rfl old held⟩
    cases source with
    | none => exact .inl ⟨v, running, arrives⟩
    | some x =>
      obtain ⟨c, before⟩ := arrives_source arrives
      exact .inr ⟨x, c, before, .obtained running arrives held⟩
  · intro after x y c d descends before there
    have shrinks := descends_shrinks descends before there
    refine ⟨shrinks, ?_⟩
    intro readOnly
    rw [← hasRights_iff.mp shrinks, UInt32.and_comm c.rights, UInt32.and_assoc, readOnly,
      UInt32.and_zero]

-- A small disk: the root directory, inode 2, has one file, inode 3, of one letter.

def smallSuperblock : ViperFs.Superblock := ⟨fun position => if position = 64 then 1 else 0⟩

def smallDisk : ViperFs.Disk := fun block position =>
  if block = 1 then
    -- the inode table: modes, and the size and first block of the directory
    if position = 512 + 9 then 0x40
    else if position = 512 + 16 then 16
    else if position = 512 + 56 then 2
    else if position = 768 + 9 then 0x80
    else 0
  else if block = 2 then
    -- one record: inode 3, length 16, a name of one byte
    if position = 0 then 3
    else if position = 8 then 16
    else if position = 10 then 1
    else if position = 11 then 1
    else if position = 12 then 0x66
    else 0
  else 0

def smallStorage : Storage where
  env := { readable := fun _ => true, now := 0, ticks := 0, answers := fun _ => .written,
           scratch := fun _ => 0 }
  system := { sb := smallSuperblock, disk := smallDisk, mounted := true }
  user := { sb := smallSuperblock, disk := smallDisk, mounted := true }

def rootOpened : Kernel :=
  (sysFsOpenRoot (boot [1] Assign.blank) 1 (newViper none) smallStorage 0x1000).2

def viperOf (k : Kernel) (pid : Nat) : Viper := (k.vipers pid).getD (newViper none)

def readOnlyDerived : Kernel :=
  (sysCapDerive rootOpened 1 (viperOf rootOpened 1) 1 capRead).2

def fileOpened : Kernel :=
  ((sysFsOpen readOnlyDerived 1 (viperOf readOnlyDerived 1) smallStorage 2 [0x66] 2 0x2000).map
    Prod.snd).getD readOnlyDerived

theorem viperOf_running (present : (k.vipers pid).isSome = true) :
    k.vipers pid = some (viperOf k pid) := by
  obtain ⟨v, running⟩ := Option.isSome_iff_exists.mp present
  simp [viperOf, running]

theorem performed_some {result : Option (Outcome × Kernel)} (defined : result.isSome = true) :
    ∃ outcome, result = some (outcome, (result.map Prod.snd).getD k) := by
  obtain ⟨⟨outcome, after⟩, rfl⟩ := Option.isSome_iff_exists.mp defined
  exact ⟨outcome, rfl⟩

def freshlyAddressed (k : Kernel) (call : Call) : Bool :=
  decide call.addresses.Nodup &&
    call.addresses.all fun address => address ≠ 0 && k.objects address = none

theorem freshlyAddressed_fresh (checked : freshlyAddressed k call = true) : Fresh k call := by
  simp only [freshlyAddressed, Bool.and_eq_true, decide_eq_true_eq, List.all_eq_true] at checked
  exact checked

theorem checked_step
    (present : (k.vipers pid).isSome = true) (fresh : freshlyAddressed k call = true)
    (performs : Performs k pid (viperOf k pid) call after) : Step k ⟨pid, call⟩ after :=
  ⟨freshlyAddressed_fresh fresh, _, viperOf_running present, performs⟩

theorem small_steps : Step (boot [1] Assign.blank) ⟨1, .fsOpenRoot smallStorage 0x1000⟩ rootOpened ∧
      Step rootOpened ⟨1, .capDerive 1 capRead⟩ readOnlyDerived ∧
      Step readOnlyDerived ⟨1, .fsOpen smallStorage 2 [0x66] 2 0x2000⟩ fileOpened := by
  have facts : (rootOpened.vipers 1).isSome ∧ (readOnlyDerived.vipers 1).isSome ∧
      freshlyAddressed (boot [1] Assign.blank) (.fsOpenRoot smallStorage 0x1000) ∧
      freshlyAddressed readOnlyDerived (.fsOpen smallStorage 2 [0x66] 2 0x2000) ∧
      (sysFsOpen readOnlyDerived 1 (viperOf readOnlyDerived 1) smallStorage 2 [0x66] 2
        0x2000).isSome := by
    decide
  obtain ⟨first, second, atBoot, unused, defined⟩ := facts
  exact ⟨checked_step rfl atBoot rfl, checked_step first rfl rfl,
    checked_step second unused (performed_some defined)⟩

theorem small_places : capAt rootOpened (.slot 1 1) = some ⟨0x1000, .directory, openRootRights⟩ ∧
      capAt readOnlyDerived (.slot 1 2) = some ⟨0x1000, .directory, capRead⟩ ∧
      capAt fileOpened (.slot 1 3) = some ⟨0x2000, .file, openRights⟩ := by
  decide

/-- Deriving the root directory for reading only. -/
theorem derived_root_shrinks : hasRights openRootRights capRead = true ∧
      (openRootRights &&& capWrite = 0 → capRead &&& capWrite = 0) := by
  obtain ⟨opens, derives, _⟩ := small_steps
  obtain ⟨atRoot, atDerived, _⟩ := small_places
  have within : OpensWithin rootOpened ⟨1, .capDerive 1 capRead⟩ := by
    intro _ _ _ _ _ other
    cases other
  obtain ⟨fresh, v, running, performs⟩ := derives
  have arrives : Arrives rootOpened 1 v (.capDerive 1 capRead) (some (.slot 1 1)) (.slot 1 2)
      ⟨0x1000, .directory, capRead⟩ := by
    have derived := @Arrives.derived rootOpened 1 v 1 capRead 2 _ atRoot
    exact derived
  exact (rights_never_grow (.next opens (.refl _))).2 _ _ _ _ _
    (.next ⟨within, fresh, v, running, performs⟩ (.obtained running arrives atDerived) (.here _ _))
    atRoot atDerived

/-- A directory handle that only reads, and a file opened through it that can be written. -/
theorem read_only_directory_writes : Run Step (boot [1] Assign.blank)
        [⟨1, .fsOpenRoot smallStorage 0x1000⟩, ⟨1, .capDerive 1 capRead⟩] readOnlyDerived ∧
      Step readOnlyDerived ⟨1, .fsOpen smallStorage 2 [0x66] 2 0x2000⟩ fileOpened ∧
      Leads readOnlyDerived ⟨1, .fsOpen smallStorage 2 [0x66] 2 0x2000⟩ fileOpened
        (.slot 1 2) (.slot 1 3) ∧
      capAt readOnlyDerived (.slot 1 2) = some ⟨0x1000, .directory, capRead⟩ ∧
      capAt fileOpened (.slot 1 3) = some ⟨0x2000, .file, openRights⟩ ∧
      hasRights capRead openRights = false ∧ openRights &&& capWrite ≠ 0 := by
  obtain ⟨opens, derives, openFile⟩ := small_steps
  obtain ⟨_, atDerived, atFile⟩ := small_places
  have running : readOnlyDerived.vipers 1 = some (viperOf readOnlyDerived 1) := by
    obtain ⟨_, v, running, _⟩ := openFile
    simp [viperOf, running]
  refine ⟨.next opens (.next derives (.refl _)), openFile, ?_, atDerived, atFile, ?_⟩
  · exact .obtained running (.opened (h := 2) atDerived (by simp [grants])) atFile
  · decide

end ViperDos.Ipc
