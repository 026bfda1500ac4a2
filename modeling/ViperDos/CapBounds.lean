import ViperDos.CapObjects

/-!
The bounding set of a process, which masks new rights on the receipt of a message only. A right
that has left it stays out of the table if the calls made afterwards give no more than it allows,
and comes back otherwise.
-/

namespace ViperDos.Ipc

open CapTable Transition Function

/-- The rights a call hands to its caller lie within the caller's bounding set: those of
the capabilities it creates, or of the one it derives. -/
def WithinBound (k : Kernel) (label : Label) : Prop :=
  ∀ v, k.vipers label.pid = some v →
    (∀ c, (label.pid, c) ∈ grants k label.pid label.call →
      c.rights &&& ~~~v.capBoundingSet = 0) ∧
    ∀ h newRights c, label.call = .capDerive h newRights →
      capAt k (.slot label.pid (handleIndex h).toNat) = some c →
        c.rights &&& newRights &&& ~~~v.capBoundingSet = 0

variable {rights right : UInt32} {k middle after s : Kernel} {v w : Viper} {pid child owner i : Nat}
  {caps : List TransferredHandle} {call : Call} {label : Label} {source : Option Place}
  {c : TransferredHandle} {labels earlier : List Label} {pids : List Nat} {assigns : Assign.Assigns}
  {members : Nat → Prop} {object : UInt64}

theorem masked_right {bound : UInt32} (within : rights &&& ~~~bound = 0)
    (dropped : right &&& bound = 0) : rights &&& right = 0 := by
  apply UInt32.toBitVec_inj.mp
  apply BitVec.eq_of_getLsbD_eq
  intro i small
  have inside := congrArg (fun bits => bits.toBitVec.getLsbD i) within
  have outside := congrArg (fun bits => bits.toBitVec.getLsbD i) dropped
  simp only [UInt32.toBitVec_and, UInt32.toBitVec_not, BitVec.getLsbD_and, BitVec.getLsbD_not,
    small, decide_true, Bool.true_and, UInt32.toBitVec_zero, BitVec.getLsbD_zero] at inside outside ⊢
  cases held : rights.toBitVec.getLsbD i <;> simp_all

theorem masked_subset {bound : UInt32} (dropped : right &&& bound = 0) :
    rights &&& bound &&& right = 0 := by
  rw [UInt32.and_assoc, UInt32.and_comm bound, dropped, UInt32.and_zero]

def KeepsBounds (k after : Kernel) : Prop :=
  ∀ pid v, k.vipers pid = some v → ∃ w, after.vipers pid = some w ∧
    ∀ right, right &&& v.capBoundingSet = 0 → right &&& w.capBoundingSet = 0

theorem keepsBounds_trans (first : KeepsBounds k middle) (second : KeepsBounds middle after) :
    KeepsBounds k after := by
  intro pid v running
  obtain ⟨w, atMiddle, keptFirst⟩ := first pid v running
  obtain ⟨x, atEnd, keptLast⟩ := second pid w atMiddle
  exact ⟨x, atEnd, fun right dropped => keptLast right (keptFirst right dropped)⟩

theorem setViper_bounds (running : k.vipers pid = some v)
    (shrinks : ∀ right, right &&& v.capBoundingSet = 0 → right &&& w.capBoundingSet = 0) :
    KeepsBounds k (setViper k pid w) := by
  intro p u present
  by_cases same : p = pid
  · subst same
    cases running.symm.trans present
    exact ⟨w, update_self _ _ _, shrinks⟩
  · exact ⟨u, (update_of_ne same _ _).trans present, fun _ => id⟩

theorem effect_bounds (running : k.vipers pid = some v) (effect : Effect caps k pid v after) :
    KeepsBounds k after := by
  cases effect with
  | quiet quiet =>
    intro p u present
    exact ⟨u, quiet.vipers ▸ present, fun _ => id⟩
  | changed table _ changes =>
    have set := @setViper_bounds k v { v with capTable := table } pid running fun _ => id
    intro p u present
    rw [changes.vipers]
    exact set p u present

theorem newChild_bounds (unused : k.vipers child = none) (v : Viper) :
    KeepsBounds k (sysFork k v child) := by
  intro p u present
  have away : p ≠ child := by
    rintro rfl
    rw [unused] at present
    cases present
  exact ⟨u, (update_of_ne away _ _).trans present, fun _ => id⟩

theorem deed_bounds (running : k.vipers pid = some v) (deed : Deed k pid v call after) :
    KeepsBounds k after := by
  cases deed with
  | acts effect _ => exact effect_bounds running effect
  | sends sends =>
    obtain ⟨_, _, rfl⟩ := sends
    exact @setViper_bounds (putChannel k _ _) v _ pid running fun _ => id
  | drops rights =>
    refine setViper_bounds running ?_
    intro right dropped
    change right &&& (v.capBoundingSet &&& ~~~rights) = 0
    rw [← UInt32.and_assoc, dropped, UInt32.zero_and]
  | forks unused => exact newChild_bounds unused v
  | @spawns child _ _ middle _ unused _ first parent second =>
    have born : (sysFork k v child).vipers child = some (newViper (some v)) :=
      update_self child _ _
    exact keepsBounds_trans (newChild_bounds unused v)
      (keepsBounds_trans (effect_bounds born first) (effect_bounds parent second))

theorem step_bounds (sane : Sane k) (step : Step k label after) : KeepsBounds k after := by
  obtain ⟨_, v, running, performs⟩ := step
  exact deed_bounds running (performs_deed sane running performs)

theorem arrives_within (running : k.vipers pid = some v) (ownerRunning : k.vipers owner = some w)
    (unused : ∀ child sendEp recvEp, call = .spawn child sendEp recvEp → k.vipers child = none)
    (allowed : owner = pid → WithinBound k ⟨pid, call⟩)
    (arrives : Arrives k pid v call source (.slot owner i) c)
    (dropped : right &&& w.capBoundingSet = 0) : c.rights &&& right = 0 := by
  -- only a new child can get something it did not ask for
  have callers : owner = pid → c.rights &&& right = 0 := by
    intro same
    have within := allowed same
    subst same
    cases running.symm.trans ownerRunning
    cases arrives with
    | created granted _ => exact masked_right ((within v running).1 c granted) dropped
    | opened _ granted => exact masked_right ((within v running).1 c granted) dropped
    | derived source => exact masked_right ((within v running).2 _ _ _ rfl source) dropped
    | received _ => exact masked_subset dropped
  by_cases same : owner = pid
  · exact callers same
  cases arrives with
  | created granted _ =>
    cases call with
    | spawn child sendEp recvEp =>
      have nobody := unused child sendEp recvEp rfl
      simp only [grants, List.mem_cons, Prod.mk.injEq, List.not_mem_nil, or_false] at granted
      rcases granted with ⟨rfl, _⟩ | ⟨rfl, _⟩
      · cases nobody.symm.trans ownerRunning
      · exact absurd rfl same
    | _ => simp_all [grants]
  | opened _ _ => exact absurd rfl same
  | derived _ => exact absurd rfl same
  | received _ => exact absurd rfl same

theorem run_bounds (sane : Sane s) (run : Run Step s labels k) : Sane k ∧ KeepsBounds s k := by
  induction run with
  | refl => exact ⟨sane, fun pid v running => ⟨v, running, fun _ => id⟩⟩
  | next first _ ih =>
    obtain ⟨saneEnd, kept⟩ := ih (step_sane sane first)
    exact ⟨saneEnd, keepsBounds_trans (step_bounds sane first) kept⟩

/-- Once a right is out of a process's bounding set, no capability that comes into its
table carries it, whatever the other processes do, as long as its own calls stay within
its bounding set. -/
theorem dropped_right_stays_out
    {earlier labels : List Label} {s k after : Kernel} {pid i : Nat} {v : Viper} {right : UInt32}
    {label : Label} {c : TransferredHandle} (reached : Run Step (boot pids assigns) earlier s)
    (running : s.vipers pid = some v) (dropped : right &&& v.capBoundingSet = 0)
    (later : Run Step s labels k) (step : Step k label after)
    (within : label.pid = pid → WithinBound k label) (held : capAt after (.slot pid i) = some c) :
    capAt k (.slot pid i) = some c ∨ c.rights &&& right = 0 := by
  obtain ⟨sane, kept⟩ := run_bounds (reached_sane reached) later
  obtain ⟨w, present, stays⟩ := kept pid v running
  obtain ⟨_, caller, callerRunning, performs⟩ := step
  rcases deed_arrives sane callerRunning (performs_deed sane callerRunning performs) held with
    old | ⟨source, arrives⟩
  · exact .inl old
  right
  refine arrives_within callerRunning present ?_ (fun same => within same.symm) arrives
    (stays right dropped)
  intro child sendEp recvEp spawns
  rw [spawns] at performs
  exact performs.1

def afterDrop (rights : UInt32) : Kernel :=
  (sysCapDropBound (boot [1] Assign.blank) 1 (newViper none) rights).2

def afterCreate (rights : UInt32) : Kernel :=
  (sysChannelCreate (afterDrop rights) 1 (dropCapBoundingSet (newViper none) rights)
    0x1000 0x2000).2

theorem drop_step (rights : UInt32) :
    Step (boot [1] Assign.blank) ⟨1, .capDropBound rights⟩ (afterDrop rights) :=
  ⟨⟨List.nodup_nil, by simp [Call.addresses]⟩, newViper none, rfl, rfl⟩

theorem create_step (rights : UInt32) :
    Step (afterDrop rights) ⟨1, .channelCreate 0x1000 0x2000⟩ (afterCreate rights) := by
  refine ⟨⟨by decide, ?_⟩, _, rfl, rfl⟩
  intro address member
  simp only [Call.addresses, List.mem_cons, List.not_mem_nil, or_false] at member
  rcases member with rfl | rfl
  · exact ⟨by decide, rfl⟩
  · exact ⟨by decide, rfl⟩

/-- A process without the right to spawn creates a channel. -/
theorem spawn_right_stays_out :
    capAt (afterCreate 0x100) (.slot 1 1) = some ⟨0x1000, .channel, sendRights⟩ ∧
      (capAt (afterDrop 0x100) (.slot 1 1) = some ⟨0x1000, .channel, sendRights⟩ ∨
        sendRights &&& 0x100 = 0) := by
  have within : WithinBound (afterDrop 0x100) ⟨1, .channelCreate 0x1000 0x2000⟩ := by
    rintro v running
    cases running
    refine ⟨?_, by simp⟩
    intro c granted
    simp only [grants, List.mem_cons, Prod.mk.injEq, List.not_mem_nil, or_false] at granted
    rcases granted with ⟨_, rfl⟩ | ⟨_, rfl⟩ <;> decide
  have held : capAt (afterCreate 0x100) (.slot 1 1) = some ⟨0x1000, .channel, sendRights⟩ := by
    decide
  exact ⟨held, dropped_right_stays_out (.next (drop_step 0x100) (.refl _)) rfl (by decide)
    (.refl _) (create_step 0x100) (fun _ => within) held⟩

/-- A process drops the right to write and gets it back with the next channel it creates. -/
theorem write_right_returns :
    Run Step (boot [1] Assign.blank) [⟨1, .capDropBound capWrite⟩] (afterDrop capWrite) ∧
      (afterDrop capWrite).vipers 1 = some (dropCapBoundingSet (newViper none) capWrite) ∧
      capWrite &&& (dropCapBoundingSet (newViper none) capWrite).capBoundingSet = 0 ∧
      Step (afterDrop capWrite) ⟨1, .channelCreate 0x1000 0x2000⟩ (afterCreate capWrite) ∧
      capAt (afterDrop capWrite) (.slot 1 1) = none ∧
      capAt (afterCreate capWrite) (.slot 1 1) = some ⟨0x1000, .channel, sendRights⟩ ∧
      sendRights &&& capWrite ≠ 0 := by
  refine ⟨.next (drop_step capWrite) (.refl _), rfl, ?_, create_step capWrite, ?_⟩ <;>
    decide

/-- However the calls of the processes interleave, every table has a free list without a cycle,
every channel's ring is sound and holds no more than its capacity, and every capability has a
kind. -/
theorem reached_structures_sound (reached : Run Step (boot pids assigns) labels k) :
    (∀ pid v, k.vipers pid = some v → WellFormed v.capTable) ∧ ChannelsSound k.channels ∧
      ∀ x c, capAt k x = some c → c.kind ≠ .invalid := by
  have sane := reached_sane reached
  refine ⟨sane.tables, sane.channels, ?_⟩
  rintro (⟨pid, i⟩ | ⟨channel, position, n⟩) c held
  · obtain ⟨v, _, live⟩ := Option.bind_eq_some_iff.mp held
    exact tableCap_kind live
  · exact sane.kinds channel position n c held

theorem created_channel_sound : ChannelsSound (afterCreate 0x100).channels :=
  (reached_structures_sound (.next (drop_step 0x100) (.next (create_step 0x100) (.refl _)))).2.1

def HeldBy (members : Nat → Prop) (object : UInt64) (k : Kernel) : Prop :=
  ∀ x c, capAt k x = some c → c.object = object → ∃ pid i, members pid ∧ x = .slot pid i

def Withholds (object : UInt64) (k : Kernel) (label : Label) : Prop :=
  (∀ grant ∈ grants k label.pid label.call, grant.2.object ≠ object) ∧
    ∀ h data handles, label.call = .channelSend h data handles → ∀ handle ∈ handles, ∀ c,
      capAt k (.slot label.pid (handleIndex handle).toNat) = some c → c.object ≠ object

theorem step_confined (sane : Sane k) (held : HeldBy members object k)
    (withholds : Withholds object k label) (step : Step k label after) :
    HeldBy members object after := by
  obtain ⟨pid, call⟩ := label
  obtain ⟨_, v, running, performs⟩ := step
  intro x c present same
  rcases deed_arrives sane running (performs_deed sane running performs) present with
    old | ⟨source, arrives⟩
  · exact held x c old same
  cases arrives with
  | created granted _ => exact absurd same (withholds.1 _ granted)
  | opened _ granted => exact absurd same (withholds.1 _ granted)
  | derived source =>
    obtain ⟨_, _, member, here⟩ := held _ _ source same
    cases here
    exact ⟨_, _, member, rfl⟩
  | sent given source => exact absurd same (withholds.2 _ _ _ rfl _ given _ source)
  | received source =>
    obtain ⟨_, _, _, elsewhere⟩ := held _ _ source same
    cases elsewhere

/-- An object stays with the processes that can name it until one sends a capability for it or a
call creates a new one, whatever is derived, received, forked and spawned. -/
theorem withheld_object_confined
    (reached : Run Step (boot pids assigns) earlier s) (held : HeldBy members object s)
    (run : Run (Guarded (Withholds object) Step) s labels k) : HeldBy members object k := by
  have sane := reached_sane reached
  clear reached
  induction run with
  | refl => exact held
  | next first _ ih => exact ih (step_confined sane held first.1 first.2) (step_sane sane first.2)

-- A process derives a second capability for the devices, forks, spawns and sends the new process
-- an end of its channel.

def tokenDerived : Kernel :=
  (sysCapDerive channelMade 1 (viperOf channelMade 1) 0 Memory.capDeviceAccess).2

def childForked : Kernel := sysFork tokenDerived (viperOf tokenDerived 1) 2

def childSpawned : Kernel :=
  sysTaskSpawn childForked 1 (viperOf childForked 1) 3 0x3000 0x4000

def endSent : Kernel := ((sysChannelSend childSpawned 1 (viperOf childSpawned 1) 4 [] [1]).map
  Prod.snd).getD childSpawned

def endReceived : Kernel :=
  ((sysChannelRecv endSent 3 (viperOf endSent 3) 0 0 1).map Prod.snd).getD endSent

theorem boot_heldBy : HeldBy (· = 1) deviceRootToken (boot [1] Assign.blank) := by
  rintro (⟨pid, i⟩ | _) c held -
  · refine ⟨pid, i, ?_, rfl⟩
    by_contra other
    simp [capAt, boot, other] at held
  · simp [capAt, boot, init, queuedCap] at held

/-- The new process has the end that was sent to it, and no process but the first can name the
devices. -/
theorem device_token_confined :
    capAt endReceived (.slot 1 3) = some ⟨deviceRootToken, .device, Memory.capDeviceAccess⟩ ∧
    capAt endReceived (.slot 3 1) = some ⟨0x1000, .channel, sendRights⟩ ∧
    HeldBy (· = 1) deviceRootToken endReceived := by
  have present : (channelMade.vipers 1).isSome ∧ (tokenDerived.vipers 1).isSome ∧
      (childForked.vipers 1).isSome ∧ (childSpawned.vipers 1).isSome ∧
      (endSent.vipers 3).isSome := by
    decide
  obtain ⟨made, derived, forked, spawned, sent⟩ := present
  have other : capAt childSpawned (.slot 1 1) = some ⟨0x1000, .channel, sendRights⟩ := by decide
  have derives : Step channelMade ⟨1, .capDerive 0 Memory.capDeviceAccess⟩ tokenDerived :=
    checked_step made rfl rfl
  have forks : Step tokenDerived ⟨1, .fork 2⟩ childForked :=
    checked_step derived rfl ⟨by decide, rfl⟩
  have spawns : Step childForked ⟨1, .spawn 3 0x3000 0x4000⟩ childSpawned :=
    checked_step forked (by decide) ⟨by decide, by decide, rfl⟩
  have sends : Step childSpawned ⟨1, .channelSend 4 [] [1]⟩ endSent :=
    checked_step spawned rfl (performed_some (by decide))
  have receives : Step endSent ⟨3, .channelRecv 0 0 1⟩ endReceived :=
    checked_step sent rfl (performed_some (by decide))
  have withheld : Withholds deviceRootToken childSpawned ⟨1, .channelSend 4 [] [1]⟩ := by
    refine ⟨by simp [grants], ?_⟩
    rintro _ _ _ ⟨rfl, rfl, rfl⟩ handle member c held
    obtain rfl := List.mem_singleton.mp member
    cases other.symm.trans held
    decide
  exact ⟨by decide, by decide, withheld_object_confined (.refl _) boot_heldBy
    (.next ⟨⟨by decide, by simp⟩, channelMade_step⟩
    (.next ⟨⟨by simp [grants], by simp⟩, derives⟩
    (.next ⟨⟨by simp [grants], by simp⟩, forks⟩
    (.next ⟨⟨by decide, by simp⟩, spawns⟩
    (.next ⟨withheld, sends⟩
    (.next ⟨⟨by simp [grants], by simp⟩, receives⟩ (.refl _)))))))⟩

end ViperDos.Ipc
