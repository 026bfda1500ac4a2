import ViperDos.CapRights

/-!
Capabilities and the objects they name. Deriving and sending copy the pointer to an
object without counting the copies, and `sys_channel_close` deletes the object of the
handle it is given. A capability can therefore name an object that is gone; none does
while every close finds no other capability for the object.
-/

namespace ViperDos.Ipc

open CapTable Rings Transition Function

def NoDangling (k : Kernel) : Prop :=
  ∀ x c, capAt k x = some c → k.objects c.object ≠ none

def ChannelCall : Call → Prop
  | .channelCreate _ _ => True
  | .capDerive _ _ => True
  | .channelSend _ _ _ => True
  | .channelRecv _ _ _ => True
  | .channelClose _ => True
  | .capRevoke _ => True
  | _ => False

def ChannelStep (k : Kernel) (label : Label) (after : Kernel) : Prop :=
  ChannelCall label.call ∧ Step k label after

def ClosesLast (k : Kernel) (label : Label) : Prop :=
  ∀ h, label.call = .channelClose h →
    ∀ closed, capAt k (.slot label.pid (handleIndex h).toNat) = some closed →
      ∀ x c, capAt k x = some c → c.object = closed.object →
        x = .slot label.pid (handleIndex h).toNat

theorem deleteObject_objects (k : Kernel) (address : UInt64) :
    (deleteObject k address).objects = update k.objects address none := by
  unfold deleteObject
  split <;> rfl

theorem adopt_objects (k : Kernel) (id : UInt32) (endpoints : UInt8) (address : UInt64) :
    (∀ other, other ≠ address → (adopt k id endpoints address).2.objects other = k.objects other) ∧
      ((adopt k id endpoints address).1 ≠ none →
        (adopt k id endpoints address).2.objects address ≠ none) := by
  unfold adopt
  split
  · constructor
    · intro other away
      exact update_of_ne away _ _
    · intro _
      simp [newObject]
  · exact ⟨fun _ _ => rfl, fun made => absurd rfl made⟩

variable {other address sendEp recvEp : UInt64} {k after : Kernel} {endpoints : UInt8} {t : Table}
  {kind : Kind} {pid : Nat} {v : Viper} {label : Label} {h : Handle}

theorem deletePointer_objects (k : Kernel) (pointer : Option UInt64)
    (away : pointer ≠ some other) : (deletePointer k pointer).objects other = k.objects other := by
  cases pointer with
  | none => rfl
  | some address =>
    change (deleteObject k address).objects other = _
    rw [deleteObject_objects]
    refine update_of_ne ?_ _ _
    rintro rfl
    exact away rfl

theorem discardEndpoints_objects (k : Kernel) (id : UInt32) {send recv : Option UInt64}
    (awaySend : send ≠ some other) (awayRecv : recv ≠ some other) :
    (discardEndpoints k id send recv).objects other = k.objects other := by
  have freed := (deletePointer_objects (deletePointer k send) recv awayRecv).trans
    (deletePointer_objects k send awaySend)
  unfold discardEndpoints
  simp only
  split <;> exact freed

theorem adopt_pointer {id : UInt32} (away : other ≠ address) :
    (adopt k id endpoints address).1 ≠ some other := by
  unfold adopt
  split
  · intro same
    exact away (Option.some.inj same).symm
  · simp

theorem newEndpoints_objects (k : Kernel) (different : sendEp ≠ recvEp) :
    (∀ other, other ≠ sendEp → other ≠ recvEp →
      (newEndpoints k sendEp recvEp).2.objects other = k.objects other) ∧
      ((newEndpoints k sendEp recvEp).1 = .ok () →
        (newEndpoints k sendEp recvEp).2.objects sendEp ≠ none ∧
          (newEndpoints k sendEp recvEp).2.objects recvEp ≠ none) := by
  unfold newEndpoints
  split
  · exact ⟨fun _ _ _ => rfl, fun made => by cases made⟩
  next id channels _ =>
  obtain ⟨sendKept, sendMade⟩ := adopt_objects { k with channels } id endpointSend sendEp
  obtain ⟨recvKept, recvMade⟩ :=
    adopt_objects (adopt { k with channels } id endpointSend sendEp).2 id endpointRecv recvEp
  simp only
  split
  next sendPointer recvPointer send recv =>
    refine ⟨fun other awaySend awayRecv => (recvKept other awayRecv).trans
      (sendKept other awaySend), fun _ => ⟨?_, recvMade (by rw [recv]; simp)⟩⟩
    rw [recvKept sendEp different]
    exact sendMade (by rw [send]; simp)
  · refine ⟨?_, fun made => by cases made⟩
    intro other awaySend awayRecv
    exact (discardEndpoints_objects _ id (adopt_pointer awaySend)
      (adopt_pointer awayRecv)).trans
        ((recvKept other awayRecv).trans (sendKept other awaySend))

theorem insert_remove_caps (valid : WellFormed t) (object : UInt64) (proper : kind ≠ .invalid)
    (rights : Rights) (i : Nat) :
    tableCap (remove (CapTable.insert t object kind rights).1
      (CapTable.insert t object kind rights).2) i = tableCap t i := by
  by_cases full : t.freeHead = freeEnd
  · have refused : CapTable.insert t object kind rights = (t, handleInvalid) := if_pos full
    rw [refused, remove_refused fun removable => removable.1 rfl]
  obtain ⟨bound, vacant⟩ := head_vacant valid full
  have small := valid.admissible.2
  have handle : (CapTable.insert t object kind rights).2 =
      makeHandle t.freeHead (t.entries t.freeHead.toNat).generation := by
    simp [CapTable.insert, full, takeSlot]
  have proper' : (CapTable.insert t object kind rights).2 ≠ handleInvalid := by
    rw [handle]
    exact makeHandle_ne_invalid _ (by omega)
  rw [tableCap_remove _ proper', tableCap_insert valid object proper, handle,
    handleIndex_makeHandle _ (by omega)]
  by_cases same : i = t.freeHead.toNat
  · rw [if_pos same, same]
    exact (if_neg fun live => live.2 vacant).symm
  · simp [same]

/-- Creating a channel either adds no capability, or leaves both objects alive. -/
theorem sysChannelCreate_cases (sane : Sane k) (running : k.vipers pid = some v)
    (different : sendEp ≠ recvEp) :
    (∀ other, other ≠ sendEp → other ≠ recvEp →
      (sysChannelCreate k pid v sendEp recvEp).2.objects other = k.objects other) ∧
      ((∀ x c, capAt (sysChannelCreate k pid v sendEp recvEp).2 x = some c → capAt k x = some c) ∨
        (sysChannelCreate k pid v sendEp recvEp).2.objects sendEp ≠ none ∧
          (sysChannelCreate k pid v sendEp recvEp).2.objects recvEp ≠ none) := by
  have valid := sane.tables pid v running
  have quiet := newEndpoints_quiet k sendEp recvEp
  obtain ⟨kept, made⟩ := newEndpoints_objects k different
  unfold sysChannelCreate
  split
  next refused =>
    rw [refused] at quiet kept
    exact ⟨kept, .inl fun x c held => quiet_caps quiet held⟩
  next middle created =>
  rw [created] at quiet kept made
  have deleted : ∀ start : Kernel, start.objects = middle.objects →
      ∀ other, other ≠ sendEp → other ≠ recvEp →
        (deleteObject (deleteObject start sendEp) recvEp).objects other = k.objects other := by
    intro start same other awaySend awayRecv
    rw [deleteObject_objects, deleteObject_objects, update_of_ne awayRecv,
      update_of_ne awaySend, same]
    exact kept other awaySend awayRecv
  unfold publishPair
  simp only
  split
  · refine ⟨deleted middle rfl, .inl fun x c held => ?_⟩
    exact quiet_caps (quiet_trans (quiet_trans quiet (deleteObject_quiet _ sendEp))
      (deleteObject_quiet _ recvEp)) held
  split
  · refine ⟨deleted (setTable middle pid v _) rfl, .inl fun x c held => ?_⟩
    have removed : Effect [] k pid v (deleteObject (deleteObject (setTable middle pid v
        (remove (CapTable.insert v.capTable sendEp .channel sendRights).1
          (CapTable.insert v.capTable sendEp .channel sendRights).2)) sendEp) recvEp) := by
      refine .changed _ ⟨?_, ?_⟩ (changes_quiet (changes_quiet
        (changes_setTable quiet pid v _) (deleteObject_quiet _ sendEp))
        (deleteObject_quiet _ recvEp))
      · exact remove_wellformed (insert_wellformed valid _ _ _) _
      · intro i d entered
        rw [insert_remove_caps valid sendEp (by decide) sendRights] at entered
        exact .inl entered
    rcases effect_caps running removed held with old | ⟨_, _, new⟩
    · exact old
    · cases new
  · exact ⟨kept, .inr (made rfl)⟩

theorem step_noDangling (sane : Sane k) (sound : NoDangling k) (last : ClosesLast k label)
    (step : ChannelStep k label after) : NoDangling after := by
  obtain ⟨listed, ⟨fresh, v, running, performs⟩⟩ := step
  obtain ⟨pid, call⟩ := label
  have arrivals := fun x c => @deed_arrives v k after pid x c call sane running
    (performs_deed sane running performs)
  -- calls that leave the objects alone and create no capability copy those there are
  have copies : after.objects = k.objects → grants k pid call = [] → NoDangling after := by
    intro objects nothing x c held
    rw [objects]
    rcases arrivals x c held with old | ⟨source, arrives⟩
    · exact sound x c old
    cases arrives with
    | created granted _ => simp [nothing] at granted
    | opened _ granted => simp [nothing] at granted
    | derived there => exact (sound _ _ there :)
    | sent _ there => exact sound _ _ there
    | received there => exact (sound _ _ there :)
  cases call with
  | channelCreate sendEp recvEp =>
    cases performs
    obtain ⟨distinct, unused⟩ := fresh
    have different : sendEp ≠ recvEp := by
      rintro rfl
      simp [Call.addresses] at distinct
    obtain ⟨kept, outcome⟩ := sysChannelCreate_cases sane running different
    -- an old capability names neither of the fresh addresses
    have old : ∀ x c, capAt k x = some c →
        (sysChannelCreate k pid v sendEp recvEp).2.objects c.object ≠ none := by
      intro x c held
      have awaySend : c.object ≠ sendEp := by
        rintro same
        exact sound x c held (same ▸ (unused sendEp (by simp [Call.addresses])).2)
      have awayRecv : c.object ≠ recvEp := by
        rintro same
        exact sound x c held (same ▸ (unused recvEp (by simp [Call.addresses])).2)
      rw [kept c.object awaySend awayRecv]
      exact sound x c held
    rcases outcome with nothing | ⟨sendMade, recvMade⟩
    · intro x c held
      exact old x c (nothing x c held)
    intro x c held
    rcases arrivals x c held with before | ⟨source, arrives⟩
    · exact old x c before
    cases arrives with
    | created granted _ =>
      simp only [grants, List.mem_cons, Prod.mk.injEq, List.not_mem_nil, or_false] at granted
      rcases granted with ⟨_, rfl⟩ | ⟨_, rfl⟩
      · exact sendMade
      · exact recvMade
  | capDerive h newRights =>
    cases performs
    refine copies ?_ rfl
    unfold sysCapDerive
    simp only
    split <;> rfl
  | channelSend h data handles =>
    obtain ⟨outcome, performed⟩ := performs
    refine copies ?_ rfl
    rcases sysChannelSend_cases performed with rfl | ⟨slot, sends⟩
    · rfl
    · rw [sends.result]
      rfl
  | channelRecv h size maxHandles =>
    obtain ⟨outcome, performed⟩ := performs
    refine copies ?_ rfl
    rcases sysChannelRecv_cases performed with rfl | ⟨slot, _, receives⟩
    · rfl
    · rw [receives.result]
      rfl
  | capRevoke h =>
    obtain ⟨table, n, revokes, rfl⟩ := performs
    exact copies rfl rfl
  | channelClose h =>
    obtain ⟨outcome, performed⟩ := performs
    intro x c held
    have before : capAt k x = some c := by
      rcases arrivals x c held with old | ⟨source, arrives⟩
      · exact old
      · cases arrives with
        | created granted _ => cases granted
    unfold sysChannelClose at performed
    split at performed
    · cases performed
      exact sound x c before
    next e got =>
    obtain ⟨id, _, made⟩ := Option.map_eq_some_iff.mp performed
    cases made
    obtain ⟨valid, named⟩ := getChecked_cap got
    have other : c.object ≠ e.object := by
      intro same
      have here := last h rfl _ ((capAt_slot running _).trans named) x c before same
      rw [here] at held
      simp [capAt, setTable, setViper, tableCap_remove _ valid] at held
    change (deleteObject k e.object).objects c.object ≠ none
    rw [deleteObject_objects, update_of_ne other]
    exact sound x c before
  | _ => exact absurd listed id

/-- From a state without dangling capabilities, creating, deriving, sending, receiving,
closing and revoking lead to no other state while every close finds no other capability
for its object. -/
theorem no_capability_dangles {pids : List Nat} {assigns : Assign.Assigns}
    {earlier labels : List Label} {s k : Kernel} (reached : Run Step (boot pids assigns) earlier s)
    (sound : NoDangling s) (run : Run (Guarded ClosesLast ChannelStep) s labels k) :
    NoDangling k := by
  have kept : ∀ before label after, Sane before ∧ NoDangling before →
      Guarded ClosesLast ChannelStep before label after → Sane after ∧ NoDangling after := by
    rintro before label after ⟨sane, named⟩ ⟨last, step⟩
    exact ⟨step_sane sane step.2, step_noDangling sane named last step⟩
  exact (run_invariant kept run ⟨reached_sane reached, sound⟩).2

theorem boot_noDangling (pids : List Nat) (assigns : Assign.Assigns) :
    NoDangling (boot pids assigns) := by
  intro x c held
  cases x with
  | slot pid i =>
    simp only [capAt, boot] at held
    split at held
    · -- the only capability is the one for the devices
      rcases insert_enters (init_wellformed default_admissible) deviceRootToken (by decide)
        bootRights held with old | rfl
      · rw [tableCap_init] at old
        cases old
      · simp [boot]
    · cases held
  | queued channel position n => simp [capAt, boot, init, queuedCap] at held

-- A process creates a channel and closes the receiving end, or derives a second handle for
-- the sending end and closes the first.

def channelMade : Kernel := (sysChannelCreate (boot [1] Assign.blank) 1 (newViper none)
  0x1000 0x2000).2

def receiverClosed : Kernel :=
  ((sysChannelClose channelMade 1 (viperOf channelMade 1) 2).map Prod.snd).getD channelMade

def senderDerived : Kernel := (sysCapDerive channelMade 1 (viperOf channelMade 1) 1 capWrite).2

def senderClosed : Kernel :=
  ((sysChannelClose senderDerived 1 (viperOf senderDerived 1) 1).map Prod.snd).getD senderDerived

theorem channelMade_step :
    Step (boot [1] Assign.blank) ⟨1, .channelCreate 0x1000 0x2000⟩ channelMade :=
  checked_step rfl (by decide) rfl

theorem close_step (present : (k.vipers pid).isSome = true)
    (defined : (sysChannelClose k pid (viperOf k pid) h).isSome = true) :
    Step k ⟨pid, .channelClose h⟩
      (((sysChannelClose k pid (viperOf k pid) h).map Prod.snd).getD k) :=
  checked_step present rfl (performed_some defined)

theorem channelMade_closesLast : ClosesLast channelMade ⟨1, .channelClose 2⟩ := by
  intro h same closed named x c held object
  cases same
  have table : capAt channelMade (.slot 1 2) = some ⟨0x2000, .channel, recvRights⟩ ∧
      (viperOf channelMade 1).capTable.capacity = 256 ∧ (channelMade.vipers 1).isSome ∧
      ∀ i < 256, (capAt channelMade (.slot 1 i)).map (·.object) = some 0x2000 → i = 2 := by
    decide +kernel
  obtain ⟨atTwo, capacity, present, sole⟩ := table
  rw [show (handleIndex 2).toNat = 2 from rfl, atTwo] at named
  cases named
  have effect := @sysChannelCreate_effect (boot [1] Assign.blank) 1 (newViper none)
    ((boot_sane [1] Assign.blank).tables 1 _ rfl) 0x1000 0x2000
  rcases effect_caps rfl effect held with old | ⟨i, rfl, _⟩
  · -- the device capability names another object
    have other := boot_noDangling [1] Assign.blank x c old
    rw [object] at other
    exact absurd rfl other
  · have live : i < 256 := by
      rw [capAt_slot (viperOf_running present)] at held
      unfold tableCap at held
      split at held
      next live => exact capacity ▸ live.1
      · cases held
    have here := sole i live (by rw [held]; simp [object])
    rw [here]
    rfl

/-- Closing the only handle for the receiving end. -/
theorem closed_receiver_sound :
    NoDangling receiverClosed ∧ receiverClosed.objects 0x2000 = none := by
  have facts : (channelMade.vipers 1).isSome ∧
      (sysChannelClose channelMade 1 (viperOf channelMade 1) 2).isSome ∧
      receiverClosed.objects 0x2000 = none := by
    decide
  obtain ⟨present, defined, gone⟩ := facts
  have creates : ClosesLast (boot [1] Assign.blank) ⟨1, .channelCreate 0x1000 0x2000⟩ := by
    intro h other
    cases other
  exact ⟨no_capability_dangles (.refl _) (boot_noDangling [1] Assign.blank)
    (.next ⟨creates, trivial, channelMade_step⟩
      (.next ⟨channelMade_closesLast, trivial, close_step present defined⟩ (.refl _))), gone⟩

/-- The derived handle outlives the object. -/
theorem derived_handle_dangles : Run ChannelStep (boot [1] Assign.blank)
        [⟨1, .channelCreate 0x1000 0x2000⟩, ⟨1, .capDerive 1 capWrite⟩, ⟨1, .channelClose 1⟩]
        senderClosed ∧
      capAt senderClosed (.slot 1 3) = some ⟨0x1000, .channel, capWrite⟩ ∧
      senderClosed.objects 0x1000 = none ∧ ¬ NoDangling senderClosed := by
  have facts : (channelMade.vipers 1).isSome ∧ (senderDerived.vipers 1).isSome ∧
      (sysChannelClose senderDerived 1 (viperOf senderDerived 1) 1).isSome ∧
      capAt senderClosed (.slot 1 3) = some ⟨0x1000, .channel, capWrite⟩ ∧
      senderClosed.objects 0x1000 = none := by
    decide
  obtain ⟨made, derived, defined, named, gone⟩ := facts
  have derives : Step channelMade ⟨1, .capDerive 1 capWrite⟩ senderDerived :=
    checked_step made rfl rfl
  refine ⟨.next ⟨trivial, channelMade_step⟩ (.next ⟨trivial, derives⟩
    (.next ⟨trivial, close_step derived defined⟩ (.refl _))), named, gone, ?_⟩
  intro sound
  exact sound _ _ named gone

end ViperDos.Ipc
