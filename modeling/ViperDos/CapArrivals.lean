import ViperDos.CapEffects

/-!
The inversion every later result rests on: a capability that a step leaves at a place was
there before, or arrived in one of five ways. It was created by the call, opened through
a directory, derived, sent into a queue or received from one.
-/

namespace ViperDos.Ipc

open CapTable Rings Transition

def grants (k : Kernel) (pid : Nat) : Call → List (Nat × TransferredHandle)
  | .channelCreate sendEp recvEp =>
    [(pid, ⟨sendEp, .channel, sendRights⟩), (pid, ⟨recvEp, .channel, recvRights⟩)]
  | .fsOpenRoot _ address => [(pid, ⟨address, .directory, openRootRights⟩)]
  | .fsOpen _ _ _ _ address =>
    [(pid, ⟨address, .directory, openRights⟩), (pid, ⟨address, .file, openRights⟩)]
  | .shmCreate _ address => [(pid, ⟨address, .sharedMemory, shmRights⟩)]
  | .assignGet _ name address => (assignGrants k name address).map (pid, ·)
  | .assignResolve _ _ flags address =>
    [(pid, ⟨address, .directory, dirAssignRights⟩), (pid, ⟨address, .file, fileRights flags⟩)]
  | .spawn child sendEp recvEp =>
    [(child, ⟨recvEp, .channel, bootstrapRecvRights⟩),
      (pid, ⟨sendEp, .channel, bootstrapSendRights⟩)]
  | _ => []

/-- How a capability comes to a place where it was not before, with the place of the
capability it was obtained from, if there is one. -/
inductive Arrives (k : Kernel) (pid : Nat) (v : Viper) :
    Call → Option Place → Place → TransferredHandle → Prop where
  | created {call : Call} {owner i : Nat} {c : TransferredHandle}
      (granted : (owner, c) ∈ grants k pid call)
      (rootless : ∀ storage h name flags address, call ≠ .fsOpen storage h name flags address) :
      Arrives k pid v call none (.slot owner i) c
  | opened {storage : Storage} {h : Handle} {name : List UInt8} {flags : UInt32}
      {address : UInt64} {i : Nat} {dir c : TransferredHandle}
      (through : capAt k (.slot pid (handleIndex h).toNat) = some dir)
      (granted : (pid, c) ∈ grants k pid (.fsOpen storage h name flags address)) :
      Arrives k pid v (.fsOpen storage h name flags address)
        (some (.slot pid (handleIndex h).toNat)) (.slot pid i) c
  | derived {h : Handle} {newRights : Rights} {i : Nat} {c : TransferredHandle}
      (source : capAt k (.slot pid (handleIndex h).toNat) = some c) :
      Arrives k pid v (.capDerive h newRights) (some (.slot pid (handleIndex h).toNat))
        (.slot pid i) { c with rights := c.rights &&& newRights }
  | sent {h : Handle} {data : List UInt8} {handles : List Handle} {handle : Handle}
      {channel position n : Nat} {c : TransferredHandle} (given : handle ∈ handles)
      (source : capAt k (.slot pid (handleIndex handle).toNat) = some c) :
      Arrives k pid v (.channelSend h data handles) (some (.slot pid (handleIndex handle).toNat))
        (.queued channel position n) c
  | received {h : Handle} {size maxHandles : Nat} {channel position n i : Nat}
      {c : TransferredHandle} (source : capAt k (.queued channel position n) = some c) :
      Arrives k pid v (.channelRecv h size maxHandles) (some (.queued channel position n))
        (.slot pid i) { c with rights := c.rights &&& v.capBoundingSet }

variable {v : Viper} {k after : Kernel} {pid : Nat} {x : Place} {c : TransferredHandle}
  {name : Assign.Name} {h : Handle} {flags : UInt32} {outcome : Outcome} {call : Call}
  {caps : List TransferredHandle}

section Steps

theorem capAt_slot (running : k.vipers pid = some v) (i : Nat) :
    capAt k (.slot pid i) = tableCap v.capTable i := by
  simp [capAt, running]

theorem quiet_caps (quiet : Quiet k after) (held : capAt after x = some c) :
    capAt k x = some c := by
  cases x with
  | slot p i =>
    simp only [capAt, quiet.vipers] at held
    exact held
  | queued channel position n => exact quiet.channels.queues _ _ _ _ held

/-- The calls that do not touch the tables of processes or queue anything. -/
theorem assigned_quiet (result : Except Assign.AssignError Assign.Assigns) :
    Quiet k (assigned k result).2 := by
  unfold assigned
  split
  · exact ⟨rfl, sheds_refl _⟩
  · exact quiet_refl k

theorem sysAssignSet_quiet (performed : sysAssignSet k v name h flags = some (outcome, after)) :
    Quiet k after := by
  unfold sysAssignSet at performed
  split at performed
  · obtain ⟨inode, _, made⟩ := Option.map_eq_some_iff.mp performed
    have quiet := @assigned_quiet k (Assign.set k.assigns name inode flags .null)
    rw [made] at quiet
    exact quiet
  · split at performed
    · obtain ⟨id, _, made⟩ := Option.map_eq_some_iff.mp performed
      have quiet := @assigned_quiet k (Assign.setChannel k.assigns name id flags)
      rw [made] at quiet
      exact quiet
    · cases performed
      exact quiet_refl k

theorem dropBound_sane (sane : Sane k) (running : k.vipers pid = some v) (rights : UInt32) :
    Sane (setViper k pid (dropCapBoundingSet v rights)) := by
  refine ⟨?_, sane.channels, sane.kinds⟩
  intro p w present
  by_cases same : p = pid
  · subst p
    simp only [setViper, Function.update_self, Option.some.injEq] at present
    subst w
    exact sane.tables _ v running
  · simp only [setViper, Function.update_of_ne same] at present
    exact sane.tables p w present

theorem dropBound_caps (running : k.vipers pid = some v) (rights : UInt32) (x : Place) :
    capAt (setViper k pid (dropCapBoundingSet v rights)) x = capAt k x := by
  cases x with
  | slot p i =>
    by_cases same : p = pid
    · subst p
      simp [capAt, setViper, dropCapBoundingSet, running]
    · simp [capAt, setViper, same]
  | queued channel position n => rfl

/-- What a call does, by the tables it changes: the caller's own, with every newcomer
accounted for; the caller's and a queue, by sending; only the bounding set; or those of
a parent and a new child. -/
inductive Deed (k : Kernel) (pid : Nat) (v : Viper) : Call → Kernel → Prop where
  | acts {call : Call} {after : Kernel} {caps : List TransferredHandle}
      (effect : Effect caps k pid v after)
      (accounted : ∀ c ∈ caps, ∀ i, ∃ source, Arrives k pid v call source (.slot pid i) c) :
      Deed k pid v call after
  | sends {h : Handle} {data : List UInt8} {handles : List Handle} {slot : Nat} {after : Kernel}
      (sends : Sends k pid v data handles slot after) :
      Deed k pid v (.channelSend h data handles) after
  | drops (rights : UInt32) :
      Deed k pid v (.capDropBound rights) (setViper k pid (dropCapBoundingSet v rights))
  | forks {child : Nat} (unused : k.vipers child = none) :
      Deed k pid v (.fork child) (sysFork k v child)
  | spawns {child : Nat} {sendEp recvEp : UInt64} {middle after : Kernel}
      (unused : k.vipers child = none) (different : child ≠ pid)
      (first : Effect [⟨recvEp, .channel, bootstrapRecvRights⟩] (sysFork k v child) child
        (newViper (some v)) middle)
      (parent : middle.vipers pid = some v)
      (second : Effect [⟨sendEp, .channel, bootstrapSendRights⟩] middle pid v after) :
      Deed k pid v (.spawn child sendEp recvEp) after

theorem quiet_deed (quiet : Quiet k after) : Deed k pid v call after :=
  .acts (.quiet quiet : Effect [] k pid v after) (by simp)

theorem granted_deed (effect : Effect caps k pid v after)
    (granted : ∀ c ∈ caps, (pid, c) ∈ grants k pid call)
    (rootless : ∀ storage h name flags address, call ≠ .fsOpen storage h name flags address) :
    Deed k pid v call after :=
  .acts effect fun c listed _ => ⟨none, .created (granted c listed) rootless⟩

section

variable (sane : Sane k) (running : k.vipers pid = some v)

include sane running

theorem performs_deed (performs : Performs k pid v call after) : Deed k pid v call after := by
  have valid := sane.tables pid v running
  cases call with
  | capDerive h newRights =>
    cases performs
    rcases sysCapDerive_effect valid h newRights with same | ⟨source, named, effect⟩
    · rw [same]
      exact quiet_deed (quiet_refl k)
    · refine .acts effect ?_
      intro c listed i
      rw [List.mem_singleton.mp listed]
      exact ⟨_, .derived ((capAt_slot running _).trans named)⟩
  | capRevoke h =>
    obtain ⟨table, n, revokes, rfl⟩ := performs
    exact .acts (revoke_effect valid revokes) (by simp)
  | capDropBound rights =>
    cases performs
    exact .drops rights
  | channelCreate sendEp recvEp =>
    cases performs
    exact granted_deed (sysChannelCreate_effect valid sendEp recvEp) (by simp [grants]) (by simp)
  | channelSend h data handles =>
    obtain ⟨outcome, performed⟩ := performs
    rcases sysChannelSend_cases performed with rfl | ⟨slot, sends⟩
    · exact quiet_deed (quiet_refl _)
    · exact .sends sends
  | channelRecv h size maxHandles =>
    obtain ⟨outcome, performed⟩ := performs
    rcases sysChannelRecv_cases performed with rfl | ⟨slot, _, receives⟩
    · exact quiet_deed (quiet_refl _)
    refine .acts (receives_effect sane valid receives) ?_
    intro c listed i
    obtain ⟨th, member, rfl⟩ := List.mem_map.mp listed
    obtain ⟨n, atN⟩ := List.mem_iff_getElem?.mp member
    rw [← queuedCap_front sane.channels receives.opened receives.filled] at atN
    exact ⟨_, .received atN⟩
  | channelClose h =>
    obtain ⟨outcome, performed⟩ := performs
    exact .acts (sysChannelClose_effect valid performed) (by simp)
  | legacySend id data =>
    cases performs
    split
    next sent => exact quiet_deed (legacySend_quiet sane sent)
    · exact quiet_deed (quiet_refl k)
  | legacyRecv id size =>
    cases performs
    split
    next taken => exact quiet_deed (legacyRecv_quiet sane taken)
    · exact quiet_deed (quiet_refl k)
  | legacyClose id =>
    cases performs
    split
    next closed => exact quiet_deed ⟨rfl, close_sheds closed⟩
    · exact quiet_deed (quiet_refl k)
  | fsOpenRoot storage address =>
    cases performs
    exact granted_deed (places_effect valid (sysFsOpenRoot_places k storage address)) (by simp [grants])
      (by simp)
  | fsOpen storage h name flags address =>
    obtain ⟨outcome, performed⟩ := performs
    rcases sysFsOpen_places performed with rfl | ⟨e, got, places⟩
    · exact quiet_deed (quiet_refl _)
    · refine .acts (places_effect valid places) ?_
      intro c listed i
      exact ⟨_, .opened ((capAt_slot running _).trans (getChecked_cap got).2)
        (by simpa [grants] using listed)⟩
  | fsClose h =>
    cases performs
    exact .acts (sysFsClose_effect valid h) (by simp)
  | shmCreate pages address =>
    cases performs
    exact granted_deed (sysShmCreate_effect valid pages address) (by simp [grants]) (by simp)
  | shmClose h =>
    obtain ⟨outcome, performed⟩ := performs
    exact .acts (sysShmClose_effect valid performed) (by simp)
  | assignSet name h flags =>
    obtain ⟨outcome, performed⟩ := performs
    exact quiet_deed (sysAssignSet_quiet performed)
  | assignAdd name inode =>
    obtain ⟨_, assigns, _, rfl⟩ := performs
    exact quiet_deed ⟨rfl, sheds_refl _⟩
  | assignGet storage name address =>
    cases performs
    exact granted_deed (sysAssignGet_effect valid (sysAssignGet_gets k pid v storage name address))
      (by simp [grants]) (by simp)
  | assignResolve storage path flags address =>
    cases performs
    exact granted_deed (places_effect valid (resolvePath_places k storage path address))
      (by simp [grants]) (by simp)
  | assignRemove name =>
    cases performs
    exact quiet_deed (assigned_quiet _)
  | spawn child sendEp recvEp =>
    obtain ⟨unused, different, rfl⟩ := performs
    have parent : (sysFork k v child).vipers pid = some v := by
      simpa [sysFork, setViper, different.symm] using running
    have childValid : WellFormed (newViper (some v)).capTable :=
      init_wellformed default_admissible
    obtain ⟨middle, first, kept, second⟩ :=
      createBootstrapChannel_effect valid childValid different parent sendEp recvEp
    exact .spawns unused different first kept second
  | fork child =>
    obtain ⟨unused, rfl⟩ := performs
    exact .forks unused

theorem deed_sane (deed : Deed k pid v call after) : Sane after := by
  cases deed with
  | acts effect _ => exact effect_sane sane effect
  | sends sends => exact sends_sane sane running sends
  | drops rights => exact dropBound_sane sane running rights
  | forks _ => exact newChild_sane sane v _
  | spawns _ _ first _ second =>
    exact effect_sane (effect_sane (newChild_sane sane v _) first) second

theorem deed_arrives (deed : Deed k pid v call after) (held : capAt after x = some c) :
    capAt k x = some c ∨ ∃ source, Arrives k pid v call source x c := by
  cases deed with
  | acts effect accounted =>
    rcases effect_caps running effect held with old | ⟨i, rfl, new⟩
    · exact .inl old
    · exact .inr (accounted c new i)
  | sends sends =>
    rcases sends_caps sane running sends held with old | ⟨n, rfl, moved⟩
    · exact .inl old
    · obtain ⟨h, given, named, _⟩ := takeHandles_named (List.mem_of_getElem? moved)
      exact .inr ⟨_, .sent given ((capAt_slot running _).trans named)⟩
  | drops rights =>
    rw [dropBound_caps running] at held
    exact .inl held
  | forks _ => exact .inl (newChild_caps v held)
  | @spawns child sendEp recvEp middle _ unused different first parent second =>
    rcases effect_caps parent second held with earlier | ⟨i, rfl, new⟩
    · have born : (sysFork k v child).vipers child = some (newViper (some v)) :=
        Function.update_self child _ _
      rcases effect_caps born first earlier with old | ⟨i, rfl, new⟩
      · exact .inl (newChild_caps v old)
      · exact .inr ⟨none, .created (by simpa [grants] using .inl (List.mem_singleton.mp new))
          (by simp)⟩
    · exact .inr ⟨none, .created (by simpa [grants] using .inr (List.mem_singleton.mp new))
        (by simp)⟩

end

end Steps

variable {label : Label} {pids : List Nat} {assigns : Assign.Assigns} {labels : List Label}

theorem step_sane (sane : Sane k) (step : Step k label after) : Sane after := by
  obtain ⟨_, v, running, performs⟩ := step
  exact deed_sane sane running (performs_deed sane running performs)

theorem boot_sane (pids : List Nat) (assigns : Assign.Assigns) : Sane (boot pids assigns) := by
  refine ⟨?_, init_sound, ?_⟩
  · intro pid v running
    simp only [boot] at running
    split at running
    · cases running
      exact insert_wellformed (init_wellformed default_admissible) _ _ _
    · cases running
  · intro channel position n c held
    simp [boot, init, queuedCap] at held

theorem reached_sane (reached : Run Step (boot pids assigns) labels k) : Sane k := by
  have kept : ∀ before label after, Sane before → Step before label after → Sane after :=
    fun _ _ _ => step_sane
  exact run_invariant kept reached (boot_sane pids assigns)

end ViperDos.Ipc
