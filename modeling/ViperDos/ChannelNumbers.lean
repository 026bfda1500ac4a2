import ViperDos.CapArrivals

/-!
The numbers of channels. A counter gives each new channel its number, so until the counter
wraps around no number is given twice: a channel that is open after a call was open under
its number before, or has a number from the counter.
-/

namespace ViperDos.Ipc

open CapTable Transition Function

structure Ages (chs after : Channels) : Prop where
  counter : chs.nextChannelId.toNat ≤ after.nextChannelId.toNat
  slots : ∀ slot, (after.slots slot).state = .opened →
    ((chs.slots slot).state = .opened ∧ (chs.slots slot).id = (after.slots slot).id) ∨
      chs.nextChannelId.toNat ≤ (after.slots slot).id.toNat ∧
        (after.slots slot).id.toNat < after.nextChannelId.toNat

theorem ages_refl (chs : Channels) : Ages chs chs :=
  ⟨Nat.le_refl _, fun _ opened => .inl ⟨opened, rfl⟩⟩

variable {chs middle channels : Channels} {slot capacity pid size : Nat} {ch : Channel}
  {isSend : Bool} {k after : Kernel} {object : KObject} {caps : List TransferredHandle} {v : Viper}
  {storage : Storage} {name : Assign.Name} {address : UInt64} {h : Handle} {outcome : Outcome}
  {data : List UInt8} {handles : List Handle} {received : Received} {call : Call}

theorem ages_trans {after : Channels} (first : Ages chs middle) (second : Ages middle after) :
    Ages chs after := by
  have counter := first.counter
  have later := second.counter
  refine ⟨Nat.le_trans counter later, ?_⟩
  intro slot opened
  rcases second.slots slot opened with ⟨between, same⟩ | ⟨above, below⟩
  · rcases first.slots slot between with ⟨before, earlier⟩ | ⟨above, below⟩
    · exact .inl ⟨before, earlier.trans same⟩
    · right
      rw [← same]
      omega
  · right
    omega

theorem setSlot_ages (chs : Channels)
    (kept : ch.state = .opened → (chs.slots slot).state = .opened ∧ (chs.slots slot).id = ch.id) :
    Ages chs (setSlot chs slot ch) := by
  refine ⟨Nat.le_refl _, ?_⟩
  intro other opened
  left
  by_cases here : other = slot
  · subst other
    simp only [setSlot, update_self] at opened ⊢
    exact kept opened
  · simpa [setSlot, update_of_ne here] using opened

variable {id : UInt32}

theorem create_ages (room : chs.nextChannelId ≠ 0xFFFFFFFF)
    (created : create chs capacity = .ok (id, channels)) :
    Ages chs channels ∧ id.toNat < channels.nextChannelId.toNat := by
  have next : (chs.nextChannelId + 1).toNat = chs.nextChannelId.toNat + 1 := by
    have small := chs.nextChannelId.toNat_lt
    have last : chs.nextChannelId.toNat ≠ (0xFFFFFFFF : UInt32).toNat :=
      fun same => room (UInt32.toNat_inj.mp same)
    simp only [UInt32.reduceToNat] at last
    simp only [UInt32.toNat_add, UInt32.reduceToNat]
    omega
  unfold create at created
  split at created
  · cases created
  next slot free =>
  cases created
  refine ⟨⟨?_, ?_⟩, ?_⟩
  · simp only [next]
    omega
  · intro other opened
    by_cases here : other = slot
    · subst other
      right
      simp only [setSlot, update_self, initChannel, next]
      omega
    · left
      simpa [setSlot, update_of_ne here] using opened
  · simp only [initChannel, next]
    omega

theorem closeEndpointById_ages {after : Channels}
    (closed : closeEndpointById chs id isSend = .ok after) : Ages chs after := by
  unfold closeEndpointById at closed
  split at closed
  · cases closed
  next slot found =>
  obtain ⟨_, state, _⟩ := dropEndpoint_ring (chs.slots slot) isSend
  have same : (dropEndpoint (chs.slots slot) isSend).id = (chs.slots slot).id := by
    unfold dropEndpoint
    split <;> rfl
  simp only at closed
  split at closed
  · cases closed
    exact setSlot_ages chs (by simp [shutDown])
  · cases closed
    exact setSlot_ages chs fun opened => ⟨state.symm.trans opened, same.symm⟩

theorem close_ages {after : Channels} (closed : close chs id = .ok after) : Ages chs after := by
  unfold close at closed
  split at closed
  · cases closed
  · cases closed
    exact setSlot_ages chs (by simp [shutDown])

theorem addEndpointRef_ages {after : Channels} (added : addEndpointRef chs id isSend = .ok after) :
    Ages chs after ∧ ∃ slot, findChannelById chs id = some slot := by
  unfold addEndpointRef at added
  split at added
  · cases added
  next slot found =>
    cases added
    refine ⟨setSlot_ages chs ?_, slot, found⟩
    split <;> exact fun opened => ⟨opened, rfl⟩

theorem dropOwned_ages (chs : Channels) (id : UInt32) (endpoints endpoint : UInt8)
    (isSend : Bool) : Ages chs (dropOwned chs id endpoints endpoint isSend) := by
  unfold dropOwned
  split
  · split
    next closed => exact closeEndpointById_ages closed
    · exact ages_refl chs
  · exact ages_refl chs

theorem closeEndpoints_ages (chs : Channels) (id : UInt32) (endpoints : UInt8) :
    Ages chs (closeEndpoints chs id endpoints) := by
  unfold closeEndpoints
  split
  · exact ages_trans (dropOwned_ages _ _ _ _ _) (dropOwned_ages _ _ _ _ _)
  · exact ages_refl chs

structure Passes (k after : Kernel) : Prop where
  assigns : after.assigns = k.assigns
  channels : Ages k.channels after.channels
  objects : ∀ address id endpoints, after.objects address = some (.channel id endpoints) →
    k.objects address = some (.channel id endpoints) ∨
      id.toNat < after.channels.nextChannelId.toNat

theorem passes_refl (k : Kernel) : Passes k k := ⟨rfl, ages_refl _, fun _ _ _ => Or.inl⟩

theorem passes_trans {middle : Kernel} (first : Passes k middle) (second : Passes middle after) :
    Passes k after := by
  refine ⟨second.assigns.trans first.assigns, ages_trans first.channels second.channels, ?_⟩
  intro address id endpoints made
  rcases second.objects _ _ _ made with before | given
  · exact (first.objects _ _ _ before).imp_right
      fun given => Nat.lt_of_lt_of_le given second.channels.counter
  · exact .inr given

section

variable (k : Kernel)

theorem setChannels_passes (ages : Ages k.channels channels) : Passes k { k with channels } :=
  ⟨rfl, ages, fun _ _ _ => .inl⟩

theorem setTable_passes (pid : Nat) (v : Viper) (table : Table) :
    Passes k (setTable k pid v table) := ⟨rfl, ages_refl _, fun _ _ _ => .inl⟩

theorem setViper_passes (pid : Nat) (v : Viper) : Passes k (setViper k pid v) :=
  ⟨rfl, ages_refl _, fun _ _ _ => .inl⟩

theorem newObject_passes (address : UInt64)
    (numbered : ∀ id endpoints, object = .channel id endpoints →
      id.toNat < k.channels.nextChannelId.toNat) : Passes k (newObject k address object) := by
  refine ⟨rfl, ages_refl _, ?_⟩
  intro other id endpoints made
  by_cases here : other = address
  · subst other
    simp only [newObject, update_self, Option.some.injEq] at made
    exact .inr (numbered id endpoints made)
  · simp only [newObject, update_of_ne here] at made
    exact .inl made

theorem deleteObject_passes (address : UInt64) : Passes k (deleteObject k address) := by
  have gone {channels : Channels} : ∀ other id endpoints,
      update k.objects address none other = some (.channel id endpoints) →
        k.objects other = some (.channel id endpoints) ∨
          id.toNat < channels.nextChannelId.toNat := by
    intro other id endpoints made
    by_cases here : other = address
    · rw [here, update_self] at made
      cases made
    · rw [update_of_ne here] at made
      exact .inl made
  unfold deleteObject
  split
  · exact ⟨rfl, closeEndpoints_ages _ _ _, gone⟩
  · exact ⟨rfl, ages_refl _, gone⟩

theorem deletePair_passes (sendEp recvEp : UInt64) :
    Passes k (deleteObject (deleteObject k sendEp) recvEp) :=
  passes_trans (deleteObject_passes k sendEp) (deleteObject_passes _ recvEp)

theorem deletePointer_passes (pointer : Option UInt64) : Passes k (deletePointer k pointer) := by
  cases pointer with
  | none => exact passes_refl k
  | some address => exact deleteObject_passes k address

theorem adopt_passes (endpoints : UInt8) (address : UInt64)
    (given : id.toNat < k.channels.nextChannelId.toNat) :
    Passes k (adopt k id endpoints address).2 := by
  unfold adopt
  split
  · refine newObject_passes k address ?_
    intro number ends same
    cases same
    exact given
  · exact passes_refl k

theorem discardEndpoints_passes (id : UInt32) (send recv : Option UInt64) :
    Passes k (discardEndpoints k id send recv) := by
  have freed := passes_trans (deletePointer_passes k send) (deletePointer_passes _ recv)
  unfold discardEndpoints
  simp only
  split
  next closed => exact passes_trans freed (setChannels_passes _ (close_ages closed))
  · exact freed

theorem newEndpoints_passes (room : k.channels.nextChannelId ≠ 0xFFFFFFFF)
    (sendEp recvEp : UInt64) : Passes k (newEndpoints k sendEp recvEp).2 := by
  unfold newEndpoints
  split
  · exact passes_refl k
  next id channels created =>
  obtain ⟨ages, given⟩ := create_ages room created
  have withSend := adopt_passes { k with channels } endpointSend sendEp given
  have withRecv := adopt_passes _ endpointRecv recvEp
    (Nat.lt_of_lt_of_le given withSend.channels.counter)
  have both := passes_trans (passes_trans (setChannels_passes k ages) withSend) withRecv
  simp only
  split
  · exact both
  · exact passes_trans both (discardEndpoints_passes _ _ _ _)

theorem insertOrDelete_passes (pid : Nat) (v : Viper) (address : UInt64)
    (kind : Kind) (rights : Rights) : Passes k (insertOrDelete k pid v address kind rights).2 := by
  rcases insertOrDelete_cases k pid v address kind rights with full | ⟨_, inserted⟩
  · rw [full]
    exact deleteObject_passes k address
  · rw [inserted]
    exact setTable_passes k pid v _

end

theorem places_passes (places : Places caps k pid v after) : Passes k after := by
  cases places with
  | refused => exact passes_refl k
  | placed object other _ _ =>
    exact passes_trans (newObject_passes k _ fun id endpoints same => absurd same (other id endpoints))
      (insertOrDelete_passes _ _ _ _ _ _)

structure Numbered (k : Kernel) : Prop where
  slots : ∀ slot, (k.channels.slots slot).state = .opened →
    (k.channels.slots slot).id.toNat < k.channels.nextChannelId.toNat
  objects : ∀ address id endpoints, k.objects address = some (.channel id endpoints) →
    id.toNat < k.channels.nextChannelId.toNat

theorem passes_numbered (numbered : Numbered k) (passes : Passes k after) : Numbered after := by
  constructor
  case slots =>
    intro slot opened
    rcases passes.channels.slots slot opened with ⟨before, same⟩ | ⟨_, below⟩
    · rw [← same]
      exact Nat.lt_of_lt_of_le (numbered.slots slot before) passes.channels.counter
    · exact below
  case objects =>
    intro address id endpoints made
    rcases passes.objects _ _ _ made with before | given
    · exact Nat.lt_of_lt_of_le (numbered.objects _ _ _ before) passes.channels.counter
    · exact given

theorem boot_numbered (pids : List Nat) (assigns : Assign.Assigns) :
    Numbered (boot pids assigns) := by
  constructor
  case slots =>
    intro slot opened
    simp [boot, init] at opened
  case objects =>
    intro address id endpoints made
    simp only [boot] at made
    split at made <;> cases made

-- The calls

/-- A call that may create a channel finds the counter short of its end. -/
def HasNumber (k : Kernel) : Call → Prop
  | .channelCreate _ _ | .spawn _ _ _ => k.channels.nextChannelId ≠ 0xFFFFFFFF
  | _ => True

def Binds : Call → Prop
  | .assignSet _ _ _ | .assignAdd _ _ | .assignRemove _ => True
  | _ => False

section Calls

theorem wrapped_passes (numbered : Numbered k)
    (added : addEndpointRef k.channels id true = .ok channels) (address : UInt64) :
    Passes k (wrapped k channels id address) := by
  obtain ⟨ages, slot, found⟩ := addEndpointRef_ages added
  have matched := List.find?_some found
  simp only [decide_eq_true_eq] at matched
  have given := numbered.slots slot matched.2
  rw [matched.1] at given
  refine passes_trans (setChannels_passes k ages) (newObject_passes _ address ?_)
  intro number ends same
  cases same
  exact Nat.lt_of_lt_of_le given ages.counter

theorem sysAssignGet_passes (numbered : Numbered k)
    (gets : Gets k pid v storage name address after) : Passes k after := by
  have lookup : ∀ (start : Kernel) (inode : UInt64),
      Passes start (createDirHandle start pid v storage inode address).2 := fun start inode =>
    places_passes (createDirHandle_places start storage inode address (List.mem_singleton.mpr rfl))
  cases gets with
  | missing => exact passes_refl k
  | directory => exact lookup k _
  | service _ _ added =>
    exact passes_trans (wrapped_passes numbered added address) (insertOrDelete_passes _ _ _ _ _ _)
  | crowded _ _ added =>
    exact passes_trans (wrapped_passes numbered added address)
      (passes_trans (deleteObject_passes _ address) (lookup _ _))

theorem publishPair_passes (k : Kernel) (sendEp recvEp : UInt64) :
    Passes k (publishPair k pid v sendEp recvEp).2 := by
  unfold publishPair
  simp only
  split
  · exact deletePair_passes k _ _
  · split
    · exact passes_trans (setTable_passes k pid v _) (deletePair_passes _ _ _)
    · exact setTable_passes k pid v _

theorem sysChannelCreate_passes (room : k.channels.nextChannelId ≠ 0xFFFFFFFF)
    (sendEp recvEp : UInt64) : Passes k (sysChannelCreate k pid v sendEp recvEp).2 := by
  have made := newEndpoints_passes k room sendEp recvEp
  unfold sysChannelCreate
  split <;> rename_i result <;> rw [result] at made
  · exact made
  · exact passes_trans made (publishPair_passes _ _ _)

theorem createBootstrapChannel_passes (room : k.channels.nextChannelId ≠ 0xFFFFFFFF)
    (childPid : Nat) (child : Viper) (sendEp recvEp : UInt64) :
    Passes k (createBootstrapChannel k pid v childPid child sendEp recvEp) := by
  have made := newEndpoints_passes k room sendEp recvEp
  unfold createBootstrapChannel
  split <;> rename_i result <;> rw [result] at made
  · exact made
  refine passes_trans made ?_
  simp only
  split
  · exact deletePair_passes _ _ _
  · split
    · exact passes_trans (setTable_passes _ _ _ _) (deletePair_passes _ _ _)
    · exact passes_trans (setTable_passes _ _ _ _) (setTable_passes _ _ _ _)

theorem sysShmCreate_passes (pages : ShmPages) (address : UInt64) :
    Passes k (sysShmCreate k pid v pages address).2 := by
  have made := @newObject_passes (.sharedMemory 1) k address (by simp)
  unfold sysShmCreate
  split
  · exact passes_refl k
  simp only
  split
  · exact passes_trans made (deleteObject_passes _ address)
  · have stored := fun table => passes_trans made (setTable_passes _ pid v table)
    split
    · exact passes_trans (stored _) (deleteObject_passes _ address)
    · exact passes_trans (stored _) (newObject_passes _ address (by simp))

theorem sysShmClose_passes
    (performed : sysShmClose k pid v h = some (outcome, after)) : Passes k after := by
  unfold sysShmClose at performed
  split at performed
  · cases performed
    exact passes_refl k
  split at performed
  · cases performed
    refine passes_trans (setTable_passes k pid v (remove v.capTable h)) ?_
    unfold release
    split
    · exact deleteObject_passes _ _
    · exact newObject_passes _ _ (by simp)
  · cases performed

theorem putChannel_passes (opened : (k.channels.slots slot).state = .opened)
    (same : (k.channels.slots slot).id = ch.id) : Passes k (putChannel k slot ch) :=
  setChannels_passes k (setSlot_ages _ fun _ => ⟨opened, same⟩)

theorem sends_passes (sends : Sends k pid v data handles slot after) : Passes k after := by
  obtain ⟨opened, _, rfl⟩ := sends
  exact passes_trans (@putChannel_passes slot (pushMessage _ _) k opened rfl)
    (setTable_passes _ pid v _)

theorem receives_passes (receives : Receives k pid v slot after) : Passes k after := by
  obtain ⟨opened, _, rfl⟩ := receives
  exact passes_trans (@putChannel_passes slot (popMessage _) k opened rfl)
    (setTable_passes _ pid v _)

theorem send_ages (sent : send chs id data = .ok channels) : Ages chs channels := by
  unfold send at sent
  split at sent
  · cases sent
  split at sent
  · cases sent
  next found =>
  split at sent
  · cases sent
    exact setSlot_ages chs fun _ => ⟨findChannelById_opened found, rfl⟩
  · cases sent

theorem recv_ages (taken : recv chs id size = .ok (received, channels)) : Ages chs channels := by
  unfold recv at taken
  split at taken
  · cases taken
  next found =>
  simp only at taken
  split at taken
  · cases taken
    exact setSlot_ages chs fun _ => ⟨findChannelById_opened found, rfl⟩
  · cases taken

/-- Every call but those that change the assign table. -/
theorem performs_passes (numbered : Numbered k) (room : HasNumber k call) (other : ¬ Binds call)
    (performs : Performs k pid v call after) : Passes k after := by
  cases call with
  | capDerive h newRights =>
    cases performs
    unfold sysCapDerive
    simp only
    split
    · exact passes_refl k
    · exact setTable_passes k pid v _
  | capRevoke h =>
    obtain ⟨table, n, _, rfl⟩ := performs
    exact setTable_passes k pid v table
  | capDropBound rights =>
    cases performs
    exact setViper_passes k pid _
  | channelCreate sendEp recvEp =>
    cases performs
    exact sysChannelCreate_passes room sendEp recvEp
  | channelSend h data handles =>
    obtain ⟨outcome, performed⟩ := performs
    rcases sysChannelSend_cases performed with rfl | ⟨slot, sends⟩
    · exact passes_refl _
    · exact sends_passes sends
  | channelRecv h size maxHandles =>
    obtain ⟨outcome, performed⟩ := performs
    rcases sysChannelRecv_cases performed with rfl | ⟨slot, _, receives⟩
    · exact passes_refl _
    · exact receives_passes receives
  | channelClose h =>
    obtain ⟨outcome, performed⟩ := performs
    unfold sysChannelClose at performed
    split at performed
    · cases performed
      exact passes_refl k
    · obtain ⟨id, _, made⟩ := Option.map_eq_some_iff.mp performed
      cases made
      exact passes_trans (deleteObject_passes k _) (setTable_passes _ pid v _)
  | legacySend id data =>
    cases performs
    split
    next sent => exact setChannels_passes k (send_ages sent)
    · exact passes_refl k
  | legacyRecv id size =>
    cases performs
    split
    next taken => exact setChannels_passes k (recv_ages taken)
    · exact passes_refl k
  | legacyClose id =>
    cases performs
    split
    next closed => exact setChannels_passes k (close_ages closed)
    · exact passes_refl k
  | fsOpenRoot storage address =>
    cases performs
    exact places_passes (sysFsOpenRoot_places k storage address)
  | fsOpen storage h name flags address =>
    obtain ⟨outcome, performed⟩ := performs
    rcases sysFsOpen_places performed with rfl | ⟨_, _, places⟩
    · exact passes_refl _
    · exact places_passes places
  | fsClose h =>
    cases performs
    unfold sysFsClose
    split
    · exact passes_refl k
    · exact setTable_passes k pid v _
  | shmCreate pages address =>
    cases performs
    exact sysShmCreate_passes pages address
  | shmClose h =>
    obtain ⟨outcome, performed⟩ := performs
    exact sysShmClose_passes performed
  | assignGet storage name address =>
    cases performs
    exact sysAssignGet_passes numbered (sysAssignGet_gets k pid v storage name address)
  | assignResolve storage path flags address =>
    cases performs
    exact places_passes (resolvePath_places k storage path address)
  | spawn child sendEp recvEp =>
    obtain ⟨_, _, rfl⟩ := performs
    exact passes_trans (setViper_passes k child (newViper (some v)))
      (@createBootstrapChannel_passes pid (setViper k child (newViper (some v))) v room child
        (newViper (some v)) sendEp recvEp)
  | fork child =>
    obtain ⟨_, rfl⟩ := performs
    exact setViper_passes k child _
  | assignSet _ _ _ => exact absurd trivial other
  | assignAdd _ _ => exact absurd trivial other
  | assignRemove _ => exact absurd trivial other

end Calls

end ViperDos.Ipc
