import ViperDos.CapPlaces

/-!
What each system call does to the tables and the queues. Apart from spawning and sending,
a call changes the caller's table only and queues nothing; `Effect` says so once, with a
list of the capabilities that may have come into the table.
-/

namespace ViperDos.Ipc

open CapTable Rings Transition Function

structure Sane (k : Kernel) : Prop where
  tables : ∀ pid v, k.vipers pid = some v → WellFormed v.capTable
  channels : ChannelsSound k.channels
  kinds : ∀ channel position n c, queuedCap k.channels channel position n = some c →
    c.kind ≠ .invalid

structure Quiet (k after : Kernel) : Prop where
  vipers : after.vipers = k.vipers
  channels : Sheds k.channels after.channels

theorem quiet_refl (k : Kernel) : Quiet k k := ⟨rfl, sheds_refl _⟩

variable {k middle after : Kernel} {caps : List TransferredHandle} {t table : Table} {kind : Kind}
  {pid size maxHandles slot child childPid : Nat} {v parent : Viper} {x : Place}
  {c : TransferredHandle} {flags n bound : UInt32} {h : Handle} {name data : List UInt8}
  {address : UInt64} {outcome : Outcome} {channels chs : Channels} {storage : Storage}
  {ch sent : Channel} {handles : List Handle} {received : Received}

theorem quiet_trans (first : Quiet k middle) (second : Quiet middle after) : Quiet k after :=
  ⟨second.vipers.trans first.vipers, sheds_trans first.channels second.channels⟩

section

variable (k : Kernel)

theorem newObject_quiet (address : UInt64) (object : KObject) :
    Quiet k (newObject k address object) := ⟨rfl, sheds_refl _⟩

theorem deleteObject_quiet (address : UInt64) : Quiet k (deleteObject k address) := by
  unfold deleteObject
  split
  · exact ⟨rfl, closeEndpoints_sheds _ _ _⟩
  · exact ⟨rfl, sheds_refl _⟩

theorem deleteObject_assigns (address : UInt64) : (deleteObject k address).assigns = k.assigns := by
  unfold deleteObject
  split <;> rfl

theorem deletePointer_quiet (pointer : Option UInt64) : Quiet k (deletePointer k pointer) := by
  cases pointer with
  | none => exact quiet_refl k
  | some address => exact deleteObject_quiet k address

theorem adopt_quiet (id : UInt32) (endpoints : UInt8) (address : UInt64) :
    Quiet k (adopt k id endpoints address).2 := by
  unfold adopt
  split
  · exact newObject_quiet k address _
  · exact quiet_refl k

theorem createDir_cases (storage : Storage) (inode address : UInt64) :
    createDir k storage inode address = (none, k) ∨
      createDir k storage inode address = (some address, newObject k address (.dir inode)) := by
  unfold createDir
  split
  · exact .inl rfl
  · split
    · exact .inl rfl
    · exact .inr rfl

theorem createFile_cases (storage : Storage) (inode : UInt64) (flags : UInt32)
    (address : UInt64) :
    createFile k storage inode flags address = (none, k) ∨
      ∃ offset, createFile k storage inode flags address =
        (some address, newObject k address (.file inode flags offset)) := by
  unfold createFile
  split
  · exact .inl rfl
  · split
    · exact .inl rfl
    · exact .inr ⟨_, rfl⟩

theorem discardEndpoints_quiet (id : UInt32) (send recv : Option UInt64) :
    Quiet k (discardEndpoints k id send recv) := by
  have freed := quiet_trans (deletePointer_quiet k send) (deletePointer_quiet _ recv)
  unfold discardEndpoints
  simp only
  split
  next closed => exact quiet_trans freed ⟨rfl, close_sheds closed⟩
  · exact freed

theorem newEndpoints_quiet (sendEp recvEp : UInt64) : Quiet k (newEndpoints k sendEp recvEp).2 := by
  unfold newEndpoints
  split
  · exact quiet_refl k
  next id channels created =>
  have opened : Quiet k { k with channels } := ⟨rfl, create_sheds created⟩
  have adopted := quiet_trans (quiet_trans opened (adopt_quiet _ id endpointSend sendEp))
    (adopt_quiet _ id endpointRecv recvEp)
  simp only
  split
  · exact adopted
  · exact quiet_trans adopted (discardEndpoints_quiet _ _ _ _)

end

/-- A table that has lost some of its capabilities and gained none but the listed ones. -/
structure Grown (caps : List TransferredHandle) (t table : Table) : Prop where
  wellFormed : WellFormed table
  enters : ∀ i c, tableCap table i = some c → tableCap t i = some c ∨ c ∈ caps

theorem grown_insert (grown : Grown caps t table) (object : UInt64) (proper : kind ≠ .invalid)
    (rights : Rights) (listed : ⟨object, kind, rights⟩ ∈ caps) :
    Grown caps t (CapTable.insert table object kind rights).1 := by
  refine ⟨insert_wellformed grown.wellFormed _ _ _, ?_⟩
  intro i c held
  rcases insert_enters grown.wellFormed object proper rights held with old | new
  · exact grown.enters i c old
  · exact .inr (new ▸ listed)

theorem grown_remove (grown : Grown caps t table) (h : Handle) : Grown caps t (remove table h) :=
  ⟨remove_wellformed grown.wellFormed h, fun i c held => grown.enters i c (remove_enters held)⟩

theorem grown_refl (caps : List TransferredHandle) (valid : WellFormed t) : Grown caps t t :=
  ⟨valid, fun _ _ => .inl⟩

structure Changes (k : Kernel) (pid : Nat) (v : Viper) (table : Table) (after : Kernel) : Prop where
  vipers : after.vipers = update k.vipers pid (some { v with capTable := table })
  channels : Sheds k.channels after.channels

theorem changes_setTable (quiet : Quiet k middle) (pid : Nat) (v : Viper)
    (table : Table) : Changes k pid v table (setTable middle pid v table) := by
  refine ⟨?_, quiet.channels⟩
  change update middle.vipers pid _ = _
  rw [quiet.vipers]

theorem changes_quiet (changes : Changes k pid v table middle) (quiet : Quiet middle after) :
    Changes k pid v table after :=
  ⟨quiet.vipers.trans changes.vipers, sheds_trans changes.channels quiet.channels⟩

inductive Effect (caps : List TransferredHandle) (k : Kernel) (pid : Nat) (v : Viper)
    (after : Kernel) : Prop where
  | quiet (quiet : Quiet k after)
  | changed (table : Table) (grown : Grown caps v.capTable table)
      (changes : Changes k pid v table after)

theorem effect_after {start : Kernel} (before : Quiet start k)
    (effect : Effect caps k pid v after) :
    Effect caps start pid v after := by
  cases effect with
  | quiet quiet => exact .quiet (quiet_trans before quiet)
  | changed table grown changes =>
    refine .changed table grown ⟨?_, sheds_trans before.channels changes.channels⟩
    rw [changes.vipers, before.vipers]

theorem effect_caps (running : k.vipers pid = some v) (effect : Effect caps k pid v after)
    (held : capAt after x = some c) : capAt k x = some c ∨ ∃ i, x = .slot pid i ∧ c ∈ caps := by
  cases effect with
  | quiet quiet =>
    cases x with
    | slot p i =>
      simp only [capAt, quiet.vipers] at held
      exact .inl held
    | queued channel position n => exact .inl (quiet.channels.queues _ _ _ _ held)
  | changed table grown changes =>
    cases x with
    | slot p i =>
      simp only [capAt, changes.vipers] at held
      by_cases same : p = pid
      · subst p
        rw [update_self] at held
        rcases grown.enters i c held with old | new
        · left
          simpa [capAt, running] using old
        · exact .inr ⟨i, rfl, new⟩
      · rw [update_of_ne same] at held
        exact .inl held
    | queued channel position n => exact .inl (changes.channels.queues _ _ _ _ held)

theorem effect_sane (sane : Sane k) (effect : Effect caps k pid v after) : Sane after := by
  cases effect with
  | quiet quiet =>
    refine ⟨?_, quiet.channels.sound sane.channels, ?_⟩
    · rw [quiet.vipers]
      exact sane.tables
    · intro channel position n c held
      exact sane.kinds _ _ _ _ (quiet.channels.queues _ _ _ _ held)
  | changed table grown changes =>
    refine ⟨?_, changes.channels.sound sane.channels, ?_⟩
    · intro p w present
      rw [changes.vipers] at present
      by_cases same : p = pid
      · subst p
        rw [update_self] at present
        cases present
        exact grown.wellFormed
      · rw [update_of_ne same] at present
        exact sane.tables p w present
    · intro channel position n c held
      exact sane.kinds _ _ _ _ (changes.channels.queues _ _ _ _ held)

theorem insertOrDelete_cases (k : Kernel) (pid : Nat) (v : Viper) (address : UInt64) (kind : Kind)
    (rights : Rights) :
    insertOrDelete k pid v address kind rights = (handleInvalid, deleteObject k address) ∨
      (insertOrDelete k pid v address kind rights).1 ≠ handleInvalid ∧
        (insertOrDelete k pid v address kind rights).2 =
          setTable k pid v (CapTable.insert v.capTable address kind rights).1 := by
  unfold insertOrDelete
  simp only
  split
  · exact .inl rfl
  next obtained => exact .inr ⟨obtained, rfl⟩

-- Handlers that create an object and put a capability for it into the table

inductive Places (caps : List TransferredHandle) (k : Kernel) (pid : Nat) (v : Viper) :
    Kernel → Prop where
  | refused : Places caps k pid v k
  | placed {address : UInt64} {kind : Kind} {rights : Rights} (object : KObject)
      (other : ∀ id endpoints, object ≠ .channel id endpoints) (proper : kind ≠ .invalid)
      (listed : ⟨address, kind, rights⟩ ∈ caps) :
      Places caps k pid v (insertOrDelete (newObject k address object) pid v address kind rights).2

section Placing

variable (k : Kernel) (storage : Storage)

theorem createDirHandle_cases (inode address : UInt64) :
    (createDirHandle k pid v storage inode address).2 = k ∨
      (createDirHandle k pid v storage inode address).2 =
        (insertOrDelete (newObject k address (.dir inode)) pid v address .directory
          dirAssignRights).2 := by
  unfold createDirHandle
  rcases createDir_cases k storage inode address with refused | made
  · exact .inl (by rw [refused])
  · exact .inr (by rw [made])

theorem createFileHandle_cases (inode : UInt64) (flags : UInt32) (address : UInt64) :
    (createFileHandle k pid v storage inode flags address).2 = k ∨
      ∃ offset, (createFileHandle k pid v storage inode flags address).2 =
        (insertOrDelete (newObject k address (.file inode flags offset)) pid v address .file
          (fileRights flags)).2 := by
  unfold createFileHandle
  rcases createFile_cases k storage inode flags address with refused | ⟨offset, made⟩
  · exact .inl (by rw [refused])
  · exact .inr ⟨offset, by rw [made]⟩

theorem createDirHandle_places (inode address : UInt64)
    (listed : ⟨address, .directory, dirAssignRights⟩ ∈ caps) :
    Places caps k pid v (createDirHandle k pid v storage inode address).2 := by
  rcases @createDirHandle_cases pid v k storage inode address with refused | made
  · rw [refused]
    exact .refused
  · rw [made]
    exact .placed _ (by simp) (by decide) listed

theorem sysFsOpenRoot_places (address : UInt64) :
    Places [⟨address, .directory, openRootRights⟩] k pid v
      (sysFsOpenRoot k pid v storage address).2 := by
  unfold sysFsOpenRoot
  rcases createDir_cases k storage 2 address with refused | made
  · rw [refused]
    exact .refused
  · rw [made]
    exact .placed _ (by simp) (by decide) (.head _)

theorem resolvePath_places (path : List UInt8) (address : UInt64) :
    Places [⟨address, .directory, dirAssignRights⟩, ⟨address, .file, fileRights flags⟩] k pid v
      (resolvePath k pid v storage path flags address).2 := by
  unfold resolvePath
  split
  · exact .refused
  split
  · exact .refused
  simp only
  split
  · exact .refused
  split
  · exact createDirHandle_places _ _ _ _ (.head _)
  split
  · exact .refused
  split
  · exact .refused
  split
  · exact createDirHandle_places _ _ _ _ (.head _)
  rcases createFileHandle_cases k storage _ flags address with
    refused | ⟨offset, made⟩
  · rw [refused]
    exact .refused
  · rw [made]
    exact .placed _ (by simp) (by decide) (by simp)

variable {k storage}

theorem sysFsOpen_places
    (performed : sysFsOpen k pid v storage h name flags address = some (outcome, after)) :
    after = k ∨ ∃ e, getChecked v.capTable h .directory = some e ∧
      Places [⟨address, .directory, openRights⟩, ⟨address, .file, openRights⟩] k pid v after := by
  unfold sysFsOpen at performed
  split at performed
  · cases performed
    exact .inl rfl
  next e got =>
  refine .inr ⟨e, got, ?_⟩
  obtain ⟨inode, _, made⟩ := Option.map_eq_some_iff.mp performed
  split at made
  · cases made
    exact .refused
  next child isDir _ =>
  cases isDir with
  | false =>
    rcases createFile_cases k storage child flags address with refused | ⟨offset, created⟩
    · rw [refused] at made
      cases made
      exact .refused
    · rw [created] at made
      cases made
      exact .placed _ (by simp) (by decide) (by simp)
  | true =>
    rcases createDir_cases k storage child address with refused | created
    · rw [refused] at made
      cases made
      exact .refused
    · rw [created] at made
      cases made
      exact .placed _ (by simp) (by decide) (by simp)

end Placing

def assignGrants (k : Kernel) (name : Assign.Name) (address : UInt64) : List TransferredHandle :=
  match Assign.findAssign k.assigns name with
  | none => []
  | some i =>
    if (k.assigns i).flagged Assign.assignService then
      [⟨address, .channel, channelAssignRights⟩, ⟨address, .directory, dirAssignRights⟩]
    else [⟨address, .directory, dirAssignRights⟩]

def wrapped (k : Kernel) (channels : Channels) (id : UInt32) (address : UInt64) : Kernel :=
  newObject { k with channels } address (.channel id endpointSend)

theorem wrapped_quiet {id : UInt32} (added : addEndpointRef k.channels id true = .ok channels)
    (address : UInt64) :
    Quiet k (wrapped k channels id address) := ⟨rfl, addEndpointRef_sheds added⟩

/-- What looking up a name does. A service whose channel is closed, or for which the table
has no room, is looked up once more as a directory. -/
inductive Gets (k : Kernel) (pid : Nat) (v : Viper) (storage : Storage) (name : Assign.Name)
    (address : UInt64) : Kernel → Prop where
  | missing (absent : Assign.findAssign k.assigns name = none) : Gets k pid v storage name address k
  | directory {i : Nat} (present : Assign.findAssign k.assigns name = some i)
      (closed : (k.assigns i).flagged Assign.assignService = true →
        findChannelById k.channels (k.assigns i).channelId = none) :
      Gets k pid v storage name address
        (createDirHandle k pid v storage (k.assigns i).dirInode address).2
  | service {i : Nat} {channels : Channels} (present : Assign.findAssign k.assigns name = some i)
      (service : (k.assigns i).flagged Assign.assignService = true)
      (added : addEndpointRef k.channels (k.assigns i).channelId true = .ok channels) :
      Gets k pid v storage name address
        (insertOrDelete (wrapped k channels (k.assigns i).channelId address) pid v address .channel
          channelAssignRights).2
  | crowded {i : Nat} {channels : Channels} (present : Assign.findAssign k.assigns name = some i)
      (service : (k.assigns i).flagged Assign.assignService = true)
      (added : addEndpointRef k.channels (k.assigns i).channelId true = .ok channels)
      (full : (CapTable.insert v.capTable address .channel channelAssignRights).2 = handleInvalid) :
      Gets k pid v storage name address
        (createDirHandle (deleteObject (wrapped k channels (k.assigns i).channelId address) address)
          pid v storage (k.assigns i).dirInode address).2

theorem sysAssignGet_gets (k : Kernel) (pid : Nat) (v : Viper) (storage : Storage)
    (name : Assign.Name) (address : UInt64) :
    Gets k pid v storage name address (sysAssignGet k pid v storage name address).2 := by
  cases present : Assign.findAssign k.assigns name with
  | none =>
    simp only [sysAssignGet, getChannel, present, found, assignGet]
    exact .missing present
  | some i =>
    have again : getChannel k pid v name address = (handleInvalid, k) →
        (sysAssignGet k pid v storage name address).2 =
          (createDirHandle k pid v storage (k.assigns i).dirInode address).2 := by
      intro looked
      simp [sysAssignGet, looked, found, assignGet, present]
    by_cases service : (k.assigns i).flagged Assign.assignService = true
    · cases added : addEndpointRef k.channels (k.assigns i).channelId true with
      | error e =>
        rw [again (by simp [getChannel, present, service, wrap, added])]
        refine .directory present fun _ => ?_
        cases opened : findChannelById k.channels (k.assigns i).channelId with
        | none => rfl
        | some slot => simp [addEndpointRef, opened] at added
      | ok channels =>
        have looked : getChannel k pid v name address =
            insertOrDelete (wrapped k channels (k.assigns i).channelId address) pid v address
              .channel channelAssignRights := by
          simp [getChannel, present, service, wrap, added, wrapped]
        by_cases full : (CapTable.insert v.capTable address .channel channelAssignRights).2 =
            handleInvalid
        · have assigns := deleteObject_assigns
            (wrapped k channels (k.assigns i).channelId address) address
          change _ = k.assigns at assigns
          simp only [sysAssignGet, looked, insertOrDelete, full, if_true, ne_eq,
            not_true_eq_false, if_false, found, assignGet, assigns, present]
          exact .crowded present service added full
        · simp only [sysAssignGet, looked]
          rw [if_pos (by simp [insertOrDelete, full])]
          exact .service present service added
    · rw [again (by simp [getChannel, present, service])]
      exact .directory present fun flagged => absurd flagged service

section Effects

variable (valid : WellFormed v.capTable)
include valid

theorem insertOrDelete_effect (address : UInt64) (proper : kind ≠ .invalid) (rights : Rights)
    (listed : ⟨address, kind, rights⟩ ∈ caps) :
    Effect caps k pid v (insertOrDelete k pid v address kind rights).2 := by
  rcases insertOrDelete_cases k pid v address kind rights with full | ⟨_, inserted⟩
  · rw [full]
    exact .quiet (deleteObject_quiet k address)
  · rw [inserted]
    exact .changed _ (grown_insert (grown_refl caps valid) address proper rights listed)
      (changes_setTable (quiet_refl k) pid v _)

theorem sysCapDerive_effect (h : Handle) (newRights : Rights) :
    (sysCapDerive k pid v h newRights).2 = k ∨
      ∃ source, tableCap v.capTable (handleIndex h).toNat = some source ∧
        Effect [{ source with rights := source.rights &&& newRights }] k pid v
          (sysCapDerive k pid v h newRights).2 := by
  unfold sysCapDerive
  simp only
  split
  · exact .inl rfl
  next derived =>
  have derivable : Derivable v.capTable h := by
    by_contra refused
    exact derived (by rw [derive_refused refused])
  refine .inr ⟨_, tableCap_live derivable.1.2.1, .changed _ ⟨?_, ?_⟩
    (changes_setTable (quiet_refl k) pid v _)⟩
  · exact derive_wellformed valid h newRights
  intro i c held
  rcases derive_enters valid held with old | ⟨source, named, same⟩
  · exact .inl old
  · rw [tableCap_live derivable.1.2.1] at named
    cases named
    exact .inr (List.mem_singleton.mpr same)

theorem revoke_effect (revokes : Revokes v.capTable h table n) :
    Effect [] k pid v (setTable k pid v table) := by
  obtain ⟨wellFormed, shrinks⟩ := revokes_shrinks valid revokes
  exact .changed table ⟨wellFormed, fun i c held => .inl (tableCap_shrinks shrinks held)⟩
    (changes_setTable (quiet_refl k) pid v table)

theorem publishPair_effect {start : Kernel} (before : Quiet start k) (sendEp recvEp : UInt64) :
    Effect [⟨sendEp, .channel, sendRights⟩, ⟨recvEp, .channel, recvRights⟩] start pid v
      (publishPair k pid v sendEp recvEp).2 := by
  have withSend := grown_insert (grown_refl [⟨sendEp, .channel, sendRights⟩,
    ⟨recvEp, .channel, recvRights⟩] valid) sendEp (by decide) sendRights (.head _)
  unfold publishPair
  simp only
  split
  · exact .quiet (quiet_trans (quiet_trans before (deleteObject_quiet k sendEp))
      (deleteObject_quiet _ recvEp))
  split
  · exact .changed _ (grown_remove withSend _)
      (changes_quiet (changes_quiet (changes_setTable before pid v _)
        (deleteObject_quiet _ sendEp)) (deleteObject_quiet _ recvEp))
  · exact .changed _ (grown_insert withSend recvEp (by decide) recvRights (by simp))
      (changes_setTable before pid v _)

theorem sysChannelCreate_effect (sendEp recvEp : UInt64) :
    Effect [⟨sendEp, .channel, sendRights⟩, ⟨recvEp, .channel, recvRights⟩] k pid v
      (sysChannelCreate k pid v sendEp recvEp).2 := by
  have quiet := newEndpoints_quiet k sendEp recvEp
  unfold sysChannelCreate
  split <;> rename_i made <;> rw [made] at quiet
  · exact .quiet quiet
  · exact publishPair_effect valid quiet sendEp recvEp

theorem sysChannelClose_effect
    (performed : sysChannelClose k pid v h = some (outcome, after)) : Effect [] k pid v after := by
  unfold sysChannelClose at performed
  split at performed
  · cases performed
    exact .quiet (quiet_refl k)
  · obtain ⟨id, _, made⟩ := Option.map_eq_some_iff.mp performed
    cases made
    exact .changed _ (grown_remove (grown_refl [] valid) h)
      (changes_setTable (deleteObject_quiet k _) pid v _)

theorem places_effect (places : Places caps k pid v after) : Effect caps k pid v after := by
  cases places with
  | refused => exact .quiet (quiet_refl k)
  | placed object other proper listed =>
    exact effect_after (newObject_quiet k _ object)
      (insertOrDelete_effect valid _ proper _ listed)

theorem sysFsClose_effect (h : Handle) : Effect [] k pid v (sysFsClose k pid v h).2 := by
  unfold sysFsClose
  split
  · exact .quiet (quiet_refl k)
  · exact .changed _ (grown_remove (grown_refl [] valid) h)
      (changes_setTable (quiet_refl k) pid v _)

theorem sysShmCreate_effect (pages : ShmPages) (address : UInt64) :
    Effect [⟨address, .sharedMemory, shmRights⟩] k pid v
      (sysShmCreate k pid v pages address).2 := by
  have made := newObject_quiet k address (.sharedMemory 1)
  have grown := grown_insert (grown_refl [⟨address, .sharedMemory, shmRights⟩] valid) address
    (by decide) shmRights (.head _)
  unfold sysShmCreate
  split
  · exact .quiet (quiet_refl k)
  simp only
  split
  · exact .quiet (quiet_trans made (deleteObject_quiet _ address))
  split
  · exact .changed _ (grown_remove grown _)
      (changes_quiet (changes_setTable made pid v _) (deleteObject_quiet _ address))
  · exact .changed _ grown
      (changes_quiet (changes_setTable made pid v _) (newObject_quiet _ address _))

theorem sysShmClose_effect
    (performed : sysShmClose k pid v h = some (outcome, after)) : Effect [] k pid v after := by
  have released : ∀ (start : Kernel) (address : UInt64) (refCount : UInt32),
      Quiet start (release start address refCount) := by
    intro start address refCount
    unfold release
    split
    · exact deleteObject_quiet start address
    · exact newObject_quiet start address _
  unfold sysShmClose at performed
  split at performed
  · cases performed
    exact .quiet (quiet_refl k)
  split at performed
  · cases performed
    exact .changed _ (grown_remove (grown_refl [] valid) h)
      (changes_quiet (changes_setTable (quiet_refl k) pid v _) (released _ _ _))
  · cases performed

theorem sysAssignGet_effect {name : Assign.Name} (gets : Gets k pid v storage name address after) :
    Effect (assignGrants k name address) k pid v after := by
  cases gets with
  | missing => exact .quiet (quiet_refl k)
  | @directory i present closed =>
    refine places_effect valid (createDirHandle_places _ _ _ _ ?_)
    simp only [assignGrants, present]
    split <;> simp
  | service present service added =>
    refine effect_after (wrapped_quiet added address)
      (insertOrDelete_effect valid _ (by decide) _ ?_)
    simp [assignGrants, present, service]
  | crowded present service added full =>
    refine effect_after (quiet_trans (wrapped_quiet added address) (deleteObject_quiet _ address))
      (places_effect valid (createDirHandle_places _ _ _ _ ?_))
    simp [assignGrants, present, service]

end Effects

def putChannel (k : Kernel) (slot : Nat) (ch : Channel) : Kernel :=
  { k with channels := setSlot k.channels slot ch }

structure Sends (k : Kernel) (pid : Nat) (v : Viper) (data : List UInt8) (handles : List Handle)
    (slot : Nat) (after : Kernel) : Prop where
  opened : (k.channels.slots slot).state = .opened
  room : (k.channels.slots slot).ring.count < (k.channels.slots slot).capacity
  result : after = setTable
    (putChannel k slot
      (pushMessage (k.channels.slots slot) ⟨data, (takeHandles handles v.capTable).1⟩))
    pid v (takeHandles handles v.capTable).2

theorem trySendLocked_ok {after : Table}
    (accepted : trySendLocked ch table data handles = .ok (sent, after)) :
    ch.state = .opened ∧ ch.ring.count < ch.capacity ∧
      sent = pushMessage ch ⟨data, (takeHandles handles table).1⟩ ∧
      after = (takeHandles handles table).2 := by
  unfold trySendLocked at accepted
  split at accepted
  · cases accepted
  next opened =>
  split at accepted
  · cases accepted
  split at accepted
  · cases accepted
  split at accepted
  · cases accepted
  split at accepted
  · cases accepted
  next room =>
    cases accepted
    exact ⟨not_not.mp opened, Nat.not_le.mp room, rfl, rfl⟩

variable {id : UInt32}

theorem trySend_ok {after : Table}
    (accepted : trySend chs id table data handles = .ok (channels, after)) :
    ∃ slot, (chs.slots slot).state = .opened ∧
      (chs.slots slot).ring.count < (chs.slots slot).capacity ∧
      channels = setSlot chs slot
        (pushMessage (chs.slots slot) ⟨data, (takeHandles handles table).1⟩) ∧
      after = (takeHandles handles table).2 := by
  unfold trySend at accepted
  split at accepted
  · cases accepted
  next slot _ =>
  cases locked : trySendLocked (chs.slots slot) table data handles with
  | error e =>
    rw [locked] at accepted
    cases accepted
  | ok result =>
    rw [locked] at accepted
    cases accepted
    obtain ⟨opened, room, sent, rest⟩ := trySendLocked_ok locked
    exact ⟨slot, opened, room, congrArg (setSlot chs slot) sent, rest⟩

theorem sysChannelSend_cases
    (performed : sysChannelSend k pid v h data handles = some (outcome, after)) :
    after = k ∨ ∃ slot, Sends k pid v data handles slot after := by
  unfold sysChannelSend at performed
  split at performed
  · cases performed
    exact .inl rfl
  split at performed
  · cases performed
    exact .inl rfl
  obtain ⟨id, _, made⟩ := Option.map_eq_some_iff.mp performed
  split at made
  · cases made
    exact .inl rfl
  next accepted =>
    cases made
    obtain ⟨slot, opened, room, rfl, rfl⟩ := trySend_ok accepted
    exact .inr ⟨slot, opened, room, rfl⟩

structure Receives (k : Kernel) (pid : Nat) (v : Viper) (slot : Nat) (after : Kernel) : Prop where
  opened : (k.channels.slots slot).state = .opened
  filled : 0 < (k.channels.slots slot).ring.count
  result : after = setTable
    (putChannel k slot (popMessage (k.channels.slots slot))) pid v
    (giveHandles v.capBoundingSet (k.channels.slots slot).ring.front.handles v.capTable).2

theorem tryRecv_ok {after : Table}
    (accepted : tryRecv chs id table bound size = .ok (received, channels, after)) :
    ∃ slot, findChannelById chs id = some slot ∧ 0 < (chs.slots slot).ring.count ∧
      channels = setSlot chs slot (popMessage (chs.slots slot)) ∧
      after = (giveHandles bound (chs.slots slot).ring.front.handles table).2 := by
  unfold tryRecv at accepted
  split at accepted
  · cases accepted
  next slot found =>
  have opened := findChannelById_opened found
  by_cases filled : (chs.slots slot).ring.count = 0
  · simp [tryRecvLocked, opened, filled, Except.map] at accepted
  · simp only [tryRecvLocked, opened, filled, ne_eq, not_true_eq_false, if_false,
      Except.map, Except.ok.injEq, Prod.mk.injEq] at accepted
    exact ⟨slot, found, Nat.pos_of_ne_zero filled, accepted.2.1.symm, accepted.2.2.symm⟩

def target (k : Kernel) (v : Viper) (h : Handle) (rights : Rights) : Option Nat :=
  (getWithRights v.capTable h .channel rights).bind fun e =>
    (channelOf k e.object).bind (findChannelById k.channels)

theorem sysChannelRecv_cases
    (performed : sysChannelRecv k pid v h size maxHandles = some (outcome, after)) :
    after = k ∨ ∃ slot, target k v h capRead = some slot ∧ Receives k pid v slot after := by
  unfold sysChannelRecv at performed
  split at performed
  · cases performed
    exact .inl rfl
  next e got =>
  obtain ⟨id, named, made⟩ := Option.map_eq_some_iff.mp performed
  split at made
  · cases made
    exact .inl rfl
  next accepted =>
  cases made
  obtain ⟨slot, found, filled, rfl, rfl⟩ := tryRecv_ok accepted
  refine .inr ⟨slot, ?_, findChannelById_opened found, filled, rfl⟩
  simp [target, got, named, found]

theorem queuedCap_front (sound : ChannelsSound chs) (opened : (chs.slots slot).state = .opened)
    (filled : 0 < (chs.slots slot).ring.count) (n : Nat) :
    queuedCap chs slot (chs.slots slot).ring.readIdx n = (chs.slots slot).ring.front.handles[n]? :=
  if_pos ⟨opened, Ring.front_occupied (sound slot).ring filled⟩

theorem front_kinds (sane : Sane k) (opened : (k.channels.slots slot).state = .opened)
    (filled : 0 < (k.channels.slots slot).ring.count) :
    ∀ th ∈ (k.channels.slots slot).ring.front.handles, th.kind ≠ .invalid := by
  intro th member
  obtain ⟨n, atN⟩ := List.mem_iff_getElem?.mp member
  rw [← queuedCap_front sane.channels opened filled] at atN
  exact sane.kinds _ _ _ _ atN

theorem receives_effect (sane : Sane k)
    (valid : WellFormed v.capTable) (receives : Receives k pid v slot after) :
    Effect ((k.channels.slots slot).ring.front.handles.map fun th =>
      { th with rights := th.rights &&& v.capBoundingSet }) k pid v after := by
  obtain ⟨opened, filled, rfl⟩ := receives
  refine .changed _ ⟨giveHandles_wellformed valid, ?_⟩ ⟨rfl, pop_sheds sane.channels filled⟩
  intro i c held
  rcases giveHandles_enters valid (front_kinds sane opened filled) held with
    old | ⟨n, th, atN, same⟩
  · exact .inl old
  · exact .inr (List.mem_map.mpr ⟨th, List.mem_of_getElem? atN, same.symm⟩)

section

variable (sane : Sane k) (running : k.vipers pid = some v)
    (sends : Sends k pid v data handles slot after)

include sane running sends

theorem sends_capAt (x : Place) :
    capAt after x = match x with
      | .slot p i =>
        if p = pid ∧ i ∈ takenSlots handles v.capTable then none else capAt k (.slot p i)
      | .queued channel position n =>
        if channel = slot ∧ position = (k.channels.slots slot).ring.writeIdx then
          (takeHandles handles v.capTable).1[n]?
        else capAt k (.queued channel position n) := by
  obtain ⟨opened, room, rfl⟩ := sends
  cases x with
  | slot p i =>
    by_cases same : p = pid
    · subst p
      simp only [capAt, setTable, setViper, update_self, Option.bind_some, running, true_and]
      exact (takeHandles_exact handles v.capTable).2.1 i
    · simp [capAt, setTable, setViper, putChannel, same]
  | queued channel position n =>
    change queuedCap (setSlot _ slot _) channel position n = _
    by_cases here : channel = slot
    · subst channel
      rw [queuedCap_push sane.channels opened room]
      simp [capAt]
    · rw [queuedCap_setSlot_other _ _ here]
      simp [capAt, here]

theorem sends_caps (held : capAt after x = some c) :
    capAt k x = some c ∨ ∃ n, x = .queued slot (k.channels.slots slot).ring.writeIdx n ∧
      (takeHandles handles v.capTable).1[n]? = some c := by
  rw [sends_capAt sane running sends] at held
  cases x with
  | slot p i =>
    dsimp only at held
    split at held
    · cases held
    · exact .inl held
  | queued channel position n =>
    dsimp only at held
    split at held
    next here =>
      obtain ⟨rfl, rfl⟩ := here
      exact .inr ⟨n, rfl, held⟩
    · exact .inl held

theorem sends_sane : Sane after := by
  have arrivals := fun x c => @sends_caps k after pid slot v x c data handles sane running sends
  obtain ⟨opened, room, rfl⟩ := sends
  refine ⟨?_, push_sound sane.channels room _, ?_⟩
  · intro p w present
    by_cases same : p = pid
    · subst p
      simp only [setTable, setViper, update_self, Option.some.injEq] at present
      subst w
      exact takeHandles_wellformed (sane.tables _ v running)
    · simp only [setTable, setViper, putChannel, update_of_ne same] at present
      exact sane.tables p w present
  · intro channel position n c held
    rcases arrivals (.queued channel position n) c held with old | ⟨m, _, moved⟩
    · exact sane.kinds _ _ _ _ old
    · obtain ⟨h, _, named, _⟩ := takeHandles_named (List.mem_of_getElem? moved)
      exact tableCap_kind named

end

theorem legacySend_quiet (sane : Sane k) (sent : send k.channels id data = .ok channels) :
    Quiet k { k with channels } := by
  unfold send at sent
  split at sent
  · cases sent
  split at sent
  · cases sent
  next slot found =>
  have opened := findChannelById_opened found
  split at sent
  next room =>
    cases sent
    refine ⟨rfl, fun sound => push_sound sound room _, ?_⟩
    intro channel position n c held
    by_cases here : channel = slot
    · rw [here] at held ⊢
      rw [queuedCap_push sane.channels opened room] at held
      split at held
      · simp at held
      · exact held
    · exact (queuedCap_setSlot_other _ _ here _ _).symm.trans held
  · cases sent

theorem legacyRecv_quiet (sane : Sane k)
    (taken : recv k.channels id size = .ok (received, channels)) : Quiet k { k with channels } := by
  unfold recv at taken
  split at taken
  · cases taken
  simp only at taken
  split at taken
  next filled =>
    cases taken
    exact ⟨rfl, pop_sheds sane.channels filled⟩
  · cases taken

theorem tableCap_init (i : Nat) : tableCap (CapTable.init defaultCapacity) i = none :=
  if_neg fun live => live.2 rfl

theorem newChild_sane (sane : Sane k) (parent : Viper) (child : Nat) :
    Sane (setViper k child (newViper (some parent))) := by
  refine ⟨?_, sane.channels, sane.kinds⟩
  intro p w present
  by_cases same : p = child
  · subst p
    simp only [setViper, update_self, Option.some.injEq] at present
    subst w
    exact init_wellformed default_admissible
  · simp only [setViper, update_of_ne same] at present
    exact sane.tables p w present

theorem newChild_caps (parent : Viper)
    (held : capAt (setViper k child (newViper (some parent))) x = some c) : capAt k x = some c := by
  cases x with
  | slot p i =>
    by_cases same : p = child
    · subst p
      simp [capAt, setViper, newViper, tableCap_init] at held
    · simpa [capAt, setViper, same] using held
  | queued channel position n => exact held

theorem createBootstrapChannel_effect {child : Viper} (parentValid : WellFormed parent.capTable)
    (childValid : WellFormed child.capTable) (different : childPid ≠ pid)
    (running : k.vipers pid = some parent) (sendEp recvEp : UInt64) :
    ∃ middle, Effect [⟨recvEp, .channel, bootstrapRecvRights⟩] k childPid child middle ∧
      middle.vipers pid = some parent ∧
      Effect [⟨sendEp, .channel, bootstrapSendRights⟩] middle pid parent
        (createBootstrapChannel k pid parent childPid child sendEp recvEp) := by
  have quiet := newEndpoints_quiet k sendEp recvEp
  have grown := grown_insert (grown_refl [⟨recvEp, .channel, bootstrapRecvRights⟩] childValid)
    recvEp (by decide) bootstrapRecvRights (.head _)
  unfold createBootstrapChannel
  split
  next refused =>
    rw [refused] at quiet
    exact ⟨_, .quiet quiet, quiet.vipers ▸ running, .quiet (quiet_refl _)⟩
  next after made =>
  rw [made] at quiet
  simp only
  split
  · have deleted := quiet_trans (quiet_trans quiet (deleteObject_quiet _ sendEp))
      (deleteObject_quiet _ recvEp)
    exact ⟨_, .quiet deleted, deleted.vipers ▸ running, .quiet (quiet_refl _)⟩
  split
  · have changes := fun table => changes_quiet (changes_quiet
      (changes_setTable quiet childPid child table) (deleteObject_quiet _ sendEp))
      (deleteObject_quiet _ recvEp)
    refine ⟨_, .changed _ (grown_remove grown _) (changes _), ?_, .quiet (quiet_refl _)⟩
    rw [(changes _).vipers, update_of_ne different.symm]
    exact running
  · refine ⟨setTable after childPid child _,
      .changed _ grown (changes_setTable quiet childPid child _), ?_,
      .changed _ (grown_insert (grown_refl _ parentValid) sendEp (by decide)
        bootstrapSendRights (.head _)) (changes_setTable (quiet_refl _) pid parent _)⟩
    rw [(changes_setTable quiet childPid child _).vipers, update_of_ne different.symm]
    exact running

end ViperDos.Ipc
