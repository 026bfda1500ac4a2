import ViperDos.Assigns
import ViperDos.CapRevocation
import ViperDos.Channels
import ViperDos.Directories
import ViperDos.MapCalls

/-!
The system calls that create, move or end capabilities: kernel/syscall/handlers/cap.cpp,
channel.cpp, handle_fs.cpp, the shared memory part of device.cpp, assign.cpp, and the
bootstrap channel of task.cpp, over the tables of all processes, the channels, the
assigns and the kernel objects.

Objects are known by their address. The address `new` returns is an argument of a call,
and a step takes one that no object has; a failing `new` makes the constructor write to
address zero, which ends the kernel and every run. A call that follows a pointer to an
object that has been deleted, or to one of another class, is undefined and has no
outcome here. User memory has been read and checked before a call starts; a call whose
pointers are refused changes nothing.
-/

namespace ViperDos.Ipc

open CapTable Rings Transition Function

inductive KObject where
  | channel (id : UInt32) (endpoints : UInt8)
  | dir (inode : UInt64)
  | file (inode : UInt64) (flags : UInt32) (offset : Nat)
  | sharedMemory (refCount : UInt32)
  | deviceToken
  deriving DecidableEq

def endpointSend : UInt8 := 1
def endpointRecv : UInt8 := 2

structure Viper where
  capTable : Table
  capBoundingSet : UInt32

structure Kernel where
  vipers : Nat → Option Viper
  channels : Channels
  objects : UInt64 → Option KObject
  assigns : Assign.Assigns

def setViper (k : Kernel) (pid : Nat) (v : Viper) : Kernel :=
  { k with vipers := update k.vipers pid (some v) }

def setTable (k : Kernel) (pid : Nat) (v : Viper) (table : Table) : Kernel :=
  setViper k pid { v with capTable := table }

def newObject (k : Kernel) (address : UInt64) (object : KObject) : Kernel :=
  { k with objects := update k.objects address (some object) }

structure Storage where
  env : ViperFs.Env
  system : ViperFs.Volume
  user : ViperFs.Volume

-- kobj: the classes of kernel objects

section

variable (k : Kernel)

def adopt (id : UInt32) (endpoints : UInt8) (address : UInt64) : Option UInt64 × Kernel :=
  if hasSpace k.channels id then (some address, newObject k address (.channel id endpoints))
  else (none, k)

def wrap (id : UInt32) (isSend : Bool) (address : UInt64) : Option UInt64 × Kernel :=
  match addEndpointRef k.channels id isSend with
  | .error _ => (none, k)
  | .ok channels =>
    (some address, newObject { k with channels } address
      (.channel id (if isSend then endpointSend else endpointRecv)))

def dropOwned (chs : Channels) (id : UInt32) (endpoints endpoint : UInt8) (isSend : Bool) :
    Channels :=
  if endpoints &&& endpoint ≠ 0 then
    match closeEndpointById chs id isSend with
    | .ok after => after
    | .error _ => chs
  else chs

def closeEndpoints (chs : Channels) (id : UInt32) (endpoints : UInt8) : Channels :=
  if id ≠ 0 then
    dropOwned (dropOwned chs id endpoints endpointSend true) id endpoints endpointRecv false
  else chs

/-- `delete` of an object: its destructor and the return of its memory. Only channels
have a destructor that reaches beyond the object and its pages. -/
def deleteObject (address : UInt64) : Kernel :=
  match k.objects address with
  | some (.channel id endpoints) =>
    { k with
      channels := closeEndpoints k.channels id endpoints
      objects := update k.objects address none }
  | _ => { k with objects := update k.objects address none }

def deletePointer : Option UInt64 → Kernel
  | none => k
  | some address => deleteObject k address

def createDir (storage : Storage) (inode : UInt64) (address : UInt64) : Option UInt64 × Kernel :=
  match ViperFs.readInode storage.env storage.system inode.toNat with
  | none => (none, k)
  | some record =>
    if !record.isDirectory then (none, k)
    else (some address, newObject k address (.dir inode))

def oAppend : UInt32 := 0x400

def createFile (storage : Storage) (inode : UInt64) (flags : UInt32) (address : UInt64) : Option
    UInt64 × Kernel :=
  match ViperFs.readInode storage.env storage.system inode.toNat with
  | none => (none, k)
  | some record =>
    if record.isDirectory then (none, k)
    else
      (some address, newObject k address
        (.file inode flags (if flags &&& oAppend ≠ 0 then record.size else 0)))

def dirLookup (storage : Storage) (inode : UInt64) (name : List UInt8) : Option (UInt64 × Bool) :=
  if name = [] then none
  else
    match ViperFs.readInode storage.env storage.system inode.toNat with
    | none => none
    | some record =>
      if !record.isDirectory then none
      else
        let child := (ViperFs.lookup storage.env storage.system record name).1
        if child = 0 then none
        else
          some (UInt64.ofNat child,
            match ViperFs.readInode storage.env storage.system child with
            | some found => found.isDirectory
            | none => false)

structure Reply where
  registers : List UInt64
  data : List UInt8
  handles : List Handle

/-- The error of a failed call: a kernel error, or the code of the assign table, which the
handlers pass on as it is. -/
abbrev Outcome := Except (VError ⊕ Assign.AssignError) Reply

def failed (e : VError) : Outcome := .error (.inl e)

def done : Outcome := .ok ⟨[], [], []⟩

def doneWith (h : Handle) : Outcome := .ok ⟨[h.toUInt64], [], []⟩

/-- Insert a fresh object into the caller's table, or delete it again when the table is
full. Every handler that opens something ends like this. -/
def insertOrDelete (pid : Nat) (v : Viper) (address : UInt64) (kind : Kind) (rights : Rights) :
    Handle × Kernel :=
  let (table, h) := CapTable.insert v.capTable address kind rights
  if h = handleInvalid then (handleInvalid, deleteObject k address)
  else (h, setTable k pid v table)

end

-- handlers/cap.cpp

def sysCapDerive (k : Kernel) (pid : Nat) (v : Viper) (src : Handle) (newRights : Rights) :
    Outcome × Kernel :=
  let (table, h) := derive v.capTable src newRights
  if h = handleInvalid then (failed .invalidHandle, k)
  else (doneWith h, setTable k pid v table)

def dropCapBoundingSet (v : Viper) (rightsToDrop : UInt32) : Viper :=
  { v with capBoundingSet := v.capBoundingSet &&& ~~~rightsToDrop }

def sysCapDropBound (k : Kernel) (pid : Nat) (v : Viper) (rightsToDrop : UInt32) :
    Outcome × Kernel :=
  (done, setViper k pid (dropCapBoundingSet v rightsToDrop))

-- handlers/channel.cpp

def sendRights : Rights := capWrite ||| capTransfer ||| capDerive
def recvRights : Rights := capRead ||| capTransfer ||| capDerive

section

variable (k : Kernel) (pid : Nat) (v : Viper)

def publishPair (sendEp recvEp : UInt64) : Outcome × Kernel :=
  let (withSend, sendHandle) := CapTable.insert v.capTable sendEp .channel sendRights
  if sendHandle = handleInvalid then
    (failed .outOfMemory, deleteObject (deleteObject k sendEp) recvEp)
  else
    let (withBoth, recvHandle) := CapTable.insert withSend recvEp .channel recvRights
    if recvHandle = handleInvalid then
      (failed .outOfMemory,
        deleteObject (deleteObject (setTable k pid v (remove withSend sendHandle)) sendEp) recvEp)
    else
      (.ok ⟨[sendHandle.toUInt64, recvHandle.toUInt64], [], []⟩, setTable k pid v withBoth)

def discardEndpoints (k : Kernel) (id : UInt32) (send recv : Option UInt64) : Kernel :=
  let freed := deletePointer (deletePointer k send) recv
  match close freed.channels id with
  | .ok channels => { freed with channels }
  | .error _ => freed

/-- Create a channel and an object for each of its ends; when that fails nothing is left
of them. -/
def newEndpoints (k : Kernel) (sendEp recvEp : UInt64) : Except VError Unit × Kernel :=
  match create k.channels defaultPending with
  | .error e => (.error e, k)
  | .ok (id, channels) =>
    let (send, withSend) := adopt { k with channels } id endpointSend sendEp
    let (recv, withBoth) := adopt withSend id endpointRecv recvEp
    match send, recv with
    | some _, some _ => (.ok (), withBoth)
    | _, _ => (.error .outOfMemory, discardEndpoints withBoth id send recv)

def sysChannelCreate (sendEp recvEp : UInt64) : Outcome × Kernel :=
  match newEndpoints k sendEp recvEp with
  | (.error e, after) => (failed e, after)
  | (.ok (), after) => publishPair after pid v sendEp recvEp

def channelOf (k : Kernel) (address : UInt64) : Option UInt32 :=
  match k.objects address with
  | some (.channel id _) => some id
  | _ => none

def dirOf (k : Kernel) (address : UInt64) : Option UInt64 :=
  match k.objects address with
  | some (.dir inode) => some inode
  | _ => none

def sysChannelSend (h : Handle) (data : List UInt8) (handles : List Handle) : Option
    (Outcome × Kernel) :=
  if maxHandlesPerMsg < handles.length then some (failed .invalidArg, k)
  else
    match getWithRights v.capTable h .channel capWrite with
    | none => some (failed .invalidHandle, k)
    | some e =>
      (channelOf k e.object).map fun id =>
        match trySend k.channels id v.capTable data handles with
        | .error error => (failed error, k)
        | .ok (channels, table) => (.ok ⟨[0], [], []⟩, setTable { k with channels } pid v table)

/-- `maxHandles` is the room the caller has for handle values; those that do not fit are
in the table all the same. -/
def sysChannelRecv (h : Handle) (size maxHandles : Nat) : Option (Outcome × Kernel) :=
  match getWithRights v.capTable h .channel capRead with
  | none => some (failed .invalidHandle, k)
  | some e =>
    (channelOf k e.object).map fun id =>
      match tryRecv k.channels id v.capTable v.capBoundingSet size with
      | .error error => (failed error, k)
      | .ok (received, channels, table) =>
        (.ok ⟨[UInt64.ofNat received.size, UInt64.ofNat received.handles.length],
            received.data, received.handles.take (min maxHandles maxHandlesPerMsg)⟩,
          setTable { k with channels } pid v table)

end

-- The object goes whoever else has a capability for it.
def sysChannelClose (k : Kernel) (pid : Nat) (v : Viper) (h : Handle) :
    Option (Outcome × Kernel) :=
  match getChecked v.capTable h .channel with
  | none => some (failed .invalidHandle, k)
  | some e =>
    (channelOf k e.object).map fun _ =>
      (done, setTable (deleteObject k e.object) pid v (remove v.capTable h))

-- handlers/handle_fs.cpp

def openRootRights : Rights := capRead ||| capWrite ||| capDerive
def openRights : Rights := capRead ||| capWrite

def opened (result : Handle × Kernel) : Outcome × Kernel :=
  (if result.1 = handleInvalid then failed .outOfMemory else doneWith result.1, result.2)

section

variable (k : Kernel) (pid : Nat) (v : Viper)

def sysFsOpenRoot (storage : Storage) (address : UInt64) : Outcome × Kernel :=
  match createDir k storage 2 address with
  | (none, after) => (failed .outOfMemory, after)
  | (some dir, after) => opened (insertOrDelete after pid v dir .directory openRootRights)

def sysFsOpen (storage : Storage) (h : Handle) (name : List UInt8) (flags : UInt32)
    (address : UInt64) : Option (Outcome × Kernel) :=
  match getChecked v.capTable h .directory with
  | none => some (failed .invalidHandle, k)
  | some e =>
    (dirOf k e.object).map fun inode =>
      match dirLookup storage inode name with
      | none => (failed .notFound, k)
      | some (child, isDir) =>
        let made :=
          if isDir then createDir k storage child address
          else createFile k storage child flags address
        match made with
        | (none, after) => (failed .outOfMemory, after)
        | (some object, after) =>
          opened (insertOrDelete after pid v object
            (if isDir then .directory else .file) openRights)

def sysFsClose (h : Handle) : Outcome × Kernel :=
  match get v.capTable h with
  | none => (failed .invalidHandle, k)
  | some _ => (done, setTable k pid v (remove v.capTable h))

end

-- handlers/device.cpp, shared memory

def shmRights : Rights := capRead ||| capWrite ||| capTransfer

/-- How far the pages of a shared memory object got: none were free or no range of
addresses, mapped but not recorded, or mapped and recorded. -/
inductive ShmPages where
  | refused | untracked | tracked
  deriving DecidableEq

def sysShmCreate (k : Kernel) (pid : Nat) (v : Viper) (pages : ShmPages) (address : UInt64) :
    Outcome × Kernel :=
  if pages = .refused then (failed .outOfMemory, k)
  else
    let made := newObject k address (.sharedMemory 1)
    let (table, h) := CapTable.insert v.capTable address .sharedMemory shmRights
    if h = handleInvalid then (failed .outOfMemory, deleteObject made address)
    else if pages = .untracked then
      (failed .noResource, deleteObject (setTable made pid v (remove table h)) address)
    else (doneWith h, newObject (setTable made pid v table) address (.sharedMemory 2))

def release (k : Kernel) (address : UInt64) (refCount : UInt32) : Kernel :=
  if refCount - 1 = 0 then deleteObject k address
  else newObject k address (.sharedMemory (refCount - 1))

def sysShmClose (k : Kernel) (pid : Nat) (v : Viper) (h : Handle) : Option (Outcome × Kernel) :=
  match getChecked v.capTable h .sharedMemory with
  | none => some (failed .invalidHandle, k)
  | some e =>
    match k.objects e.object with
    | some (.sharedMemory refCount) =>
      some (done, release (setTable k pid v (remove v.capTable h)) e.object refCount)
    | _ => none

-- handlers/assign.cpp

def assigned (k : Kernel) (result : Except Assign.AssignError Assign.Assigns) :
    Outcome × Kernel :=
  match result with
  | .ok assigns => (done, { k with assigns })
  | .error e => (.error (.inr e), k)

def sysAssignSet (k : Kernel) (v : Viper) (name : Assign.Name) (h : Handle) (flags : UInt32) :
    Option (Outcome × Kernel) :=
  match getChecked v.capTable h .directory with
  | some e =>
    (dirOf k e.object).map fun inode =>
      assigned k (Assign.set k.assigns name inode flags .null)
  | none =>
    match getChecked v.capTable h .channel with
    | some e =>
      (channelOf k e.object).map fun id =>
        assigned k (Assign.setChannel k.assigns name id flags)
    | none => some (.error (.inr .invalidHandle), k)

def channelAssignRights : Rights := capWrite ||| capTransfer
def dirAssignRights : Rights := capRead ||| capTraverse

def getChannel (k : Kernel) (pid : Nat) (v : Viper) (name : Assign.Name) (address : UInt64) :
    Handle × Kernel :=
  match Assign.findAssign k.assigns name with
  | none => (handleInvalid, k)
  | some i =>
    if !(k.assigns i).flagged Assign.assignService then (handleInvalid, k)
    else
      match wrap k (k.assigns i).channelId true address with
      | (none, after) => (handleInvalid, after)
      | (some ch, after) => insertOrDelete after pid v ch .channel channelAssignRights

section

variable (k : Kernel) (pid : Nat) (v : Viper) (storage : Storage)

def createDirHandle (inode : UInt64) (address : UInt64) : Handle × Kernel :=
  match createDir k storage inode address with
  | (none, after) => (handleInvalid, after)
  | (some dir, after) => insertOrDelete after pid v dir .directory dirAssignRights

def assignGet (name : Assign.Name) (address : UInt64) : Handle × Kernel :=
  match Assign.findAssign k.assigns name with
  | none => (handleInvalid, k)
  | some i => createDirHandle k pid v storage (k.assigns i).dirInode address

def found (result : Handle × Kernel) : Outcome × Kernel :=
  (if result.1 = handleInvalid then failed .notFound else doneWith result.1, result.2)

def sysAssignGet (name : Assign.Name) (address : UInt64) : Outcome × Kernel :=
  match getChannel k pid v name address with
  | (h, after) =>
    if h ≠ handleInvalid then (doneWith h, after)
    else found (assignGet after pid v storage name address)

def sysAssignRemove (k : Kernel) (name : Assign.Name) : Outcome × Kernel :=
  assigned k (Assign.remove k.assigns name)

def components (path : List UInt8) : List (List UInt8) :=
  (path.splitOnP Assign.isSeparator).filter (· ≠ [])

def walkPathComponents (env : ViperFs.Env) (vol : ViperFs.Volume) :
    List (List UInt8) → Nat → Nat
  | [], current => current
  | component :: rest, current =>
    match ViperFs.readInode env vol current with
    | none => 0
    | some dir =>
      if !dir.isDirectory then 0
      else
        let next := (ViperFs.lookup env vol dir component).1
        if next = 0 then 0 else walkPathComponents env vol rest next

def fileRights (flags : UInt32) : Rights :=
  let access := flags &&& 3
  (if access = 0 ∨ access = 2 then capRead else 0) |||
    (if access = 1 ∨ access = 2 then capWrite else 0)

def createFileHandle (inode : UInt64) (flags : UInt32) (address : UInt64) : Handle × Kernel :=
  match createFile k storage inode flags address with
  | (none, after) => (handleInvalid, after)
  | (some file, after) => insertOrDelete after pid v file .file (fileRights flags)

def diskOf (storage : Storage) : Assign.FsPointer → ViperFs.Volume
  | .null => storage.system
  | .user => storage.user

def resolvePath (path : List UInt8) (flags : UInt32) (address : UInt64) : Handle × Kernel :=
  match Assign.parseAssign path with
  | none => (handleInvalid, k)
  | some (name, remainder) =>
    match Assign.findAssign k.assigns name with
    | none => (handleInvalid, k)
    | some i =>
      let entry := k.assigns i
      if entry.dirInode = 0 then (handleInvalid, k)
      else if components remainder = [] then
        createDirHandle k pid v storage entry.dirInode address
      else
        let vol := diskOf storage entry.fs
        let final :=
          walkPathComponents storage.env vol (components remainder) entry.dirInode.toNat
        if final = 0 then (handleInvalid, k)
        else
          match ViperFs.readInode storage.env vol final with
          | none => (handleInvalid, k)
          | some record =>
            if record.isDirectory then
              createDirHandle k pid v storage (UInt64.ofNat final) address
            else createFileHandle k pid v storage (UInt64.ofNat final) flags address

def sysAssignResolve (path : List UInt8) (flags : UInt32) (address : UInt64) : Outcome × Kernel :=
  found (resolvePath k pid v storage path flags address)

end

-- viper.cpp and handlers/task.cpp: new processes

def bootRights : Rights :=
  Memory.capDeviceAccess ||| capIrqAccess ||| capDmaAccess ||| capTransfer ||| capDerive

def deviceRootToken : UInt64 := 0xFFFFFFFFFFFFFFF8

/-- The process record `viper::create` makes: a child starts with its parent's bounding
set and an empty table, a process without parent with the device capability. -/
def newViper : Option Viper → Viper
  | some parent =>
    { capTable := CapTable.init defaultCapacity, capBoundingSet := parent.capBoundingSet }
  | none =>
    { capTable :=
        (CapTable.insert (CapTable.init defaultCapacity) deviceRootToken .device bootRights).1
      capBoundingSet := capAll }

def bootstrapRecvRights : Rights := capRead ||| capTransfer
def bootstrapSendRights : Rights := capWrite ||| capTransfer

def createBootstrapChannel (k : Kernel) (pid : Nat) (parent : Viper) (childPid : Nat)
    (child : Viper) (sendEp recvEp : UInt64) : Kernel :=
  match newEndpoints k sendEp recvEp with
  | (.error _, after) => after
  | (.ok (), after) =>
    let (childTable, childRecv) :=
      CapTable.insert child.capTable recvEp .channel bootstrapRecvRights
    if childRecv = handleInvalid then deleteObject (deleteObject after sendEp) recvEp
    else
      let (parentTable, parentSend) :=
        CapTable.insert parent.capTable sendEp .channel bootstrapSendRights
      if parentSend = handleInvalid then
        deleteObject
          (deleteObject (setTable after childPid child (remove childTable childRecv)) sendEp)
          recvEp
      else setTable (setTable after childPid child childTable) pid parent parentTable

def sysTaskSpawn (k : Kernel) (pid : Nat) (parent : Viper) (childPid : Nat)
    (sendEp recvEp : UInt64) : Kernel :=
  let child := newViper (some parent)
  createBootstrapChannel (setViper k childPid child) pid parent childPid child sendEp recvEp

def sysFork (k : Kernel) (parent : Viper) (childPid : Nat) : Kernel :=
  setViper k childPid (newViper (some parent))

inductive Call where
  | capDerive (h : Handle) (newRights : Rights)
  | capRevoke (h : Handle)
  | capDropBound (rights : UInt32)
  | channelCreate (sendEp recvEp : UInt64)
  | channelSend (h : Handle) (data : List UInt8) (handles : List Handle)
  | channelRecv (h : Handle) (size maxHandles : Nat)
  | channelClose (h : Handle)
  | legacySend (id : UInt32) (data : List UInt8)
  | legacyRecv (id : UInt32) (size : Nat)
  | legacyClose (id : UInt32)
  | fsOpenRoot (storage : Storage) (address : UInt64)
  | fsOpen (storage : Storage) (h : Handle) (name : List UInt8) (flags : UInt32)
      (address : UInt64)
  | fsClose (h : Handle)
  | shmCreate (pages : ShmPages) (address : UInt64)
  | shmClose (h : Handle)
  | assignSet (name : Assign.Name) (h : Handle) (flags : UInt32)
  | assignAdd (name : Assign.Name) (inode : UInt64)
  | assignGet (storage : Storage) (name : Assign.Name) (address : UInt64)
  | assignResolve (storage : Storage) (path : List UInt8) (flags : UInt32) (address : UInt64)
  | assignRemove (name : Assign.Name)
  | spawn (child : Nat) (sendEp recvEp : UInt64)
  | fork (child : Nat)

def Call.addresses : Call → List UInt64
  | .channelCreate sendEp recvEp => [sendEp, recvEp]
  | .spawn _ sendEp recvEp => [sendEp, recvEp]
  | .fsOpenRoot _ address => [address]
  | .fsOpen _ _ _ _ address => [address]
  | .shmCreate _ address => [address]
  | .assignGet _ _ address => [address]
  | .assignResolve _ _ _ address => [address]
  | _ => []

/-- The heap hands out distinct addresses of its own that no object has. -/
def Fresh (k : Kernel) (call : Call) : Prop :=
  call.addresses.Nodup ∧ ∀ address ∈ call.addresses, address ≠ 0 ∧ k.objects address = none

def Performs (k : Kernel) (pid : Nat) (v : Viper) : Call → Kernel → Prop
  | .capDerive h newRights, after => after = (sysCapDerive k pid v h newRights).2
  | .capRevoke h, after => ∃ table n, Revokes v.capTable h table n ∧ after = setTable k pid v table
  | .capDropBound rights, after => after = (sysCapDropBound k pid v rights).2
  | .channelCreate sendEp recvEp, after => after = (sysChannelCreate k pid v sendEp recvEp).2
  | .channelSend h data handles, after =>
    ∃ outcome, sysChannelSend k pid v h data handles = some (outcome, after)
  | .channelRecv h size maxHandles, after =>
    ∃ outcome, sysChannelRecv k pid v h size maxHandles = some (outcome, after)
  | .channelClose h, after => ∃ outcome, sysChannelClose k pid v h = some (outcome, after)
  | .legacySend id data, after =>
    after = match send k.channels id data with
      | .ok channels => { k with channels }
      | .error _ => k
  | .legacyRecv id size, after =>
    after = match recv k.channels id size with
      | .ok (_, channels) => { k with channels }
      | .error _ => k
  | .legacyClose id, after =>
    after = match close k.channels id with
      | .ok channels => { k with channels }
      | .error _ => k
  | .fsOpenRoot storage address, after => after = (sysFsOpenRoot k pid v storage address).2
  | .fsOpen storage h name flags address, after =>
    ∃ outcome, sysFsOpen k pid v storage h name flags address = some (outcome, after)
  | .fsClose h, after => after = (sysFsClose k pid v h).2
  | .shmCreate pages address, after => after = (sysShmCreate k pid v pages address).2
  | .shmClose h, after => ∃ outcome, sysShmClose k pid v h = some (outcome, after)
  | .assignSet name h flags, after =>
    ∃ outcome, sysAssignSet k v name h flags = some (outcome, after)
  | .assignAdd name inode, after =>
    ∃ result assigns, Assign.add k.assigns name inode = some (result, assigns) ∧
      after = { k with assigns }
  | .assignGet storage name address, after =>
    after = (sysAssignGet k pid v storage name address).2
  | .assignResolve storage path flags address, after =>
    after = (sysAssignResolve k pid v storage path flags address).2
  | .assignRemove name, after => after = (sysAssignRemove k name).2
  | .spawn child sendEp recvEp, after =>
    k.vipers child = none ∧ child ≠ pid ∧ after = sysTaskSpawn k pid v child sendEp recvEp
  | .fork child, after => k.vipers child = none ∧ after = sysFork k v child

structure Label where
  pid : Nat
  call : Call

def Step (k : Kernel) (label : Label) (after : Kernel) : Prop :=
  Fresh k label.call ∧ ∃ v, k.vipers label.pid = some v ∧ Performs k label.pid v label.call after

/-- The kernel when the first processes have been created, without parents. -/
def boot (pids : List Nat) (assigns : Assign.Assigns) : Kernel where
  vipers := fun pid => if pid ∈ pids then some (newViper none) else none
  channels := init
  objects := fun address => if address = deviceRootToken then some .deviceToken else none
  assigns := assigns

end ViperDos.Ipc
