import ViperDos.CapTable
import ViperDos.Rings

/-!
The channels of kernel/ipc/channel.cpp: a fixed array of message queues with a
count of references to either end. Every function holds the channel lock, so a call
is one step. A message owns the capabilities sent with it: sending takes them out of
the sender's table and receiving puts them into the receiver's. Wait queues, poll
notifications, the owner of a channel and the sender recorded in a message have no
influence on the rest and are left out, and so is the creation of a channel together
with raw handles, which nothing calls.
-/

namespace ViperDos.Ipc

open CapTable Rings

inductive VError where
  | invalidArg | outOfMemory | notFound | invalidHandle
  | wouldBlock | channelClosed | msgTooLarge | noResource | busy
  deriving DecidableEq

def capRead : Rights := (1 : UInt32) <<< 0
def capWrite : Rights := (1 : UInt32) <<< 1
def capTransfer : Rights := (1 : UInt32) <<< 7
def capTraverse : Rights := (1 : UInt32) <<< 9
def capIrqAccess : Rights := (1 : UInt32) <<< 11
def capDmaAccess : Rights := (1 : UInt32) <<< 12
def capAll : UInt32 := 0xFFFFFFFF

def maxMsgSize : Nat := 8192
def maxChannels : Nat := 64
def defaultPending : Nat := 16
def maxPending : Nat := 16
def maxHandlesPerMsg : Nat := 4

structure TransferredHandle where
  object : UInt64
  kind : Kind
  rights : UInt32
  deriving DecidableEq

structure Message where
  data : List UInt8
  handles : List TransferredHandle

inductive ChannelState where
  | free | opened | closed
  deriving DecidableEq

structure Channel where
  id : UInt32
  state : ChannelState
  ring : Rings.Ring Message
  capacity : Nat
  sendRefs : UInt32
  recvRefs : UInt32

structure Channels where
  slots : Nat → Channel
  nextChannelId : UInt32

def setSlot (chs : Channels) (slot : Nat) (ch : Channel) : Channels :=
  { chs with slots := Function.update chs.slots slot ch }

def init : Channels where
  slots := fun _ =>
    { id := 0
      state := .free
      ring := { buffer := fun _ => ⟨[], []⟩, readIdx := 0, writeIdx := 0, count := 0 }
      capacity := defaultPending
      sendRefs := 0
      recvRefs := 0 }
  nextChannelId := 1

def findFreeSlot (chs : Channels) : Option Nat :=
  (List.range maxChannels).find? fun slot => (chs.slots slot).state = .free

section

variable (chs : Channels) (id : UInt32)

def findChannelById : Option Nat :=
  (List.range maxChannels).find? fun slot =>
    (chs.slots slot).id = id ∧ (chs.slots slot).state = .opened

/-- A slot taken into use. Old messages stay in the buffer, out of reach. -/
def initChannel (ch : Channel) (id : UInt32) (capacity : Nat) : Channel :=
  { ch with
    id
    state := .opened
    ring := { ch.ring with readIdx := 0, writeIdx := 0, count := 0 }
    capacity := if 0 < capacity ∧ capacity ≤ maxPending then capacity else defaultPending
    sendRefs := 0
    recvRefs := 0 }

def create (chs : Channels) (capacity : Nat) : Except VError (UInt32 × Channels) :=
  match findFreeSlot chs with
  | none => .error .outOfMemory
  | some slot =>
    let ch := initChannel (chs.slots slot) chs.nextChannelId capacity
    .ok (ch.id,
      { setSlot chs slot { ch with sendRefs := 1, recvRefs := 1 } with
        nextChannelId := chs.nextChannelId + 1 })

def setCapacity (chs : Channels) (slot : Nat) (newCapacity : Nat) : Except VError Channels :=
  if (chs.slots slot).state ≠ .opened then .error .invalidHandle
  else if newCapacity = 0 ∨ maxPending < newCapacity then .error .invalidArg
  else if newCapacity < (chs.slots slot).ring.count then .error .busy
  else .ok (setSlot chs slot { chs.slots slot with capacity := newCapacity })

def pushMessage (ch : Channel) (msg : Message) : Channel :=
  { ch with ring := ch.ring.push maxPending msg }

def popMessage (ch : Channel) : Channel := { ch with ring := ch.ring.pop maxPending }

/-- The handles of a message, taken from the sender's table in order. A handle that
does not resolve or lacks the right to be transferred is passed over. -/
def takeHandles : List Handle → Table → List TransferredHandle × Table
  | [], table => ([], table)
  | h :: rest, table =>
    match get table h with
    | none => takeHandles rest table
    | some e =>
      if !hasRights e.rights capTransfer then takeHandles rest table
      else
        let (moved, after) := takeHandles rest (remove table h)
        (⟨e.object, e.kind, e.rights⟩ :: moved, after)

def trySendLocked (ch : Channel) (table : Table) (data : List UInt8) (handles : List Handle) :
    Except VError (Channel × Table) :=
  if ch.state ≠ .opened then .error .invalidHandle
  else if ch.recvRefs = 0 then .error .channelClosed
  else if maxMsgSize < data.length then .error .msgTooLarge
  else if maxHandlesPerMsg < handles.length then .error .invalidArg
  else if ch.capacity ≤ ch.ring.count then .error .wouldBlock
  else
    let (moved, after) := takeHandles handles table
    .ok (pushMessage ch ⟨data, moved⟩, after)

def insertBounded (table : Table) (object : UInt64) (kind : Kind) (rights : Rights)
    (boundingSet : UInt32) : Table × Handle :=
  CapTable.insert table object kind (rights &&& boundingSet)

/-- The receiving loop over the handles of a message: the handle each one got, the
invalid one where the table was full. -/
def giveHandles (boundingSet : UInt32) : List TransferredHandle → Table → List Handle × Table
  | [], table => ([], table)
  | th :: rest, table =>
    let (next, h) := insertBounded table th.object th.kind th.rights boundingSet
    let (given, after) := giveHandles boundingSet rest next
    (h :: given, after)

structure Received where
  data : List UInt8
  size : Nat
  handles : List Handle

def tryRecvLocked (ch : Channel) (table : Table) (boundingSet : UInt32) (bufferSize : Nat) :
    Except VError (Received × Channel × Table) :=
  if ch.state ≠ .opened then .error .invalidHandle
  else if ch.ring.count = 0 then .error .wouldBlock
  else
    let msg := ch.ring.front
    let (given, after) := giveHandles boundingSet msg.handles table
    .ok (⟨msg.data.take bufferSize, msg.data.length, given.filter (· ≠ handleInvalid)⟩,
      popMessage ch, after)

def trySend (table : Table) (data : List UInt8) (handles : List Handle) : Except VError
    (Channels × Table) :=
  match findChannelById chs id with
  | none => .error .invalidHandle
  | some slot =>
    (trySendLocked (chs.slots slot) table data handles).map fun (ch, after) =>
      (setSlot chs slot ch, after)

def tryRecv (table : Table) (boundingSet : UInt32) (bufferSize : Nat) : Except VError
    (Received × Channels × Table) :=
  match findChannelById chs id with
  | none => .error .invalidHandle
  | some slot =>
    (tryRecvLocked (chs.slots slot) table boundingSet bufferSize).map
      fun (received, ch, after) => (received, setSlot chs slot ch, after)

/-- The loop of `cleanup_pending_handles`: empty the handle lists of `n` messages from
`idx` on. The objects they name are not released. -/
def clearHandles : Nat → Nat → (Nat → Message) → Nat → Message
  | 0, _, buffer => buffer
  | n + 1, idx, buffer =>
    clearHandles n ((idx + 1) % maxPending)
      (Function.update buffer idx { buffer idx with handles := [] })

def cleanupPendingHandles (ch : Channel) : Channel :=
  { ch with
    ring := { ch.ring with buffer := clearHandles ch.ring.count ch.ring.readIdx ch.ring.buffer } }

def shutDown (ch : Channel) : Channel :=
  { cleanupPendingHandles { ch with state := .closed } with state := .free, id := 0 }

def dropRef (refs : UInt32) : UInt32 := if 0 < refs then refs - 1 else refs

def dropEndpoint (ch : Channel) (isSend : Bool) : Channel :=
  if isSend then { ch with sendRefs := dropRef ch.sendRefs }
  else { ch with recvRefs := dropRef ch.recvRefs }

/-- Closing an endpoint through a pointer to its channel, which may have been freed. -/
def closeEndpoint (chs : Channels) (slot : Nat) (isSend : Bool) : Channels :=
  let ch := dropEndpoint (chs.slots slot) isSend
  if ch.sendRefs = 0 ∧ ch.recvRefs = 0 then setSlot chs slot (shutDown ch)
  else setSlot chs slot ch

def closeEndpointById (isSend : Bool) : Except VError Channels :=
  match findChannelById chs id with
  | none => .error .invalidHandle
  | some slot =>
    let ch := dropEndpoint (chs.slots slot) isSend
    if ch.sendRefs = 0 ∧ ch.recvRefs = 0 then .ok (setSlot chs slot (shutDown ch))
    else .ok (setSlot chs slot ch)

def close : Except VError Channels :=
  match findChannelById chs id with
  | none => .error .invalidHandle
  | some slot => .ok (setSlot chs slot (shutDown (chs.slots slot)))

/-- One turn of the legacy blocking `send`: with a full queue the task waits and tries
again, which is another call. -/
def send (data : List UInt8) : Except VError Channels :=
  if maxMsgSize < data.length then .error .msgTooLarge
  else
    match findChannelById chs id with
    | none => .error .invalidHandle
    | some slot =>
      if (chs.slots slot).ring.count < (chs.slots slot).capacity then
        .ok (setSlot chs slot (pushMessage (chs.slots slot) ⟨data, []⟩))
      else .error .wouldBlock

/-- One turn of the legacy blocking `recv`, which does not look at the handles of the
message it takes. -/
def recv (bufferSize : Nat) : Except VError (Received × Channels) :=
  match findChannelById chs id with
  | none => .error .invalidHandle
  | some slot =>
    let ch := chs.slots slot
    if 0 < ch.ring.count then
      .ok (⟨ch.ring.front.data.take bufferSize, ch.ring.front.data.length, []⟩,
        setSlot chs slot (popMessage ch))
    else .error .wouldBlock

def hasSpace : Bool :=
  match findChannelById chs id with
  | none => false
  | some slot => (chs.slots slot).ring.count < (chs.slots slot).capacity

def addEndpointRef (isSend : Bool) : Except VError Channels :=
  match findChannelById chs id with
  | none => .error .invalidHandle
  | some slot =>
    let ch := chs.slots slot
    .ok (setSlot chs slot
      (if isSend then { ch with sendRefs := ch.sendRefs + 1 }
      else { ch with recvRefs := ch.recvRefs + 1 }))

end

theorem findChannelById_opened {chs : Channels} {id : UInt32} {slot : Nat}
    (found : findChannelById chs id = some slot) : (chs.slots slot).state = .opened := by
  have matched := List.find?_some found
  exact (of_decide_eq_true matched).2

end ViperDos.Ipc
