import ViperDos.Channels

/-!
What a channel is for: the messages that come out are those that went in, in order.
The state of the channel table is run together with a record of the traffic on every
slot since its channel was opened, and every call of the interface, by identifier or
through a pointer to a slot, is one step. A blocking call is a step for each turn of
its loop. The capability tables a call uses have no influence on the queue, so a call
brings its own.
-/

namespace ViperDos.Ipc.Fifo

open CapTable Rings Function

structure Delivery where
  bufferSize : Nat
  received : Received

structure Traffic where
  sent : List (List UInt8)
  deliveries : List Delivery

structure State where
  channels : Channels
  traffic : Nat → Traffic

inductive Call where
  | create (capacity : Nat)
  | setCapacity (slot newCapacity : Nat)
  | trySend (id : UInt32) (table : Table) (data : List UInt8) (handles : List Handle)
  | trySendTo (slot : Nat) (table : Table) (data : List UInt8) (handles : List Handle)
  | tryRecv (id : UInt32) (table : Table) (boundingSet : UInt32) (bufferSize : Nat)
  | tryRecvFrom (slot : Nat) (table : Table) (boundingSet : UInt32) (bufferSize : Nat)
  | send (id : UInt32) (data : List UInt8)
  | recv (id : UInt32) (bufferSize : Nat)
  | close (id : UInt32)
  | closeEndpoint (slot : Nat) (isSend : Bool)
  | closeEndpointById (id : UInt32) (isSend : Bool)
  | addEndpointRef (id : UInt32) (isSend : Bool)

def noteOpened (traffic : Nat → Traffic) (slot : Nat) : Nat → Traffic :=
  update traffic slot ⟨[], []⟩

def noteSent (traffic : Nat → Traffic) (slot : Nat) (data : List UInt8) : Nat → Traffic :=
  update traffic slot { traffic slot with sent := (traffic slot).sent ++ [data] }

def noteReceived (traffic : Nat → Traffic) (slot bufferSize : Nat) (received : Received) :
    Nat → Traffic :=
  update traffic slot
    { traffic slot with deliveries := (traffic slot).deliveries ++ [⟨bufferSize, received⟩] }

def noteAt (s : State) (id : UInt32) (note : Nat → Nat → Traffic) : Nat → Traffic :=
  match findChannelById s.channels id with
  | none => s.traffic
  | some slot => note slot

def perform (s : State) : Call → State
  | .create capacity =>
    match create s.channels capacity, findFreeSlot s.channels with
    | .ok (_, channels), some slot => ⟨channels, noteOpened s.traffic slot⟩
    | _, _ => s
  | .setCapacity slot newCapacity =>
    match setCapacity s.channels slot newCapacity with
    | .ok channels => { s with channels }
    | .error _ => s
  | .trySend id table data handles =>
    match trySend s.channels id table data handles with
    | .ok (channels, _) => ⟨channels, noteAt s id fun slot => noteSent s.traffic slot data⟩
    | .error _ => s
  | .trySendTo slot table data handles =>
    match trySendLocked (s.channels.slots slot) table data handles with
    | .ok (ch, _) => ⟨setSlot s.channels slot ch, noteSent s.traffic slot data⟩
    | .error _ => s
  | .tryRecv id table boundingSet bufferSize =>
    match tryRecv s.channels id table boundingSet bufferSize with
    | .ok (received, channels, _) =>
      ⟨channels, noteAt s id fun slot => noteReceived s.traffic slot bufferSize received⟩
    | .error _ => s
  | .tryRecvFrom slot table boundingSet bufferSize =>
    match tryRecvLocked (s.channels.slots slot) table boundingSet bufferSize with
    | .ok (received, ch, _) =>
      ⟨setSlot s.channels slot ch, noteReceived s.traffic slot bufferSize received⟩
    | .error _ => s
  | .send id data =>
    match send s.channels id data with
    | .ok channels => ⟨channels, noteAt s id fun slot => noteSent s.traffic slot data⟩
    | .error _ => s
  | .recv id bufferSize =>
    match recv s.channels id bufferSize with
    | .ok (received, channels) =>
      ⟨channels, noteAt s id fun slot => noteReceived s.traffic slot bufferSize received⟩
    | .error _ => s
  | .close id =>
    match close s.channels id with
    | .ok channels => { s with channels }
    | .error _ => s
  | .closeEndpoint slot isSend => { s with channels := closeEndpoint s.channels slot isSend }
  | .closeEndpointById id isSend =>
    match closeEndpointById s.channels id isSend with
    | .ok channels => { s with channels }
    | .error _ => s
  | .addEndpointRef id isSend =>
    match addEndpointRef s.channels id isSend with
    | .ok channels => { s with channels }
    | .error _ => s

def start : State := ⟨init, fun _ => ⟨[], []⟩⟩

def run (calls : List Call) : State := calls.foldl perform start

def pending (ch : Channel) : List (List UInt8) :=
  (ch.ring.contents maxPending).map Message.data

/-- A delivery of a message: its size, and as many of its bytes as the buffer holds. -/
def Delivers (delivery : Delivery) (data : List UInt8) : Prop :=
  delivery.received.size = data.length ∧
    delivery.received.data = data.take delivery.bufferSize

structure Carries (ch : Channel) (traffic : Traffic) : Prop where
  ring : ch.ring.Sound maxPending
  bounded : ch.ring.count ≤ ch.capacity
  capacity : ch.capacity ≤ maxPending
  order : ∃ taken, traffic.sent = taken ++ pending ch ∧
    List.Forall₂ Delivers traffic.deliveries taken

def Orderly (s : State) : Prop :=
  ∀ slot, (s.channels.slots slot).state = .opened →
    Carries (s.channels.slots slot) (s.traffic slot)

theorem pending_length (ch : Channel) : (pending ch).length = ch.ring.count := by
  rw [pending, List.length_map, Ring.contents_length]

variable {ch after : Channel} {traffic : Traffic} {delivery : Delivery} {table left : Table}
  {data : List UInt8} {handles : List Handle} {boundingSet : UInt32} {bufferSize slot : Nat}
  {received : Received}

/-- A change of the counts of a channel, or of its capacity, is none of its queue. -/
theorem carries_of_ring (carries : Carries ch traffic)
    (ring : after.ring = ch.ring) (bounded : after.ring.count ≤ after.capacity)
    (capacity : after.capacity ≤ maxPending) : Carries after traffic := by
  constructor
  case ring => rw [ring]; exact carries.ring
  case bounded => exact bounded
  case capacity => exact capacity
  case order =>
    rw [pending, ring]
    exact carries.order

theorem initChannel_carries (ch : Channel) (id : UInt32) (capacity : Nat)
    (sendRefs recvRefs : UInt32) :
    Carries { initChannel ch id capacity with sendRefs, recvRefs } ⟨[], []⟩ := by
  constructor
  case ring => exact ⟨Nat.zero_lt_succ 15, rfl, Nat.zero_le 16⟩
  case bounded => exact Nat.zero_le _
  case capacity =>
    simp only [initChannel]
    split
    next small => exact small.2
    · decide
  case order => exact ⟨[], rfl, List.Forall₂.nil⟩

theorem pushMessage_carries (carries : Carries ch traffic)
    (room : ch.ring.count < ch.capacity) (msg : Message) :
    Carries (pushMessage ch msg) { traffic with sent := traffic.sent ++ [msg.data] } := by
  have free : ch.ring.count < maxPending := Nat.lt_of_lt_of_le room carries.capacity
  constructor
  case ring => exact Ring.push_sound carries.ring free msg
  case bounded => exact room
  case capacity => exact carries.capacity
  case order =>
    obtain ⟨taken, sent, delivered⟩ := carries.order
    refine ⟨taken, ?_, delivered⟩
    simp only [pending, pushMessage, Ring.push_contents carries.ring free, List.map_append,
      List.map_cons, List.map_nil]
    rw [sent, List.append_assoc, pending]

theorem popMessage_carries (carries : Carries ch traffic) (filled : 0 < ch.ring.count)
    (delivers : Delivers delivery ch.ring.front.data) :
    Carries (popMessage ch) { traffic with deliveries := traffic.deliveries ++ [delivery] } := by
  constructor
  case ring => exact Ring.pop_sound carries.ring filled
  case bounded => exact (Nat.sub_le _ 1).trans carries.bounded
  case capacity => exact carries.capacity
  case order =>
    obtain ⟨taken, sent, delivered⟩ := carries.order
    refine ⟨taken ++ [ch.ring.front.data], ?_, ?_⟩
    · simp only [pending, popMessage]
      rw [sent, pending, Ring.pop_contents carries.ring filled, List.map_cons,
        List.append_assoc, List.singleton_append]
    · exact List.rel_append delivered (List.Forall₂.cons delivers List.Forall₂.nil)

variable {id : UInt32}

variable {s : State}

/-- Steps on one slot keep the others, so only the slot itself has to be looked at. -/
theorem orderly_set (orderly : Orderly s) (slot : Nat) (counter : UInt32)
    (carries : ch.state = .opened → Carries ch traffic) :
    Orderly ⟨{ setSlot s.channels slot ch with nextChannelId := counter },
      update s.traffic slot traffic⟩ := by
  intro other opened
  simp only [setSlot, update_apply] at opened ⊢
  split at opened
  next same => simpa only [same, if_true] using carries opened
  next apart => simpa only [apart, if_false] using orderly other opened

theorem orderly_channel (orderly : Orderly s) (slot : Nat)
    (carries : ch.state = .opened → Carries ch (s.traffic slot)) :
    Orderly { s with channels := setSlot s.channels slot ch } := by
  have kept := orderly_set orderly slot s.channels.nextChannelId carries
  rwa [update_eq_self] at kept

theorem trySendLocked_pushes (sent : trySendLocked ch table data handles = .ok (after, left)) :
    ch.state = .opened ∧ ch.ring.count < ch.capacity ∧
      ∃ moved, after = pushMessage ch ⟨data, moved⟩ := by
  unfold trySendLocked at sent
  split at sent
  · cases sent
  next opened =>
  split at sent
  · cases sent
  split at sent
  · cases sent
  split at sent
  · cases sent
  split at sent
  · cases sent
  next room =>
  cases sent
  exact ⟨not_not.mp opened, Nat.lt_of_not_le room, _, rfl⟩

theorem tryRecvLocked_pops
    (taken : tryRecvLocked ch table boundingSet bufferSize = .ok (received, after, left)) :
    ch.state = .opened ∧ 0 < ch.ring.count ∧ after = popMessage ch ∧
      Delivers ⟨bufferSize, received⟩ ch.ring.front.data := by
  unfold tryRecvLocked at taken
  split at taken
  · cases taken
  next opened =>
  split at taken
  · cases taken
  next filled =>
  cases taken
  exact ⟨not_not.mp opened, Nat.pos_of_ne_zero filled, rfl, rfl, rfl⟩

theorem sent_orderly (orderly : Orderly s) (opened : (s.channels.slots slot).state = .opened)
    (room : (s.channels.slots slot).ring.count < (s.channels.slots slot).capacity) (msg : Message) :
    Orderly ⟨setSlot s.channels slot (pushMessage (s.channels.slots slot) msg),
      noteSent s.traffic slot msg.data⟩ :=
  orderly_set orderly slot s.channels.nextChannelId
    fun _ => pushMessage_carries (orderly slot opened) room msg

theorem received_orderly (orderly : Orderly s) (opened : (s.channels.slots slot).state = .opened)
    (filled : 0 < (s.channels.slots slot).ring.count)
    (delivers : Delivers ⟨bufferSize, received⟩ (s.channels.slots slot).ring.front.data) :
    Orderly ⟨setSlot s.channels slot (popMessage (s.channels.slots slot)),
      noteReceived s.traffic slot bufferSize received⟩ :=
  orderly_set orderly slot s.channels.nextChannelId
    fun _ => popMessage_carries (orderly slot opened) filled delivers

theorem dropEndpoint_carries (isSend : Bool) (carries : ch.state = .opened → Carries ch traffic)
    (opened : (dropEndpoint ch isSend).state = .opened) :
    Carries (dropEndpoint ch isSend) traffic := by
  cases isSend <;>
  · have before := carries opened
    exact carries_of_ring before rfl before.bounded before.capacity

section

variable (orderly : Orderly s)

include orderly

theorem shutDown_orderly (slot : Nat) (ch : Channel) :
    Orderly { s with channels := setSlot s.channels slot (shutDown ch) } :=
  orderly_channel orderly slot (fun opened => ChannelState.noConfusion opened)

theorem dropped_orderly (slot : Nat) (isSend : Bool) :
    Orderly { s with channels := closeEndpoint s.channels slot isSend } := by
  unfold closeEndpoint
  simp only []
  split
  · exact shutDown_orderly orderly slot _
  · exact orderly_channel orderly slot (dropEndpoint_carries isSend (orderly slot))

theorem create_orderly (capacity : Nat) : Orderly (perform s (.create capacity)) := by
  unfold perform
  simp only [create]
  cases free : findFreeSlot s.channels with
  | none => exact orderly
  | some slot =>
    exact orderly_set orderly slot _ fun _ => initChannel_carries _ _ _ 1 1

theorem setCapacity_orderly (slot newCapacity : Nat) :
    Orderly (perform s (.setCapacity slot newCapacity)) := by
  unfold perform
  simp only [setCapacity]
  split
  next channels changed =>
    split at changed
    · cases changed
    split at changed
    · cases changed
    next valid =>
    split at changed
    · cases changed
    next enough =>
    cases changed
    refine orderly_channel orderly slot fun opened => ?_
    have small : newCapacity ≤ maxPending := by omega
    exact carries_of_ring (orderly slot opened) rfl (Nat.le_of_not_lt enough) small
  · exact orderly

theorem trySendTo_orderly (slot : Nat) (table : Table) (data : List UInt8) (handles : List Handle) :
    Orderly (perform s (.trySendTo slot table data handles)) := by
  unfold perform
  dsimp only
  split
  next ch left sent =>
    obtain ⟨opened, room, moved, rfl⟩ := trySendLocked_pushes sent
    exact sent_orderly orderly opened room ⟨data, moved⟩
  · exact orderly

theorem tryRecvFrom_orderly (slot : Nat) (table : Table) (boundingSet : UInt32) (bufferSize : Nat) :
    Orderly (perform s (.tryRecvFrom slot table boundingSet bufferSize)) := by
  unfold perform
  dsimp only
  split
  next received ch left taken =>
    obtain ⟨opened, filled, rfl, delivers⟩ := tryRecvLocked_pops taken
    exact received_orderly orderly opened filled delivers
  · exact orderly

end

section

variable (found : findChannelById s.channels id = some slot)

include found

/-- A call by identifier is the call through a pointer to the slot that has it. -/
theorem trySend_slot (table : Table) (data : List UInt8) (handles : List Handle) :
    perform s (.trySend id table data handles) =
      perform s (.trySendTo slot table data handles) := by
  unfold perform
  simp only [trySend, noteAt, found]
  cases trySendLocked (s.channels.slots slot) table data handles with
  | error => rfl
  | ok sent => rfl

theorem tryRecv_slot (table : Table) (boundingSet : UInt32) (bufferSize : Nat) :
    perform s (.tryRecv id table boundingSet bufferSize) =
      perform s (.tryRecvFrom slot table boundingSet bufferSize) := by
  unfold perform
  simp only [tryRecv, noteAt, found]
  cases tryRecvLocked (s.channels.slots slot) table boundingSet bufferSize with
  | error => rfl
  | ok taken => rfl

theorem closeEndpointById_slot (isSend : Bool) :
    perform s (.closeEndpointById id isSend) = perform s (.closeEndpoint slot isSend) := by
  unfold perform
  simp only [closeEndpointById, closeEndpoint, found]
  by_cases last : (dropEndpoint (s.channels.slots slot) isSend).sendRefs = 0 ∧
      (dropEndpoint (s.channels.slots slot) isSend).recvRefs = 0
  · simp only [if_pos last]
  · simp only [if_neg last]

end

section

variable (orderly : Orderly s)

include orderly

theorem send_orderly (id : UInt32) (data : List UInt8) : Orderly (perform s (.send id data)) := by
  unfold perform
  simp only [send]
  split
  next channels sent =>
    split at sent
    · cases sent
    cases found : findChannelById s.channels id with
    | none =>
      rw [found] at sent
      cases sent
    | some slot =>
      simp only [found] at sent
      split at sent
      next room =>
        cases sent
        simp only [noteAt, found]
        exact sent_orderly orderly (findChannelById_opened found) room ⟨data, []⟩
      · cases sent
  · exact orderly

theorem recv_orderly (id : UInt32) (bufferSize : Nat) :
    Orderly (perform s (.recv id bufferSize)) := by
  unfold perform
  simp only [recv]
  split
  next received channels taken =>
    cases found : findChannelById s.channels id with
    | none =>
      rw [found] at taken
      cases taken
    | some slot =>
      simp only [found] at taken
      split at taken
      next filled =>
        cases taken
        simp only [noteAt, found]
        exact received_orderly orderly (findChannelById_opened found) filled ⟨rfl, rfl⟩
      · cases taken
  · exact orderly

theorem addEndpointRef_orderly (id : UInt32)
    (isSend : Bool) : Orderly (perform s (.addEndpointRef id isSend)) := by
  unfold perform
  simp only [addEndpointRef]
  cases found : findChannelById s.channels id with
  | none => exact orderly
  | some slot =>
    have carries := orderly slot (findChannelById_opened found)
    refine orderly_channel orderly slot fun _ => ?_
    cases isSend <;> exact carries_of_ring carries rfl carries.bounded carries.capacity

theorem perform_orderly (call : Call) : Orderly (perform s call) := by
  cases call with
  | create capacity => exact create_orderly orderly capacity
  | setCapacity slot newCapacity => exact setCapacity_orderly orderly slot newCapacity
  | trySend id table data handles =>
    cases found : findChannelById s.channels id with
    | none => simpa only [perform, trySend, found] using orderly
    | some slot =>
      rw [trySend_slot found]
      exact trySendTo_orderly orderly slot table data handles
  | trySendTo slot table data handles => exact trySendTo_orderly orderly slot table data handles
  | tryRecv id table boundingSet bufferSize =>
    cases found : findChannelById s.channels id with
    | none => simpa only [perform, tryRecv, found] using orderly
    | some slot =>
      rw [tryRecv_slot found]
      exact tryRecvFrom_orderly orderly slot table boundingSet bufferSize
  | tryRecvFrom slot table boundingSet bufferSize =>
    exact tryRecvFrom_orderly orderly slot table boundingSet bufferSize
  | send id data => exact send_orderly orderly id data
  | recv id bufferSize => exact recv_orderly orderly id bufferSize
  | close id =>
    unfold perform
    simp only [close]
    cases findChannelById s.channels id with
    | none => exact orderly
    | some slot => exact shutDown_orderly orderly slot _
  | closeEndpoint slot isSend => exact dropped_orderly orderly slot isSend
  | closeEndpointById id isSend =>
    cases found : findChannelById s.channels id with
    | none => simpa only [perform, closeEndpointById, found] using orderly
    | some slot =>
      rw [closeEndpointById_slot found]
      exact dropped_orderly orderly slot isSend
  | addEndpointRef id isSend => exact addEndpointRef_orderly orderly id isSend

theorem calls_orderly (calls : List Call) : Orderly (calls.foldl perform s) := by
  induction calls generalizing s with
  | nil => exact orderly
  | cons call rest ih => exact ih (perform_orderly orderly call)

end

theorem start_orderly : Orderly start := by
  intro slot opened
  exact ChannelState.noConfusion opened

/-- After any calls, the messages sent on an open channel are those its receivers were
given, in the same order, followed by those waiting in it. Every delivery has told the
size of its message and as many of its bytes as the buffer held, and no more messages
wait than the capacity allows. -/
theorem channel_is_bounded_fifo (calls : List Call) (slot : Nat)
    (opened : ((run calls).channels.slots slot).state = .opened) :
    (∃ taken, ((run calls).traffic slot).sent = taken ++ pending ((run calls).channels.slots slot) ∧
      List.Forall₂ Delivers ((run calls).traffic slot).deliveries taken) ∧
    (pending ((run calls).channels.slots slot)).length ≤
      ((run calls).channels.slots slot).capacity := by
  have carries := calls_orderly start_orderly calls slot opened
  refine ⟨carries.order, ?_⟩
  rw [pending_length]
  exact carries.bounded

def exchange : List Call :=
  [.create 2, .send 1 [1, 2, 3], .trySend 1 (CapTable.init 4) [4] [], .recv 1 8]

theorem exchange_in_order : ((run exchange).channels.slots 0).state = .opened ∧
    ((run exchange).traffic 0).deliveries.length = 1 ∧
    (∃ taken, ((run exchange).traffic 0).sent = taken ++ pending ((run exchange).channels.slots 0) ∧
      List.Forall₂ Delivers ((run exchange).traffic 0).deliveries taken) ∧
    (pending ((run exchange).channels.slots 0)).length ≤
      ((run exchange).channels.slots 0).capacity :=
  ⟨rfl, rfl, channel_is_bounded_fifo exchange 0 rfl⟩

def truncated : List Call := [.create 2, .send 1 [1, 2, 3], .recv 1 2]

/-- The message has left the channel and its last byte was given to nobody. -/
theorem short_buffer_truncates : ((run truncated).channels.slots 0).state = .opened ∧
    ¬ ((run truncated).traffic 0).deliveries.map
        (fun delivery => (delivery.received.size, delivery.received.data)) <+:
      ((run truncated).traffic 0).sent.map (fun data => (data.length, data)) := by
  refine ⟨rfl, ?_⟩
  decide

/-- Where `try_send` without handles does not ask to wait, `send` answers as it does. -/
def SendsAlike (chs : Channels) (id : UInt32) (table : Table) (data : List UInt8) : Prop :=
  match trySend chs id table data [] with
  | .ok (channels, left) => send chs id data = .ok channels ∧ left = table
  | .error e => e ≠ .wouldBlock → send chs id data = .error e

/-- The two ways to send agree just on a channel that still has a receiver, and on an
identifier of no channel as long as the message is not too large. `send` does not look at
the receivers, and looks at the size before it looks for the channel. -/
theorem sends_alike_iff_receiver (chs : Channels) (id : UInt32) (table : Table)
    (data : List UInt8) : SendsAlike chs id table data ↔
      match findChannelById chs id with
      | none => data.length ≤ maxMsgSize
      | some slot => (chs.slots slot).recvRefs ≠ 0 := by
  unfold SendsAlike trySend send
  cases found : findChannelById chs id with
  | none => by_cases large : maxMsgSize < data.length <;> simp [large]; omega
  | some slot =>
    have opened : ¬ (chs.slots slot).state ≠ .opened := not_not.mpr (findChannelById_opened found)
    simp only [trySendLocked, if_neg opened, List.length_nil, maxHandlesPerMsg]
    by_cases alone : (chs.slots slot).recvRefs = 0
    · by_cases large : maxMsgSize < data.length <;> simp [alone, large, Except.map]
      split <;> simp
    by_cases large : maxMsgSize < data.length
    · simp [alone, large, Except.map]
    by_cases full : (chs.slots slot).capacity ≤ (chs.slots slot).ring.count
    · simp [alone, large, full, Except.map]
    · simp [alone, large, full, Except.map, takeHandles, Nat.lt_of_not_le full]

def abandoned : Channels := (run [.create 2, .closeEndpoint 0 false]).channels

theorem send_without_receiver :
    trySend abandoned 1 (CapTable.init 4) [7] [] = .error .channelClosed ∧
    (send abandoned 1 [7]).toOption.map (fun chs => (chs.slots 0).ring.count) = some 1 ∧
    ¬ SendsAlike abandoned 1 (CapTable.init 4) [7] :=
  ⟨rfl, rfl, fun alike => by cases alike (by decide)⟩

end ViperDos.Ipc.Fifo
