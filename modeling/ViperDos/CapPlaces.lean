import ViperDos.CapCalls

/-!
Where capabilities are. A place is a slot of a process's table or a position in the
handle list of a queued message; `capAt` says which capability stands there. The
lemmas give, for the operations on tables and on channels, the capabilities at every
place afterwards.
-/

namespace ViperDos.Ipc

open CapTable Rings Transition

inductive Place where
  | slot (pid i : Nat)
  | queued (channel position n : Nat)
  deriving DecidableEq

def tableCap (t : Table) (i : Nat) : Option TransferredHandle :=
  if Live t i then some ⟨(t.entries i).object, (t.entries i).kind, (t.entries i).rights⟩ else none

def queuedCap (chs : Channels) (channel position n : Nat) : Option TransferredHandle :=
  if (chs.slots channel).state = .opened ∧ (chs.slots channel).ring.Occupied maxPending position
  then ((chs.slots channel).ring.buffer position).handles[n]?
  else none

def capAt (k : Kernel) : Place → Option TransferredHandle
  | .slot pid i => (k.vipers pid).bind fun v => tableCap v.capTable i
  | .queued channel position n => queuedCap k.channels channel position n

-- Tables

variable {t : Table} {i channel slot capacity : Nat} {c th : TransferredHandle} {kind : Kind}
  {h : Handle} {e : Entry} {newRights : Rights} {handles : List Handle} {bound : UInt32}
  {ths : List TransferredHandle} {chs middle after : Channels} {ch : Channel} {isSend : Bool}

theorem tableCap_live (live : Live t i) :
    tableCap t i = some ⟨(t.entries i).object, (t.entries i).kind, (t.entries i).rights⟩ :=
  if_pos live

theorem tableCap_kind (held : tableCap t i = some c) : c.kind ≠ .invalid := by
  unfold tableCap at held
  split at held
  next live =>
    cases held
    exact live.2
  · cases held

theorem tableCap_takeSlot (valid : WellFormed t) (room : t.freeHead ≠ freeEnd) (object : UInt64)
    (proper : kind ≠ .invalid) (rights parentIndex : UInt32) (i : Nat) :
    tableCap (takeSlot t object kind rights parentIndex).1 i =
      if i = t.freeHead.toNat then some ⟨object, kind, rights⟩ else tableCap t i := by
  have live := takeSlot_live valid room object kind rights parentIndex i
  split
  next same =>
    subst i
    rw [tableCap_live (live.mpr (.inr ⟨rfl, proper⟩)), takeSlot_at]
  next away =>
  have still : Live (takeSlot t object kind rights parentIndex).1 i ↔ Live t i := by
    rw [live]
    exact or_iff_left fun new => away new.1
  simp only [tableCap, still, takeSlot_other away]

theorem tableCap_releaseSlot (t : Table) (index parentIndex : UInt32) (i : Nat) :
    tableCap (releaseSlot t index parentIndex) i =
      if i = index.toNat then none else tableCap t i := by
  have live := releaseSlot_live t index parentIndex i
  split
  next same => exact if_neg fun still => (live.mp still).2 same
  next away =>
  have still : Live (releaseSlot t index parentIndex) i ↔ Live t i := by
    rw [live]
    exact and_iff_left away
  simp only [tableCap, still, releaseSlot_other away]

theorem tableCap_remove (t : Table) (valid : h ≠ handleInvalid) (i : Nat) :
    tableCap (remove t h) i = if i = (handleIndex h).toNat then none else tableCap t i := by
  by_cases removable : Removable t h
  · rw [remove_released removable, tableCap_releaseSlot]
  · rw [remove_refused removable]
    split
    next same => exact if_neg fun live => removable ⟨valid, same ▸ live⟩
    · rfl

theorem tableCap_insert (valid : WellFormed t) (object : UInt64)
    (proper : kind ≠ .invalid) (rights : Rights) (i : Nat) :
    tableCap (CapTable.insert t object kind rights).1 i =
      if t.freeHead ≠ freeEnd ∧ i = t.freeHead.toNat then some ⟨object, kind, rights⟩
      else tableCap t i := by
  unfold CapTable.insert
  by_cases full : t.freeHead = freeEnd
  · simp [full]
  · rw [if_neg full, tableCap_takeSlot valid full object proper]
    simp [full]

theorem tableCap_shrinks {after : Table} (shrinks : Shrinks t after)
    (held : tableCap after i = some c) :
    tableCap t i = some c := by
  unfold tableCap at held
  split at held
  next live =>
    obtain ⟨before, same⟩ := shrinks.2 i live
    rw [tableCap_live before, ← same]
    exact held
  · cases held

theorem get_cap (got : getUnlocked t h = some e) :
    h ≠ handleInvalid ∧ tableCap t (handleIndex h).toNat = some ⟨e.object, e.kind, e.rights⟩ := by
  by_cases resolves : Resolves t h
  · rw [getUnlocked_resolves resolves] at got
    cases got
    exact ⟨resolves.1, tableCap_live resolves.2.1⟩
  · rw [getUnlocked_stale resolves] at got
    cases got

theorem getChecked_cap (got : getChecked t h kind = some e) :
    h ≠ handleInvalid ∧ tableCap t (handleIndex h).toNat = some ⟨e.object, kind, e.rights⟩ := by
  unfold getChecked at got
  split at got
  · cases got
  next e' found =>
  split at got
  · cases got
  next same =>
  cases got
  have named := get_cap found
  rw [not_not.mp same] at named
  exact named

theorem insert_enters (valid : WellFormed t) (object : UInt64) (proper : kind ≠ .invalid)
    (rights : Rights) (held : tableCap (CapTable.insert t object kind rights).1 i = some c) :
    tableCap t i = some c ∨ c = ⟨object, kind, rights⟩ := by
  rw [tableCap_insert valid object proper] at held
  split at held
  · cases held
    exact .inr rfl
  · exact .inl held

theorem remove_enters (held : tableCap (remove t h) i = some c) : tableCap t i = some c := by
  by_cases valid : h = handleInvalid
  · rw [remove_refused fun removable => removable.1 valid] at held
    exact held
  · rw [tableCap_remove t valid] at held
    split at held
    · cases held
    · exact held

theorem derive_enters (valid : WellFormed t) (held : tableCap (derive t h newRights).1 i = some c) :
    tableCap t i = some c ∨ ∃ source, tableCap t (handleIndex h).toNat = some source ∧
        c = { source with rights := source.rights &&& newRights } := by
  by_cases derivable : Derivable t h
  · have live := derivable.1.2.1
    rw [derive_taken derivable, tableCap_takeSlot valid derivable.2.2 _ live.2] at held
    split at held
    · cases held
      exact .inr ⟨_, tableCap_live live, rfl⟩
    · exact .inl held
  · rw [derive_refused derivable] at held
    exact .inl held

theorem takeHandles_wellformed (valid : WellFormed t) : WellFormed (takeHandles handles t).2 := by
  induction handles generalizing t with
  | nil => exact valid
  | cons h rest ih =>
    simp only [takeHandles]
    split
    · exact ih valid
    · split
      · exact ih valid
      · exact ih (remove_wellformed valid h)

def takenSlots : List Handle → Table → List Nat
  | [], _ => []
  | h :: rest, table =>
    match get table h with
    | none => takenSlots rest table
    | some e =>
      if !hasRights e.rights capTransfer then takenSlots rest table
      else (handleIndex h).toNat :: takenSlots rest (remove table h)

theorem takenSlots_held (taken : i ∈ takenSlots handles t) : tableCap t i ≠ none := by
  induction handles generalizing t with
  | nil => cases taken
  | cons h rest ih =>
    simp only [takenSlots] at taken
    split at taken
    · exact ih taken
    next e got =>
    split at taken
    · exact ih taken
    rcases List.mem_cons.mp taken with rfl | later
    · rw [(get_cap got).2]
      simp
    have held := ih later
    rw [tableCap_remove t (get_cap got).1] at held
    split at held
    · exact absurd rfl held
    · exact held

/-- What sending does to a table and what goes into the message. -/
theorem takeHandles_exact (handles : List Handle) (t : Table) : (takenSlots handles t).Nodup ∧
      (∀ i, tableCap (takeHandles handles t).2 i =
        if i ∈ takenSlots handles t then none else tableCap t i) ∧
      (takeHandles handles t).1.map some = (takenSlots handles t).map (tableCap t) := by
  induction handles generalizing t with
  | nil => simp [takenSlots, takeHandles]
  | cons h rest ih =>
    cases got : get t h with
    | none =>
      simp only [takenSlots, takeHandles, got]
      exact ih t
    | some e =>
      by_cases movable : hasRights e.rights capTransfer = true
      · obtain ⟨valid, named⟩ := get_cap got
        obtain ⟨noDup, emptied, moved⟩ := ih (remove t h)
        have gone : (handleIndex h).toNat ∉ takenSlots rest (remove t h) := by
          intro again
          apply takenSlots_held again
          rw [tableCap_remove t valid, if_pos rfl]
        simp only [takenSlots, takeHandles, got, movable, Bool.not_true, Bool.false_eq_true,
          if_false]
        refine ⟨List.nodup_cons.mpr ⟨gone, noDup⟩, ?_, ?_⟩
        · intro i
          rw [emptied i, tableCap_remove t valid]
          by_cases here : i = (handleIndex h).toNat
          · simp [here]
          · simp [here]
        · simp only [List.map_cons, moved, named, List.cons.injEq, true_and]
          apply List.map_congr_left
          intro i member
          rw [tableCap_remove t valid, if_neg]
          rintro rfl
          exact gone member
      · simp only [takenSlots, takeHandles, got, movable, Bool.not_false, if_true]
        exact ih t

/-- What sending takes was in a slot that one of the handles names and could be transferred. -/
theorem takeHandles_named (taken : th ∈ (takeHandles handles t).1) :
    ∃ h ∈ handles, tableCap t (handleIndex h).toNat = some th ∧
      hasRights th.rights capTransfer = true := by
  induction handles generalizing t with
  | nil => cases taken
  | cons h rest ih =>
    simp only [takeHandles] at taken
    split at taken
    · obtain ⟨other, inRest, named⟩ := ih taken
      exact ⟨other, .tail _ inRest, named⟩
    next e got =>
    split at taken
    · obtain ⟨other, inRest, named⟩ := ih taken
      exact ⟨other, .tail _ inRest, named⟩
    next allowed =>
    rcases List.mem_cons.mp taken with rfl | later
    · exact ⟨h, .head _, (get_cap got).2, by simpa using allowed⟩
    · obtain ⟨other, inRest, named, movable⟩ := ih later
      exact ⟨other, .tail _ inRest, remove_enters named, movable⟩

theorem giveHandles_wellformed (valid : WellFormed t) : WellFormed (giveHandles bound ths t).2 := by
  induction ths generalizing t with
  | nil => exact valid
  | cons th rest ih => exact ih (insert_wellformed valid _ _ _)

theorem giveHandles_enters (valid : WellFormed t) (proper : ∀ th ∈ ths, th.kind ≠ .invalid)
    (held : tableCap (giveHandles bound ths t).2 i = some c) :
    tableCap t i = some c ∨ ∃ (n : Nat) (th : TransferredHandle), ths[n]? = some th ∧
        c = { th with rights := th.rights &&& bound } := by
  induction ths generalizing t with
  | nil => exact .inl held
  | cons th rest ih =>
    have nextValid := insert_wellformed valid th.object th.kind (th.rights &&& bound)
    have restProper : ∀ other ∈ rest, other.kind ≠ .invalid :=
      fun other member => proper other (List.mem_cons_of_mem th member)
    rcases ih nextValid restProper held with earlier | ⟨n, other, atN, same⟩
    · rcases insert_enters valid _ (proper th (.head _)) _ earlier with old | new
      · exact .inl old
      · exact .inr ⟨0, th, rfl, new⟩
    · exact .inr ⟨n + 1, other, atN, same⟩

-- Channels

structure ChannelSound (ch : Channel) : Prop where
  ring : ch.ring.Sound maxPending
  bounded : ch.ring.count ≤ ch.capacity
  capacity : ch.capacity ≤ maxPending

def ChannelsSound (chs : Channels) : Prop := ∀ slot, ChannelSound (chs.slots slot)

/-- An operation that queues nothing: the channels stay sound, and every queued
capability was queued at the same place before. -/
structure Sheds (chs after : Channels) : Prop where
  sound : ChannelsSound chs → ChannelsSound after
  queues : ∀ channel position n c, queuedCap after channel position n = some c →
    queuedCap chs channel position n = some c

theorem sheds_refl (chs : Channels) : Sheds chs chs := ⟨id, fun _ _ _ _ => id⟩

theorem sheds_trans (first : Sheds chs middle) (second : Sheds middle after) : Sheds chs after :=
  ⟨fun sound => second.sound (first.sound sound),
    fun channel position n c held => first.queues _ _ _ _ (second.queues channel position n c held)⟩

theorem emptied_sound (buffer : Nat → Message) :
    Ring.Sound maxPending { buffer, readIdx := 0, writeIdx := 0, count := 0 } :=
  ⟨Nat.zero_lt_succ _, rfl, Nat.zero_le _⟩

theorem init_sound : ChannelsSound init :=
  fun _ => ⟨emptied_sound _, Nat.zero_le _, Nat.le_refl _⟩

theorem setSlot_sound (sound : ChannelsSound chs) (slot : Nat) (new : ChannelSound ch) :
    ChannelsSound (setSlot chs slot ch) := by
  intro other
  by_cases same : other = slot
  · subst other
    simpa [setSlot] using new
  · simpa [setSlot, same] using sound other

theorem queuedCap_setSlot_other (chs : Channels) (ch : Channel) (away : channel ≠ slot)
    (position n : Nat) :
    queuedCap (setSlot chs slot ch) channel position n = queuedCap chs channel position n := by
  simp [queuedCap, setSlot, away]

/-- A slot whose messages are hidden by being closed or emptied. -/
theorem setSlot_sheds (chs : Channels) (slot : Nat)
    (sound : ChannelSound (chs.slots slot) → ChannelSound ch)
    (hidden : ∀ position n c, queuedCap (setSlot chs slot ch) slot position n = some c →
      queuedCap chs slot position n = some c) : Sheds chs (setSlot chs slot ch) := by
  constructor
  case sound => exact fun before => setSlot_sound before slot (sound (before slot))
  case queues =>
    intro channel position n c held
    by_cases same : channel = slot
    · subst channel
      exact hidden position n c held
    · rwa [queuedCap_setSlot_other chs ch same] at held

variable {id : UInt32}

theorem create_sheds (created : create chs capacity = .ok (id, after)) : Sheds chs after := by
  unfold create at created
  split at created
  · cases created
  next slot _ =>
  cases created
  have base : Sheds chs (setSlot chs slot
      { initChannel (chs.slots slot) chs.nextChannelId capacity with
        sendRefs := 1, recvRefs := 1 }) := by
    apply setSlot_sheds
    case sound =>
      intro _
      refine ⟨emptied_sound _, Nat.zero_le _, ?_⟩
      simp only [initChannel]
      split
      next fits => exact fits.2
      · exact Nat.le_refl _
    case hidden =>
      -- an empty ring has no occupied position
      intro position n c held
      simp [queuedCap, setSlot, initChannel, Ring.Occupied] at held
  -- the next number to give out plays no part in the queues
  exact ⟨base.sound, base.queues⟩

theorem shutDown_sheds (chs : Channels) (slot : Nat) (ring : ch.ring = (chs.slots slot).ring)
    (capacity : ch.capacity = (chs.slots slot).capacity) :
    Sheds chs (setSlot chs slot (shutDown ch)) := by
  apply setSlot_sheds
  case sound =>
    rintro ⟨sound, bounded, fits⟩
    rw [← ring] at sound
    rw [← ring, ← capacity] at bounded
    exact ⟨⟨sound.reader, sound.writer, sound.bounded⟩, bounded, capacity ▸ fits⟩
  case hidden =>
    intro position n c held
    simp [queuedCap, setSlot, shutDown] at held

theorem dropEndpoint_ring (ch : Channel) (isSend : Bool) :
    (dropEndpoint ch isSend).ring = ch.ring ∧ (dropEndpoint ch isSend).state = ch.state ∧
      (dropEndpoint ch isSend).capacity = ch.capacity := by
  unfold dropEndpoint
  split <;> exact ⟨rfl, rfl, rfl⟩

theorem setSlot_same_sheds (chs : Channels) (slot : Nat)
    (ring : ch.ring = (chs.slots slot).ring) (state : ch.state = (chs.slots slot).state)
    (capacity : ch.capacity = (chs.slots slot).capacity) : Sheds chs (setSlot chs slot ch) := by
  apply setSlot_sheds
  case sound => exact fun ⟨sound, bounded, fits⟩ =>
    ⟨ring ▸ sound, by rwa [ring, capacity], capacity ▸ fits⟩
  case hidden =>
    intro position n c held
    simpa [queuedCap, setSlot, ring, state] using held

theorem closeEndpointById_sheds
    (closed : closeEndpointById chs id isSend = .ok after) : Sheds chs after := by
  unfold closeEndpointById at closed
  split at closed
  · cases closed
  next slot _ =>
  obtain ⟨ring, state, capacity⟩ := dropEndpoint_ring (chs.slots slot) isSend
  simp only at closed
  split at closed
  · cases closed
    exact shutDown_sheds chs slot ring capacity
  · cases closed
    exact setSlot_same_sheds chs slot ring state capacity

theorem close_sheds (closed : close chs id = .ok after) : Sheds chs after := by
  unfold close at closed
  split at closed
  · cases closed
  · cases closed
    exact shutDown_sheds chs _ rfl rfl

theorem addEndpointRef_sheds
    (added : addEndpointRef chs id isSend = .ok after) : Sheds chs after := by
  unfold addEndpointRef at added
  split at added
  · cases added
  · cases added
    apply setSlot_same_sheds <;> (split <;> rfl)

theorem dropOwned_sheds (chs : Channels) (id : UInt32) (endpoints endpoint : UInt8)
    (isSend : Bool) : Sheds chs (dropOwned chs id endpoints endpoint isSend) := by
  unfold dropOwned
  split
  · split
    next closed => exact closeEndpointById_sheds closed
    · exact sheds_refl chs
  · exact sheds_refl chs

theorem closeEndpoints_sheds (chs : Channels) (id : UInt32) (endpoints : UInt8) :
    Sheds chs (closeEndpoints chs id endpoints) := by
  unfold closeEndpoints
  split
  · exact sheds_trans (dropOwned_sheds _ _ _ _ _) (dropOwned_sheds _ _ _ _ _)
  · exact sheds_refl chs

section

variable (sound : ChannelsSound chs)

include sound

theorem queuedCap_push (opened : (chs.slots slot).state = .opened)
    (room : (chs.slots slot).ring.count < (chs.slots slot).capacity) (msg : Message)
    (position n : Nat) :
    queuedCap (setSlot chs slot (pushMessage (chs.slots slot) msg)) slot position n =
      if position = (chs.slots slot).ring.writeIdx then msg.handles[n]?
      else queuedCap chs slot position n := by
  have within := Nat.lt_of_lt_of_le room (sound slot).capacity
  have occupied := Ring.push_occupied (sound slot).ring within msg position
  simp only [queuedCap, setSlot, pushMessage, Function.update_self, opened, true_and, occupied]
  by_cases same : position = (chs.slots slot).ring.writeIdx
  · simp [same, Ring.push]
  · simp [same, Ring.push]

theorem push_sound
    (room : (chs.slots slot).ring.count < (chs.slots slot).capacity) (msg : Message) :
    ChannelsSound (setSlot chs slot (pushMessage (chs.slots slot) msg)) := by
  have within := Nat.lt_of_lt_of_le room (sound slot).capacity
  exact setSlot_sound sound slot ⟨Ring.push_sound (sound slot).ring within msg, room,
    (sound slot).capacity⟩

theorem queuedCap_pop (filled : 0 < (chs.slots slot).ring.count) (position n : Nat) :
    queuedCap (setSlot chs slot (popMessage (chs.slots slot))) slot position n =
      if position = (chs.slots slot).ring.readIdx then none
      else queuedCap chs slot position n := by
  have occupied := Ring.pop_occupied (sound slot).ring filled position
  simp only [queuedCap, setSlot, popMessage, Function.update_self, occupied]
  by_cases same : position = (chs.slots slot).ring.readIdx
  · simp [same]
  · simp [same, Ring.pop]

theorem pop_sheds (filled : 0 < (chs.slots slot).ring.count) :
    Sheds chs (setSlot chs slot (popMessage (chs.slots slot))) := by
  apply setSlot_sheds
  case sound => exact fun ⟨ring, bounded, capacity⟩ =>
    ⟨Ring.pop_sound ring filled, Nat.le_trans (Nat.sub_le _ _) bounded, capacity⟩
  case hidden =>
    intro position n c held
    rw [queuedCap_pop sound filled] at held
    split at held
    · cases held
    · exact held

end

end ViperDos.Ipc
