import ViperDos.CapObjects

/-!
Conservation of capabilities in transfer. A send moves each handle it accepts from a slot
of the sender's table to a place in the message, a receive moves it on to a slot of the
receiver's table. `Carry` says from where to where; a capability is lost when it is
carried nowhere. That happens when the receiver's table is full, when the legacy `recv`
takes a message without looking at its handles, and when a channel ends with handles in
its queue, whose objects nobody releases.
-/

namespace ViperDos.Ipc

open CapTable Rings Transition Function

variable {n i pid slot other size maxHandles channel position : Nat} {g h : Handle} {t : Table}
  {handles others : List Handle} {e : Entry} {rest chain : List UInt32}
  {ths : List TransferredHandle} {bound : UInt32} {k after s : Kernel} {label : Label} {x y : Place}
  {moves : Place → Place → Prop} {c d : TransferredHandle} {v w : Viper} {data bytes : List UInt8}
  {chs channels : Channels} {isSend : Bool} {endpoints endpoint : UInt8} {ch : Channel}
  {received : Received} {outcome : Outcome} {history : List (Label × Kernel)}

theorem nodup_position {Item : Type} {list : List Item} (noDup : list.Nodup) {m : Nat} {item : Item}
    (first : list[n]? = some item) (second : list[m]? = some item) : n = m := by
  obtain ⟨_, atN⟩ := List.getElem?_eq_some_iff.mp first
  obtain ⟨_, atM⟩ := List.getElem?_eq_some_iff.mp second
  exact (List.Nodup.getElem_inj_iff noDup).mp (atN.trans atM.symm)

theorem get_remove_other (away : (handleIndex g).toNat ≠ (handleIndex h).toNat) :
    get (remove t h) g = get t g := by
  by_cases removable : Removable t h
  · rw [remove_released removable]
    unfold CapTable.get getUnlocked
    rw [releaseSlot_other away]
    rfl
  · rw [remove_refused removable]

theorem taken_given (given : g ∈ handles) (got : get t g = some e)
    (movable : hasRights e.rights capTransfer = true) :
    (handleIndex g).toNat ∈ takenSlots handles t := by
  induction handles generalizing t with
  | nil => cases given
  | cons h rest ih =>
    by_cases same : h = g
    · subst h
      simp [takenSlots, got, movable]
    have inRest : g ∈ rest := (List.mem_cons.mp given).resolve_left fun eq => same eq.symm
    simp only [takenSlots]
    split
    · exact ih inRest got
    split
    · exact ih inRest got
    · by_cases here : (handleIndex g).toNat = (handleIndex h).toNat
      · exact List.mem_cons.mpr (.inl here)
      · exact .tail _ (ih inRest ((get_remove_other here).trans got))

def HasRoom (t : Table) (n : Nat) : Prop := ∃ chain, FreeList t chain ∧ n ≤ chain.length

theorem head_open {head : UInt32} (valid : WellFormed t) (free : FreeList t (head :: rest)) :
    t.freeHead = head ∧ t.freeHead ≠ freeEnd := by
  have atHead : t.freeHead = head := free.linked.1
  refine ⟨atHead, ?_⟩
  rw [atHead]
  rintro rfl
  have bound := (free.vacant freeEnd (.head _)).1
  have small := valid.admissible.2
  have top : freeEnd.toNat = 2 ^ 32 - 1 := rfl
  omega

/-- With room for all of them, the handles of a message get the first slots of the free
list, one each. -/
theorem giveHandles_exact (valid : WellFormed t) (free : FreeList t chain)
    (room : ths.length ≤ chain.length) (proper : ∀ th ∈ ths, th.kind ≠ .invalid) :
    (giveHandles bound ths t).1.map handleIndex = chain.take ths.length ∧
      (∀ h ∈ (giveHandles bound ths t).1, h ≠ handleInvalid) ∧
      (∀ (n : Nat) (i : UInt32) (th : TransferredHandle), chain[n]? = some i → ths[n]? = some th →
        tableCap (giveHandles bound ths t).2 i.toNat =
          some { th with rights := th.rights &&& bound }) ∧
      ∀ j, (∀ i ∈ chain.take ths.length, i.toNat ≠ j) →
        tableCap (giveHandles bound ths t).2 j = tableCap t j := by
  induction ths generalizing t chain with
  | nil => simp [giveHandles]
  | cons th rest ih =>
    cases chain with
    | nil => simp at room
    | cons head tail =>
      obtain ⟨atHead, vacancy⟩ := head_open valid free
      have small := valid.admissible.2
      have inside := (free.vacant head (.head _)).1
      have inserted : insertBounded t th.object th.kind th.rights bound =
          takeSlot t th.object th.kind (th.rights &&& bound) noParent := by
        simp [insertBounded, CapTable.insert, vacancy]
      have handle : (takeSlot t th.object th.kind (th.rights &&& bound) noParent).2 =
          makeHandle head (t.entries head.toNat).generation := by
        simp [takeSlot, atHead]
      have kind := proper th (.head _)
      have caps := tableCap_takeSlot valid vacancy th.object kind (th.rights &&& bound) noParent
      rw [atHead] at caps
      obtain ⟨indices, handles, placed, others⟩ := ih
        (takeSlot_wellformed valid vacancy th.object th.kind (th.rights &&& bound) noParent)
        (takeSlot_free free _ _ _ _) (Nat.le_of_succ_le_succ room)
        (fun other member => proper other (List.mem_cons_of_mem th member))
      obtain ⟨fresh, _⟩ := List.nodup_cons.mp free.noDup
      simp only [giveHandles, inserted]
      refine ⟨?_, ?_, ?_, ?_⟩
      · rw [List.map_cons, handle, handleIndex_makeHandle _ (by omega), indices]
        rfl
      · intro h member
        rcases List.mem_cons.mp member with rfl | later
        · rw [handle]
          exact makeHandle_ne_invalid _ (by omega)
        · exact handles h later
      · intro n i other atN thAt
        cases n with
        | zero =>
          cases atN
          cases thAt
          rw [others head.toNat ?_, caps, if_pos rfl]
          intro i member same
          rw [UInt32.toNat_inj.mp same] at member
          exact fresh (List.mem_of_mem_take member)
        | succ n => exact placed n i other atN thAt
      · intro j away
        rw [others j fun i member => away i (List.mem_cons_of_mem head member), caps,
          if_neg fun same => away head (.head _) same.symm]

/-- Where a capability goes in a step: it stays, a send moves it to a place in the new
message, or a receive moves it to the slot of the handle it got. -/
inductive Carry (k : Kernel) (label : Label) (after : Kernel) : Place → Place → Prop where
  | stays {x : Place} {c d : TransferredHandle} (before : capAt k x = some c)
      (still : capAt after x = some d) : Carry k label after x x
  | sent {v : Viper} {h : Handle} {data : List UInt8} {handles : List Handle} {slot n i : Nat}
      (call : label.call = .channelSend h data handles) (running : k.vipers label.pid = some v)
      (sends : Sends k label.pid v data handles slot after)
      (taken : (takenSlots handles v.capTable)[n]? = some i) :
      Carry k label after (.slot label.pid i)
        (.queued slot (k.channels.slots slot).ring.writeIdx n)
  | received {v : Viper} {h got : Handle} {size maxHandles slot n : Nat}
      {c : TransferredHandle}
      (call : label.call = .channelRecv h size maxHandles) (running : k.vipers label.pid = some v)
      (receives : Receives k label.pid v slot after)
      (waiting : (k.channels.slots slot).ring.front.handles[n]? = some c)
      (given : (giveHandles v.capBoundingSet (k.channels.slots slot).ring.front.handles
        v.capTable).1[n]? = some got)
      (valid : got ≠ handleInvalid) :
      Carry k label after (.queued slot (k.channels.slots slot).ring.readIdx n)
        (.slot label.pid (handleIndex got).toNat)

def Closes (k : Kernel) (label : Label) (x : Place) : Prop :=
  ∃ v h e, k.vipers label.pid = some v ∧ label.call = .channelClose h ∧
    getChecked v.capTable h .channel = some e ∧ x = .slot label.pid (handleIndex h).toNat

theorem not_closes (other : ∀ h, label.call ≠ .channelClose h) : ¬ Closes k label x :=
  fun ⟨_, h, _, _, call, _⟩ => other h call

/-- One step of transfer loses and doubles nothing: every capability but a closed one is
carried to exactly one place, where the same object is named; no two are carried to one
place; one that moves leaves its place empty and comes to an empty one; and an accepted
send takes every handle that may be transferred. -/
structure Conserves (k : Kernel) (label : Label) (after : Kernel) : Prop where
  kept : ∀ x c, capAt k x = some c → Closes k label x ∧ capAt after x = none ∨
    ¬ Closes k label x ∧ ∃ y, Carry k label after x y ∧
      (∀ z, Carry k label after x z → z = y) ∧
      ∃ d, capAt after y = some d ∧ d.object = c.object ∧ d.kind = c.kind
  apart : ∀ x w y, Carry k label after x y → Carry k label after w y → x = w
  moved : ∀ x y, Carry k label after x y → x ≠ y → capAt after x = none ∧ capAt k y = none
  accepted : ∀ v h data handles slot, k.vipers label.pid = some v →
    label.call = .channelSend h data handles → Sends k label.pid v data handles slot after →
      ∀ g ∈ handles, ∀ e, get v.capTable g = some e → hasRights e.rights capTransfer = true →
        ∃ n, Carry k label after (.slot label.pid (handleIndex g).toNat)
          (.queued slot (k.channels.slots slot).ring.writeIdx n)

/-- A step along a relation of places that is one to one: what it relates moves from a held
place to an empty one, and what it does not relate stays or is closed. -/
structure Relocates (k : Kernel) (label : Label) (after : Kernel) (moves : Place → Place → Prop) :
    Prop where
  carried : ∀ x y, Carry k label after x y →
    x = y ∧ capAt k x ≠ none ∧ capAt after x ≠ none ∨ moves x y
  one : ∀ x y z, moves x y → moves x z → y = z
  apart : ∀ x w y, moves x y → moves w y → x = w
  emptied : ∀ x y, moves x y → capAt after x = none ∧ capAt k y = none
  arrives : ∀ x y c, capAt k x = some c → moves x y → ¬ Closes k label x ∧
    Carry k label after x y ∧ ∃ d, capAt after y = some d ∧ d.object = c.object ∧ d.kind = c.kind
  stays : ∀ x c, capAt k x = some c → (∀ y, ¬ moves x y) →
    Closes k label x ∧ capAt after x = none ∨ ¬ Closes k label x ∧ capAt after x = some c
  accepted : ∀ v h data handles slot, k.vipers label.pid = some v →
    label.call = .channelSend h data handles → Sends k label.pid v data handles slot after →
      ∀ g ∈ handles, ∀ e, get v.capTable g = some e → hasRights e.rights capTransfer = true →
        ∃ n, Carry k label after (.slot label.pid (handleIndex g).toNat)
          (.queued slot (k.channels.slots slot).ring.writeIdx n)

theorem Relocates.conserves (step : Relocates k label after moves) : Conserves k label after := by
  constructor
  case kept =>
    intro x c before
    by_cases goes : ∃ y, moves x y
    · obtain ⟨y, move⟩ := goes
      obtain ⟨open', carry, arrived⟩ := step.arrives x y c before move
      refine .inr ⟨open', y, carry, fun z other => ?_, arrived⟩
      rcases step.carried x z other with ⟨_, _, still⟩ | again
      · exact absurd (step.emptied x y move).1 still
      · exact step.one x z y again move
    rw [not_exists] at goes
    refine (step.stays x c before goes).imp_right fun ⟨open', still⟩ => ?_
    refine ⟨open', x, .stays before still, fun z other => ?_, c, still, rfl, rfl⟩
    rcases step.carried x z other with ⟨same, _⟩ | move
    · exact same.symm
    · exact absurd move (goes z)
  case apart =>
    intro x w y first second
    rcases step.carried x y first with ⟨rfl, held, _⟩ | move
    · rcases step.carried w x second with ⟨same, _⟩ | other
      · exact same.symm
      · exact absurd (step.emptied w x other).2 held
    rcases step.carried w y second with ⟨rfl, held, _⟩ | other
    · exact absurd (step.emptied x w move).2 held
    · exact step.apart x w y move other
  case moved =>
    intro x y carry different
    rcases step.carried x y carry with ⟨same, _⟩ | move
    · exact absurd same different
    · exact step.emptied x y move
  case accepted => exact step.accepted

theorem stays_held (before : capAt k x = some c) (still : capAt after x = some d) :
    x = x ∧ capAt k x ≠ none ∧ capAt after x ≠ none := by
  simp [before, still]

theorem staying_conserves
    (sends : ∀ v h data handles slot, label.call = .channelSend h data handles →
      ¬ Sends k label.pid v data handles slot after)
    (receives : ∀ v h size maxHandles slot, label.call = .channelRecv h size maxHandles →
      ¬ Receives k label.pid v slot after)
    (stays : ∀ x c, capAt k x = some c → Closes k label x ∧ capAt after x = none ∨
      ¬ Closes k label x ∧ capAt after x = some c) : Conserves k label after := by
  apply @Relocates.conserves k after label fun _ _ => False
  refine ⟨?_, fun _ _ _ => False.elim, fun _ _ _ => False.elim, fun _ _ => False.elim,
    fun _ _ _ _ => False.elim, fun x c before _ => stays x c before, ?_⟩
  · intro x y carry
    cases carry with
    | stays before still => exact .inl (stays_held before still)
    | sent call _ sent _ => exact absurd sent (sends _ _ _ _ _ call)
    | received call _ received _ _ _ => exact absurd received (receives _ _ _ _ _ call)
  · intro v h data handles slot _ call sent
    exact absurd sent (sends _ _ _ _ _ call)

theorem taken_message (taken : (takenSlots handles t)[n]? = some i) :
    (takeHandles handles t).1[n]? = tableCap t i := by
  have moved := congrArg (fun list => list[n]?) (takeHandles_exact handles t).2.2
  simp only [List.getElem?_map, taken, Option.map_some] at moved
  cases atN : (takeHandles handles t).1[n]? with
  | none => simp [atN] at moved
  | some th => simpa [atN] using moved

theorem sends_count (sends : Sends k pid v data handles slot after) :
    (after.channels.slots slot).ring.count = (k.channels.slots slot).ring.count + 1 := by
  rw [sends.result]
  simp [setTable, setViper, putChannel, setSlot, pushMessage, Ring.push]

theorem sends_slot (first : Sends k pid v data handles slot after)
    (second : Sends k pid w bytes others other after) : slot = other := by
  by_contra different
  have filled := sends_count first
  rw [second.result] at filled
  simp [setTable, setViper, putChannel, setSlot, different] at filled

theorem writer_empty (sane : Sane k) (sends : Sends k pid v data handles slot after) (n : Nat) :
    capAt k (.queued slot (k.channels.slots slot).ring.writeIdx n) = none := by
  have within := Nat.lt_of_lt_of_le sends.room (sane.channels slot).capacity
  exact if_neg fun held => Ring.writer_vacant (sane.channels slot).ring within held.2

theorem sends_conserves (sane : Sane k) (running : k.vipers pid = some v)
    (sends : Sends k pid v data handles slot after) :
    Conserves k ⟨pid, .channelSend h data handles⟩ after := by
  have afterward := sends_capAt sane running sends
  apply @Relocates.conserves k after _ fun x y => ∃ (n i : Nat),
    (takenSlots handles v.capTable)[n]? = some i ∧ x = .slot pid i ∧
      y = .queued slot (k.channels.slots slot).ring.writeIdx n
  constructor
  case carried =>
    intro x y carry
    cases carry with
    | stays before still => exact .inl (stays_held before still)
    | sent call present other taken =>
      cases call
      rw [running] at present
      cases present
      cases sends_slot sends other
      exact .inr ⟨_, _, taken, rfl, rfl⟩
    | received call _ _ _ _ _ => cases call
  case one =>
    rintro _ _ _ ⟨n, i, taken, rfl, rfl⟩ ⟨m, j, again, same, rfl⟩
    cases same
    rw [nodup_position (takeHandles_exact handles v.capTable).1 taken again]
  case apart =>
    rintro _ _ _ ⟨n, i, taken, rfl, rfl⟩ ⟨m, j, again, rfl, same⟩
    cases same
    rw [Option.some.inj (taken.symm.trans again)]
  case emptied =>
    rintro _ _ ⟨n, i, taken, rfl, rfl⟩
    rw [afterward]
    exact ⟨if_pos ⟨rfl, List.mem_of_getElem? taken⟩, writer_empty sane sends n⟩
  case arrives =>
    rintro _ _ c before ⟨n, i, taken, rfl, rfl⟩
    refine ⟨not_closes (by simp), .sent rfl running sends taken, c, ?_, rfl, rfl⟩
    rw [afterward]
    simp only [and_self, if_true]
    rw [taken_message taken, ← capAt_slot running]
    exact before
  case stays =>
    intro x c before still
    refine .inr ⟨not_closes (by simp), ?_⟩
    rw [afterward, ← before]
    cases x with
    | slot p i =>
      refine if_neg ?_
      rintro ⟨rfl, member⟩
      obtain ⟨n, taken⟩ := List.mem_iff_getElem?.mp member
      exact still _ ⟨n, i, taken, rfl, rfl⟩
    | queued channel position n =>
      refine if_neg ?_
      rintro ⟨rfl, rfl⟩
      rw [writer_empty sane sends] at before
      cases before
  case accepted =>
    intro w g bytes others other present call again f given e got movable
    cases call
    rw [running] at present
    cases present
    obtain ⟨n, taken⟩ := List.mem_iff_getElem?.mp (taken_given given got movable)
    exact ⟨n, .sent rfl running again taken⟩

theorem receives_capAt (sane : Sane k) (receives : Receives k pid v slot after) (x : Place) :
    capAt after x = match x with
      | .slot p i =>
        if p = pid then
          tableCap (giveHandles v.capBoundingSet (k.channels.slots slot).ring.front.handles
            v.capTable).2 i
        else capAt k (.slot p i)
      | .queued channel position n =>
        if channel = slot ∧ position = (k.channels.slots slot).ring.readIdx then none
        else capAt k (.queued channel position n) := by
  obtain ⟨opened, filled, rfl⟩ := receives
  cases x with
  | slot p i =>
    by_cases same : p = pid
    · subst p
      simp [capAt, setTable, setViper]
    · simp [capAt, setTable, setViper, putChannel, same]
  | queued channel position n =>
    change queuedCap (setSlot _ slot _) channel position n = _
    by_cases here : channel = slot
    · subst channel
      rw [queuedCap_pop sane.channels filled]
      simp [capAt]
    · rw [queuedCap_setSlot_other _ _ here]
      simp [capAt, here]

theorem receives_count (receives : Receives k pid v slot after) :
    (after.channels.slots slot).ring.count + 1 = (k.channels.slots slot).ring.count := by
  rw [receives.result]
  simpa [setTable, setViper, putChannel, setSlot, popMessage, Ring.pop]
    using Nat.sub_add_cancel receives.filled

theorem receives_slot (first : Receives k pid v slot after)
    (second : Receives k pid w other after) : slot = other := by
  by_contra different
  have emptied := receives_count first
  rw [second.result] at emptied
  simp [setTable, setViper, putChannel, setSlot, different] at emptied

/-- With room for every handle, a receive moves one to each of the first slots of the free
list. -/
theorem receives_conserves (sane : Sane k) (running : k.vipers pid = some v)
    (receives : Receives k pid v slot after)
    (room : HasRoom v.capTable (k.channels.slots slot).ring.front.handles.length) :
    Conserves k ⟨pid, .channelRecv h size maxHandles⟩ after := by
  obtain ⟨chain, free, enough⟩ := room
  obtain ⟨indices, handles, placed, others⟩ := @giveHandles_exact v.capTable
    chain (k.channels.slots slot).ring.front.handles v.capBoundingSet (sane.tables pid v running) free
    enough (front_kinds sane receives.opened receives.filled)
  have afterward := receives_capAt sane receives
  -- the handle given to the one in place `n` names slot `n` of the free list
  have index : ∀ n : Nat, n < (k.channels.slots slot).ring.front.handles.length →
      ((giveHandles v.capBoundingSet (k.channels.slots slot).ring.front.handles
        v.capTable).1[n]?).map handleIndex = chain[n]? := by
    intro n inside
    rw [← List.getElem?_map, indices, List.getElem?_take_of_lt inside]
  have vacant : ∀ (n : Nat) (i : UInt32), chain[n]? = some i →
      capAt k (.slot pid i.toNat) = none := by
    intro n i atN
    rw [capAt_slot running]
    exact if_neg fun live => live.2 (free.vacant i (List.mem_of_getElem? atN)).2
  apply @Relocates.conserves k after _ fun x y => ∃ (n : Nat) (i : UInt32),
    n < (k.channels.slots slot).ring.front.handles.length ∧ chain[n]? = some i ∧
      x = .queued slot (k.channels.slots slot).ring.readIdx n ∧ y = .slot pid i.toNat
  constructor
  case carried =>
    intro x y carry
    cases carry with
    | stays before still => exact .inl (stays_held before still)
    | sent call _ _ _ => cases call
    | @received w g got _ _ other n c call present again waiting given accepted =>
      cases call
      rw [running] at present
      cases present
      cases receives_slot receives again
      obtain ⟨inside, _⟩ := List.getElem?_eq_some_iff.mp waiting
      have atN := index n inside
      rw [given] at atN
      exact .inr ⟨n, handleIndex got, inside, atN.symm, rfl, rfl⟩
  case one =>
    rintro _ _ _ ⟨n, i, _, atN, rfl, rfl⟩ ⟨m, j, _, atM, same, rfl⟩
    cases same
    rw [Option.some.inj (atN.symm.trans atM)]
  case apart =>
    rintro _ _ _ ⟨n, i, _, atN, rfl, rfl⟩ ⟨m, j, _, atM, rfl, same⟩
    simp only [Place.slot.injEq, true_and] at same
    rw [UInt32.toNat_inj.mp same] at atN
    rw [nodup_position free.noDup atN atM]
  case emptied =>
    rintro _ _ ⟨n, i, _, atN, rfl, rfl⟩
    rw [afterward]
    exact ⟨if_pos ⟨rfl, rfl⟩, vacant n i atN⟩
  case arrives =>
    rintro _ _ c before ⟨n, i, inside, atN, rfl, rfl⟩
    have waiting : (k.channels.slots slot).ring.front.handles[n]? = some c :=
      (queuedCap_front sane.channels receives.opened receives.filled n).symm.trans before
    have named := index n inside
    rw [atN] at named
    obtain ⟨got, given, rfl⟩ := Option.map_eq_some_iff.mp named
    refine ⟨not_closes (by simp), .received rfl running receives waiting given
      (handles got (List.mem_of_getElem? given)),
      { c with rights := c.rights &&& v.capBoundingSet }, ?_, rfl, rfl⟩
    rw [afterward]
    simp only [if_true]
    exact placed n _ c atN waiting
  case stays =>
    intro x c before still
    refine .inr ⟨not_closes (by simp), ?_⟩
    rw [afterward, ← before]
    cases x with
    | slot p i =>
      by_cases same : p = pid
      · subst p
        simp only [if_true]
        rw [others i, capAt_slot running]
        intro j member sameSlot
        obtain ⟨n, atN⟩ := List.mem_iff_getElem?.mp (List.mem_of_mem_take member)
        have empty := vacant n j atN
        rw [sameSlot, before] at empty
        cases empty
      · exact if_neg same
    | queued channel position n =>
      refine if_neg ?_
      rintro ⟨rfl, rfl⟩
      have waiting : (k.channels.slots channel).ring.front.handles[n]? = some c :=
        (queuedCap_front sane.channels receives.opened receives.filled n).symm.trans before
      obtain ⟨inside, _⟩ := List.getElem?_eq_some_iff.mp waiting
      have reach : n < chain.length := Nat.lt_of_lt_of_le inside enough
      exact still _ ⟨n, chain[n], inside, List.getElem?_eq_getElem reach, rfl, rfl⟩
  case accepted =>
    intro _ _ _ _ _ _ call
    cases call

-- Closing

def NoHandles (chs : Channels) (slot : Nat) : Prop :=
  ∀ position n, queuedCap chs slot position n = none

/-- A channel that a closed object with these endpoints does not leave without
references. -/
def Referenced (ch : Channel) (endpoints : UInt8) : Prop :=
  1 < ch.sendRefs ∨ endpoints &&& endpointSend = 0 ∧ 0 < ch.sendRefs ∨
    1 < ch.recvRefs ∨ endpoints &&& endpointRecv = 0 ∧ 0 < ch.recvRefs

def Spared (chs : Channels) (id : UInt32) (endpoints : UInt8) : Prop :=
  ∀ slot, (chs.slots slot).id = id → (chs.slots slot).state = .opened →
    NoHandles chs slot ∨ Referenced (chs.slots slot) endpoints

theorem dropRef_toNat (refs : UInt32) : (dropRef refs).toNat = refs.toNat - 1 := by
  unfold dropRef
  split
  next some =>
    have positive : 1 ≤ refs := UInt32.le_iff_toNat_le.mpr (UInt32.lt_iff_toNat_lt.mp some)
    rw [UInt32.toNat_sub_of_le _ _ positive]
    rfl
  next none =>
    have zero : ¬ 0 < refs.toNat := fun positive => none (UInt32.lt_iff_toNat_lt.mpr positive)
    omega

def Unreferenced (ch : Channel) : Prop := ch.sendRefs = 0 ∧ ch.recvRefs = 0

theorem unreferenced_toNat (ch : Channel) :
    Unreferenced ch ↔ ch.sendRefs.toNat = 0 ∧ ch.recvRefs.toNat = 0 := by
  unfold Unreferenced
  rw [← UInt32.toNat_inj, ← UInt32.toNat_inj]
  rfl

theorem referenced_toNat (ch : Channel) (endpoints : UInt8) : Referenced ch endpoints ↔
      1 < ch.sendRefs.toNat ∨ endpoints &&& endpointSend = 0 ∧ 0 < ch.sendRefs.toNat ∨
        1 < ch.recvRefs.toNat ∨ endpoints &&& endpointRecv = 0 ∧ 0 < ch.recvRefs.toNat := by
  rfl

variable {id : UInt32}

theorem closeEndpointById_keeps {after : Channels}
    (closed : closeEndpointById chs id isSend = .ok after)
    (spared : ∀ slot, findChannelById chs id = some slot →
      NoHandles chs slot ∨ ¬ Unreferenced (dropEndpoint (chs.slots slot) isSend))
    (channel position n : Nat) :
    queuedCap after channel position n = queuedCap chs channel position n := by
  unfold closeEndpointById at closed
  split at closed
  · cases closed
  next slot found =>
  obtain ⟨ring, state, _⟩ := dropEndpoint_ring (chs.slots slot) isSend
  simp only at closed
  by_cases here : channel = slot
  · subst channel
    split at closed
    next gone =>
      cases closed
      rcases spared slot found with empty | referenced
      · rw [empty position n]
        simp [queuedCap, setSlot, shutDown]
      · exact absurd gone referenced
    · cases closed
      simp [queuedCap, setSlot, ring, state]
  · split at closed <;>
    · cases closed
      exact queuedCap_setSlot_other _ _ here _ _

/-- What an endpoint's close does to the slots: one of them loses a reference, or is
freed. -/
theorem closeEndpointById_slots {after : Channels}
    (closed : closeEndpointById chs id isSend = .ok after)
    (still : (after.slots slot).state = .opened) :
    after.slots slot = chs.slots slot ∨
      after.slots slot = dropEndpoint (chs.slots slot) isSend := by
  unfold closeEndpointById at closed
  split at closed
  · cases closed
  next freed found =>
  simp only at closed
  by_cases here : slot = freed
  · subst freed
    split at closed
    · cases closed
      simp [setSlot, shutDown] at still
    · cases closed
      simp [setSlot]
  · split at closed <;>
    · cases closed
      left
      simp [setSlot, here]

theorem findChannelById_id
    (found : findChannelById chs id = some slot) : (chs.slots slot).id = id := by
  have matched := List.find?_some found
  simp only [decide_eq_true_eq] at matched
  exact matched.1

section Dropping

theorem dropOwned_keeps
    (spared : endpoints &&& endpoint ≠ 0 → ∀ slot, findChannelById chs id = some slot →
      NoHandles chs slot ∨ ¬ Unreferenced (dropEndpoint (chs.slots slot) isSend))
    (channel position n : Nat) :
    queuedCap (dropOwned chs id endpoints endpoint isSend) channel position n =
      queuedCap chs channel position n := by
  unfold dropOwned
  split
  next owned =>
    split
    next closed => exact closeEndpointById_keeps closed (spared owned) channel position n
    · rfl
  · rfl

theorem dropOwned_slots
    (still : ((dropOwned chs id endpoints endpoint isSend).slots slot).state = .opened) :
    (dropOwned chs id endpoints endpoint isSend).slots slot = chs.slots slot ∨
      endpoints &&& endpoint ≠ 0 ∧ (dropOwned chs id endpoints endpoint isSend).slots slot =
          dropEndpoint (chs.slots slot) isSend := by
  unfold dropOwned at still ⊢
  by_cases owned : endpoints &&& endpoint ≠ 0
  · rw [if_pos owned] at still ⊢
    cases closed : closeEndpointById chs id isSend with
    | error error => exact .inl rfl
    | ok after =>
      simp only [closed] at still
      exact (closeEndpointById_slots closed still).imp_right fun same => ⟨owned, same⟩
  · rw [if_neg owned]
    exact .inl rfl

end Dropping

theorem referenced_send (referenced : Referenced ch endpoints)
    (owned : endpoints &&& endpointSend ≠ 0) : ¬ Unreferenced (dropEndpoint ch true) := by
  rw [referenced_toNat] at referenced
  rw [unreferenced_toNat]
  simp only [dropEndpoint, if_true, dropRef_toNat]
  rintro ⟨senders, receivers⟩
  rcases referenced with more | ⟨other, _⟩ | more | ⟨_, more⟩
  · omega
  · exact owned other
  · omega
  · omega

/-- The second endpoint of an object goes after the first one has gone. -/
theorem referenced_recv {rest : Channel} (referenced : Referenced ch endpoints)
    (owned : endpoints &&& endpointRecv ≠ 0)
    (dropped : rest = ch ∨ endpoints &&& endpointSend ≠ 0 ∧ rest = dropEndpoint ch true) :
    ¬ Unreferenced (dropEndpoint rest false) := by
  rw [referenced_toNat] at referenced
  rw [unreferenced_toNat]
  rcases dropped with rfl | ⟨sender, rfl⟩
  · simp only [dropEndpoint, Bool.false_eq_true, if_false, dropRef_toNat]
    rintro ⟨senders, receivers⟩
    rcases referenced with more | ⟨_, more⟩ | more | ⟨other, _⟩
    · omega
    · omega
    · omega
    · exact owned other
  · simp only [dropEndpoint, Bool.false_eq_true, if_false, if_true, dropRef_toNat]
    rintro ⟨senders, receivers⟩
    rcases referenced with more | ⟨other, _⟩ | more | ⟨other, _⟩
    · omega
    · exact sender other
    · omega
    · exact owned other

theorem closeEndpoints_keeps (spared : Spared chs id endpoints) (channel position n : Nat) :
    queuedCap (closeEndpoints chs id endpoints) channel position n =
      queuedCap chs channel position n := by
  unfold closeEndpoints
  split
  · have first : ∀ channel position n,
        queuedCap (dropOwned chs id endpoints endpointSend true) channel position n =
          queuedCap chs channel position n := by
      apply dropOwned_keeps
      intro owned slot found
      exact (spared slot (findChannelById_id found) (findChannelById_opened found)).imp_right
        fun referenced => referenced_send referenced owned
    rw [dropOwned_keeps, first]
    intro owned slot found
    have dropped := dropOwned_slots (findChannelById_opened found)
    have same : (chs.slots slot).id = id ∧ (chs.slots slot).state = .opened := by
      have here := And.intro (findChannelById_id found) (findChannelById_opened found)
      rcases dropped with unchanged | ⟨_, lost⟩
      · rwa [unchanged] at here
      · rw [lost] at here
        exact here
    rcases spared slot same.1 same.2 with empty | referenced
    · left
      intro position n
      rw [first, empty]
    · exact .inr (referenced_recv referenced owned dropped)
  · rfl

-- One step

def TransferCall : Call → Prop
  | .channelSend _ _ _ | .channelRecv _ _ _ | .channelClose _ => True
  | .legacySend _ _ | .legacyRecv _ _ | .legacyClose _ => True
  | _ => False

def TransferStep (k : Kernel) (label : Label) (after : Kernel) : Prop :=
  TransferCall label.call ∧ Step k label after

/-- What a call must find in order to lose nothing: room in the receiver's table for the
handles of the message, and no handles in a queue that ends or whose front is taken by the
legacy `recv`. -/
def Spares (k : Kernel) (label : Label) : Prop :=
  match label.call with
  | .channelRecv h _ _ =>
    ∀ v slot, k.vipers label.pid = some v → target k v h capRead = some slot →
      0 < (k.channels.slots slot).ring.count →
      HasRoom v.capTable (k.channels.slots slot).ring.front.handles.length
  | .channelClose h =>
    ∀ v e id endpoints, k.vipers label.pid = some v →
      getChecked v.capTable h .channel = some e →
      k.objects e.object = some (.channel id endpoints) → Spared k.channels id endpoints
  | .legacyRecv id _ =>
    ∀ slot, findChannelById k.channels id = some slot →
      0 < (k.channels.slots slot).ring.count → (k.channels.slots slot).ring.front.handles = []
  | .legacyClose id =>
    ∀ slot, findChannelById k.channels id = some slot → NoHandles k.channels slot
  | _ => True

theorem unchanged_conserves (opened : ∀ x, ¬ Closes k label x) : Conserves k label k :=
  staying_conserves (fun _ _ _ _ _ _ sends => absurd (sends_count sends) (Nat.succ_ne_self _).symm)
    (fun _ _ _ _ _ _ receives => absurd (receives_count receives) (Nat.succ_ne_self _))
    fun x _ before => .inr ⟨opened x, before⟩

section Calls

theorem send_sends (running : k.vipers pid = some v)
    (sent : send k.channels id data = .ok channels) :
    ∃ slot, Sends k pid v data [] slot { k with channels } := by
  unfold send at sent
  split at sent
  · cases sent
  split at sent
  · cases sent
  next slot found =>
  split at sent
  next room =>
    cases sent
    refine ⟨slot, findChannelById_opened found, room, ?_⟩
    simp [takeHandles, setTable, setViper, putChannel, ← running]
  · cases sent

theorem recv_receives (running : k.vipers pid = some v)
    (empty : ∀ slot, findChannelById k.channels id = some slot →
      0 < (k.channels.slots slot).ring.count → (k.channels.slots slot).ring.front.handles = [])
    (taken : recv k.channels id size = .ok (received, channels)) :
    ∃ slot, (k.channels.slots slot).ring.front.handles = [] ∧
      Receives k pid v slot { k with channels } := by
  unfold recv at taken
  split at taken
  · cases taken
  next slot found =>
  simp only at taken
  split at taken
  next filled =>
    cases taken
    have none := empty slot found filled
    refine ⟨slot, none, findChannelById_opened found, filled, ?_⟩
    simp [none, giveHandles, setTable, setViper, putChannel, ← running]
  · cases taken

theorem close_keeps
    (empty : ∀ slot, findChannelById k.channels id = some slot → NoHandles k.channels slot)
    (closed : close k.channels id = .ok channels)
    (before : queuedCap k.channels channel position n = some c) :
    queuedCap channels channel position n = some c := by
  unfold close at closed
  split at closed
  · cases closed
  next slot found =>
  cases closed
  have other : channel ≠ slot := by
    rintro rfl
    rw [empty channel found] at before
    cases before
  rw [queuedCap_setSlot_other _ _ other]
  exact before

theorem sysChannelClose_conserves (running : k.vipers pid = some v)
    (spares : Spares k ⟨pid, .channelClose h⟩)
    (performed : sysChannelClose k pid v h = some (outcome, after)) :
    Conserves k ⟨pid, .channelClose h⟩ after := by
  unfold sysChannelClose at performed
  split at performed
  next refused =>
    cases performed
    apply unchanged_conserves
    rintro x ⟨w, g, e, present, call, got, _⟩
    cases call
    rw [running] at present
    cases present
    rw [refused] at got
    cases got
  next e got =>
  obtain ⟨id, named, made⟩ := Option.map_eq_some_iff.mp performed
  cases made
  obtain ⟨endpoints, object⟩ :
      ∃ endpoints, k.objects e.object = some (.channel id endpoints) := by
    unfold channelOf at named
    split at named
    next found =>
      cases named
      exact ⟨_, found⟩
    · cases named
  have spared := spares v e id endpoints running got object
  have gone : deleteObject k e.object = { k with
        channels := closeEndpoints k.channels id endpoints
        objects := update k.objects e.object none } := by
    simp [deleteObject, object]
  have valid := (getChecked_cap got).1
  have closing : ∀ x, Closes k ⟨pid, .channelClose h⟩ x ↔
      x = .slot pid (handleIndex h).toNat := by
    intro x
    constructor
    · rintro ⟨_, _, _, _, call, _, here⟩
      cases call
      exact here
    · intro here
      exact ⟨v, h, e, running, rfl, got, here⟩
  rw [gone]
  apply staying_conserves (by simp) (by simp)
  intro x c before
  rw [closing]
  cases x with
  | slot p i =>
    by_cases same : p = pid
    · subst p
      simp only [capAt, setTable, setViper, update_self, Option.bind_some,
        tableCap_remove _ valid, Place.slot.injEq, true_and]
      rw [capAt_slot running] at before
      by_cases here : i = (handleIndex h).toNat
      · simp [here]
      · simp [here, before]
    · right
      simp only [Place.slot.injEq, same, false_and, not_false_eq_true, true_and]
      simp only [capAt, setTable, setViper, update_of_ne same]
      exact before
  | queued channel position n =>
    right
    refine ⟨Place.noConfusion, ?_⟩
    exact (closeEndpoints_keeps spared channel position n).trans before

end Calls

theorem step_conserves (sane : Sane k) (spares : Spares k label)
    (step : TransferStep k label after) : Conserves k label after := by
  obtain ⟨pid, call⟩ := label
  obtain ⟨listed, _, v, running, performed⟩ := step
  -- only a close takes a capability out of its holder's table for good
  have opened : (∀ h, call ≠ .channelClose h) → ∀ x, ¬ Closes k ⟨pid, call⟩ x :=
    fun other _ => not_closes other
  cases call with
  | channelSend h data handles =>
    obtain ⟨outcome, performed⟩ := performed
    rcases sysChannelSend_cases performed with rfl | ⟨slot, sends⟩
    · exact unchanged_conserves (opened (by simp))
    · exact sends_conserves sane running sends
  | channelRecv h size maxHandles =>
    obtain ⟨outcome, performed⟩ := performed
    rcases sysChannelRecv_cases performed with rfl | ⟨slot, named, receives⟩
    · exact unchanged_conserves (opened (by simp))
    · exact receives_conserves sane running receives (spares v slot running named receives.filled)
  | channelClose h =>
    obtain ⟨outcome, performed⟩ := performed
    exact sysChannelClose_conserves running spares performed
  | legacySend id data =>
    simp only [Performs] at performed
    split at performed
    next channels sent =>
      subst after
      obtain ⟨slot, sends⟩ := send_sends running sent
      apply staying_conserves (by simp) (by simp)
      intro x c before
      refine .inr ⟨opened (by simp) x, ?_⟩
      rw [sends_capAt sane running sends, ← before]
      cases x with
      | slot p i => simp [takenSlots]
      | queued channel position n =>
        refine if_neg ?_
        rintro ⟨rfl, rfl⟩
        rw [writer_empty sane sends] at before
        cases before
    · subst after
      exact unchanged_conserves (opened (by simp))
  | legacyRecv id size =>
    simp only [Performs] at performed
    split at performed
    next received channels taken =>
      subst after
      obtain ⟨slot, empty, receives⟩ := recv_receives running spares taken
      apply staying_conserves (by simp) (by simp)
      intro x c before
      refine .inr ⟨opened (by simp) x, ?_⟩
      rw [receives_capAt sane receives, ← before]
      cases x with
      | slot p i =>
        refine ite_eq_right_iff.mpr ?_
        rintro rfl
        rw [empty, capAt_slot running]
        rfl
      | queued channel position n =>
        refine if_neg ?_
        rintro ⟨rfl, rfl⟩
        have front := queuedCap_front sane.channels receives.opened receives.filled n
        rw [empty] at front
        exact absurd (before.symm.trans front) (by simp)
    · subst after
      exact unchanged_conserves (opened (by simp))
  | legacyClose id =>
    simp only [Performs] at performed
    split at performed
    next channels closed =>
      subst after
      apply staying_conserves (by simp) (by simp)
      intro x c before
      refine .inr ⟨opened (by simp) x, ?_⟩
      cases x with
      | slot p i => exact before
      | queued channel position n => exact close_keeps spares closed before
    · subst after
      exact unchanged_conserves (opened (by simp))
  | _ => exact absurd listed id

-- Whole histories

inductive Followed : Kernel → List (Label × Kernel) → Place → Option Place → Prop where
  | here (k : Kernel) (x : Place) : Followed k [] x (some x)
  | closed {k after : Kernel} {label : Label} {rest : List (Label × Kernel)} {x : Place}
      (closes : Closes k label x) : Followed k ((label, after) :: rest) x none
  | moves {k after : Kernel} {label : Label} {rest : List (Label × Kernel)} {x y : Place}
      {fate : Option Place} (open' : ¬ Closes k label x) (carry : Carry k label after x y)
      (later : Followed after rest y fate) : Followed k ((label, after) :: rest) x fate

def ending (k : Kernel) : List (Label × Kernel) → Kernel
  | [] => k
  | (_, after) :: rest => ending after rest

/-- One fate for a capability, and the same object under its kind where it ends. -/
theorem conserved_fate (conserved : Trace Conserves s history) (held : capAt s x = some c) :
    ∃ fate, Followed s history x fate ∧ (∀ other, Followed s history x other → other = fate) ∧
      ∀ y, fate = some y →
        ∃ d, capAt (ending s history) y = some d ∧ d.object = c.object ∧ d.kind = c.kind := by
  induction history generalizing s x c with
  | nil =>
    refine ⟨some x, .here s x, ?_, ?_⟩
    · rintro other ⟨⟩
      rfl
    · rintro y ⟨⟩
      exact ⟨c, held, rfl, rfl⟩
  | cons head rest ih =>
    obtain ⟨first, tail⟩ := conserved
    rcases first.kept x c held with ⟨closes, _⟩ | ⟨open', y, carry, only, d, there, same⟩
    · refine ⟨none, .closed closes, ?_, by simp⟩
      intro other followed
      cases followed with
      | closed _ => rfl
      | moves open' _ _ => exact absurd closes open'
    · obtain ⟨fate, followed, unique, reached⟩ := ih tail there
      refine ⟨fate, .moves open' carry followed, ?_, ?_⟩
      · intro other again
        cases again with
        | closed closes => exact absurd closes open'
        | moves _ carried later =>
          rw [only _ carried] at later
          exact unique other later
      · intro z atEnd
        obtain ⟨e, held, object, kind⟩ := reached z atEnd
        exact ⟨e, held, object.trans same.1, kind.trans same.2⟩

theorem conserved_apart {w : Place} (conserved : Trace Conserves s history)
    (first : Followed s history x (some y)) (second : Followed s history w (some y)) : x = w := by
  induction history generalizing s x w with
  | nil =>
    cases first
    cases second
    rfl
  | cons head rest ih =>
    obtain ⟨step, tail⟩ := conserved
    cases first with
    | moves _ carry later =>
      cases second with
      | moves _ carried other =>
        rw [ih tail later other] at carry
        exact step.apart _ _ _ carry carried

theorem trace_conserves (sane : Sane s)
    (trace : Trace (Guarded Spares TransferStep) s history) : Trace Conserves s history := by
  induction history generalizing s with
  | nil => trivial
  | cons head rest ih =>
    obtain ⟨⟨spares, step⟩, tail⟩ := trace
    exact ⟨step_conserves sane spares step, ih (step_sane sane step.2) tail⟩

def twoChannels : Kernel := (sysChannelCreate channelMade 1 (viperOf channelMade 1)
  0x3000 0x4000).2

def handed : Kernel :=
  ((sysChannelSend twoChannels 1 (viperOf twoChannels 1) 1 [] [3]).map Prod.snd).getD twoChannels

def handedBack : Kernel :=
  ((sysChannelRecv handed 1 (viperOf handed 1) 2 0 1).map Prod.snd).getD handed

def handedClosed : Kernel :=
  ((sysChannelClose handed 1 (viperOf handed 1) 1).map Prod.snd).getD handed

def handedLost : Kernel :=
  ((sysChannelClose handedClosed 1 (viperOf handedClosed 1) 2).map Prod.snd).getD handedClosed

theorem twoChannels_reached : Run Step (boot [1] Assign.blank)
      [⟨1, .channelCreate 0x1000 0x2000⟩, ⟨1, .channelCreate 0x3000 0x4000⟩] twoChannels := by
  have facts : (channelMade.vipers 1).isSome ∧
      freshlyAddressed channelMade (.channelCreate 0x3000 0x4000) := by
    decide
  exact .next channelMade_step (.next (checked_step facts.1 facts.2 rfl) (.refl _))

theorem handed_step : Step twoChannels ⟨1, .channelSend 1 [] [3]⟩ handed := by
  have facts : (twoChannels.vipers 1).isSome ∧
      (sysChannelSend twoChannels 1 (viperOf twoChannels 1) 1 [] [3]).isSome := by
    decide
  exact checked_step facts.1 rfl (performed_some facts.2)

theorem hasRoom_one (valid : WellFormed t) (open' : t.freeHead ≠ freeEnd) : HasRoom t 1 := by
  obtain ⟨chain, free⟩ := valid.free
  cases chain with
  | nil => exact absurd free.linked open'
  | cons head rest => exact ⟨head :: rest, free, by simp⟩

end ViperDos.Ipc
