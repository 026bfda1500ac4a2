import ViperDos.CapHistory

/-!
Handles that outlive their capability. The generation of a slot grows by one
each time the slot is released, so a stale handle disagrees with whatever
occupies the slot later, until the counter has gone round. All lookups, `derive`
and `revoke` compare the generation; `remove` does not, so it accepts a stale
handle exactly when the slot is occupied.
-/

namespace ViperDos.CapTable

open Transition

inductive SlotStep (s after : History) (i : Nat) : Prop where
  | kept (live : Live after.table i ↔ Live s.table i)
      (generation : (after.table.entries i).generation = (s.table.entries i).generation)
      (taken : after.taken i = s.taken i)
  | filled (vacant : ¬ Live s.table i)
      (generation : (after.table.entries i).generation = (s.table.entries i).generation)
      (taken : after.taken i = s.taken i + 1)
  | released (live : Live s.table i) (vacant : ¬ Live after.table i)
      (generation : (after.table.entries i).generation = (s.table.entries i).generation + 1)
      (taken : after.taken i = s.taken i)

variable {t table : Table} {slots : List UInt32} {i base : Nat} {s after : History}
  {index n : UInt32} {h : Handle} {call : Call} {calls : List Call} {retired : UInt8}

theorem releases_generation {after : Table} (releases : Run ReleaseStep t slots after)
    (freed : Freed t after i) :
    (after.entries i).generation = (t.entries i).generation + 1 := by
  induction releases with
  | refl => exact absurd freed.1 freed.2
  | @next before middle last index rest first tail ih =>
    rcases first with ⟨_, rfl⟩
    by_cases here : i = index.toNat
    · subst i
      -- once vacant, the slot is not released a second time
      have vacant : ¬ Live (releaseSlot before index noParent) index.toNat := by
        rw [releaseSlot_live]
        simp
      have later : index.toNat ∉ rest.map UInt32.toNat := by
        intro member
        exact vacant ((releases_freed tail _).mpr member).1
      rw [releases_other tail later, releaseSlot_at]
    · have stillLive : Live (releaseSlot before index noParent) i :=
        (releaseSlot_live _ _ _ _).mpr ⟨freed.1, here⟩
      rw [ih ⟨stillLive, freed.2⟩, releaseSlot_other here]

theorem occupy_slot (valid : WellFormed s.table) (room : s.table.freeHead ≠ freeEnd)
    (object : UInt64) (kind : Kind) (rights parentIndex : UInt32) (source : Option Nat) (i : Nat) :
    SlotStep s (occupy s object kind rights parentIndex source) i := by
  by_cases head : i = s.table.freeHead.toNat
  · subst i
    apply SlotStep.filled
    · exact fun live => live.2 (head_vacant valid room).2
    · change ((takeSlot s.table object kind rights parentIndex).1.entries _).generation = _
      rw [takeSlot_at]
    · exact Function.update_self _ _ _
  · apply SlotStep.kept
    · have lives := takeSlot_live valid room object kind rights parentIndex i
      simpa only [head, false_and, or_false] using! lives
    · exact congrArg Entry.generation (takeSlot_other head object kind rights parentIndex)
    · exact Function.update_of_ne head _ _

theorem release_slot (live : Live s.table index.toNat) (parentIndex : UInt32) (i : Nat) :
    SlotStep s { s with table := releaseSlot s.table index parentIndex } i := by
  by_cases here : i = index.toNat
  · subst i
    apply SlotStep.released live
    · exact fun still => ((releaseSlot_live _ _ _ _).mp still).2 rfl
    · exact congrArg Entry.generation (releaseSlot_at s.table index parentIndex)
    · rfl
  · apply SlotStep.kept
    · simpa [here] using releaseSlot_live s.table index parentIndex i
    · exact congrArg Entry.generation (releaseSlot_other here parentIndex)
    · rfl

theorem revoke_slot (valid : WellFormed s.table) (returned : Revokes s.table h table n) (i : Nat) :
    SlotStep s { s with table } i := by
  rcases revokes_cases valid returned with ⟨_, rfl, _⟩ | ⟨_, done⟩
  · exact SlotStep.kept Iff.rfl rfl rfl
  rcases done.revoked with ⟨slots, _, revoked⟩
  by_cases freed : Freed s.table table i
  · exact SlotStep.released freed.1 freed.2 (releases_generation revoked.releases freed) rfl
  have away : i ∉ slots.map UInt32.toNat :=
    fun member => freed ((releases_freed revoked.releases i).mpr member)
  apply SlotStep.kept
  · simpa only [away, not_false_eq_true, and_true] using releases_live revoked.releases i
  · exact congrArg Entry.generation (releases_other revoked.releases away)
  · rfl

theorem recorded_slot (valid : WellFormed s.table) (recorded : Recorded s call after) (i : Nat) :
    SlotStep s after i := by
  rcases recorded_cases valid recorded with
    rfl | ⟨object, kind, rights, rfl, room, rfl⟩ | ⟨h, newRights, rfl, derivable, rfl⟩ |
      ⟨h, rfl, removable, rfl⟩ | ⟨h, table, n, rfl, returned, rfl⟩
  · exact SlotStep.kept Iff.rfl rfl rfl
  · exact occupy_slot valid room _ _ _ _ _ i
  · exact occupy_slot valid derivable.2.2 _ _ _ _ _ i
  · exact release_slot removable.2 _ i
  · exact revoke_slot valid returned i

theorem recorded_wellformed (valid : WellFormed s.table) (recorded : Recorded s call after) :
    WellFormed after.table :=
  step_wellformed valid (recorded_step recorded)

theorem run_wellformed (run : Run Recorded s calls after) (valid : WellFormed s.table) :
    WellFormed after.table := by
  have kept : ∀ (before : History) (call : Call) (next : History),
      WellFormed before.table → Recorded before call next → WellFormed next.table :=
    fun _ _ _ holds recorded => recorded_wellformed holds recorded
  exact run_invariant kept run valid

/-- The generation has moved on from `retired` by at least one, and by no more than
the slot was handed out since `base`, plus one while it is vacant. -/
structure Aged (retired : UInt8) (base i : Nat) (s : History) : Prop where
  wellFormed : WellFormed s.table
  moved : ∃ age, 1 ≤ age ∧
    (s.table.entries i).generation = retired + UInt8.ofNat age ∧
    (Live s.table i → base + age ≤ s.taken i) ∧ base + age ≤ s.taken i + 1

theorem aged_step (s : History) (call : Call) (after : History) (aged : Aged retired base i s)
    (recorded : Recorded s call after) : Aged retired base i after := by
  refine ⟨recorded_wellformed aged.wellFormed recorded, ?_⟩
  rcases aged.moved with ⟨age, positive, current, occupied, bound⟩
  cases recorded_slot aged.wellFormed recorded i with
  | kept live generation taken =>
    rw [taken]
    exact ⟨age, positive, generation.trans current, fun still => occupied (live.mp still), bound⟩
  | filled vacant generation taken =>
    exact ⟨age, positive, generation.trans current, fun _ => by omega, by omega⟩
  | released live vacant generation taken =>
    have before := occupied live
    refine ⟨age + 1, by omega, ?_, fun still => absurd still vacant, by omega⟩
    rw [generation, current, UInt8.ofNat_add, UInt8.add_assoc]
    rfl

/-- A released handle does not resolve before the slot was handed out 256 times. -/
theorem aged_stale (aged : Aged (handleGen h) base (handleIndex h).toNat s)
    (recycled : s.taken (handleIndex h).toNat < base + 256) : ¬ Resolves s.table h := by
  rintro ⟨_, live, current⟩
  rcases aged.moved with ⟨age, positive, generation, occupied, _⟩
  have bound := occupied live
  have same : handleGen h + UInt8.ofNat age = handleGen h := generation.symm.trans current
  have values := congrArg UInt8.toNat same
  rw [UInt8.toNat_add, UInt8.toNat_ofNat'] at values
  omega

/-- All six calls that take a handle fail and leave the table as it is. -/
structure Refused (t : Table) (h : Handle) : Prop where
  get : get t h = none
  getChecked : ∀ kind, getChecked t h kind = none
  getWithRights : ∀ kind required, getWithRights t h kind required = none
  derive : ∀ newRights, derive t h newRights = (t, handleInvalid)
  revoke : ∃ after n, Revokes t h after n ∧ after = t ∧ n = 0
  remove : remove t h = t

theorem remove_changes (removable : Removable t h) : remove t h ≠ t := by
  intro same
  have kinds := congrArg (fun table => (table.entries (handleIndex h).toNat).kind) same
  simp only [remove_released removable, releaseSlot_at] at kinds
  exact removable.2.2 kinds.symm

/-- For a handle that does not resolve only `remove` can go wrong, and it does
whenever the slot is occupied. -/
theorem refused_iff_vacant (valid : h ≠ handleInvalid)
    (stale : ¬ Resolves t h) : Refused t h ↔ ¬ Live t (handleIndex h).toNat := by
  constructor
  · intro refused live
    exact remove_changes ⟨valid, live⟩ refused.remove
  intro vacant
  have missing := getUnlocked_stale stale
  constructor
  case get => exact missing
  case getChecked => simp [getChecked, missing]
  case getWithRights => simp [getWithRights, missing]
  case derive => exact derive_refused fun derivable => stale derivable.1
  case revoke => exact ⟨t, 0, revokes_stale stale, rfl, rfl⟩
  case remove => exact remove_refused fun removable => vacant removable.2

/-- A handle whose capability was removed or revoked, presented again before its
slot was handed out 256 times: the table refuses it in all six calls exactly
when the slot is vacant. -/
theorem stale_handle_refused_iff_vacant {capacity : Nat}
    (admissible : AdmissibleCapacity capacity) {earlier later : List Call} {call : Call}
    {h : Handle} {before retired s : History}
    (reached : Run Recorded (start capacity) earlier before) (resolves : Resolves before.table h)
    (recorded : Recorded before call retired) (gone : ¬ Live retired.table (handleIndex h).toNat)
    (run : Run Recorded retired later s)
    (recycled : s.taken (handleIndex h).toNat < retired.taken (handleIndex h).toNat + 256) :
    Refused s.table h ↔ ¬ Live s.table (handleIndex h).toNat := by
  have valid : WellFormed before.table :=
    run_wellformed reached (init_wellformed admissible)
  have aged : Aged (handleGen h) (retired.taken (handleIndex h).toNat) (handleIndex h).toNat
      retired := by
    refine ⟨recorded_wellformed valid recorded, ?_⟩
    cases recorded_slot valid recorded (handleIndex h).toNat with
    | kept live _ _ => exact absurd (live.mpr resolves.2.1) gone
    | filled vacant _ _ => exact absurd resolves.2.1 vacant
    | released _ _ generation _ =>
      refine ⟨1, Nat.le_refl 1, ?_, fun live => absurd live gone, Nat.le_refl _⟩
      rw [generation, resolves.2.2]
      rfl
  have agedLater := run_invariant aged_step run aged
  exact refused_iff_vacant resolves.1 (aged_stale agedLater recycled)

-- A channel is inserted in slot 0 and removed, and another one takes the slot.
def held : History :=
  record (start defaultCapacity) (insert (init defaultCapacity) 0x1000 .channel 0) none
def dropped : History := { held with table := remove held.table 0 }
def refilled : History := record dropped (insert dropped.table 0x2000 .channel 0) none

/-- Right after the removal the slot is vacant and the old handle is refused. -/
theorem dropped_handle_refused : Refused dropped.table 0 := by
  have vacant : ¬ Live dropped.table (handleIndex 0).toNat := by decide
  have resolves : Resolves held.table 0 := by unfold Resolves; decide
  have reached : Run Recorded (start defaultCapacity) [.insert 0x1000 .channel 0] held :=
    Run.next rfl (Run.refl _)
  have recorded : Recorded held (.remove 0) dropped := rfl
  exact (stale_handle_refused_iff_vacant default_admissible reached resolves recorded vacant
    (Run.refl dropped) (by omega)).mpr vacant

/-- After one reuse of slot 0, `remove` with the old handle destroys the second
channel's entry. -/
theorem stale_remove_destroys_occupant :
    Run Recorded (start defaultCapacity) [.insert 0x1000 .channel 0] held ∧
      Resolves held.table 0 ∧ Recorded held (.remove 0) dropped ∧ ¬ Live dropped.table 0 ∧
      Run Recorded dropped [.insert 0x2000 .channel 0] refilled ∧
      refilled.taken 0 < dropped.taken 0 + 256 ∧ ¬ Resolves refilled.table 0 ∧
      Live refilled.table 0 ∧ ¬ Live (remove refilled.table 0) 0 ∧
      ¬ Refused refilled.table 0 := by
  have live : Live refilled.table 0 := by decide
  have destroyed : ¬ Live (remove refilled.table 0) 0 := by decide
  refine ⟨Run.next rfl (Run.refl _), by unfold Resolves; decide, rfl, by decide,
    Run.next rfl (Run.refl _), by decide, by unfold Resolves; decide, live, destroyed, ?_⟩
  intro refused
  rw [refused.remove] at destroyed
  exact destroyed live

end ViperDos.CapTable
