import ViperDos.HashChains

/-!
The timer wheel of `kernel/lib/timerwheel.cpp`. Timer entries are indices of the
pool `timers_`; `slots` gives each list from its head: slots 0 to 255 are `wheel0_`,
256 to 319 `wheel1_`, 320 is `overflow_`, and 321 the list that `tick` has detached
and still has to walk. Times are `u64` and only grow, so they are naturals.

The second half says where an entry may be at a given time (`Fits`) and that
cascades and the hand of the wheel keep every entry where it fits.
-/

namespace ViperDos.Timers

open Function HashChains

structure Wheel where
  expireTime : Nat → Nat
  id : Nat → Nat
  active : Nat → Bool
  slots : Nat → List Nat
  idMap : Nat → Option Nat
  nextId : Nat
  currentTime : Nat
  wheel0Index : Nat
  wheel1Index : Nat
  -- the entry fired last, which `prev` of the walked list's head still names
  last : Nat
  torn : Bool
  -- history: the timers scheduled so far, by number, when each is due, and what became of them
  serial : Nat → Nat
  count : Nat
  due : Nat → Nat
  fired : List (Nat × Nat)
  cancelled : List Nat

def init (now : Nat) : Wheel where
  expireTime _ := 0
  id _ := 0
  active _ := false
  slots _ := []
  idMap _ := none
  nextId := 1
  currentTime := now
  wheel0Index := now % 256
  wheel1Index := now / 256 % 64
  last := 0
  torn := false
  serial _ := 0
  count := 0
  due _ := 0
  fired := []
  cancelled := []

section

variable (w : Wheel)

def slotFor (x : Nat) : Nat :=
  let delta := w.expireTime x - w.currentTime
  if delta < 256 then (w.wheel0Index + delta) % 256
  else if delta < 16384 then 256 + (w.wheel1Index + delta / 256) % 64
  else 320

def addToWheel (x : Nat) : Wheel :=
  { w with slots := insertAt w.slots (slotFor w x) x }

def allocTimer : Option Nat := (List.range 64).find? fun x => !w.active x

def occupy (expireTime x : Nat) : Wheel :=
  { w with
    expireTime := update w.expireTime x expireTime
    id := update w.id x w.nextId
    nextId := if w.nextId + 1 > 64 then 1 else w.nextId + 1
    active := update w.active x true
    idMap := update w.idMap w.nextId (some x)
    serial := update w.serial x w.count
    count := w.count + 1
    due := update w.due w.count expireTime }

/-- A time already reached fires at once, inside the call. -/
def schedule (expireTime : Nat) : Wheel :=
  if expireTime ≤ w.currentTime then
    { w with
      count := w.count + 1
      due := update w.due w.count w.currentTime
      fired := w.fired ++ [(w.count, w.currentTime)] }
  else
    match allocTimer w with
    | none => w
    | some x => addToWheel (occupy w expireTime x) x

def findTimer (id : Nat) : Option Nat :=
  if 0 < id ∧ id ≤ 64 then w.idMap id else none

/-- The entry `tick` has saved as `next` while it runs a callback. -/
def saved : Option Nat := (w.slots 321).head?

/-- Nothing is behind the saved entry, and the entry fired last is in no list. -/
def Loose : Prop := (w.slots 321).tail = [] ∧ ∀ slot < 321, w.last ∉ w.slots slot

instance : Decidable (Loose w) := inferInstanceAs (Decidable (_ ∧ _))

/-- Unlinking the saved entry clears the `next` that the walk goes on with, and
hangs the rest of the walked list behind the entry fired last, wherever that is. -/
def removeFromSlot (x : Nat) : Wheel :=
  if saved w = some x then
    { w with
      torn := w.torn || !Loose w
      slots := fun slot =>
        if slot = 321 then [x]
        else if slot < 321 ∧ w.last ∈ w.slots slot then
          (w.slots slot).takeWhile (· ≠ w.last) ++ w.last :: (w.slots 321).tail
        else w.slots slot }
  else { w with slots := fun slot => (w.slots slot).erase x }

def release (x : Nat) : Wheel :=
  { w with
    idMap := if w.id x ≤ 64 then update w.idMap (w.id x) none else w.idMap
    active := update w.active x false
    id := update w.id x 0 }

def cancel (id : Nat) : Wheel :=
  match findTimer w id with
  | none => w
  | some x => release { removeFromSlot w x with cancelled := w.cancelled ++ [w.serial x] } x

def cascade (slot : Nat) : Wheel :=
  (w.slots slot).foldl addToWheel { w with slots := update w.slots slot [] }

def cascadeDue : Wheel :=
  if w.wheel0Index = 0 then
    let w := { w with wheel1Index := (w.wheel1Index + 1) % 64 }
    let w := cascade w (256 + w.wheel1Index)
    if w.wheel1Index = 0 then cascade w 320 else w
  else w

def advance : Wheel :=
  let w := cascadeDue { w with
    currentTime := w.currentTime + 1
    wheel0Index := (w.wheel0Index + 1) % 256 }
  { w with slots := update (update w.slots 321 (w.slots w.wheel0Index)) w.wheel0Index [] }

def walk : Wheel :=
  match w.slots 321 with
  | [] => w
  | x :: rest =>
    let w := { w with slots := update w.slots 321 rest, last := x }
    if w.expireTime x ≤ w.currentTime ∧ w.active x then
      release { w with fired := w.fired ++ [(w.serial x, w.currentTime)] } x
    else if w.active x then addToWheel w x
    else w

end

-- Where an entry may be

/-- A timer due at `expiry`, seen at `now`, may be in `slot`: in `wheel0_` if it is
less than a turn away and not before `low`, in `wheel1_` or the overflow list if the
cascade that empties its place comes in time, in the walk if it is due. -/
def Fits (low now expiry slot : Nat) : Prop :=
  slot = expiry % 256 ∧ low ≤ expiry ∧ expiry < now + 256 ∨
    (∃ turn, slot = 256 + turn % 64 ∧ now / 256 < turn ∧ turn ≤ now / 256 + 63 ∧
      256 * turn ≤ expiry) ∨
    slot = 320 ∧ 16384 * (now / 16384 + 1) ≤ expiry ∨
    slot = 321 ∧ expiry = now

structure Aligned (w : Wheel) : Prop where
  index0 : w.wheel0Index = w.currentTime % 256
  index1 : w.wheel1Index = w.currentTime / 256 % 64

/-- Every active entry but those waiting to be added is in the list of its place,
once, and fits there. -/
structure Sorted (fit : Nat → Nat → Prop) (waiting : List Nat) (place : Nat → Nat) (w : Wheel) :
    Prop where
  filed : Filed place (fun x => w.active x = true ∧ x ∉ waiting) w.slots
  fits : ∀ x, w.active x = true → x ∉ waiting → fit (w.expireTime x) (place x)

theorem slotFor_lt (w : Wheel) (x : Nat) : slotFor w x < 321 := by
  unfold slotFor
  dsimp only
  split
  · omega
  split <;> omega

variable {w : Wheel} {x now expiry slot : Nat} {fit fit' : Nat → Nat → Prop}
  {waiting gone : List Nat} {place : Nat → Nat}

theorem slotFor_fits (low : Nat) (aligned : Aligned w) (reached : w.currentTime ≤ w.expireTime x)
    (later : low ≤ w.expireTime x) : Fits low w.currentTime (w.expireTime x) (slotFor w x) := by
  unfold slotFor Fits
  simp only [aligned.index0, aligned.index1]
  split
  · left
    omega
  split
  · refine .inr (.inl ⟨w.currentTime / 256 + (w.expireTime x - w.currentTime) / 256, ?_⟩)
    omega
  · right; right; left
    omega

theorem addToWheel_sorted (sorted : Sorted fit (x :: waiting) place w) (active : w.active x = true)
    (fresh : x ∉ waiting) (fitting : fit (w.expireTime x) (slotFor w x)) :
    ∃ place, Sorted fit waiting place (addToWheel w x) := by
  refine ⟨update place x (slotFor w x), ?_, ?_⟩
  · have inserted : Filed (update place x (slotFor w x)) (fun y => w.active y = true ∧ y ∉ waiting)
        (insertAt w.slots (update place x (slotFor w x) x) x) :=
      filed_insert sorted.filed (by simp) ⟨active, fresh⟩ fun y other => by simp [other]
    rwa [update_self] at inserted
  · intro y known outside
    by_cases same : y = x
    · subst same
      simpa [addToWheel] using fitting
    · simpa [addToWheel, same] using sorted.fits y known (by simp [same, outside])

theorem addAll_sorted (sorted : Sorted fit waiting place w) (once : waiting.Nodup)
    (fitting : ∀ x ∈ waiting, w.active x = true ∧ fit (w.expireTime x) (slotFor w x)) :
    ∃ slots place, waiting.foldl addToWheel w = { w with slots := slots } ∧
      Sorted fit [] place { w with slots := slots } := by
  induction waiting generalizing w place with
  | nil => exact ⟨w.slots, place, rfl, sorted⟩
  | cons x rest ih =>
    obtain ⟨fresh, onceMore⟩ := List.nodup_cons.mp once
    obtain ⟨known, fitsHere⟩ := fitting x (.head _)
    obtain ⟨moved, added⟩ := addToWheel_sorted sorted known fresh fitsHere
    exact ih added onceMore fun y member => fitting y (List.mem_cons_of_mem x member)

/-- A cascade: what was elsewhere stays, what was in the slot is placed anew. -/
theorem cascade_sorted (sorted : Sorted fit [] place w) (slot : Nat)
    (kept : ∀ expiry other, fit expiry other → other ≠ slot → fit' expiry other)
    (moved : ∀ x, fit (w.expireTime x) slot → fit' (w.expireTime x) (slotFor w x)) :
    ∃ slots place, cascade w slot = { w with slots := slots } ∧
      Sorted fit' [] place { w with slots := slots } := by
  have inside : ∀ x, x ∈ w.slots slot ↔ w.active x = true ∧ place x = slot := by
    simpa using sorted.filed.mem slot
  have detached : Sorted fit' (w.slots slot) place { w with slots := update w.slots slot [] } := by
    constructor
    case filed => simpa using filed_detach sorted.filed slot
    case fits =>
      intro x known outside
      exact kept _ _ (sorted.fits x known (by simp))
        fun here => outside ((inside x).mpr ⟨known, here⟩)
  refine addAll_sorted detached (sorted.filed.nodup slot) fun x member => ?_
  obtain ⟨known, here⟩ := (inside x).mp member
  exact ⟨known, moved x (here ▸ sorted.fits x known (by simp))⟩

/-- Halfway through `tick`: an entry fits the new time, or fitted the old one in a
place that no cascade has emptied yet. -/
def Coming (now : Nat) (gone : List Nat) (expiry slot : Nat) : Prop :=
  slot ≠ 321 ∧ (Fits (now + 1) now expiry slot ∧ slot ∉ gone ∨ Fits (now + 1) (now + 1) expiry slot)

theorem coming_reached (coming : Coming now gone expiry slot) : now + 1 ≤ expiry := by
  obtain ⟨outside, (⟨fits, -⟩ | fits)⟩ := coming <;>
    rcases fits with near | ⟨turn, far⟩ | spare | walked <;> omega

/-- Once the cascades that are due are done, everything fits the new time. -/
theorem coming_fits (coming : Coming now gone expiry slot)
    (turned : (now + 1) % 256 = 0 → 256 + (now + 1) / 256 % 64 ∈ gone)
    (spilled : (now + 1) % 16384 = 0 → 320 ∈ gone) :
    slot ≠ 321 ∧ Fits (now + 1) (now + 1) expiry slot := by
  obtain ⟨outside, (⟨fits, elsewhere⟩ | fits)⟩ := coming <;> refine ⟨outside, ?_⟩
  · have notTurned : (now + 1) % 256 = 0 → slot ≠ 256 + (now + 1) / 256 % 64 :=
      fun zero same => elsewhere (same ▸ turned zero)
    have notSpilled : (now + 1) % 16384 = 0 → slot ≠ 320 :=
      fun zero same => elsewhere (same ▸ spilled zero)
    rcases fits with near | ⟨turn, far⟩ | spare | walked
    · left
      omega
    · refine .inr (.inl ⟨turn, ?_⟩)
      omega
    · right; right; left
      omega
    · omega
  · exact fits

theorem fits_due (fits : Fits now now expiry slot) (here : slot = now % 256) : expiry = now := by
  rcases fits with near | ⟨turn, far⟩ | spare | walked <;> omega

theorem fits_later (fits : Fits now now expiry slot) (elsewhere : slot ≠ now % 256) :
    Fits (now + 1) now expiry slot := fits.imp_left fun near => by omega

theorem slotFor_coming (aligned : Aligned w) (time : w.currentTime = now + 1)
    (coming : Coming now gone (w.expireTime x) slot) (more : List Nat) :
    Coming now more (w.expireTime x) (slotFor w x) := by
  have reached := coming_reached coming
  have fits := slotFor_fits (x := x) (now + 1) aligned (time ▸ reached) reached
  rw [time] at fits
  exact ⟨Nat.ne_of_lt (slotFor_lt w x), .inr fits⟩

theorem cascade_coming (aligned : Aligned w) (time : w.currentTime = now + 1)
    (sorted : Sorted (Coming now gone) [] place w) (slot : Nat) :
    ∃ slots place, cascade w slot = { w with slots := slots } ∧
      Sorted (Coming now (slot :: gone)) [] place { w with slots := slots } :=
  cascade_sorted sorted slot (fun _ _ coming other => ⟨coming.1, coming.2.imp_left fun old =>
      ⟨old.1, by simp [other, old.2]⟩⟩)
    (fun _ coming => slotFor_coming aligned time coming _)

theorem cascadeDue_sorted (time : w.currentTime = now + 1)
    (index0 : w.wheel0Index = (now + 1) % 256) (index1 : w.wheel1Index = now / 256 % 64)
    (sorted : Sorted (Coming now []) [] place w) : ∃ slots place,
      let turned := { w with slots := slots, wheel1Index := (now + 1) / 256 % 64 }
      cascadeDue w = turned ∧
        Sorted (fun expiry slot => slot ≠ 321 ∧ Fits (now + 1) (now + 1) expiry slot) [] place
          turned := by
  unfold cascadeDue
  by_cases zero : w.wheel0Index = 0
  · have next : (w.wheel1Index + 1) % 64 = (now + 1) / 256 % 64 := by omega
    have aligned : Aligned { w with wheel1Index := (now + 1) / 256 % 64 } :=
      ⟨by simp only [time, index0], by simp only [time]⟩
    simp only [if_pos zero, next]
    obtain ⟨slots, spot, first, sorted⟩ := cascade_coming (w := { w with wheel1Index := _ })
      aligned time ⟨sorted.filed, sorted.fits⟩ (256 + (now + 1) / 256 % 64)
    rw [first]
    by_cases wrapped : (now + 1) / 256 % 64 = 0
    · obtain ⟨slots, spot, second, sorted⟩ := cascade_coming
        (w := { w with wheel1Index := _, slots := slots }) ⟨aligned.1, aligned.2⟩ time sorted 320
      simp only [if_pos wrapped, second]
      exact ⟨slots, spot, rfl, sorted.filed, fun x known outside =>
        coming_fits (sorted.fits x known outside) (by simp) (by simp)⟩
    · simp only [if_neg wrapped]
      exact ⟨slots, spot, rfl, sorted.filed, fun x known outside =>
        coming_fits (sorted.fits x known outside) (by simp) (by omega)⟩
  · have still : w.wheel1Index = (now + 1) / 256 % 64 := by omega
    rw [if_neg zero]
    exact ⟨w.slots, place, by rw [← still], sorted.filed, fun x known outside =>
      coming_fits (sorted.fits x known outside) (by omega) (by omega)⟩

/-- A settled wheel moves on by a millisecond: what is due is now in the walk. -/
theorem advance_sorted (aligned : Aligned w) (idle : w.slots 321 = [])
    (sorted : Sorted (Fits (w.currentTime + 1) w.currentTime) [] place w) :
    ∃ slots place, let time := w.currentTime + 1
      let next := { w with
        currentTime := time, wheel0Index := time % 256, wheel1Index := time / 256 % 64
        slots := slots }
      advance w = next ∧ Sorted (Fits (time + 1) time) [] place next := by
  let started := { w with
    currentTime := w.currentTime + 1, wheel0Index := (w.wheel0Index + 1) % 256 }
  have index0 : (w.wheel0Index + 1) % 256 = (w.currentTime + 1) % 256 := by
    have := aligned.index0
    omega
  have coming : Sorted (Coming w.currentTime []) [] place started :=
    ⟨sorted.filed, fun x known outside => ⟨fun walked => by
      simpa [idle] using (sorted.filed.mem 321 x).mpr ⟨⟨known, outside⟩, walked⟩,
      .inl ⟨sorted.fits x known outside, by simp⟩⟩⟩
  obtain ⟨slots, place, turned, sorted⟩ :=
    cascadeDue_sorted (w := started) rfl index0 aligned.index1 coming
  have empty : slots 321 = [] := List.eq_nil_iff_forall_not_mem.mpr fun x member =>
    have filed := (sorted.filed.mem 321 x).mp member
    (sorted.fits x filed.1.1 filed.1.2).1 filed.2
  have moved := filed_move sorted.filed (h := (w.currentTime + 1) % 256) (g := 321) (by omega) empty
  refine ⟨_, _, ?_, moved, ?_⟩
  · unfold advance
    rw [turned]
    simp only [started, index0]
    rfl
  · intro x known outside
    obtain ⟨-, fits⟩ := sorted.fits x known outside
    have here := sorted.filed.mem ((w.currentTime + 1) % 256) x
    dsimp only at here known ⊢
    split
    case isTrue member => exact .inr (.inr (.inr ⟨rfl, fits_due fits (here.mp member).2⟩))
    case isFalse elsewhere =>
      exact fits_later fits fun same => elsewhere (here.mpr ⟨⟨known, outside⟩, same⟩)

end ViperDos.Timers
