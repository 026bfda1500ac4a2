import ViperDos.TimerWheel
import ViperDos.Transition

/-!
Runs of the timer wheel: timers are scheduled and cancelled, by callers and by the
callbacks that `tick` runs, and time moves on once the walk over a slot is done. The walk
ends after as many entries as it began with. Every timer fires once, when it is due, as
long as no callback cancels the very entry that `tick` has saved to go on with; identifiers
are exact as long as none is given out again while a timer still has it.
-/

namespace ViperDos.Timers

open Function HashChains Transition

inductive Event where
  | schedule (expireTime : Nat)
  | cancel (id : Nat)
  | advance
  | walk
  deriving DecidableEq

def perform (w : Wheel) : Event → Wheel
  | .schedule expireTime => schedule w expireTime
  | .cancel id => cancel w id
  | .advance => advance w
  | .walk => walk w

/-- `tick` moves on when its walk is over. Behind a torn list links and lists part, and
only `tick` is followed further; neither is a timer that is scheduled while the saved entry
has been given back and could be taken for it. -/
def Step (w : Wheel) (event : Event) (after : Wheel) : Prop :=
  after = perform w event ∧
    match event with
    | .advance => w.slots 321 = []
    | .walk => True
    | .cancel _ => w.torn = false
    | .schedule _ => w.torn = false ∧ ∀ x ∈ saved w, w.active x = true

/-- Each timer that was not cancelled has run once, when it was due, or has not run yet
and is due later, or now with its entry still to be walked. -/
def OnTime (w : Wheel) : Prop :=
  ∀ n < w.count, n ∉ w.cancelled →
    let runs := w.fired.filter fun run => run.1 = n
    runs = [(n, w.due n)] ∧ w.due n ≤ w.currentTime ∨
      runs = [] ∧ (w.currentTime < w.due n ∨
        w.due n = w.currentTime ∧ ∃ x ∈ w.slots 321, w.active x = true ∧ w.serial x = n)

def CaughtUp (w : Wheel) : Prop :=
  w.slots 321 = [] ∧ ∀ n < w.count, n ∉ w.cancelled → w.due n ≤ w.currentTime →
    w.fired.filter (fun run => run.1 = n) = [(n, w.due n)]

/-- Whatever the callbacks call meanwhile, the walk is over when it has gone on by as many
entries as it has now. -/
def Ends (allowed : Wheel → Event → Prop) (w : Wheel) : Prop :=
  ∀ events after, Run (Guarded allowed Step) w events after → .advance ∉ events →
    (w.slots 321).length ≤ events.count .walk → CaughtUp after

theorem schedule_walks (w : Wheel) (expireTime : Nat) :
    (schedule w expireTime).slots 321 = w.slots 321 := by
  unfold schedule
  split
  · rfl
  split
  · rfl
  · exact update_of_ne (Nat.ne_of_gt (slotFor_lt ..)) ..

theorem cancel_walks (w : Wheel) (id : Nat) :
    ((cancel w id).slots 321).length ≤ (w.slots 321).length := by
  unfold cancel
  split
  · exact Nat.le_refl _
  unfold release removeFromSlot
  split
  next x _ head =>
    have some' : w.slots 321 ≠ [] := fun empty => by simp [saved, empty] at head
    exact List.length_pos_iff.mpr some'
  · exact List.length_erase_le

theorem walk_walks (w : Wheel) : (walk w).slots 321 = (w.slots 321).tail := by
  unfold walk
  split
  next empty => rw [empty, List.tail_nil]
  next x rest list =>
    rw [list, List.tail_cons]
    have left : update w.slots 321 rest 321 = rest := update_self ..
    dsimp only
    split
    · exact left
    split
    · exact (update_of_ne (Nat.ne_of_gt (slotFor_lt ..)) ..).trans left
    · exact left

/-- Only the walk changes how much is left of it, until time moves on. -/
theorem step_walks {w after : Wheel} {event : Event} (step : Step w event after)
    (within : event ≠ .advance) :
    (after.slots 321).length ≤ (w.slots 321).length - [event].count .walk := by
  obtain ⟨rfl, -⟩ := step
  cases event with
  | schedule expireTime => exact Nat.le_of_eq (congrArg List.length (schedule_walks w expireTime))
  | cancel id => exact cancel_walks w id
  | advance => exact absurd rfl within
  | walk =>
    rw [perform, walk_walks, List.length_tail]
    exact Nat.le_refl _

theorem run_walks {allowed : Wheel → Event → Prop} {w after : Wheel} {events : List Event}
    (run : Run (Guarded allowed Step) w events after) (within : .advance ∉ events) :
    (after.slots 321).length ≤ (w.slots 321).length - events.count .walk := by
  induction run with
  | refl => exact Nat.le_refl _
  | @next _ _ _ event rest first _ ih =>
    have shorter := step_walks first.2 fun same => within (same ▸ .head _)
    have left := ih fun later => within (.tail _ later)
    have counts : (event :: rest).count .walk = [event].count .walk + rest.count .walk := by
      rw [← List.count_append]; rfl
    omega

theorem ends_of_onTime {allowed : Wheel → Event → Prop} {w : Wheel}
    (onTime : ∀ events after, Run (Guarded allowed Step) w events after → OnTime after) :
    Ends allowed w := by
  intro events after run within enough
  have short := run_walks run within
  have empty : after.slots 321 = [] := List.eq_nil_of_length_eq_zero (by omega)
  refine ⟨empty, fun n below spared due => ?_⟩
  rcases onTime events after run n below spared with ran | ⟨-, later | ⟨-, x, left, -⟩⟩
  · exact ran.1
  · omega
  · rw [empty] at left
    cases left

structure Ledger (w : Wheel) : Prop where
  live : ∀ x, w.active x = true → w.serial x < w.count ∧ w.due (w.serial x) = w.expireTime x ∧
    w.serial x ∉ w.cancelled ∧ ∀ run ∈ w.fired, run.1 ≠ w.serial x
  apart : ∀ x y, w.active x = true → w.active y = true → w.serial x = w.serial y → x = y
  settled : ∀ n < w.count, (∃ x, w.active x = true ∧ w.serial x = n) ∨ n ∈ w.cancelled ∨
    w.fired.filter (fun run => run.1 = n) = [(n, w.due n)] ∧ w.due n ≤ w.currentTime
  past : ∀ run ∈ w.fired, run.1 < w.count
  known : ∀ n ∈ w.cancelled, n < w.count

structure Kept (w : Wheel) : Prop where
  aligned : Aligned w
  sorted : ∃ place, Sorted (Fits (w.currentTime + 1) w.currentTime) [] place w
  ledger : Ledger w
  mapped : ∀ i x, w.idMap i = some x → w.active x = true ∧ w.id x = i
  small : w.nextId ≤ 64 ∧ ∀ x, w.id x ≤ 64

variable {n x : Nat} {w after : Wheel} {fit : Nat → Nat → Prop} {place : Nat → Nat}
  {cancelled rest : List Nat} {event : Event}

theorem filter_none {runs : List (Nat × Nat)} (absent : ∀ run ∈ runs, run.1 ≠ n) :
    runs.filter (fun run => run.1 = n) = [] := by
  simpa using absent

theorem Kept.onTime (kept : Kept w) : OnTime w := by
  obtain ⟨place, sorted⟩ := kept.sorted
  intro n below spared
  rcases kept.ledger.settled n below with ⟨x, known, rfl⟩ | gone | ran
  · obtain ⟨-, due, -, silent⟩ := kept.ledger.live x known
    refine .inr ⟨filter_none silent, ?_⟩
    have member := sorted.filed.mem (place x) x
    rcases sorted.fits x known (by simp) with near | ⟨turn, far⟩ | spare | walked
    · omega
    · omega
    · omega
    · refine .inr ⟨by omega, x, ?_, known, rfl⟩
      rw [← walked.1]
      exact member.mpr ⟨⟨known, by simp⟩, rfl⟩
  · exact absurd gone spared
  · exact .inl ran

/-- A timer that was due when scheduled: it has run. -/
theorem ledger_late (ledger : Ledger w) : Ledger { w with
    count := w.count + 1
    due := update w.due w.count w.currentTime
    fired := w.fired ++ [(w.count, w.currentTime)] } := by
  have silent := filter_none fun run member => Nat.ne_of_lt (ledger.past run member)
  obtain ⟨live, apart, settled, past, older⟩ := ledger
  constructor <;> grind [update]

theorem ledger_occupy (ledger : Ledger w) (expireTime : Nat) (free : w.active x = false) :
    Ledger (occupy w expireTime x) := by
  obtain ⟨live, apart, settled, past, known⟩ := ledger
  unfold occupy
  constructor
  case settled =>
    intro n below
    by_cases new : n = w.count
    · exact .inl ⟨x, by simp [new]⟩
    · rcases settled n (by simp only at below; omega) with ⟨y, active⟩ | gone | ran
      · exact .inl ⟨y, by grind [update]⟩
      · exact .inr (.inl gone)
      · exact .inr (.inr (by simpa [new] using ran))
  all_goals grind [update]

/-- An entry that is done, its timer cancelled or run. -/
theorem ledger_cancelled (ledger : Ledger w) (known : w.active x = true) :
    Ledger (release { w with cancelled := w.cancelled ++ [w.serial x] } x) := by
  obtain ⟨live, apart, settled, past, older⟩ := ledger
  unfold release
  constructor <;> grind [update]

theorem ledger_ran (ledger : Ledger w) (known : w.active x = true)
    (due : w.expireTime x = w.currentTime) :
    Ledger (release { w with fired := w.fired ++ [(w.serial x, w.currentTime)] } x) := by
  have silent := filter_none (ledger.live x known).2.2.2
  obtain ⟨live, apart, settled, past, older⟩ := ledger
  unfold release
  constructor <;> grind [update]

theorem init_kept (now : Nat) : Kept (init now) where
  aligned := ⟨rfl, rfl⟩
  sorted := ⟨fun _ => 0, ⟨by simp [init], by simp [init]⟩, by simp [init]⟩
  ledger := by constructor <;> simp [init]
  mapped := by simp [init]
  small := by simp [init]

theorem schedule_kept (kept : Kept w) (expireTime : Nat) : Kept (schedule w expireTime) := by
  unfold schedule
  split
  · exact ⟨⟨kept.aligned.1, kept.aligned.2⟩, kept.sorted.imp fun _ sorted => ⟨sorted.1, sorted.2⟩,
      ledger_late kept.ledger, kept.mapped, kept.small⟩
  split
  · exact kept
  rename_i later x found
  have free : w.active x = false := by simpa using List.find?_some found
  obtain ⟨place, sorted⟩ := kept.sorted
  have waiting : Sorted (Fits (w.currentTime + 1) w.currentTime) [x] place
      (occupy w expireTime x) := by
    constructor
    case filed => exact filed_congr sorted.filed fun y => by by_cases y = x <;> simp_all [occupy]
    case fits =>
      intro y known other
      have := sorted.fits y
      simp_all [occupy]
  have aligned : Aligned (occupy w expireTime x) := ⟨kept.aligned.1, kept.aligned.2⟩
  have fits := slotFor_fits (w.currentTime + 1) (x := x) aligned
    (by simp [occupy]; omega) (by simp [occupy]; omega)
  have mapped := kept.mapped
  have small := kept.small
  exact ⟨⟨aligned.1, aligned.2⟩, addToWheel_sorted waiting (update_self ..) (by simp) fits,
    ledger_occupy kept.ledger expireTime free |> fun l => ⟨l.1, l.2, l.3, l.4, l.5⟩,
    by unfold addToWheel occupy; grind [update], by unfold addToWheel occupy; grind [update]⟩

theorem release_sorted (sorted : Sorted fit [] place w) :
    Sorted fit [] place (release { w with slots := fun slot => (w.slots slot).erase x } x) where
  filed := by
    rw [release, ← removeAt_erase sorted.filed x]
    exact filed_remove sorted.filed (by simp) fun y other => by simp [other]
  fits y known outside := sorted.fits y (by unfold release at known; grind [update]) outside

/-- An entry out of its list and released, with what that adds to the history. -/
theorem release_kept {fired : List (Nat × Nat)} (kept : Kept w)
    (ledger : Ledger (release { w with fired := fired, cancelled := cancelled } x)) (last : Nat) :
    Kept (release { w with
      slots := fun slot => (w.slots slot).erase x
      fired := fired, cancelled := cancelled, last := last } x) := by
  obtain ⟨aligned, ⟨place, sorted⟩, -, mapped, small⟩ := kept
  have gone := release_sorted (x := x) sorted
  refine ⟨⟨aligned.1, aligned.2⟩, ⟨place, gone.1, gone.2⟩,
    ⟨ledger.1, ledger.2, ledger.3, ledger.4, ledger.5⟩, ?_, ?_⟩ <;>
    unfold release <;> grind [update]

theorem cancel_kept (kept : Kept w) (id : Nat)
    (spared : ∀ x, findTimer w id = some x → saved w ≠ some x) : Kept (cancel w id) := by
  unfold cancel
  split
  · exact kept
  · rename_i x found
    have entry : w.idMap id = some x := by grind [findTimer]
    rw [removeFromSlot, if_neg (spared x found)]
    exact release_kept kept (ledger_cancelled kept.ledger (kept.mapped id x entry).1) w.last

/-- The walk meets only entries that are due, so it fires them. -/
theorem walk_cases (kept : Kept w) (list : w.slots 321 = x :: rest) :
    w.active x = true ∧ w.expireTime x = w.currentTime ∧
      update w.slots 321 rest = fun slot => (w.slots slot).erase x := by
  obtain ⟨place, sorted⟩ := kept.sorted
  obtain ⟨⟨known, -⟩, here⟩ := (sorted.filed.mem 321 x).mp (by simp [list])
  refine ⟨known, ?_, ?_⟩
  · have fits := sorted.fits x known (by simp)
    rcases fits with near | ⟨turn, far⟩ | spare | walked <;> omega
  · rw [← removeAt_erase sorted.filed x, here, removeAt, list, List.erase_cons_head]

theorem walk_kept (kept : Kept w) : Kept (walk w) := by
  unfold walk
  split
  · exact kept
  rename_i x rest list
  obtain ⟨known, due, erased⟩ := walk_cases kept list
  simp only [erased]
  rw [if_pos ⟨Nat.le_of_eq due, known⟩]
  exact release_kept kept (ledger_ran kept.ledger known due) x

theorem advance_kept (kept : Kept w) (idle : w.slots 321 = []) : Kept (advance w) := by
  obtain ⟨place, sorted⟩ := kept.sorted
  obtain ⟨slots, moved, same, sorted⟩ := advance_sorted kept.aligned idle sorted
  have ledger := kept.ledger
  rw [same]
  refine ⟨⟨rfl, rfl⟩, ⟨moved, sorted⟩, ⟨ledger.1, ledger.2, fun n below => ?_, ledger.4, ledger.5⟩,
    kept.mapped, kept.small⟩
  exact (ledger.settled n below).imp_right (Or.imp_right (And.imp_right Nat.le_succ_of_le))

def Spares (w : Wheel) : Event → Prop
  | .cancel id => ∀ x, findTimer w id = some x → saved w ≠ some x
  | _ => True

theorem step_kept (kept : Kept w) (spares : Spares w event) (step : Step w event after) :
    Kept after := by
  obtain ⟨rfl, moment⟩ := step
  cases event with
  | schedule expireTime => exact schedule_kept kept expireTime
  | cancel id => exact cancel_kept kept id spares
  | advance => exact advance_kept kept moment
  | walk => exact walk_kept kept

/-- Callbacks may schedule timers; timers are cancelled between ticks. -/
def Quiet (w : Wheel) : Event → Prop
  | .cancel _ => w.slots 321 = []
  | _ => True

/-- Every timer runs once, at the tick it is due, or inside `schedule` if its time has
already come. -/
theorem timers_on_time (now : Nat) (events : List Event) (w : Wheel)
    (run : Run (Guarded Quiet Step) (init now) events w) : OnTime w ∧ Ends Quiet w := by
  have onTime : ∀ events after, Run (Guarded Quiet Step) (init now) events after →
      OnTime after := fun events after run => Kept.onTime <|
    run_invariant (fun before event after kept step => by
      refine step_kept kept ?_ step.2
      cases event with
      | cancel id =>
        intro x found
        simp [saved, show before.slots 321 = [] from step.1]
      | schedule | advance | walk => trivial) run (init_kept now)
  exact ⟨onTime events w run, ends_of_onTime fun more after later =>
    onTime (events ++ more) after (run_append run later)⟩

def ready (w : Wheel) : Event → Bool
  | .advance => w.slots 321 = []
  | .walk => true
  | .cancel _ => !w.torn
  | .schedule _ => !w.torn && (saved w).all w.active

theorem ready_step (w : Wheel) (event : Event) (checked : ready w event = true) :
    Step w event (perform w event) := by
  refine ⟨rfl, ?_⟩
  cases event <;> simp_all [ready, Option.all_eq_true]

def quiet (w : Wheel) : Event → Bool
  | .cancel _ => w.slots 321 = []
  | _ => true

theorem quiet_step (w : Wheel) (event : Event) (checked : (ready w event && quiet w event) = true) :
    Guarded Quiet Step w event (perform w event) := by
  rw [Bool.and_eq_true] at checked
  refine ⟨?_, ready_step w event checked.1⟩
  cases event with
  | cancel id => exact (of_decide_eq_true checked.2 : w.slots 321 = [])
  | schedule | advance | walk => trivial

/-- Two timers and one that is cancelled; the callback of the first to run schedules another. -/
def threeTicks : List Event :=
  [.schedule 7, .schedule 300, .schedule 7, .cancel 2, .advance, .advance, .walk, .schedule 8,
    .walk, .advance, .walk]

theorem three_ticks_on_time : let w := threeTicks.foldl perform (init 5)
    Run (Guarded Quiet Step) (init 5) threeTicks w ∧ OnTime w ∧ Ends Quiet w ∧
      w.fired = [(2, 7), (0, 7), (3, 8)] ∧ w.cancelled = [1] := by
  intro w
  have run : Run (Guarded Quiet Step) (init 5) threeTicks w := run_admitted quiet_step (by decide)
  obtain ⟨onTime, ends⟩ := timers_on_time 5 threeTicks w run
  exact ⟨run, onTime, ends, by decide, by decide⟩

/-- A timer for the present runs in the call that schedules it, not at tick 6. -/
theorem reached_time_fires_at_once :
    (schedule (init 5) 5).fired = [(0, 5)] ∧ (schedule (init 5) 5).currentTime = 5 := by
  decide

/-- No identifier is given out that a timer still has, and a callback cancels the saved entry
only if nothing else hangs on it. -/
def Fresh (w : Wheel) : Event → Prop
  | .schedule expireTime =>
    w.currentTime < expireTime → (allocTimer w).isSome = true → w.idMap w.nextId = none
  | .cancel id => ∀ x ∈ findTimer w id, saved w = some x → Loose w
  | _ => True

instance (w : Wheel) (event : Event) : Decidable (Fresh w event) := by
  cases event <;> unfold Fresh <;> infer_instance

/-- Active timers have different identifiers, `cancel` ends the one that has the given
one and no other, and the rest still fire when they are due. -/
structure Exact (w : Wheel) : Prop where
  distinct : ∀ x y, w.active x = true → w.active y = true → w.id x = w.id y → x = y
  cancels : ∀ x, w.active x = true → (cancel w (w.id x)).active = update w.active x false
  onTime : OnTime w
  ends : Ends Fresh w

/-- The saved entry was cancelled: nothing but itself is left of the walk. -/
structure Given (w : Wheel) (x : Nat) : Prop where
  left : w.slots 321 = [x]
  idle : w.active x = false
  kept : Kept { w with slots := update w.slots 321 [] }

structure Known (w : Wheel) : Prop where
  kept : Kept w ∨ ∃ x, Given w x
  found : 0 < w.nextId ∧ ∀ x, w.active x = true → 0 < w.id x ∧ w.idMap (w.id x) = some x

theorem Given.onTime (given : Given w x) : OnTime w := by
  intro n below spared
  rcases given.kept.onTime n below spared with ran | ⟨silent, later | ⟨-, y, left, -⟩⟩
  · exact .inl ran
  · exact .inr ⟨silent, .inl later⟩
  · exact absurd left (by simp)

theorem Known.mapped (known : Known w) :
    ∀ i x, w.idMap i = some x → w.active x = true ∧ w.id x = i := by
  rcases known.kept with kept | ⟨_, given⟩
  · exact kept.mapped
  · exact given.kept.mapped

theorem Known.small (known : Known w) (x : Nat) : w.id x ≤ 64 := by
  rcases known.kept with kept | ⟨_, given⟩
  · exact kept.small.2 x
  · exact given.kept.small.2 x

theorem Known.onTime (known : Known w) : OnTime w := by
  rcases known.kept with kept | ⟨x, given⟩
  · exact kept.onTime
  · exact given.onTime

theorem removeFromSlot_loose (only : w.slots 321 = [x]) (loose : Loose w) :
    removeFromSlot w x = w := by
  unfold removeFromSlot
  rw [if_pos (by simp [saved, only])]
  have slots : (fun slot => if slot = 321 then [x]
      else if slot < 321 ∧ w.last ∈ w.slots slot then
        (w.slots slot).takeWhile (· ≠ w.last) ++ w.last :: (w.slots 321).tail
      else w.slots slot) = w.slots := by
    funext slot
    split
    next here => rw [here, only]
    · exact if_neg fun linked => loose.2 slot linked.1 linked.2
  rw [slots, decide_eq_true loose, Bool.not_true, Bool.or_false]

/-- The saved entry is cancelled while nothing hangs on it. -/
theorem cancel_given {id : Nat} (kept : Kept w) (found : findTimer w id = some x)
    (head : saved w = some x)
    (loose : Loose w) : Given (cancel w id) x := by
  have entry : w.idMap id = some x := by grind [findTimer]
  obtain ⟨active, -⟩ := kept.mapped id x entry
  have only : w.slots 321 = [x] := by
    rw [List.eq_cons_of_mem_head? head, loose.1]
  have erased := (walk_cases kept only).2.2
  unfold cancel
  rw [found]
  dsimp only
  rw [removeFromSlot_loose only loose]
  refine ⟨only, update_self .., ?_⟩
  have released := release_kept kept (ledger_cancelled kept.ledger active) w.last
  rw [← erased] at released
  exact released

/-- A step while the saved entry is given back. -/
theorem step_given (given : Given w x) (mapped : ∀ i y, w.idMap i = some y → w.active y = true)
    (step : Step w event after) : Kept after ∨ Given after x := by
  obtain ⟨rfl, moment⟩ := step
  have head : saved w = some x := by simp [saved, given.left]
  cases event with
  | schedule expireTime =>
    have active := moment.2 x head
    rw [given.idle] at active
    cases active
  | advance =>
    rw [given.left] at moment
    cases moment
  | walk =>
    left
    have kept := given.kept
    have inactive : ¬ (w.active x = true) := by simp [given.idle]
    rw [perform, walk, given.left]
    dsimp only
    rw [if_neg fun due => inactive due.2, if_neg inactive]
    exact ⟨⟨kept.1.1, kept.1.2⟩, kept.2.imp fun _ sorted => ⟨sorted.1, sorted.2⟩,
      ⟨kept.3.1, kept.3.2, kept.3.3, kept.3.4, kept.3.5⟩, kept.4, kept.5⟩
  | cancel id =>
    right
    have kept := cancel_kept given.kept id fun y _ => by simp [saved]
    change Given (cancel w id) x
    unfold cancel at *
    cases found : findTimer w id with
    | none => exact given
    | some y =>
      have entry : w.idMap id = some y := by grind [findTimer]
      have other : y ≠ x := by
        rintro rfl
        exact absurd (mapped id y entry) (by simp [given.idle])
      have slots : (fun slot => (update w.slots 321 [] slot).erase y) =
          update (fun slot => (w.slots slot).erase y) 321 [] := by
        funext slot
        by_cases here : slot = 321
        · simp [here]
        · simp [here]
      have same : findTimer { w with slots := update w.slots 321 [] } id = some y := found
      rw [same] at kept
      dsimp only at kept ⊢
      rw [removeFromSlot, if_neg (by simp [saved])] at kept
      rw [removeFromSlot, if_neg (by simp [head, Ne.symm other])]
      dsimp only at kept
      rw [slots] at kept
      refine ⟨?_, ?_, kept⟩
      · simp [release, given.left, Ne.symm other]
      · simp [release, Ne.symm other, given.idle]

theorem found_release (known : Known w) (active : w.active x = true) :
    0 < (release w x).nextId ∧ ∀ y, (release w x).active y = true →
      0 < (release w x).id y ∧ (release w x).idMap ((release w x).id y) = some y := by
  refine ⟨known.found.1, fun y still => ?_⟩
  have own := known.found.2 x active
  have other := known.found.2 y
  unfold release at *
  grind [update]

theorem step_held (known : Known w) (fresh : Fresh w event) (step : Step w event after) :
    Kept after ∨ ∃ x, Given after x := by
  rcases known.kept with kept | ⟨x, given⟩
  · by_cases spares : Spares w event
    · exact .inl (step_kept kept spares step)
    · cases event with
      | cancel id =>
        obtain ⟨rfl, -⟩ := step
        simp only [Spares, not_forall, not_not] at spares
        obtain ⟨x, found, head⟩ := spares
        exact .inr ⟨x, cancel_given kept found head (fresh x found head)⟩
      | schedule | advance | walk => exact absurd trivial spares
  · exact (step_given given (fun i y entry => (known.mapped i y entry).1) step).imp_right
      fun held => ⟨x, held⟩

theorem known_step (known : Known w) (fresh : Fresh w event) (step : Step w event after) :
    Known after := by
  refine ⟨step_held known fresh step, ?_⟩
  obtain ⟨rfl, moment⟩ := step
  cases event with
  | schedule expireTime =>
    have found := known.found
    simp only [Fresh, perform, schedule] at *
    split
    · exact found
    next later =>
      split
      · exact found
      next x free =>
        have unused := fresh (Nat.lt_of_not_le later) (by simp [free])
        simp only [addToWheel, occupy]
        grind [update]
  | cancel id =>
    simp only [perform, cancel]
    split
    · exact known.found
    next x found =>
      have entry : w.idMap id = some x := by grind [findTimer]
      have released := found_release known (known.mapped id x entry).1
      unfold removeFromSlot
      split <;> exact released
  | advance =>
    have kept : Kept w := known.kept.resolve_right <| by
      rintro ⟨x, given⟩
      have left := given.left
      rw [show w.slots 321 = [] from moment] at left
      cases left
    obtain ⟨place, sorted⟩ := kept.sorted
    obtain ⟨slots, _, same, -⟩ := advance_sorted kept.aligned moment sorted
    rw [perform, same]
    exact known.found
  | walk =>
    simp only [perform, walk]
    split
    · exact known.found
    next x rest list =>
      split
      next due =>
        have released := found_release known due.2
        exact released
      split
      · exact known.found
      · exact known.found

/-- Identifiers are exact in every run that gives out only free ones and in which no
callback cancels a saved entry on which others hang. -/
theorem identifiers_exact (now : Nat) (events : List Event) (w : Wheel)
    (run : Run (Guarded Fresh Step) (init now) events w) : Exact w := by
  have start : Known (init now) := ⟨.inl (init_kept now), by simp [init]⟩
  have all : ∀ events after, Run (Guarded Fresh Step) (init now) events after → Known after :=
    fun events after run => run_invariant
      (fun before _ _ (known : Known before) step => known_step known step.1 step.2) run start
  have known := all events w run
  refine ⟨fun x y first second same => ?_, fun x active => ?_, known.onTime, ?_⟩
  · have entry := (known.found.2 x first).2
    rw [same, (known.found.2 y second).2] at entry
    exact (Option.some.inj entry).symm
  · obtain ⟨positive, entry⟩ := known.found.2 x active
    rw [cancel, findTimer, if_pos ⟨positive, known.small x⟩, entry]
    simp only [release, removeFromSlot]
    split <;> rfl
  · exact ends_of_onTime fun more after later =>
      (all (events ++ more) after (run_append run later)).onTime

theorem fresh_step (w : Wheel) (event : Event)
    (checked : (ready w event && decide (Fresh w event)) = true) :
    Guarded Fresh Step w event (perform w event) := by
  rw [Bool.and_eq_true] at checked
  exact ⟨of_decide_eq_true checked.2, ready_step w event checked.1⟩

/-- Four timers of one tick: the callback of the first to run cancels one behind the saved one,
and the callback of the next cancels the last one, which is saved and has nothing behind it. -/
def cancelledTimers : List Event :=
  [.schedule 6, .schedule 6, .schedule 6, .schedule 6, .schedule 8, .advance, .walk, .cancel 2,
    .walk, .cancel 1, .walk, .advance, .advance, .walk]

set_option maxRecDepth 4000 in
theorem cancelled_timers_exact : let w := cancelledTimers.foldl perform (init 5)
    Run (Guarded Fresh Step) (init 5) cancelledTimers w ∧ Exact w ∧
      w.fired = [(3, 6), (2, 6), (4, 8)] ∧ w.cancelled = [1, 0] := by
  intro w
  have run : Run (Guarded Fresh Step) (init 5) cancelledTimers w :=
    run_admitted fresh_step (by decide)
  exact ⟨run, identifiers_exact 5 cancelledTimers w run, by decide, by decide⟩

/-- Three timers are due at 6; the callback of the last one cancels the second, which
`tick` has saved, and the first is never reached. -/
def savedTimer : List Event :=
  [.schedule 6, .schedule 6, .schedule 6, .advance, .walk, .cancel 2, .walk, .advance]

theorem saved_cancel_loses_timer : let w := savedTimer.foldl perform (init 5)
    Run Step (init 5) savedTimer w ∧ ¬ Exact w := by
  intro w
  refine ⟨run_admitted ready_step (by decide), fun exact => ?_⟩
  have facts : w.count = 3 ∧ w.fired = [(2, 6)] ∧ w.cancelled = [1] ∧ w.due 0 = 6 ∧
      w.currentTime = 7 := by decide
  have late := exact.onTime 0
  simp [facts] at late

end ViperDos.Timers
