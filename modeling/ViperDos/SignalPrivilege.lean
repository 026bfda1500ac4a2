import ViperDos.SignalSystem
import ViperDos.Bits

/-!
Privilege across signal delivery and sigreturn. The status word a task resumes
with is the trap's own, except after a sigreturn, which takes all bits but the
condition flags from the user's stack. A task therefore stays in user mode
exactly when the mode and mask bits of the word it presents are those it already
had.
-/

namespace ViperDos.Signals

open ByteMemory Transition Function

/-- The task resumes in user mode, with the interrupt masks it trapped with. -/
def ResumesInUserMode (task : Task) : Prop :=
  task.exited = false →
    task.resumed &&& modeMask = 0 ∧ task.resumed &&& daifMask = task.entered &&& daifMask

def Unprivileged (s : System) : Prop :=
  ∀ id task, s.tasks id = some task → ResumesInUserMode task

def deliveryEnds (signals : SignalState) (sp : UInt64) : Bool :=
  match nextSignal signals with
  | none => false
  | some signum =>
    if signals.handlers signum = sigDfl then defaultAction signum = .terminate
    else if signals.handlers signum = sigIgn then false
    else !acceptsStack (sp - frameSize)

def savedWord (memory : Memory) (frame : ExceptionFrame) (offset : UInt64) : UInt64 :=
  UInt64.ofNat (loadBytes memory (frame.sp + offset) 8)

def savedBlocked (memory : Memory) (frame : ExceptionFrame) : UInt32 :=
  UInt32.ofNat (loadBytes memory (frame.sp + blockedOffset) 4)

/-- A sigreturn from which the task resumes finds a status word with the trap's own
mode and interrupt masks on the stack. -/
def PresentsOwnStatus (s : System) : Event → Prop
  | .sync id frame memory _ => ∀ task, s.tasks id = some task →
      exceptionClass frame = svcA64 → (frame.x 8).toUInt32 = sysSigreturn →
      acceptsStack frame.sp = true →
      deliveryEnds { task.signals with blocked := savedBlocked memory frame }
        (savedWord memory frame spOffset) = false →
      savedWord memory frame spsrOffset &&& statusMask = frame.spsr &&& statusMask
  | .spawn _ _ _ | .irq _ _ => True

theorem safeSpsr_status (saved current : UInt64) :
    safeSpsr saved current &&& statusMask = saved &&& statusMask := by
  have kept : (0xFFFFFFFF0FFFFFFF : UInt64) &&& statusMask = statusMask := by decide
  have dropped : (0xF0000000 : UInt64) &&& statusMask = 0 := by decide
  unfold safeSpsr
  rw [Bits.or_and, UInt64.and_assoc, UInt64.and_assoc, kept, dropped,
    UInt64.and_zero, UInt64.or_zero]

theorem status_mode (word : UInt64) : (word &&& statusMask) &&& modeMask = word &&& modeMask := by
  have inside : statusMask &&& modeMask = modeMask := by decide
  rw [UInt64.and_assoc, inside]

theorem status_daif (word : UInt64) : (word &&& statusMask) &&& daifMask = word &&& daifMask := by
  have inside : statusMask &&& daifMask = daifMask := by decide
  rw [UInt64.and_assoc, inside]

theorem status_parts (word : UInt64) :
    word &&& statusMask = (word &&& modeMask) ||| (word &&& daifMask) := by
  have joined : statusMask = modeMask ||| daifMask := by decide
  rw [joined, UInt64.and_comm, Bits.or_and, UInt64.and_comm modeMask, UInt64.and_comm daifMask]

variable {entered resumed : UInt64} {frame entry : ExceptionFrame} {before task : Task}
  {s after : System} {memory : Memory} {env : Environment} {event : Event}

/-- For a trap from user mode, agreeing on the status bits is resuming in user
mode with the same masks. -/
theorem status_iff (user : entered &&& modeMask = 0) :
    resumed &&& statusMask = entered &&& statusMask ↔
      resumed &&& modeMask = 0 ∧ resumed &&& daifMask = entered &&& daifMask := by
  constructor
  · intro same
    constructor
    · rw [← status_mode, same, status_mode, user]
    · rw [← status_daif, same, status_daif]
  · rintro ⟨mode, daif⟩
    rw [status_parts, status_parts, mode, daif, user]

theorem restore_accepted (signals : SignalState) (bus : Bus)
    (accepted : acceptsStack frame.sp = true) :
    ∃ after next, restoreSignalContext signals frame bus =
        (some ({ signals with blocked := savedBlocked bus.memory frame }, after), next) ∧
      after.spsr = safeSpsr (savedWord bus.memory frame spsrOffset) frame.spsr ∧
      after.sp = savedWord bus.memory frame spOffset := by
  unfold restoreSignalContext
  rw [if_pos accepted]
  exact ⟨_, _, rfl, rfl, rfl⟩

theorem restore_rejected (signals : SignalState) (bus : Bus)
    (rejected : acceptsStack frame.sp = false) :
    restoreSignalContext signals frame bus = (none, bus) := by
  simp [restoreSignalContext, rejected]

theorem setup_cases (signals : SignalState) (frame : ExceptionFrame) (bus : Bus) :
    (deliveryEnds signals frame.sp = true ∧
      ∃ code, (setupSignalDelivery signals frame bus).1 = .exited code) ∨
    (deliveryEnds signals frame.sp = false ∧
      ∃ delivered next after, (setupSignalDelivery signals frame bus).1 =
        .returned delivered next after ∧ after.spsr = frame.spsr) := by
  unfold deliveryEnds setupSignalDelivery
  cases nextSignal signals with
  | none => exact .inr ⟨rfl, _, _, _, rfl, rfl⟩
  | some signum =>
    by_cases defaulted : signals.handlers signum = sigDfl
    · by_cases fatal : defaultAction signum = .terminate <;> simp [defaulted, fatal]
    by_cases ignored : signals.handlers signum = sigIgn
    · simp [ignored, show sigIgn ≠ sigDfl by decide]
    by_cases accepted : acceptsStack (frame.sp - frameSize) = true <;>
      simp [defaulted, ignored, accepted]

def StatusKept (s after : System) : Prop :=
  ∀ id task, after.tasks id = some task → ∃ before, s.tasks id = some before ∧
    task.entered = before.entered ∧ task.resumed = before.resumed ∧
    (task.exited = false → before.exited = false)

theorem statusKept_refl (s : System) : StatusKept s s :=
  fun _ task found => ⟨task, found, rfl, rfl, fun running => running⟩

variable {id : UInt32}

theorem statusKept_set (found : s.tasks id = some before) (entered : task.entered = before.entered)
    (resumed : task.resumed = before.resumed)
    (running : task.exited = false → before.exited = false) : StatusKept s (setTask s id task) := by
  intro other current lookup
  rcases setTask_lookup lookup with ⟨rfl, rfl⟩ | old
  · exact ⟨before, found, entered, resumed, running⟩
  · exact ⟨current, old, rfl, rfl, fun alive => alive⟩

theorem statusKept_unprivileged (kept : StatusKept s after)
    (holds : Unprivileged s) : Unprivileged after := by
  intro id task found running
  rcases kept id task found with ⟨before, lookup, entered, resumed, alive⟩
  rw [entered, resumed]
  exact holds id before lookup (alive running)

theorem sysKill_kept (s : System) (callerId : UInt32) (caller : Task) (a0 a1 : UInt64) :
    StatusKept s (sysKill s callerId caller a0 a1).2 := by
  obtain ⟨sent, outcome, _⟩ := sysKill_sent s callerId caller a0 a1
  generalize (sysKill s callerId caller a0 a1).2 = after at *
  cases outcome with
  | refused | dropped => exact statusKept_refl s
  | ended found => exact statusKept_set found rfl rfl (fun impossible => by cases impossible)
  | pended found => exact statusKept_set found rfl rfl (fun alive => alive)

theorem dispatchSyscall_kept (found : s.tasks id = some task) (running : task.exited = false)
    (number : UInt32) (frame : ExceptionFrame) (bus : Bus) (env : Environment) :
    StatusKept s (dispatchSyscall s id task number frame bus env).2.1 := by
  unfold dispatchSyscall
  split
  · exact statusKept_set found rfl rfl (fun alive => alive)
  split
  · exact statusKept_set found rfl rfl (fun alive => alive)
  split
  · exact sysKill_kept s id task _ _
  split
  · exact statusKept_refl s
  · exact statusKept_set found rfl rfl (fun _ => running)

theorem eret_unprivileged (holds : Unprivileged s) (user : entry.spsr &&& modeMask = 0)
    (same : frame.spsr &&& statusMask = entry.spsr &&& statusMask) :
    Unprivileged (eret s id entry frame) := by
  unfold eret
  cases found : s.tasks id with
  | none => exact holds
  | some task =>
    intro other current lookup
    rcases setTask_lookup lookup with ⟨rfl, rfl⟩ | old
    · exact fun _ => (status_iff user).mp same
    · exact holds other current old

theorem deliver_unprivileged (bus : Bus) (holds : Unprivileged s)
    (user : entry.spsr &&& modeMask = 0)
    (same : ∀ task, s.tasks id = some task → task.exited = false →
      deliveryEnds task.signals frame.sp = false →
      frame.spsr &&& statusMask = entry.spsr &&& statusMask) :
    Unprivileged (deliver s id entry frame bus) := by
  unfold deliver
  cases found : s.tasks id with
  | none => exact holds
  | some task =>
    by_cases ended : task.exited = true
    · simp only [ended, if_true]
      exact holds
    have running : task.exited = false := Bool.eq_false_iff.mpr ended
    rcases setup_cases task.signals frame bus with
      ⟨_, code, result⟩ | ⟨survives, delivered, next, after, result, kept⟩
    · simp only [running, result]
      exact statusKept_unprivileged
        (statusKept_set found rfl rfl (fun impossible => by cases impossible)) holds
    simp only [running, result]
    refine eret_unprivileged ?_ user ?_
    · exact statusKept_unprivileged (statusKept_set found rfl rfl (fun _ => running)) holds
    · rw [kept]
      exact same task found running survives

/-- A task that delivery does not end is there afterwards, with the status of the frame. -/
theorem deliver_resumes (entry : ExceptionFrame) (bus : Bus) (found : s.tasks id = some task)
    (running : task.exited = false) (survives : deliveryEnds task.signals frame.sp = false) :
    ∃ last, (deliver s id entry frame bus).tasks id = some last ∧ last.exited = false ∧
      last.entered = entry.spsr ∧ last.resumed = frame.spsr := by
  rcases setup_cases task.signals frame bus with
    ⟨ends, _⟩ | ⟨_, delivered, next, after, result, kept⟩
  · rw [survives] at ends
    cases ends
  · refine ⟨{ task with signals := next, entered := entry.spsr, resumed := after.spsr }, ?_,
      running, rfl, kept⟩
    simp only [deliver, found, running, Bool.false_eq_true, if_false, result, eret, setTask_self]

/-- The frame after the dispatcher: the trap's own status word, unless an accepted
sigreturn replaced it. -/
theorem dispatch_cases (found : s.tasks id = some task) (running : task.exited = false)
    (bus : Bus) (env : Environment) :
    (((frame.x 8).toUInt32 ≠ sysSigreturn ∨ acceptsStack frame.sp = false) ∧
      StatusKept s (dispatch s id task frame bus env).1 ∧
      (dispatch s id task frame bus env).2.1.spsr = frame.spsr) ∨
    ((frame.x 8).toUInt32 = sysSigreturn ∧ acceptsStack frame.sp = true ∧
      ∃ after next, dispatch s id task frame bus env = (setTask s id { task with
            signals := { task.signals with blocked := savedBlocked bus.memory frame } },
            after, next) ∧
        after.spsr = safeSpsr (savedWord bus.memory frame spsrOffset) frame.spsr ∧
        after.sp = savedWord bus.memory frame spOffset) := by
  by_cases returning : (frame.x 8).toUInt32 = sysSigreturn
  · cases accepted : acceptsStack frame.sp with
    | false =>
      left
      simp only [dispatch, returning, if_true, restore_rejected task.signals bus accepted]
      exact ⟨.inr trivial, statusKept_refl s, trivial⟩
    | true =>
      right
      rcases restore_accepted task.signals bus accepted with
        ⟨after, next, restored, spsr, sp⟩
      refine ⟨returning, rfl, after, next, ?_, spsr, sp⟩
      simp only [dispatch, returning, if_true, restored]
  · left
    simp only [dispatch, returning, if_false]
    exact ⟨.inl returning, dispatchSyscall_kept found running _ frame bus env, trivial⟩

theorem sync_unprivileged (holds : Unprivileged s) (found : s.tasks id = some task)
    (taken : TakenFrom task frame) (allowed : PresentsOwnStatus s (.sync id frame memory env)) :
    Unprivileged (handleEl0Sync s id task frame (idle memory) env) := by
  rcases taken with ⟨running, user, _⟩
  unfold handleEl0Sync
  by_cases syscall : exceptionClass frame = svcA64
  · simp only [syscall, if_true]
    rcases dispatch_cases found running (idle memory) env with
      ⟨_, kept, status⟩ | ⟨returning, accepted, after, next, result, spsr, sp⟩
    · refine deliver_unprivileged _ (statusKept_unprivileged kept holds) user ?_
      intro _ _ _ _
      rw [status]
    rw [result]
    refine deliver_unprivileged _ ?_ user ?_
    · exact statusKept_unprivileged (statusKept_set found rfl rfl (fun alive => alive)) holds
    intro current lookup _ survives
    cases (setTask_self ..).symm.trans lookup
    rw [sp] at survives
    rw [spsr, safeSpsr_status]
    exact allowed task found syscall returning accepted survives
  · simp only [syscall, if_false]
    split
    · exact eret_unprivileged holds user rfl
    · exact statusKept_unprivileged
        (statusKept_set found rfl rfl (fun impossible => by cases impossible)) holds

theorem step_unprivileged (holds : Unprivileged s) (allowed : PresentsOwnStatus s event)
    (step : Step s event after) : Unprivileged after := by
  cases event with
  | spawn id viper parentId =>
    rcases step with ⟨_, rfl⟩
    intro other task lookup
    rcases setTask_lookup lookup with ⟨rfl, rfl⟩ | old
    · exact fun _ => ⟨UInt64.zero_and, rfl⟩
    · exact holds other task old
  | sync id frame memory env =>
    rcases step with ⟨task, found, taken, rfl⟩
    exact sync_unprivileged holds found taken allowed
  | irq id frame =>
    rcases step with ⟨task, found, taken, rfl⟩
    exact eret_unprivileged holds taken.2.1 rfl

/-- A sigreturn that resumes with other status bits leaves user mode, or changes
the interrupt masks. -/
theorem unprivileged_presents (step : Step s event after) (holds : Unprivileged after) :
    PresentsOwnStatus s event := by
  cases event with
  | spawn id viper parentId => trivial
  | irq id frame => trivial
  | sync id frame memory env =>
    intro task found syscall returning accepted survives
    rcases step with ⟨other, lookup, ⟨running, user, _⟩, final⟩
    simp only [handleEl0Sync, syscall, if_true] at final
    have same : other = task := Option.some.inj (lookup.symm.trans found)
    subst other
    rcases dispatch_cases found running (idle memory) env with
      ⟨plain, _⟩ | ⟨_, _, restored, next, result, spsr, sp⟩
    · rcases plain with different | rejected
      · exact absurd returning different
      · rw [accepted] at rejected
        cases rejected
    rw [result] at final
    have present := setTask_self s id { task with
      signals := { task.signals with blocked := savedBlocked memory frame } }
    rcases deliver_resumes frame next present running (sp ▸ survives) with
      ⟨last, there, alive, entered, resumed⟩
    have status := holds id last (final ▸ there) alive
    rw [entered, resumed, spsr] at status
    rw [← safeSpsr_status (savedWord memory frame spsrOffset) frame.spsr]
    exact (status_iff user).mpr status

/-- The histories in which every task always resumes in user mode with its own
interrupt masks are exactly those in which each sigreturn that resumes finds the
trap's own status bits on the stack. -/
theorem user_mode_iff_own_status_presented {history : List (Event × System)}
    (trace : Trace Step boot history) :
    Trace (Guarded PresentsOwnStatus Step) boot history ↔
      ∀ visited ∈ history, Unprivileged visited.2 := by
  have start : Unprivileged boot := by
    intro id task found
    cases found
  exact trace_guarded_iff (fun _ _ _ holds allowed step => step_unprivileged holds allowed step)
    (fun _ holds => holds) (fun _ _ _ _ step holds => unprivileged_presents step holds) start trace

def sigreturnTrap : ExceptionFrame :=
  { x := fun register => if register = 8 then 0x92 else 0
    lr := 0, sp := 0x80000000, elr := 0x80001000, spsr := 0, esr := 0x56000000, far := 0 }

def quiet : Environment := ⟨ok, fun _ => 0, false, false⟩

def firstTask : Task :=
  { viper := 1, parentId := 0, idle := false, exited := false, signals := initSignalState
    entered := 0, resumed := 0 }

def sigreturnHistory (memory : Memory) : List (Event × System) :=
  [(.spawn 1 1 0, setTask boot 1 firstTask),
    (.sync 1 sigreturnTrap memory quiet, handleEl0Sync (setTask boot 1 firstTask) 1 firstTask
      sigreturnTrap (idle memory) quiet)]

theorem sigreturnHistory_trace (memory : Memory) : Trace Step boot (sigreturnHistory memory) := by
  refine ⟨⟨rfl, rfl⟩, ⟨firstTask, setTask_self boot 1 firstTask, ?_, rfl⟩, trivial⟩
  exact ⟨rfl, by decide, by decide⟩

theorem zero_status_resumes : Trace Step boot (sigreturnHistory fun _ => 0) ∧
    ∀ visited ∈ sigreturnHistory (fun _ => 0), Unprivileged visited.2 := by
  have trace := sigreturnHistory_trace fun _ => 0
  refine ⟨trace, (user_mode_iff_own_status_presented trace).mp ?_⟩
  refine ⟨⟨trivial, trace.1⟩, ⟨?_, trace.2.1⟩, trivial⟩
  intro _ _ _ _ _ _
  decide

/-- A stack whose status word, at offset 264, is 0x3C5: EL1h with all masks set. -/
def forgedStack : Memory := fun address =>
  if address = 0x80000108 then 0xC5 else if address = 0x80000109 then 0x03 else 0

theorem forged_status_escalates :
    ¬ ∀ history, Trace Step boot history → ∀ visited ∈ history, Unprivileged visited.2 := by
  intro always
  have trace := sigreturnHistory_trace forgedStack
  have last := always _ trace (.sync 1 sigreturnTrap forgedStack quiet, _)
    (.tail _ (List.mem_singleton.mpr rfl))
  have presented := unprivileged_presents trace.2.1 last firstTask
    (setTask_self boot 1 firstTask) (by decide) (by decide) (by decide) (by decide)
  exact absurd presented (by decide)

end ViperDos.Signals
