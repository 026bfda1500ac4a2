import ViperDos.SignalPrivilege

/-!
Blocked signals, over runs of sigaction, sigprocmask, kill, delivery and sigreturn. Delivery
passes over the signals a task blocks, but `send_signal` does not look at the mask: where the
task has no handler of its own for it, a blocked signal takes its default action at once or
is dropped. Of the four places that write the mask only sigprocmask keeps SIGKILL and
SIGSTOP out of it.
-/

namespace ViperDos.Signals

open ByteMemory Transition Function

def has (mask : UInt32) (signum : Nat) : Bool := mask.toBitVec.getLsbD signum

def Clear (mask : UInt32) : Prop := ∀ signum, uncatchable signum = true → has mask signum = false

inductive MaskOp where
  | sigaction (a0 act oldact : UInt64) (bus : Bus)
  | sigprocmask (a0 set oldset : UInt64) (bus : Bus)
  | kill (a0 a1 : UInt64)
  | delivery (frame : ExceptionFrame) (bus : Bus)
  | sigreturn (frame : ExceptionFrame) (bus : Bus)

def performOp (s : System) (id : UInt32) (task : Task) : MaskOp → System
  | .sigaction a0 act oldact bus =>
    setTask s id { task with signals := (sysSigaction task.signals a0 act oldact bus).2.1 }
  | .sigprocmask a0 set oldset bus =>
    setTask s id { task with signals := (sysSigprocmask task.signals a0 set oldset bus).2.1 }
  | .kill a0 a1 => (sysKill s id task a0 a1).2
  | .delivery frame bus =>
    match (setupSignalDelivery task.signals frame bus).1 with
    | .returned _ signals _ => setTask s id { task with signals }
    | .exited _ => setTask s id { task with exited := true }
  | .sigreturn frame bus =>
    match (restoreSignalContext task.signals frame bus).1 with
    | some (signals, _) => setTask s id { task with signals }
    | none => s

def MaskStep (s : System) (label : UInt32 × MaskOp) (after : System) : Prop :=
  ∃ task, s.tasks label.1 = some task ∧ after = performOp s label.1 task label.2

/-- What masking asks of a step: a blocked signal is not the one that delivery acts on, and it
stays pending while it stays blocked. A task that is sent one is not ended by it, and
has it pending if the call succeeds. -/
def Masked (s : System) (label : UInt32 × MaskOp) (after : System) : Prop :=
  ∀ id task signum, s.tasks id = some task → has task.signals.blocked signum = true →
    uncatchable signum = false →
    (∀ frame bus, label = (id, .delivery frame bus) → nextSignal task.signals ≠ some signum) ∧
    ∀ next, after.tasks id = some next →
      (has task.signals.pending signum = true → has next.signals.pending signum = true) ∧
      ∀ callerId a0 a1, label = (callerId, .kill a0 a1) → a0.toUInt32 = id → killSignum a1 = signum →
        next.exited = task.exited ∧ ∀ caller, s.tasks callerId = some caller →
          (sysKill s callerId caller a0 a1).1.verr = 0 → has next.signals.pending signum = true

/-- A signal is sent to a task that blocks it only if the task has a handler for it, and
the masks that delivery and sigreturn install have neither SIGKILL nor SIGSTOP. -/
def Respectful (s : System) : UInt32 × MaskOp → Prop
  | (_, .kill a0 a1) => ∀ target, s.tasks a0.toUInt32 = some target →
      has target.signals.blocked (killSignum a1) = true →
        target.signals.handlers (killSignum a1) ≠ sigDfl ∧
          target.signals.handlers (killSignum a1) ≠ sigIgn
  | (id, .delivery _ _) => ∀ task signum, s.tasks id = some task →
      nextSignal task.signals = some signum → task.signals.handlers signum ≠ sigDfl →
        task.signals.handlers signum ≠ sigIgn → Clear (task.signals.handlerMask signum)
  | (_, .sigreturn frame bus) => Clear (savedBlocked bus.memory frame)
  | _ => True

@[grind =] theorem has_or (left right : UInt32) (signum : Nat) :
    has (left ||| right) signum = (has left signum || has right signum) := by
  simp [has]

@[grind =] theorem has_andNot (left right : UInt32) (signum : Nat) :
    has (left &&& ~~~right) signum = (has left signum && !has right signum) := by
  by_cases small : signum < 32
  · simp [has, small]
  · simp [has, BitVec.getLsbD_of_ge _ _ (Nat.le_of_not_lt small)]

variable {signum : Nat} {signals : SignalState} {frame last : ExceptionFrame} {bus : Bus}
  {delivered sent : Bool} {task next : Task} {s after : System} {label : UInt32 × MaskOp}

theorem signalBit_toBitVec (small : signum < 32) :
    (signalBit signum).toBitVec = BitVec.twoPow 32 signum := by
  simp [signalBit, BitVec.twoPow_eq, Nat.mod_eq_of_lt small]

@[grind =] theorem has_signalBit (small : signum < 32) (other : Nat) :
    has (signalBit signum) other = decide (signum = other) := by
  simp [has, signalBit_toBitVec small, BitVec.getLsbD_twoPow, small]

theorem nextSignal_some (next : nextSignal signals = some signum) :
    signum < 32 ∧ has signals.pending signum = true ∧ has signals.blocked signum = false := by
  have range := List.mem_range'_1.mp (List.mem_of_find?_eq_some next)
  have small : signum < 32 := by
    unfold nsig at range
    omega
  have nonzero : deliverable signals &&& signalBit signum ≠ 0 := by simpa using List.find?_some next
  have set : has (deliverable signals) signum = true := by
    by_contra unset
    apply nonzero
    apply UInt32.toBitVec_inj.mp
    rw [UInt32.toBitVec_and, signalBit_toBitVec small, BitVec.and_twoPow]
    exact if_neg unset
  refine ⟨small, ?_⟩
  simpa [deliverable, has_andNot] using set

structure Keeps (before after : SignalState) : Prop where
  clear : Clear before.blocked ∧ Clear before.pending → Clear after.blocked ∧ Clear after.pending
  pending : ∀ signum, has before.blocked signum = true → has before.pending signum = true →
    has after.pending signum = true

theorem keeps_refl (signals : SignalState) : Keeps signals signals :=
  ⟨id, fun _ _ pending => pending⟩

theorem keeps_blocked {after : SignalState} (pending : after.pending = signals.pending)
    (clear : Clear signals.blocked → Clear after.blocked) : Keeps signals after :=
  ⟨fun clean => ⟨clear clean.1, pending ▸ clean.2⟩, fun _ _ set => pending ▸ set⟩

theorem sysSigaction_keeps (signals : SignalState) (a0 act oldact : UInt64) (bus : Bus) :
    Keeps signals (sysSigaction signals a0 act oldact bus).2.1 := by
  unfold sysSigaction
  dsimp only
  repeat' split
  all_goals exact keeps_blocked rfl id

theorem sysSigprocmask_keeps (signals : SignalState) (a0 set oldset : UInt64) (bus : Bus) :
    Keeps signals (sysSigprocmask signals a0 set oldset bus).2.1 := by
  have filtered : ∀ requested : UInt32,
      Clear (requested &&& ~~~(signalBit sigKill ||| signalBit sigStop)) := by
    grind [Clear, uncatchable, sigKill, sigStop]
  unfold sysSigprocmask
  dsimp only
  repeat' split
  all_goals exact keeps_blocked rfl (by grind [Clear])

theorem clearPending_keeps (next : nextSignal signals = some signum) :
    Keeps signals (clearPending signals signum) := by
  obtain ⟨small, _, unblocked⟩ := nextSignal_some next
  constructor <;> grind [clearPending, Clear]

theorem enterHandler_keeps (next : nextSignal signals = some signum)
    (mask : Clear (signals.handlerMask signum)) : Keeps signals (enterHandler signals signum) := by
  obtain ⟨small, pending, _⟩ := nextSignal_some next
  have cleared := clearPending_keeps next
  refine ⟨fun clean => ⟨fun other forced => ?_, (cleared.clear clean).2⟩, cleared.pending⟩
  grind [enterHandler, clearPending, Clear]

theorem setup_keeps {after : SignalState}
    (mask : ∀ signum, nextSignal signals = some signum → signals.handlers signum ≠ sigDfl →
      signals.handlers signum ≠ sigIgn → Clear (signals.handlerMask signum))
    (result : (setupSignalDelivery signals frame bus).1 = .returned delivered after last) :
    Keeps signals after := by
  unfold setupSignalDelivery at result
  grind [keeps_refl, clearPending_keeps, enterHandler_keeps]

def Kept (s after : System) : Prop := ∀ id next, after.tasks id = some next →
  ∃ task, s.tasks id = some task ∧ Keeps task.signals next.signals

theorem kept_refl (s : System) : Kept s s := fun _ task found => ⟨task, found, keeps_refl _⟩

variable {id : UInt32}

theorem kept_set (found : s.tasks id = some task) (keeps : Keeps task.signals next.signals) :
    Kept s (setTask s id next) := by
  intro other current lookup
  rcases setTask_lookup lookup with ⟨rfl, rfl⟩ | old
  · exact ⟨task, found, keeps⟩
  · exact ⟨current, old, keeps_refl _⟩

theorem sent_kept (outcome : Sent s id signum sent after) : Kept s after := by
  cases outcome with
  | refused | dropped => exact kept_refl s
  | ended found => exact kept_set found (keeps_refl _)
  | pended found small caught =>
    refine kept_set found ⟨?_, ?_⟩ <;> grind [Clear]

theorem step_kept (allowed : Respectful s label) (step : MaskStep s label after) :
    Kept s after := by
  obtain ⟨id, op⟩ := label
  obtain ⟨task, found, rfl⟩ := step
  cases op with
  | sigaction a0 act oldact bus => exact kept_set found (sysSigaction_keeps _ _ _ _ _)
  | sigprocmask a0 set oldset bus => exact kept_set found (sysSigprocmask_keeps _ _ _ _ _)
  | kill a0 a1 =>
    obtain ⟨sent, outcome, _⟩ := sysKill_sent s id task a0 a1
    exact sent_kept outcome
  | delivery frame bus =>
    unfold performOp
    dsimp only
    split
    next result => exact kept_set found (setup_keeps (fun signum => allowed task signum found) result)
    · exact kept_set found (keeps_refl _)
  | sigreturn frame bus =>
    cases accepted : acceptsStack frame.sp with
    | false =>
      simp only [performOp, restore_rejected task.signals bus accepted]
      exact kept_refl s
    | true =>
      obtain ⟨last, next, restored, _⟩ := restore_accepted task.signals bus accepted
      simp only [performOp, restored]
      exact kept_set found (keeps_blocked rfl fun _ => allowed)

theorem step_masked (allowed : Respectful s label) (step : MaskStep s label after) :
    Masked s label after := by
  intro id task signum found blocked caught
  refine ⟨?_, fun next there => ?_⟩
  · rintro frame bus rfl next
    rw [(nextSignal_some next).2.2] at blocked
    cases blocked
  obtain ⟨before, same, keeps⟩ := step_kept allowed step id next there
  cases found.symm.trans same
  refine ⟨fun pending => keeps.pending signum blocked pending, ?_⟩
  -- a signal that is sent finds a handler
  rintro callerId a0 a1 rfl rfl rfl
  obtain ⟨caller, running, rfl⟩ := step
  obtain ⟨sent, outcome, answer⟩ := sysKill_sent s callerId caller a0 a1
  obtain ⟨handled, minded⟩ := allowed task found blocked
  change (sysKill s callerId caller a0 a1).2.tasks _ = _ at there
  generalize (sysKill s callerId caller a0 a1).2 = last at there outcome
  cases outcome with
  | refused | dropped | ended => grind
  | pended lookup small =>
    cases found.symm.trans lookup
    cases (setTask_self ..).symm.trans there
    exact ⟨rfl, fun _ _ _ => by grind⟩

def Clean (s : System) : Prop := ∀ id task, s.tasks id = some task →
  Clear task.signals.blocked ∧ Clear task.signals.pending

def blockingTask (handler : UInt64) : Task := { firstTask with
  signals := { initSignalState with handlers := fun _ => handler, blocked := signalBit sigTerm } }

def blocking (handler : UInt64) : System := setTask boot 1 (blockingTask handler)

theorem blocking_clean (handler : UInt64) : Clean (blocking handler) := by
  intro id task found
  rcases setTask_lookup found with ⟨_, rfl⟩ | old
  · change Clear (signalBit sigTerm) ∧ Clear 0
    simp only [Clear, uncatchable, Bool.or_eq_true, decide_eq_true_eq, forall_eq_or_imp, forall_eq]
    decide
  · cases old

end ViperDos.Signals
