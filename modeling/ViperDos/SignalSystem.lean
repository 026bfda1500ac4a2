import ViperDos.Signals
import ViperDos.Transition

/-!
The way into and out of the kernel for a user task: the EL0 exception handler,
the dispatcher with the signal syscalls, and the events that drive a set of
tasks. User code and other threads may do anything to memory between two traps,
so every trap brings its own memory; it cannot touch the mode and mask bits of
its processor state.
-/

namespace ViperDos.Signals

open ByteMemory Function

def userCodeBase : UInt64 := 0x80000000
def userAddrMax : UInt64 := 0x7FFFFFFFFFFF

def isValidUserAddress (addr size : UInt64) : Bool :=
  if size = 0 then userCodeBase ≤ addr && addr ≤ userAddrMax
  else if addr < userCodeBase then false
  else
    let last := addr + size - 1
    if last < addr then false else !(userAddrMax < last)

structure SyscallResult where
  verr : Int64
  res0 : UInt64
  res1 : UInt64
  res2 : UInt64

def ok : SyscallResult := ⟨0, 0, 0, 0⟩
def err (verr : Int64) : SyscallResult := ⟨verr, 0, 0, 0⟩

def verrInvalidArg : Int64 := -2
def verrNotFound : Int64 := -4
def verrPermission : Int64 := -6
def verrNotSupported : Int64 := -7

def validSignum (signum : Int32) : Bool := !(signum ≤ 0 || 32 ≤ signum)

def uncatchable (signum : Nat) : Bool := signum = sigKill || signum = sigStop

def sysSigaction (signals : SignalState) (a0 act oldact : UInt64) (bus : Bus) :
    SyscallResult × SignalState × Bus :=
  let signum := a0.toUInt32.toInt32
  let index := signum.toNatClampNeg
  if !validSignum signum then (err verrInvalidArg, signals, bus)
  else if uncatchable index then (err verrInvalidArg, signals, bus)
  else if act ≠ 0 && !isValidUserAddress act 16 then (err verrInvalidArg, signals, bus)
  else if oldact ≠ 0 && !isValidUserAddress oldact 16 then (err verrInvalidArg, signals, bus)
  else
    let bus :=
      if oldact = 0 then bus else
        let bus := store64 bus oldact (signals.handlers index)
        let bus := store32 bus (oldact + 8) (signals.handlerFlags index)
        store32 bus (oldact + 12) (signals.handlerMask index)
    if act = 0 then (ok, signals, bus) else
      let (handler, bus) := load64 bus act
      let (flags, bus) := load32 bus (act + 8)
      let (mask, bus) := load32 bus (act + 12)
      (ok, { signals with
        handlers := update signals.handlers index handler
        handlerFlags := update signals.handlerFlags index flags
        handlerMask := update signals.handlerMask index mask }, bus)

def sysSigprocmask (signals : SignalState) (a0 set oldset : UInt64) (bus : Bus) :
    SyscallResult × SignalState × Bus :=
  let how := a0.toUInt32.toInt32
  if set ≠ 0 && !isValidUserAddress set 4 then (err verrInvalidArg, signals, bus)
  else if oldset ≠ 0 && !isValidUserAddress oldset 4 then (err verrInvalidArg, signals, bus)
  else
    let bus := if oldset = 0 then bus else store32 bus oldset signals.blocked
    if set = 0 then (ok, signals, bus) else
      let (requested, bus) := load32 bus set
      let newMask := requested &&& ~~~(signalBit sigKill ||| signalBit sigStop)
      if how = 0 then (ok, { signals with blocked := signals.blocked ||| newMask }, bus)
      else if how = 1 then (ok, { signals with blocked := signals.blocked &&& ~~~newMask }, bus)
      else if how = 2 then (ok, { signals with blocked := newMask }, bus)
      else (err verrInvalidArg, signals, bus)

def sysSigpending (signals : SignalState) (set : UInt64) (bus : Bus) : SyscallResult × Bus :=
  if !isValidUserAddress set 4 then (err verrInvalidArg, bus)
  else (ok, store32 bus set signals.pending)

/-- `entered` is the program status of the last trap from user mode, `resumed`
the one with which the task returned from it. -/
structure Task where
  viper : UInt64
  parentId : UInt32
  idle : Bool
  exited : Bool
  signals : SignalState
  entered : UInt64
  resumed : UInt64

structure System where
  tasks : UInt32 → Option Task

variable {other : UInt32} {current : Task}

section

variable (s : System) (id : UInt32) (task : Task)

def setTask : System :=
  ⟨update s.tasks id (some task)⟩

theorem setTask_self : (setTask s id task).tasks id = some task := by
  simp [setTask]

theorem setTask_lookup {s : System} {id : UInt32} {task : Task}
    (lookup : (setTask s id task).tasks other = some current) :
    (other = id ∧ current = task) ∨ s.tasks other = some current := by
  by_cases same : other = id
  · subst other
    rw [setTask_self] at lookup
    exact .inl ⟨rfl, (Option.some.inj lookup).symm⟩
  · exact .inr (by simpa only [setTask, update_of_ne same] using lookup)

/-- `task::kill`: every signal but SIGSTOP and SIGCONT ends the task. -/
def kill (s : System) (id : UInt32) (signum : Nat) : Bool × System :=
  match s.tasks id with
  | none => (false, s)
  | some task =>
    if task.idle then (false, s)
    else if signum = sigStop ∨ signum = sigCont then (true, s)
    else (true, setTask s id { task with exited := true })

def sendSignal (signum : Nat) : Bool × System :=
  let handler := task.signals.handlers signum
  if signum = 0 ∨ nsig ≤ signum then (false, s)
  else if signum = sigKill then kill s id signum
  else if signum = sigStop then (true, s)
  else if handler = sigIgn then (true, s)
  else if handler ≠ sigDfl then
    (true, setTask s id { task with
      signals := { task.signals with pending := task.signals.pending ||| signalBit signum } })
  else if defaultAction signum = .terminate then kill s id signum
  else (true, s)

end

def sysKill (s : System) (callerId : UInt32) (caller : Task) (a0 a1 : UInt64) :
    SyscallResult × System :=
  let pid := a0.toInt64
  let signum := a1.toUInt32.toInt32
  if !validSignum signum then (err verrInvalidArg, s)
  else if pid ≤ 0 then (err verrNotSupported, s)
  else
    let targetId := a0.toUInt32
    match s.tasks targetId with
    | none => (err verrNotFound, s)
    | some target =>
      if caller.viper ≠ 0 && target.viper ≠ caller.viper && targetId ≠ callerId &&
          target.parentId ≠ callerId then (err verrPermission, s)
      else
        let (sent, next) := sendSignal s targetId target signum.toNatClampNeg
        (if sent then ok else err verrPermission, next)

def killSignum (a1 : UInt64) : Nat := a1.toUInt32.toInt32.toNatClampNeg

/-- What sending a signal can do: nothing, end the task, or leave the signal pending. -/
inductive Sent (s : System) (id : UInt32) (signum : Nat) : Bool → System → Prop where
  | refused : Sent s id signum false s
  | dropped {task : Task} (found : s.tasks id = some task)
      (unhandled : task.signals.handlers signum = sigDfl ∨ task.signals.handlers signum = sigIgn ∨
        uncatchable signum = true) : Sent s id signum true s
  | ended {task : Task} (found : s.tasks id = some task)
      (unhandled : task.signals.handlers signum = sigDfl ∨ uncatchable signum = true) :
      Sent s id signum true (setTask s id { task with exited := true })
  | pended {task : Task} (found : s.tasks id = some task) (small : signum < 32)
      (caught : uncatchable signum = false) : Sent s id signum true (setTask s id { task with
        signals := { task.signals with pending := task.signals.pending ||| signalBit signum } })

variable {id : UInt32}

variable {task : Task} {signum : Nat} {s : System}

theorem kill_sent (found : s.tasks id = some task)
    (unhandled : task.signals.handlers signum = sigDfl ∨ uncatchable signum = true) :
    Sent s id signum (kill s id signum).1 (kill s id signum).2 := by
  unfold kill
  grind [Sent]

theorem sendSignal_sent (found : s.tasks id = some task) (signum : Nat) :
    Sent s id signum (sendSignal s id task signum).1 (sendSignal s id task signum).2 := by
  unfold sendSignal
  grind [Sent, kill_sent, uncatchable, nsig]

theorem sysKill_sent (s : System) (callerId : UInt32) (caller : Task) (a0 a1 : UInt64) :
    ∃ sent, Sent s a0.toUInt32 (killSignum a1) sent (sysKill s callerId caller a0 a1).2 ∧
      ((sysKill s callerId caller a0 a1).1.verr = 0 → sent = true) := by
  have refused : ∀ verr, verr ≠ 0 → ∃ sent, Sent s a0.toUInt32 (killSignum a1) sent s ∧
      ((err verr).verr = 0 → sent = true) :=
    fun verr failed => ⟨false, .refused, fun success => absurd success failed⟩
  unfold sysKill
  dsimp only
  split
  · exact refused _ (by decide)
  split
  · exact refused _ (by decide)
  cases found : s.tasks a0.toUInt32 with
  | none => exact refused _ (by decide)
  | some target =>
    dsimp only
    split
    · exact refused _ (by decide)
    refine ⟨_, sendSignal_sent found _, fun success => ?_⟩
    by_contra failed
    unfold killSignum at failed
    rw [if_neg failed] at success
    exact absurd success (show verrPermission ≠ 0 by decide)

/-- What code outside the signal paths does during a trap: the result of another
syscall, the memory after it, whether it ended the task, and whether a page fault
was handled. -/
structure Environment where
  result : SyscallResult
  memory : Memory
  exits : Bool
  handled : Bool

section

variable (s : System) (id : UInt32)

def dispatchSyscall (task : Task) (number : UInt32) (frame : ExceptionFrame) (bus : Bus)
    (env : Environment) : SyscallResult × System × Bus :=
  if number = 0x90 then
    let (result, signals, bus) := sysSigaction task.signals (frame.x 0) (frame.x 1) (frame.x 2) bus
    (result, setTask s id { task with signals }, bus)
  else if number = 0x91 then
    let (result, signals, bus) :=
      sysSigprocmask task.signals (frame.x 0) (frame.x 1) (frame.x 2) bus
    (result, setTask s id { task with signals }, bus)
  else if number = 0x93 then
    let (result, next) := sysKill s id task (frame.x 0) (frame.x 1)
    (result, next, bus)
  else if number = 0x94 then
    let (result, bus) := sysSigpending task.signals (frame.x 0) bus
    (result, s, bus)
  else
    (env.result, setTask s id { task with exited := env.exits },
      { bus with memory := env.memory })

def sysSigreturn : UInt32 := 0x92

def dispatch (task : Task) (frame : ExceptionFrame) (bus : Bus) (env : Environment) : System ×
    ExceptionFrame × Bus :=
  let number := (frame.x 8).toUInt32
  if number = sysSigreturn then
    match restoreSignalContext task.signals frame bus with
    | (some (signals, restored), bus) => (setTask s id { task with signals }, restored, bus)
    | (none, bus) =>
      (s, { frame with x := update frame.x 0 verrInvalidArg.toUInt64 }, bus)
  else
    let (result, next, bus) := dispatchSyscall s id task number frame bus env
    let x := update frame.x 0 result.verr.toUInt64
    let x := update x 1 result.res0
    let x := update x 2 result.res1
    (next, { frame with x := update x 3 result.res2 }, bus)

def exceptionClass (frame : ExceptionFrame) : UInt64 := (frame.esr >>> 26) &&& 0x3F
def svcA64 : UInt64 := 0x15
def instAbortLower : UInt64 := 0x20
def dataAbortLower : UInt64 := 0x24

def eret (entry frame : ExceptionFrame) : System :=
  match s.tasks id with
  | none => s
  | some task => setTask s id { task with entered := entry.spsr, resumed := frame.spsr }

/-- Delivery on the way out of a syscall. A task that the syscall ended does not
get here. -/
def deliver (entry frame : ExceptionFrame) (bus : Bus) : System :=
  match s.tasks id with
  | none => s
  | some task =>
    if task.exited then s else
      match (setupSignalDelivery task.signals frame bus).1 with
      | .returned _ signals after => eret (setTask s id { task with signals }) id entry after
      | .exited _ => setTask s id { task with exited := true }

def handleEl0Sync (task : Task) (frame : ExceptionFrame) (bus : Bus) (env : Environment) : System :=
  let ec := exceptionClass frame
  if ec = svcA64 then
    let (next, after, bus) := dispatch s id task frame bus env
    deliver next id frame after bus
  else if (ec = dataAbortLower ∨ ec = instAbortLower) ∧ env.handled = true then
    eret s id frame frame
  else setTask s id { task with exited := true }

end

inductive Event where
  | spawn (id : UInt32) (viper : UInt64) (parentId : UInt32)
  | sync (id : UInt32) (frame : ExceptionFrame) (memory : Memory) (env : Environment)
  | irq (id : UInt32) (frame : ExceptionFrame)

-- M[4:0] selects the exception level and the execution state, bits 6 to 9 are DAIF.
def modeMask : UInt64 := 0x1F
def daifMask : UInt64 := 0x3C0
def statusMask : UInt64 := 0x3DF

/-- A frame taken from a task in user mode. Code at EL0 cannot change its mode or
its interrupt masks, so they are those of the last return. -/
def TakenFrom (task : Task) (frame : ExceptionFrame) : Prop :=
  task.exited = false ∧ frame.spsr &&& modeMask = 0 ∧
    frame.spsr &&& statusMask = task.resumed &&& statusMask

def boot : System := ⟨fun _ => none⟩

def Step (s : System) : Event → System → Prop
  | .spawn id viper parentId, after =>
    s.tasks id = none ∧ after = setTask s id
      { viper, parentId, idle := false, exited := false, signals := initSignalState
        entered := 0, resumed := 0 }
  | .sync id frame memory env, after => ∃ task, s.tasks id = some task ∧
      TakenFrom task frame ∧ after = handleEl0Sync s id task frame (idle memory) env
  | .irq id frame, after => ∃ task, s.tasks id = some task ∧ TakenFrom task frame ∧
      after = eret s id frame frame

end ViperDos.Signals
