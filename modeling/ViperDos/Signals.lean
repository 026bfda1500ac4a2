import ViperDos.ByteMemory
import Mathlib.Algebra.GroupWithZero.Nat
import Mathlib.Data.List.FinRange
import Mathlib.Logic.Function.Basic

/-!
Signals of kernel/sched/signal.cpp with the code that reaches them: the EL0
synchronous exception handler, the syscall dispatcher and the signal syscalls.
A task's arrays of 32 handlers, flags and masks are functions read below 32.
Console output is left out. System calls other than the signal ones, and page
fault handling, change neither a task's signal state nor the saved program
status, so their outcome is part of the event that reports the trap.
-/

namespace ViperDos.Signals

open ByteMemory

instance registers_nonzero : NeZero 30 := ⟨Nat.succ_ne_zero 29⟩

structure ExceptionFrame where
  x : Fin 30 → UInt64
  lr : UInt64
  sp : UInt64
  elr : UInt64
  spsr : UInt64
  esr : UInt64
  far : UInt64

structure SignalState where
  handlers : Nat → UInt64
  handlerFlags : Nat → UInt32
  handlerMask : Nat → UInt32
  blocked : UInt32
  pending : UInt32

def initSignalState : SignalState where
  handlers := fun _ => 0
  handlerFlags := fun _ => 0
  handlerMask := fun _ => 0
  blocked := 0
  pending := 0

def nsig : Nat := 32
def sigKill : Nat := 9
def sigTerm : Nat := 15
def sigCont : Nat := 18
def sigStop : Nat := 19
def sigSegv : Nat := 11

def sigDfl : UInt64 := 0
def sigIgn : UInt64 := 1

def saNodefer : UInt32 := 4
def saResethand : UInt32 := 8

inductive Action where
  | terminate | ignore | stop | resume
  deriving DecidableEq

def defaultAction (signum : Nat) : Action :=
  if signum = 17 ∨ signum = 23 ∨ signum = 28 then .ignore
  else if signum = 19 ∨ signum = 20 ∨ signum = 21 ∨ signum = 22 then .stop
  else if signum = 18 then .resume
  else .terminate

def signalBit (signum : Nat) : UInt32 := (1 : UInt32) <<< UInt32.ofNat signum

def deliverable (signals : SignalState) : UInt32 := signals.pending &&& ~~~signals.blocked

/-- The lowest deliverable signal; bit 0 is never looked at. -/
def nextSignal (signals : SignalState) : Option Nat :=
  (List.range' 1 (nsig - 1)).find? fun i => (deliverable signals &&& signalBit i) != 0

def clearPending (signals : SignalState) (signum : Nat) : SignalState :=
  { signals with pending := signals.pending &&& ~~~signalBit signum }

-- Offsets in the signal frame; `x[i]` stands at `8 * i`, up to `x[30]`.
def registerOffset (i : Nat) : UInt64 := UInt64.ofNat (8 * i)
def spOffset : UInt64 := 248
def elrOffset : UInt64 := 256
def spsrOffset : UInt64 := 264
def signumOffset : UInt64 := 272
def blockedOffset : UInt64 := 276
def trampolineOffset : UInt64 := 280

/-- `sizeof(SignalFrame)`, rounded up to 16 bytes. -/
def frameSize : UInt64 := (296 + 15) &&& ~~~(15 : UInt64)

def acceptsStack (address : UInt64) : Bool :=
  !(address < 0x1000 || 0x800000000000 ≤ address)

inductive Outcome where
  | returned (delivered : Bool) (signals : SignalState) (frame : ExceptionFrame)
  | exited (code : Int)

def saveRegisters (frame : ExceptionFrame) (base : UInt64) : List (Fin 30) → Bus → Bus
  | [], bus => bus
  | i :: rest, bus =>
    saveRegisters frame base rest (store64 bus (base + registerOffset i) (frame.x i))

section

variable (signals : SignalState) (frame : ExceptionFrame)

def saveContext (signum : Nat) (base : UInt64) (bus : Bus) : Bus :=
  let bus := saveRegisters frame base (List.finRange 30) bus
  let bus := store64 bus (base + registerOffset 30) frame.lr
  let bus := store64 bus (base + spOffset) frame.sp
  let bus := store64 bus (base + elrOffset) frame.elr
  let bus := store64 bus (base + spsrOffset) frame.spsr
  let bus := store32 bus (base + signumOffset) (UInt32.ofNat signum)
  let bus := store32 bus (base + blockedOffset) signals.blocked
  let bus := store64 bus (base + trampolineOffset) 0xD2801200D4000001
  store64 bus (base + trampolineOffset + 8) 0

def enterHandler (signals : SignalState) (signum : Nat) : SignalState :=
  let cleared := clearPending signals signum
  let own := if signals.handlerFlags signum &&& saNodefer = 0 then signalBit signum else 0
  { cleared with
    blocked := cleared.blocked ||| (signals.handlerMask signum ||| own)
    handlers :=
      if signals.handlerFlags signum &&& saResethand = 0 then signals.handlers
      else Function.update signals.handlers signum sigDfl }

def setupSignalDelivery (bus : Bus) : Outcome × Bus :=
  match nextSignal signals with
  | none => (.returned false signals frame, bus)
  | some signum =>
    let handler := signals.handlers signum
    if handler = sigDfl then
      if defaultAction signum = .terminate then (.exited (-(128 + (signum : Int))), bus)
      else (.returned false (clearPending signals signum) frame, bus)
    else if handler = sigIgn then (.returned false (clearPending signals signum) frame, bus)
    else
      let newSp := frame.sp - frameSize
      if acceptsStack newSp then
        (.returned true (enterHandler signals signum)
          { frame with
            x := Function.update frame.x 0 (UInt64.ofNat signum)
            lr := newSp + trampolineOffset
            sp := newSp
            elr := handler },
          saveContext signals frame signum newSp bus)
      else (.exited (-(sigSegv : Int)), bus)

def loadRegisters (base : UInt64) : List (Fin 30) → ExceptionFrame → Bus →
    ExceptionFrame × Bus
  | [], frame, bus => (frame, bus)
  | i :: rest, frame, bus =>
    let (value, next) := load64 bus (base + registerOffset i)
    loadRegisters base rest { frame with x := Function.update frame.x i value } next

def safeSpsr (saved current : UInt64) : UInt64 :=
  (saved &&& 0xFFFFFFFF0FFFFFFF) ||| (current &&& 0xF0000000)

def restoreSignalContext (bus : Bus) : Option (SignalState × ExceptionFrame) × Bus :=
  let base := frame.sp
  if acceptsStack base then
    -- the signal number is read for the log line
    let (_, bus) := load32 bus (base + signumOffset)
    let (restored, bus) := loadRegisters base (List.finRange 30) frame bus
    let (lr, bus) := load64 bus (base + registerOffset 30)
    let (sp, bus) := load64 bus (base + spOffset)
    let (elr, bus) := load64 bus (base + elrOffset)
    let (spsr, bus) := load64 bus (base + spsrOffset)
    let (blocked, bus) := load32 bus (base + blockedOffset)
    (some ({ signals with blocked },
      { restored with lr, sp, elr, spsr := safeSpsr spsr frame.spsr }), bus)
  else (none, bus)

end

end ViperDos.Signals
