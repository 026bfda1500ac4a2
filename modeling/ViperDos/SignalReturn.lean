import ViperDos.Bits
import ViperDos.SignalMemory

/-!
The way back from a signal handler. Delivery leaves the address of two instructions in the
link register, which are to make the sigreturn call. They stand in the wrong order, with the
number of another call for another register: the call comes first, so that it is sigreturn
only if the handler happens to leave its number behind, and sigreturn takes the condition
flags from the trap.
-/

namespace ViperDos.Signals

open ByteMemory Function

/-- The instructions that the trampoline is made of, of all there are. -/
inductive Instruction where
  | svc
  | movz (register : Nat) (value : UInt64)
  | other

def decode (word : UInt32) : Instruction :=
  if word &&& 0xFFE0001F = 0xD4000001 then .svc
  else if word &&& 0xFFE00000 = 0xD2800000 then
    .movz (word &&& 0x1F).toNat ((word >>> 5) &&& 0xFFFF).toUInt64
  else .other

def firstTrap (memory : Memory) : Nat → ExceptionFrame → Option ExceptionFrame
  | 0, _ => none
  | fuel + 1, cpu =>
    let next := { cpu with elr := cpu.elr + 4 }
    match decode (UInt32.ofNat (loadBytes memory cpu.elr 4)) with
    | .svc => some next
    | .movz register value =>
      firstTrap memory fuel
        -- register 31 is the zero register here
        (if small : register < 30 then { next with x := update cpu.x ⟨register, small⟩ value }
        else if register = 30 then { next with lr := value } else next)
    | .other => none

def conditionFlags : UInt64 := 0xF0000000

/-- The two instructions make the sigreturn call, and after it the registers, the stack pointer,
the program counter, the condition flags and the mask are those of the interrupted task. -/
def Transparent (signals : SignalState) (frame exit : ExceptionFrame) (memory : Memory)
    (s : System) (id : UInt32) (task : Task) (env : Environment) : Prop :=
  ∃ trap, firstTrap memory 2 exit = some trap ∧ (trap.x 8).toUInt32 = sysSigreturn ∧
    ∃ current after bus, dispatch s id task trap (idle memory) env =
        (setTask s id current, after, bus) ∧
      after.x = frame.x ∧ after.lr = frame.lr ∧ after.sp = frame.sp ∧ after.elr = frame.elr ∧
      after.spsr &&& conditionFlags = frame.spsr &&& conditionFlags ∧
      current.signals.blocked = signals.blocked

def frameFields (signals : SignalState) (frame : ExceptionFrame) (signum : Nat) : List Field :=
  (List.finRange 30).map (fun i => ⟨8 * i, (frame.x i).toNat, 8⟩) ++
    [⟨240, frame.lr.toNat, 8⟩, ⟨248, frame.sp.toNat, 8⟩, ⟨256, frame.elr.toNat, 8⟩,
      ⟨264, frame.spsr.toNat, 8⟩, ⟨272, (UInt32.ofNat signum).toNat, 4⟩,
      ⟨276, signals.blocked.toNat, 4⟩, ⟨280, 0xD2801200D4000001, 8⟩, ⟨288, 0, 8⟩]

theorem saveRegisters_memory (frame : ExceptionFrame) (base : UInt64)
    (registers : List (Fin 30)) (bus : Bus) :
    (saveRegisters frame base registers bus).memory = storeFields base
      (registers.map fun i => ⟨8 * i.val, (frame.x i).toNat, 8⟩) bus.memory := by
  induction registers generalizing bus with
  | nil => rfl
  | cons first rest ih =>
    simp only [saveRegisters, ih, List.map_cons, storeFields, store64, registerOffset]

variable (signals : SignalState) (frame : ExceptionFrame) (signum : Nat)

theorem saveContext_memory (base : UInt64) (bus : Bus) :
    (saveContext signals frame signum base bus).memory =
      storeFields base (frameFields signals frame signum) bus.memory := by
  unfold frameFields
  rw [storeFields_append, ← saveRegisters_memory]
  simp only [saveContext, store64, store32, storeFields, UInt64.add_assoc base]
  rfl

theorem frameFields_placed :
    ((frameFields signals frame signum).Pairwise
        fun one other => one.offset + one.size ≤ other.offset) ∧
      ∀ field ∈ frameFields signals frame signum, field.offset + field.size ≤ 296 := by
  -- where the fields are does not depend on what they hold
  let layout := (List.range 34).map (fun i => (8 * i, 8)) ++
    [(272, 4), (276, 4), (280, 8), (288, 8)]
  have placed : (layout.Pairwise fun one other => one.1 + one.2 ≤ other.1) ∧
      ∀ place ∈ layout, place.1 + place.2 ≤ 296 := by decide
  rwa [show layout = (frameFields signals frame signum).map fun field => (field.offset, field.size)
    from rfl, List.pairwise_map, List.forall_mem_map] at placed

theorem loadRegisters_spec (base : UInt64) (registers : List (Fin 30)) (frame : ExceptionFrame)
    (bus : Bus) : (loadRegisters base registers frame bus).2.memory = bus.memory ∧
      ∀ i, (loadRegisters base registers frame bus).1.x i = if i ∈ registers then
        UInt64.ofNat (loadBytes bus.memory (base + registerOffset i) 8) else frame.x i := by
  induction registers generalizing frame bus with
  | nil => exact ⟨rfl, fun _ => rfl⟩
  | cons first rest ih =>
    refine ⟨(ih ..).1, fun i => ((ih ..).2 i).trans ?_⟩
    by_cases later : i ∈ rest
    · simp [later]
    by_cases here : i = first
    · simp [here]
    · simp [later, here]

def Saved (base : UInt64) (memory : Memory) : Prop :=
  ∃ signum, ∀ field ∈ frameFields signals frame signum,
    loadBytes memory (base + UInt64.ofNat field.offset) field.size = field.value % 256 ^ field.size

variable {signals frame} {entered : SignalState} {exit entry : ExceptionFrame}
  {memory later : Memory}

variable {base : UInt64} {trap : ExceptionFrame} {bus : Bus}

theorem saved_later (saved : Saved signals frame base memory)
    (above : ∀ i < 296, later (base + UInt64.ofNat i) = memory (base + UInt64.ofNat i)) :
    Saved signals frame base later := by
  obtain ⟨signum, fields⟩ := saved
  refine ⟨signum, fun field member => ?_⟩
  have ends := (frameFields_placed signals frame signum).2 field member
  rw [← fields field member]
  refine loadBytes_congr fun i inside => ?_
  rw [UInt64.add_assoc, ← UInt64.ofNat_add]
  exact above _ (by omega)

theorem restore_saved {now : SignalState} (saved : Saved signals frame trap.sp memory)
    (accepted : acceptsStack trap.sp = true) :
    ∃ after bus, restoreSignalContext now trap (idle memory) =
        (some ({ now with blocked := signals.blocked }, after), bus) ∧
      after.x = frame.x ∧ after.lr = frame.lr ∧ after.sp = frame.sp ∧ after.elr = frame.elr ∧
      after.spsr = safeSpsr frame.spsr trap.spsr := by
  obtain ⟨signum, fields⟩ := saved
  have word : ∀ {offset : Nat} {value : UInt64},
      (⟨offset, value.toNat, 8⟩ : Field) ∈ frameFields signals frame signum →
        UInt64.ofNat (loadBytes memory (trap.sp + UInt64.ofNat offset) 8) = value := by
    intro offset value member
    rw [fields _ member, Nat.mod_eq_of_lt (show value.toNat < 256 ^ 8 from value.toNat_lt),
      UInt64.ofNat_toNat]
  have mask : UInt32.ofNat (loadBytes memory (trap.sp + blockedOffset) 4) = signals.blocked := by
    have stored : loadBytes memory (trap.sp + blockedOffset) 4 = signals.blocked.toNat % 256 ^ 4 :=
      fields ⟨276, signals.blocked.toNat, 4⟩ (by simp [frameFields])
    rw [stored, Nat.mod_eq_of_lt (show _ < 256 ^ 4 from signals.blocked.toNat_lt),
      UInt32.ofNat_toNat]
  unfold restoreSignalContext
  rw [if_pos accepted]
  dsimp only
  rcases loaded : loadRegisters trap.sp (List.finRange 30) trap
    (load32 (idle memory) (trap.sp + signumOffset)).2 with ⟨restored, next⟩
  obtain ⟨same, registers⟩ := loadRegisters_spec trap.sp (List.finRange 30) trap
    (load32 (idle memory) (trap.sp + signumOffset)).2
  rw [loaded] at same registers
  have same : next.memory = memory := same
  have x : restored.x = frame.x := by
    funext i
    rw [registers, if_pos (List.mem_finRange i)]
    exact word (List.mem_append_left _ (List.mem_map.mpr ⟨i, List.mem_finRange i, rfl⟩))
  simp only [load64, load32, same, mask]
  refine ⟨_, _, rfl, x, word ?_, word ?_, word ?_, congrArg (safeSpsr · trap.spsr) (word ?_)⟩
  all_goals simp [frameFields]

/-- The first instruction that the handler returns to is the call. -/
theorem saved_traps (saved : Saved signals frame exit.sp memory)
    (returns : exit.elr = exit.sp + trampolineOffset) :
    firstTrap memory 2 exit = some { exit with elr := exit.elr + 4 } := by
  obtain ⟨signum, fields⟩ := saved
  have both : loadBytes memory (exit.sp + trampolineOffset) 8 = 0xD2801200D4000001 :=
    fields ⟨280, 0xD2801200D4000001, 8⟩ (by simp [frameFields])
  -- memory is little endian, so the low half of the word is executed first
  have first : loadBytes memory (exit.sp + trampolineOffset) 4 = 0xD4000001 := by
    have small := fun address => (memory address).toNat_lt
    simp only [loadBytes] at both ⊢
    have b0 := small (exit.sp + trampolineOffset)
    have b1 := small (exit.sp + trampolineOffset + 1)
    have b2 := small (exit.sp + trampolineOffset + 1 + 1)
    have b3 := small (exit.sp + trampolineOffset + 1 + 1 + 1)
    omega
  unfold firstTrap
  rw [returns, first]
  rfl

theorem safeSpsr_flags (saved current : UInt64) :
    safeSpsr saved current &&& conditionFlags = current &&& conditionFlags := by
  have dropped : (0xFFFFFFFF0FFFFFFF : UInt64) &&& conditionFlags = 0 := by decide
  have kept : (0xF0000000 : UInt64) &&& conditionFlags = conditionFlags := by decide
  unfold safeSpsr
  rw [Bits.or_and, UInt64.and_assoc, UInt64.and_assoc, dropped, kept, UInt64.and_zero,
    UInt64.zero_or]

theorem saved_transparent_iff (saved : Saved signals frame exit.sp memory)
    (accepted : acceptsStack exit.sp = true) (returns : exit.elr = exit.sp + trampolineOffset)
    (s : System) (id : UInt32) (task : Task) (env : Environment) :
    Transparent signals frame exit memory s id task env ↔
      (exit.x 8).toUInt32 = sysSigreturn ∧
        exit.spsr &&& conditionFlags = frame.spsr &&& conditionFlags := by
  have traps := saved_traps saved returns
  obtain ⟨after, bus, restored, x, lr, sp, elr, spsr⟩ :=
    @restore_saved signals frame memory { exit with elr := exit.elr + 4 } task.signals saved
      accepted
  have flags : after.spsr &&& conditionFlags = exit.spsr &&& conditionFlags := by
    rw [spsr, safeSpsr_flags]
  have sent : (exit.x 8).toUInt32 = sysSigreturn →
      dispatch s id task { exit with elr := exit.elr + 4 } (idle memory) env = (setTask s id
        { task with signals := { task.signals with blocked := signals.blocked } }, after, bus) := by
    intro number
    simp only [dispatch, number, if_true, restored]
  constructor
  · rintro ⟨trap, found, number, current, last, _, returned, _, _, _, _, same, _⟩
    cases traps.symm.trans found
    rw [sent number] at returned
    rw [← (Prod.mk.inj (Prod.mk.inj returned).2).1, flags] at same
    exact ⟨number, same⟩
  · rintro ⟨number, same⟩
    exact ⟨_, traps, number, _, after, bus, sent number, x, lr, sp, elr, flags.trans same, rfl⟩

/-- What delivery leaves when it goes to a handler. -/
theorem delivered_saved (delivered : setupSignalDelivery signals frame (idle memory) =
      (.returned true entered entry, bus)) :
    Saved signals frame entry.sp bus.memory ∧ acceptsStack entry.sp = true ∧
      entry.lr = entry.sp + trampolineOffset := by
  unfold setupSignalDelivery at delivered
  split at delivered
  · cases delivered
  next signum _ =>
  dsimp only at delivered
  split at delivered
  · split at delivered <;> cases delivered
  split at delivered
  · cases delivered
  split at delivered
  next accepted =>
    cases delivered
    obtain ⟨sorted, inside⟩ := frameFields_placed signals frame signum
    refine ⟨⟨signum, fun field member => ?_⟩, accepted, rfl⟩
    rw [saveContext_memory]
    exact storeFields_load (by decide) sorted inside member
  · cases delivered

/-- A handler that keeps its stack pointer and what is above it, and returns, is transparent
exactly if it leaves the number of sigreturn in `x8` and the condition flags as they were. -/
theorem handler_transparent_iff (delivered : setupSignalDelivery signals frame (idle memory) =
      (.returned true entered entry, bus)) (keeps : exit.sp = entry.sp)
    (returns : exit.elr = entry.lr)
    (above : ∀ i < 296, later (entry.sp + UInt64.ofNat i) = bus.memory (entry.sp + UInt64.ofNat i))
    (s : System) (id : UInt32) (task : Task) (env : Environment) :
    Transparent signals frame exit later s id task env ↔ (exit.x 8).toUInt32 = sysSigreturn ∧
      exit.spsr &&& conditionFlags = frame.spsr &&& conditionFlags := by
  obtain ⟨saved, accepted, link⟩ := delivered_saved delivered
  rw [← keeps] at saved accepted link above
  exact saved_transparent_iff (saved_later saved above) accepted (returns.trans link) s id task env

def userStackFrame : ExceptionFrame := { kernelStackFrame with sp := 0x90000000 }

theorem caught_delivered : ∃ entered entry bus,
    setupSignalDelivery caughtSignals userStackFrame (idle fun _ => 0) =
      (.returned true entered entry, bus) ∧ entry.x 8 = 0 ∧ entry.spsr = userStackFrame.spsr :=
  ⟨_, _, _, rfl, rfl, rfl⟩

/-- A handler that ends with the number of sigreturn in `x8`. -/
theorem lucky_handler_transparent :
    ∃ entered entry bus, setupSignalDelivery caughtSignals userStackFrame (idle fun _ => 0) =
        (.returned true entered entry, bus) ∧
      ∀ s id task env, Transparent caughtSignals userStackFrame
        { entry with elr := entry.lr, x := update entry.x 8 0x92 } bus.memory s id task env := by
  obtain ⟨entered, entry, bus, delivered, _, flags⟩ := caught_delivered
  refine ⟨entered, entry, bus, delivered, fun s id task env => ?_⟩
  refine (handler_transparent_iff delivered ?_ ?_ (fun _ _ => rfl) s id task env).mpr ⟨?_, ?_⟩
  case refine_4 => exact congrArg (· &&& conditionFlags) flags
  all_goals rfl

/-- A handler that returns at once makes another call. -/
theorem plain_handler_stranded :
    ∃ entered entry bus, setupSignalDelivery caughtSignals userStackFrame (idle fun _ => 0) =
        (.returned true entered entry, bus) ∧
      ∀ s id task env, ¬ Transparent caughtSignals userStackFrame
        { entry with elr := entry.lr } bus.memory s id task env := by
  obtain ⟨entered, entry, bus, delivered, zero, _⟩ := caught_delivered
  refine ⟨entered, entry, bus, delivered, fun s id task env transparent => ?_⟩
  obtain ⟨saved, accepted, link⟩ := delivered_saved delivered
  have number : (entry.x 8).toUInt32 = sysSigreturn := ((@saved_transparent_iff _ _
    { entry with elr := entry.lr } _ saved accepted link s id task env).mp transparent).1
  rw [zero] at number
  exact absurd number (by decide)

end ViperDos.Signals
