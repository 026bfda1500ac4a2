import ViperDos.SignalSystem

/-!
The memory the kernel touches for a signal frame. Delivery and sigreturn check
the frame's first byte against a range of their own, which starts at 4 KiB and says
nothing about the frame's end, where syscalls check the whole buffer against the
user range. The accesses are compared with the latter.
-/

namespace ViperDos.Signals

open ByteMemory

def UserOnly (accesses : List Access) : Prop :=
  ∀ access ∈ accesses, isValidUserAddress access.address (UInt64.ofNat access.size) = true

def FrameInside (base : UInt64) (length : Nat) : Prop :=
  userCodeBase ≤ base ∧ base.toNat + length ≤ userAddrMax.toNat + 1

def catches (signals : SignalState) : Bool :=
  match nextSignal signals with
  | none => false
  | some signum => signals.handlers signum ≠ sigDfl && signals.handlers signum ≠ sigIgn

@[simp] theorem userOnly_nil : UserOnly [] := by
  simp [UserOnly]

theorem userOnly_snoc (accesses : List Access) (address : UInt64) (size : Nat) :
    UserOnly (accesses ++ [⟨address, size⟩]) ↔
      UserOnly accesses ∧ isValidUserAddress address (UInt64.ofNat size) = true := by
  simp [UserOnly, or_imp, forall_and]

variable {base : UInt64}

theorem accepted_low (accepted : acceptsStack base = true) : base.toNat < 0x800000000000 := by
  simp only [acceptsStack, Bool.not_eq_true', Bool.or_eq_false_iff, decide_eq_false_iff_not,
    UInt64.le_iff_toNat_le] at accepted
  exact Nat.lt_of_not_le accepted.2

/-- Below 2^47 the range check is arithmetic without wrap-around. -/
theorem valid_offset (offset : UInt64) (size : Nat) (low : base.toNat < 0x800000000000)
    (small : offset.toNat + size ≤ 4096 := by decide) (nonempty : 0 < size := by decide) :
    isValidUserAddress (base + offset) (UInt64.ofNat size) = true ↔
      userCodeBase.toNat ≤ base.toNat + offset.toNat ∧
        base.toNat + offset.toNat + size ≤ userAddrMax.toNat + 1 := by
  have first : (base + offset).toNat = base.toNat + offset.toNat := by
    rw [UInt64.toNat_add, Nat.mod_eq_of_lt]
    omega
  have width : (UInt64.ofNat size).toNat = size := by
    rw [UInt64.toNat_ofNat']
    omega
  have positive : UInt64.ofNat size ≠ 0 := by
    intro zero
    have equal := congrArg UInt64.toNat zero
    rw [width] at equal
    exact absurd equal (Nat.ne_of_gt nonempty)
  have sum : (base + offset + UInt64.ofNat size).toNat = base.toNat + offset.toNat + size := by
    rw [UInt64.toNat_add, first, width]
    omega
  have last : (base + offset + UInt64.ofNat size - 1).toNat =
      base.toNat + offset.toNat + size - 1 := by
    rw [UInt64.toNat_sub_of_le, sum]
    · rfl
    · rw [UInt64.le_iff_toNat_le, sum]
      exact Nat.le_add_left_of_le nonempty
  simp only [isValidUserAddress, positive, if_false, UInt64.lt_iff_toNat_lt, last, first]
  by_cases below : base.toNat + offset.toNat < userCodeBase.toNat
  · simp only [below, if_true, Bool.false_eq_true, false_iff]
    omega
  · have forward : ¬ base.toNat + offset.toNat + size - 1 < base.toNat + offset.toNat := by omega
    simp only [below, if_false, forward, Bool.not_eq_true', decide_eq_false_iff_not]
    omega

theorem saveRegisters_userOnly (frame : ExceptionFrame) (registers : List (Fin 30)) (bus : Bus) :
    UserOnly (saveRegisters frame base registers bus).accesses ↔ UserOnly bus.accesses ∧
      ∀ i ∈ registers, isValidUserAddress (base + registerOffset i) 8 = true := by
  induction registers generalizing bus with
  | nil => simp [saveRegisters]
  | cons first rest ih =>
    simp only [saveRegisters, ih, store64_accesses, userOnly_snoc, List.forall_mem_cons, and_assoc]
    rfl

theorem loadRegisters_userOnly (registers : List (Fin 30)) (frame : ExceptionFrame) (bus : Bus) :
    UserOnly (loadRegisters base registers frame bus).2.accesses ↔ UserOnly bus.accesses ∧
      ∀ i ∈ registers, isValidUserAddress (base + registerOffset i) 8 = true := by
  induction registers generalizing frame bus with
  | nil => simp [loadRegisters]
  | cons first rest ih =>
    simp only [loadRegisters, ih, load64_accesses, userOnly_snoc, List.forall_mem_cons, and_assoc]
    rfl

theorem registers_inside (low : base.toNat < 0x800000000000) :
    (∀ i ∈ List.finRange 30, isValidUserAddress (base + registerOffset i) 8 = true) ↔
      FrameInside base 240 := by
  have slot : ∀ i : Fin 30, isValidUserAddress (base + registerOffset i) 8 = true ↔
      userCodeBase.toNat ≤ base.toNat + 8 * i.val ∧
        base.toNat + 8 * i.val + 8 ≤ userAddrMax.toNat + 1 := by
    intro i
    have value : (registerOffset i).toNat = 8 * i.val := by
      simp only [registerOffset, UInt64.toNat_ofNat']
      omega
    rw [← value]
    exact valid_offset _ 8 low (by omega)
  simp only [List.mem_finRange, forall_true_left, slot, FrameInside, UInt64.le_iff_toNat_le]
  constructor
  · intro every
    exact ⟨(every 0).1, (every 29).2⟩
  · intro inside i
    omega

theorem offsets : (registerOffset 30).toNat = 240 ∧ spOffset.toNat = 248 ∧ elrOffset.toNat = 256 ∧
    spsrOffset.toNat = 264 ∧ signumOffset.toNat = 272 ∧ blockedOffset.toNat = 276 ∧
    trampolineOffset.toNat = 280 ∧ (trampolineOffset + 8).toNat = 288 := by
  decide

/-- The stores of delivery cover the whole frame. -/
theorem saveContext_userOnly (signals : SignalState) (frame : ExceptionFrame) (signum : Nat)
    (memory : Memory) (low : base.toNat < 0x800000000000) :
    UserOnly (saveContext signals frame signum base (idle memory)).accesses ↔
      FrameInside base 296 := by
  have next : base + trampolineOffset + 8 = base + (trampolineOffset + 8) := UInt64.add_assoc ..
  simp only [saveContext, store64_accesses, store32_accesses, userOnly_snoc,
    saveRegisters_userOnly, registers_inside low, next, valid_offset (registerOffset 30) 8 low,
    valid_offset spOffset 8 low, valid_offset elrOffset 8 low, valid_offset spsrOffset 8 low,
    valid_offset signumOffset 4 low, valid_offset blockedOffset 4 low,
    valid_offset trampolineOffset 8 low, valid_offset (trampolineOffset + 8) 8 low]
  simp only [idle, userOnly_nil, true_and, FrameInside, UInt64.le_iff_toNat_le, offsets]
  omega

/-- Sigreturn reads all of the frame but the trampoline. -/
theorem restore_userOnly (signals : SignalState) (frame : ExceptionFrame) (memory : Memory)
    (accepted : acceptsStack frame.sp = true) :
    UserOnly (restoreSignalContext signals frame (idle memory)).2.accesses ↔
      FrameInside frame.sp 280 := by
  have low := accepted_low accepted
  simp only [restoreSignalContext, accepted, if_true, load64_accesses, load32_accesses,
    userOnly_snoc, loadRegisters_userOnly, registers_inside low,
    valid_offset (registerOffset 30) 8 low, valid_offset spOffset 8 low,
    valid_offset elrOffset 8 low, valid_offset spsrOffset 8 low,
    valid_offset signumOffset 4 low, valid_offset blockedOffset 4 low]
  simp only [idle, userOnly_nil, true_and, FrameInside, UInt64.le_iff_toNat_le, offsets]
  omega

/-- What delivery leaves on the bus: the stores of the frame, if the task catches the
signal and the address passes, and otherwise nothing. -/
theorem setup_accesses (signals : SignalState) (frame : ExceptionFrame) (bus : Bus) :
    (catches signals = true ∧ acceptsStack (frame.sp - frameSize) = true ∧
      ∃ signum, (setupSignalDelivery signals frame bus).2 =
        saveContext signals frame signum (frame.sp - frameSize) bus) ∨
    (¬ (catches signals = true ∧ acceptsStack (frame.sp - frameSize) = true) ∧
      (setupSignalDelivery signals frame bus).2 = bus) := by
  unfold catches setupSignalDelivery
  cases nextSignal signals with
  | none => exact .inr ⟨by simp, rfl⟩
  | some signum =>
    by_cases defaulted : signals.handlers signum = sigDfl
    · by_cases fatal : defaultAction signum = .terminate <;> simp [defaulted, fatal]
    by_cases ignored : signals.handlers signum = sigIgn
    · simp [ignored, show sigIgn ≠ sigDfl by decide]
    by_cases accepted : acceptsStack (frame.sp - frameSize) = true
    · left
      simp only [defaulted, ignored, accepted, if_true, if_false]
      exact ⟨by simp [defaulted, ignored], trivial, signum, rfl⟩
    · right
      simp [defaulted, ignored, accepted]

/-- Signal frames stay in user memory exactly when the stack pointers that pass the
handlers' own range check leave the whole frame above the user code base and
below the user limit. -/
theorem frame_in_user_memory_iff (signals : SignalState) (frame : ExceptionFrame)
    (memory : Memory) :
    (UserOnly (setupSignalDelivery signals frame (idle memory)).2.accesses ↔
      (catches signals = true → acceptsStack (frame.sp - frameSize) = true →
        FrameInside (frame.sp - frameSize) 296)) ∧
    (UserOnly (restoreSignalContext signals frame (idle memory)).2.accesses ↔
      (acceptsStack frame.sp = true → FrameInside frame.sp 280)) := by
  constructor
  · rcases setup_accesses signals frame (idle memory) with
      ⟨caught, accepted, signum, stored⟩ | ⟨quiet, untouched⟩
    · rw [stored, saveContext_userOnly signals frame signum memory (accepted_low accepted)]
      simp [caught, accepted]
    · rw [untouched]
      simp only [idle, userOnly_nil, true_iff]
      intro caught accepted
      exact absurd ⟨caught, accepted⟩ quiet
  · by_cases accepted : acceptsStack frame.sp = true
    · simp only [restore_userOnly signals frame memory accepted, accepted, forall_true_left]
    · simp [restoreSignalContext, accepted, idle]

def caughtSignals : SignalState :=
  { initSignalState with
    handlers := Function.update initSignalState.handlers 10 0x80002000
    pending := signalBit 10 }

/-- A frame whose stack pointer the user has set into the kernel image. -/
def kernelStackFrame : ExceptionFrame :=
  { x := fun _ => 0, lr := 0, sp := 0x40080000, elr := 0x80001000, spsr := 0, esr := 0, far := 0 }

theorem kernel_stack_pointer_accepted : ¬ UserOnly
        (setupSignalDelivery caughtSignals kernelStackFrame (idle fun _ => 0)).2.accesses ∧
      ¬ UserOnly
        (restoreSignalContext caughtSignals kernelStackFrame (idle fun _ => 0)).2.accesses := by
  constructor
  · rcases setup_accesses caughtSignals kernelStackFrame (idle fun _ => 0) with
      ⟨_, accepted, signum, stored⟩ | ⟨quiet, _⟩
    · rw [stored, saveContext_userOnly caughtSignals kernelStackFrame signum (fun _ => 0)
        (accepted_low accepted)]
      exact fun inside => absurd inside.1 (by decide)
    · exact absurd ⟨by decide, by decide⟩ quiet
  · rw [restore_userOnly caughtSignals kernelStackFrame (fun _ => 0) (by decide)]
    exact fun inside => absurd inside.1 (by decide)

end ViperDos.Signals
