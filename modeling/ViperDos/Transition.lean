import Mathlib.Logic.Relation

/-!
Labelled runs of an arbitrary step relation. A run records the labels it took,
and a trace the states as well, so a condition on single steps can be imposed on a
whole history: a guarded trace is a trace of the relation restricted to the steps
that meet the guard. The invariant rules below and the rule for parts of a state that only
some steps change are the only inductions over histories that the development needs.
-/

namespace ViperDos.Transition

variable {State Label : Type}

inductive Run (step : State → Label → State → Prop) : State → List Label → State → Prop where
  | refl (state : State) : Run step state [] state
  | next {before middle after : State} {label : Label} {rest : List Label}
      (first : step before label middle) (tail : Run step middle rest after) :
      Run step before (label :: rest) after

/-- The steps of a relation that meet a condition on the state before them. -/
def Guarded (guard : State → Label → Prop) (step : State → Label → State → Prop) :
    State → Label → State → Prop :=
  fun before label after => guard before label ∧ step before label after

variable {step : State → Label → State → Prop} {invariant : State → Prop}

theorem run_invariant
    (preserved : ∀ before label after, invariant before → step before label after →
      invariant after) {before after : State} {labels : List Label}
    (run : Run step before labels after) (holds : invariant before) : invariant after := by
  induction run with
  | refl => exact holds
  | next first _ ih => exact ih (preserved _ _ _ holds first)

theorem run_append {before middle after : State}
    {left right : List Label} (first : Run step before left middle)
    (second : Run step middle right after) : Run step before (left ++ right) after := by
  induction first with
  | refl => exact second
  | next head _ ih => exact Run.next head (ih second)

/-- A run that also lists the states it passes through. -/
def Trace (step : State → Label → State → Prop) : State → List (Label × State) → Prop
  | _, [] => True
  | before, (label, after) :: rest => step before label after ∧ Trace step after rest

variable {start : State}

theorem trace_invariant
    (preserved : ∀ before label after, invariant before → step before label after →
      invariant after) {history : List (Label × State)} (holds : invariant start)
    (trace : Trace step start history) : ∀ visited ∈ history, invariant visited.2 := by
  induction history generalizing start with
  | nil => simp
  | cons head rest ih =>
    obtain ⟨first, tail⟩ := trace
    have next := preserved _ _ _ holds first
    exact List.forall_mem_cons.mpr ⟨next, ih next tail⟩

theorem trace_unguarded {guard : State → Label → Prop} {history : List (Label × State)}
    (trace : Trace (Guarded guard step) start history) : Trace step start history := by
  induction history generalizing start with
  | nil => trivial
  | cons head rest ih => exact ⟨trace.1.2, ih trace.2⟩

/-- A guard that is exactly what keeps an invariant alive: if the invariant gives the
property, guarded steps keep the invariant, and from the invariant a step to a state
with the property was guarded, then the histories in which the property always holds are
the guarded ones. -/
theorem trace_guarded_iff {guard : State → Label → Prop} {property : State → Prop}
    (keeps : ∀ before label after, invariant before → guard before label →
      step before label after → invariant after)
    (sound : ∀ state, invariant state → property state)
    (needed : ∀ before label after, invariant before → step before label after →
      property after → guard before label) {history : List (Label × State)}
    (holds : invariant start) (trace : Trace step start history) :
    Trace (Guarded guard step) start history ↔ ∀ visited ∈ history, property visited.2 := by
  induction history generalizing start with
  | nil => simp [Trace]
  | cons head rest ih =>
    obtain ⟨first, tail⟩ := trace
    simp only [Trace, Guarded, List.mem_cons, forall_eq_or_imp]
    constructor
    · rintro ⟨⟨allowed, _⟩, guardedTail⟩
      have next := keeps _ _ _ holds allowed first
      exact ⟨sound _ next, (ih next tail).mp guardedTail⟩
    · rintro ⟨atNext, later⟩
      have allowed := needed _ _ _ holds first atNext
      have next := keeps _ _ _ holds allowed first
      exact ⟨⟨allowed, first⟩, (ih next tail).mpr later⟩

/-- What a function makes of a list of labels, if it answers each of them, is a run. -/
theorem run_foldlM {next : State → Label → Option State}
    (takes : ∀ before label after, next before label = some after → step before label after)
    {before after : State} {labels : List Label} (made : labels.foldlM next before = some after) :
    Run step before labels after := by
  induction labels generalizing before with
  | nil =>
    cases made
    exact Run.refl _
  | cons label rest ih =>
    rw [List.foldlM_cons] at made
    obtain ⟨middle, first, others⟩ := Option.bind_eq_some_iff.mp made
    exact Run.next (takes _ _ _ first) (ih others)

theorem run_foldl {next : State → Label → State}
    (takes : ∀ before label, step before label (next before label)) (before : State)
    (labels : List Label) : Run step before labels (labels.foldl next before) := by
  induction labels generalizing before with
  | nil => exact Run.refl _
  | cons label rest ih => exact Run.next (takes before label) (ih _)

def historyOf (next : State → Label → State) : State → List Label → List (Label × State)
  | _, [] => []
  | before, label :: rest => (label, next before label) :: historyOf next (next before label) rest

def admitsAll (enabled : State → Label → Bool) (next : State → Label → State) :
    State → List Label → Bool
  | _, [] => true
  | before, label :: rest => enabled before label && admitsAll enabled next (next before label) rest

theorem historyOf_trace {enabled : State → Label → Bool} {next : State → Label → State}
    (takes : ∀ before label, enabled before label = true → step before label (next before label))
    {labels : List Label} (ready : admitsAll enabled next start labels = true) :
    Trace step start (historyOf next start labels) := by
  induction labels generalizing start with
  | nil => trivial
  | cons label rest ih =>
    rw [admitsAll, Bool.and_eq_true] at ready
    exact ⟨takes start label ready.1, ih ready.2⟩

theorem run_admitted {enabled : State → Label → Bool} {next : State → Label → State}
    (takes : ∀ before label, enabled before label = true → step before label (next before label))
    {labels : List Label} (ready : admitsAll enabled next start labels = true) :
    Run step start labels (labels.foldl next start) := by
  induction labels generalizing start with
  | nil => exact .refl start
  | cons label rest ih =>
    rw [admitsAll, Bool.and_eq_true] at ready
    exact .next (takes start label ready.1) (ih ready.2)

/-- A part of the state on which only some of the steps have a say: if what those do to it
depends on it alone and the others leave it, it is what the former make of it alone. -/
theorem run_projected {Part : Type} {perform : State → Label → State} (part : State → Part)
    {own : Label → Bool} {guard : State → Label → Prop}
    (alone : ∀ left right label, own label = true → part left = part right →
      part (perform left label) = part (perform right label))
    (others : ∀ state label, own label = false → guard state label →
      part (perform state label) = part state) {last other : State} {labels : List Label}
    (run : Run (Guarded guard fun before label after => after = perform before label)
      start labels last) (same : part start = part other) :
    part last = part ((labels.filter own).foldl perform other) := by
  induction run generalizing other with
  | refl => exact same
  | @next before middle after label rest first tail ih =>
    obtain ⟨allowed, rfl⟩ := first
    cases mine : own label with
    | true =>
      rw [List.filter_cons_of_pos mine]
      exact ih (alone before other label mine same)
    | false =>
      rw [List.filter_cons_of_neg (by rw [mine]; exact Bool.false_ne_true)]
      exact ih ((others before label mine allowed).trans same)

end ViperDos.Transition
