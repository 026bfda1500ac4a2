import Mathlib.Logic.Function.Basic
import Mathlib.Data.List.Induction

/-!
Sequences of writes to a store. A place holds what the last write to it left there,
or what it held before if there was none.
-/

namespace ViperDos.WriteLog

variable {Index Content : Type} [DecidableEq Index]

def applyAll (writes : List (Index × Content)) (store : Index → Content) : Index → Content :=
  writes.foldl (fun store write => Function.update store write.1 write.2) store

def lastWrite (writes : List (Index × Content)) (index : Index) : Option Content :=
  writes.reverse.lookup index

theorem applyAll_append (left right : List (Index × Content)) (store : Index → Content) :
    applyAll (left ++ right) store = applyAll right (applyAll left store) :=
  List.foldl_append

theorem lastWrite_concat (writes : List (Index × Content)) (index place : Index)
    (content : Content) :
    lastWrite (writes ++ [(place, content)]) index =
      if index = place then some content else lastWrite writes index := by
  unfold lastWrite
  rw [List.reverse_append, List.reverse_singleton, List.singleton_append, List.lookup_cons]
  by_cases same : index = place
  · simp [same]
  · have miss : (index == place) = false := beq_eq_false_iff_ne.mpr same
    simp [same, miss]

theorem applyAll_apply (writes : List (Index × Content)) (store : Index → Content) (index : Index) :
    applyAll writes store index = (lastWrite writes index).getD (store index) := by
  induction writes using List.reverseRecOn with
  | nil => rfl
  | append_singleton writes write ih =>
    rcases write with ⟨place, content⟩
    rw [applyAll_append, lastWrite_concat]
    by_cases same : index = place
    · subst index
      simp [applyAll]
    · rw [if_neg same, ← ih]
      simp [applyAll, Function.update_of_ne same]

variable {writes : List (Index × Content)} {index : Index}

theorem applyAll_other (untouched : ∀ write ∈ writes, write.1 ≠ index) (store : Index → Content) :
    applyAll writes store index = store index := by
  induction writes generalizing store with
  | nil => rfl
  | cons write rest ih =>
    have others : ∀ write ∈ rest, write.1 ≠ index := fun write member =>
      untouched write (.tail _ member)
    have here : index ≠ write.1 := (untouched write (.head _)).symm
    exact (ih others _).trans (Function.update_of_ne here _ _)

/-- Where two stores agree, or something is written, they agree afterwards. -/
theorem applyAll_agree {store other : Index → Content}
    (settled : store index = other index ∨ index ∈ writes.map Prod.fst) :
    applyAll writes store index = applyAll writes other index := by
  induction writes generalizing store other with
  | nil => exact settled.resolve_right List.not_mem_nil
  | cons write rest ih =>
    refine ih ?_
    by_cases here : index = write.1
    · simp [here]
    · dsimp only
      rw [Function.update_of_ne here, Function.update_of_ne here]
      exact settled.imp_right fun member => (List.mem_cons.mp member).resolve_left here

end ViperDos.WriteLog
