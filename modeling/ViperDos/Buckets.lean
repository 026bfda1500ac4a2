import Mathlib.Data.List.Perm.Basic
import Mathlib.Logic.Function.Basic

/-!
Lists kept by index, as the free lists of an allocator or the queues of a scheduler are,
and all their members together. What an operation does to one list is a permutation of the
members up to what it adds and takes.
-/

namespace ViperDos.Buckets

open Function

variable {α : Type}

def gather (n : Nat) (lists : Nat → List α) : List α := (List.range n).flatMap lists

variable {x : α}

variable {n index : Nat} {lists left : Nat → List α} {list rest : List α}

theorem mem_gather : x ∈ gather n lists ↔ ∃ index < n, x ∈ lists index := by
  simp [gather]

theorem gather_same {right : Nat → List α} (same : ∀ index < n, left index = right index) :
    gather n left = gather n right := by
  induction n with
  | zero => rfl
  | succ n ih =>
    have before := ih fun index inside => same index (Nat.lt_succ_of_lt inside)
    unfold gather at before ⊢
    rw [List.range_succ, List.flatMap_append, List.flatMap_append, before]
    simp [same n (Nat.lt_succ_self n)]

theorem gather_take (lists : Nat → List α) (inside : index < n) :
    (gather n lists).Perm (lists index ++ gather n (update lists index [])) := by
  induction n with
  | zero => exact absurd inside (Nat.not_lt_zero index)
  | succ n ih =>
    have step : ∀ f : Nat → List α, gather (n + 1) f = gather n f ++ f n := by
      intro f
      simp [gather, List.range_succ]
    rw [step, step]
    by_cases last : index = n
    · have others : gather n (update lists index []) = gather n lists :=
        gather_same fun other earlier => update_of_ne (by omega) ..
      rw [others, last, update_self, List.append_nil]
      exact List.perm_append_comm
    · rw [update_of_ne (Ne.symm last), ← List.append_assoc]
      exact (ih (by omega)).append_right _

theorem gather_update (lists : Nat → List α) (list : List α) (inside : index < n) :
    (gather n (update lists index list)).Perm (list ++ gather n (update lists index [])) := by
  have taken := gather_take (update lists index list) inside
  rwa [update_self, update_idem] at taken

theorem gather_push (added : list.Perm (x :: lists index)) (inside : index < n) :
    (gather n (update lists index list)).Perm (x :: gather n lists) :=
  (gather_update lists list inside).trans
    ((added.append_right _).trans ((gather_take lists inside).symm.cons x))

theorem gather_pop (found : (lists index).Perm (x :: rest)) (inside : index < n) :
    (gather n lists).Perm (x :: gather n (update lists index rest)) := by
  have whole := (gather_take lists inside).trans (found.append_right _)
  exact whole.trans ((gather_update lists rest inside).symm.cons x)

end ViperDos.Buckets
