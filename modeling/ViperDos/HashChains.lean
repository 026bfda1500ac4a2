import Mathlib.Data.List.Nodup
import Mathlib.Logic.Function.Basic

/-!
A table of chains. Every listed item is in the chain of its bucket, once, and nothing
else is in a chain. Items are put into a chain and taken out of it, and an item may change
its bucket while it is in none.
-/

namespace ViperDos.HashChains

open Function

variable {Item : Type}

structure Filed (bucket : Item → Nat) (listed : Item → Prop) (chains : Nat → List Item) : Prop where
  mem : ∀ h x, x ∈ chains h ↔ listed x ∧ bucket x = h
  nodup : ∀ h, (chains h).Nodup

def insertAt (chains : Nat → List Item) (h : Nat) (x : Item) : Nat → List Item :=
  update chains h (x :: chains h)

def removeAt [DecidableEq Item] (chains : Nat → List Item) (h : Nat) (x : Item) : Nat → List Item :=
  update chains h ((chains h).erase x)

variable {bucket bucket' : Item → Nat} {listed listed' : Item → Prop} {chains : Nat → List Item}
  {x : Item}

variable {h : Nat} {wanted : Item → Bool}

section

variable (filed : Filed bucket listed chains)

include filed

theorem filed_congr (same : ∀ y, (listed' y ↔ listed y) ∧ (listed y → bucket' y = bucket y)) :
    Filed bucket' listed' chains where
  mem h y := by
    rw [filed.mem h y, (same y).1]
    exact and_congr_right fun known => by rw [(same y).2 known]
  nodup := filed.nodup

theorem filed_insert (absent : ¬ listed x) (present : listed' x)
    (others : ∀ y, y ≠ x → (listed' y ↔ listed y) ∧ bucket' y = bucket y) :
    Filed bucket' listed' (insertAt chains (bucket' x) x) := by
  have outside : ∀ h, x ∉ chains h := fun h member => absent ((filed.mem h x).mp member).1
  constructor
  case mem =>
    intro h y
    by_cases same : y = x
    · subst same
      by_cases here : bucket' y = h
      · subst here
        simp [insertAt, present]
      · simp [insertAt, update_of_ne (Ne.symm here), outside, here]
    · obtain ⟨known, place⟩ := others y same
      rw [known, place, ← filed.mem h y]
      by_cases here : h = bucket' x
      · subst here
        simp [insertAt, same]
      · simp [insertAt, update_of_ne here]
  case nodup =>
    intro h
    by_cases here : h = bucket' x
    · subst here
      simp only [insertAt, update_self]
      exact List.nodup_cons.mpr ⟨outside _, filed.nodup _⟩
    · simp only [insertAt, update_of_ne here]
      exact filed.nodup h

theorem filed_remove [DecidableEq Item] (gone : ¬ listed' x)
    (others : ∀ y, y ≠ x → (listed' y ↔ listed y) ∧ bucket' y = bucket y) :
    Filed bucket' listed' (removeAt chains (bucket x) x) := by
  constructor
  case mem =>
    intro h y
    by_cases same : y = x
    · subst same
      refine ⟨fun member => ?_, fun known => absurd known.1 gone⟩
      by_cases here : h = bucket y
      · subst here
        simp only [removeAt, update_self, (filed.nodup _).mem_erase_iff] at member
        exact absurd rfl member.1
      · simp only [removeAt, update_of_ne here] at member
        exact absurd ((filed.mem h y).mp member).2.symm here
    · obtain ⟨known, place⟩ := others y same
      rw [known, place, ← filed.mem h y]
      by_cases here : h = bucket x
      · subst here
        simp [removeAt, List.mem_erase_of_ne same]
      · simp [removeAt, update_of_ne here]
  case nodup =>
    intro h
    by_cases here : h = bucket x
    · subst here
      simp only [removeAt, update_self]
      exact (filed.nodup _).erase x
    · simp only [removeAt, update_of_ne here]
      exact filed.nodup h

theorem removeAt_erase [DecidableEq Item] (x : Item) :
    removeAt chains (bucket x) x = fun h => (chains h).erase x := by
  funext h
  by_cases here : h = bucket x
  · simp [removeAt, here]
  · rw [removeAt, Function.update_of_ne here, List.erase_of_not_mem fun member =>
      here ((filed.mem h x).mp member).2.symm]

theorem filed_detach (h : Nat) :
    Filed bucket (fun y => listed y ∧ y ∉ chains h) (update chains h []) where
  mem g y := by
    have member := filed.mem h y
    have others := filed.mem g y
    grind [update]
  nodup g := by
    have all := filed.nodup
    grind [update]

theorem filed_move [DecidableEq Item] {h g : Nat} (apart : g ≠ h) (empty : chains g = []) :
    Filed (fun y => if y ∈ chains h then g else bucket y) listed
      (update (update chains g (chains h)) h []) where
  mem i y := by
    have member := filed.mem h y
    have others := filed.mem i y
    grind [update]
  nodup i := by
    have all := filed.nodup
    grind [update]

theorem find_filed (found : (chains h).find? wanted = some x) :
    listed x ∧ bucket x = h ∧ wanted x = true :=
  have member := (filed.mem h x).mp (List.mem_of_find?_eq_some found)
  ⟨member.1, member.2, List.find?_some found⟩

theorem find_none_filed (missing : (chains (bucket x)).find? wanted = none) (known : listed x) :
    wanted x = false := by
  have member := (filed.mem (bucket x) x).mpr ⟨known, rfl⟩
  exact Bool.eq_false_iff.mpr (List.find?_eq_none.mp missing x member)

end

end ViperDos.HashChains
