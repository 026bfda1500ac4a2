import ViperDos.CapRevocation

/-!
When the parent indices of a capability table form a forest. `remove` frees a
slot without looking at the entries derived from it, and the free list hands the
slot out again first, so `derive` may fill it with a descendant of one of those
entries. That is the only way a cycle arises, and `revoke` then recurses around
it without end.
-/

namespace ViperDos.CapTable

open Transition Forest

def OnParentChain (t : Table) (i : Nat) (slot : UInt32) : Prop :=
  ∃ last, Relation.ReflTransGen (Link t) i last ∧ (t.entries last).parentIndex = slot

/-- The slot that a successful `derive` takes is not on the parent chain of the
handle it derives from. -/
def KeepsForest (t : Table) : Call → Prop
  | .derive h _ => Derivable t h → ¬ OnParentChain t (handleIndex h).toNat t.freeHead
  | .insert _ _ _ | .remove _ | .revoke _ => True

structure IsForest (t : Table) : Prop where
  wellFormed : WellFormed t
  acyclic : Acyclic (Link t)

def RevocationTerminates (t : Table) : Prop :=
  Acyclic (Link t) ∧ ∀ h, ∃ after n, Revokes t h after n

variable {t after : Table} {i last capacity : Nat} {h : Handle} {call : Call}

theorem climb_live (live : Live t i) (climb : Relation.ReflTransGen (Link t) i last) :
    Live t last := by
  cases climb with
  | refl => exact live
  | tail _ edge => exact edge.2.1

theorem insert_acyclic (forest : IsForest t) (object : UInt64) (kind : Kind)
    (rights : Rights) : Acyclic (Link (insert t object kind rights).1) := by
  unfold insert
  by_cases full : t.freeHead = freeEnd
  · rw [if_pos full]
    exact forest.acyclic
  rw [if_neg full]
  apply acyclic_fresh (takeSlot_link_old forest.wellFormed full) forest.acyclic
  intro cycle
  rcases Relation.TransGen.head'_iff.mp cycle with ⟨parent, edge, _⟩
  exact takeSlot_root forest.wellFormed _ _ _ _ edge

theorem derive_acyclic (forest : IsForest t) (newRights : Rights)
    (allowed : Derivable t h → ¬ OnParentChain t (handleIndex h).toNat t.freeHead) :
    Acyclic (Link (derive t h newRights).1) := by
  by_cases derivable : Derivable t h
  · have valid := forest.wellFormed
    have room := derivable.2.2
    have sourceLive := derivable.1.2.1
    have sourceOld := live_away_from_head valid room sourceLive
    rw [derive_taken derivable]
    apply acyclic_fresh (takeSlot_link_old valid room) forest.acyclic
    intro cycle
    rcases Relation.TransGen.head'_iff.mp cycle with ⟨parent, edge, path⟩
    have parentIs : (handleIndex h).toNat = parent := by
      have known := edge.2.2
      rw [takeSlot_at] at known
      exact known
    subst parent
    -- the way back to the new slot leaves the old links at an entry that names it
    rcases path_to_fresh (takeSlot_link_old valid room) sourceOld path with ⟨last, climb, final⟩
    apply allowed derivable
    refine ⟨last, climb, ?_⟩
    have lastOld := live_away_from_head valid room (climb_live sourceLive climb)
    have named := final.2.2
    rw [takeSlot_other lastOld] at named
    exact UInt32.toNat_inj.mp named
  · rw [derive_refused derivable]
    exact forest.acyclic

theorem remove_acyclic (forest : IsForest t) (h : Handle) : Acyclic (Link (remove t h)) := by
  by_cases removable : Removable t h
  · rw [remove_released removable]
    exact acyclic_mono (shrinks_link (releaseSlot_shrinks t _ _)) forest.acyclic
  · rw [remove_refused removable]
    exact forest.acyclic

theorem init_forest (admissible : AdmissibleCapacity capacity) : IsForest (init capacity) := by
  refine ⟨init_wellformed admissible, ?_⟩
  intro i cycle
  rcases Relation.TransGen.head'_iff.mp cycle with ⟨_, edge, _⟩
  exact edge.1.2 rfl

theorem step_forest (forest : IsForest t)
    (allowed : KeepsForest t call) (step : Step t call after) : IsForest after := by
  refine ⟨step_wellformed forest.wellFormed step, ?_⟩
  cases call with
  | insert object kind rights =>
    cases step
    exact insert_acyclic forest object kind rights
  | derive h newRights =>
    cases step
    exact derive_acyclic forest newRights allowed
  | remove h =>
    cases step
    exact remove_acyclic forest h
  | revoke h =>
    rcases step with ⟨n, returned⟩
    exact acyclic_mono (shrinks_link (revokes_shrinks forest.wellFormed returned).2) forest.acyclic

theorem forest_revokes (forest : IsForest t) (h : Handle) : ∃ after n, Revokes t h after n := by
  by_cases resolves : Resolves t h
  · have ranked : Ranked (height (Link t) (Finset.range t.capacity)) (Link t) :=
      acyclic_ranked (fun _ _ link => Finset.mem_range.mpr link.1.1) forest.acyclic
    exact revokes_ranked forest.wellFormed ranked resolves
  · exact ⟨t, 0, revokes_stale resolves⟩

/-- Taking a slot on the parent chain of the source closes a cycle. -/
theorem derive_cycle (valid : WellFormed t) (newRights : Rights)
    (derivable : Derivable t h) (onChain : OnParentChain t (handleIndex h).toNat t.freeHead) :
    Relation.TransGen (Link (derive t h newRights).1) t.freeHead.toNat t.freeHead.toNat := by
  rcases onChain with ⟨last, climb, named⟩
  have room := derivable.2.2
  have sourceLive := derivable.1.2.1
  have lastLive := climb_live sourceLive climb
  have lastOld := live_away_from_head valid room lastLive
  rw [derive_taken derivable]
  refine Relation.TransGen.head' (b := (handleIndex h).toNat) ?_ (Relation.ReflTransGen.tail
    (Relation.ReflTransGen.mono (takeSlot_link_kept valid room _ _ _ _) _ _ climb) ?_)
  · refine ⟨?_, (takeSlot_live valid room ..).mpr (.inl sourceLive), by rw [takeSlot_at]⟩
    exact (takeSlot_live valid room ..).mpr (.inr ⟨rfl, sourceLive.2⟩)
  · refine ⟨(takeSlot_live valid room ..).mpr (.inl lastLive), ?_, ?_⟩
    · exact (takeSlot_live valid room ..).mpr (.inr ⟨rfl, sourceLive.2⟩)
    · rw [takeSlot_other lastOld, named]

theorem acyclic_keeps_forest (forest : IsForest t)
    (step : Step t call after) (acyclic : Acyclic (Link after)) : KeepsForest t call := by
  cases call with
  | derive h newRights =>
    intro derivable onChain
    cases step
    exact acyclic _ (derive_cycle forest.wellFormed newRights derivable onChain)
  | insert object kind rights => trivial
  | remove h => trivial
  | revoke h => trivial

/-- The histories in which the parent indices stay acyclic and every `revoke`
returns are exactly those in which no `derive` takes a slot on the parent chain
of its source. -/
theorem revoke_returns_iff_chain_avoided
    (admissible : AdmissibleCapacity capacity) {history : List (Call × Table)}
    (trace : Trace Step (init capacity) history) :
    Trace (Guarded KeepsForest Step) (init capacity) history ↔
      ∀ visited ∈ history, RevocationTerminates visited.2 := by
  refine trace_guarded_iff ?_ ?_ ?_ (init_forest admissible) trace
  · intro before call after forest allowed step
    exact step_forest forest allowed step
  · intro state forest
    exact ⟨forest.acyclic, forest_revokes forest⟩
  · intro before call after forest step holds
    exact acyclic_keeps_forest forest step holds.1

-- A channel is inserted in slot 0 and derived into slot 1, slot 0 is removed,
-- and a second derivation from slot 1 takes slot 0 again.
def inserted : Table := (insert (init defaultCapacity) 0x1000 .channel capDerive).1
def derivedOnce : Table := (derive inserted 0 capDerive).1
def parentRemoved : Table := remove derivedOnce 0
def parentReused : Table := (derive parentRemoved 1 capDerive).1

/-- The first two calls keep clear of the parent chain. -/
theorem first_derivation_terminates :
    RevocationTerminates inserted ∧ RevocationTerminates derivedOnce := by
  have clear : ¬ OnParentChain inserted 0 inserted.freeHead := by
    rintro ⟨last, climb, named⟩
    rcases Relation.ReflTransGen.cases_head climb with same | ⟨parent, edge, _⟩
    · subst last
      exact absurd named (by decide)
    · have marker : parent = 2 ^ 32 - 1 := edge.2.2.symm
      have bound : parent < 256 := edge.2.1.1
      omega
  have holds := (@revoke_returns_iff_chain_avoided _ default_admissible
    [(.insert 0x1000 .channel capDerive, inserted), (.derive 0 capDerive, derivedOnce)]
    ⟨rfl, rfl, trivial⟩).mp ⟨⟨trivial, rfl⟩, ⟨fun _ => clear, rfl⟩, trivial⟩
  exact ⟨holds _ (.head _), holds _ (.tail _ (.head _))⟩

/-- The table just built is reached from an initialised one, its links form a
cycle, and revoking slot 1 never returns. -/
theorem parent_reuse_loops : (∃ history, Trace Step (init defaultCapacity) history ∧
      ∃ visited ∈ history, ¬ RevocationTerminates visited.2) ∧
      ¬ Acyclic (Link parentReused) ∧ ¬ ∃ after n, Revokes parentReused 1 after n := by
  have upward : Link parentReused 0 1 := by unfold Link; decide
  have downward : Link parentReused 1 0 := by unfold Link; decide
  have cycle : OnCycle (Link parentReused) 1 :=
    Relation.TransGen.tail (Relation.TransGen.single downward) upward
  have valid : WellFormed parentReused :=
    derive_wellformed (remove_wellformed (derive_wellformed
      (insert_wellformed (init_wellformed default_admissible) _ _ _) _ _) _) _ _
  have diverges : ¬ ∃ after n, Revokes parentReused 1 after n := by
    rintro ⟨after, n, returned⟩
    have resolves : Resolves parentReused 1 := by unfold Resolves; decide
    rcases revokes_cases valid returned with ⟨stale, _⟩ | ⟨_, done⟩
    · exact stale resolves
    · exact done.offCycle cycle
  refine ⟨⟨[(.insert 0x1000 .channel capDerive, inserted), (.derive 0 capDerive, derivedOnce),
    (.remove 0, parentRemoved), (.derive 1 capDerive, parentReused)],
    ⟨rfl, rfl, rfl, rfl, trivial⟩, (.derive 1 capDerive, parentReused), by simp, ?_⟩,
    fun acyclic => acyclic 1 cycle, diverges⟩
  intro terminates
  exact terminates.1 1 cycle

end ViperDos.CapTable
