import ViperDos.CapTable
import ViperDos.Forest

/-!
What `revoke_unlocked` does to a whole table. A call that returns has released a
list of slots one after the other; when the parent indices of the live entries
climb a rank the call does return, and the released slots are exactly those
below the given one.
-/

namespace ViperDos.CapTable

open Transition Forest

def Link (t : Table) (child parent : Nat) : Prop :=
  Live t child ∧ Live t parent ∧ (t.entries child).parentIndex.toNat = parent

variable {t : Table} {i : Nat} {object : UInt64} {kind : Kind} {rights parentIndex : UInt32}

section

variable (valid : WellFormed t) (room : t.freeHead ≠ freeEnd)

include valid room

theorem live_away_from_head (live : Live t i) : i ≠ t.freeHead.toNat := by
  rintro rfl
  exact live.2 (head_vacant valid room).2

theorem takeSlot_link_old (child parent : Nat)
    (link : Link (takeSlot t object kind rights parentIndex).1 child parent)
    (childOld : child ≠ t.freeHead.toNat) (parentOld : parent ≠ t.freeHead.toNat) :
    Link t child parent := by
  rcases link with ⟨childLive, parentLive, parentIs⟩
  rw [takeSlot_live valid room] at childLive parentLive
  rw [takeSlot_other childOld] at parentIs
  exact ⟨childLive.resolve_right (fun new => childOld new.1),
    parentLive.resolve_right (fun new => parentOld new.1), parentIs⟩

theorem takeSlot_link_kept (object : UInt64) (kind : Kind) (rights parentIndex : UInt32)
    (child parent : Nat) (link : Link t child parent) :
    Link (takeSlot t object kind rights parentIndex).1 child parent := by
  rcases link with ⟨childLive, parentLive, parentIs⟩
  have away := live_away_from_head valid room childLive
  refine ⟨?_, ?_, ?_⟩
  · exact (takeSlot_live valid room _ _ _ _ _).mpr (.inl childLive)
  · exact (takeSlot_live valid room _ _ _ _ _).mpr (.inl parentLive)
  · rw [takeSlot_other away]
    exact parentIs

end

/-- The entry of a fresh root has no parent, since no slot has the index
`NO_PARENT`. -/
theorem takeSlot_root (valid : WellFormed t) (object : UInt64) (kind : Kind) (rights : UInt32)
    (parent : Nat) : ¬ Link (takeSlot t object kind rights noParent).1 t.freeHead.toNat parent := by
  rintro ⟨_, parentLive, parentIs⟩
  have bound : parent < t.capacity := parentLive.1
  have small := valid.admissible.2
  rw [takeSlot_at] at parentIs
  have marker : parent = 2 ^ 32 - 1 := parentIs.symm
  omega

theorem link_unique (t : Table) : Relator.RightUnique (Link t) :=
  fun _ _ _ left right => left.2.2.symm.trans right.2.2

def Shrinks (t after : Table) : Prop :=
  after.capacity = t.capacity ∧ ∀ i, Live after i → Live t i ∧ after.entries i = t.entries i

theorem releaseSlot_shrinks (t : Table) (index parentIndex : UInt32) :
    Shrinks t (releaseSlot t index parentIndex) := by
  constructor
  · rfl
  · intro i live
    rcases (releaseSlot_live t index parentIndex i).mp live with ⟨before, away⟩
    exact ⟨before, releaseSlot_other away parentIndex⟩

variable {after current : Table} {slots chain first second more : List UInt32}
  {child parent fuel : Nat} {index n m : UInt32} {h : Handle} {rank : Nat → Nat}
  {revoke deeper : Table → Handle → Option (Table × UInt32)} {result : Table × UInt32} {call : Call}

theorem shrinks_link (shrinks : Shrinks t after) (child parent : Nat)
    (link : Link after child parent) : Link t child parent := by
  rcases link with ⟨childLive, parentLive, parentIs⟩
  rcases shrinks.2 child childLive with ⟨childBefore, same⟩
  rw [same] at parentIs
  exact ⟨childBefore, (shrinks.2 parent parentLive).1, parentIs⟩

def ReleaseStep (t : Table) (index : UInt32) (after : Table) : Prop :=
  Live t index.toNat ∧ after = releaseSlot t index noParent

def Freed (t after : Table) (i : Nat) : Prop := Live t i ∧ ¬ Live after i

instance (t after : Table) (i : Nat) : Decidable (Freed t after i) :=
  inferInstanceAs (Decidable (_ ∧ _))

section

variable (releases : Run ReleaseStep t slots after)

include releases

theorem releases_live (i : Nat) : Live after i ↔ Live t i ∧ i ∉ slots.map UInt32.toNat := by
  induction releases with
  | refl => simp
  | next first _ ih =>
    obtain ⟨_, rfl⟩ := first
    rw [ih, releaseSlot_live]
    simp only [List.map_cons, List.mem_cons, not_or, and_assoc]

theorem releases_other (away : i ∉ slots.map UInt32.toNat) : after.entries i = t.entries i := by
  induction releases with
  | refl => rfl
  | next first _ ih =>
    obtain ⟨_, rfl⟩ := first
    simp only [List.map_cons, List.mem_cons, not_or] at away
    rw [ih away.2, releaseSlot_other away.1]

theorem releases_slots : slots.Nodup ∧ ∀ i ∈ slots, Live t i.toNat := by
  induction releases with
  | refl => simp
  | @next _ _ _ index _ first _ ih =>
    obtain ⟨live, rfl⟩ := first
    obtain ⟨noDup, occupied⟩ := ih
    refine ⟨List.nodup_cons.mpr ⟨?_, noDup⟩, ?_⟩
    · intro again
      exact ((releaseSlot_live _ _ _ _).mp (occupied index again)).2 rfl
    intro i member
    rcases List.mem_cons.mp member with same | later
    · subst i
      exact live
    · exact ((releaseSlot_live _ _ _ _).mp (occupied i later)).1

theorem releases_freed (i : Nat) : Freed t after i ↔ i ∈ slots.map UInt32.toNat := by
  unfold Freed
  rw [releases_live releases]
  constructor
  · rintro ⟨live, gone⟩
    by_contra absent
    exact gone ⟨live, absent⟩
  · intro member
    obtain ⟨index, inSlots, rfl⟩ := List.mem_map.mp member
    exact ⟨(releases_slots releases).2 index inSlots, fun still => still.2 member⟩

/-- Released slots are pushed in order, the last one on top. -/
theorem releases_free (free : FreeList t chain) : FreeList after (slots.reverse ++ chain) := by
  induction releases generalizing chain with
  | refl => exact free
  | @next _ _ _ index rest first _ ih =>
    rcases first with ⟨live, rfl⟩
    have pushed := ih (releaseSlot_free free live noParent)
    rw [List.reverse_cons, List.append_assoc]
    exact pushed

theorem releases_capacity : after.capacity = t.capacity := by
  induction releases with
  | refl => rfl
  | next first _ ih =>
    rcases first with ⟨_, rfl⟩
    exact ih

theorem releases_wellformed (valid : WellFormed t) : WellFormed after := by
  rcases valid.free with ⟨chain, free⟩
  constructor
  · rw [releases_capacity releases]
    exact valid.admissible
  · exact ⟨_, releases_free releases free⟩

theorem releases_shrinks : Shrinks t after := by
  constructor
  · exact releases_capacity releases
  · intro i live
    rcases (releases_live releases i).mp live with ⟨before, kept⟩
    exact ⟨before, releases_other releases kept⟩

theorem releases_link (child parent : Nat) (link : Link after child parent) : Link t child parent :=
  shrinks_link (releases_shrinks releases) child parent link

theorem releases_link_kept (link : Link t child parent) (childLive : Live after child)
    (parentLive : Live after parent) : Link after child parent := by
  refine ⟨childLive, parentLive, ?_⟩
  rw [((releases_shrinks releases).2 child childLive).2]
  exact link.2.2

end

/-- What has been released so far on behalf of `index`: only slots below its
children, and with a slot always its live children. -/
structure Progress (t : Table) (index : Nat) (slots : List UInt32) (current : Table) : Prop where
  releases : Run ReleaseStep t slots current
  inside : ∀ i, Freed t current i → ∃ child, Link t child index ∧ Below (Link t) child i
  closed : ∀ child parent, Link t child parent → Freed t current parent → Freed t current child

structure Revoked (t : Table) (index : Nat) (slots : List UInt32) (after : Table) : Prop where
  releases : Run ReleaseStep t slots after
  exact : ∀ i, Freed t after i ↔ Live t i ∧ Below (Link t) index i

theorem freed_trans (before : Run ReleaseStep t first current)
    (later : Run ReleaseStep current second after) (i : Nat) :
    Freed t after i ↔ Freed t current i ∨ Freed current after i := by
  rw [releases_freed (run_append before later), releases_freed before, releases_freed later,
    List.map_append, List.mem_append]

theorem progress_revoked {index : Nat} (progress : Progress t index slots current)
    (link : Link t child index)
    (revoked : Revoked current child more after) : Progress t index (slots ++ more) after := by
  have joined := freed_trans progress.releases revoked.releases
  refine ⟨run_append progress.releases revoked.releases, ?_, ?_⟩
  · intro i freed
    rcases (joined i).mp freed with old | new
    · exact progress.inside i old
    · refine ⟨child, link, ?_⟩
      exact below_mono (releases_link progress.releases) ((revoked.exact i).mp new).2
  · intro lower upper edge freed
    rw [joined]
    rcases (joined upper).mp freed with old | new
    · exact .inl (progress.closed lower upper edge old)
    by_cases live : Live current lower
    · right
      have inner := releases_link_kept progress.releases edge live new.1
      exact (revoked.exact lower).mpr ⟨live, ((revoked.exact upper).mp new).2.head inner⟩
    · exact .inl ⟨edge.1, live⟩

theorem progress_finish (progress : Progress t index.toNat slots current)
    (live : Live t index.toNat) (offCycle : ¬ OnCycle (Link t) index.toNat)
    (visited : ∀ child, Link t child index.toNat → Freed t current child) :
    Revoked t index.toNat (slots ++ [index]) (releaseSlot current index noParent) := by
  have still : Live current index.toNat := by
    by_contra gone
    rcases progress.inside _ ⟨live, gone⟩ with ⟨child, link, below⟩
    exact offCycle (Relation.TransGen.tail' below link)
  have last : Run ReleaseStep current [index] (releaseSlot current index noParent) :=
    Run.next ⟨still, rfl⟩ (Run.refl _)
  have joined : ∀ i, Freed t (releaseSlot current index noParent) i ↔
      Freed t current i ∨ i = index.toNat := by
    intro i
    rw [freed_trans progress.releases last, releases_freed last]
    simp
  refine ⟨run_append progress.releases last, ?_⟩
  intro i
  constructor
  · intro freed
    refine ⟨freed.1, ?_⟩
    rcases (joined i).mp freed with old | rfl
    · rcases progress.inside i old with ⟨child, link, below⟩
      exact below.tail link
    · exact Relation.ReflTransGen.refl
  · rintro ⟨_, below⟩
    refine below_closed ?_ ((joined _).mpr (.inr rfl)) below
    intro lower upper edge freed
    rw [joined]
    rcases (joined upper).mp freed with old | rfl
    · exact .inl (progress.closed lower upper edge old)
    · exact .inl (visited lower edge)

theorem progress_start (t : Table) (index : Nat) : Progress t index [] t :=
  ⟨Run.refl t, fun _ freed => absurd freed.1 freed.2, fun _ _ _ freed => absurd freed.1 freed.2⟩

theorem revokeUnlocked_stale (stale : ¬ Resolves t h) (fuel : Nat) :
    revokeUnlocked (fuel + 1) t h = some (t, 0) := by
  unfold revokeUnlocked
  grind [Resolves, Live]

theorem revokeUnlocked_resolves (resolves : Resolves t h) (fuel : Nat) :
    revokeUnlocked (fuel + 1) t h =
      (revokeChildren (revokeUnlocked fuel) (handleIndex h) (List.range t.capacity) t 0).map
        fun result => (releaseSlot result.1 (handleIndex h) noParent, result.2 + 1) := by
  rcases resolves with ⟨valid, ⟨bound, live⟩, current⟩
  rw [revokeUnlocked]
  simp only [valid, Nat.not_le.mpr bound, live, current, ne_eq, not_true_eq_false, if_false]

/-- The handle that the loop builds for a child it meets, and the link it stands
for in the table the call started from. -/
theorem child_resolves (valid : WellFormed t) (live : Live t index.toNat)
    (progress : Progress t index.toNat slots current) (bound : i < t.capacity)
    (hit : (current.entries i).kind ≠ .invalid ∧ (current.entries i).parentIndex = index) :
    Link t i index.toNat ∧ Live current i ∧
      Resolves current (makeHandle (UInt32.ofNat i) (current.entries i).generation) ∧
      (handleIndex (makeHandle (UInt32.ofNat i) (current.entries i).generation)).toNat = i := by
  have currentValid := releases_wellformed progress.releases valid
  have childLive : Live current i := by
    constructor
    · rw [releases_capacity progress.releases]
      exact bound
    · exact hit.1
  rcases (releases_live progress.releases i).mp childLive with ⟨before, kept⟩
  rcases slot_resolves currentValid.admissible childLive with ⟨resolves, slotIs⟩
  refine ⟨⟨before, live, ?_⟩, childLive, resolves, ?_⟩
  · rw [← releases_other progress.releases kept, hit.2]
  · rw [slotIs]
    exact toNat_ofNat_slot currentValid.admissible childLive.1

structure Returned (t : Table) (h : Handle) (after : Table) (n : UInt32) : Prop where
  revoked : ∃ slots, n = UInt32.ofNat slots.length ∧
    Revoked t (handleIndex h).toNat slots after
  offCycle : ¬ OnCycle (Link t) (handleIndex h).toNat

/-- The loop over the slots still to visit, if it returns. Entries on a cycle
survive it: the recursive call on such an entry would not have returned. -/
theorem revokeChildren_returned (valid : WellFormed t) (live : Live t index.toNat)
    (recursion : ∀ (current : Table) (h : Handle) (after : Table) (n : UInt32),
      WellFormed current → Resolves current h →
      revokeUnlocked fuel current h = some (after, n) → Returned current h after n) :
    ∀ (pending : List Nat) (current : Table) (slots : List UInt32) (after : Table)
      (n : UInt32), (∀ i ∈ pending, i < t.capacity) →
      Progress t index.toNat slots current → (∀ i, OnCycle (Link t) i → Live current i) →
      revokeChildren (revokeUnlocked fuel) index pending current
        (UInt32.ofNat slots.length) = some (after, n) →
      (∃ all, n = UInt32.ofNat all.length ∧ Progress t index.toNat all after) ∧
        (∀ i, Freed t current i → Freed t after i) ∧
        ∀ i ∈ pending, Link t i index.toNat → Freed t after i ∧ ¬ OnCycle (Link t) i := by
  intro pending
  induction pending with
  | nil =>
    intro current slots after n _ progress _ returned
    rcases returned with ⟨rfl, rfl⟩
    exact ⟨⟨slots, rfl, progress⟩, fun _ freed => freed, by simp⟩
  | cons i rest ih =>
    intro current slots after n bounds progress cyclesLive returned
    obtain ⟨bound, restBounds⟩ := List.forall_mem_cons.mp bounds
    rw [List.forall_mem_cons]
    unfold revokeChildren at returned
    by_cases hit : (current.entries i).kind ≠ .invalid ∧ (current.entries i).parentIndex = index
    · rw [if_pos hit] at returned
      rcases Option.bind_eq_some_iff.mp returned with ⟨⟨next, m⟩, first, tail⟩
      rcases child_resolves valid live progress bound hit with
        ⟨link, childLive, resolves, slotIs⟩
      have inner := recursion current _ next m
        (releases_wellformed progress.releases valid) resolves first
      rcases inner.revoked with ⟨more, rfl, revoked⟩
      have innerOff := inner.offCycle
      rw [slotIs] at revoked innerOff
      have offCycle : ¬ OnCycle (Link t) i := by
        intro cycle
        apply innerOff
        refine cycle_restrict (link_unique t) ?_ cycle
        intro child parent edge childOn parentOn
        exact releases_link_kept progress.releases edge (cyclesLive child childOn)
          (cyclesLive parent parentOn)
      have cyclesNext : ∀ j, OnCycle (Link t) j → Live next j := by
        intro j cycle
        by_contra gone
        have below := ((revoked.exact j).mp ⟨cyclesLive j cycle, gone⟩).2
        exact offCycle (cycle_top (link_unique t)
          (below_mono (releases_link progress.releases) below) cycle)
      have joined := freed_trans progress.releases revoked.releases
      rw [← UInt32.ofNat_add, ← List.length_append] at tail
      rcases ih next (slots ++ more) after n restBounds
        (progress_revoked progress link revoked) cyclesNext tail with
        ⟨done, grows, visited⟩
      refine ⟨done, fun j freed => grows j ((joined j).mpr (.inl freed)), fun _ => ?_, visited⟩
      refine ⟨grows i ((joined i).mpr (.inr ?_)), offCycle⟩
      exact (revoked.exact i).mpr ⟨childLive, Relation.ReflTransGen.refl⟩
    · rw [if_neg hit] at returned
      rcases ih current slots after n restBounds progress cyclesLive returned with
        ⟨done, grows, visited⟩
      refine ⟨done, grows, fun edge => ?_, visited⟩
      -- a child that the loop passes over has already been released
      have gone : ¬ Live current i := by
        intro still
        have kept := ((releases_live progress.releases i).mp still).2
        apply hit
        refine ⟨still.2, ?_⟩
        rw [releases_other progress.releases kept]
        exact UInt32.toNat_inj.mp edge.2.2
      exact ⟨grows i ⟨edge.1, gone⟩, fun cycle => gone (cyclesLive i cycle)⟩

theorem revokeUnlocked_returned (fuel : Nat) :
    ∀ (t : Table) (h : Handle) (after : Table) (n : UInt32), WellFormed t → Resolves t h →
      revokeUnlocked fuel t h = some (after, n) → Returned t h after n := by
  induction fuel with
  | zero =>
    intro t h after n _ _ returned
    simp [revokeUnlocked] at returned
  | succ fuel ih =>
    intro t h after n valid resolves returned
    have live := resolves.2.1
    rw [revokeUnlocked_resolves resolves] at returned
    rcases Option.map_eq_some_iff.mp returned with ⟨⟨next, m⟩, loop, same⟩
    rcases same with ⟨rfl, rfl⟩
    have cyclesLive : ∀ i, OnCycle (Link t) i → Live t i := by
      intro i cycle
      rcases Relation.TransGen.head'_iff.mp cycle with ⟨_, edge, _⟩
      exact edge.1
    rcases revokeChildren_returned valid live ih (List.range t.capacity) t [] next m
      (by simp) (progress_start t _) cyclesLive loop with ⟨⟨slots, rfl, progress⟩, _, visited⟩
    have children : ∀ child, Link t child (handleIndex h).toNat →
        Freed t next child ∧ ¬ OnCycle (Link t) child := by
      intro child edge
      exact visited child (List.mem_range.mpr edge.1.1) edge
    have offCycle : ¬ OnCycle (Link t) (handleIndex h).toNat := by
      intro cycle
      rcases cycle_child cycle with ⟨child, edge, childOn⟩
      exact (children child edge).2 childOn
    refine ⟨⟨slots ++ [handleIndex h], ?_, ?_⟩, offCycle⟩
    · rw [List.length_append, UInt32.ofNat_add]
      rfl
    · exact progress_finish progress live offCycle fun child edge => (children child edge).1

/-- With a rank on the parent links every recursive call starts lower, so the
recursion ends. -/
theorem revokeUnlocked_returns (fuel : Nat) :
    ∀ (t : Table) (h : Handle), WellFormed t → Ranked rank (Link t) → Resolves t h →
      rank (handleIndex h).toNat < fuel → ∃ result, revokeUnlocked fuel t h = some result := by
  induction fuel with
  | zero =>
    intro t h _ _ _ impossible
    exact absurd impossible (Nat.not_lt_zero _)
  | succ fuel ih =>
    intro t h valid ranked resolves deep
    have live := resolves.2.1
    have loop : ∀ (pending : List Nat) (current : Table) (slots : List UInt32)
        (revoked : UInt32), (∀ i ∈ pending, i < t.capacity) →
        Progress t (handleIndex h).toNat slots current →
        ∃ result, revokeChildren (revokeUnlocked fuel) (handleIndex h) pending current
          revoked = some result := by
      intro pending
      induction pending with
      | nil =>
        intro current slots revoked _ _
        exact ⟨_, rfl⟩
      | cons i rest loopIh =>
        intro current slots revoked bounds progress
        obtain ⟨bound, restBounds⟩ := List.forall_mem_cons.mp bounds
        unfold revokeChildren
        by_cases hit : (current.entries i).kind ≠ .invalid ∧
            (current.entries i).parentIndex = handleIndex h
        · rcases child_resolves valid live progress bound hit with
            ⟨link, _, childResolves, slotIs⟩
          have currentValid := releases_wellformed progress.releases valid
          have lower := Nat.lt_of_lt_of_le (ranked _ _ link) (Nat.le_of_lt_succ deep)
          rw [← slotIs] at lower
          rcases ih current _ currentValid
            (ranked_mono (releases_link progress.releases) ranked) childResolves lower with
            ⟨⟨next, m⟩, returned⟩
          rcases (revokeUnlocked_returned fuel _ _ _ _ currentValid childResolves
            returned).revoked with ⟨more, _, done⟩
          rw [slotIs] at done
          rw [if_pos hit, returned, Option.bind_some]
          exact loopIh next _ _ restBounds (progress_revoked progress link done)
        · rw [if_neg hit]
          exact loopIh current slots revoked restBounds progress
    rcases loop (List.range t.capacity) t [] 0 (by simp) (progress_start t _) with
      ⟨result, returned⟩
    rw [revokeUnlocked_resolves resolves, returned]
    exact ⟨_, rfl⟩

theorem revokeChildren_mono
    (extends_ : ∀ t h result, revoke t h = some result → deeper t h = some result)
    (pending : List Nat) :
    ∀ (t : Table) (revoked : UInt32) (result : Table × UInt32),
      revokeChildren revoke index pending t revoked = some result →
      revokeChildren deeper index pending t revoked = some result := by
  induction pending with
  | nil =>
    intro t revoked result returned
    exact returned
  | cons i rest ih =>
    intro t revoked result returned
    unfold revokeChildren at returned ⊢
    by_cases hit : (t.entries i).kind ≠ .invalid ∧ (t.entries i).parentIndex = index
    · rw [if_pos hit] at returned ⊢
      rcases Option.bind_eq_some_iff.mp returned with ⟨inner, first, tail⟩
      rw [extends_ _ _ _ first, Option.bind_some]
      exact ih _ _ _ tail
    · rw [if_neg hit] at returned ⊢
      exact ih _ _ _ returned

theorem revokeUnlocked_succ (fuel : Nat) : ∀ (t : Table) (h : Handle) (result : Table × UInt32),
      revokeUnlocked fuel t h = some result → revokeUnlocked (fuel + 1) t h = some result := by
  induction fuel with
  | zero =>
    intro t h result returned
    simp [revokeUnlocked] at returned
  | succ fuel ih =>
    intro t h result returned
    by_cases resolves : Resolves t h
    · rw [revokeUnlocked_resolves resolves] at returned ⊢
      rcases Option.map_eq_some_iff.mp returned with ⟨inner, loop, same⟩
      rw [revokeChildren_mono ih _ _ _ _ loop, Option.map_some, same]
    · rw [revokeUnlocked_stale resolves] at returned ⊢
      exact returned

theorem revokeUnlocked_mono {deeper : Nat} (enough : fuel ≤ deeper)
    (returned : revokeUnlocked fuel t h = some result) :
    revokeUnlocked deeper t h = some result := by
  induction enough with
  | refl => exact returned
  | step _ ih => exact revokeUnlocked_succ _ t h result ih

/-- The outcome does not depend on the recursion depth that was allowed. -/
theorem revokes_unique {first second : Table} (left : Revokes t h first n)
    (right : Revokes t h second m) :
    first = second ∧ n = m := by
  rcases left with ⟨fuel, leftReturned⟩
  rcases right with ⟨deeper, rightReturned⟩
  have both := (revokeUnlocked_mono (Nat.le_max_left fuel deeper) leftReturned).symm.trans
    (revokeUnlocked_mono (Nat.le_max_right fuel deeper) rightReturned)
  simpa using both

theorem revokes_stale (stale : ¬ Resolves t h) : Revokes t h t 0 :=
  ⟨1, revokeUnlocked_stale stale 0⟩

theorem revokes_ranked (valid : WellFormed t) (ranked : Ranked rank (Link t))
    (resolves : Resolves t h) : ∃ after n, Revokes t h after n := by
  rcases revokeUnlocked_returns _ t h valid ranked resolves (Nat.lt_succ_self _) with
    ⟨⟨after, n⟩, returned⟩
  exact ⟨after, n, _, returned⟩

/-- A `revoke` that returns either changed nothing or released the subtree of its
slot. -/
theorem revokes_cases (valid : WellFormed t) (returned : Revokes t h after n) :
    (¬ Resolves t h ∧ after = t ∧ n = 0) ∨ (Resolves t h ∧ Returned t h after n) := by
  rcases returned with ⟨fuel, result⟩
  by_cases resolves : Resolves t h
  · exact .inr ⟨resolves, revokeUnlocked_returned fuel t h after n valid resolves result⟩
  · rcases revokes_unique ⟨fuel, result⟩ (revokes_stale resolves) with ⟨rfl, rfl⟩
    exact .inl ⟨resolves, rfl, rfl⟩

theorem revokes_frees_child (valid : WellFormed t) (resolves : Resolves t h)
    (returned : Revokes t h after n) (link : Link t child (handleIndex h).toNat) :
    Freed t after child := by
  rcases revokes_cases valid returned with ⟨stale, _⟩ | ⟨_, done⟩
  · exact absurd resolves stale
  · rcases done.revoked with ⟨slots, _, revoked⟩
    exact (revoked.exact child).mpr ⟨link.1, Relation.ReflTransGen.single link⟩

theorem revokes_shrinks (valid : WellFormed t)
    (returned : Revokes t h after n) : WellFormed after ∧ Shrinks t after := by
  rcases revokes_cases valid returned with ⟨_, rfl, _⟩ | ⟨_, done⟩
  · exact ⟨valid, rfl, fun _ live => ⟨live, rfl⟩⟩
  · rcases done.revoked with ⟨slots, _, revoked⟩
    exact ⟨releases_wellformed revoked.releases valid, releases_shrinks revoked.releases⟩

theorem insert_wellformed (valid : WellFormed t) (object : UInt64) (kind : Kind)
    (rights : Rights) : WellFormed (insert t object kind rights).1 := by
  unfold insert
  by_cases full : t.freeHead = freeEnd
  · rw [if_pos full]
    exact valid
  · rw [if_neg full]
    exact takeSlot_wellformed valid full _ _ _ _

theorem derive_wellformed (valid : WellFormed t) (h : Handle)
    (newRights : Rights) : WellFormed (derive t h newRights).1 := by
  by_cases derivable : Derivable t h
  · rw [derive_taken derivable]
    exact takeSlot_wellformed valid derivable.2.2 _ _ _ _
  · rw [derive_refused derivable]
    exact valid

theorem remove_wellformed (valid : WellFormed t) (h : Handle) : WellFormed (remove t h) := by
  by_cases removable : Removable t h
  · rw [remove_released removable]
    exact releaseSlot_wellformed valid removable.2 _
  · rw [remove_refused removable]
    exact valid

theorem step_wellformed (valid : WellFormed t) (step : Step t call after) : WellFormed after := by
  cases call with
  | insert object kind rights =>
    cases step
    exact insert_wellformed valid object kind rights
  | derive h newRights =>
    cases step
    exact derive_wellformed valid h newRights
  | remove h =>
    cases step
    exact remove_wellformed valid h
  | revoke h =>
    rcases step with ⟨n, returned⟩
    exact (revokes_shrinks valid returned).1

end ViperDos.CapTable
