import ViperDos.CapHistory

/-!
Revocation against the history of derivations. The table follows parent slots;
the history knows which capability was derived from which. The two agree as long
as no slot is handed out again while a live entry still names it as its parent,
and no capability is removed between a live parent and a live child. Where either
happens `revoke` frees too much, respectively too little.
-/

namespace ViperDos.CapTable

open Transition Forest Function

def Origin (s : History) (id source : Nat) : Prop := s.origin id = some source

def DerivedFrom (s : History) (i j : Nat) : Prop :=
  Relation.TransGen (Origin s) (s.owner i) (s.owner j)

def OnFreeList (t : Table) (i : Nat) : Prop :=
  ∃ chain, FreeList t chain ∧ i ∈ chain.map UInt32.toNat

/-- `revoke` of every live handle returns, frees the slot of the handle and of
what was derived from its capability and nothing else, and counts what it
freed. -/
def RevokeExact (s : History) : Prop :=
  ∀ h, Resolves s.table h → ∃ after n, Revokes s.table h after n ∧
    (∀ i, Freed s.table after i ↔
      Live s.table i ∧ (i = (handleIndex h).toNat ∨ DerivedFrom s i (handleIndex h).toNat)) ∧
    (∀ i, Freed s.table after i → OnFreeList after i) ∧
    (∀ i, Live s.table i → ¬ Freed s.table after i → after.entries i = s.table.entries i) ∧
    n.toNat = ((Finset.range s.table.capacity).filter (Freed s.table after)).card

def HeadUnreferenced (t : Table) : Prop :=
  ∀ child, Live t child → (t.entries child).parentIndex ≠ t.freeHead

/-- A slot that is handed out is nobody's parent, and a removed entry does not
stand between a live parent and a live child. -/
def KeepsLineage (s : History) : Call → Prop
  | .insert _ kind _ =>
    s.table.freeHead ≠ freeEnd → kind ≠ .invalid → HeadUnreferenced s.table
  | .derive h _ => Derivable s.table h → HeadUnreferenced s.table
  | .remove h => Removable s.table h →
      ∀ child parent, Link s.table child (handleIndex h).toNat →
        ¬ Link s.table (handleIndex h).toNat parent
  | .revoke _ => True

structure Lineage (s : History) : Prop where
  wellFormed : WellFormed s.table
  numbered : ∀ i, Live s.table i → s.owner i < s.next
  distinct : ∀ i j, Live s.table i → Live s.table j → s.owner i = s.owner j → i = j
  older : ∀ id source, Origin s id source → source < id
  linked : ∀ child parent, Link s.table child parent →
    Origin s (s.owner child) (s.owner parent)
  orphaned : ∀ child, Live s.table child → (∀ parent, ¬ Link s.table child parent) →
    ∀ i, Live s.table i → ¬ DerivedFrom s child i

variable {s : History} {i top parentId capacity child parent : Nat} {t after : Table}
  {slots : List UInt32} {object : UInt64} {kind : Kind} {rights parentIndex index n : UInt32}
  {source : Option Nat} {h : Handle} {call : Call}

theorem origin_path_older {source : Nat} (older : ∀ id source, Origin s id source → source < id)
    {id : Nat}
    (path : Relation.TransGen (Origin s) id source) : source < id := by
  induction path with
  | single edge => exact older _ _ edge
  | tail _ edge ih => exact Nat.lt_trans (older _ _ edge) ih

theorem lineage_ranked (lineage : Lineage s) :
    Ranked (fun i => s.next - s.owner i) (Link s.table) := by
  intro child parent link
  have newer := lineage.older _ _ (lineage.linked child parent link)
  have bound := lineage.numbered child link.1
  change s.next - s.owner child < s.next - s.owner parent
  omega

/-- While something live is upstream, the capability an entry was derived from
still occupies the parent slot. -/
theorem origin_in_parent_slot {source : Nat} (lineage : Lineage s)
    (live : Live s.table i) (topLive : Live s.table top) (edge : Origin s (s.owner i) source)
    (derived : DerivedFrom s i top) :
    ∃ parent, Link s.table i parent ∧ s.owner parent = source := by
  by_cases parented : ∃ parent, Link s.table i parent
  · rcases parented with ⟨parent, link⟩
    have known := lineage.linked i parent link
    unfold Origin at known edge
    rw [known] at edge
    exact ⟨parent, link, Option.some.inj edge⟩
  · have alone : ∀ parent, ¬ Link s.table i parent := fun p link => parented ⟨p, link⟩
    exact absurd derived (lineage.orphaned i live alone top topLive)

/-- Climbing the parent slots and following the derivations is the same. -/
theorem below_iff_derived (lineage : Lineage s) (live : Live s.table i)
    (topLive : Live s.table top) : Below (Link s.table) top i ↔ i = top ∨ DerivedFrom s i top := by
  constructor
  · intro below
    rcases Relation.reflTransGen_iff_eq_or_transGen.mp below with same | path
    · exact .inl same.symm
    · exact .inr (Relation.TransGen.lift s.owner lineage.linked _ _ path)
  · rintro (same | derived)
    · subst i
      exact Relation.ReflTransGen.refl
    have climb : ∀ id, Relation.TransGen (Origin s) id (s.owner top) →
        ∀ j, Live s.table j → s.owner j = id → Below (Link s.table) top j := by
      intro id path
      induction path using Relation.TransGen.head_induction_on with
      | single edge =>
        rintro j jLive rfl
        rcases origin_in_parent_slot lineage jLive topLive edge
          (Relation.TransGen.single edge) with ⟨parent, link, owned⟩
        have same := lineage.distinct parent top link.2.1 topLive owned
        subst parent
        exact Relation.ReflTransGen.single link
      | head edge rest ih =>
        rintro j jLive rfl
        rcases origin_in_parent_slot lineage jLive topLive edge
          (Relation.TransGen.head edge rest) with ⟨parent, link, owned⟩
        exact (ih parent link.2.1 owned).head link
    exact climb _ derived i live rfl

theorem freed_count (valid : WellFormed t) (releases : Run ReleaseStep t slots after) :
    (UInt32.ofNat slots.length).toNat =
      ((Finset.range t.capacity).filter (Freed t after)).card := by
  rcases releases_slots releases with ⟨noDup, occupied⟩
  have mapped : (slots.map UInt32.toNat).Nodup :=
    noDup.map (fun _ _ same => UInt32.toNat_inj.mp same)
  have asSet : (Finset.range t.capacity).filter (Freed t after) =
      (slots.map UInt32.toNat).toFinset := by
    ext i
    simp only [Finset.mem_filter, Finset.mem_range, List.mem_toFinset, releases_freed releases]
    constructor
    · intro both
      exact both.2
    · intro member
      rcases List.mem_map.mp member with ⟨index, inSlots, rfl⟩
      exact ⟨(occupied index inSlots).1, member⟩
  have size : ((Finset.range t.capacity).filter (Freed t after)).card = slots.length := by
    rw [asSet, List.toFinset_card_of_nodup mapped, List.length_map]
  have bounded : slots.length ≤ t.capacity := by
    rw [← size]
    exact (Finset.card_filter_le _ _).trans (Finset.card_range _).le
  have small := valid.admissible.2
  rw [size, UInt32.toNat_ofNat']
  omega

theorem lineage_exact (lineage : Lineage s) : RevokeExact s := by
  intro h resolves
  have valid := lineage.wellFormed
  rcases revokes_ranked valid (lineage_ranked lineage) resolves with ⟨after, n, returned⟩
  rcases revokes_cases valid returned with ⟨stale, _⟩ | ⟨_, done⟩
  · exact absurd resolves stale
  rcases done.revoked with ⟨slots, rfl, revoked⟩
  refine ⟨after, _, returned, ?_, ?_, ?_, freed_count valid revoked.releases⟩
  · intro i
    rw [revoked.exact]
    constructor
    · rintro ⟨live, below⟩
      exact ⟨live, (below_iff_derived lineage live resolves.2.1).mp below⟩
    · rintro ⟨live, derived⟩
      exact ⟨live, (below_iff_derived lineage live resolves.2.1).mpr derived⟩
  · intro i freed
    rcases valid.free with ⟨chain, free⟩
    refine ⟨_, releases_free revoked.releases free, ?_⟩
    rw [List.map_append, List.map_reverse, List.mem_append, List.mem_reverse]
    exact .inl ((releases_freed revoked.releases i).mp freed)
  · intro i _ kept
    apply releases_other revoked.releases
    intro member
    exact kept ((releases_freed revoked.releases i).mpr member)

section Occupy

theorem occupy_live (valid : WellFormed s.table) (room : s.table.freeHead ≠ freeEnd)
    (live : Live (occupy s object kind rights parentIndex source).table i) :
    (Live s.table i ∧ i ≠ s.table.freeHead.toNat) ∨
      (i = s.table.freeHead.toNat ∧ kind ≠ .invalid) := by
  rcases (takeSlot_live valid room _ _ _ _ i).mp live with old | new
  · exact .inl ⟨old, live_away_from_head valid room old⟩
  · exact .inr new

theorem occupy_owner_old (away : i ≠ s.table.freeHead.toNat) :
    (occupy s object kind rights parentIndex source).owner i = s.owner i :=
  update_of_ne away _ _

theorem occupy_owner_new :
    (occupy s object kind rights parentIndex source).owner s.table.freeHead.toNat = s.next :=
  update_self _ _ _

variable {id : Nat}

theorem occupy_origin_old (old : id ≠ s.next) :
    Origin (occupy s object kind rights parentIndex source) id parentId ↔ Origin s id parentId := by
  have kept : (occupy s object kind rights parentIndex source).origin id = s.origin id :=
    update_of_ne old _ _
  unfold Origin
  rw [kept]

theorem occupy_origin_new :
    Origin (occupy s object kind rights parentIndex source) s.next parentId ↔
      source = some parentId := by
  have new : (occupy s object kind rights parentIndex source).origin s.next = source :=
    update_self _ _ _
  unfold Origin
  rw [new]

theorem occupy_path_old (older : ∀ id parentId, Origin s id parentId → parentId < id)
    (old : id < s.next)
    (path : Relation.TransGen (Origin (occupy s object kind rights parentIndex source)) id top) :
    Relation.TransGen (Origin s) id top := by
  induction path using Relation.TransGen.head_induction_on with
  | single edge =>
    exact Relation.TransGen.single ((occupy_origin_old (Nat.ne_of_lt old)).mp edge)
  | head edge _ ih =>
    have before := (occupy_origin_old (Nat.ne_of_lt old)).mp edge
    exact Relation.TransGen.head before (ih (Nat.lt_trans (older _ _ before) old))

theorem occupy_not_derived_from_new (lineage : Lineage s) (live : Live s.table i)
    (away : i ≠ s.table.freeHead.toNat) :
    ¬ DerivedFrom (occupy s object kind rights parentIndex source) i s.table.freeHead.toNat := by
  intro derived
  unfold DerivedFrom at derived
  rw [occupy_owner_old away, occupy_owner_new] at derived
  have known := lineage.numbered i live
  have below := origin_path_older lineage.older (occupy_path_old lineage.older known derived)
  omega

/-- Filling the head of the free list keeps the lineage if the new entry's parent
is recorded and no live entry already names the slot. -/
theorem occupy_lineage (lineage : Lineage s) (room : s.table.freeHead ≠ freeEnd)
    (unreferenced : kind ≠ .invalid → HeadUnreferenced s.table)
    (parented : (source = none ∧ parentIndex = noParent) ∨
      (Live s.table parentIndex.toNat ∧ source = some (s.owner parentIndex.toNat))) :
    Lineage (occupy s object kind rights parentIndex source) := by
  have valid := lineage.wellFormed
  constructor
  case wellFormed => exact takeSlot_wellformed valid room _ _ _ _
  case numbered =>
    intro i live
    rcases occupy_live valid room live with ⟨old, away⟩ | ⟨rfl, _⟩
    · rw [occupy_owner_old away]
      exact Nat.lt_succ_of_lt (lineage.numbered i old)
    · rw [occupy_owner_new]
      exact Nat.lt_succ_self _
  case distinct =>
    intro i j iLive jLive same
    rcases occupy_live valid room iLive with ⟨iOld, iAway⟩ | ⟨rfl, _⟩ <;>
      rcases occupy_live valid room jLive with ⟨jOld, jAway⟩ | ⟨rfl, _⟩
    · rw [occupy_owner_old iAway, occupy_owner_old jAway] at same
      exact lineage.distinct i j iOld jOld same
    · rw [occupy_owner_old iAway, occupy_owner_new] at same
      exact absurd same (Nat.ne_of_lt (lineage.numbered i iOld))
    · rw [occupy_owner_old jAway, occupy_owner_new] at same
      exact absurd same.symm (Nat.ne_of_lt (lineage.numbered j jOld))
    · rfl
  case older =>
    intro id parentId edge
    by_cases fresh : id = s.next
    · subst id
      have known := occupy_origin_new.mp edge
      rcases parented with ⟨noSource, _⟩ | ⟨parentLive, fromParent⟩
      · rw [noSource] at known
        cases known
      · rw [fromParent] at known
        have same := Option.some.inj known
        have bound := lineage.numbered _ parentLive
        omega
    · exact lineage.older id parentId ((occupy_origin_old fresh).mp edge)
  case linked =>
    intro child parent link
    by_cases childNew : child = s.table.freeHead.toNat
    · subst child
      rcases parented with ⟨_, root⟩ | ⟨parentLive, fromParent⟩
      · subst root
        exact absurd link (takeSlot_root valid _ _ _ _)
      have parentIs : parentIndex.toNat = parent := by
        have named := link.2.2
        unfold occupy at named
        rw [takeSlot_at] at named
        exact named
      subst parent
      rw [occupy_owner_new, occupy_owner_old (live_away_from_head valid room parentLive)]
      exact occupy_origin_new.mpr fromParent
    · by_cases parentNew : parent = s.table.freeHead.toNat
      · -- an old entry that names the new slot is what the condition excludes
        subst parent
        rcases occupy_live valid room link.2.1 with ⟨_, away⟩ | ⟨_, usable⟩
        · exact absurd rfl away
        rcases occupy_live valid room link.1 with ⟨old, _⟩ | ⟨new, _⟩
        · have named := link.2.2
          unfold occupy at named
          rw [takeSlot_other childNew] at named
          exact absurd (UInt32.toNat_inj.mp named) (unreferenced usable child old)
        · exact absurd new childNew
      · have before := takeSlot_link_old valid room child parent link childNew parentNew
        rw [occupy_owner_old childNew, occupy_owner_old parentNew]
        exact (occupy_origin_old (Nat.ne_of_lt (lineage.numbered child before.1))).mpr
          (lineage.linked child parent before)
  case orphaned =>
    intro child live alone i iLive derived
    rcases occupy_live valid room live with ⟨old, away⟩ | ⟨rfl, usable⟩
    · rcases occupy_live valid room iLive with ⟨iOld, iAway⟩ | ⟨rfl, _⟩
      · have before : ∀ parent, ¬ Link s.table child parent := fun parent link =>
          alone parent (takeSlot_link_kept valid room _ _ _ _ child parent link)
        unfold DerivedFrom at derived
        rw [occupy_owner_old away, occupy_owner_old iAway] at derived
        exact lineage.orphaned child old before i iOld
          (occupy_path_old lineage.older (lineage.numbered child old) derived)
      · exact occupy_not_derived_from_new lineage old away derived
    · rcases parented with ⟨noSource, _⟩ | ⟨parentLive, _⟩
      · unfold DerivedFrom at derived
        rw [occupy_owner_new] at derived
        rcases Relation.TransGen.head'_iff.mp derived with ⟨parentId, edge, _⟩
        have known := occupy_origin_new.mp edge
        rw [noSource] at known
        cases known
      · apply alone parentIndex.toNat
        refine ⟨live, (takeSlot_live valid room _ _ _ _ _).mpr (.inl parentLive), ?_⟩
        unfold occupy
        rw [takeSlot_at]

/-- If a live entry names the slot just filled, revoking the new capability
takes that entry along although it is not derived from it. -/
theorem occupy_exact_unreferenced (lineage : Lineage s) (room : s.table.freeHead ≠ freeEnd)
    (usable : kind ≠ .invalid)
    (exactness : RevokeExact (occupy s object kind rights parentIndex source)) :
    HeadUnreferenced s.table := by
  intro child live named
  have valid := lineage.wellFormed
  have away := live_away_from_head valid room live
  have grown := takeSlot_live valid room object kind rights parentIndex
  have headLive := (grown s.table.freeHead.toNat).mpr (.inr ⟨rfl, usable⟩)
  have childLive := (grown child).mpr (.inl live)
  have nextValid := takeSlot_wellformed valid room object kind rights parentIndex
  rcases slot_resolves nextValid.admissible headLive with ⟨resolves, slotIs⟩
  rw [UInt32.ofNat_toNat] at resolves slotIs
  rcases exactness _ resolves with ⟨after, n, returned, freed, _⟩
  rw [slotIs] at freed
  have link : Link (occupy s object kind rights parentIndex source).table child
      s.table.freeHead.toNat := by
    refine ⟨childLive, headLive, ?_⟩
    unfold occupy
    rw [takeSlot_other away, named]
  have childFreed := revokes_frees_child nextValid resolves returned (by rw [slotIs]; exact link)
  rcases ((freed child).mp childFreed).2 with same | derived
  · exact away same
  · exact occupy_not_derived_from_new lineage live away derived

end Occupy

/-- A table with fewer live entries, each with its old parent, keeps the lineage
unless an entry loses its parent while something further up stays live. -/
theorem shrink_lineage (lineage : Lineage s)
    (valid : WellFormed after) (shrinks : Shrinks s.table after)
    (orphaned : ∀ child parent, Link s.table child parent → Live after child →
      ¬ Live after parent → ∀ i, Live after i → ¬ DerivedFrom s child i) :
    Lineage { s with table := after } := by
  constructor
  case wellFormed => exact valid
  case numbered =>
    intro i live
    exact lineage.numbered i (shrinks.2 i live).1
  case distinct =>
    intro i j iLive jLive same
    exact lineage.distinct i j (shrinks.2 i iLive).1 (shrinks.2 j jLive).1 same
  case older => exact lineage.older
  case linked =>
    intro child parent link
    exact lineage.linked child parent (shrinks_link shrinks child parent link)
  case orphaned =>
    intro child live alone i iLive
    rcases shrinks.2 child live with ⟨before, same⟩
    by_cases parented : ∃ parent, Link s.table child parent
    · rcases parented with ⟨parent, link⟩
      have parentGone : ¬ Live after parent := by
        intro parentLive
        apply alone parent
        refine ⟨live, parentLive, ?_⟩
        rw [same]
        exact link.2.2
      exact orphaned child parent link live parentGone i iLive
    · exact lineage.orphaned child before (fun parent link => parented ⟨parent, link⟩) i
        (shrinks.2 i iLive).1

theorem release_lineage (lineage : Lineage s) (live : Live s.table index.toNat)
    (parentIndex : UInt32)
    (allowed : ∀ child parent, Link s.table child index.toNat → ¬ Link s.table index.toNat parent) :
    Lineage { s with table := releaseSlot s.table index parentIndex } := by
  have valid := releaseSlot_wellformed lineage.wellFormed live parentIndex
  refine shrink_lineage lineage valid (releaseSlot_shrinks _ _ _) ?_
  intro child parent link _ parentGone i iLive derived
  have removed : parent = index.toNat := by
    by_contra away
    exact parentGone ((releaseSlot_live _ _ _ _).mpr ⟨link.2.1, away⟩)
  subst parent
  rcases (releaseSlot_live _ _ _ _).mp iLive with ⟨iBefore, iAway⟩
  have known := lineage.linked child _ link
  -- the child's derivation passes through the removed capability, which was a root
  rcases Relation.TransGen.head'_iff.mp derived with ⟨source, edge, rest⟩
  have sourceIs : source = s.owner index.toNat := by
    unfold Origin at known edge
    rw [known] at edge
    exact (Option.some.inj edge).symm
  subst source
  rcases Relation.reflTransGen_iff_eq_or_transGen.mp rest with same | path
  · exact iAway (lineage.distinct i _ iBefore live same)
  · exact lineage.orphaned _ live (fun parent => allowed child parent link) i iBefore path

theorem revoke_lineage (lineage : Lineage s) (returned : Revokes s.table h after n) :
    Lineage { s with table := after } := by
  rcases revokes_cases lineage.wellFormed returned with ⟨_, rfl, _⟩ | ⟨_, done⟩
  · exact lineage
  rcases revokes_shrinks lineage.wellFormed returned with ⟨valid, shrinks⟩
  rcases done.revoked with ⟨slots, _, revoked⟩
  refine shrink_lineage lineage valid shrinks ?_
  intro child parent link childLive parentGone
  -- a subtree is freed as a whole, so no survivor loses its parent
  have freed := ((revoked.exact parent).mp ⟨link.2.1, parentGone⟩).2
  have childFreed := (revoked.exact child).mpr ⟨link.1, freed.head link⟩
  exact absurd childLive childFreed.2

theorem start_lineage (admissible : AdmissibleCapacity capacity) : Lineage (start capacity) := by
  have dead : ∀ i, ¬ Live (start capacity).table i := fun _ live => live.2 rfl
  constructor
  case wellFormed => exact init_wellformed admissible
  case numbered =>
    intro i live
    exact absurd live (dead i)
  case distinct =>
    intro i j live
    exact absurd live (dead i)
  case older =>
    intro id source edge
    cases edge
  case linked =>
    intro child parent link
    exact absurd link.1 (dead child)
  case orphaned =>
    intro child live
    exact absurd live (dead child)

theorem recorded_lineage {after : History} (lineage : Lineage s)
    (allowed : KeepsLineage s call) (recorded : Recorded s call after) : Lineage after := by
  rcases recorded_cases lineage.wellFormed recorded with
    rfl | ⟨object, kind, rights, rfl, room, rfl⟩ | ⟨h, newRights, rfl, derivable, rfl⟩ |
      ⟨h, rfl, removable, rfl⟩ | ⟨h, table, n, rfl, returned, rfl⟩
  · exact lineage
  · exact occupy_lineage lineage room (allowed room) (.inl ⟨rfl, rfl⟩)
  · exact occupy_lineage lineage derivable.2.2 (fun _ => allowed derivable)
      (.inr ⟨derivable.1.2.1, rfl⟩)
  · exact release_lineage lineage removable.2 _ (allowed removable)
  · exact revoke_lineage lineage returned

/-- Removing a capability between a live parent and a live child cuts the child
off: revoking the parent no longer frees it. -/
theorem release_exact_separates (lineage : Lineage s) (live : Live s.table index.toNat)
    (parentIndex : UInt32) (lower : Link s.table child index.toNat)
    (upper : Link s.table index.toNat parent) :
    ¬ RevokeExact { s with table := releaseSlot s.table index parentIndex } := by
  intro exactness
  have ranked := lineage_ranked lineage
  have childBelow := ranked _ _ lower
  have parentAbove := ranked _ _ upper
  have shrinks := releaseSlot_shrinks s.table index parentIndex
  have valid := releaseSlot_wellformed lineage.wellFormed live parentIndex
  have parentAway : parent ≠ index.toNat := by
    rintro rfl
    exact Nat.lt_irrefl _ parentAbove
  have childAway : child ≠ index.toNat := by
    rintro rfl
    exact Nat.lt_irrefl _ childBelow
  have parentLive : Live (releaseSlot s.table index parentIndex) parent :=
    (releaseSlot_live _ _ _ _).mpr ⟨upper.2.1, parentAway⟩
  have childLive : Live (releaseSlot s.table index parentIndex) child :=
    (releaseSlot_live _ _ _ _).mpr ⟨lower.1, childAway⟩
  rcases slot_resolves valid.admissible parentLive with ⟨resolves, slotIs⟩
  have slotNat : (handleIndex (makeHandle (UInt32.ofNat parent)
      ((releaseSlot s.table index parentIndex).entries parent).generation)).toNat = parent := by
    rw [slotIs]
    exact toNat_ofNat_slot valid.admissible parentLive.1
  rcases exactness _ resolves with ⟨after, n, returned, freed, _⟩
  rw [slotNat] at freed
  have derived : DerivedFrom s child parent :=
    Relation.TransGen.tail (Relation.TransGen.single (lineage.linked _ _ lower))
      (lineage.linked _ _ upper)
  have childFreed := (freed child).mpr ⟨childLive, .inr derived⟩
  rcases revokes_cases valid returned with ⟨stale, _⟩ | ⟨_, done⟩
  · exact stale resolves
  rcases done.revoked with ⟨slots, _, revoked⟩
  have below := ((revoked.exact child).mp childFreed).2
  rw [slotNat] at below
  rcases Relation.ReflTransGen.cases_head below with same | ⟨middle, link, _⟩
  · rw [same] at childBelow
    exact Nat.lt_asymm childBelow parentAbove
  · -- the child still names the removed slot, which is not live
    have named := (shrinks_link shrinks child middle link).2.2
    have middleIs : middle = index.toNat := named.symm.trans lower.2.2
    exact ((releaseSlot_live _ _ _ _).mp link.2.1).2 middleIs

theorem exact_keeps_lineage {after : History} (lineage : Lineage s)
    (recorded : Recorded s call after)
    (exactness : RevokeExact after) : KeepsLineage s call := by
  have valid := lineage.wellFormed
  cases call with
  | insert object kind rights =>
    intro room usable
    have afterIs : after = occupy s object kind rights noParent none := by
      cases recorded
      rw [insert, if_neg room]
      exact record_taken valid room _ _ _ _ _
    rw [afterIs] at exactness
    exact occupy_exact_unreferenced lineage room usable exactness
  | derive h newRights =>
    intro derivable
    cases recorded
    rw [derive_taken derivable, record_taken valid derivable.2.2] at exactness
    exact occupy_exact_unreferenced lineage derivable.2.2 derivable.1.2.1.2 exactness
  | remove h =>
    intro removable child parent lower upper
    cases recorded
    rw [remove_released removable] at exactness
    exact release_exact_separates lineage removable.2 _ lower upper exactness
  | revoke h => trivial

/-- The histories in which `revoke` always frees exactly the revoked capability
and everything derived from it are those in which no slot is handed out while a
live entry names it as its parent and no entry is removed between a live parent
and a live child. -/
theorem revoke_exact_iff_lineage_kept (admissible : AdmissibleCapacity capacity)
    {history : List (Call × History)} (trace : Trace Recorded (start capacity) history) :
    Trace (Guarded KeepsLineage Recorded) (start capacity) history ↔
      ∀ visited ∈ history, RevokeExact visited.2 := by
  refine trace_guarded_iff ?_ ?_ ?_ (start_lineage admissible) trace
  · intro before call after lineage allowed recorded
    exact recorded_lineage lineage allowed recorded
  · intro state lineage
    exact lineage_exact lineage
  · intro before call after lineage recorded exactness
    exact exact_keeps_lineage lineage recorded exactness

-- A channel in slot 0 is derived into slot 1 and removed; an unrelated channel is
-- inserted and gets slot 0.
def afterInsert : History :=
  record (start defaultCapacity) (insert (init defaultCapacity) 0x1000 .channel capDerive) none
def afterDerive : History :=
  record afterInsert (derive afterInsert.table 0 capDerive) (some (afterInsert.owner 0))
def afterRemove : History := { afterDerive with table := remove afterDerive.table 0 }
def afterReuse : History :=
  record afterRemove (insert afterRemove.table 0x2000 .channel 0) none

/-- Up to the derivation the table and the history agree. -/
theorem first_derivation_exact : RevokeExact afterInsert ∧ RevokeExact afterDerive := by
  have unreferenced : HeadUnreferenced afterInsert.table := by
    intro child live
    by_cases first : child = 0
    · subst child
      decide
    · have vacant : afterInsert.table.entries child = (init defaultCapacity).entries child :=
        takeSlot_other first _ _ _ _
      exact absurd (congrArg Entry.kind vacant) live.2
  have empty : HeadUnreferenced (start defaultCapacity).table :=
    fun child live => absurd rfl live.2
  have holds := (@revoke_exact_iff_lineage_kept _ default_admissible
    [(.insert 0x1000 .channel capDerive, afterInsert), (.derive 0 capDerive, afterDerive)]
    ⟨rfl, rfl, trivial⟩).mp ⟨⟨fun _ _ => empty, rfl⟩, ⟨fun _ => unreferenced, rfl⟩, trivial⟩
  exact ⟨holds _ (.head _), holds _ (.tail _ (.head _))⟩

/-- Revoking the channel inserted last frees slot 1 as well, whose capability was
derived from the earlier occupant of slot 0. -/
theorem reused_slot_revokes_stranger : ∃ history, Trace Recorded (start defaultCapacity) history ∧
      ∃ visited ∈ history, ¬ RevokeExact visited.2 := by
  refine ⟨[(.insert 0x1000 .channel capDerive, afterInsert), (.derive 0 capDerive, afterDerive),
    (.remove 0, afterRemove), (.insert 0x2000 .channel 0, afterReuse)],
    ⟨rfl, rfl, rfl, rfl, trivial⟩, (.insert 0x2000 .channel 0, afterReuse), by simp, ?_⟩
  intro exactness
  have resolves : Resolves afterReuse.table 0x01000000 := by unfold Resolves; decide
  have link : Link afterReuse.table 1 (handleIndex 0x01000000).toNat := by unfold Link; decide
  rcases exactness _ resolves with ⟨after, n, returned, freed, _⟩
  have valid : WellFormed afterReuse.table :=
    insert_wellformed (remove_wellformed (derive_wellformed
      (insert_wellformed (init_wellformed default_admissible) _ _ _) _ _) _) _ _ _
  have childFreed := revokes_frees_child valid resolves returned link
  rcases ((freed 1).mp childFreed).2 with same | derived
  · exact absurd same (by decide)
  have root : afterReuse.origin 0 = none := by decide
  have source : afterReuse.origin (afterReuse.owner 1) = some 0 := by decide
  rcases Relation.TransGen.head'_iff.mp derived with ⟨id, edge, rest⟩
  have idIs : id = 0 := Option.some.inj (edge.symm.trans source)
  subst id
  rcases Relation.ReflTransGen.cases_head rest with same | ⟨other, further, _⟩
  · exact absurd same (by decide)
  · exact absurd (further.symm.trans root) (by simp)

end ViperDos.CapTable
