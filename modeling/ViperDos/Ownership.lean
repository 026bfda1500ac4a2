import Mathlib.Logic.Function.Basic
import Mathlib.Data.List.Nodup

/-!
Exclusive ownership of resources. Keys own resources, a pool holds the ones that
nobody owns, and some are taken by parties outside the picture. Ownership nests: a
family of owners is an owner whose keys carry the member's index, and from the
point of view of one member the others are among the outside parties. What one
member does with the pool can therefore be reasoned about alone.
-/

namespace ViperDos.Ownership

open Function

variable {Key Index Page : Type}

structure Holds (good : Page → Prop) (own : Key → Option Page) (taken : Page → Prop)
    (pool : List Page) : Prop where
  nodup : pool.Nodup
  poolGood : ∀ page ∈ pool, good page
  ownGood : ∀ key page, own key = some page → good page
  unique : ∀ key other page, own key = some page → own other = some page → key = other
  apart : ∀ key page, own key = some page → page ∉ pool ∧ ¬ taken page
  reserved : ∀ page, taken page → page ∉ pool

variable {good : Page → Prop} {own : Key → Option Page} {taken : Page → Prop}
  {pool : List Page}

variable {other aside rest : List Page} {others : Page → Prop} {less : Key → Option Page}
  {key : Key} {head page : Page}

theorem holds_perm (holds : Holds good own taken pool) (perm : other.Perm pool) :
    Holds good own taken other where
  nodup := perm.nodup_iff.mpr holds.nodup
  poolGood := fun page member => holds.poolGood page (perm.mem_iff.mp member)
  ownGood := holds.ownGood
  unique := holds.unique
  apart := fun key page found =>
    ⟨fun member => (holds.apart key page found).1 (perm.mem_iff.mp member),
      (holds.apart key page found).2⟩
  reserved := fun page outside member => holds.reserved page outside (perm.mem_iff.mp member)

theorem holds_subset (holds : Holds good own taken pool) (nodup : other.Nodup)
    (fewer : ∀ page ∈ other, page ∈ pool) : Holds good own taken other where
  nodup := nodup
  poolGood := fun page member => holds.poolGood page (fewer page member)
  ownGood := holds.ownGood
  unique := holds.unique
  apart := fun key page found =>
    ⟨fun member => (holds.apart key page found).1 (fewer page member),
      (holds.apart key page found).2⟩
  reserved := fun page outside member => holds.reserved page outside (fewer page member)

theorem holds_aside (holds : Holds good own taken (page :: (aside ++ pool))) :
    Holds good own (fun other => taken other ∨ other ∈ aside) (page :: pool) where
  nodup := holds.nodup.sublist (.cons_cons _ (List.sublist_append_right _ _))
  poolGood := fun other member => holds.poolGood other (by grind)
  ownGood := holds.ownGood
  unique := holds.unique
  apart := fun key other found => by
    have := holds.apart key other found
    grind
  reserved := by
    have nodup := holds.nodup
    rintro other (outside | kept) member
    · exact holds.reserved other outside (by grind)
    · grind

theorem holds_return (holds : Holds good own (fun other => taken other ∨ other ∈ aside) pool)
    (nodup : aside.Nodup) (fine : ∀ page ∈ aside, good page)
    (apart : ∀ page ∈ aside, ¬ taken page) : Holds good own taken (aside ++ pool) where
  nodup := List.nodup_append'.mpr ⟨nodup, holds.nodup, fun page kept =>
    holds.reserved page (.inr kept)⟩
  poolGood := fun page member => (List.mem_append.mp member).elim (fine page) (holds.poolGood page)
  ownGood := holds.ownGood
  unique := holds.unique
  apart := fun key page found => by
    have := holds.apart key page found
    grind
  reserved := fun page outside member => (List.mem_append.mp member).elim
    (fun kept => apart page kept outside) (holds.reserved page (.inl outside))

/-- Some of the keys, with the others among the outside parties. -/
theorem holds_part {Part : Type} {into : Part → Key} {less : Part → Option Page}
    (holds : Holds good own taken pool) (injective : Injective into)
    (fewer : ∀ part page, less part = some page → own (into part) = some page)
    (outside : ∀ page, others page →
      taken page ∨ ∃ key, (∀ part, into part ≠ key) ∧ own key = some page) :
    Holds good less others pool where
  nodup := holds.nodup
  poolGood := holds.poolGood
  ownGood := fun part page found => holds.ownGood _ page (fewer part page found)
  unique := fun part other page here there =>
    injective (holds.unique _ _ page (fewer part page here) (fewer other page there))
  apart := by
    intro part page found
    obtain ⟨free, clear⟩ := holds.apart _ page (fewer part page found)
    refine ⟨free, fun other => ?_⟩
    rcases outside page other with before | ⟨key, different, owned⟩
    · exact clear before
    · exact different part (holds.unique _ _ page (fewer part page found) owned)
  reserved := by
    intro page other
    rcases outside page other with before | ⟨key, _, owned⟩
    · exact holds.reserved page before
    · exact (holds.apart key page owned).1

/-- Owners may give up resources without returning them. -/
theorem holds_less (holds : Holds good own taken pool)
    (fewer : ∀ key page, less key = some page → own key = some page) : Holds good less taken pool :=
  holds_part holds injective_id fewer fun _ => .inl

section Update

variable [DecidableEq Key]

theorem holds_take (holds : Holds good own taken (page :: pool)) (key : Key) :
    Holds good (update own key (some page)) taken pool := by
  have fresh : ∀ other, own other ≠ some page := fun other found =>
    (holds.apart other page found).1 (.head _)
  have origin : ∀ other resource, update own key (some page) other = some resource →
      (other = key ∧ resource = page) ∨ (other ≠ key ∧ own other = some resource) := by
    intro other resource found
    by_cases same : other = key
    · subst other
      simp only [update_self, Option.some.injEq] at found
      exact .inl ⟨rfl, found.symm⟩
    · rw [update_of_ne same] at found
      exact .inr ⟨same, found⟩
  constructor
  · exact (List.nodup_cons.mp holds.nodup).2
  · exact fun resource member => holds.poolGood resource (.tail _ member)
  · intro other resource found
    rcases origin other resource found with ⟨_, rfl⟩ | ⟨_, old⟩
    · exact holds.poolGood resource (.head _)
    · exact holds.ownGood other resource old
  · intro left right resource here there
    rcases origin left resource here with ⟨rfl, rfl⟩ | ⟨_, leftOld⟩
    · rcases origin right resource there with ⟨rfl, _⟩ | ⟨_, rightOld⟩
      · rfl
      · exact absurd rightOld (fresh right)
    · rcases origin right resource there with ⟨_, rfl⟩ | ⟨_, rightOld⟩
      · exact absurd leftOld (fresh left)
      · exact holds.unique left right resource leftOld rightOld
  · intro other resource found
    rcases origin other resource found with ⟨_, rfl⟩ | ⟨_, old⟩
    · exact ⟨(List.nodup_cons.mp holds.nodup).1,
        fun outside => holds.reserved resource outside (.head _)⟩
    · exact ⟨fun member => (holds.apart other resource old).1 (.tail _ member),
        (holds.apart other resource old).2⟩
  · exact fun resource outside member =>
      holds.reserved resource outside (.tail _ member)

theorem holds_release (holds : Holds good own taken pool) (found : own key = some page) :
    Holds good (update own key none) taken (page :: pool) := by
  have kept : ∀ other resource, update own key none other = some resource →
      own other = some resource ∧ resource ≠ page := by
    intro other resource lookup
    by_cases same : other = key
    · subst other
      simp at lookup
    · rw [update_of_ne same] at lookup
      refine ⟨lookup, ?_⟩
      rintro rfl
      exact same (holds.unique other key resource lookup found)
  constructor
  · exact List.nodup_cons.mpr ⟨(holds.apart key page found).1, holds.nodup⟩
  · intro resource member
    rcases List.mem_cons.mp member with rfl | old
    · exact holds.ownGood key resource found
    · exact holds.poolGood resource old
  · exact fun other resource lookup => holds.ownGood other resource (kept other resource lookup).1
  · exact fun left right resource here there =>
      holds.unique left right resource (kept left resource here).1 (kept right resource there).1
  · intro other resource lookup
    rcases kept other resource lookup with ⟨old, different⟩
    exact ⟨List.not_mem_cons_of_ne_of_not_mem different (holds.apart other resource old).1,
      (holds.apart other resource old).2⟩
  · intro resource outside member
    rcases List.mem_cons.mp member with rfl | old
    · exact (holds.apart key resource found).2 outside
    · exact holds.reserved resource outside old

end Update

def withHead (head : Page) (own : Key → Option Page) : Option Key → Option Page
  | none => some head
  | some key => own key

theorem holds_tail (holds : Holds good (withHead head own) taken pool) :
    Holds good own (fun page => taken page ∨ page = head) pool := by
  refine holds_part holds (fun _ _ => Option.some.inj) (fun _ _ => id) fun page => Or.imp_right ?_
  rintro rfl
  exact ⟨none, nofun, rfl⟩

theorem holds_withHead {after : Key → Option Page}
    (before : Holds good (withHead head own) taken pool)
    (holds : Holds good after (fun page => taken page ∨ page = head) rest) :
    Holds good (withHead head after) taken rest where
  nodup := holds.nodup
  poolGood := holds.poolGood
  ownGood := by
    intro key page found
    cases key with
    | none => exact before.ownGood none page found
    | some key => exact holds.ownGood key page found
  unique := by
    intro key other page here there
    cases key with
    | none =>
      cases other with
      | none => rfl
      | some other =>
        exact absurd (.inr (Option.some.inj here.symm)) (holds.apart other page there).2
    | some key =>
      cases other with
      | none =>
        exact absurd (.inr (Option.some.inj there.symm)) (holds.apart key page here).2
      | some other => exact congrArg some (holds.unique key other page here there)
  apart := by
    intro key page found
    cases key with
    | none =>
      cases found
      exact ⟨holds.reserved head (.inr rfl), (before.apart none head rfl).2⟩
    | some key =>
      exact ⟨(holds.apart key page found).1,
        fun outside => (holds.apart key page found).2 (.inl outside)⟩
  reserved := fun page outside => holds.reserved page (.inl outside)

def family (own : Index → Key → Option Page) : Index × Key → Option Page :=
  fun key => own key.1 key.2

def Beyond (own : Index → Key → Option Page) (index : Index) (taken : Page → Prop) (page : Page) :
    Prop :=
  taken page ∨ ∃ other key, other ≠ index ∧ own other key = some page

section Family

variable {members : Index → Key → Option Page}

theorem holds_member (holds : Holds good (family members) taken pool) (index : Index) :
    Holds good (members index) (Beyond members index taken) pool := by
  have injective : Injective (Prod.mk index : Key → Index × Key) := fun _ _ => congrArg Prod.snd
  refine holds_part holds injective (fun _ _ => id) fun page => Or.imp_right ?_
  rintro ⟨other, there, different, owned⟩
  exact ⟨(other, there), fun _ same => different (congrArg Prod.fst same).symm, owned⟩

/-- One member may act on the pool alone, as long as it respects what is beyond it. -/
theorem holds_replace [DecidableEq Index] {index : Index} {after : Key → Option Page}
    {rest : List Page} (before : Holds good (family members) taken pool)
    (holds : Holds good after (Beyond members index taken) rest) :
    Holds good (family (update members index after)) taken rest := by
  have origin : ∀ key page, family (update members index after) key = some page →
      (key.1 = index ∧ after key.2 = some page) ∨
        (key.1 ≠ index ∧ members key.1 key.2 = some page) := by
    intro key page found
    by_cases same : key.1 = index
    · rw [family, same, update_self] at found
      exact .inl ⟨same, found⟩
    · rw [family, update_of_ne same] at found
      exact .inr ⟨same, found⟩
  constructor
  · exact holds.nodup
  · exact holds.poolGood
  · intro key page found
    rcases origin key page found with ⟨_, mine⟩ | ⟨_, theirs⟩
    · exact holds.ownGood key.2 page mine
    · exact before.ownGood key page theirs
  · intro left right page here there
    rcases origin left page here with ⟨leftMine, leftFound⟩ | ⟨leftOther, leftFound⟩
    · rcases origin right page there with ⟨rightMine, rightFound⟩ | ⟨rightOther, rightFound⟩
      · exact Prod.ext (leftMine.trans rightMine.symm)
          (holds.unique left.2 right.2 page leftFound rightFound)
      · exact absurd (.inr ⟨right.1, right.2, rightOther, rightFound⟩)
          (holds.apart left.2 page leftFound).2
    · rcases origin right page there with ⟨rightMine, rightFound⟩ | ⟨_, rightFound⟩
      · exact absurd (.inr ⟨left.1, left.2, leftOther, leftFound⟩)
          (holds.apart right.2 page rightFound).2
      · exact before.unique left right page leftFound rightFound
  · intro key page found
    rcases origin key page found with ⟨_, mine⟩ | ⟨different, theirs⟩
    · exact ⟨(holds.apart key.2 page mine).1,
        fun outside => (holds.apart key.2 page mine).2 (.inl outside)⟩
    · exact ⟨holds.reserved page (.inr ⟨key.1, key.2, different, theirs⟩),
        (before.apart key page theirs).2⟩
  · exact fun page outside => holds.reserved page (.inl outside)

end Family

end ViperDos.Ownership
