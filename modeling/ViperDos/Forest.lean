import Mathlib.Data.Finset.Card
import Mathlib.Logic.Relation

/-!
Forests given by a child-to-parent relation on an arbitrary type. `Below link top node`
says that following parent links from `node` arrives at `top`. A rank that grows along
every link rules out cycles, and bounds a recursion that descends from parents to
children; an acyclic relation whose children lie in a finite set has such a rank, the
number of nodes strictly below.
-/

namespace ViperDos.Forest

variable {Node : Type}

def Below (link : Node → Node → Prop) (top node : Node) : Prop :=
  Relation.ReflTransGen link node top

def OnCycle (link : Node → Node → Prop) (node : Node) : Prop :=
  Relation.TransGen link node node

def Acyclic (link : Node → Node → Prop) : Prop :=
  ∀ node, ¬ OnCycle link node

def Ranked (rank : Node → Nat) (link : Node → Node → Prop) : Prop :=
  ∀ child parent, link child parent → rank child < rank parent

variable {link : Node → Node → Prop}

variable {wider kept : Node → Node → Prop} {top node parent : Node} {rank : Node → Nat}
  {support : Finset Node}

theorem below_mono (included : ∀ child parent, link child parent → wider child parent)
    (below : Below link top node) : Below wider top node :=
  Relation.ReflTransGen.mono included _ _ below

/-- A set that holds the top and, with a node, all its children holds the whole
subtree. -/
theorem below_closed {inside : Node → Prop}
    (closed : ∀ child parent, link child parent → inside parent → inside child)
    (atTop : inside top) (below : Below link top node) : inside node := by
  induction below using Relation.ReflTransGen.head_induction_on with
  | refl => exact atTop
  | head edge _ ih => exact closed _ _ edge ih

theorem ranked_mono (included : ∀ child parent, link child parent → wider child parent)
    (ranked : Ranked rank wider) : Ranked rank link :=
  fun child parent edge => ranked child parent (included child parent edge)

theorem acyclic_mono (included : ∀ child parent, link child parent → wider child parent)
    (acyclic : Acyclic wider) : Acyclic link :=
  fun node cycle => acyclic node (Relation.TransGen.mono included _ _ cycle)

section Cycles

-- With a single parent for each node, the way up from a cycle never leaves it.
variable (unique : Relator.RightUnique link)

include unique

theorem cycle_parent (cycle : OnCycle link node) (edge : link node parent) :
    OnCycle link parent := by
  rcases Relation.TransGen.head'_iff.mp cycle with ⟨other, first, rest⟩
  have same : other = parent := unique first edge
  subst other
  exact Relation.TransGen.tail' rest edge

theorem cycle_top (below : Below link top node) (cycle : OnCycle link node) : OnCycle link top := by
  induction below using Relation.ReflTransGen.head_induction_on with
  | refl => exact cycle
  | head edge _ ih => exact ih (cycle_parent unique cycle edge)

theorem cycle_restrict
    (keeps : ∀ child parent, link child parent → OnCycle link child → OnCycle link parent →
      kept child parent) (cycle : OnCycle link node) : OnCycle kept node := by
  have way : ∀ {lower : Node}, Relation.ReflTransGen link lower node → OnCycle link lower →
      Relation.ReflTransGen kept lower node := by
    intro lower path
    induction path using Relation.ReflTransGen.head_induction_on with
    | refl =>
      intro _
      exact Relation.ReflTransGen.refl
    | head edge _ ih =>
      intro onCycle
      have next := cycle_parent unique onCycle edge
      exact (ih next).head (keeps _ _ edge onCycle next)
  rcases Relation.TransGen.head'_iff.mp cycle with ⟨parent, first, rest⟩
  have next := cycle_parent unique cycle first
  exact Relation.TransGen.head' (keeps _ _ first cycle next) (way rest next)

end Cycles

theorem cycle_child (cycle : OnCycle link node) :
    ∃ child, link child node ∧ OnCycle link child := by
  rcases Relation.TransGen.tail'_iff.mp cycle with ⟨child, path, edge⟩
  exact ⟨child, edge, Relation.TransGen.head' edge path⟩

section Fresh

-- `grown` adds one node to `link`: away from `fresh` it has no new links.
variable {grown : Node → Node → Prop} {fresh : Node}

section

variable
  (old : ∀ child parent, grown child parent → child ≠ fresh → parent ≠ fresh → link child parent)

include old

/-- The first arrival at the new node leaves the old relation at its last step. -/
theorem path_to_fresh (away : node ≠ fresh) (path : Relation.ReflTransGen grown node fresh) :
    ∃ last, Relation.ReflTransGen link node last ∧ grown last fresh := by
  induction path using Relation.ReflTransGen.head_induction_on with
  | refl => exact absurd rfl away
  | @head child parent edge _ ih =>
    by_cases arrived : parent = fresh
    · subst parent
      exact ⟨child, Relation.ReflTransGen.refl, edge⟩
    · rcases ih arrived with ⟨last, inner, final⟩
      exact ⟨last, inner.head (old child parent edge away arrived), final⟩

/-- A cycle of the grown relation passes through the new node. -/
theorem acyclic_fresh (acyclic : Acyclic link) (through : ¬ Relation.TransGen grown fresh fresh) :
    Acyclic grown := by
  have split : ∀ {top node : Node}, Relation.TransGen grown node top →
      Relation.TransGen link node top ∨
        (Relation.ReflTransGen grown node fresh ∧ Relation.ReflTransGen grown fresh top) := by
    intro top node path
    induction path with
    | @single top edge =>
      by_cases atStart : node = fresh
      · subst node
        exact .inr ⟨Relation.ReflTransGen.refl, Relation.ReflTransGen.single edge⟩
      by_cases atEnd : top = fresh
      · subst top
        exact .inr ⟨Relation.ReflTransGen.single edge, Relation.ReflTransGen.refl⟩
      · exact .inl (Relation.TransGen.single (old _ _ edge atStart atEnd))
    | @tail middle top front edge ih =>
      rcases ih with inside | ⟨before, after⟩
      · by_cases atMiddle : middle = fresh
        · subst middle
          exact .inr ⟨front.to_reflTransGen, Relation.ReflTransGen.single edge⟩
        by_cases atEnd : top = fresh
        · subst top
          exact .inr ⟨front.to_reflTransGen.tail edge, Relation.ReflTransGen.refl⟩
        · exact .inl (inside.tail (old _ _ edge atMiddle atEnd))
      · exact .inr ⟨before, after.tail edge⟩
  intro node cycle
  rcases split cycle with inside | ⟨before, after⟩
  · exact acyclic node inside
  · exact through ((Relation.TransGen.trans_right after cycle).trans_left before)

end

end Fresh

open Classical in
noncomputable def height (link : Node → Node → Prop) (support : Finset Node) (node : Node) :
    Nat :=
  (support.filter fun lower => Relation.TransGen link lower node).card

theorem acyclic_ranked (supported : ∀ child parent, link child parent → child ∈ support)
    (acyclic : Acyclic link) : Ranked (height link support) link := by
  classical
  intro child parent edge
  apply Finset.card_lt_card
  constructor
  · intro lower member
    simp only [Finset.mem_filter] at member ⊢
    exact ⟨member.1, member.2.tail edge⟩
  intro subset
  have member : child ∈ support.filter fun lower => Relation.TransGen link lower parent := by
    simpa using ⟨supported _ _ edge, Relation.TransGen.single edge⟩
  have self := subset member
  simp only [Finset.mem_filter] at self
  exact acyclic child self.2

end ViperDos.Forest
