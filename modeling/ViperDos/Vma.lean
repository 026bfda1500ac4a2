import Mathlib.Logic.Function.Basic

/-!
Virtual memory areas of kernel/mm/vma.cpp. The areas live in a pool of 256 slots
and are linked twice, into a list sorted by start address and into a red-black
tree, so both are structures of slot numbers here and a change to a slot is seen
through either. Overlaps are found on the list and addresses in the tree.
-/

namespace ViperDos.Memory

open Function

def pageSize : UInt64 := 4096
def pageMask : UInt64 := 0xFFF
def pageAlignDown (addr : UInt64) : UInt64 := addr &&& ~~~pageMask
def pageAlignUp (addr : UInt64) : UInt64 := (addr + 4095) &&& ~~~pageMask

inductive VmaType where
  | anonymous | file | stack | guard
  deriving DecidableEq

def vmaRead : UInt32 := 1
def vmaWrite : UInt32 := 2
def vmaExec : UInt32 := 4

def vmaCow : UInt8 := 1

/-- `finish` is the exclusive end. -/
structure Vma where
  start : UInt64
  finish : UInt64
  prot : UInt32
  type : VmaType
  flags : UInt8
  fileInode : UInt64
  fileOffset : UInt64
  deriving DecidableEq

inductive RBColor where
  | red | black
  deriving DecidableEq

inductive RBTree where
  | nil
  | node (color : RBColor) (left : RBTree) (slot : Nat) (right : RBTree)

inductive Side where
  | left | right

structure Crumb where
  side : Side
  color : RBColor
  slot : Nat
  sibling : RBTree

def Crumb.attach (crumb : Crumb) (tree : RBTree) : RBTree :=
  match crumb.side with
  | .left => .node crumb.color tree crumb.slot crumb.sibling
  | .right => .node crumb.color crumb.sibling crumb.slot tree

def plug (tree : RBTree) : List Crumb → RBTree
  | [] => tree
  | crumb :: rest => plug (crumb.attach tree) rest

def blacken : RBTree → RBTree
  | .nil => .nil
  | .node _ left slot right => .node .black left slot right

/-- The red node `z` with the given children, below the path of its ancestors. -/
def rbInsertFixup (left : RBTree) (slot : Nat) (right : RBTree) : List Crumb → RBTree
  | [] => .node .black left slot right
  -- the root is black, so a red parent always has a parent
  | [parent] => blacken (parent.attach (.node .red left slot right))
  | parent :: grand :: rest =>
    if parent.color = .black then
      blacken (plug (.node .red left slot right) (parent :: grand :: rest))
    else
      match grand.sibling with
      | .node .red uncleLeft uncleSlot uncleRight =>
        let recolored := { parent with color := .black }.attach (.node .red left slot right)
        let uncle := RBTree.node .black uncleLeft uncleSlot uncleRight
        match grand.side with
        | .left => rbInsertFixup recolored grand.slot uncle rest
        | .right => rbInsertFixup uncle grand.slot recolored rest
      | uncle =>
        let rotated :=
          match grand.side, parent.side with
          | .left, .left => RBTree.node .black (.node .red left slot right) parent.slot
              (.node .red parent.sibling grand.slot uncle)
          | .left, .right => .node .black (.node .red parent.sibling parent.slot left) slot
              (.node .red right grand.slot uncle)
          | .right, .right => .node .black (.node .red uncle grand.slot parent.sibling)
              parent.slot (.node .red left slot right)
          | .right, .left => .node .black (.node .red uncle grand.slot left) slot
              (.node .red right parent.slot parent.sibling)
        blacken (plug rotated rest)

def descend (pool : Nat → Vma) (start : UInt64) : RBTree → List Crumb → List Crumb
  | .nil, path => path
  | .node color left slot right, path =>
    if start < (pool slot).start then descend pool start left (⟨.left, color, slot, right⟩ :: path)
    else descend pool start right (⟨.right, color, slot, left⟩ :: path)

def rbInsert (pool : Nat → Vma) (slot : Nat) (tree : RBTree) : RBTree :=
  rbInsertFixup .nil slot .nil (descend pool (pool slot).start tree [])

def rbFind (pool : Nat → Vma) (addr : UInt64) : RBTree → Option Nat
  | .nil => none
  | .node _ left slot right =>
    if addr < (pool slot).start then rbFind pool addr left
    else if (pool slot).finish ≤ addr then rbFind pool addr right
    else some slot

def maxVmas : Nat := 256

structure VmaList where
  pool : Nat → Vma
  used : Nat → Bool
  chain : List Nat
  tree : RBTree

def VmaList.init : VmaList where
  pool := fun _ => ⟨0, 0, 0, .anonymous, 0, 0, 0⟩
  used := fun _ => false
  chain := []
  tree := .nil

section

variable (areas : VmaList)

def VmaList.allocVma : Option Nat :=
  (List.range maxVmas).find? fun slot => !areas.used slot

def insertAfter (pool : Nat → Vma) (new prev : Nat) : List Nat → List Nat
  | [] => [prev, new]
  | next :: rest =>
    if (pool next).start < (pool new).start then prev :: insertAfter pool new next rest
    else prev :: new :: next :: rest

def insertSorted (pool : Nat → Vma) (new : Nat) : List Nat → List Nat
  | [] => [new]
  | head :: rest =>
    if (pool new).start < (pool head).start then new :: head :: rest
    else insertAfter pool new head rest

/-- The scan stops at the first area behind the range. -/
def findOverlap (pool : Nat → Vma) (start finish : UInt64) : List Nat → Option Nat
  | [] => none
  | slot :: rest =>
    if start < (pool slot).finish ∧ (pool slot).start < finish then some slot
    else if finish ≤ (pool slot).start then none
    else findOverlap pool start finish rest

def VmaList.find (addr : UInt64) : Option Nat :=
  rbFind areas.pool addr areas.tree

def VmaList.insert (slot : Nat) (area : Vma) : VmaList :=
  let pool := update areas.pool slot area
  { pool
    used := update areas.used slot true
    chain := insertSorted pool slot areas.chain
    tree := rbInsert pool slot areas.tree }

def VmaList.add (start finish : UInt64) (prot : UInt32) (type : VmaType) : Option Nat × VmaList :=
  if start &&& pageMask ≠ 0 ∨ finish &&& pageMask ≠ 0 then (none, areas)
  else if finish ≤ start then (none, areas)
  else if (findOverlap areas.pool start finish areas.chain).isSome then (none, areas)
  else
    match areas.allocVma with
    | none => (none, areas)
    | some slot => (some slot, areas.insert slot ⟨start, finish, prot, type, 0, 0, 0⟩)

def VmaList.addFile (start finish : UInt64) (prot : UInt32) (inode offset : UInt64) : Option Nat ×
    VmaList :=
  match areas.add start finish prot .file with
  | (none, areas) => (none, areas)
  | (some slot, areas) =>
    (some slot, { areas with
      pool := update areas.pool slot
        { areas.pool slot with fileInode := inode, fileOffset := offset } })

def isRed : RBTree → Bool
  | .node .red _ _ _ => true
  | _ => false

def joined (side : Side) (color : RBColor) (inner : RBTree) (slot : Nat) (outer : RBTree) :
    RBTree :=
  match side with
  | .left => .node color inner slot outer
  | .right => .node color outer slot inner

def children (side : Side) (left right : RBTree) : RBTree × RBTree :=
  match side with
  | .left => (left, right)
  | .right => (right, left)

/-- The rotations below a parent of the given color, for a sibling with a red child:
`near` is the one on the side of `x`. -/
def rotateSibling (side : Side) (color : RBColor) (x : RBTree) (parent : Nat) (near : RBTree)
    (slot : Nat) (far : RBTree) : RBTree :=
  if isRed far then joined side color (joined side .black x parent near) slot (blacken far)
  else
    match near with
    | .nil => joined side color x parent (joined side .black near slot far)
    | .node _ left nearSlot right =>
      let (inner, outer) := children side left right
      joined side color (joined side .black x parent inner) nearSlot
        (joined side .black outer slot far)

/-- One black node is missing above `x`. A red sibling is rotated over the parent first;
the parent is red then, so the loop ends there. -/
def rbRemoveFixup (x : RBTree) : List Crumb → RBTree
  | [] => blacken x
  | parent :: rest =>
    if isRed x then plug (blacken x) (parent :: rest)
    else
      match parent.sibling with
      | .nil => plug x (parent :: rest)
      | .node .black left slot right =>
        let (near, far) := children parent.side left right
        if isRed near || isRed far then
          blacken (plug (rotateSibling parent.side parent.color x parent.slot near slot far) rest)
        else
          rbRemoveFixup (joined parent.side parent.color x parent.slot
            (.node .red left slot right)) rest
      | .node .red left slot right =>
        let (near, far) := children parent.side left right
        let above : Crumb := ⟨parent.side, .black, slot, far⟩
        match near with
        | .nil => plug (joined parent.side .red x parent.slot .nil) (above :: rest)
        | .node _ left slot right =>
          let (inner, outer) := children parent.side left right
          if isRed inner || isRed outer then
            blacken (plug (rotateSibling parent.side .red x parent.slot inner slot outer)
              (above :: rest))
          else
            plug (joined parent.side .black x parent.slot (.node .red left slot right))
              (above :: rest)

def locate (slot : Nat) : RBTree → List Crumb → Option (RBColor × RBTree × RBTree × List Crumb)
  | .nil, _ => none
  | .node color left here right, path =>
    if here = slot then some (color, left, right, path)
    else
      match locate slot left (⟨.left, color, here, right⟩ :: path) with
      | some found => some found
      | none => locate slot right (⟨.right, color, here, left⟩ :: path)

def rbMinimum : RBColor → RBTree → Nat → RBTree → List Crumb →
    RBColor × Nat × RBTree × List Crumb
  | color, .nil, slot, right, path => (color, slot, right, path)
  | color, .node below left next inner, slot, right, path =>
    rbMinimum below left next inner (⟨.left, color, slot, right⟩ :: path)

def fixIfBlack (color : RBColor) (x : RBTree) (path : List Crumb) : RBTree :=
  if color = .black then rbRemoveFixup x path else plug x path

def rbRemove (slot : Nat) (tree : RBTree) : RBTree :=
  match locate slot tree [] with
  | none => tree
  | some (color, left, right, path) =>
    match left, right with
    | .nil, right => fixIfBlack color right path
    | left, .nil => fixIfBlack color left path
    | left, .node below inner next outer =>
      -- the next area takes the place and the color of the removed one
      let (taken, successor, x, inside) := rbMinimum below inner next outer []
      fixIfBlack taken x (inside ++ ⟨.right, color, successor, left⟩ :: path)

def VmaList.release (slot : Nat) : VmaList :=
  { areas with
    used := update areas.used slot false
    chain := areas.chain.erase slot
    tree := rbRemove slot areas.tree }

/-- The target is an area of the list. -/
def VmaList.remove (slot : Nat) : Bool × VmaList :=
  if slot ∈ areas.chain then (true, areas.release slot) else (false, areas)

def VmaList.removeFrom (start finish : UInt64) : List Nat → VmaList → VmaList
  | [], areas => areas
  | slot :: rest, areas =>
    if (areas.pool slot).finish ≤ start ∨ finish ≤ (areas.pool slot).start then
      removeFrom start finish rest areas
    else removeFrom start finish rest (areas.release slot)

def VmaList.removeRange (start finish : UInt64) : VmaList :=
  removeFrom start finish areas.chain areas

def VmaList.setFlags (slot : Nat) (flags : UInt8) : VmaList :=
  { areas with
    pool := update areas.pool slot { areas.pool slot with flags } }

def VmaList.setStart (slot : Nat) (start : UInt64) : VmaList :=
  { areas with
    pool := update areas.pool slot { areas.pool slot with start } }

end

def Reaches (pool : Nat → Vma) (slot : Nat) (bound : UInt64) : List Nat → Prop
  | [] => False
  | head :: rest => head = slot ∨ (pool head).start < bound ∧ Reaches pool slot bound rest

variable {pool : Nat → Vma} {slot new prev : Nat} {finish start : UInt64} {chain rest : List Nat}

theorem findOverlap_reaches (reaches : Reaches pool slot finish chain)
    (meets : start < (pool slot).finish ∧ (pool slot).start < finish) :
    (findOverlap pool start finish chain).isSome = true := by
  induction chain with
  | nil => exact reaches.elim
  | cons head rest ih =>
    unfold findOverlap
    by_cases hit : start < (pool head).finish ∧ (pool head).start < finish
    · simp [hit]
    rcases reaches with here | ⟨before, later⟩
    · subst head
      exact absurd meets hit
    · rw [if_neg hit, if_neg (by simpa using before)]
      exact ih later

theorem mem_insertAfter :
    slot ∈ insertAfter pool new prev rest ↔ slot = new ∨ slot ∈ prev :: rest := by
  induction rest generalizing prev with
  | nil => simp [insertAfter, or_comm]
  | cons next rest ih =>
    unfold insertAfter
    split <;> simp only [List.mem_cons, ih, or_left_comm]

theorem mem_insertSorted : slot ∈ insertSorted pool new chain ↔ slot = new ∨ slot ∈ chain := by
  cases chain with
  | nil => simp [insertSorted]
  | cons head rest =>
    by_cases first : (pool new).start < (pool head).start
    · simp [insertSorted, first]
    · simp only [insertSorted, first, if_false, mem_insertAfter]

theorem add_cases (areas : VmaList) (start finish : UInt64) (prot : UInt32) (type : VmaType) :
    areas.add start finish prot type = (none, areas) ∨
    ((findOverlap areas.pool start finish areas.chain).isSome = false ∧
      ∃ slot, areas.used slot = false ∧ areas.add start finish prot type =
        (some slot, areas.insert slot ⟨start, finish, prot, type, 0, 0, 0⟩)) := by
  unfold VmaList.add
  by_cases misaligned : start &&& pageMask ≠ 0 ∨ finish &&& pageMask ≠ 0
  · exact .inl (if_pos misaligned)
  by_cases backwards : finish ≤ start
  · exact .inl (by rw [if_neg misaligned, if_pos backwards])
  cases overlap : (findOverlap areas.pool start finish areas.chain).isSome with
  | true => exact .inl (by simp [misaligned, backwards])
  | false =>
    simp only [misaligned, backwards, if_false, Bool.false_eq_true, true_and]
    cases found : areas.allocVma with
    | none => exact .inl rfl
    | some slot =>
      right
      refine ⟨slot, ?_, rfl⟩
      have unused := List.find?_some found
      simpa using unused

end ViperDos.Memory
