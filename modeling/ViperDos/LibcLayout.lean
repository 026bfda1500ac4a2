import ViperDos.LibcHeap
import Mathlib.Data.List.Basic

/-!
The heap of the C library as a list of blocks. They lie one behind the other from the
first break on, each a header and as many bytes as the header says, and the chain goes
through all of them in that order. The list is what the chain stands for: the search of
`malloc` is a search in it, releasing and taking a block set its flag, and new blocks are
put behind the last.
-/

namespace ViperDos.Libc

open ByteRecords

structure Block where
  size : Nat
  free : Bool

def flag (free : Bool) : Nat := if free then 1 else 0

structure HeaderAt (memory : Bytes) (address : Nat) (b : Block) (next : Nat) : Prop where
  size : blockSize memory address = b.size
  next : blockNext memory address = next
  free : blockFree memory address = flag b.free

/-- The blocks from `start` to `finish`; the last one points to `final`. -/
def Laid (memory : Bytes) (final : Nat) : Nat → List Block → Nat → Prop
  | start, [], finish => start = finish
  | start, b :: rest, finish =>
    HeaderAt memory start b (if rest = [] then final else start + headerSize + b.size) ∧
      16 ∣ b.size ∧ Laid memory final (start + headerSize + b.size) rest finish

def addressOf : Nat → List Block → Nat → Nat
  | start, _, 0 => start
  | start, [], _ + 1 => start
  | start, b :: rest, place + 1 => addressOf (start + headerSize + b.size) rest place

variable {memory other : Bytes}
  {address next final start finish left right place prev size x fuel : Nat} {b : Block}
  {blocks : List Block} {wanted : Nat → Bool}

theorem headerAt_congr (header : HeaderAt memory address b next)
    (same : ∀ x, address ≤ x → x < address + headerSize → other x = memory x) :
    HeaderAt other address b next := by
  have bound : headerSize = 24 := rfl
  refine ⟨.trans ?_ header.size, .trans ?_ header.next, .trans ?_ header.free⟩
  all_goals exact getLE_congr fun x low high => same x (by omega) (by omega)

theorem laid_finish (laid : Laid memory final start blocks finish) :
    start + headerSize * blocks.length ≤ finish := by
  induction blocks generalizing start with
  | nil => exact Nat.le_of_eq laid
  | cons b rest ih =>
    have behind := ih laid.2.2
    rw [List.length_cons, Nat.mul_succ]
    omega

theorem laid_congr (laid : Laid memory final start blocks finish)
    (same : ∀ place < blocks.length, ∀ x, addressOf start blocks place ≤ x →
      x < addressOf start blocks place + headerSize → other x = memory x) :
    Laid other final start blocks finish := by
  induction blocks generalizing start with
  | nil => exact laid
  | cons b rest ih =>
    obtain ⟨header, aligned, behind⟩ := laid
    refine ⟨headerAt_congr header (same 0 (Nat.succ_pos _)), aligned, ih behind ?_⟩
    intro place inside
    exact same (place + 1) (Nat.succ_lt_succ inside)

theorem addressOf_ge (start : Nat) (blocks : List Block) (place : Nat) :
    start ≤ addressOf start blocks place := by
  induction blocks generalizing start place with
  | nil => cases place <;> exact Nat.le_refl _
  | cons b rest ih =>
    cases place with
    | zero => exact Nat.le_refl _
    | succ place => exact Nat.le_trans (by omega) (ih (start + headerSize + b.size) place)

theorem addressOf_behind (start : Nat) (found : blocks[left]? = some b) (order : left < right) :
    addressOf start blocks left + headerSize + b.size ≤ addressOf start blocks right := by
  induction blocks generalizing start left right with
  | nil => cases found
  | cons head rest ih =>
    obtain ⟨right, rfl⟩ : ∃ before, right = before + 1 := ⟨right - 1, by omega⟩
    cases left with
    | zero =>
      cases found
      exact addressOf_ge _ rest right
    | succ left => exact ih _ found (Nat.lt_of_succ_lt_succ order)

section

variable (laid : Laid memory final start blocks finish)

include laid

theorem laid_length : addressOf start blocks blocks.length = finish := by
  induction blocks generalizing start with
  | nil => exact laid
  | cons b rest ih => exact ih laid.2.2

theorem laid_inside (found : blocks[place]? = some b) :
    addressOf start blocks place + headerSize + b.size ≤ finish := by
  rw [← laid_length laid]
  exact addressOf_behind start found (List.getElem?_eq_some_iff.mp found).1

theorem laid_header (found : blocks[place]? = some b) :
    blockSize memory (addressOf start blocks place) = b.size ∧
      blockFree memory (addressOf start blocks place) = flag b.free := by
  induction blocks generalizing start place with
  | nil => cases found
  | cons head rest ih =>
    cases place with
    | zero =>
      cases found
      exact ⟨laid.1.size, laid.1.free⟩
    | succ place => exact ih laid.2.2 found

/-- The headers are 24 bytes and the blocks between them multiples of 16, so the places
of the list alternate between the two residues. -/
theorem addressOf_residue (inside : place ≤ blocks.length) :
    addressOf start blocks place % 16 = (start + 8 * place) % 16 := by
  induction blocks generalizing start place with
  | nil =>
    cases Nat.le_zero.mp inside
    rfl
  | cons b rest ih =>
    cases place with
    | zero => rfl
    | succ place =>
      have behind := ih laid.2.2 (Nat.le_of_succ_le_succ inside)
      have aligned := laid.2.1
      have bound : headerSize = 24 := rfl
      rw [addressOf, behind]
      omega

end

theorem setFree_header (header : HeaderAt memory address b next) (free : Bool) :
    HeaderAt (setFree memory address (flag free)) address { b with free } next := by
  refine ⟨.trans ?_ header.size, .trans ?_ header.next, ?_⟩
  · exact getLE_putLE_apart _ _ (.inl (by omega))
  · exact getLE_putLE_apart _ _ (.inl (by omega))
  · rw [blockFree, setFree, getLE_putLE]
    cases free <;> rfl

theorem setFree_laid (laid : Laid memory final start blocks finish)
    (found : blocks[place]? = some b) (free : Bool) :
    Laid (setFree memory (addressOf start blocks place) (flag free)) final start
      (blocks.set place { b with free }) finish := by
  have bound : headerSize = 24 := rfl
  induction blocks generalizing start place with
  | nil => cases found
  | cons head rest ih =>
    obtain ⟨header, aligned, behind⟩ := laid
    cases place with
    | zero =>
      cases found
      refine ⟨setFree_header header free, aligned, laid_congr behind ?_⟩
      intro later _ x low _
      have after : start + headerSize + b.size ≤ x :=
        Nat.le_trans (addressOf_ge (start + headerSize + b.size) rest later) low
      exact putLE_outside _ _ _ (.inr (by simp only [addressOf]; omega))
    | succ place =>
      have after := addressOf_ge (start + headerSize + head.size) rest place
      have kept : (rest.set place { b with free } = []) = (rest = []) := by
        rw [List.set_eq_nil_iff]
      refine ⟨?_, aligned, ih behind found⟩
      simp only [kept]
      refine headerAt_congr header fun x _ high => ?_
      exact putLE_outside _ _ _ (.inl (by simp only [addressOf]; omega))

theorem addressOf_set (place : Nat) (found : blocks[place]? = some b) (free : Bool) (at' : Nat) :
    addressOf start (blocks.set place { b with free }) at' = addressOf start blocks at' := by
  induction blocks generalizing start place at' with
  | nil => rfl
  | cons head rest ih =>
    cases at' with
    | zero => cases place <;> rfl
    | succ at' =>
      cases place with
      | zero =>
        cases found
        rfl
      | succ place => exact ih place found at'

theorem addressOf_append (b : Block) (inside : place ≤ blocks.length) :
    addressOf start (blocks ++ [b]) place = addressOf start blocks place := by
  induction blocks generalizing start place with
  | nil =>
    cases Nat.le_zero.mp inside
    rfl
  | cons head rest ih =>
    cases place with
    | zero => rfl
    | succ place => exact ih (Nat.le_of_succ_le_succ inside)

def lastAddress (prev start : Nat) : List Block → Nat
  | [] => prev
  | b :: rest => lastAddress start (start + headerSize + b.size) rest

theorem lastAddress_ge (before : prev ≤ start) (blocks : List Block) :
    prev ≤ lastAddress prev start blocks := by
  induction blocks generalizing prev start with
  | nil => exact Nat.le_refl _
  | cons b rest ih =>
    have later : start ≤ lastAddress start (start + headerSize + b.size) rest :=
      ih (by omega)
    exact Nat.le_trans before later

theorem setNext_header (header : HeaderAt memory address b next) {target : Nat}
    (small : target < 2 ^ 64) : HeaderAt (setNext memory address target) address b target := by
  refine ⟨.trans ?_ header.size, ?_, .trans ?_ header.free⟩
  · exact getLE_putLE_apart _ _ (.inl (by omega))
  · rw [blockNext, setNext, getLE_putLE]
    exact Nat.mod_eq_of_lt small
  · exact getLE_putLE_apart _ _ (.inr (by omega))

/-- Linking the last block to a new one changes where the list ends, and nothing else. -/
theorem setNext_laid {target : Nat} (laid : Laid memory final start blocks finish)
    (some' : blocks ≠ []) (small : target < 2 ^ 64) :
    Laid (setNext memory (lastAddress prev start blocks) target) target start blocks finish := by
  induction blocks generalizing start prev with
  | nil => exact absurd rfl some'
  | cons b rest ih =>
    obtain ⟨header, aligned, behind⟩ := laid
    cases rest with
    | nil => exact ⟨setNext_header header small, aligned, behind⟩
    | cons second others =>
      refine ⟨?_, aligned, @ih _ start behind (List.cons_ne_nil _ _)⟩
      have after : start + headerSize + b.size ≤
          lastAddress start (start + headerSize + b.size) (second :: others) := by
        exact lastAddress_ge (by omega) others
      refine headerAt_congr header fun x _ high => ?_
      exact putLE_outside _ _ _ (.inl (by simp only [lastAddress] at after ⊢; omega))

theorem laid_snoc (laid : Laid memory finish start blocks finish)
    (header : HeaderAt memory finish b final) (aligned : 16 ∣ b.size) :
    Laid memory final start (blocks ++ [b]) (finish + headerSize + b.size) := by
  induction blocks generalizing start with
  | nil =>
    cases (laid : start = finish)
    exact ⟨header, aligned, rfl⟩
  | cons head rest ih =>
    obtain ⟨first, even, behind⟩ := laid
    refine ⟨?_, even, ih behind⟩
    cases rest with
    | nil =>
      cases (behind : start + headerSize + head.size = finish)
      exact first
    | cons second others => exact first

theorem written_header (memory : Bytes) (small : size < 2 ^ 64) :
    HeaderAt (setFree (setNext (setSize memory address size) address 0) address 0) address
      ⟨size, false⟩ 0 := by
  constructor
  case size =>
    rw [blockSize, setFree, getLE_putLE_apart _ _ (.inl (by omega)), setNext,
      getLE_putLE_apart _ _ (.inl (by omega)), setSize, getLE_putLE]
    exact Nat.mod_eq_of_lt small
  case next =>
    rw [blockNext, setFree, getLE_putLE_apart _ _ (.inl (by omega)), setNext, getLE_putLE]
    rfl
  case free =>
    rw [blockFree, setFree, getLE_putLE]
    rfl

theorem written_outside (memory : Bytes) (outside : x < address ∨ address + headerSize ≤ x) :
    setFree (setNext (setSize memory address size) address 0) address 0 x = memory x := by
  have bound : headerSize = 24 := rfl
  rw [setFree, putLE_outside _ _ _ (by omega), setNext, putLE_outside _ _ _ (by omega), setSize,
    putLE_outside _ _ _ (by omega)]

def entry (start : Nat) (blocks : List Block) : Nat := if blocks = [] then 0 else start

def fitting (size : Nat) (b : Block) : Bool := b.free && decide (size ≤ b.size)

theorem fitting_header (header : HeaderAt memory address b next)
    (size : Nat) : Fitting memory size address ↔ fitting size b = true := by
  unfold Fitting fitting
  rw [header.size, header.free]
  cases b.free <;> simp [flag]

/-- The search in the chain is the search in the list, and it ends. -/
theorem search_laid (laid : Laid memory 0 start blocks finish) (positive : 0 < start)
    (size prev : Nat) (enough : blocks.length < fuel) :
    search memory size fuel prev (entry start blocks) =
      some (if blocks.findIdx (fitting size) < blocks.length then
          .fits (addressOf start blocks (blocks.findIdx (fitting size)))
        else .ends (lastAddress prev start blocks)) := by
  induction blocks generalizing start prev fuel with
  | nil =>
    obtain ⟨fuel, rfl⟩ : ∃ less, fuel = less + 1 := ⟨fuel - 1, by simp at enough; omega⟩
    rfl
  | cons b rest ih =>
    obtain ⟨fuel, rfl⟩ : ∃ less, fuel = less + 1 := ⟨fuel - 1, by omega⟩
    obtain ⟨header, _, behind⟩ := laid
    have here : entry start (b :: rest) = start := if_neg (List.cons_ne_nil b rest)
    rw [here, search, if_neg (Nat.pos_iff_ne_zero.mp positive), List.findIdx_cons]
    cases fits : fitting size b with
    | true =>
      rw [if_pos ((fitting_header header size).mpr fits)]
      rfl
    | false =>
      have refused : ¬ Fitting memory size start := by
        rw [fitting_header header size, fits]
        exact Bool.false_ne_true
      have next : blockNext memory start = entry (start + headerSize + b.size) rest := header.next
      rw [if_neg refused, next, ih behind (by omega) start (Nat.lt_of_succ_lt_succ enough)]
      simp only [cond_false, List.length_cons, Nat.succ_lt_succ_iff, addressOf, lastAddress]

def position (memory : Bytes) (wanted : Nat → Bool) : Nat → Nat → Nat
  | 0, _ => 0
  | fuel + 1, curr =>
    if curr = 0 ∨ wanted curr then 0
    else position memory wanted fuel (blockNext memory curr) + 1

theorem position_laid (laid : Laid memory 0 start blocks finish) (positive : 0 < start)
    (enough : blocks.length < fuel) (inside : place ≤ blocks.length)
    (before : ∀ earlier < place, wanted (addressOf start blocks earlier) = false)
    (found : place < blocks.length → wanted (addressOf start blocks place) = true) :
    position memory wanted fuel (entry start blocks) = place := by
  induction blocks generalizing start place fuel with
  | nil =>
    cases Nat.le_zero.mp inside
    cases fuel with
    | zero => rfl
    | succ fuel => exact if_pos (.inl rfl)
  | cons b rest ih =>
    obtain ⟨fuel, rfl⟩ : ∃ less, fuel = less + 1 := ⟨fuel - 1, by omega⟩
    obtain ⟨header, _, behind⟩ := laid
    have here : entry start (b :: rest) = start := if_neg (List.cons_ne_nil b rest)
    rw [here, position]
    cases place with
    | zero => exact if_pos (.inr (found (Nat.succ_pos _)))
    | succ place =>
      have refused : ¬ (start = 0 ∨ wanted start = true) := by
        have unwanted : wanted start = false := before 0 (Nat.succ_pos _)
        simp only [unwanted, Bool.false_eq_true, or_false]
        exact Nat.pos_iff_ne_zero.mp positive
      have next : blockNext memory start = entry (start + headerSize + b.size) rest := header.next
      rw [if_neg refused, next, ih behind (by omega) (Nat.lt_of_succ_lt_succ enough)
        (Nat.le_of_succ_le_succ inside)]
      · intro earlier less
        exact before (earlier + 1) (Nat.succ_lt_succ less)
      · intro less
        exact found (Nat.succ_lt_succ less)

end ViperDos.Libc
