import ViperDos.LibcLayout

/-!
What the calls of the C library's allocator do to the list of blocks. `malloc` takes the
first free block that is large enough or puts a new one behind the last, and in either case
writes to no block but the headers; `free` gives a block back. Both hold for requests whose
size, rounded up and with a header, is still a 64-bit number.
-/

namespace ViperDos.Libc

open ByteRecords

structure Arranged (base : Nat) (p : Process) (blocks : List Block) : Prop where
  laid : Laid p.memory 0 base blocks p.brk
  chain : p.freeList = entry base blocks
  high : p.brk < 2 ^ 64

/-- A request that, rounded up and given a header, is a positive `long`. -/
def Small (size : Nat) : Prop := size ≤ 2 ^ 63 - 32

instance (size : Nat) : Decidable (Small size) := inferInstanceAs (Decidable (_ ≤ _))

variable {size base other x place increment block : Nat} {blocks : List Block} {c b : Block}
  {p after : Process} {granted : Bool}

theorem alignSize_small (small : Small size) :
    size ≤ alignSize size ∧ 16 ∣ alignSize size ∧ headerSize + alignSize size < 2 ^ 63 := by
  have bound : headerSize = 24 := rfl
  unfold Small at small
  unfold alignSize
  omega

theorem appendBlock_behind (positive : 0 < base) (some' : blocks ≠ []) (p : Process)
    (block size : Nat) : appendBlock p block size (lastAddress 0 base blocks) = { p with
      memory := setNext (setFree (setNext (setSize p.memory block size) block 0) block 0)
        (lastAddress 0 base blocks) block } := by
  cases blocks with
  | nil => exact absurd rfl some'
  | cons b rest =>
    have after : base ≤ lastAddress 0 base (b :: rest) := lastAddress_ge (by omega) rest
    exact if_pos (by omega)

theorem lastAddress_place (prev : Nat) (some' : blocks ≠ []) :
    lastAddress prev base blocks = addressOf base blocks (blocks.length - 1) := by
  induction blocks generalizing base prev with
  | nil => exact absurd rfl some'
  | cons b rest ih =>
    cases rest with
    | nil => rfl
    | cons second others => exact ih base (List.cons_ne_nil _ _)

structure Taken (base : Nat) (p after : Process) (blocks blocks' : List Block) (size place : Nat)
    (b : Block) : Prop where
  arranged : Arranged base after blocks'
  found : blocks'[place]? = some b
  used : b.free = false
  room : size ≤ b.size
  first : place = blocks.findIdx (fitting (alignSize size))
  others : ∀ (other : Nat) (c : Block), blocks[other]? = some c → c.free = false →
    other ≠ place ∧ blocks'[other]? = some c
  addresses : ∀ other ≤ blocks.length, addressOf base blocks' other = addressOf base blocks other
  bytes : ∀ (other : Nat) (c : Block), blocks[other]? = some c → ∀ x,
    addressOf base blocks other + headerSize ≤ x →
    x < addressOf base blocks other + headerSize + c.size → after.memory x = p.memory x

section

variable (found : blocks[other]? = some c) (low : addressOf base blocks other + headerSize ≤ x)
  (high : x < addressOf base blocks other + headerSize + c.size)

include found low high

theorem header_apart (inside : place < blocks.length) :
    x < addressOf base blocks place ∨ addressOf base blocks place + headerSize ≤ x := by
  rcases Nat.lt_trichotomy place other with before | same | behind
  · have ends := addressOf_behind base (List.getElem?_eq_getElem inside) before
    omega
  · subst same
    exact .inr low
  · have ends := addressOf_behind base found behind
    omega

theorem setFree_bytes (inside : place < blocks.length) (memory : Bytes) (value : Nat) :
    setFree memory (addressOf base blocks place) value x = memory x := by
  have apart := header_apart found low high inside
  have bound : headerSize = 24 := rfl
  exact putLE_outside _ _ _ (by omega)

theorem append_bytes (arranged : Arranged base p blocks) (positive : 0 < base) (brk : Nat) :
    (appendBlock { p with brk } p.brk size (lastAddress 0 base blocks)).memory x =
      p.memory x := by
  have bound : headerSize = 24 := rfl
  have ends := laid_inside arranged.laid found
  have filled : 0 < blocks.length :=
    Nat.lt_of_le_of_lt (Nat.zero_le other) (List.getElem?_eq_some_iff.mp found).1
  have none : blocks ≠ [] := List.length_pos_iff.mp filled
  have apart := header_apart found low high (Nat.sub_lt filled Nat.one_pos)
  rw [appendBlock_behind positive none, lastAddress_place 0 none]
  exact (putLE_outside _ _ _ (by omega)).trans (written_outside p.memory (by omega))

end

theorem few_blocks (arranged : Arranged base p blocks) : blocks.length < addresses := by
  have ends := laid_finish arranged.laid
  have high := arranged.high
  unfold addresses
  rw [headerSize] at ends
  omega

theorem setFree_arranged (arranged : Arranged base p blocks) (found : blocks[place]? = some b)
    (free : Bool) :
    Arranged base { p with memory := setFree p.memory (addressOf base blocks place) (flag free) }
      (blocks.set place { b with free }) := by
  refine ⟨setFree_laid arranged.laid found free, ?_, arranged.high⟩
  simp only [entry, List.set_eq_nil_iff]
  exact arranged.chain

theorem reuse_taken (arranged : Arranged base p blocks) (small : Small size)
    (fits : blocks.findIdx (fitting (alignSize size)) < blocks.length) :
    ∃ b blocks', Taken base p
      (takeBlock p (addressOf base blocks (blocks.findIdx (fitting (alignSize size)))))
      blocks blocks' size (blocks.findIdx (fitting (alignSize size))) b := by
  obtain ⟨b, found⟩ : ∃ b, blocks[blocks.findIdx (fitting (alignSize size))]? = some b :=
    ⟨_, List.getElem?_eq_getElem fits⟩
  have chosen : fitting (alignSize size) b = true := by
    obtain ⟨inside, same⟩ := List.getElem?_eq_some_iff.mp found
    rw [← same]
    exact List.findIdx_getElem
  rw [fitting, Bool.and_eq_true, decide_eq_true_eq] at chosen
  refine ⟨{ b with free := false },
    blocks.set (blocks.findIdx (fitting (alignSize size))) { b with free := false }, ?_⟩
  constructor
  case arranged => exact setFree_arranged arranged found false
  case found => rw [List.getElem?_set_self fits]
  case used => rfl
  case room => exact Nat.le_trans (alignSize_small small).1 chosen.2
  case first => rfl
  case others =>
    intro other c at' used
    have apart : other ≠ blocks.findIdx (fitting (alignSize size)) := by
      rintro rfl
      cases at'.symm.trans found
      rw [used] at chosen
      exact absurd chosen.1 Bool.false_ne_true
    refine ⟨apart, ?_⟩
    rw [List.getElem?_set_ne apart.symm]
    exact at'
  case addresses =>
    intro other _
    exact addressOf_set _ found false other
  case bytes =>
    intro other c at' x low high
    exact setFree_bytes at' low high fits _ _

section

variable (arranged : Arranged base p blocks) (positive : 0 < base)

include arranged positive

theorem append_laid (small : Small size) (brk : Nat) :
    Laid (appendBlock { p with brk } p.brk (alignSize size) (lastAddress 0 base blocks)).memory 0
      base (blocks ++ [⟨alignSize size, false⟩]) (p.brk + headerSize + alignSize size) := by
  obtain ⟨_, even, below⟩ := alignSize_small small
  have bound : headerSize = 24 := rfl
  have header : HeaderAt _ p.brk ⟨alignSize size, false⟩ 0 :=
    written_header p.memory (by omega)
  have kept : Laid (setFree (setNext (setSize p.memory p.brk (alignSize size)) p.brk 0) p.brk 0) 0
      base blocks p.brk := by
    refine laid_congr arranged.laid fun place inside x _ high => ?_
    have ends := laid_inside arranged.laid (List.getElem?_eq_getElem inside)
    exact written_outside p.memory (.inl (by omega))
  by_cases none : blocks = []
  · subst none
    cases (arranged.laid : base = p.brk)
    exact ⟨header, even, rfl⟩
  rw [appendBlock_behind positive none]
  refine laid_snoc (setNext_laid kept none arranged.high) ?_ even
  refine headerAt_congr header fun x low _ => ?_
  have inside : blocks.length - 1 < blocks.length := by
    have some' := List.length_pos_iff.mpr none
    omega
  have ends := laid_inside arranged.laid (List.getElem?_eq_getElem inside)
  rw [lastAddress_place 0 none]
  exact putLE_outside _ _ _ (.inr (by omega))

theorem append_entry (b : Block) (brk : Nat) :
    (appendBlock { p with brk } p.brk b.size (lastAddress 0 base blocks)).freeList =
      entry base (blocks ++ [b]) := by
  have longer : blocks ++ [b] ≠ [] :=
    List.append_ne_nil_of_right_ne_nil blocks (List.cons_ne_nil b [])
  rw [entry, if_neg longer]
  by_cases none : blocks = []
  · subst none
    cases (arranged.laid : base = p.brk)
    rfl
  · rw [appendBlock_behind positive none, arranged.chain, entry, if_neg none]

theorem append_taken (small : Small size) (room : p.brk + (headerSize + alignSize size) < 2 ^ 64)
    (none : ¬ blocks.findIdx (fitting (alignSize size)) < blocks.length) :
    Taken base p
      (appendBlock { p with brk := p.brk + (headerSize + alignSize size) } p.brk (alignSize size)
        (lastAddress 0 base blocks))
      blocks (blocks ++ [⟨alignSize size, false⟩]) size blocks.length
      ⟨alignSize size, false⟩ := by
  have last : blocks.findIdx (fitting (alignSize size)) = blocks.length :=
    Nat.le_antisymm List.findIdx_le_length (Nat.le_of_not_lt none)
  have brk : (appendBlock { p with brk := p.brk + (headerSize + alignSize size) } p.brk
      (alignSize size) (lastAddress 0 base blocks)).brk = p.brk + headerSize + alignSize size := by
    unfold appendBlock
    split <;> exact (Nat.add_assoc _ _ _).symm
  constructor
  case arranged =>
    constructor
    case laid =>
      rw [brk]
      exact append_laid arranged positive small _
    case chain => exact append_entry arranged positive ⟨alignSize size, false⟩ _
    case high =>
      omega
  case found => exact List.getElem?_concat_length
  case used => rfl
  case room => exact (alignSize_small small).1
  case first => exact last.symm
  case others =>
    intro other c at' _
    have inside := (List.getElem?_eq_some_iff.mp at').1
    refine ⟨Nat.ne_of_lt inside, ?_⟩
    rw [List.getElem?_append_left inside]
    exact at'
  case addresses =>
    intro other inside
    exact addressOf_append _ inside
  case bytes =>
    intro other c at' x low high
    exact append_bytes at' low high arranged positive _

end

theorem sbrk_up (below : increment < 2 ^ 63) (high : p.brk < 2 ^ 64)
    (extended : sbrk p granted increment = some (block, after)) :
    p.brk + increment < 2 ^ 64 ∧ block = p.brk ∧ after = { p with brk := p.brk + increment } := by
  unfold sbrk at extended
  dsimp only at extended
  split_ifs at extended with wraps
  have room : p.brk + increment < 2 ^ 64 := by omega
  rw [Nat.mod_eq_of_lt room] at extended
  cases extended
  exact ⟨room, rfl, rfl⟩

def Refused (p : Process) (granted : Bool) (size : Nat) (blocks : List Block) : Prop :=
  blocks.findIdx (fitting (alignSize size)) = blocks.length ∧
    sbrk p granted ((headerSize + alignSize size) % 2 ^ 64) = none

theorem malloc_cases (arranged : Arranged base p blocks) (positive : 0 < base)
    (small : Small size) (some' : size ≠ 0) (granted : Bool) :
    (malloc p granted size = some (0, p) ∧ Refused p granted size blocks) ∨
    ∃ after blocks' place b,
      malloc p granted size = some (addressOf base blocks' place + headerSize, after) ∧
        Taken base p after blocks blocks' size place b ∧ ¬ Refused p granted size blocks := by
  have looked := search_laid arranged.laid positive (alignSize size) 0 (few_blocks arranged)
  rw [← arranged.chain] at looked
  have direct : ∀ {block : Nat}, block + headerSize < 2 ^ 64 →
      payload block = block + headerSize := fun below => Nat.mod_eq_of_lt below
  by_cases fits : blocks.findIdx (fitting (alignSize size)) < blocks.length
  · rw [if_pos fits] at looked
    obtain ⟨b, blocks', taken⟩ := reuse_taken arranged small fits
    have ends := laid_inside taken.arranged.laid taken.found
    have high := taken.arranged.high
    have same := taken.addresses _ (Nat.le_of_lt fits)
    refine .inr ⟨_, blocks', _, b, ?_, taken, fun refused => Nat.ne_of_lt fits refused.1⟩
    rw [same] at ends ⊢
    have spot := direct (Nat.lt_of_le_of_lt (Nat.le_trans (Nat.le_add_right _ _) ends) high)
    rw [malloc, if_neg some', looked]
    simp only [spot]
  · rw [if_neg fits] at looked
    have last : blocks.findIdx (fitting (alignSize size)) = blocks.length :=
      Nat.le_antisymm List.findIdx_le_length (Nat.le_of_not_lt fits)
    obtain ⟨_, _, below⟩ := alignSize_small small
    have total : (headerSize + alignSize size) % 2 ^ 64 = headerSize + alignSize size :=
      Nat.mod_eq_of_lt (by omega)
    cases asked : sbrk p granted ((headerSize + alignSize size) % 2 ^ 64) with
    | none =>
      refine .inl ⟨?_, last, asked⟩
      rw [malloc, if_neg some', looked]
      simp only [asked]
    | some result =>
      obtain ⟨block, grown⟩ := result
      have extended := asked
      rw [total] at extended
      obtain ⟨room, rfl, rfl⟩ := sbrk_up below arranged.high extended
      have taken := append_taken arranged positive small room fits
      have served : ¬ Refused p granted size blocks := by
        rintro ⟨_, refused⟩
        rw [asked] at refused
        cases refused
      refine .inr ⟨_, _, _, _, ?_, taken, served⟩
      have spot : addressOf base (blocks ++ [⟨alignSize size, false⟩]) blocks.length =
          p.brk := by
        rw [addressOf_append _ (Nat.le_refl _), laid_length arranged.laid]
      rw [malloc, if_neg some', looked]
      simp only [asked]
      rw [spot, direct (by omega)]

theorem headerOf_payload (below : block + headerSize < 2 ^ 64) :
    headerOf (block + headerSize) = block := by
  unfold headerOf
  omega

theorem free_payload (arranged : Arranged base p blocks) (found : blocks[place]? = some b) :
    free p (addressOf base blocks place + headerSize) =
      { p with memory := setFree p.memory (addressOf base blocks place) (flag true) } := by
  have ends := laid_inside arranged.laid found
  have high := arranged.high
  have nonzero : addressOf base blocks place + headerSize ≠ 0 := Nat.succ_ne_zero _
  rw [free, if_neg nonzero, headerOf_payload (by omega)]
  rfl

end ViperDos.Libc
