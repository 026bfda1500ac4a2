import ViperDos.RawTables

/-!
What a walk of the page tables reads. In order, a table has one parent entry, so the walks to
two pages end at the same entry only if their indices are the same: writing the entry of a page
changes what is read for that page and for no other.
-/

namespace ViperDos.Memory

def Single (kind : UInt64 → Option (Nat × Rank)) (memory : RawMemory) : Prop :=
  ∀ page other pid rank otherRank index position next otherNext,
    kind page = some (pid, rank) → kind other = some (pid, otherRank) →
    rank.below index = some next → otherRank.below position = some otherNext →
    isValid (memory.words (entryAt page index)) = true →
    isValid (memory.words (entryAt other position)) = true →
    pageOf (memory.words (entryAt page index)) = pageOf (memory.words (entryAt other position)) →
      page = other ∧ index = position

def RawMemory.entryVia (memory : RawMemory) (table : UInt64) : List (Fin 512) → Fin 512 → UInt64
  | [], index => memory.words (entryAt table index)
  | step :: path, index =>
    match memory.nextTable table step with
    | none => 0
    | some next => memory.entryVia next path index

def Rank.along : Rank → List (Fin 512) → Option Rank
  | rank, [] => some rank
  | rank, step :: path =>
    match rank.below step with
    | none => none
    | some next => next.along path

def RawMemory.readAt (memory : RawMemory) (root : UInt64) (spot : Place) : UInt64 :=
  memory.entryVia root [spot.1, spot.2.1, spot.2.2.1] spot.2.2.2

variable {root table next other addr entry page parent target l3 va pa : UInt64} {spot : Place}
  {index position : Fin 512} {kind last : UInt64 → Option (Nat × Rank)} {pid pages : Nat}
  {rank otherRank below otherBelow start : Rank} {rest : List UInt64} {roots : Nat → Option UInt64}
  {owner : Nat × Rank} {path : List (Fin 512)} {middle : RawMemory} {protFlags : UInt32}

section

variable {memory : RawMemory}

theorem readAt_findL3 (root : UInt64) (spot : Place) : memory.readAt root spot =
      match memory.findL3 root spot with
      | none => 0
      | some l3 => memory.words (entryAt l3 spot.2.2.2) := by
  unfold RawMemory.readAt RawMemory.findL3 RawMemory.entryVia
  cases memory.nextTable root spot.1 with
  | none => rfl
  | some l1 =>
    dsimp only
    unfold RawMemory.entryVia
    cases memory.nextTable l1 spot.2.1 with
    | none => rfl
    | some l2 =>
      cases memory.nextTable l2 spot.2.2.1 <;> rfl

theorem readPte_readAt (there : root ≠ 0) (va : UInt64) :
    memory.readPte root va = memory.readAt root (place va) := by
  rw [RawMemory.readPte, if_neg there]
  refine Eq.trans ?_ (readAt_findL3 root (place va)).symm
  cases memory.findL3 root (place va) <;> rfl

theorem high_along (high : ¬ Low spot) :
    Rank.root.along [spot.1, spot.2.1, spot.2.2.1] = some .leaf := by
  obtain ⟨rank, toSecond, toThird⟩ := rank_walk high
  simp only [Rank.along, toSecond, toThird]
  rfl

theorem nextTable_some (found : memory.nextTable table index = some next) :
    isValid (memory.words (entryAt table index)) = true ∧
      pageOf (memory.words (entryAt table index)) = next := by
  unfold RawMemory.nextTable at found
  dsimp only at found
  split at found
  next valid =>
    cases found
    exact ⟨valid, rfl⟩
  · cases found

theorem nextTable_inj (single : Single kind memory) (owned : kind table = some (pid, rank))
    (otherOwned : kind other = some (pid, otherRank)) (leads : rank.below index = some below)
    (otherLeads : otherRank.below position = some otherBelow)
    (found : memory.nextTable table index = some next)
    (otherFound : memory.nextTable other position = some next) :
    table = other ∧ index = position := by
  obtain ⟨valid, page⟩ := nextTable_some found
  obtain ⟨otherValid, otherPage⟩ := nextTable_some otherFound
  exact single table other pid rank otherRank index position below otherBelow owned otherOwned
    leads otherLeads valid otherValid (page.trans otherPage.symm)

variable {after : RawMemory}

theorem single_congr (single : Single kind memory)
    (same : ∀ page pid rank index below, kind page = some (pid, rank) →
      rank.below index = some below →
        after.words (entryAt page index) = memory.words (entryAt page index)) :
    Single kind after := by
  intro page other owner rank otherRank position otherPosition next otherNext known otherKnown
    leads otherLeads valid otherValid equal
  rw [same page _ _ position _ known leads] at valid equal
  rw [same other _ _ otherPosition _ otherKnown otherLeads] at otherValid equal
  exact single page other owner rank otherRank position otherPosition next otherNext known
    otherKnown leads otherLeads valid otherValid equal

section NewTable

def opened (memory : RawMemory) (page : UInt64) (rest : List UInt64) (entry : UInt64) : RawMemory :=
  (RawMemory.fillWords { memory with free := rest } page fun _ => 0).put entry
    (page ||| pteValid ||| pteTable)

theorem rawTable_cases (memory : RawMemory) (parent : UInt64) (index : Fin 512) :
    memory.getOrAllocTable parent index = (none, memory) ∨
      (∃ table, memory.nextTable parent index = some table ∧
        memory.getOrAllocTable parent index = (some table, memory)) ∨
      ∃ page rest, memory.free = page :: rest ∧
        isValid (memory.words (entryAt parent index)) = false ∧
        memory.getOrAllocTable parent index = (some (pageOf (page ||| pteValid ||| pteTable)),
            opened memory page rest (entryAt parent index)) := by
  unfold RawMemory.getOrAllocTable RawMemory.nextTable
  dsimp only
  split
  next valid => exact .inr (.inl ⟨_, rfl, rfl⟩)
  next invalid =>
  split
  · exact .inl rfl
  next page rest free =>
    refine .inr (.inr ⟨page, rest, free, by simpa using invalid, ?_⟩)
    rw [put_here]
    rfl

theorem opened_elsewhere (away : addr ≠ entry) :
    (opened memory page rest entry).words addr =
      if InPage addr page then 0 else memory.words addr :=
  Function.update_of_ne away ..

/-- The page of a new table is the only one that became a table. -/
theorem opened_origin {next : UInt64 → Option (Nat × Rank)} (free : memory.free = page :: rest)
    (after : Laid roots next (opened memory page rest entry))
    (step : Extends pid kind next memory (opened memory page rest entry))
    (known : next table = some owner) : kind table = some owner ∨ table = page := by
  rcases step.fresh table _ known with before | fresh
  · exact .inl before
  right
  rw [free] at fresh
  refine (List.mem_cons.mp fresh).resolve_right fun still => ?_
  rw [(after.pool table still).2] at known
  cases known

theorem opened_here :
    (opened memory page rest entry).words entry = page ||| pteValid ||| pteTable :=
  put_here ..

theorem opened_entry (good : Good page) : pageOf
    ((opened memory page rest entry).words entry) = page :=
  (congrArg pageOf opened_here).trans (newEntry_bits good).2

section

variable (laid : Laid roots kind memory) (free : memory.free = page :: rest)

include laid free

/-- The words of a new table are zero, apart from an entry of another table. -/
theorem opened_zero (owned : kind parent = some (pid, rank)) (position : Fin 512) :
    (opened memory page rest (entryAt parent index)).words (entryAt page position) = 0 := by
  obtain ⟨good, unowned⟩ := laid.pool page (by simp [free])
  have away : entryAt page position ≠ entryAt parent index := by
    intro same
    obtain ⟨rfl, _⟩ := entryAt_inj good (laid.good parent _ owned) same
    rw [unowned] at owned
    cases owned
  rw [opened_elsewhere away, if_pos (entryAt_inPage page position)]

theorem opened_table (known : kind table = some owner) (away : entryAt table position ≠ entry) :
    (opened memory page rest entry).words (entryAt table position) =
      memory.words (entryAt table position) := by
  have member : page ∈ memory.free := by simp [free]
  rw [opened_elsewhere away]
  exact if_neg (entryAt_outside (laid.pool page member).1 (laid.good table _ known)
    (laid_apart laid member known) position)

/-- A walk reads what it read before: zero where it now comes to the new table. -/
theorem opened_entryVia (owned : kind parent = some (pid, rank))
    (leads : rank.below index = some below)
    (invalid : isValid (memory.words (entryAt parent index)) = false) {owner : Nat}
    (known : kind table = some (owner, start)) (along : start.along path = some .leaf)
    (position : Fin 512) :
    (opened memory page rest (entryAt parent index)).entryVia table path position =
      memory.entryVia table path position := by
  obtain ⟨good, _⟩ := laid.pool page (by simp [free])
  induction path generalizing table start with
  | nil =>
    cases along
    apply opened_table laid free known
    intro same
    obtain ⟨rfl, _⟩ := entryAt_inj (laid.good table _ known) (laid.good parent _ owned) same
    rw [owned, Option.some.injEq, Prod.mk.injEq] at known
    rw [known.2] at leads
    cases leads
  | cons step path ih =>
    unfold RawMemory.entryVia RawMemory.nextTable
    dsimp only
    by_cases here : entryAt table step = entryAt parent index
    · rw [here, invalid, opened_entry good]
      rw [opened_here, (Bool.and_eq_true_iff.mp (newEntry_bits good).1).1]
      cases path with
      | nil => exact opened_zero laid free owned position
      | cons next path =>
        simp only [RawMemory.entryVia, RawMemory.nextTable, opened_zero laid free owned, if_true]
        rfl
    · rw [opened_table laid free known here]
      cases leadsHere : start.below step with
      | none => simp [Rank.along, leadsHere] at along
      | some next =>
        cases valid : isValid (memory.words (entryAt table step)) with
        | false => rfl
        | true =>
          simp only [Rank.along, leadsHere] at along
          exact ih (laid.child table owner start step next known leadsHere valid).2 along

theorem opened_single {next : UInt64 → Option (Nat × Rank)} (single : Single kind memory)
    (owned : kind parent = some (pid, rank))
    (after : Laid roots next (opened memory page rest (entryAt parent index)))
    (step : Extends pid kind next memory (opened memory page rest (entryAt parent index))) :
    Single next (opened memory page rest (entryAt parent index)) := by
  obtain ⟨good, unowned⟩ := laid.pool page (by simp [free])
  -- the entries of the new table are not valid, and it has no parent entry but the new one
  have before : ∀ {table : UInt64} {owner : Nat} {start target : Rank} {position : Fin 512},
      next table = some (owner, start) → start.below position = some target →
      isValid ((opened memory page rest (entryAt parent index)).words (entryAt table position)) =
        true →
      kind table = some (owner, start) ∧ (entryAt table position = entryAt parent index ∨
        (opened memory page rest (entryAt parent index)).words (entryAt table position) =
          memory.words (entryAt table position) ∧
        pageOf (memory.words (entryAt table position)) ≠ page) := by
    intro table owner start target position known leads valid
    rcases opened_origin free after step known with kept | rfl
    · refine ⟨kept, ?_⟩
      by_cases here : entryAt table position = entryAt parent index
      · exact .inl here
      have same := opened_table laid free kept here
      rw [same] at valid
      refine .inr ⟨same, fun target => ?_⟩
      have child := (laid.child table owner start position _ kept leads valid).2
      rw [target, unowned] at child
      cases child
    · rw [opened_zero laid free owned] at valid
      cases valid
  intro table other owner start otherStart position otherPosition target otherTarget known
    otherKnown leads otherLeads valid otherValid same
  obtain ⟨kept, here⟩ := before known leads valid
  obtain ⟨otherKept, otherHere⟩ := before otherKnown otherLeads otherValid
  have tableGood := laid.good table _ kept
  have otherGood := laid.good other _ otherKept
  rcases here with here | ⟨unchanged, away⟩
  · rcases otherHere with otherHere | ⟨otherUnchanged, otherAway⟩
    · exact entryAt_inj tableGood otherGood (here.trans otherHere.symm)
    · rw [here, opened_entry good, otherUnchanged] at same
      exact absurd same.symm otherAway
  · rcases otherHere with otherHere | ⟨otherUnchanged, otherAway⟩
    · rw [otherHere, opened_entry good, unchanged] at same
      exact absurd same away
    · rw [unchanged] at valid same
      rw [otherUnchanged] at otherValid same
      exact single table other owner start otherStart position otherPosition target otherTarget
        kept otherKept leads otherLeads valid otherValid same

theorem opened_nextTable (invalid : isValid (memory.words entry) = false)
    (known : kind table = some owner) (found : memory.nextTable table position = some target) :
    (opened memory page rest entry).nextTable table position = some target := by
  obtain ⟨valid, _⟩ := nextTable_some found
  have away : entryAt table position ≠ entry := by
    intro same
    rw [same, invalid] at valid
    cases valid
  unfold RawMemory.nextTable at found ⊢
  rw [opened_table laid free known away]
  exact found

end

end NewTable

/-- What a step of a walk that makes tables keeps: the tables are in order, the entries that
were valid are as before, and the walks read what they read before. -/
structure Prepares (roots : Nat → Option UInt64) (pid : Nat)
    (kind next : UInt64 → Option (Nat × Rank)) (memory after : RawMemory) : Prop where
  laid : Laid roots next after
  single : Single next after
  step : Extends pid kind next memory after
  kept : ∀ table owner index target, kind table = some owner →
    memory.nextTable table index = some target → after.nextTable table index = some target
  reads : ∀ table owner start path index, kind table = some (owner, start) →
    start.along path = some .leaf → after.entryVia table path index = memory.entryVia table path index

theorem prepares_trans {next : UInt64 → Option (Nat × Rank)}
    (first : Prepares roots pid kind next memory middle)
    (second : Prepares roots pid next last middle after) :
    Prepares roots pid kind last memory after where
  laid := second.laid
  single := second.single
  step := extends_trans first.step second.step
  kept := fun table owner index target known found =>
    second.kept table owner index target (first.step.kept _ _ known)
      (first.kept table owner index target known found)
  reads := fun table owner start path index known along =>
    (second.reads table owner start path index (first.step.kept _ _ known) along).trans
      (first.reads table owner start path index known along)

section

variable (laid : Laid roots kind memory)

include laid

theorem putLeaf_findL3 (owned : kind table = some (pid, .leaf)) (index : Fin 512) (pte : UInt64)
    (rooted : kind root = some (pid, .root)) (high : ¬ Low spot) :
    (memory.put (entryAt table index) pte).findL3 root spot = memory.findL3 root spot := by
  obtain ⟨rank, toSecond, toThird⟩ := rank_walk high
  have same : ∀ {other : UInt64} {rank next : Rank} {position : Fin 512},
      kind other = some (pid, rank) → rank.below position = some next →
      (memory.put (entryAt table index) pte).nextTable other position =
        memory.nextTable other position := by
    intro other rank next position known leads
    unfold RawMemory.nextTable
    rw [putLeaf_words laid owned index pte known leads]
  unfold RawMemory.findL3
  rw [same rooted toSecond]
  cases first : memory.nextTable root spot.1 with
  | none => rfl
  | some l1 =>
    have owned1 := nextTable_owned laid rooted toSecond first
    dsimp only
    rw [same owned1 toThird]
    cases second : memory.nextTable l1 spot.2.1 with
    | none => rfl
    | some l2 =>
      exact same (nextTable_owned laid owned1 toThird second)
        (show Rank.middle.below spot.2.2.1 = some .leaf from rfl)

variable (single : Single kind memory)

include single

theorem prepares_refl : Prepares roots pid kind kind memory memory where
  laid := laid
  single := single
  step := extends_refl
  kept := fun _ _ _ _ _ found => found
  reads := fun _ _ _ _ _ _ _ => rfl

theorem getOrAllocTable_prepares (owned : kind parent = some (pid, rank))
    (leads : rank.below index = some below)
    (result : memory.getOrAllocTable parent index = (some table, after)) :
    ∃ next, Prepares roots pid kind next memory after ∧ next table = some (pid, below) ∧
      after.nextTable parent index = some table := by
  obtain ⟨next, laid', step, found⟩ := getOrAllocTable_laid laid owned leads
  have lower := found table (congrArg Prod.fst result)
  rw [result] at laid' step
  rcases rawTable_cases memory parent index with
    none | ⟨there, reached, same⟩ | ⟨page, rest, free, invalid, opens⟩
  · rw [none] at result
    cases result
  · rw [same] at result
    cases result
    exact ⟨kind, prepares_refl laid single, nextTable_owned laid owned leads reached, reached⟩
  rw [opens] at result
  cases result
  obtain ⟨good, _⟩ := laid.pool page (by simp [free])
  refine ⟨next, ⟨laid', opened_single laid free single owned laid' step, step, ?_, ?_⟩, lower, ?_⟩
  · intro other owner position target known there
    exact opened_nextTable laid free invalid known there
  · intro other owner start path position known along
    exact opened_entryVia laid free owned leads invalid known along position
  · unfold RawMemory.nextTable
    rw [opened_here]
    exact if_pos (Bool.and_eq_true_iff.mp (newEntry_bits good).1).1

theorem putLeaf_single (owned : kind table = some (pid, .leaf)) (index : Fin 512) (pte : UInt64) :
    Single kind (memory.put (entryAt table index) pte) :=
  single_congr single fun _ _ _ _ _ => putLeaf_words laid owned index pte

variable (owned : kind root = some (pid, .root))

include owned

/-- Walks that end at the same table took the same way. -/
theorem findL3_inj {other : Place} (high : ¬ Low spot) (otherHigh : ¬ Low other)
    (found : memory.findL3 root spot = some l3) (otherFound : memory.findL3 root other = some l3) :
    spot.1 = other.1 ∧ spot.2.1 = other.2.1 ∧ spot.2.2.1 = other.2.2.1 := by
  obtain ⟨rank, toSecond, toThird⟩ := rank_walk high
  obtain ⟨otherRank, otherSecond, otherThird⟩ := rank_walk otherHigh
  have toLeaf : ∀ index, Rank.middle.below index = some .leaf := fun _ => rfl
  obtain ⟨l1, l2, first, second, third⟩ := findL3_steps found
  obtain ⟨m1, m2, otherFirst, otherStep, otherLast⟩ := findL3_steps otherFound
  have owned1 := nextTable_owned laid owned toSecond first
  have otherOwned1 := nextTable_owned laid owned otherSecond otherFirst
  have owned2 := nextTable_owned laid owned1 toThird second
  have otherOwned2 := nextTable_owned laid otherOwned1 otherThird otherStep
  obtain ⟨rfl, last⟩ := nextTable_inj single owned2 otherOwned2 (toLeaf _) (toLeaf _) third otherLast
  obtain ⟨rfl, middle⟩ :=
    nextTable_inj single owned1 otherOwned1 toThird otherThird second otherStep
  obtain ⟨_, top⟩ := nextTable_inj single owned owned toSecond otherSecond first otherFirst
  exact ⟨top, middle, last⟩

theorem obtainL3_prepares (high : ¬ Low spot)
    (result : memory.obtainL3 root spot = (some l3, after)) :
    ∃ next, Prepares roots pid kind next memory after ∧ next l3 = some (pid, .leaf) ∧
      after.findL3 root spot = some l3 := by
  obtain ⟨rank, toSecond, toThird⟩ := rank_walk high
  unfold RawMemory.obtainL3 at result
  rcases result1 : memory.getOrAllocTable root spot.1 with ⟨_ | l1, memory1⟩
  all_goals rw [result1] at result
  · cases result
  dsimp only at result
  rcases result2 : memory1.getOrAllocTable l1 spot.2.1 with ⟨_ | l2, memory2⟩
  all_goals rw [result2] at result
  · cases result
  obtain ⟨kind1, first, owned1, reached1⟩ :=
    getOrAllocTable_prepares laid single owned toSecond result1
  obtain ⟨kind2, second, owned2, reached2⟩ :=
    getOrAllocTable_prepares first.laid first.single owned1 toThird result2
  have toLeaf : Rank.middle.below spot.2.2.1 = some .leaf := rfl
  obtain ⟨kind3, third, owned3, reached3⟩ :=
    getOrAllocTable_prepares second.laid second.single owned2 toLeaf result
  have top : after.nextTable root spot.1 = some l1 :=
    third.kept _ _ _ _ (second.step.kept _ _ (first.step.kept _ _ owned))
      (second.kept _ _ _ _ (first.step.kept _ _ owned) reached1)
  have middle : after.nextTable l1 spot.2.1 = some l2 :=
    third.kept _ _ _ _ (second.step.kept _ _ owned1) reached2
  refine ⟨kind3, prepares_trans (prepares_trans first second) third, owned3, ?_⟩
  simp only [RawMemory.findL3, top, middle, reached3]

/-- An entry that a walk ends at is written: it is read for that walk and for no other. -/
theorem putLeaf_reads {other : Place} (high : ¬ Low spot)
    (found : memory.findL3 root spot = some l3)
    (entry : UInt64) (otherHigh : ¬ Low other) :
    (memory.put (entryAt l3 spot.2.2.2) entry).readAt root other =
      if other = spot then entry else memory.readAt root other := by
  have leaf := findL3_owned laid owned high found
  rw [readAt_findL3, readAt_findL3, putLeaf_findL3 laid leaf _ _ owned otherHigh]
  by_cases same : other = spot
  · subst same
    rw [if_pos rfl, found]
    exact put_here _ _
  rw [if_neg same]
  cases ending : memory.findL3 root other with
  | none => rfl
  | some table =>
    apply put_away
    intro clash
    have tableOwned := findL3_owned laid owned otherHigh ending
    obtain ⟨rfl, last⟩ := entryAt_inj (laid.good _ _ tableOwned) (laid.good _ _ leaf) clash
    obtain ⟨top, middle, third⟩ := findL3_inj laid single owned otherHigh high ending found
    exact same (Prod.ext top (Prod.ext middle (Prod.ext third last)))

theorem writePte_reads (high : ¬ Low (place va))
    (result : memory.writePte root va entry = (true, after)) :
    ∃ next, Laid roots next after ∧ Single next after ∧ Extends pid kind next memory after ∧
      ∀ spot, ¬ Low spot → after.readAt root spot =
        if spot = place va then entry else memory.readAt root spot := by
  unfold RawMemory.writePte at result
  split at result
  · cases result
  rcases reached : memory.obtainL3 root (place va) with ⟨_ | l3, middle⟩
  all_goals rw [reached] at result
  · cases result
  cases result
  obtain ⟨next, ready, leaf, found⟩ := obtainL3_prepares laid single owned high reached
  obtain ⟨laid', step⟩ := putLeaf_laid ready.laid leaf (place va).2.2.2 entry
  have rooted := ready.step.kept _ _ owned
  refine ⟨next, laid', putLeaf_single ready.laid ready.single leaf _ _,
    extends_trans ready.step step, ?_⟩
  · intro spot spotHigh
    have before : middle.readAt root spot = memory.readAt root spot :=
      ready.reads root pid .root _ _ owned (high_along spotHigh)
    rw [← before]
    exact putLeaf_reads ready.laid ready.single rooted high found entry spotHigh

theorem unmapPage_reads (high : ¬ Low (place va)) :
    Laid roots kind (memory.unmapPage root va) ∧ Single kind (memory.unmapPage root va) ∧
      ∀ spot, ¬ Low spot → (memory.unmapPage root va).readAt root spot =
        if spot = place va then 0 else memory.readAt root spot := by
  unfold RawMemory.unmapPage
  split
  next missing =>
    refine ⟨laid, single, ?_⟩
    intro spot _
    split
    next same => rw [same, readAt_findL3, missing]
    · rfl
  next l3 found =>
    have leaf := findL3_owned laid owned high found
    exact ⟨(putLeaf_laid laid leaf _ 0).1, putLeaf_single laid single leaf _ 0,
      fun _ spotHigh => putLeaf_reads laid single owned high found 0 spotHigh⟩

theorem unmapPages_reads (high : HighPages va pages) :
    Laid roots kind (memory.unmapPages root va pages) ∧
      Single kind (memory.unmapPages root va pages) ∧
      ∀ spot, ¬ Low spot → (memory.unmapPages root va pages).readAt root spot =
        if ∃ i < pages, place (va + UInt64.ofNat (4096 * i)) = spot then 0
        else memory.readAt root spot := by
  induction pages generalizing memory va with
  | zero =>
    refine ⟨laid, single, fun spot _ => (if_neg ?_).symm⟩
    rintro ⟨i, inside, _⟩
    exact Nat.not_lt_zero i inside
  | succ pages ih =>
    obtain ⟨here, later⟩ := highPages_succ high
    obtain ⟨laid1, single1, reads1⟩ := unmapPage_reads laid single owned here
    obtain ⟨laid', single', reads⟩ := ih laid1 single1 later
    refine ⟨laid', single', ?_⟩
    intro spot spotHigh
    have split : (∃ i < pages + 1, place (va + UInt64.ofNat (4096 * i)) = spot) ↔
        place va = spot ∨ ∃ i < pages, place (va + 4096 + UInt64.ofNat (4096 * i)) = spot := by
      simp only [Nat.exists_lt_succ_left, next_page, Nat.mul_zero]
      rw [show va + UInt64.ofNat 0 = va from UInt64.add_zero va]
    unfold RawMemory.unmapPages
    rw [reads spot spotHigh, reads1 spot spotHigh]
    by_cases last : ∃ i < pages, place (va + 4096 + UInt64.ofNat (4096 * i)) = spot
    · rw [if_pos last, if_pos (split.mpr (.inr last))]
    · rw [if_neg last]
      refine if_congr ?_ rfl rfl
      rw [split, or_iff_left last, eq_comm]

/-- The pages of a run are mapped: each is read at its place, and nothing else changed. -/
theorem mapPages_reads (high : HighPages va pages)
    (result : memory.mapPages root va pa protFlags pages = (true, after)) :
    ∃ next, Laid roots next after ∧ Single next after ∧ Extends pid kind next memory after ∧
      (∀ spot, ¬ Low spot → (∀ i < pages, place (va + UInt64.ofNat (4096 * i)) ≠ spot) →
        after.readAt root spot = memory.readAt root spot) ∧
      ∀ i < pages, (∀ j < pages, place (va + UInt64.ofNat (4096 * j)) =
          place (va + UInt64.ofNat (4096 * i)) → j = i) →
        after.readAt root (place (va + UInt64.ofNat (4096 * i))) =
          makeEntry (pa + UInt64.ofNat (4096 * i)) protFlags := by
  induction pages generalizing kind memory va pa with
  | zero =>
    cases result
    exact ⟨kind, laid, single, extends_refl, fun _ _ _ => rfl,
      fun _ inside => absurd inside (Nat.not_lt_zero _)⟩
  | succ pages ih =>
    obtain ⟨here, later⟩ := highPages_succ high
    have first : ∀ addr : UInt64, addr + UInt64.ofNat (4096 * 0) = addr := UInt64.add_zero
    unfold RawMemory.mapPages at result
    split at result
    · cases result
    next middle written =>
    obtain ⟨kind1, laid1, single1, step1, reads1⟩ :=
      writePte_reads laid single owned here written
    obtain ⟨next, laid', single', step, others, placed⟩ :=
      ih laid1 single1 (step1.kept _ _ owned) later result
    refine ⟨next, laid', single', extends_trans step1 step, ?_, ?_⟩
    · intro spot spotHigh away
      have rest : after.readAt root spot = middle.readAt root spot := by
        apply others spot spotHigh
        intro i inside
        rw [next_page]
        exact away (i + 1) (Nat.succ_lt_succ inside)
      have apart : spot ≠ place va := by
        intro same
        have start := away 0 (Nat.succ_pos _)
        rw [first] at start
        exact start same.symm
      rw [rest, reads1 spot spotHigh, if_neg apart]
    · intro i inside unique
      cases i with
      | zero =>
        have rest : after.readAt root (place va) = middle.readAt root (place va) := by
          apply others _ here
          intro j small same
          have again := unique (j + 1) (Nat.succ_lt_succ small)
          rw [first, ← next_page] at again
          exact absurd (again same) (Nat.succ_ne_zero j)
        rw [first, first, rest, reads1 _ here, if_pos rfl]
      | succ i =>
        rw [← next_page, ← next_page]
        apply placed i (Nat.lt_of_succ_lt_succ inside)
        intro j small same
        rw [next_page, next_page] at same
        exact Nat.succ.inj (unique (j + 1) (Nat.succ_lt_succ small) same)

end

end

theorem place_toNat (va : UInt64) :
    (place va).1.val = va.toNat / 2 ^ 39 % 512 ∧ (place va).2.1.val = va.toNat / 2 ^ 30 % 512 ∧
      (place va).2.2.1.val = va.toNat / 2 ^ 21 % 512 ∧
      (place va).2.2.2.val = va.toNat / 2 ^ 12 % 512 := by
  simp only [place, Fin.ofNat, UInt64.toNat_shiftRight, UInt64.reduceToNat, Nat.shiftRight_eq_div_pow]
  trivial

/-- Addresses of 48 bits with the same place are in the same page. -/
theorem place_inj (narrow : va.toNat < 2 ^ 48) (otherNarrow : other.toNat < 2 ^ 48)
    (same : place va = place other) : va.toNat / 4096 = other.toNat / 4096 := by
  obtain ⟨top, second, third, last⟩ := place_toNat va
  obtain ⟨otherTop, otherSecond, otherThird, otherLast⟩ := place_toNat other
  rw [same] at top second third last
  omega

theorem place_congr (same : va.toNat / 4096 = other.toNat / 4096) : place va = place other := by
  obtain ⟨top, second, third, last⟩ := place_toNat va
  obtain ⟨otherTop, otherSecond, otherThird, otherLast⟩ := place_toNat other
  refine Prod.ext (Fin.ext ?_) (Prod.ext (Fin.ext ?_) (Prod.ext (Fin.ext ?_) (Fin.ext ?_)))
  · omega
  · omega
  · omega
  · omega

theorem high_place (above : 2 ^ 31 ≤ va.toNat) (narrow : va.toNat < 2 ^ 48) : ¬ Low (place va) := by
  obtain ⟨top, second, _, _⟩ := place_toNat va
  rintro ⟨zero, small⟩
  omega

theorem pageAlignDown_toNat (addr : UInt64) :
    (pageAlignDown addr).toNat = addr.toNat / 4096 * 4096 := by
  have small := addr.toNat_lt
  rw [pageAlignDown, @Bits.and_toNat 52 12 (~~~pageMask) addr (by decide)]
  omega

theorem pageOffset_toNat (addr : UInt64) : (addr &&& pageMask).toNat = addr.toNat % 4096 := by
  have field := @Bits.and_toNat 12 0 pageMask addr (by decide)
  omega

theorem pageOf_toNat (pte : UInt64) : (pageOf pte).toNat = pte.toNat / 4096 % 2 ^ 36 * 4096 :=
  Bits.and_toNat pte (show addrMask.toNat = (2 ^ 36 - 1) * 2 ^ 12 by decide)

variable {byte : UInt64} {count i : Nat}

theorem inPage_toNat (fits : page.toNat + 4096 ≤ 2 ^ 64) :
    InPage byte page ↔ page.toNat ≤ byte.toNat ∧ byte.toNat < page.toNat + 4096 := by
  have limit : (4096 : UInt64).toNat = 4096 := rfl
  have small := byte.toNat_lt
  unfold InPage
  rw [UInt64.lt_iff_toNat_lt, UInt64.toNat_sub, limit]
  omega

theorem inPage_unique (good : Good page) (otherGood : Good other) (inside : InPage addr page)
    (otherInside : InPage addr other) : page = other := by
  obtain ⟨aligned, bound⟩ := good_toNat good
  obtain ⟨otherAligned, otherBound⟩ := good_toNat otherGood
  rw [inPage_toNat (by omega)] at inside otherInside
  apply UInt64.toNat_inj.mp
  omega

theorem page_toNat (upper : va.toNat + 4096 * count ≤ 2 ^ 48) (inside : i < count) :
    (va + UInt64.ofNat (4096 * i)).toNat = va.toNat + 4096 * i := by
  rw [UInt64.toNat_add, UInt64.toNat_ofNat']
  omega

theorem highPages_user (lower : 2 ^ 31 ≤ va.toNat)
    (upper : va.toNat + 4096 * count ≤ 2 ^ 48) : HighPages va count := by
  intro i inside
  have number := page_toNat upper inside
  exact high_place (by omega) (by omega)

theorem physical_toNat (good : Good page) (addr : UInt64) :
    (page ||| (addr &&& pageMask)).toNat = page.toNat + addr.toNat % 4096 := by
  obtain ⟨aligned, bound⟩ := good_toNat good
  have whole : page.toNat = 2 ^ 12 * (page.toNat / 4096) := by omega
  rw [UInt64.toNat_or, pageOffset_toNat, whole, ← Nat.two_pow_add_eq_or_of_lt (by omega)]

end ViperDos.Memory
