import ViperDos.ForkAreas

/-!
What a fork leaves behind, in terms of page table entries. A clone that has pages
enough for the child's tables succeeds, and then parent and child have the same
read-only entries outside slot 0 of the root; a fork that gives up before the clone
has given every page back.
-/

namespace ViperDos.Memory

open Function

theorem indices_mem (index : Fin 512) : index ∈ indices := by
  unfold indices
  exact List.mem_finRange index

theorem indices_tail (index : Fin 512) : index ∈ indices.tail ↔ index ≠ 0 := by
  have split : indices = 0 :: (List.finRange 511).map Fin.succ := by
    unfold indices
    exact List.finRange_succ
  have nodup := indices_nodup
  have member := indices_mem index
  rw [split] at nodup member ⊢
  rw [List.tail_cons]
  constructor
  · rintro inside rfl
    exact (List.nodup_cons.mp nodup).1 inside
  · intro different
    exact (List.mem_cons.mp member).resolve_left different

variable {Child Key : Type} {fresh : UInt64 → Child} {table : Table Child} {index : Fin 512}
  {phys after middle : Physical} {body : Child → Child → Physical → Bool × Child × Child × Physical}
  {order : List (Fin 512)} {below : Child → Nat}

section Levels

variable {view : Child → Key → UInt64}

def inheritEntry (parent child : UInt64) : UInt64 :=
  if isValid parent then parent ||| pteApRo else child

def Clones (view : Child → Key → UInt64) (parent child parentAfter childAfter : Child) : Prop :=
  ∀ key, view parentAfter key = shareEntry (view parent key) ∧
    view childAfter key = inheritEntry (view parent key) (view child key)

/-- Obtaining a table keeps the entries below it: a new one is empty, as none was. -/
theorem getOrAllocTable_view {child : Child} (blank : ∀ page key, view (fresh page) key = 0)
    (obtained : getOrAllocTable fresh table index phys = (some child, after)) (key : Key) :
    view child key = table.view view (index, key) := by
  rcases getOrAllocTable_cases fresh table index phys with
    refused | ⟨found, entry, result⟩ | ⟨page, rest, entry, _, result⟩
  · rw [refused] at obtained
    cases obtained
  · rw [result] at obtained
    cases obtained
    simp [Table.view, entry]
  · rw [result] at obtained
    cases obtained
    simp [Table.view, entry, blank]

theorem cloneTable_entries {parent child : Table Child}
    (blank : ∀ page key, view (fresh page) key = 0)
    (clones : ∀ parent child phys, (body parent child phys).1 = true →
      Clones view parent child (body parent child phys).2.1 (body parent child phys).2.2.1)
    (nodup : order.Nodup) (done : (cloneTable fresh body order parent child phys).1 = true)
    (index : Fin 512) (key : Key) :
    (cloneTable fresh body order parent child phys).2.1.view view (index, key) =
        (if index ∈ order then shareEntry (parent.view view (index, key))
          else parent.view view (index, key)) ∧
      (cloneTable fresh body order parent child phys).2.2.1.view view (index, key) =
        (if index ∈ order then
          inheritEntry (parent.view view (index, key)) (child.view view (index, key))
          else child.view view (index, key)) := by
  induction order generalizing parent child phys with
  | nil => simp [cloneTable]
  | cons head rest ih =>
    rcases List.nodup_cons.mp nodup with ⟨absent, restNodup⟩
    cases entry : parent.entries head with
    | table parentNext =>
      rcases obtained : getOrAllocTable fresh child head phys with ⟨_ | childNext, between⟩
      · simp [cloneTable, entry, obtained] at done
      rcases result : body parentNext childNext between with
        ⟨_ | _, parentLast, childLast, after⟩
      · simp [cloneTable, entry, obtained, result] at done
      have shared := clones parentNext childNext between
      rw [result] at shared
      simp only [cloneTable, entry, obtained, result, if_true] at done ⊢
      have later := ih restNodup done
      rw [later.1, later.2]
      by_cases here : index = head
      · subst index
        have below := shared rfl key
        have above : parent.view view (head, key) = view parentNext key := by
          simp [Table.view, entry]
        rw [getOrAllocTable_view blank obtained] at below
        simp only [if_neg absent, view_set_same, List.mem_cons_self, if_true, above]
        exact below
      · rw [view_set_other parent parentLast key here, view_set_other child childLast key here]
        simp [here]
    | block | empty =>
      simp only [cloneTable, entry] at done ⊢
      have later := ih restNodup done
      rw [later.1, later.2]
      by_cases here : index = head
      · subst index
        have zero : parent.view view (head, key) = 0 := by simp [Table.view, entry]
        rw [zero]
        simp [absent, shareEntry, inheritEntry, isValid]
      · simp [here]

theorem cloneTable_clones (fresh : UInt64 → Child) (blank : ∀ page key, view (fresh page) key = 0)
    (clones : ∀ parent child phys, (body parent child phys).1 = true →
      Clones view parent child (body parent child phys).2.1 (body parent child phys).2.2.1)
    (parent child : Table Child) (phys : Physical)
    (done : (cloneTable fresh body indices parent child phys).1 = true) :
    Clones (Table.view view) parent child (cloneTable fresh body indices parent child phys).2.1
      (cloneTable fresh body indices parent child phys).2.2.1 := by
  rintro ⟨index, key⟩
  have entries := cloneTable_entries blank clones indices_nodup done index key
  simpa only [indices_mem, if_true] using entries

def Table.tables (below : Child → Nat) (order : List (Fin 512)) (table : Table Child) : Nat :=
  (order.map fun index =>
    match table.entries index with
    | .table child => below child + 1
    | _ => 0).sum

theorem tables_set (absent : index ∉ order) (table : Table Child) (child : Child) :
    (table.set index child).tables below order = table.tables below order := by
  unfold Table.tables
  congr 1
  apply List.map_congr_left
  intro other member
  have different : other ≠ index := by
    rintro rfl
    exact absent member
  simp [Table.set, update_of_ne different]

theorem cloneTable_succeeds (succeeds : ∀ parent page phys, below parent ≤ phys.free.length →
      (body parent (fresh page) phys).1 = true ∧
        (body parent (fresh page) phys).2.2.2.free.length + below parent = phys.free.length)
    (nodup : order.Nodup) (parent child : Table Child) (phys : Physical)
    (vacant : ∀ index ∈ order, child.entries index = .empty)
    (enough : parent.tables below order ≤ phys.free.length) :
    (cloneTable fresh body order parent child phys).1 = true ∧
      (cloneTable fresh body order parent child phys).2.2.2.free.length +
        parent.tables below order = phys.free.length := by
  induction order generalizing parent child phys with
  | nil => simp [cloneTable, Table.tables]
  | cons head rest ih =>
    rcases List.nodup_cons.mp nodup with ⟨absent, restNodup⟩
    have others : ∀ index ∈ rest, child.entries index = .empty := fun index member =>
      vacant index (.tail _ member)
    cases entry : parent.entries head with
    | table parentNext =>
      have total : parent.tables below (head :: rest) =
          below parentNext + 1 + parent.tables below rest := by
        simp [Table.tables, entry]
      rw [total] at enough ⊢
      cases free : phys.free with
      | nil =>
        rw [free] at enough
        simp at enough
      | cons page pages =>
        rw [free, List.length_cons] at enough
        have obtained : getOrAllocTable fresh child head phys =
            (some (fresh page), { phys with free := pages }) := by
          simp [getOrAllocTable, vacant head (.head _), allocPage, free]
        rcases succeeds parentNext page { phys with free := pages } (by dsimp only; omega) with
          ⟨done, spent⟩
        rcases result : body parentNext (fresh page) { phys with free := pages } with
          ⟨finished, parentLast, childLast, after⟩
        rw [result] at done spent
        dsimp only at done spent
        simp only [cloneTable, entry, obtained, result, done, if_true]
        have still : ∀ index ∈ rest, (child.set head childLast).entries index = .empty := by
          intro index member
          have different : index ≠ head := by
            rintro rfl
            exact absent member
          simp [Table.set, update_of_ne different, others index member]
        have left : (parent.set head parentLast).tables below rest ≤ after.free.length := by
          rw [tables_set absent]
          omega
        rcases ih restNodup _ _ _ still left with ⟨complete, remaining⟩
        rw [tables_set absent] at remaining
        refine ⟨complete, ?_⟩
        rw [List.length_cons]
        omega
    | block | empty =>
      have total : parent.tables below (head :: rest) = parent.tables below rest := by
        simp [Table.tables, entry]
      rw [total] at enough ⊢
      simp only [cloneTable, entry]
      exact ih restNodup _ _ _ others enough

def Drew (phys after : Physical) : Prop :=
  after.frames = phys.frames ∧ after.free <:+ phys.free

theorem drew_refl (phys : Physical) : Drew phys phys := ⟨rfl, List.suffix_rfl⟩

theorem drew_trans (first : Drew phys middle) (second : Drew middle after) : Drew phys after :=
  ⟨second.1.trans first.1, second.2.trans first.2⟩

theorem drew_of_supplied (supplied : Supplied phys after) : Drew phys after := by
  rcases supplied with ⟨taken, free, same⟩
  have frames : after.frames = phys.frames := by rw [same]
  exact ⟨frames, taken, free.symm⟩

theorem getOrAllocTable_drew (fresh : UInt64 → Child) (table : Table Child) (index : Fin 512)
    (phys : Physical) : Drew phys (getOrAllocTable fresh table index phys).2 := by
  rcases getOrAllocTable_cases fresh table index phys with
    refused | ⟨found, _, result⟩ | ⟨page, rest, _, free, result⟩
  · rw [refused]
    exact drew_refl phys
  · rw [result]
    exact drew_refl phys
  · rw [result]
    exact ⟨rfl, [page], by rw [free]; rfl⟩

theorem cloneTable_drew (fresh : UInt64 → Child)
    (drew : ∀ parent child phys, Drew phys (body parent child phys).2.2.2)
    (order : List (Fin 512)) (parent child : Table Child) (phys : Physical) :
    Drew phys (cloneTable fresh body order parent child phys).2.2.2 := by
  induction order generalizing parent child phys with
  | nil => exact drew_refl phys
  | cons head rest ih =>
    cases entry : parent.entries head with
    | table parentNext =>
      have first := getOrAllocTable_drew fresh child head phys
      rcases obtained : getOrAllocTable fresh child head phys with ⟨_ | childNext, between⟩
      all_goals
        rw [obtained] at first
        simp only [cloneTable, entry, obtained]
      · exact first
      have second := drew parentNext childNext between
      rcases result : body parentNext childNext between with
        ⟨_ | _, parentLast, childLast, after⟩
      all_goals
        rw [result] at second
      · exact drew_trans first second
      · exact drew_trans (drew_trans first second) (ih _ _ _)
    | block | empty =>
      simp only [cloneTable, entry]
      exact ih parent child phys

end Levels

def clonedTables : L0 → Nat :=
  Table.tables (Table.tables (Table.tables (fun _ => 0) indices) indices) indices.tail

variable {parent child : L0} {l0Page l1Page : UInt64} {rest : List UInt64} {m : Machine}
  {capsOk : Bool}

theorem cloneCowFrom_entries (done : (cloneCowFrom parent child phys).1 = true) (spot : Place) :
    readAt (cloneCowFrom parent child phys).2.1 spot =
        (if spot.1 = 0 then readAt parent spot else shareEntry (readAt parent spot)) ∧
      readAt (cloneCowFrom parent child phys).2.2.1 spot = (if spot.1 = 0 then readAt child spot
          else inheritEntry (readAt parent spot) (readAt child spot)) := by
  have leaf : ∀ (parent child : L3) (phys : Physical), (cloneL3 parent child phys).1 = true →
      Clones L3.entries parent child (cloneL3 parent child phys).2.1
        (cloneL3 parent child phys).2.2.1 := fun _ _ _ _ _ => ⟨rfl, rfl⟩
  have third := cloneTable_clones emptyL3 (fun _ _ => rfl) leaf
  have second := cloneTable_clones (emptyTable L3) (fun _ _ => rfl) third
  have first := cloneTable_entries (fun _ _ => rfl) second
    ((List.tail_sublist indices).nodup indices_nodup) done spot.1 spot.2
  simp only [indices_tail, ite_not] at first
  exact first

theorem cloneL3_drew (parent child : L3) (phys : Physical) :
    Drew phys (cloneL3 parent child phys).2.2.2 := by
  unfold cloneL3
  exact ⟨rfl, List.suffix_rfl⟩

theorem cloneL3_succeeds (parent : L3) (page : UInt64) (phys : Physical)
    (_ : (fun _ : L3 => 0) parent ≤ phys.free.length) :
    (cloneL3 parent (emptyL3 page) phys).1 = true ∧
      (cloneL3 parent (emptyL3 page) phys).2.2.2.free.length + (fun _ : L3 => 0) parent =
        phys.free.length := by
  unfold cloneL3
  exact ⟨rfl, rfl⟩

theorem cloneCowFrom_succeeds (vacant : ∀ index, index ≠ 0 → child.entries index = .empty)
    (enough : clonedTables parent ≤ phys.free.length) :
    (cloneCowFrom parent child phys).1 = true := by
  have third := fun parent page phys => cloneTable_succeeds cloneL3_succeeds indices_nodup
    parent (emptyTable L3 page) phys fun _ _ => rfl
  have second := fun parent page phys => cloneTable_succeeds third indices_nodup
    parent (emptyTable L2 page) phys fun _ _ => rfl
  have tailNodup : indices.tail.Nodup := (List.tail_sublist indices).nodup indices_nodup
  exact (cloneTable_succeeds second tailNodup parent child phys
    (fun index member => vacant index ((indices_tail index).mp member)) enough).1

theorem cloneCowFrom_drew (parent child : L0) (phys : Physical) :
    Drew phys (cloneCowFrom parent child phys).2.2.2 := by
  have third := fun parent child phys =>
    cloneTable_drew emptyL3 cloneL3_drew indices parent child phys
  have second := fun parent child phys =>
    cloneTable_drew (emptyTable L3) third indices parent child phys
  exact cloneTable_drew (emptyTable L2) second indices.tail parent child phys

def firstSpace (l0Page l1Page : UInt64) : L0 :=
  (emptyTable L1 l0Page).set 0
    ⟨l1Page, fun index => if index.val < 2 then .block else .empty⟩

theorem initSpace_cases (phys : Physical) : initSpace phys = (none, phys) ∨
    ∃ l0Page l1Page rest, phys.free = l0Page :: l1Page :: rest ∧
      initSpace phys = (some (firstSpace l0Page l1Page), { phys with free := rest }) := by
  unfold initSpace allocPage
  cases free : phys.free with
  | nil => exact .inl rfl
  | cons l0Page rest =>
    cases rest with
    | nil =>
      left
      simp only [freePage, ← free]
    | cons l1Page rest => exact .inr ⟨l0Page, l1Page, rest, rfl, rfl⟩

theorem firstSpace_unmapped (l0Page l1Page : UInt64) (spot : Place) :
    readAt (firstSpace l0Page l1Page) spot = 0 := by
  by_cases low : spot.1 = 0
  · by_cases kernel : spot.2.1.val < 2 <;>
      simp only [readAt, Table.view, firstSpace, Table.set, low, update_self, kernel,
        if_true, if_false]
  · simp [readAt, Table.view, firstSpace, Table.set, emptyTable, update_of_ne low]

section Destroy

variable {State Index : Type} {order : List Index} {step : State → Index → State}

theorem foldl_idle (idle : ∀ index ∈ order, ∀ state, step state index = state)
    (state : State) : order.foldl step state = state := by
  induction order with
  | nil => rfl
  | cons head rest ih =>
    rw [List.foldl_cons, idle head (.head _)]
    exact ih fun index member => idle index (.tail _ member)

theorem foldl_single {index : Index} (nodup : order.Nodup) (member : index ∈ order)
    (idle : ∀ other, other ≠ index → ∀ state, step state other = state) (state : State) :
    order.foldl step state = step state index := by
  induction order with
  | nil => cases member
  | cons head rest ih =>
    rcases List.nodup_cons.mp nodup with ⟨absent, restNodup⟩
    rw [List.foldl_cons]
    by_cases here : head = index
    · subst head
      exact foldl_idle (fun other inside => idle other (by rintro rfl; exact absent inside)) _
    · rw [idle head here]
      exact ih restNodup ((List.mem_cons.mp member).resolve_left (Ne.symm here))

theorem destroyTable_barren (body : Fin 512 → Child → Physical → Physical) {order : List (Fin 512)}
    (barren : ∀ index ∈ order, ∀ child, table.entries index ≠ .table child) (phys : Physical) :
    destroyTable body order table phys = freePage phys table.page := by
  unfold destroyTable
  rw [foldl_idle]
  intro index member state
  cases entry : table.entries index with
  | table child => exact absurd entry (barren index member child)
  | block | empty => rfl

theorem destroyTable_single (body : Fin 512 → Child → Physical → Physical) {order : List (Fin 512)}
    (nodup : order.Nodup) (member : index ∈ order) (child : Child) (page : UInt64)
    (phys : Physical) :
    destroyTable body order ((emptyTable Child page).set index child) phys =
      freePage (body index child phys) page := by
  unfold destroyTable
  rw [foldl_single nodup member]
  · simp [Table.set, emptyTable]
  · intro other different state
    simp [Table.set, emptyTable, update_of_ne different]

end Destroy

/-- A process that never ran gives its two pages back in the order it took them. -/
theorem destroySpace_firstSpace (free : phys.free = l0Page :: l1Page :: rest) :
    destroySpace (firstSpace l0Page l1Page) { phys with free := rest } = phys := by
  unfold destroySpace firstSpace
  rw [destroyTable_single _ indices_nodup (indices_mem 0), if_pos rfl, destroyTable_barren]
  · simp only [freePage, ← free]
  · intro index _ child
    by_cases kernel : index.val < 2 <;> simp [kernel]

theorem create_none (failed : (create m capsOk).1 = none) : (create m capsOk).2 = m := by
  unfold create at failed ⊢
  cases found : allocViper m with
  | none => rfl
  | some pid =>
    rcases initSpace_cases m.phys with refused | ⟨l0Page, l1Page, rest, free, made⟩
    · simp only [refused]
    · cases capsOk with
      | false => simp only [made, Bool.false_eq_true, if_false, destroySpace_firstSpace free]
      | true => simp [found, made] at failed

def Copyable (parent : Viper) : Prop :=
  (copyVmas parent.vmaList.chain parent.vmaList initMemoryRegions).1 = true

theorem fork_cases (m : Machine) (pid : Nat) (capsOk : Bool) : fork m pid capsOk = (none, m) ∨
    ∃ parent, m.vipers pid = some parent ∧
      ((∃ areas, fork m pid capsOk = (none, setViper m pid { parent with vmaList := areas })) ∨
        (Copyable parent ∧ ∃ childPid l0Page l1Page rest, m.vipers childPid = none ∧
          m.phys.free = l0Page :: l1Page :: rest ∧
          ((cloneCowFrom parent.space (firstSpace l0Page l1Page)
              { m.phys with free := rest }).1 = true →
            (fork m pid capsOk).1 = some childPid))) := by
  unfold fork
  cases found : m.vipers pid with
  | none => exact .inl rfl
  | some parent =>
    rcases create_cases m capsOk with ⟨failed, _⟩ | ⟨childPid, space, phys, vacant, made, created⟩
    · have same := create_none failed
      rcases outcome : create m capsOk with ⟨_ | childPid, next⟩
      · rw [outcome] at same
        cases same
        exact .inl rfl
      · rw [outcome] at failed
        cases failed
    right
    refine ⟨parent, rfl, ?_⟩
    rcases initSpace_cases m.phys with refused | ⟨l0Page, l1Page, rest, free, first⟩
    · rw [refused] at made
      cases made
    rw [first] at made
    cases made
    have apart : childPid ≠ pid := by
      rintro rfl
      rw [found] at vacant
      cases vacant
    have areas : (newViper (firstSpace l0Page l1Page)).vmaList = initMemoryRegions := rfl
    simp only [created, setViper, update_self, forkInto, areas]
    rcases copied : copyVmas parent.vmaList.chain parent.vmaList initMemoryRegions with
      ⟨_ | _, parentAreas, childAreas⟩
    · left
      refine ⟨parentAreas, ?_⟩
      have gone : update m.vipers childPid none = m.vipers := by
        rw [← vacant, update_eq_self]
      simp only [destroy, update_self, newViper, destroySpace_firstSpace free, update_idem]
      rw [update_comm apart, update_idem, update_comm apart.symm, gone]
    · right
      refine ⟨by rw [Copyable, copied], childPid, l0Page, l1Page, rest, vacant, free, ?_⟩
      intro done
      rcases cloned : cloneCowFrom parent.space (firstSpace l0Page l1Page)
        { m.phys with free := rest } with ⟨finished, parentSpace, childSpace, after⟩
      rw [cloned] at done
      cases done
      simp only [newViper, cloned, if_true]

end ViperDos.Memory
