import ViperDos.AssignRegistry
import ViperDos.CapRights
import ViperDos.ChannelNumbers

/-!
Names and the capabilities they lead to. Along a run a registry is kept of what each name
was last bound to. A lookup is honest when the capability it puts into the caller's table
names what the registry says. The code fails this where it takes a word for what it is
not: an inode for the number of a channel, when a directory is registered with the service
flag, and the number of a channel for an inode, when a service is looked up as a directory.
-/

namespace ViperDos.Ipc

open CapTable Transition Function

def boundTo (k : Kernel) (v : Viper) (h : Handle) : Option Assign.Binding :=
  match getChecked v.capTable h .directory with
  | some e => (dirOf k e.object).map (.directory · .null)
  | none =>
    match getChecked v.capTable h .channel with
    | some e => (channelOf k e.object).map .service
    | none => none

def accepted : Option (Outcome × Kernel) → Bool
  | some (.ok _, _) => true
  | _ => false

/-- The registry after a call: what a name is bound to changes when a call that sets, adds
or removes it succeeds. -/
def register (k : Kernel) (v : Viper) (registry : Assign.Registry) : Call → Assign.Registry
  | .assignSet name h flags =>
    match boundTo k v h with
    | none => registry
    | some binding =>
      if accepted (sysAssignSet k v name h flags) then
        update registry (Assign.fold name)
          (some ⟨binding, flags &&& Assign.assignSystem ≠ 0⟩)
      else registry
  | .assignAdd name inode =>
    match Assign.add k.assigns name inode with
    | some (.ok (), _) =>
      update registry (Assign.fold name) (some ⟨.directory inode .null, false⟩)
    | _ => registry
  | .assignRemove name =>
    match Assign.remove k.assigns name with
    | .ok _ => update registry (Assign.fold name) none
    | .error _ => registry
  | _ => registry

abbrev Watched := Kernel × Assign.Registry

def WatchedStep (s : Watched) (label : Label) (t : Watched) : Prop :=
  Step s.1 label t.1 ∧
    ∃ v, s.1.vipers label.pid = some v ∧ t.2 = register s.1 v s.2 label.call

def Call.subject : Call → Option Assign.Name
  | .assignSet name _ _ | .assignAdd name _ | .assignRemove name => some name
  | _ => none

def Refers (k : Kernel) (c : TransferredHandle) : Assign.Binding → Prop
  | .service id => c.kind = .channel ∧ k.objects c.object = some (.channel id endpointSend)
  | .directory inode fs =>
    c.kind = .directory ∧ fs = .null ∧ k.objects c.object = some (.dir inode)

def below (storage : Storage) (inode : UInt64) (remainder : List UInt8) : UInt64 :=
  UInt64.ofNat (walkPathComponents storage.env storage.system (components remainder) inode.toNat)

/-- One step in which names are honest. A new capability after a lookup is for what the
name is bound to; only the name a call is about changes, and a system assign does not; and
no other channel takes the number of one that a name is bound to. -/
structure Honest (s : Watched) (label : Label) (t : Watched) : Prop where
  get : ∀ storage name address, label.call = .assignGet storage name address →
    ∀ x c, capAt t.1 x = some c → capAt s.1 x ≠ some c →
      ∃ b, s.2 (Assign.fold name) = some b ∧ Refers t.1 c b.binding
  resolve : ∀ storage path flags address, label.call = .assignResolve storage path flags address →
    ∀ x c, capAt t.1 x = some c → capAt s.1 x ≠ some c →
      ∃ name remainder inode system, Assign.parseAssign path = some (name, remainder) ∧
        s.2 (Assign.fold name) = some ⟨.directory inode .null, system⟩ ∧
        (c.kind = .directory ∧ t.1.objects c.object = some (.dir (below storage inode remainder)) ∨
          c.kind = .file ∧ ∃ offset, t.1.objects c.object =
            some (.file (below storage inode remainder) flags offset))
  others : ∀ other, (∀ name, label.call.subject = some name →
    Assign.fold other ≠ Assign.fold name) →
      Assign.lookup t.1.assigns other = Assign.lookup s.1.assigns other ∧
        t.2 (Assign.fold other) = s.2 (Assign.fold other)
  system : ∀ name b, s.2 (Assign.fold name) = some b → b.system = true →
    Assign.lookup t.1.assigns name = Assign.lookup s.1.assigns name ∧
      t.2 (Assign.fold name) = some b
  recorded : ∀ name, t.2 (Assign.fold name) =
    (Assign.lookup t.1.assigns name).map Assign.AssignEntry.bound
  numbers : ∀ name id system, s.2 (Assign.fold name) = some ⟨.service id, system⟩ →
    ∀ slot, (t.1.channels.slots slot).state = .opened → (t.1.channels.slots slot).id = id →
      (s.1.channels.slots slot).state = .opened ∧ (s.1.channels.slots slot).id = id

/-- What a call must find in order to be honest. A directory is not set with the service
flag; a directory is added to no name that has one; a service is looked up by `get` and
while its channel is open; a directory that is looked up is on the system disk; and the
counter of channels has not come to its end. -/
def Straight (s : Watched) (label : Label) : Prop :=
  HasNumber s.1 label.call ∧
    match label.call with
    | .assignSet _ h flags =>
      ∀ v e, s.1.vipers label.pid = some v → getChecked v.capTable h .directory = some e →
        flags &&& Assign.assignService = 0
    | .assignAdd name _ =>
      ∀ entry, Assign.lookup s.1.assigns name = some entry →
        entry.flagged Assign.assignSystem = true
    | .assignGet _ name _ =>
      ∀ entry, Assign.lookup s.1.assigns name = some entry →
        if entry.flagged Assign.assignService then
          (findChannelById s.1.channels entry.channelId).isSome = true
        else entry.fs = .null
    | .assignResolve _ path _ _ =>
      ∀ name remainder entry, Assign.parseAssign path = some (name, remainder) →
        Assign.lookup s.1.assigns name = some entry →
          entry.flagged Assign.assignService = false ∧ entry.fs = .null
    | _ => True

variable {t : Table} {pid i : Nat} {v : Viper} {middle k after : Kernel} {kind : Kind}
  {address inode : UInt64} {object : KObject} {rights : Rights} {x : Place} {c : TransferredHandle}
  {storage : Storage} {flags : UInt32} {name : Assign.Name} {path : List UInt8}

section Lookups

variable {start : Kernel}

theorem insert_obtained (valid : WellFormed t) (room : t.freeHead ≠ freeEnd) (object : UInt64)
    (kind : Kind) (rights : Rights) : (CapTable.insert t object kind rights).2 ≠ handleInvalid := by
  have inside := (head_vacant valid room).1
  have small := valid.admissible.2
  simp only [CapTable.insert, room, if_false]
  exact makeHandle_ne_invalid _ (by omega)

theorem inserted_caps (valid : WellFormed v.capTable) (running : start.vipers pid = some v)
    (before : Quiet start middle) (proper : kind ≠ .invalid)
    (held : capAt (insertOrDelete (newObject middle address object) pid v address
      kind rights).2 x = some c) (new : capAt start x ≠ some c) :
    c.kind = kind ∧ v.capTable.freeHead ≠ freeEnd ∧
      (insertOrDelete (newObject middle address object) pid v address kind rights).2.objects
        c.object = some object := by
  have quiet := quiet_trans before (newObject_quiet middle address object)
  rcases effect_caps running (effect_after quiet (insertOrDelete_effect valid address proper rights
    (List.mem_singleton.mpr rfl))) held with old | ⟨i, _, listed⟩
  · exact absurd old new
  cases List.mem_singleton.mp listed
  rcases insertOrDelete_cases (newObject middle address object) pid v address kind rights with
    full | ⟨obtained, inserted⟩
  · rw [full] at held
    exact absurd (quiet_caps (quiet_trans quiet (deleteObject_quiet _ _)) held) new
  refine ⟨rfl, ?_, ?_⟩
  · intro full
    simp [insertOrDelete, CapTable.insert, full] at obtained
  · rw [inserted]
    exact update_self address (some object) middle.objects

theorem createDirHandle_caps (valid : WellFormed v.capTable) (running : start.vipers pid = some v)
    (before : Quiet start middle)
    (held : capAt (createDirHandle middle pid v storage inode address).2 x = some c)
    (new : capAt start x ≠ some c) :
    c.kind = .directory ∧ v.capTable.freeHead ≠ freeEnd ∧
      (createDirHandle middle pid v storage inode address).2.objects c.object =
        some (.dir inode) := by
  rcases @createDirHandle_cases pid v middle storage inode address with refused | made
  · rw [refused] at held
    exact absurd (quiet_caps before held) new
  · rw [made] at held ⊢
    exact inserted_caps valid running before (by decide) held new

theorem createFileHandle_caps (valid : WellFormed v.capTable) (running : k.vipers pid = some v)
    (held : capAt (createFileHandle k pid v storage inode flags address).2 x = some c)
    (new : capAt k x ≠ some c) :
    c.kind = .file ∧ ∃ offset,
      (createFileHandle k pid v storage inode flags address).2.objects c.object =
        some (.file inode flags offset) := by
  rcases @createFileHandle_cases pid v k storage inode flags address with refused | ⟨offset, made⟩
  · rw [refused] at held
    exact absurd held new
  · rw [made] at held ⊢
    obtain ⟨kind, _, object⟩ := inserted_caps valid running (quiet_refl k) (by decide) held new
    exact ⟨kind, offset, object⟩

/-- A service whose channel is open leads to that channel. A full table leads to nothing,
although the name is then looked up as that of a directory. -/
theorem getService_caps (valid : WellFormed v.capTable) (running : k.vipers pid = some v)
    (present : Assign.findAssign k.assigns name = some i)
    (service : (k.assigns i).flagged Assign.assignService = true)
    (opened : (findChannelById k.channels (k.assigns i).channelId).isSome = true)
    (gets : Gets k pid v storage name address after) (held : capAt after x = some c)
    (new : capAt k x ≠ some c) : Refers after c (.service (k.assigns i).channelId) := by
  cases gets with
  | missing absent => cases present.symm.trans absent
  | directory same closed =>
    cases present.symm.trans same
    simp [closed service] at opened
  | @service _ channels same _ added =>
    cases present.symm.trans same
    have quiet : Quiet k { k with channels } := ⟨rfl, addEndpointRef_sheds added⟩
    obtain ⟨kind, _, object⟩ := inserted_caps valid running quiet (by decide) held new
    exact ⟨kind, object⟩
  | crowded same _ added full =>
    have quiet := quiet_trans (wrapped_quiet added address) (deleteObject_quiet _ address)
    have room := (createDirHandle_caps valid running quiet held new).2.1
    exact absurd full (insert_obtained valid room _ _ _)

theorem sysAssignGet_caps (valid : WellFormed v.capTable) (running : k.vipers pid = some v)
    (straight : ∀ entry, Assign.lookup k.assigns name = some entry →
      if entry.flagged Assign.assignService then
        (findChannelById k.channels entry.channelId).isSome = true
      else entry.fs = .null)
    (held : capAt (sysAssignGet k pid v storage name address).2 x = some c)
    (new : capAt k x ≠ some c) :
    ∃ entry, Assign.lookup k.assigns name = some entry ∧
      Refers (sysAssignGet k pid v storage name address).2 c entry.bound.binding := by
  cases present : Assign.findAssign k.assigns name with
  | none => simp [sysAssignGet, getChannel, present, found, assignGet, new] at held
  | some i =>
    have entry : Assign.lookup k.assigns name = some (k.assigns i) := by
      simp [Assign.lookup, present]
    have suited := straight _ entry
    refine ⟨k.assigns i, entry, ?_⟩
    by_cases service : (k.assigns i).flagged Assign.assignService = true
    · rw [if_pos service] at suited
      have refers := getService_caps valid running present service suited
        (sysAssignGet_gets k pid v storage name address) held new
      simpa [Assign.AssignEntry.bound, service] using refers
    · rw [if_neg service] at suited
      have looked : (sysAssignGet k pid v storage name address).2 =
          (createDirHandle k pid v storage (k.assigns i).dirInode address).2 := by
        simp [sysAssignGet, getChannel, present, service, found, assignGet]
      rw [looked] at held ⊢
      obtain ⟨kind, _, object⟩ := createDirHandle_caps valid running (quiet_refl k) held new
      simp only [Assign.AssignEntry.bound, service, Bool.false_eq_true, if_false]
      exact ⟨kind, suited, object⟩

theorem resolvePath_caps (valid : WellFormed v.capTable) (running : k.vipers pid = some v)
    (straight : ∀ name remainder entry, Assign.parseAssign path = some (name, remainder) →
      Assign.lookup k.assigns name = some entry →
        entry.flagged Assign.assignService = false ∧ entry.fs = .null)
    (held : capAt (resolvePath k pid v storage path flags address).2 x = some c)
    (new : capAt k x ≠ some c) :
    ∃ name remainder entry, Assign.parseAssign path = some (name, remainder) ∧
      Assign.lookup k.assigns name = some entry ∧
      (c.kind = .directory ∧ (resolvePath k pid v storage path flags address).2.objects c.object =
          some (.dir (below storage entry.dirInode remainder)) ∨
        c.kind = .file ∧ ∃ offset,
          (resolvePath k pid v storage path flags address).2.objects c.object =
            some (.file (below storage entry.dirInode remainder) flags offset)) := by
  cases parsed : Assign.parseAssign path with
  | none => simp [resolvePath, parsed, new] at held
  | some parts =>
    obtain ⟨name, remainder⟩ := parts
    cases present : Assign.findAssign k.assigns name with
    | none => simp [resolvePath, parsed, present, new] at held
    | some i =>
      have entry : Assign.lookup k.assigns name = some (k.assigns i) := by
        simp [Assign.lookup, present]
      obtain ⟨_, disk⟩ := straight name remainder _ parsed entry
      refine ⟨name, remainder, k.assigns i, rfl, entry, ?_⟩
      unfold resolvePath at held ⊢
      simp only [parsed, present, disk, diskOf] at held ⊢
      by_cases zero : (k.assigns i).dirInode = 0
      · simp [zero, new] at held
      rw [if_neg zero] at held ⊢
      by_cases bare : components remainder = []
      · rw [if_pos bare] at held ⊢
        obtain ⟨kind, _, object⟩ := createDirHandle_caps valid running (quiet_refl k) held new
        exact .inl ⟨kind, by simpa [below, bare, walkPathComponents] using object⟩
      rw [if_neg bare] at held ⊢
      by_cases lost : walkPathComponents storage.env storage.system (components remainder)
          (k.assigns i).dirInode.toNat = 0
      · simp [lost, new] at held
      rw [if_neg lost] at held ⊢
      cases read : ViperFs.readInode storage.env storage.system
          (walkPathComponents storage.env storage.system (components remainder)
            (k.assigns i).dirInode.toNat) with
      | none => simp [read, new] at held
      | some record =>
        simp only [read] at held ⊢
        by_cases isDir : record.isDirectory = true
        · rw [if_pos isDir] at held ⊢
          obtain ⟨kind, _, object⟩ :=
            createDirHandle_caps valid running (quiet_refl k) held new
          exact .inl ⟨kind, object⟩
        · rw [if_neg isDir] at held ⊢
          exact .inr (createFileHandle_caps valid running held new)

end Lookups

-- Steps

structure Kept (s : Watched) : Prop where
  sane : Sane s.1
  numbered : Numbered s.1
  records : Assign.Records s.1.assigns s.2
  known : ∀ name id system, s.2 (Assign.fold name) = some ⟨.service id, system⟩ →
    id.toNat < s.1.channels.nextChannelId.toNat

variable {s : Watched} {label : Label} {new : Option Assign.Bound} {assigns : Assign.Assigns}

section Steps

variable {t : Watched}

theorem passing_kept (kept : Kept s) (sane : Sane t.1) (passes : Passes s.1 t.1)
    (same : t.2 = s.2) : Kept t := by
  refine ⟨sane, passes_numbered kept.numbered passes, ?_, ?_⟩
  · rw [passes.assigns, same]
    exact kept.records
  · intro name id system bound
    rw [same] at bound
    exact Nat.lt_of_lt_of_le (kept.known name id system bound) passes.channels.counter

theorem passing_honest (kept : Kept s) (passes : Passes s.1 t.1) (same : t.2 = s.2)
    (get : ∀ storage name address, label.call = .assignGet storage name address →
      ∀ x c, capAt t.1 x = some c → capAt s.1 x ≠ some c →
        ∃ entry, Assign.lookup s.1.assigns name = some entry ∧ Refers t.1 c entry.bound.binding)
    (resolve : ∀ storage path flags address,
      label.call = .assignResolve storage path flags address →
      ∀ x c, capAt t.1 x = some c → capAt s.1 x ≠ some c →
        ∃ name remainder entry, Assign.parseAssign path = some (name, remainder) ∧
          Assign.lookup s.1.assigns name = some entry ∧
          (entry.flagged Assign.assignService = false ∧ entry.fs = .null) ∧
          (c.kind = .directory ∧ t.1.objects c.object =
              some (.dir (below storage entry.dirInode remainder)) ∨
            c.kind = .file ∧ ∃ offset, t.1.objects c.object =
              some (.file (below storage entry.dirInode remainder) flags offset))) :
    Honest s label t := by
  have agrees := kept.records.agrees
  constructor
  case get =>
    intro storage name address call x c held new
    obtain ⟨entry, present, refers⟩ := get storage name address call x c held new
    exact ⟨entry.bound, by rw [agrees, present, Option.map_some], refers⟩
  case resolve =>
    intro storage path flags address call x c held new
    obtain ⟨name, remainder, entry, parsed, present, ⟨service, disk⟩, refers⟩ :=
      resolve storage path flags address call x c held new
    refine ⟨name, remainder, entry.dirInode, entry.flagged Assign.assignSystem, parsed, ?_, refers⟩
    rw [agrees, present]
    simp [Assign.AssignEntry.bound, service, disk]
  case others =>
    intro other _
    rw [passes.assigns, same]
    exact ⟨rfl, rfl⟩
  case system =>
    intro name b bound _
    rw [passes.assigns, same]
    exact ⟨rfl, bound⟩
  case recorded =>
    intro name
    rw [passes.assigns, same]
    exact agrees name
  case numbers =>
    intro name id system bound slot opened number
    rcases passes.channels.slots slot opened with ⟨before, unchanged⟩ | ⟨above, _⟩
    · exact ⟨before, unchanged.trans number⟩
    · -- a new channel has a number that no name is bound to
      have known := kept.known name id system bound
      rw [number] at above
      omega

theorem subject_no_lookup {call : Call} (subject : call.subject = some name) :
    (∀ storage other address, call ≠ .assignGet storage other address) ∧
      ∀ storage path flags address, call ≠ .assignResolve storage path flags address := by
  constructor <;> intros <;> rintro rfl <;> cases subject

theorem rebinding_honest (kept : Kept s) (sane : Sane t.1)
    (subject : label.call.subject = some name)
    (rebinds : Assign.Rebinds s.1.assigns s.2 name new assigns)
    (given : ∀ id system, new = some ⟨.service id, system⟩ →
      id.toNat < s.1.channels.nextChannelId.toNat)
    (result : t = ({ s.1 with assigns }, update s.2 (Assign.fold name) new)) :
    Kept t ∧ Honest s label t := by
  subst result
  have lookups := subject_no_lookup subject
  refine ⟨⟨sane, ⟨kept.numbered.slots, kept.numbered.objects⟩, rebinds.records, ?_⟩, ?_⟩
  · intro other id system bound
    by_cases same : Assign.fold other = Assign.fold name
    · simp only [same, update_self] at bound
      exact given id system bound
    · simp only [update_of_ne same] at bound
      exact kept.known other id system bound
  · constructor
    case get =>
      intro storage other address call
      exact absurd call (lookups.1 _ _ _)
    case resolve =>
      intro storage path flags address call
      exact absurd call (lookups.2 _ _ _ _)
    case others =>
      intro other away
      have different := away name subject
      exact ⟨rebinds.others other different, update_of_ne different _ _⟩
    case system =>
      intro other b bound locked
      have different : Assign.fold other ≠ Assign.fold name := by
        intro same
        rw [same] at bound
        have unlocked := rebinds.unlocked b bound
        rw [locked] at unlocked
        cases unlocked
      exact ⟨rebinds.others other different, (update_of_ne different _ _).trans bound⟩
    case recorded => exact rebinds.records.agrees
    case numbers =>
      intro other id system _ slot opened number
      exact ⟨opened, number⟩

theorem refused_honest (kept : Kept s)
    (subject : label.call.subject = some name) (result : t = s) : Kept t ∧ Honest s label t := by
  subst result
  obtain ⟨get, resolve⟩ := subject_no_lookup subject
  exact ⟨kept, passing_honest kept (passes_refl _) rfl
    (fun _ _ _ call => absurd call (get _ _ _)) fun _ _ _ _ call => absurd call (resolve _ _ _ _)⟩

end Steps

variable {registry : Assign.Registry} {h : Handle} {outcome : Outcome}
  {result : Except Assign.AssignError Unit}

section Binding

variable {t : Watched}

section

variable (kept : Kept (k, registry)) (sane : Sane t.1)

include kept sane

theorem assignSet_honest (running : k.vipers pid = some v)
    (straight : Straight (k, registry) ⟨pid, .assignSet name h flags⟩)
    (performed : sysAssignSet k v name h flags = some (outcome, t.1))
    (registered : t.2 = register k v registry (.assignSet name h flags)) :
    Kept t ∧ Honest (k, registry) ⟨pid, .assignSet name h flags⟩ t := by
  have outcomes := performed
  unfold sysAssignSet at performed
  simp only [register, boundTo, outcomes] at registered
  cases asDirectory : getChecked v.capTable h .directory with
  | some e =>
    have plain := straight.2 v e running asDirectory
    simp only [asDirectory] at performed registered
    obtain ⟨inode, named, made⟩ := Option.map_eq_some_iff.mp performed
    simp only [named, Option.map_some] at registered
    cases set : Assign.set k.assigns name inode flags .null with
    | error error =>
      simp only [set, assigned, Prod.mk.injEq] at made
      rw [← made.1] at registered
      exact refused_honest kept rfl (Prod.ext made.2.symm registered)
    | ok assigns =>
      simp only [set, assigned, Prod.mk.injEq] at made
      rw [← made.1] at registered
      have rebinds := Assign.set_rebinds kept.records set
      simp only [plain, ne_eq, not_true_eq_false, if_false] at rebinds
      exact rebinding_honest kept sane rfl rebinds (by simp) (Prod.ext made.2.symm registered)
  | none =>
    simp only [asDirectory] at performed registered
    cases asChannel : getChecked v.capTable h .channel with
    | none =>
      simp only [asChannel, Option.some.injEq, Prod.mk.injEq] at performed registered
      exact refused_honest kept rfl (Prod.ext performed.2.symm registered)
    | some e =>
      simp only [asChannel] at performed registered
      obtain ⟨id, named, made⟩ := Option.map_eq_some_iff.mp performed
      simp only [named, Option.map_some] at registered
      cases set : Assign.setChannel k.assigns name id flags with
      | error error =>
        simp only [set, assigned, Prod.mk.injEq] at made
        rw [← made.1] at registered
        exact refused_honest kept rfl (Prod.ext made.2.symm registered)
      | ok assigns =>
        simp only [set, assigned, Prod.mk.injEq] at made
        rw [← made.1] at registered
        refine rebinding_honest kept sane rfl (Assign.setChannel_rebinds kept.records set)
          ?_ (Prod.ext made.2.symm registered)
        intro number system same
        cases same
        unfold channelOf at named
        split at named
        next object =>
          cases named
          exact kept.numbered.objects _ _ _ object
        · cases named

theorem assignAdd_honest (straight : Straight (k, registry) ⟨pid, .assignAdd name inode⟩)
    (performed : Assign.add k.assigns name inode = some (result, assigns))
    (after : t.1 = { k with assigns })
    (registered : t.2 = register k v registry (.assignAdd name inode)) :
    Kept t ∧ Honest (k, registry) ⟨pid, .assignAdd name inode⟩ t := by
  simp only [register, performed] at registered
  cases present : Assign.findAssign k.assigns name with
  | none =>
    rcases Assign.add_rebinds kept.records present performed with
      ⟨rfl, rebinds⟩ | ⟨refused, rfl⟩
    · exact rebinding_honest kept sane rfl rebinds (by simp) (Prod.ext after registered)
    · cases result with
      | ok done => exact absurd rfl refused
      | error error => exact refused_honest kept rfl (Prod.ext after registered)
  | some i =>
    have system := straight.2 (k.assigns i) (by simp [Assign.lookup, present])
    simp only [Assign.add, present, system, if_true, Option.some.injEq, Prod.mk.injEq] at performed
    obtain ⟨rfl, rfl⟩ := performed
    exact refused_honest kept rfl (Prod.ext after registered)

theorem assignRemove_honest (performed : t.1 = (sysAssignRemove k name).2)
    (registered : t.2 = register k v registry (.assignRemove name)) :
    Kept t ∧ Honest (k, registry) ⟨pid, .assignRemove name⟩ t := by
  simp only [register] at registered
  cases removed : Assign.remove k.assigns name with
  | error error =>
    simp only [sysAssignRemove, removed, assigned] at performed registered
    exact refused_honest kept rfl (Prod.ext performed registered)
  | ok assigns =>
    simp only [sysAssignRemove, removed, assigned] at performed registered
    exact rebinding_honest kept sane rfl (Assign.remove_rebinds kept.records removed) (by simp)
      (Prod.ext performed registered)

end

end Binding

theorem step_honest {t : Watched} (kept : Kept s) (straight : Straight s label)
    (step : WatchedStep s label t) :
    Kept t ∧ Honest s label t := by
  obtain ⟨k, registry⟩ := s
  obtain ⟨pid, call⟩ := label
  obtain ⟨taken, v, running, registered⟩ := step
  have sane := step_sane kept.sane taken
  obtain ⟨_, w, present, performs⟩ := taken
  rw [running] at present
  cases present
  have valid := kept.sane.tables pid v running
  -- the calls that bind names come first, the others leave the assigns alone
  by_cases binds : Binds call
  · cases call with
    | assignSet name h flags =>
      obtain ⟨outcome, performed⟩ := performs
      exact assignSet_honest kept sane running straight performed registered
    | assignAdd name inode =>
      obtain ⟨result, assigns, performed, after⟩ := performs
      exact assignAdd_honest kept sane straight performed after registered
    | assignRemove name => exact assignRemove_honest kept sane performs registered
    | _ => exact absurd binds id
  · have passes := performs_passes kept.numbered straight.1 binds performs
    have same : t.2 = registry := by
      cases call <;> first | exact registered | exact absurd trivial binds
    refine ⟨passing_kept kept sane passes same, passing_honest kept passes same ?_ ?_⟩
    · intro storage name address called x c held new
      cases called
      rw [performs] at held ⊢
      exact sysAssignGet_caps valid running straight.2 held new
    · intro storage path flags address called x c held new
      cases called
      rw [performs] at held ⊢
      obtain ⟨name, remainder, entry, parsed, present, refers⟩ :=
        resolvePath_caps valid running straight.2 held new
      exact ⟨name, remainder, entry, parsed, present, straight.2 _ _ _ parsed present, refers⟩

variable {history : List (Label × Watched)} {call : Call}

theorem trace_honest (kept : Kept s) (trace : Trace (Guarded Straight WatchedStep) s history) :
    Trace Honest s history := by
  induction history generalizing s with
  | nil => trivial
  | cons head rest ih =>
    obtain ⟨⟨straight, step⟩, tail⟩ := trace
    obtain ⟨next, honest⟩ := step_honest kept straight step
    exact ⟨honest, ih next tail⟩

def bootAssigns (userFs : Assign.FsPointer) (paths : List (Assign.Name × UInt64))
    (rootInode : UInt64) : Assign.Assigns :=
  Assign.setupStandardAssigns userFs paths (Assign.init rootInode)

theorem boot_kept (pids : List Nat) (userFs : Assign.FsPointer)
    (paths : List (Assign.Name × UInt64)) (rootInode : UInt64) :
    Kept (boot pids (bootAssigns userFs paths rootInode),
      Assign.registryOf (bootAssigns userFs paths rootInode)) := by
  obtain ⟨registry, records, directories⟩ :=
    Assign.standard_directories userFs paths (Assign.init_directories rootInode)
  refine ⟨boot_sane _ _, boot_numbered _ _, Assign.records_own records, ?_⟩
  intro name id system bound
  have agrees := (Assign.records_own records).agrees name
  have same : registry (Assign.fold name) = some ⟨.service id, system⟩ := by
    rw [records.agrees, ← agrees]
    exact bound
  obtain ⟨inode, fs, directory⟩ := directories _ _ same
  cases directory

/-- From boot on, names are honest in every history whose calls find what they must. -/
theorem names_never_forge {pids : List Nat} {userFs : Assign.FsPointer}
    {paths : List (Assign.Name × UInt64)} {rootInode : UInt64} {history : List (Label × Watched)}
    (trace : Trace (Guarded Straight WatchedStep) (boot pids (bootAssigns userFs paths rootInode),
        Assign.registryOf (bootAssigns userFs paths rootInode)) history) :
    Trace Honest (boot pids (bootAssigns userFs paths rootInode),
        Assign.registryOf (bootAssigns userFs paths rootInode)) history :=
  trace_honest (boot_kept pids userFs paths rootInode) trace

-- Process 1 has two channels. It registers the second under a name and looks it up. Or
-- process 2 opens the root directory, inode 2, and registers that as a service.

def serviceName : Assign.Name := [0x58]

def namesBooted : Kernel := boot [1, 2] (bootAssigns .null [] 2)

def oneMade : Kernel :=
  (sysChannelCreate namesBooted 1 (viperOf namesBooted 1) 0x1000 0x2000).2

def twoMade : Kernel := (sysChannelCreate oneMade 1 (viperOf oneMade 1) 0x3000 0x4000).2

def channelNamed : Kernel :=
  ((sysAssignSet twoMade (viperOf twoMade 1) serviceName 3 0).map Prod.snd).getD twoMade

def channelLookedUp : Kernel :=
  (sysAssignGet channelNamed 1 (viperOf channelNamed 1) smallStorage serviceName 0x6000).2

def rootHeld : Kernel := (sysFsOpenRoot twoMade 2 (viperOf twoMade 2) smallStorage 0x5000).2

def rootNamed : Kernel :=
  ((sysAssignSet rootHeld (viperOf rootHeld 2) serviceName 1 Assign.assignService).map
    Prod.snd).getD rootHeld

def channelForged : Kernel :=
  (sysAssignGet rootNamed 2 (viperOf rootNamed 2) smallStorage serviceName 0x6000).2

theorem watched_step (present : (k.vipers pid).isSome = true)
    (fresh : freshlyAddressed k call = true)
    (performs : Performs k pid (viperOf k pid) call after) :
    WatchedStep (k, registry) ⟨pid, call⟩ (after, register k (viperOf k pid) registry call) :=
  ⟨checked_step present fresh performs, _, viperOf_running present, rfl⟩

def bootRegistry : Assign.Registry := Assign.registryOf (bootAssigns .null [] 2)

def channelRegistry : Assign.Registry :=
  register twoMade (viperOf twoMade 1) bootRegistry (.assignSet serviceName 3 0)

def rootRegistry : Assign.Registry :=
  register rootHeld (viperOf rootHeld 2) bootRegistry
    (.assignSet serviceName 1 Assign.assignService)

/-- The name leads to the channel registered under it. -/
theorem registered_channel_found :
    channelRegistry (Assign.fold serviceName) = some ⟨.service 2, false⟩ ∧
      capAt channelLookedUp (.slot 1 5) = some ⟨0x6000, .channel, channelAssignRights⟩ ∧
      channelLookedUp.objects 0x6000 = some (.channel 2 endpointSend) ∧
      Honest (channelNamed, channelRegistry)
        ⟨1, .assignGet smallStorage serviceName 0x6000⟩ (channelLookedUp, channelRegistry) := by
  have facts : (oneMade.vipers 1).isSome ∧ (twoMade.vipers 1).isSome ∧
      (channelNamed.vipers 1).isSome ∧
      freshlyAddressed namesBooted (.channelCreate 0x1000 0x2000) ∧
      freshlyAddressed oneMade (.channelCreate 0x3000 0x4000) ∧
      freshlyAddressed channelNamed (.assignGet smallStorage serviceName 0x6000) ∧
      (sysAssignSet twoMade (viperOf twoMade 1) serviceName 3 0).isSome ∧
      namesBooted.channels.nextChannelId ≠ 0xFFFFFFFF ∧
      oneMade.channels.nextChannelId ≠ 0xFFFFFFFF ∧
      getChecked (viperOf twoMade 1).capTable 3 .directory = none ∧
      ((Assign.lookup channelNamed.assigns serviceName).map fun entry =>
        (entry.flagged Assign.assignService,
          (findChannelById channelNamed.channels entry.channelId).isSome)) =
        some (true, true) := by
    decide
  obtain ⟨one, two, named, atBoot, atOne, atNamed, defined, first, second, other, service⟩ := facts
  have sets : Straight (twoMade, bootRegistry) ⟨1, .assignSet serviceName 3 0⟩ := by
    refine ⟨trivial, ?_⟩
    intro v e running got
    cases running
    cases got
  have gets : Straight (channelNamed, channelRegistry)
      ⟨1, .assignGet smallStorage serviceName 0x6000⟩ := by
    refine ⟨trivial, ?_⟩
    intro entry present
    simp only [present, Option.map_some, Option.some.injEq, Prod.mk.injEq] at service
    rw [if_pos service.1]
    exact service.2
  have trace : Trace (Guarded Straight WatchedStep) (namesBooted, bootRegistry)
      [(⟨1, .channelCreate 0x1000 0x2000⟩, (oneMade, bootRegistry)),
        (⟨1, .channelCreate 0x3000 0x4000⟩, (twoMade, bootRegistry)),
        (⟨1, .assignSet serviceName 3 0⟩, (channelNamed, channelRegistry)),
        (⟨1, .assignGet smallStorage serviceName 0x6000⟩, (channelLookedUp, channelRegistry))] :=
    ⟨⟨⟨first, trivial⟩, watched_step rfl atBoot rfl⟩,
      ⟨⟨second, trivial⟩, watched_step one atOne rfl⟩,
      ⟨sets, watched_step two rfl (performed_some defined)⟩,
      ⟨gets, watched_step named atNamed rfl⟩, trivial⟩
  exact ⟨by decide, by decide, by decide, (names_never_forge trace).2.2.2.1⟩

/-- The root directory registered as a service leads to the channel whose number is the
inode of the root, which belongs to another process. -/
theorem directory_forges_channel : Trace WatchedStep (namesBooted, bootRegistry)
        [(⟨1, .channelCreate 0x1000 0x2000⟩, (oneMade, bootRegistry)),
          (⟨1, .channelCreate 0x3000 0x4000⟩, (twoMade, bootRegistry)),
          (⟨2, .fsOpenRoot smallStorage 0x5000⟩, (rootHeld, bootRegistry)),
          (⟨2, .assignSet serviceName 1 Assign.assignService⟩, (rootNamed, rootRegistry)),
          (⟨2, .assignGet smallStorage serviceName 0x6000⟩, (channelForged, rootRegistry))] ∧
      rootRegistry (Assign.fold serviceName) = some ⟨.directory 2 .null, false⟩ ∧
      capAt channelForged (.slot 2 2) = some ⟨0x6000, .channel, channelAssignRights⟩ ∧
      channelForged.objects 0x6000 = some (.channel 2 endpointSend) ∧
      ¬ Honest (rootNamed, rootRegistry) ⟨2, .assignGet smallStorage serviceName 0x6000⟩
        (channelForged, rootRegistry) := by
  have facts : (oneMade.vipers 1).isSome ∧ (twoMade.vipers 2).isSome ∧
      (rootHeld.vipers 2).isSome ∧ (rootNamed.vipers 2).isSome ∧
      freshlyAddressed namesBooted (.channelCreate 0x1000 0x2000) ∧
      freshlyAddressed oneMade (.channelCreate 0x3000 0x4000) ∧
      freshlyAddressed twoMade (.fsOpenRoot smallStorage 0x5000) ∧
      freshlyAddressed rootNamed (.assignGet smallStorage serviceName 0x6000) ∧
      (sysAssignSet rootHeld (viperOf rootHeld 2) serviceName 1 Assign.assignService).isSome ∧
      rootRegistry (Assign.fold serviceName) = some ⟨.directory 2 .null, false⟩ ∧
      capAt rootNamed (.slot 2 2) = none ∧
      capAt channelForged (.slot 2 2) = some ⟨0x6000, .channel, channelAssignRights⟩ ∧
      channelForged.objects 0x6000 = some (.channel 2 endpointSend) := by
    decide
  obtain ⟨one, two, root, named, atBoot, atOne, atTwo, atNamed, defined, bound, vacant, held,
    object⟩ := facts
  refine ⟨⟨watched_step rfl atBoot rfl, watched_step one atOne rfl, watched_step two atTwo rfl,
    watched_step root rfl (performed_some defined), watched_step named atNamed rfl, trivial⟩,
    bound, held, object, ?_⟩
  intro honest
  obtain ⟨b, registered, refers⟩ := honest.get _ _ _ rfl _ _ held (by simp [vacant])
  cases registered.symm.trans bound
  cases refers.1

end ViperDos.Ipc
