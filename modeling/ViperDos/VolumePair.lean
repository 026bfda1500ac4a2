import ViperDos.Remounting

/-!
The system volume and the user volume side by side. Each has a cache of its own, but there is
one journal. It lies on the system volume, and the creation of a file on either volume uses
it. What happens to the user volume is up to the operations on it alone. What happens to the
system volume is up to the operations on it alone as long as no operation on the user volume
begins a transaction or writes the header of the journal.
-/

namespace ViperDos.ViperFs

open ByteRecords Transition

inductive Side where
  | system
  | user
  deriving DecidableEq

structure Pair where
  system : Volume
  user : Volume
  journal : Journal

inductive Action where
  | perform (op : FsOp)
  | mount
  | unmount

structure Event where
  side : Side
  env : Env
  action : Action

section

variable (pair : Pair)

def Pair.view : Side → FileSystem
  | .system => ⟨true, pair.system, pair.journal, pair.user.disk⟩
  | .user => ⟨false, pair.user, pair.journal, pair.system.disk⟩

def Pair.put (fs : FileSystem) : Side → Pair
  | .system => ⟨fs.vol, { pair.user with disk := fs.external }, fs.journal⟩
  | .user => ⟨{ pair.system with disk := fs.external }, fs.vol, fs.journal⟩

def FileSystem.act (env : Env) (fs : FileSystem) : Action → FileSystem
  | .perform op => fs.perform env op
  | .mount => (ViperFs.mount env fs).2
  | .unmount => ViperFs.unmount env fs

def Pair.perform (event : Event) : Pair :=
  pair.put ((pair.view event.side).act event.env event.action) event.side

/-- The creation of a file ends before it begins a transaction, or there is none to begin. -/
def Unbegun (env : Env) (fs : FileSystem) (ino : Nat) (name : List UInt8) : Prop :=
  fs.journal.begin.1 = false ∨ ∀ dir, readInode env fs.vol ino = some dir →
    dir.isDirectory = false ∨ (lookup env fs.vol dir name).1 ≠ 0

/-- The header of the journal is not written, or not changed by it. -/
def HeaderKept (env : Env) (pair : Pair) : Prop :=
  pair.user.mounted = false ∨ pair.journal.enabled = false ∨ (env.answers 0).given = false ∨
    pair.system.disk pair.journal.journalStart = encodeHeader pair.journal.header

/-- An operation on the user volume keeps off the journal. -/
def Unjournaled (event : Event) : Prop :=
  event.side = .user →
    match event.action with
    | .perform (.create ino name) => Unbegun event.env (pair.view .user) ino name
    | .unmount => HeaderKept event.env pair
    | _ => True

def Pair.Step (event : Event) (after : Pair) : Prop := after = pair.perform event

def Pair.only (side : Side) (events : List Event) : Pair :=
  (events.filter fun event => decide (event.side = side)).foldl Pair.perform pair

end

variable {env : Env} {vol : Volume} {dir : Inode} {name : List UInt8} {action : Action}
  {event : Event} {start last : Pair} {events : List Event}

section

variable {pair : Pair}

/-- The volume after a creation does not depend on the journal. -/
theorem createBody_volume (env : Env) (vol : Volume) (first second : Journal) (dir : Inode)
    (name : List UInt8) :
    (createBody env vol first dir name).2.2.1 = (createBody env vol second dir name).2.2.1 := by
  unfold createBody
  dsimp only
  split
  · rfl
  split
  · rfl
  split
  · rfl
  split
  · rfl
  split
  · rfl
  · rfl

theorem createFile_volume (first second : Journal) (here there : Disk) (vol : Volume) (dir : Inode)
    (name : List UInt8) :
    (FileSystem.createFile env ⟨false, vol, first, here⟩ dir name).vol =
      (FileSystem.createFile env ⟨false, vol, second, there⟩ dir name).vol := by
  have user : ∀ (journal : Journal) (disk : Disk),
      (FileSystem.createFile env ⟨false, vol, journal, disk⟩ dir name).vol =
        (createBody env vol journal dir name).2.2.1 := by
    intro journal disk
    simp only [FileSystem.createFile, Bool.false_eq_true, if_false]
    split
    next body => rw [body]
    next body => rw [body]
  rw [user, user, createBody_volume env vol first second]

/-- What an event on the user volume makes of it is up to the volume. -/
theorem user_alone (first second : Journal) (here there : Disk) (vol : Volume) (action : Action) :
    (FileSystem.act env ⟨false, vol, first, here⟩ action).vol =
      (FileSystem.act env ⟨false, vol, second, there⟩ action).vol := by
  cases action with
  | mount =>
    simp only [FileSystem.act, mount]
    split
    · rfl
    · simp
  | unmount =>
    simp only [FileSystem.act, unmount]
    split
    · rfl
    · simp
  | perform op =>
    cases op with
    | create ino name =>
      simp only [FileSystem.act, FileSystem.perform]
      split
      · rfl
      · exact createFile_volume ..
    | _ =>
      simp only [FileSystem.act, FileSystem.perform]
      split <;> rfl

theorem system_alone (here there : Disk) (vol : Volume) (journal : Journal) (action : Action) :
    FileSystem.act env ⟨true, vol, journal, here⟩ action =
      { FileSystem.act env ⟨true, vol, journal, there⟩ action with external := here } := by
  cases action with
  | mount =>
    simp only [FileSystem.act, mount]
    split
    · rfl
    · split <;> rfl
  | unmount =>
    simp only [FileSystem.act, unmount]
    split <;> rfl
  | perform op =>
    cases op with
    | create ino name =>
      simp only [FileSystem.act, FileSystem.perform]
      split <;> rfl
    | _ =>
      simp only [FileSystem.act, FileSystem.perform]
      split <;> rfl

variable {journal : Journal}

theorem begin_refused (refused : journal.begin.1 = false) : journal.begin = (false, journal) := by
  unfold Journal.begin at refused ⊢
  split at refused
  next closed => rw [if_pos closed]
  next opened =>
  rw [if_neg opened]
  split at refused
  next busy => rw [if_pos busy]
  · cases refused

/-- A creation that begins no transaction leaves the journal as it is. -/
theorem createBody_unbegun
    (unbegun : journal.begin.1 = false ∨ dir.isDirectory = false ∨ (lookup env vol dir name).1 ≠ 0)
      : (createBody env vol journal dir name).2.2.2 = (journal, false) := by
  rcases unbegun with refused | other | existing
  · have unchanged : (if journal.enabled = true then journal.begin else (false, journal)) =
        (false, journal) := by
      split
      · exact begin_refused refused
      · rfl
    unfold createBody
    rw [unchanged]
    dsimp only [abortIf, Bool.false_and]
    split
    · rfl
    split
    · rfl
    split
    · rfl
    split
    · rfl
    split
    · rfl
    · rfl
  · unfold createBody
    rw [other, Bool.not_false, Bool.or_true, if_pos rfl]
  unfold createBody
  split
  · rfl
  · dsimp only
    rw [if_pos existing]

/-- An event on the user volume that keeps off the journal leaves the journal and the disk it
is on as they are. -/
theorem user_unjournaled (kept : Unjournaled pair ⟨.user, env, action⟩) :
    ((pair.view .user).act env action).external = pair.system.disk ∧
      ((pair.view .user).act env action).journal = pair.journal := by
  have allowed := kept rfl
  cases action with
  | mount =>
    simp only [FileSystem.act, mount, Pair.view, Bool.false_eq_true, false_and, if_false]
    split <;> exact ⟨rfl, rfl⟩
  | unmount =>
    simp only [FileSystem.act, unmount, Pair.view, Bool.false_eq_true, if_false]
    split
    · exact ⟨rfl, rfl⟩
    next mounted =>
    refine ⟨?_, rfl⟩
    dsimp only [Journal.sync, Journal.writeHeader]
    rcases allowed with off | closed | refused | same
    · rw [off] at mounted
      exact absurd rfl mounted
    · rw [if_neg (by rw [closed]; exact Bool.false_ne_true)]
    · rw [refused]
      split <;> rfl
    split
    · split
      · rw [syncBlock, ← same]
        exact Function.update_eq_self _ _
      · rfl
    · rfl
  | perform op =>
    cases op with
    | create ino name =>
      simp only [FileSystem.act, FileSystem.perform, Pair.view]
      split
      · exact ⟨rfl, rfl⟩
      next dir found =>
      have ends : (createBody env pair.user pair.journal dir name).2.2.2 =
          (pair.journal, false) :=
        createBody_unbegun (allowed.imp_right fun stops => stops dir found)
      simp only [FileSystem.createFile, Bool.false_eq_true, if_false]
      split <;> rename_i body <;> rw [body] at ends
      · exact ⟨rfl, congrArg Prod.fst ends⟩
      · cases ends
    | _ =>
      simp only [FileSystem.act, FileSystem.perform, Pair.view]
      split <;> exact ⟨rfl, rfl⟩

theorem perform_system (side : event.side = .system) : (pair.perform event).user = pair.user := by
  obtain ⟨_, env, action⟩ := event
  cases side
  simp only [Pair.perform, Pair.put, Pair.view]
  rw [system_alone pair.user.disk pair.user.disk]

theorem perform_user (side : event.side = .user) (kept : Unjournaled pair event) :
    (pair.perform event).system = pair.system ∧ (pair.perform event).journal = pair.journal := by
  obtain ⟨_, env, action⟩ := event
  cases side
  obtain ⟨disk, journal⟩ := user_unjournaled kept
  simp only [Pair.perform, Pair.put, disk, journal, and_self]

theorem user_projected {guard : Pair → Event → Prop}
    (run : Run (Guarded guard Pair.Step) start events last) :
    last.user = (start.only .user events).user := by
  refine run_projected Pair.user ?_ ?_ run rfl
  · rintro left right ⟨side, env, action⟩ own same
    cases of_decide_eq_true own
    dsimp only [Pair.perform, Pair.put, Pair.view]
    rw [same]
    exact user_alone ..
  · intro state event other _
    refine perform_system ?_
    cases side : event.side with
    | system => rfl
    | user => exact absurd side (of_decide_eq_false other)

theorem system_projected (run : Run (Guarded Unjournaled Pair.Step) start events last) :
    (last.system, last.journal) =
      ((start.only .system events).system, (start.only .system events).journal) := by
  refine run_projected (fun pair : Pair => (pair.system, pair.journal)) ?_ ?_ run rfl
  · rintro left right ⟨side, env, action⟩ own same
    cases of_decide_eq_true own
    obtain ⟨volume, journal⟩ := Prod.mk.inj same
    dsimp only [Pair.perform, Pair.put, Pair.view]
    rw [volume, journal]
    rw [system_alone left.user.disk right.user.disk]
  · intro state event other kept
    have side : event.side = .user := by
      cases side : event.side with
      | system => exact absurd side (of_decide_eq_false other)
      | user => rfl
    obtain ⟨volume, journal⟩ := perform_user side kept
    exact Prod.ext volume journal

/-- After any events of which those on the user volume keep off the journal, each volume is what
the events on it alone make of it, and the next event leaves the other volume as it is. -/
theorem volumes_independent
    (run : Run (Guarded Unjournaled Pair.Step) start events last) :
    last.system = (start.only .system events).system ∧ last.user = (start.only .user events).user ∧
      ∀ event, Unjournaled last event →
        (event.side = .user → (last.perform event).system = last.system) ∧
          (event.side = .system → (last.perform event).user = last.user) := by
  refine ⟨(Prod.mk.inj (system_projected run)).1, user_projected run, fun event kept => ?_⟩
  exact ⟨fun side => (perform_user side kept).1, perform_system⟩

end

theorem unmount_system (env : Env) (fs : FileSystem) : (unmount env fs).system = fs.system := by
  unfold unmount
  split
  · rfl
  · split <;> rfl

def remounting : List Event := [⟨.system, quietEnv, .unmount⟩, ⟨.system, quietEnv, .mount⟩]

theorem remounting_system (pair : Pair) : (remounting.foldl Pair.perform pair).system =
      (remount quietEnv quietEnv (pair.view .system)).vol := by
  have again : (pair.put (unmount quietEnv (pair.view .system)) .system).view .system =
      unmount quietEnv (pair.view .system) := by
    have system := unmount_system quietEnv (pair.view .system)
    generalize unmount quietEnv (pair.view .system) = fs at system ⊢
    obtain ⟨_, vol, journal, external⟩ := fs
    cases system
    rfl
  exact congrArg (fun fs => (mount quietEnv fs).2.vol) again

def twoImages : Pair := ⟨firstMount.vol, firstMount.vol, firstMount.journal⟩

def userCreates : Event := ⟨.user, quietEnv, .perform (.create rootInode fileName)⟩

def bothWork : List Event := [⟨.system, quietEnv, .perform (.create rootInode fileName)⟩,
  ⟨.user, quietEnv, .perform (.mkdir rootInode [0x64])⟩, ⟨.system, quietEnv, .unmount⟩]

/-- A file is created on the system volume and a directory on the user's. -/
theorem user_directory_stays : ∃ last : Pair,
    Run (Guarded Unjournaled Pair.Step) twoImages bothWork last ∧
      last.system = (twoImages.only .system bothWork).system ∧
      last.user = (twoImages.only .user bothWork).user := by
  have run : Run (Guarded Unjournaled Pair.Step) twoImages bothWork
      (bothWork.foldl Pair.perform twoImages) :=
    .next ⟨nofun, rfl⟩ (.next ⟨fun _ => trivial, rfl⟩ (.next ⟨nofun, rfl⟩ (.refl _)))
  exact ⟨_, run, (volumes_independent run).1, (volumes_independent run).2.1⟩

def spilled : Logging :=
  Logging.perform ⟨beforeCommit.journal, firstMount.vol.disk, []⟩ (.commit quietEnv.ticks)

variable {ino num : Nat} {committed : List Images} {pair : Pair}

theorem create_spills {fs : FileSystem} (user : fs.system = false)
    (found : readInode env fs.vol ino = some dir)
    (logged : (createBody env fs.vol fs.journal dir name).2.2.2.2 = true) :
    let body := createBody env fs.vol fs.journal dir name
    let result := body.2.2.2.1.commit env.ticks env.answers ⟨fs.external, []⟩
    fs.perform env (.create ino name) = ⟨fs.system, body.2.2.1, result.2.1, result.2.2.disk⟩ := by
  intro body result
  have body_eq : createBody env fs.vol fs.journal dir name =
      (body.1, body.2.1, body.2.2.1, body.2.2.2.1, true) := by
    rw [← logged]
  unfold FileSystem.perform
  dsimp only
  rw [found]
  dsimp only [FileSystem.createFile]
  rw [if_neg (by rw [user]; exact Bool.false_ne_true), body_eq]

theorem userCreates_spills : twoImages.perform userCreates =
    ⟨{ firstMount.vol with disk := spilled.disk }, createdBody.2.2.1, spilled.journal⟩ := by
  obtain ⟨logged, _⟩ := beforeCommit_state
  have found : readInode quietEnv firstMount.vol rootInode = some rootDir := by
    have mounted : firstMount.vol.mounted = true := firstMount_idle.mounted
    simp [readInode, mounted, quietEnv_serves.reads _, rootDir]
  have creates := @create_spills quietEnv rootDir fileName rootInode (twoImages.view .user) rfl
    found logged
  exact congrArg (fun fs => twoImages.put fs .user) creates

/-- What the events make of a system volume with the size of the new image. -/
theorem remounting_restored {start : Disk} (attached : Attached (pair.view .system))
    (journaled : Journaled (pair.view .system)) (place : journalStartOf pair.system.sb = 240)
    (total : pair.system.sb.totalBlocks = 256)
    (ordered : Ordered 240 journalBlocks start ⟨pair.journal, pair.system.disk, committed⟩)
    (short : pair.journal.header.tail ≤ 3) (low : num < 240) :
    (remounting.foldl Pair.perform pair).system.disk num =
      (WriteLog.lastWrite committed.flatten num).getD (unmountedDisk (pair.view .system) num) := by
  have inside : journalStartOf pair.system.sb + 1 + pair.journal.header.tail <
      pair.system.sb.totalBlocks := by
    omega
  rw [← place] at ordered low
  rw [remounting_system]
  exact remount_restored quietEnv_serves quietEnv_serves attached journaled ordered inside num
    (.inl low)

/-- The system volume before and after the creation: the journal is in its place. -/
theorem twoImages_state : (Attached (twoImages.view .system) ∧ Journaled (twoImages.view .system)) ∧
      (Attached ((twoImages.perform userCreates).view .system) ∧
        Journaled ((twoImages.perform userCreates).view .system)) ∧
      journalStartOf firstMount.vol.sb = 240 ∧ firstMount.vol.sb.totalBlocks = 256 ∧
      spilled.journal.header.tail = 3 ∧ firstMount.journal.enabled = true ∧
      firstMount.journal.journalStart = 240 ∧
      firstMount.journal.header = ⟨journalMagic, 1, 0, 241, 15, 0, 0⟩ ∧
      firstMount.journal.currentTxn.active = false ∧
      decodeHeader (firstMount.vol.disk 240) = ⟨journalMagic, 1, 0, 241, 15, 0, 0⟩ ∧
      getLE 4 (firstMount.vol.disk 2) 776 = 0 := by
  decide +kernel

theorem spilled_committed : ∃ image : Block, spilled.committed = [[(2, image)]] ∧
    getLE 4 image 776 = typeFile := by
  obtain ⟨image, images, mode⟩ := logged_image
  obtain ⟨_, _, _, _, _, _, active, _⟩ := beforeCommit_state
  have pends : pending beforeCommit.journal = [[(2, image)]] := by
    simp [pending, active, images]
  refine ⟨image, ?_, mode⟩
  rw [← pends]
  rfl

/-- The user creates a file, and the system volume is mounted again. The replay puts a piece of
the user's inode table into that of the system volume. -/
theorem spilled_replayed :
    getLE 4 ((remounting.foldl Pair.perform (twoImages.perform userCreates)).system.disk 2) 776 =
      typeFile := by
  obtain ⟨_, ⟨attached, journaled⟩, place, total, tail, _, _, _, _, stored, _⟩ := twoImages_state
  obtain ⟨image, complete, mode⟩ := spilled_committed
  have ordered : Ordered 240 journalBlocks firstMount.vol.disk
      ⟨spilled.journal, spilled.disk, spilled.committed⟩ := image_committed stored
  rw [userCreates_spills] at attached journaled ⊢
  rw [remounting_restored attached journaled place total ordered (Nat.le_of_eq tail) (by decide),
    complete]
  exact mode

theorem unspilled_replayed :
    getLE 4 ((remounting.foldl Pair.perform twoImages).system.disk 2) 776 = 0 := by
  obtain ⟨⟨attached, journaled⟩, _, place, total, _, enabled, start, header, idle, stored,
    blank⟩ := twoImages_state
  have ordered : Ordered 240 journalBlocks firstMount.vol.disk
      ⟨firstMount.journal, firstMount.vol.disk, []⟩ := by
    refine new_ordered enabled start (by rw [header]; rfl) stored fun active => ?_
    rw [idle] at active
    cases active
  have short : firstMount.journal.header.tail ≤ 3 := by
    rw [header]
    exact Nat.zero_le 3
  have apart : ¬ Rewritten (twoImages.view .system) 2 := by
    rintro (primary | backup | ⟨_, header⟩)
    · cases primary
    · rw [show (twoImages.view .system).vol.sb.totalBlocks = 256 from total] at backup
      cases backup
    · rw [show journalStartOf (twoImages.view .system).vol.sb = 240 from place] at header
      cases header
  have nothing : WriteLog.lastWrite ([] : List Images).flatten 2 = none := rfl
  rw [remounting_restored attached journaled place total ordered short (by decide), nothing,
    Option.getD_none, unmountedDisk_other apart]
  exact blank

theorem run_perform (pair : Pair) (events : List Event) :
    Run Pair.Step pair events (events.foldl Pair.perform pair) := by
  induction events generalizing pair with
  | nil => exact Run.refl _
  | cons event rest ih => exact Run.next rfl (ih _)

/-- The file of the user volume is in the inode table of the system volume after that has been
mounted again; without the event on the user volume it is not. -/
theorem user_file_reaches_system :
    ∃ last : Pair, Run Pair.Step twoImages (userCreates :: remounting) last ∧
      last.system ≠ (twoImages.only .system (userCreates :: remounting)).system := by
  refine ⟨_, run_perform _ _, fun same => ?_⟩
  have others : (userCreates :: remounting).filter (fun event => decide (event.side = .system)) =
      remounting := rfl
  rw [Pair.only, others, List.foldl_cons] at same
  have first := spilled_replayed
  rw [same, unspilled_replayed] at first
  cases first

end ViperDos.ViperFs
