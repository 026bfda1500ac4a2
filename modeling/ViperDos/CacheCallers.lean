import ViperDos.BlockCache

/-!
Callers of the block cache side by side. What a caller is in the middle of is an
activity: a load that waits for its transfers, a write-back of `sync`, `invalidate` or
`pin`, or a block it has got and not released. A move is one locked part of a function or one
transfer, and any activity may move next, so a run is any interleaving of any number of
callers. Beside the cache the system records the latest contents of every block: those of
the last modification that was made through the cache.
-/

namespace ViperDos.BlockCache

variable {Data : Type}

inductive Stage where
  /-- The entry is reserved, and what it held before is still to be written. -/
  | evict (writeBack : Nat) (why : Purpose)
  | load (why : Purpose)
  | loaded (why : Purpose) (ok : Bool)
  | hold
  /-- `sync` is to write the entry, and then those of the list. -/
  | flush (rest : List Nat)
  | flushed (rest : List Nat)
  | purge
  | purged
  /-- `pin` is to write the entry before it takes it for another block. -/
  | spill (wanted : Nat)
  | spilled (wanted : Nat)
  deriving DecidableEq

structure Activity where
  entry : Nat
  num : Nat
  stage : Stage
  deriving DecidableEq

structure System (Data : Type) where
  cache : Cache Data
  active : List Activity
  latest : Nat → Data

def boot (disk memory : Nat → Data) : System Data := ⟨init disk memory, [], disk⟩

inductive Move (Data : Type) where
  | get (forWrite : Bool) (num : Nat)
  | write (a : Activity) (ok : Bool)
  | read (a : Activity) (ok : Bool)
  | finish (a : Activity)
  | modify (a : Activity) (data : Data)
  | release (a : Activity)
  | sync
  | invalidate (num : Nat)
  | pin (num : Nat)
  | unpin (num : Nat)

def purposeOf (forWrite : Bool) : Purpose := if forWrite then .write else .read

def reserved (writeBack : Option Nat) (why : Purpose) : Stage :=
  match writeBack with
  | some num => .evict num why
  | none => .load why

def advance (active : List Activity) (a : Activity) (stage : Stage) : List Activity :=
  { a with stage } :: active.erase a

def flushNext (s : System Data) (todo : List Nat) : System Data :=
  match nextDirty s.cache todo with
  | none => s
  | some (entry, rest) =>
    { s with
      cache := addRef s.cache entry
      active := ⟨entry, (s.cache.blocks entry).blockNum, .flush rest⟩ :: s.active }

def pinLoad (s : System Data) (num entry : Nat) : System Data :=
  { s with
    cache := touch (reserve s.cache num entry) entry
    active := ⟨entry, num, .load .pin⟩ :: s.active }

def finishStage (s : System Data) (a : Activity) : Option (System Data) :=
  let others := s.active.erase a
  match a.stage with
  | .loaded why ok =>
    some { s with
      cache := finishLoad s.cache why a.num a.entry ok
      active := if ok ∧ why ≠ .pin then { a with stage := .hold } :: others else others }
  | .flushed rest =>
    some (flushNext { s with cache := markClean s.cache a.entry, active := others } rest)
  | .purged =>
    some { s with cache := discard (markClean s.cache a.entry) a.entry, active := others }
  | .spilled wanted =>
    some (pinLoad { s with cache := markClean s.cache a.entry, active := others } wanted a.entry)
  | _ => none

def writeOf (a : Activity) : Option (Nat × Stage) :=
  match a.stage with
  | .evict writeBack why => some (writeBack, .load why)
  | .flush rest => some (a.num, .flushed rest)
  | .purge => some (a.num, .purged)
  | .spill wanted => some (a.num, .spilled wanted)
  | _ => none

def perform (s : System Data) : Move Data → Option (System Data)
  | .get forWrite num =>
    match lookup s.cache forWrite num with
    | .busy => some s
    | .full => some s
    | .hit entry cache =>
      some { s with cache, active := ⟨entry, num, .hold⟩ :: s.active }
    | .miss entry writeBack cache =>
      some { s with
        cache
        active := ⟨entry, num, reserved writeBack (purposeOf forWrite)⟩ :: s.active }
  | .write a ok =>
    if a ∈ s.active then
      (writeOf a).map fun (num, stage) =>
        { s with
          cache := writeBlock s.cache num a.entry ok
          active := advance s.active a stage }
    else none
  | .read a ok =>
    match a.stage with
    | .load why =>
      if a ∈ s.active then
        some { s with
          cache := readBlock s.cache a.num a.entry ok
          active := advance s.active a (.loaded why ok) }
      else none
    | _ => none
  | .finish a => if a ∈ s.active then finishStage s a else none
  | .modify a data =>
    if a ∈ s.active ∧ a.stage = .hold then
      some { s with
        cache := modify s.cache a.entry data
        latest := Function.update s.latest a.num data }
    else none
  | .release a =>
    if a ∈ s.active ∧ a.stage = .hold then
      some { s with cache := release s.cache a.entry, active := s.active.erase a }
    else none
  | .sync => some (flushNext s (dirtyIndices s.cache))
  | .invalidate num =>
    match find s.cache num with
    | none => some s
    | some entry =>
      if (s.cache.blocks entry).dirty then
        some { s with
          cache := addRef s.cache entry
          active := ⟨entry, num, .purge⟩ :: s.active }
      else some { s with cache := discard s.cache entry }
  | .pin num =>
    match find s.cache num with
    | some entry => some { s with cache := setPinned s.cache entry true }
    | none =>
      match findEvictionVictim s.cache with
      | none => some s
      | some entry =>
        if isDirty s.cache entry then
          some { s with
            cache := addRef s.cache entry
            active := ⟨entry, (s.cache.blocks entry).blockNum, .spill num⟩ :: s.active }
        else some (pinLoad s num entry)
  | .unpin num =>
    match find s.cache num with
    | none => some s
    | some entry => some { s with cache := setPinned s.cache entry false }

end ViperDos.BlockCache
