import Mathlib.Logic.Function.Basic
import Mathlib.Algebra.Group.Nat.Defs

/-!
The table of assigns, kernel/assign/assign.cpp: logical names for directories and for
the channels of services. A name is the bytes of a C string. The inode of a directory
and the number of a channel share one word of an entry. The entries of a
multi-directory assign are chained, and a pointer to an entry is its index.
-/

namespace ViperDos.Assign

open Function

def maxAssigns : Nat := 64
def maxAssignName : Nat := 31

def assignNone : UInt32 := 0
def assignSystem : UInt32 := (1 : UInt32) <<< 0
def assignMulti : UInt32 := (1 : UInt32) <<< 2
def assignService : UInt32 := (1 : UInt32) <<< 3

abbrev Name := List UInt8

/-- The file system of an entry: a null pointer stands for the system disk. -/
inductive FsPointer where
  | null | user
  deriving DecidableEq

structure AssignEntry where
  name : Name
  word : UInt64
  fs : FsPointer
  flags : UInt32
  next : Option Nat
  active : Bool

namespace AssignEntry

section

variable (entry : AssignEntry)

def dirInode : UInt64 := entry.word

def channelId : UInt32 := entry.word.toUInt32

def setDirInode (inode : UInt64) : AssignEntry := { entry with word := inode }

/-- The channel number is the low half of the word; the high half stays. -/
def setChannelId (id : UInt32) : AssignEntry :=
  { entry with word := (entry.word &&& 0xFFFFFFFF00000000) ||| id.toUInt64 }

def flagged (flag : UInt32) : Bool := entry.flags &&& flag ≠ 0

end

end AssignEntry

abbrev Assigns := Nat → AssignEntry

inductive AssignError where
  | notFound | invalidName | readOnly | tableFull | invalidHandle
  deriving DecidableEq

def lower (c : UInt8) : UInt8 := if 0x41 ≤ c ∧ c ≤ 0x5A then c + 32 else c

def strEqNocase : Name → Name → Bool
  | [], [] => true
  | a :: restA, b :: restB => if lower a ≠ lower b then false else strEqNocase restA restB
  | _, _ => false

section

variable (table : Assigns) (name : Name)

def findAssign : Option Nat :=
  (List.range maxAssigns).find? fun i => (table i).active && strEqNocase (table i).name name

def findFreeSlot (table : Assigns) : Option Nat :=
  (List.range maxAssigns).find? fun i => !(table i).active

def validName (name : Name) : Bool := name ≠ [] ∧ name.length ≤ maxAssignName

def set (dirInode : UInt64) (flags : UInt32) (fs : FsPointer) : Except AssignError Assigns :=
  if !validName name then .error .invalidName
  else
    match findAssign table name with
    | some i =>
      if (table i).flagged assignSystem then .error .readOnly
      else .ok (update table i { (table i).setDirInode dirInode with fs, flags })
    | none =>
      match findFreeSlot table with
      | none => .error .tableFull
      | some i =>
        .ok (update table i
          { (table i).setDirInode dirInode with name, fs, flags, next := none, active := true })

/-- The part of `set_channel` after the handle has been looked up. A new entry keeps the
file system pointer the slot was left with. -/
def setChannel (id : UInt32) (flags : UInt32) : Except AssignError Assigns :=
  if !validName name then .error .invalidName
  else
    match findAssign table name with
    | some i =>
      if (table i).flagged assignSystem then .error .readOnly
      else
        .ok (update table i
          { (table i).setChannelId id with flags := flags ||| assignService })
    | none =>
      match findFreeSlot table with
      | none => .error .tableFull
      | some i =>
        .ok (update table i
          { (table i).setChannelId id with
            name, flags := flags ||| assignService, next := none, active := true })

/-- The last entry of a chain. A chain of more entries than the table has goes round in
a circle, and the loop of the source with it. -/
def chainEnd (table : Assigns) : Nat → Nat → Option Nat
  | 0, _ => none
  | fuel + 1, i =>
    match (table i).next with
    | none => some i
    | some next => chainEnd table fuel next

/-- `none` when the call does not return. -/
def add (dirInode : UInt64) : Option (Except AssignError Unit × Assigns) :=
  match findAssign table name with
  | none =>
    match set table name dirInode assignMulti .null with
    | .ok after => some (.ok (), after)
    | .error e => some (.error e, table)
  | some i =>
    if (table i).flagged assignSystem then some (.error .readOnly, table)
    else
      let marked := update table i
        { table i with flags := (table i).flags ||| assignMulti }
      (chainEnd marked (maxAssigns + 1) i).map fun tail =>
        match findFreeSlot marked with
        | none => (.error .tableFull, marked)
        | some new =>
          let filled := update marked new
            { (marked new).setDirInode dirInode with
              name, fs := .null, flags := assignMulti, next := none, active := true }
          (.ok (), update filled tail { filled tail with next := some new })

/-- The loop of `remove` over a chain. It clears the links it follows, so one turn more
than there are entries is enough. -/
def removeChain : Nat → Assigns → Nat → Assigns
  | 0, table, _ => table
  | fuel + 1, table, i =>
    let cleared := update table i
      { (table i).setDirInode 0 with active := false, name := [], next := none }
    match (table i).next with
    | none => cleared
    | some next => removeChain fuel cleared next

def remove : Except AssignError Assigns :=
  match findAssign table name with
  | none => .error .notFound
  | some i =>
    if (table i).flagged assignSystem then .error .readOnly
    else .ok (removeChain (maxAssigns + 1) table i)

def blank : Assigns := fun _ =>
  { name := [], word := 0, fs := .null, flags := assignNone, next := none, active := false }

def sysName : Name := [0x53, 0x59, 0x53]
def d0Name : Name := [0x44, 0x30]

def setOr (dirInode : UInt64) (flags : UInt32) (fs : FsPointer) : Assigns :=
  match set table name dirInode flags fs with
  | .ok after => after
  | .error _ => table

end

def init (rootInode : UInt64) : Assigns :=
  setOr (setOr blank sysName rootInode assignSystem .null) d0Name rootInode assignSystem .null

/-- The loop of `setup_standard_assigns`; each name comes with the inode its path was
resolved to, 0 where there is none. -/
def setupStandardAssigns (userFs : FsPointer) : List (Name × UInt64) → Assigns → Assigns
  | [], table => table
  | (name, inode) :: rest, table =>
    setupStandardAssigns userFs rest
      (if inode ≠ 0 then setOr table name inode assignSystem userFs else table)

def parseAssign (path : List UInt8) : Option (Name × List UInt8) :=
  match path.dropWhile (· ≠ 0x3A) with
  | [] => none
  | _ :: remainder =>
    let name := path.takeWhile (· ≠ 0x3A)
    if name = [] ∨ maxAssignName < name.length then none else some (name, remainder)

def isSeparator (c : UInt8) : Bool := c = 0x2F || c = 0x5C

end ViperDos.Assign
