import OnDemandFs.Fault.Basic
import OnDemandFs.Table
import OnDemandFs.Text.Utf8

/-!
# A disk: a tree of names over physical files

Names and bodies are kept apart. `objects` says what each place of the tree holds, and a place that
holds a file only holds its number; `bodies` says what each file contains. So a file outlives its
name: whoever knows the number still reads it after the name was given to another file or removed,
and a number is never given out twice. A place counts only if every place above it is a directory;
the walk of `Disk.spot` sees to that.

The clock never gives the same reading twice, as its nanoseconds count the readings.
-/
namespace OnDemandFs

abbrev Name := Bytes

/-- A place in the tree: the names that lead to it, from the top. -/
abbrev Location := List Name

abbrev FileId := Nat

/-- Seconds since the epoch, negative before it, and nanoseconds on top. -/
structure Timestamp where
  seconds : Int
  nanos : Nat := 0
deriving DecidableEq, Repr

/-- The time that a whole number of seconds stands for. -/
def Timestamp.ofSeconds (seconds : Int) : Timestamp := ⟨seconds, 0⟩

inductive Object where
  | file (id : FileId)
  | directory (mtime : Timestamp)
  | link (target : Bytes) (mtime : Timestamp)
  | pipe (mtime : Timestamp)
deriving DecidableEq, Repr

structure Body where
  content : Bytes
  mtime : Timestamp
deriving DecidableEq, Repr

/-- `user` is the number of the user that everything here runs as; only places that belong to
another user are in `foreign`. -/
structure Disk where
  objects : Table Location Object
  bodies : Table FileId Body
  nextFile : FileId
  clock : Timestamp
  user : Nat := 0
  foreign : Table Location Nat := []
deriving Repr

namespace Disk

/-- A disk with nothing but its top directory. -/
def empty (clock : Timestamp) : Disk :=
  { objects := [([], .directory clock)], bodies := [], nextFile := 1, clock := clock }

def owner (d : Disk) (l : Location) : Nat := (d.foreign.get? l).getD d.user

def at? (d : Disk) (l : Location) : Option Object := d.objects.get? l

def body? (d : Disk) (id : FileId) : Option Body := d.bodies.get? id

def content (d : Disk) (id : FileId) : Bytes :=
  match d.body? id with
  | some b => b.content
  | none => []

def isDirectoryAt (d : Disk) (l : Location) : Bool :=
  match d.at? l with
  | some (.directory _) => true
  | _ => false

/-- The reading of the clock, and the disk after it. -/
def tick (d : Disk) : Timestamp × Disk :=
  (d.clock, { d with clock := { d.clock with nanos := d.clock.nanos + 1 } })

/-- Note in a directory that its names changed. -/
def touch (d : Disk) (l : Location) : Disk :=
  let (now, d) := d.tick
  match d.at? l with
  | some (.directory _) => { d with objects := d.objects.set l (.directory now) }
  | _ => d

/-- Put an object at a place, in front of whatever stood there. -/
def put (d : Disk) (l : Location) (o : Object) : Disk :=
  { d with objects := d.objects.set l o }.touch l.dropLast

/-- Give the place a new file with the given content. -/
def create (d : Disk) (l : Location) (content : Bytes) : FileId × Disk :=
  let (now, d) := d.tick
  let id := d.nextFile
  (id, { d with bodies := d.bodies.set id ⟨content, now⟩, nextFile := id + 1 }.put l (.file id))

/-- Change the content of a file and keep the file. -/
def overwrite (d : Disk) (id : FileId) (content : Bytes) : Disk :=
  let (now, d) := d.tick
  { d with bodies := d.bodies.set id ⟨content, now⟩ }

def setFileTime (d : Disk) (id : FileId) (t : Timestamp) : Disk :=
  match d.body? id with
  | some b => { d with bodies := d.bodies.set id { b with mtime := t } }
  | none => d

/-- Take the name at a place away. The file it led to keeps its body. -/
def unlink (d : Disk) (l : Location) : Disk :=
  { d with objects := d.objects.erase l }.touch l.dropLast

/-- Take away every name strictly below a place. -/
def clear (d : Disk) (l : Location) : Disk :=
  { d with objects := d.objects.filter fun row => ¬ (l <+: row.1) ∨ row.1 = l }.touch l

/-- Names and objects directly below a place, in no particular order. -/
def children (d : Disk) (l : Location) : List (Name × Object) :=
  d.objects.filterMap fun (place, o) =>
    match place.getLast? with
    | some n => if place.dropLast = l then some (n, o) else none
    | none => none

end Disk
end OnDemandFs
