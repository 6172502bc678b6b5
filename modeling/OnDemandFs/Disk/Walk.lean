import OnDemandFs.Disk.Basic

/-!
# Walking a path on the disk

A physical path is a list of names from the top, taken as they come: `..` goes one up from where
the walk really stands, empty names and `.` stay, and a link on the way is replaced by the names of
its target. At most forty links are followed. The last name may be missing, in which case the walk
ends at the free place it would take; `find` insists on an object there.

Before anything is looked up the whole path is checked: a NUL anywhere in it, or more bytes than a
path may have, fail it. A name is too long above 255 bytes, but only once the walk gets there.
-/
namespace OnDemandFs.Disk

def here : Name := [46]
def above : Name := [46, 46]
def slash : UInt8 := 47

/-- Where following a link target continues: from the top if it starts with a slash. -/
def linkStart (place : Location) (target : Bytes) : Location :=
  if target.head? = some slash then [] else place

def targetNames (target : Bytes) : List Name := target.splitOn slash

/-- Walk as far as no link has to be followed; `onLink` goes on from a link. -/
def walkWith (d : Disk) (followLast : Bool)
    (onLink : Location → List Name → Except Errno Location) :
    Location → List Name → Except Errno Location
  | place, [] => .ok place
  | place, n :: rest =>
    if ¬ d.isDirectoryAt place then
      .error (if (d.at? place).isSome then Errno.notDirectory else Errno.noEntry)
    else if n = [] ∨ n = here then walkWith d followLast onLink place rest
    else if n = above then walkWith d followLast onLink place.dropLast rest
    else if n.length > 255 then .error Errno.nameTooLong
    else match d.at? (place ++ [n]) with
      | some (.link target _) =>
        if rest.isEmpty && !followLast then .ok (place ++ [n])
        else onLink (linkStart place target) (targetNames target ++ rest)
      | some _ => walkWith d followLast onLink (place ++ [n]) rest
      | none => if rest.isEmpty then .ok (place ++ [n]) else .error Errno.noEntry

/-- Walk with a number of links left to follow. -/
def walk (d : Disk) (followLast : Bool) : Nat → Location → List Name → Except Errno Location
  | 0 => walkWith d followLast fun _ _ => .error Errno.tooManyLinks
  | links + 1 => walkWith d followLast (walk d followLast links)

def linkLimit : Nat := 40

def pathLimit : Nat := 4096

/-- The bytes of a path, a slash before each name. -/
def pathLength : List Name → Nat
  | [] => 0
  | n :: rest => n.length + 1 + pathLength rest

/-- There is room to stage a file in a directory: with a slash, the four dots and six more bytes the
path is not too long yet. -/
def HasRoom (dir : List Name) : Prop := pathLength dir + 11 < pathLimit

instance (dir : List Name) : Decidable (HasRoom dir) := inferInstanceAs (Decidable (_ < _))

/-- What is wrong with a path before any of it is looked up. -/
def pathFault? (path : List Name) : Option IoFault :=
  if path.any (·.contains 0) then some .nulInName
  else if pathLength path ≥ pathLimit then some (.system Errno.nameTooLong)
  else none

/-- The place that a path leads to, taken or free. -/
def spot (d : Disk) (followLast : Bool) (path : List Name) : Except IoFault Location :=
  match pathFault? path with
  | some fault => .error fault
  | none => (d.walk followLast linkLimit [] path).mapError .system

/-- The place and the object that a path leads to. -/
def find (d : Disk) (followLast : Bool) (path : List Name) :
    Except IoFault (Location × Object) := do
  let place ← d.spot followLast path
  match d.at? place with
  | some o => return (place, o)
  | none => .error (.system Errno.noEntry)

def isDirectory (d : Disk) (path : List Name) : Bool :=
  match d.find true path with
  | .ok (_, .directory _) => true
  | _ => false

/-- The content of the file that a path leads to. -/
def read (d : Disk) (path : List Name) : Except IoFault Bytes :=
  match d.find true path with
  | .ok (_, .file id) => .ok (d.content id)
  | .ok _ => .error (.system Errno.isDirectory)
  | .error cause => .error cause

/-- A name missing anywhere on the way, or something on the way that is not a directory. -/
def isMissing : IoFault → Bool
  | .system n => n = Errno.noEntry || n = Errno.notDirectory
  | _ => false

end OnDemandFs.Disk
