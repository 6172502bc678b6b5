import OnDemandFs.Disk.Walk

/-!
# Changes to the disk by path

Each change returns the disk and whether it succeeded; a failed change may have made directories on
the way, and nothing else. `publish` is the one change of several steps: make the directory, stage
the content under a fresh name in it, and move the staged file to its target in one step. It is
given as a machine that makes one step at a time, so that the disk between two steps can be spoken
of; `publish` runs it to its end.
-/
namespace OnDemandFs.Disk

abbrev Outcome (α : Type) := Disk × Except IoFault α

def systemFault {α : Type} (n : Errno) : Except IoFault α := .error (.system n)

/-- Make one directory. -/
def makeDirectory (d : Disk) (path : List Name) : Outcome Unit :=
  match d.spot false path with
  | .error fault => (d, .error fault)
  | .ok place =>
    if (d.at? place).isSome then (d, systemFault Errno.alreadyExists)
    else
      let (now, d) := d.tick
      (d.put place (.directory now), .ok ())

/-- Make a directory and what is missing above it; the path is given from its end. -/
def makeDirectoriesUp (d : Disk) : List Name → Outcome Unit
  | [] => (d, .ok ())
  | n :: up =>
    let path := (n :: up).reverse
    let settle (r : Outcome Unit) : Outcome Unit :=
      match r with
      | (d, .error fault) => if d.isDirectory path then (d, .ok ()) else (d, .error fault)
      | (d, .ok ()) => (d, .ok ())
    match d.makeDirectory path with
    | (d, .error (.system 2)) =>
      match makeDirectoriesUp d up with
      | (d, .ok ()) => settle (d.makeDirectory path)
      | (d, .error fault) => (d, .error fault)
    | r => settle r

def makeDirectories (d : Disk) (path : List Name) : Outcome Unit := d.makeDirectoriesUp path.reverse

/-- Open for writing: the file that a path leads to, made empty if there is none. -/
def openToWrite (d : Disk) (path : List Name) : Outcome (Option FileId) :=
  match d.spot true path with
  | .error fault => (d, .error fault)
  | .ok place =>
    match d.at? place with
    | some (.file id) => (d, .ok (some id))
    | some (.directory _) => (d, systemFault Errno.isDirectory)
    | some _ => (d, .ok none)
    | none =>
      let (id, d) := d.create place []
      (d, .ok (some id))

/-- Replace the content of a file in place. -/
def writeInPlace (d : Disk) (path : List Name) (content : Bytes) : Outcome Unit :=
  match d.openToWrite path with
  | (d, .ok (some id)) => (d.overwrite id content, .ok ())
  | (d, .ok none) => (d, .ok ())
  | (d, .error fault) => (d, .error fault)

/-- Set the modification time of an existing file. -/
def setTime (d : Disk) (path : List Name) (t : Timestamp) : Outcome Unit :=
  match d.find true path with
  | .error fault => (d, .error fault)
  | .ok (_, .file id) => (d.setFileTime id t, .ok ())
  | .ok (_, .directory _) => (d, systemFault Errno.isDirectory)
  | .ok _ => (d, .ok ())

/-- Put a link or a pipe at a free place. -/
def makeSpecial (d : Disk) (path : List Name) (make : Timestamp → Object) : Outcome Unit :=
  match d.spot false path with
  | .error fault => (d, .error fault)
  | .ok place =>
    if (d.at? place).isSome then (d, systemFault Errno.alreadyExists)
    else
      let (now, d) := d.tick
      (d.put place (make now), .ok ())

/-- Remove a name, and all names below it if it is a directory. A directory reached through a
last `..` is only emptied: the name it would be removed by is gone with its content. -/
def remove (d : Disk) (path : List Name) : Outcome Unit :=
  match d.find false path with
  | .error fault => (d, .error fault)
  | .ok (place, .directory _) =>
    if path.getLast? = some above then (d.clear place, .ok ())
    else ((d.clear place).unlink place, .ok ())
  | .ok (place, _) => (d.unlink place, .ok ())

/-- Move a file from a place to a path in one step, over any object that is not a directory. -/
def moveOver (d : Disk) (source : Location) (id : FileId) (target : List Name) : Outcome Unit :=
  match d.spot false target with
  | .error .nulInName => (d, systemFault Errno.invalid)
  | .error fault => (d, .error fault)
  | .ok place =>
    if target.getLast? = some above then (d, systemFault Errno.busy)
    else if d.isDirectoryAt place then (d, systemFault Errno.isDirectory)
    else ((d.unlink source).put place (.file id), .ok ())

/-- Names of staging files start with four dots. -/
def stagingName (n : Nat) : Name := [46, 46, 46, 46] ++ (Nat.toDigits 10 n).map fun c => c.toUInt8

/-- The first staging name from number `n` on that is free in a directory, of so many tries. -/
def freshFrom (d : Disk) (dir : Location) : Nat → Nat → Name
  | 0, n => stagingName n
  | tries + 1, n =>
    if (d.at? (dir ++ [stagingName n])).isNone then stagingName n else freshFrom d dir tries (n + 1)

/-- A staging name that is free in a directory: of as many as there are objects and one more, one
is. -/
def freshStaging (d : Disk) (dir : Location) : Name :=
  d.freshFrom dir (d.objects.length + 1) d.nextFile

/-- Where a directory stands, to stage a file in it. A fault in that has lost its number. -/
def stagingSpot (d : Disk) (dir : List Name) : Except IoFault Location :=
  match d.spot true dir with
  | .error fault => .error (.other fault.message)
  | .ok place =>
    if HasRoom dir then .ok place else .error (.other (IoFault.system Errno.nameTooLong).message)

theorem stagingSpot_eq_ok_iff {d : Disk} {dir : List Name} {place : Location} :
    d.stagingSpot dir = .ok place ↔ d.spot true dir = .ok place ∧ HasRoom dir := by
  unfold stagingSpot
  cases d.spot true dir with
  | error fault => simp
  | ok q =>
      by_cases hroom : HasRoom dir
      · simp [hroom]
      · simp [hroom]

/-- How far a publication has come. -/
inductive Publication where
  | making
  | staging
  | writing (place : Location) (id : FileId)
  | moving (place : Location) (id : FileId)
  | discarding (place : Location) (fault : IoFault)
  | finished (result : Except IoFault Unit)

/-- One step of publishing `content` at `target`, staged in `dir`. -/
def Publication.advance (dir target : List Name) (content : Bytes) (d : Disk) :
    Publication → Disk × Publication
  | .making =>
    match d.makeDirectories dir with
    | (d, .ok ()) => (d, .staging)
    | (d, .error fault) => (d, .finished (.error fault))
  | .staging =>
    match d.stagingSpot dir with
    | .error fault => (d, .finished (.error fault))
    | .ok place =>
      let staged := place ++ [d.freshStaging place]
      let (id, d) := d.create staged []
      (d, .writing staged id)
  | .writing place id => (d.overwrite id content, .moving place id)
  | .moving place id =>
    match d.moveOver place id target with
    | (d, .ok ()) => (d, .finished (.ok ()))
    | (d, .error fault) => (d, .discarding place fault)
  | .discarding place fault => (d.unlink place, .finished (.error fault))
  | .finished r => (d, .finished r)

/-- The state of a publication after a number of steps. -/
def Publication.after (dir target : List Name) (content : Bytes) (d : Disk) :
    Nat → Disk × Publication
  | 0 => (d, .making)
  | n + 1 =>
    let (d', p) := Publication.after dir target content d n
    p.advance dir target content d'

/-- Every publication is finished after five steps. -/
def publish (d : Disk) (dir target : List Name) (content : Bytes) : Outcome Unit :=
  match Publication.after dir target content d 5 with
  | (d, .finished r) => (d, r)
  | (d, _) => (d, systemFault Errno.io)

end OnDemandFs.Disk
