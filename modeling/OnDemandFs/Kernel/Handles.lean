import OnDemandFs.Kernel.Attributes
import OnDemandFs.Mount

/-!
# Open handles

File handles given to the kernel, all numbered by one counter from 1: opened files, directories with
the listing that was taken when they were opened, the control file of the attached helper, and
requests. Reading the control file announces a request by its number; until it is opened under that
number the request is *pending*. Releasing an opened request closes it, and releasing the control
file detaches the helper and closes what is pending. What was opened stays open.

Operations that touch the broker take it and give it back.
-/
namespace OnDemandFs

abbrev Handle := Nat

/-- One entry of an opened directory. -/
structure Slot where
  inode : Inode
  type : FileType
  name : String
deriving DecidableEq, Repr

structure ControlFile where
  handle : Handle
  session : SessionId
deriving DecidableEq, Repr

structure Handles where
  last : Handle := 0
  files : Table Handle Opened := []
  directories : Table Handle (List Slot) := []
  control : Option ControlFile := none
  /-- Announced and not opened yet. -/
  pending : Table RequestId RequestHandle := []
  requests : Table Handle RequestHandle := []
  /-- The physical file of each node at its last open. -/
  generations : Table NodeId FileId := []
deriving Repr

namespace Handles

def allocate (t : Handles) : Handle × Handles := (t.last + 1, { t with last := t.last + 1 })

/-- Keep an opened file. The flag says that the node is still backed by the physical file of its
last open. -/
def insertFile (t : Handles) (f : Opened) : Handle × Bool × Handles :=
  let keep := t.generations.get? f.node.id = some f.file
  let t := { t with generations := t.generations.set f.node.id f.file }
  let (h, t) := t.allocate
  (h, keep, { t with files := t.files.set h f })

def file? (t : Handles) (h : Handle) : Option Opened := t.files.get? h

def releaseFile (t : Handles) (h : Handle) : Bool × Handles :=
  (t.files.has h, { t with files := t.files.erase h })

def openFiles (t : Handles) : Nat := t.files.length

def insertDirectory (t : Handles) (slots : List Slot) : Handle × Handles :=
  let (h, t) := t.allocate
  (h, { t with directories := t.directories.set h slots })

/-- The entries of a directory under an inode: itself, its parent, and its listing. -/
def slotsOf (ids : Identities) (inode : Inode) (dir : Path) (listing : List Listed) : List Slot :=
  let parent := (ids.idOf? dir.parent).getD rootId
  ⟨inode, .directory, "."⟩ :: ⟨parent, .directory, ".."⟩ ::
    listing.map fun e => ⟨e.id, .ofKind e.kind, e.name⟩

/-- The directory of requests lists nothing else: requests are reachable by name only. -/
def requestSlots : List Slot :=
  [⟨requestsInode, .directory, "."⟩, ⟨rootId, .directory, ".."⟩]

/-- The entries after an offset, each with the offset that resumes after it. A negative offset is
the start. -/
def directoryPage? (t : Handles) (h : Handle) (offset : Int) : Option (List (Nat × Slot)) :=
  (t.directories.get? h).map fun slots =>
    ((slots.zipIdx 1).map fun (slot, next) => (next, slot)).drop offset.toNat

def releaseDirectory (t : Handles) (h : Handle) : Bool × Handles :=
  (t.directories.has h, { t with directories := t.directories.erase h })

/-- Attach as the helper through the control file. -/
def attachControl (t : Handles) (b : Broker) (now : Nat) :
    Except Fault (Handle × Handles × Broker) := do
  let (session, b) ← b.attach now
  let (h, t) := t.allocate
  return (h, { t with control := some ⟨h, session⟩ }, b)

/-- The session behind a handle, if it is that of the control file. -/
def controlSession? (t : Handles) (h : Handle) : Option SessionId :=
  match t.control with
  | some c => if c.handle = h then some c.session else none
  | none => none

def isAttached (t : Handles) : Bool := t.control.isSome

/-- Detach the helper; requests that were announced but never opened are closed unanswered. -/
def releaseControl (t : Handles) (b : Broker) (h : Handle) : Bool × Handles × Broker :=
  match t.controlSession? h with
  | none => (false, t, b)
  | some session =>
    let b := t.pending.values.foldl (fun b r => b.close r.request) (b.detach session)
    (true, { t with control := none, pending := [] }, b)

/-- Keep a request that was read from the control file. -/
def deliver (t : Handles) (r : RequestHandle) : RequestId × Handles :=
  (r.request, { t with pending := t.pending.set r.request r })

/-- What reading the control file shows of a request. -/
def announcement (id : RequestId) : Bytes := Utf8.encode (toString id ++ " ")

/-- How many bytes a request yields: its path and a NUL. -/
def sizeOf (r : RequestHandle) : Nat := (Utf8.encode r.path.text).length + 1

def requestSize? (t : Handles) (id : RequestId) : Option Nat :=
  match t.pending.get? id with
  | some r => some (sizeOf r)
  | none => (t.requests.values.find? (·.request = id)).map sizeOf

def openRequest (t : Handles) (id : RequestId) : Option (Handle × Handles) :=
  match t.pending.get? id with
  | none => none
  | some r =>
    let (h, t) := { t with pending := t.pending.erase id }.allocate
    some (h, { t with requests := t.requests.set h r })

def readRequest (t : Handles) (h : Handle) : Option (Bytes × Handles) :=
  match t.requests.get? h with
  | none => none
  | some r =>
    let (bytes, r) := r.read
    some (bytes, { t with requests := t.requests.set h r })

/-- Closing a request handle completes the request. -/
def releaseRequest (t : Handles) (b : Broker) (h : Handle) : Bool × Handles × Broker :=
  match t.requests.get? h with
  | none => (false, t, b)
  | some r => (true, { t with requests := t.requests.erase h }, b.close r.request)

/-- Let go of everything at once. -/
def dropAll (t : Handles) (b : Broker) : Broker :=
  let b := match t.control with
    | some c => b.detach c.session
    | none => b
  let b := t.pending.values.foldl (fun b r => b.close r.request) b
  t.requests.values.foldl (fun b r => b.close r.request) b

end Handles
end OnDemandFs
