import OnDemandFs.Kernel.Handles

/-!
# Calls of the kernel

What the kernel asks of the file system, what it is told, and which calls can be answered at once.
A call that has to resolve a path or wait for a request is turned into what it waits for; the rest
is answered here. Names and inodes of the request directory come before those of the tree, and the
control file before ordinary files.
-/
namespace OnDemandFs

inductive KernelCall where
  | lookup (parent : Inode) (name : Bytes)
  | getattr (inode : Inode)
  | readlink (inode : Inode)
  | openFile (inode : Inode) (flags : Int)
  | openDirectory (inode : Inode)
  | read (handle : Handle) (offset : Int) (size : Nat)
  | release (handle : Handle)
  | releaseDirectory (handle : Handle)
  | readDirectory (handle : Handle) (offset : Int) (size : Nat)
  | destroy
deriving Repr

inductive KernelReply where
  | entry (attr : FileAttr) (ttl : Nat)
  | attr (attr : FileAttr) (ttl : Nat)
  | link (target : String)
  | opened (handle : Handle) (flags : Nat)
  | data (bytes : Bytes)
  | entries (page : List (Nat × Slot))
  | done
  | failed (errno : Errno)
deriving DecidableEq, Repr

/-- What the answer to a call is going to need. -/
inductive KernelNeed where
  /-- The node at a path, for an entry (or else for attributes alone). -/
  | node (path : Path) (forEntry : Bool)
  | link (path : Path)
  | file (path : Path)
  | listing (inode : Inode) (path : Path)
  /-- The next request of a session. -/
  | request (session : SessionId)
deriving Repr

/-- The kernel's side of a mount. Time to live is in milliseconds. -/
structure KernelSide where
  ttl : Nat := 1000
  destroyed : Bool := false
deriving DecidableEq, Repr

/-- What a call comes to: an answer, or something to wait for. -/
inductive KernelPlan where
  | answer (reply : KernelReply)
  | need (need : KernelNeed)
deriving Repr

namespace KernelSide

def requestsName : String := ".lazyfs-requests"

def controlPath : Path := Path.root.extend controlName

/-- Answers that bypass the page cache of the kernel, and opens that may keep it. -/
def bypassCache : Nat := 1
def keepCache : Nat := 2

def noEntry : KernelPlan := .answer (.failed Errno.noEntry)

/-- The attributes of a known request. -/
def requestAttr? (t : Handles) (started : Int) (id : RequestId) : Option FileAttr :=
  (t.requestSize? id).map fun size => .request id size started

def ofRequest (make : FileAttr → KernelReply) (attr : Option FileAttr) : KernelPlan :=
  match attr with
  | some a => .answer (make a)
  | none => noEntry

def withPath (ids : Identities) (inode : Inode) (f : Path → KernelPlan) : KernelPlan :=
  match ids.pathOf? inode with
  | some p => f p
  | none => noEntry

/-- A name ends at its first NUL, if it holds one. -/
def lookup (t : Handles) (m : Mount) (parent : Inode) (name : Bytes) : KernelPlan :=
  match Utf8.decode (name.takeWhile (· ≠ 0)) with
  | none => noEntry
  | some name =>
    if parent = requestsInode then
      match Numeral.natural? name.toList with
      | some id => ofRequest (.entry · 0) (requestAttr? t m.view.started id.toNat)
      | none => noEntry
    else if parent = rootId ∧ name = requestsName then
      if t.isAttached then .answer (.entry (.requestsDirectory m.view.started) 0) else noEntry
    else withPath m.view.identities parent fun p => .need (.node (p.extend name) true)

def getattr (t : Handles) (m : Mount) (inode : Inode) : KernelPlan :=
  if inode = requestsInode then .answer (.attr (.requestsDirectory m.view.started) 0)
  else match requestOfInode? inode with
    | some id => ofRequest (.attr · 0) (requestAttr? t m.view.started id)
    | none => withPath m.view.identities inode fun p => .need (.node p false)

/-- Only reading is possible: the access mode is in the last two bits of the flags. -/
def isReadOnly (flags : Int) : Bool := flags % 4 = 0

def openFile (t : Handles) (m : Mount) (now : Nat) (inode : Inode) (flags : Int) :
    KernelPlan × Handles × Mount :=
  if ¬ isReadOnly flags then (.answer (.failed Errno.readOnly), t, m)
  else match requestOfInode? inode with
    | some id =>
      match t.openRequest id with
      | some (h, t) => (.answer (.opened h bypassCache), t, m)
      | none => (noEntry, t, m)
    | none =>
      match m.view.identities.pathOf? inode with
      | none => (noEntry, t, m)
      | some p =>
        if p = controlPath then
          match t.attachControl m.broker now with
          | .ok (h, t, broker) => (.answer (.opened h bypassCache), t, { m with broker })
          | .error fault => (.answer (.failed fault.errno), t, m)
        else (.need (.file p), t, m)

def read (t : Handles) (m : Mount) (h : Handle) (offset : Int) (size : Nat) :
    KernelPlan × Handles :=
  match t.controlSession? h with
  | some session => (.need (.request session), t)
  | none =>
    match t.readRequest h with
    | some (bytes, t) => (.answer (.data bytes), t)
    | none =>
      match t.file? h with
      | none => (.answer (.failed Errno.badHandle), t)
      | some f =>
        if offset < 0 then (.answer (.failed Errno.invalid), t)
        else match m.read f offset.toNat size with
          | .ok bytes => (.answer (.data bytes), t)
          | .error fault => (.answer (.failed fault.errno), t)

/-- Release whatever the number stands for: the control file, else a request, else a file. -/
def release (t : Handles) (b : Broker) (h : Handle) : Handles × Broker :=
  match t.releaseControl b h with
  | (true, t, b) => (t, b)
  | (false, t, b) =>
    match t.releaseRequest b h with
    | (true, t, b) => (t, b)
    | (false, t, b) => ((t.releaseFile h).2, b)

/-- Room that an entry takes in a reply: a head of 24 bytes and the name, in words of eight. -/
def slotRoom (s : Slot) : Nat := (24 + (Utf8.encode s.name).length + 7) / 8 * 8

/-- The entries that fit, up to the first that does not. -/
def fitting : Nat → List (Nat × Slot) → List (Nat × Slot)
  | _, [] => []
  | room, e :: rest => if slotRoom e.2 ≤ room then e :: fitting (room - slotRoom e.2) rest else []

def readDirectory (t : Handles) (h : Handle) (offset : Int) (size : Nat) : KernelReply :=
  match t.directoryPage? h offset with
  | some page => .entries (fitting size page)
  | none => .failed Errno.badHandle

/-- Take a call as far as it goes without waiting. -/
def plan (k : KernelSide) (t : Handles) (m : Mount) (now : Nat) (call : KernelCall) :
    KernelPlan × KernelSide × Handles × Mount :=
  if k.destroyed then (.answer (.failed Errno.io), k, t, m)
  else match call with
    | .lookup parent name => (lookup t m parent name, k, t, m)
    | .getattr inode => (getattr t m inode, k, t, m)
    | .readlink inode => (withPath m.view.identities inode fun p => .need (.link p), k, t, m)
    | .openFile inode flags =>
      let (plan, t, m) := openFile t m now inode flags
      (plan, k, t, m)
    | .openDirectory inode =>
      if inode = requestsInode then
        let (h, t) := t.insertDirectory Handles.requestSlots
        (.answer (.opened h 0), k, t, m)
      else (withPath m.view.identities inode fun p => .need (.listing inode p), k, t, m)
    | .read h offset size =>
      let (plan, t) := read t m h offset size
      (plan, k, t, m)
    | .release h =>
      let (t, broker) := release t m.broker h
      (.answer .done, k, t, { m with broker })
    | .releaseDirectory h => (.answer .done, k, (t.releaseDirectory h).2, m)
    | .readDirectory h offset size => (.answer (readDirectory t h offset size), k, t, m)
    | .destroy => (.answer .done, { k with destroyed := true }, t, m)

/-- The answer from a resolved node. -/
def replyNode (k : KernelSide) (forEntry : Bool) (n : Node) : KernelReply :=
  if forEntry then .entry (.ofNode n) (n.entryTtl k.ttl) else .attr (.ofNode n) (n.entryTtl k.ttl)

/-- Keep an opened file and say whether the kernel may keep its pages. -/
def replyOpened (t : Handles) (f : Opened) : KernelReply × Handles :=
  let (h, keep, t) := t.insertFile f
  (.opened h (if keep then keepCache else 0), t)

end KernelSide
end OnDemandFs
