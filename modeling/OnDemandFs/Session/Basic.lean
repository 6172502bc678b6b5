import OnDemandFs.Helper.Script
import OnDemandFs.Helper.Serve
import OnDemandFs.Kernel.Calls
import OnDemandFs.Launch

/-!
# Sessions

A session is a mount with everybody who uses it: channels and request handles that a helper holds
under names, opened files and mappings, the kernel with its handles, at most one automatic helper,
and the operations that wait. An operation is a call that was made under a label; it is over with
its call's reply, or waits for a request, or for a channel to have one.
-/
namespace OnDemandFs

/-- An operation of a client that may have to wait for a request. -/
inductive Call where
  | fetch (path : Path)
  | lookup (path : Path)
  | stat (path : Path)
  | readDirectory (path : Path)
  | openFile (path : Path) (name : String)
  | readLink (path : Path)
  /-- List a directory into a handle of the kernel's table, under a given inode. -/
  | openDirectory (inode : Inode) (path : Path)
  /-- What a call of the kernel needs. -/
  | kernel (need : KernelNeed)
deriving Repr

/-- What a call resolves to before it becomes a reply. -/
inductive Answer where
  | nothing
  | node (node : Node)
  | listed (entries : List Listed)
  | opened (file : Opened)
  | text (text : String)
deriving DecidableEq, Repr

/-- Who reads a channel and waits for it to have a request. -/
inductive ChannelReader where
  /-- A helper that keeps the handle under a name. -/
  | helper (name : String)
  /-- A reader of the control file, directly or through the kernel. -/
  | controlFile
  | kernel
deriving DecidableEq, Repr

inductive Reply where
  | ok
  | nothing
  /-- The step itself panicked; an operation that panics on its own is lost instead. -/
  | overflow
  | noSuchName
  | noHelper
  | noKernel
  | pending (label : String)
  | flag (value : Bool)
  | number (value : Nat)
  | bytes (value : Bytes)
  | text (value : String)
  | fault (fault : Fault)
  | indexFault (fault : IndexFault)
  | launchFault (fault : LaunchFault)
  | request (id : RequestId) (path : String)
  | node (node : Node)
  | attr (node : Node)
  | opened (file : Opened)
  | listed (entries : List Listed)
  | page (entries : List (Nat × Slot))
  | entry (entry : PhysicalEntry)
  | index (index : Index)
  | kinds (entries : List (String × EntryKind))
  | names (names : List String)
  | buffer (count : Nat) (bytes : Bytes)
  | length (length : Nat)
  | mapped (file : FileId) (bytes : Bytes)
  | kept (handle : Handle) (keep : Bool)
  | served (count : Nat) (seen : Option (List String))
  | brokerStatus (status : MountStatus)
  | status (status : MountStatus)
  | settings (settings : Settings)
  | kernel (reply : KernelReply)
deriving DecidableEq, Repr

/-- An automatic helper: it copies from the origin, or follows a script. -/
inductive HelperMode where
  | copying (origin : Origin)
  | scripted (script : Script)

/-- Its handler. -/
def HelperMode.handle : Handler HelperMode := fun mode store path =>
  match mode with
  | .copying origin =>
    let (store, r) := origin.answer store (Path.ofText path)
    (.copying origin, store, r)
  | .scripted script =>
    let (script, store, r) := script.handle store path
    (.scripted script, store, r)

/-- An operation at rest. -/
inductive Waiting where
  | forRequest (label : String) (call : Call) (id : RequestId) (resume : View → Inquiry View Answer)
  | forChannel (label : String) (session : SessionId) (reader : ChannelReader)

structure Session where
  /-- Milliseconds; they pass only while a session awaits something. -/
  now : Nat
  mount : Mount
  origin : List Name
  channels : Table String SessionId := []
  handles : Table String RequestHandle := []
  files : Table String Opened := []
  mappings : Table String Mapping := []
  table : Handles := {}
  kernel : Option KernelSide := none
  helper : Option (Serving HelperMode) := none
  waiting : List Waiting := []
  /-- Operations that are over and not reported yet, latest first. -/
  ended : List (String × Reply) := []

namespace Session

/-- A session over a bare broker: a mount with an empty cache that nothing is asked of. -/
def ofBroker (timeout : Option Nat) (now : Nat) : Session where
  now := now
  origin := []
  mount := {
    settings := { cacheRoot := "" }
    view := { store := ⟨[], 0, Disk.empty (.ofSeconds 0), { capacity := 0 }⟩ }
    broker := { timeout } }

end Session
end OnDemandFs
