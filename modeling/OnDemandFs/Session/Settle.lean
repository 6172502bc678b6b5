import OnDemandFs.Session.Basic

/-!
# Coming to rest

After each step a session is run until nothing moves: operations whose request is over go on, those
whose deadline has passed fail, readers of a channel take what is queued, and the automatic helper
serves one request after the other. Operations go on in the order in which they began to wait, and
before the helper takes its next request.

Each move uses up something: a request that is asked for, a request in the queue, or an operation.
`budget` adds these up, so that running out of it means that nothing is left to move.
-/
namespace OnDemandFs

namespace Call

/-- What a call does until it is over. -/
def start : Call → Resolver Answer
  | fetch p => do Asking.ask p; return .nothing
  | lookup p | stat p => do return .node (← Resolver.lookup p)
  | readDirectory p | openDirectory _ p => do return .listed (← Resolver.readDirectory p)
  | openFile p _ => do return .opened (← Resolver.openFile p)
  | readLink p => do return .text (← Resolver.readLink p)
  | kernel (.node p _) => do return .node (← Resolver.lookup p)
  | kernel (.link p) => do return .text (← Resolver.readLink p)
  | kernel (.file p) => do return .opened (← Resolver.openFile p)
  | kernel (.listing _ p) => do return .listed (← Resolver.readDirectory p)
  | kernel (.request _) => pure .nothing

/-- The path that a call is about; no call asks for anything deeper. -/
def path : Call → Path
  | fetch p | lookup p | stat p | readDirectory p | openFile p _ | readLink p
  | openDirectory _ p => p
  | kernel (.node p _) | kernel (.link p) | kernel (.file p) | kernel (.listing _ p) => p
  | kernel (.request _) => .root

end Call

namespace Session

def setView (s : Session) (view : View) : Session := { s with mount := { s.mount with view } }

def setBroker (s : Session) (broker : Broker) : Session :=
  { s with mount := { s.mount with broker } }

def report (s : Session) (label : String) (reply : Reply) : Session :=
  { s with ended := (label, reply) :: s.ended }

/-- Keep a request under a name; a handle that had the name is closed. -/
def keepHandle (s : Session) (name : String) (h : RequestHandle) : Session :=
  let s := match s.handles.get? name with
    | some old => s.setBroker (s.mount.broker.close old.request)
    | none => s
  { s with handles := s.handles.set name h }

/-- List a directory into a handle. -/
def listInto (s : Session) (inode : Inode) (dir : Path) (entries : List Listed) :
    Handle × Session :=
  let slots := Handles.slotsOf s.mount.view.identities inode dir entries
  let (h, table) := s.table.insertDirectory slots
  (h, { s with table })

/-- The reply of a kernel call to what it needed. -/
def finishKernel (s : Session) (need : KernelNeed) (answer : Answer) : KernelReply × Session :=
  match need, answer with
  | .node _ forEntry, .node n => ((s.kernel.getD {}).replyNode forEntry n, s)
  | .link _, .text t => (.link t, s)
  | .file _, .opened f =>
    let (reply, table) := KernelSide.replyOpened s.table f
    (reply, { s with table })
  | .listing inode p, .listed entries =>
    let (h, s) := s.listInto inode p entries
    (.opened h 0, s)
  | _, _ => (.done, s)

/-- The reply of a call that is over. -/
def finish (s : Session) (call : Call) (result : Except Fault Answer) : Reply × Session :=
  match call, result with
  | .kernel _, .error fault => (.kernel (.failed fault.errno), s)
  | _, .error fault => (.fault fault, s)
  | .kernel need, .ok answer =>
    let (reply, s) := s.finishKernel need answer
    (.kernel reply, s)
  | .stat _, .ok (.node n) => (.attr n, s)
  | .openFile _ name, .ok (.opened f) => (.opened f, { s with files := s.files.set name f })
  | .openDirectory inode p, .ok (.listed entries) =>
    let (h, s) := s.listInto inode p entries
    (.number h, s)
  | _, .ok (.node n) => (.node n, s)
  | _, .ok (.listed entries) => (.listed entries, s)
  | _, .ok (.opened f) => (.opened f, s)
  | _, .ok (.text t) => (.text t, s)
  | _, .ok .nothing => (.ok, s)

/-- The operation panics. Nobody is told of that; but a kernel call that is given up without a reply
is answered with an I/O error. -/
def lose (s : Session) (label : String) : Call → Session
  | .kernel _ => s.report label (.kernel (.failed Errno.io))
  | _ => s

/-- Take an operation to its end or to the request that it has to wait for. -/
def proceed (s : Session) (label : String) (call : Call)
    (inquiry : Inquiry View Answer) : Session :=
  match inquiry with
  | .done view result =>
    let (reply, s) := (s.setView view).finish call result
    s.report label reply
  | .asks view path resume =>
    let s := s.setView view
    let (id, broker) := s.mount.broker.ask path s.now
    let s := s.setBroker broker
    match broker.deadline id with
    | .overflow => s.lose label call
    | _ => { s with waiting := s.waiting ++ [.forRequest label call id resume] }

def begin (s : Session) (label : String) (call : Call) : Session :=
  s.proceed label call (call.start s.mount.view)

/-- The reply to a reader of a channel that got a request. -/
def replyToReader (s : Session) (reader : ChannelReader) (h : RequestHandle) : Reply × Session :=
  match reader with
  | .helper name => (.request h.request h.path.text, s.keepHandle name h)
  | .controlFile =>
    let (id, table) := s.table.deliver h
    (.bytes (Handles.announcement id), { s with table })
  | .kernel =>
    let (id, table) := s.table.deliver h
    (.kernel (.data (Handles.announcement id)), { s with table })

/-- The reply to a reader whose channel was detached. -/
def replyDetached : ChannelReader → Reply
  | .helper _ => .fault .detached
  | .controlFile => .bytes []
  | .kernel => .kernel (.data [])

/-- Read a channel: a reply, or nothing while it has no request. -/
def readChannel (s : Session) (session : SessionId) (reader : ChannelReader) :
    Option (Reply × Session) :=
  match s.mount.broker.takeHandle session with
  | .error _ => some (replyDetached reader, s)
  | .ok (some h, broker) => some ((s.setBroker broker).replyToReader reader h)
  | .ok (none, _) => none

/-- The deadline of an operation, if it has one. -/
def deadlineOf? (s : Session) : Waiting → Option Nat
  | .forRequest _ _ id _ =>
    match s.mount.broker.deadline id with
    | .at t => some t
    | _ => none
  | .forChannel .. => none

def labelOf : Waiting → String
  | .forRequest label .. => label
  | .forChannel label .. => label

/-- The operation can move: its request is over, or its channel has a request or is detached. -/
def isReady (s : Session) : Waiting → Bool
  | .forRequest _ _ id _ => (s.mount.broker.outcome? id).isSome
  | .forChannel _ session reader => (s.readChannel session reader).isSome

/-- Move one waiting operation, taken out of the list already. One that is not ready goes back to
its end. -/
def moveWaiting (s : Session) (w : Waiting) : Session :=
  match w with
  | .forRequest label call id resume =>
    match s.mount.broker.outcome? id with
    | some (.ok ()) => s.proceed label call (resume s.mount.view)
    | some (.error fault) =>
      let (reply, s) := s.finish call (.error fault)
      s.report label reply
    | none => { s with waiting := s.waiting ++ [w] }
  | .forChannel label session reader =>
    match s.readChannel session reader with
    | some (reply, s) => s.report label reply
    | none => { s with waiting := s.waiting ++ [w] }

/-- Move the first waiting operation that can move. -/
def moveFirst (s : Session) : Option Session :=
  match s.waiting.span fun w => !s.isReady w with
  | (_, []) => none
  | (before, w :: rest) => some ({ s with waiting := before ++ rest }.moveWaiting w)

/-- Let the first request whose deadline has passed expire. -/
def expireFirst (s : Session) : Option Session :=
  s.waiting.findSome? fun w =>
    match w, s.deadlineOf? w with
    | .forRequest _ _ id _, some t =>
      if t ≤ s.now then some (s.setBroker (s.mount.broker.expire id)) else none
    | _, _ => none

/-- Let the automatic helper serve one request. -/
def serveOne (s : Session) : Option Session :=
  match s.helper with
  | none => none
  | some h =>
    match h.next HelperMode.handle s.mount.broker s.mount.store with
    | .closed h broker store =>
      some { s with helper := some h, mount := { s.mount.setStore store with broker } }
    | _ => none

/-- One move, if any is possible. -/
def move (s : Session) : Option Session :=
  match s.moveFirst with
  | some s => some s
  | none =>
    match s.expireFirst with
    | some s => some s
    | none => s.serveOne

def moveAll : Nat → Session → Session
  | 0, s => s
  | fuel + 1, s =>
    match s.move with
    | some s => moveAll fuel s
    | none => s

/-- An operation can ask at most twice per segment of its path and three times more; it moves, lets
its request expire or be served once for each. -/
def budgetOf : Waiting → Nat
  | .forRequest _ call _ _ => 3 * (2 * call.path.depth + 4)
  | .forChannel .. => 1

def budget (s : Session) : Nat :=
  s.waiting.foldr (fun w n => budgetOf w + n) 0 + s.mount.broker.queue.length + 1

def settle (s : Session) : Session := moveAll s.budget s

/-- Let time pass until the operations with the given labels are over, or nothing would change that
any more. Each round passes the deadline of at least one waiting operation. -/
def awaitAll (labels : List String) : Nat → Session → Session
  | 0, s => s
  | fuel + 1, s =>
    if s.waiting.any fun w => labels.contains (labelOf w) then
      match (s.waiting.filterMap s.deadlineOf?).min? with
      | some t => awaitAll labels fuel { s with now := max s.now t }.settle
      | none => s
    else s

end Session
end OnDemandFs
