import OnDemandFs.Session.Settle

/-!
# Steps of a session

A session is driven one step at a time. A step that may have to wait is begun as an operation and
the session brought to rest; if it is over by then its reply is the reply of the step, otherwise the
step replies that it is pending and its own reply comes with the step in which it is over. Any other
step replies at once.
-/
namespace OnDemandFs

/-- An item that an origin tree is built from; the names lead down from the origin. -/
inductive OriginItem where
  | file (names : List Name) (content : Bytes) (seconds : Option Int)
  | directory (names : List Name) (seconds : Option Int)
  | link (names : List Name) (target : Bytes)
  | pipe (names : List Name)
  | remove (names : List Name)
deriving Repr

inductive Step where
  | call (call : Call)
  | change (change : Change)
  | attach (channel : String)
  | detach (channel : String)
  | dropChannel (channel : String)
  | channelAttached (channel : String)
  | next (channel handle : String)
  | nextBlocking (channel handle : String)
  | readHandle (handle : String)
  | closeHandle (handle : String)
  | await (labels : List String)
  | brokerStatus
  | status
  | settings
  | entry (path : Path)
  | readIndex (path : Path)
  | listPhysical (path : Path)
  | physicalPath (path : Path)
  | namesBelow (names : List Name)
  | contentBelow (names : List Name)
  | origin (items : List OriginItem)
  | pathOf (id : NodeId)
  | idOf (path : Path)
  | fileRead (file : String) (offset size : Nat)
  | fileReadAt (file : String) (offset size : Nat)
  | fileAll (file : String)
  | fileLength (file : String)
  | fileClose (file : String)
  | map (file mapping : String)
  | mapRead (mapping : String)
  | unmap (mapping : String)
  | live (id : NodeId)
  | startCopying (dynamic : List Path)
  | startScript (runs : Table String (List (List Change)))
  | stopHelper
  | attachControl
  | controlAttached
  | hasControl (handle : Handle)
  | releaseControl (handle : Handle)
  | readControl (handle : Handle)
  | deliver (handle : String)
  | requestSize (id : RequestId)
  | openRequest (id : RequestId)
  | readRequest (handle : Handle)
  | releaseRequest (handle : Handle)
  | insertFile (file : String)
  | handleRead (handle : Handle) (offset size : Nat)
  | releaseFile (handle : Handle)
  | openFiles
  | openRequests
  | directoryPage (handle : Handle) (offset : Int)
  | releaseDirectory (handle : Handle)
  | startKernel (ttl : Nat)
  | startWithoutRuntime
  | mountAt (place : String)
  | stopKernel
  | kernel (call : KernelCall)
deriving Repr

namespace OriginItem

def names : OriginItem → List Name
  | file ns .. | directory ns _ | link ns _ | pipe ns | remove ns => ns

/-- Put an item in place; what is missing above it is made. -/
def build (origin : List Name) (d : Disk) (item : OriginItem) : Disk :=
  let path := origin ++ item.names
  let withParent (f : Disk → Disk.Outcome Unit) : Disk := (f (d.makeDirectories path.dropLast).1).1
  match item with
  | file _ content seconds => withParent (Change.writeTimed path content seconds)
  | directory .. => (d.makeDirectories path).1
  | link _ target => withParent (·.makeSpecial path (.link target))
  | pipe _ => withParent (·.makeSpecial path .pipe)
  | remove _ => (d.remove path).1

/-- Set the time of a directory. -/
def stampDirectory (origin : List Name) (d : Disk) (item : OriginItem) : Disk :=
  match item with
  | directory names (some t) =>
    match d.find true (origin ++ names) with
    | .ok (place, .directory _) =>
      { d with objects := d.objects.set place (.directory (.ofSeconds t)) }
    | _ => d
  | _ => d

/-- Build all items, then give the directories their times, the last item first. -/
def buildAll (origin : List Name) (d : Disk) (items : List OriginItem) : Disk :=
  items.reverse.foldl (stampDirectory origin) (items.foldl (build origin) d)

end OriginItem

namespace Session

def replyChange : ChangeResult → Reply
  | .done => .ok
  | .refusedIndex fault => .indexFault fault
  | .failed fault => .fault fault

def replyOption {α : Type} (f : α → Reply) : Option α → Reply
  | some a => f a
  | none => .nothing

def replyExcept {α : Type} (f : α → Reply) : Except Fault α → Reply
  | .ok a => f a
  | .error fault => .fault fault

/-- Do something with what is kept under a name. -/
def withNamed {α : Type} (s : Session) (t : Table String α) (name : String)
    (f : α → Reply × Session) : Reply × Session :=
  match t.get? name with
  | some a => f a
  | none => (.noSuchName, s)

def withFile (s : Session) (name : String) (f : Opened → Reply) : Reply × Session :=
  s.withNamed s.files name fun file => (f file, s)

/-- Read a channel now, or wait for it. -/
def readOrWait (s : Session) (label : String) (session : SessionId) (reader : ChannelReader) :
    Session :=
  match s.readChannel session reader with
  | some (reply, s) => s.report label reply
  | none => { s with waiting := s.waiting ++ [.forChannel label session reader] }

/-- Start an automatic helper in a session that was just given to it. -/
def startHelper (s : Session) (mode : HelperMode) (refuse : Fault → Reply) : Reply × Session :=
  match s.mount.broker.attach s.now with
  | .error fault => (refuse fault, s)
  | .ok (session, broker) =>
    (.ok, { s.setBroker broker with helper := some { session, handler := mode } })

def stopHelper (s : Session) : Reply × Session :=
  match s.helper with
  | none => (.noHelper, s)
  | some h =>
    let seen := match h.handler with
      | .scripted script => some script.seen
      | .copying _ => none
    (.served h.served seen, { s.setBroker (s.mount.broker.detach h.session) with helper := none })

/-- A kernel starts with handles of its own. -/
def startKernel (s : Session) (ttl : Nat) : Session :=
  { s.setBroker (s.table.dropAll s.mount.broker) with table := {}, kernel := some { ttl } }

def kernelCall (s : Session) (label : String) (call : KernelCall) : Session :=
  match s.kernel with
  | none => s.report label .noKernel
  | some k =>
    let (plan, k, table, mount) := k.plan s.table s.mount s.now call
    let s := { s with kernel := some k, table, mount }
    match plan with
    | .answer reply => s.report label (.kernel reply)
    | .need (.request session) => s.readOrWait label session .kernel
    | .need need => s.begin label (.kernel need)

def listBelow (s : Session) (names : List Name) : Reply :=
  let d := s.mount.disk
  match d.find true (s.mount.store.root ++ names) with
  | .ok (place, .directory _) =>
    .names (((d.children place).map fun c => Utf8.decodeLossy c.1).mergeSort
      fun a b => decide (a ≤ b))
  | .ok _ => .fault (.io (.system Errno.notDirectory))
  | .error cause => .fault (.io cause)

def readBelow (s : Session) (names : List Name) : Reply :=
  match s.mount.disk.read (s.mount.store.root ++ names) with
  | .ok content => .bytes content
  | .error cause => .fault (.io cause)

/-- Steps on the channels and handles of a helper. -/
def helperStep (s : Session) : Step → Option (Reply × Session)
  | .attach ch =>
    match s.mount.broker.attach s.now with
    | .error fault => some (.fault fault, s)
    | .ok (session, broker) =>
      some (.ok, { s.setBroker broker with channels := s.channels.set ch session })
  | .detach ch =>
    some (s.withNamed s.channels ch fun c => (.ok, s.setBroker (s.mount.broker.detach c)))
  | .dropChannel ch =>
    match s.channels.get? ch with
    | none => some (.flag false, s)
    | some c =>
      some (.flag true,
        { s.setBroker (s.mount.broker.detach c) with channels := s.channels.erase ch })
  | .channelAttached ch =>
    some (replyOption (fun c => .flag (s.mount.broker.session = some c)) (s.channels.get? ch), s)
  | .next ch h =>
    some (s.withNamed s.channels ch fun c =>
      match s.readChannel c (.helper h) with
      | some r => r
      | none => (.nothing, s))
  | .readHandle h =>
    some (s.withNamed s.handles h fun handle =>
      let (bytes, handle) := handle.read
      (.bytes bytes, { s with handles := s.handles.set h handle }))
  | .closeHandle h =>
    some (s.withNamed s.handles h fun handle =>
      (.ok, { s.setBroker (s.mount.broker.close handle.request) with
        handles := s.handles.erase h }))
  | .startCopying dynamic =>
    some (s.startHelper (.copying ⟨s.origin, dynamic⟩) fun f => .launchFault (.core f))
  | .startScript runs => some (s.startHelper (.scripted { origin := s.origin, runs }) .fault)
  | .stopHelper => some s.stopHelper
  | _ => none

/-- Steps that look at the store or change it. -/
def storeStep (s : Session) : Step → Option (Reply × Session)
  | .change c =>
    let (store, r) := c.perform s.origin s.mount.store
    some (replyChange r, { s with mount := s.mount.setStore store })
  | .entry p => some (replyExcept (replyOption .entry) (s.mount.store.stat p), s)
  | .readIndex p =>
    let (store, r) := s.mount.store.readIndex p
    some (replyExcept (replyOption .index) r, { s with mount := s.mount.setStore store })
  | .listPhysical p => some (replyExcept .kinds (s.mount.store.listPhysical p), s)
  | .physicalPath p => some (.text (Store.pathText (s.mount.store.physical p)), s)
  | .namesBelow names => some (s.listBelow names, s)
  | .contentBelow names => some (s.readBelow names, s)
  | .origin items =>
    some (.ok, { s with
      mount := s.mount.setDisk (OriginItem.buildAll s.origin s.mount.disk items) })
  | _ => none

/-- Steps on opened files and mappings. -/
def fileStep (s : Session) : Step → Option (Reply × Session)
  | .fileRead f offset size =>
    some (s.withFile f fun file => replyExcept .bytes (s.mount.read file offset size))
  | .fileReadAt f offset size =>
    some (s.withFile f fun file => replyExcept (fun r => .buffer r.1 r.2)
      (Reading.readInto (s.mount.readAt file) offset size))
  | .fileAll f => some (s.withFile f fun file => replyExcept .bytes (s.mount.readToEnd file))
  | .fileLength f => some (s.withFile f fun file => .length (s.mount.fileLength file))
  | .fileClose f => some (.flag (s.files.has f), { s with files := s.files.erase f })
  | .map f m =>
    some (s.withNamed s.files f fun file =>
      match s.mount.map file (.ok ()) with
      | (.error fault, mount) => (.fault fault, { s with mount })
      | (.ok mapping, mount) =>
        let mount := match s.mappings.get? m with
          | some old => mount.unmap old
          | none => mount
        (.mapped file.file (mount.mapped mapping),
          { s with mount, mappings := s.mappings.set m mapping }))
  | .mapRead m =>
    some (s.withNamed s.mappings m fun mapping => (.bytes (s.mount.mapped mapping), s))
  | .unmap m =>
    match s.mappings.get? m with
    | none => some (.flag false, s)
    | some mapping =>
      some (.flag true, { s with mount := s.mount.unmap mapping, mappings := s.mappings.erase m })
  | .live id => some (.number (s.mount.mappings.live id), s)
  | _ => none

/-- Steps on the kernel's table of handles. -/
def tableStep (s : Session) : Step → Option (Reply × Session)
  | .attachControl =>
    match s.table.attachControl s.mount.broker s.now with
    | .error fault => some (.fault fault, s)
    | .ok (h, table, broker) => some (.number h, { s.setBroker broker with table })
  | .controlAttached => some (.flag s.table.isAttached, s)
  | .hasControl h => some (.flag (s.table.controlSession? h).isSome, s)
  | .releaseControl h =>
    let (released, table, broker) := s.table.releaseControl s.mount.broker h
    some (.flag released, { s.setBroker broker with table })
  | .deliver name =>
    some (s.withNamed s.handles name fun handle =>
      let (id, table) := s.table.deliver handle
      (.number id, { s with table, handles := s.handles.erase name }))
  | .requestSize id => some (replyOption .number (s.table.requestSize? id), s)
  | .openRequest id =>
    match s.table.openRequest id with
    | none => some (.nothing, s)
    | some (h, table) => some (.number h, { s with table })
  | .readRequest h =>
    match s.table.readRequest h with
    | none => some (.nothing, s)
    | some (bytes, table) => some (.bytes bytes, { s with table })
  | .releaseRequest h =>
    let (released, table, broker) := s.table.releaseRequest s.mount.broker h
    some (.flag released, { s.setBroker broker with table })
  | .insertFile name =>
    some (s.withNamed s.files name fun file =>
      let (h, keep, table) := s.table.insertFile file
      (.kept h keep, { s with table, files := s.files.erase name }))
  | .handleRead h offset size =>
    some (replyOption (fun f => replyExcept .bytes (s.mount.read f offset size))
      (s.table.file? h), s)
  | .releaseFile h =>
    let (released, table) := s.table.releaseFile h
    some (.flag released, { s with table })
  | .openFiles => some (.number s.table.openFiles, s)
  | .openRequests =>
    let (h, table) := s.table.insertDirectory Handles.requestSlots
    some (.number h, { s with table })
  | .directoryPage h offset => some (replyOption .page (s.table.directoryPage? h offset), s)
  | .releaseDirectory h =>
    let (released, table) := s.table.releaseDirectory h
    some (.flag released, { s with table })
  | _ => none

/-- Steps that look at the mount, and those that start and stop the kernel. -/
def mountStep (s : Session) : Step → Option (Reply × Session)
  | .brokerStatus => some (.brokerStatus s.mount.status, s)
  | .status =>
    let mount := s.mount.trim
    some (.status mount.status, { s with mount })
  | .settings => some (.settings s.mount.settings, s)
  | .pathOf id =>
    some (replyOption (fun p => .text p.text) (s.mount.view.identities.pathOf? id), s)
  | .idOf p => some (replyOption .number (s.mount.view.identities.idOf? p), s)
  | .startKernel ttl => some (.ok, s.startKernel ttl)
  | .startWithoutRuntime => some (.launchFault .noRuntime, s)
  | .mountAt place => some (.launchFault (.mount place (.system Errno.noEntry)), s)
  | .stopKernel => some (.flag s.kernel.isSome, { s with kernel := none })
  | _ => none

/-- Steps that reply at once. -/
def promptStep (s : Session) (step : Step) : Option (Reply × Session) :=
  (s.helperStep step).or <| (s.storeStep step).or <| (s.fileStep step).or <|
    (s.tableStep step).or (s.mountStep step)

/-- Begin a step that may have to wait. -/
def beginStep (s : Session) (label : String) : Step → Session
  | .call c => s.begin label c
  | .kernel call => s.kernelCall label call
  | .nextBlocking ch h =>
    match s.channels.get? ch with
    | some c => s.readOrWait label c (.helper h)
    | none => s.report label .noSuchName
  | .readControl h =>
    match s.table.controlSession? h with
    | some c => s.readOrWait label c .controlFile
    | none => s.report label .nothing
  | .await labels => (awaitAll labels s.budget s).report label .ok
  | _ => s.report label .ok

/-- What a step replies, and what became of earlier operations during it. -/
structure StepReply where
  reply : Reply
  done : List (String × Reply)

/-- Take one step and come to rest. -/
def step (s : Session) (label : String) (st : Step) : StepReply × Session :=
  match s.promptStep st with
  | some (reply, s) =>
    let s := s.settle
    (⟨reply, s.ended.reverse⟩, { s with ended := [] })
  | none =>
    let s := (s.beginStep label st).settle
    let own := s.ended.find? (·.1 = label)
    let done := s.ended.reverse.filter (·.1 ≠ label)
    let reply := match own with
      | some (_, reply) => reply
      | none => .pending label
    (⟨reply, done⟩, { s with ended := [] })

/-- The label of a step that was given none: its position. -/
def defaultLabel (position : Nat) : String := "#" ++ toString position

end Session
end OnDemandFs
