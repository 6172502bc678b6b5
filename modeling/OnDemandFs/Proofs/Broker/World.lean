import OnDemandFs.Proofs.Broker.Filing

/-!
# Everybody who uses a broker

A world is a broker with its users: channels that were given out, open handles, and the calls that
wait. One action is one hold of the broker's lock, one look at a request, or time that passes;
actions come in any order. A waiting call that finds its deadline passed gives up first and takes
the lock later, so that a close can slip in between. A reader that waits for a request is one that
reads again.

The log keeps what was called and what was answered. What a statement says about the past, it says
about the log, and not through the tables of the broker.
-/
namespace OnDemandFs.Broker

/-- How far a call that asked for a path has come. -/
inductive Progress where
  | waiting
  /-- It saw the deadline passed, and the lock is still to be taken. -/
  | expiring
  | returned (outcome : Except Fault Unit)
  /-- Its deadline would not be a time: the call ends without an outcome. -/
  | overflowed
deriving Repr

def Progress.isOver : Progress → Bool
  | waiting | expiring => false
  | returned _ | overflowed => true

def Progress.ofDeadline : Deadline → Progress
  | .overflow => .overflowed
  | .never | .at _ => .waiting

structure Fetch where
  path : Path
  request : RequestId
  progress : Progress := .waiting
deriving Repr

/-- Channels and calls go by their number, in the order in which they began. -/
inductive Action where
  | attach
  | detach (channel : Nat)
  | drop (channel : Nat)
  | read (channel : Nat)
  | fetch (path : Path)
  | close (handle : RequestHandle)
  | wake (fetch : Nat)
  | giveUp (fetch : Nat)
  | expire (fetch : Nat)
  | pass (time : Nat)
deriving Repr

/-- Somebody becomes the helper or stops being it. -/
def Action.isSeating : Action → Bool
  | attach | detach _ | drop _ => true
  | _ => false

inductive Reply where
  | done
  | nothing
  | refused (fault : Fault)
  | channel (number : Nat)
  | asked (fetch : Nat) (request : RequestId)
  | delivered (handle : RequestHandle)
  | returned (request : RequestId) (outcome : Except Fault Unit)
deriving Repr

structure Event where
  action : Action
  reply : Reply
deriving Repr

/-- The request that went to a helper. -/
def Event.delivered? : Event → Option RequestId
  | ⟨_, .delivered h⟩ => some h.request
  | _ => none

/-- No request went to a helper or came to its end. -/
def Event.isQuiet : Event → Bool
  | ⟨_, .delivered _⟩ | ⟨.close _, _⟩ | ⟨.expire _, _⟩ => false
  | _ => true

/-- The requests that went to helpers, in the order in which they went. -/
def deliveries (log : List Event) : List RequestId := log.reverse.filterMap Event.delivered?

theorem deliveries_cons (e : Event) (log : List Event) :
    deliveries (e :: log) = deliveries log ++ e.delivered?.toList := by
  cases h : e.delivered? <;> simp [deliveries, h]

theorem deliveries_of_none {e : Event} (h : e.delivered? = none) (log : List Event) :
    deliveries (e :: log) = deliveries log := by
  simp [deliveries_cons, h]

theorem Event.delivered?_of_isQuiet {e : Event} (h : e.isQuiet = true) : e.delivered? = none := by
  obtain ⟨a, r⟩ := e
  cases r <;> first | cases h | rfl

structure World where
  broker : Broker
  now : Nat
  /-- The session of each channel that was given out, and nothing once it is dropped. -/
  channels : List (Option SessionId) := []
  handles : List RequestHandle := []
  fetches : List Fetch := []
  /-- The request that stood at the front when the first helper had attached. -/
  bootstrap : Option RequestId := none
  /-- Latest first. -/
  log : List Event := []
deriving Repr

namespace World

def start (timeout : Option Nat) (now : Nat) : World := { broker := { timeout }, now }

def channel? (w : World) (k : Nat) : Option SessionId := (w.channels[k]?).join

def setProgress (w : World) (k : Nat) (progress : Progress) : World :=
  { w with fetches := w.fetches.modify k fun f => { f with progress } }

/-- The answer to an action and what it leaves; nothing if nobody can take it. -/
def perform (w : World) : Action → Option (Reply × World)
  | .attach =>
    match w.broker.attach w.now with
    | .error fault => some (.refused fault, w)
    | .ok (session, broker) =>
      some (.channel w.channels.length, { w with
        broker
        channels := w.channels ++ [some session]
        bootstrap := if w.broker.bootstrapped then w.bootstrap else broker.queue.head? })
  | .detach k => (w.channel? k).map fun c => (.done, { w with broker := w.broker.detach c })
  | .drop k => (w.channel? k).map fun c =>
    (.done, { w with broker := w.broker.detach c, channels := w.channels.set k none })
  | .read k => (w.channel? k).map fun c =>
    match w.broker.takeHandle c with
    | .error fault => (.refused fault, w)
    | .ok (none, broker) => (.nothing, { w with broker })
    | .ok (some h, broker) => (.delivered h, { w with broker, handles := h :: w.handles })
  | .fetch path =>
    let (request, broker) := w.broker.ask path w.now
    some (.asked w.fetches.length request, { w with
      broker
      fetches := w.fetches ++
        [{ path, request, progress := .ofDeadline (broker.deadline request) }] })
  | .close h =>
    if h ∈ w.handles then
      some (.done, { w with broker := w.broker.close h.request, handles := w.handles.erase h })
    else none
  | .wake k =>
    match w.fetches[k]? with
    | some ⟨_, id, .waiting⟩ => (w.broker.outcome? id).map fun o =>
      (.returned id o, w.setProgress k (.returned o))
    | _ => none
  | .giveUp k =>
    match w.fetches[k]? with
    | some ⟨_, id, .waiting⟩ =>
      match w.broker.outcome? id, w.broker.deadline id with
      | none, .at t => if t ≤ w.now then some (.done, w.setProgress k .expiring) else none
      | _, _ => none
    | _ => none
  | .expire k =>
    match w.fetches[k]? with
    | some ⟨_, id, .expiring⟩ =>
      let broker := w.broker.expire id
      (broker.outcome? id).map fun o =>
        (.returned id o, { w with broker }.setProgress k (.returned o))
    | _ => none
  | .pass time => some (.done, { w with now := w.now + time })

def note (w : World) (a : Action) (r : Reply) : World := { w with log := ⟨a, r⟩ :: w.log }

/-- Take an action and write it down. -/
def act (w : World) (a : Action) : Option (Reply × World) :=
  (w.perform a).map fun (r, v) => (r, v.note a r)

/-- Some run of actions leads here from a broker that nobody used yet. -/
inductive Reachable : World → Prop
  | start (timeout : Option Nat) (now : Nat) : Reachable (start timeout now)
  | act {w w' : World} {a : Action} {r : Reply} : Reachable w → w.act a = some (r, w') →
      Reachable w'

/-- Two paths to try runs on. -/
def pathA : Path := ⟨["a"], by decide⟩
def pathB : Path := ⟨["b"], by decide⟩

end World
end OnDemandFs.Broker
