import OnDemandFs.Fault.Basic
import OnDemandFs.Path
import OnDemandFs.Table
import OnDemandFs.Text.Numeral
import OnDemandFs.Text.Utf8

/-!
# The request broker

Whoever misses something in the cache joins the request for its path, or creates one, and waits
until the request is closed or its deadline passes. At most one helper is attached at a time, under
a session number that is never used again; it takes queued requests in order and closes each.
Closing is the only good news there is: those who waited look at the cache again to learn what it
means.

The broker is a value and each operation is a step that would be taken under one lock: waiting,
waking and the passing of time are steps of whoever drives it. Every request that was ever created
stays in `requests`, request number `n` at position `n - 1`, so a late close or a late waiter always
finds what became of it. Times are milliseconds.
-/
namespace OnDemandFs

abbrev RequestId := Nat
abbrev SessionId := Nat

inductive RequestState where
  | queued
  | delivered
  | completed
  | timedOut
deriving DecidableEq, Repr

def RequestState.isTerminal : RequestState → Bool
  | completed | timedOut => true
  | queued | delivered => false

structure Request where
  path : Path
  created : Nat
  state : RequestState := .queued
deriving DecidableEq, Repr

/-- What happened so far. A request is counted as completed or as timed out, never as both. -/
structure Counters where
  created : Nat := 0
  joined : Nat := 0
  delivered : Nat := 0
  completed : Nat := 0
  timedOut : Nat := 0
deriving DecidableEq, Repr

structure Broker where
  timeout : Option Nat := none
  session : Option SessionId := none
  sessions : Nat := 0
  bootstrapped : Bool := false
  requests : List Request := []
  queue : List RequestId := []
  inFlight : Table Path RequestId := []
  counters : Counters := {}
deriving Repr

inductive Deadline where
  | never
  | at (time : Nat)
  | overflow
deriving DecidableEq, Repr

namespace Broker

def request? (b : Broker) : RequestId → Option Request
  | 0 => none
  | n + 1 => b.requests[n]?

def isAttached (b : Broker) : Bool := b.session.isSome

/-- A new request for a path, not queued yet. -/
def create (b : Broker) (p : Path) (now : Nat) : RequestId × Broker :=
  let id := b.requests.length + 1
  (id, { b with
    requests := b.requests ++ [{ path := p, created := now }]
    inFlight := b.inFlight.set p id
    counters := { b.counters with created := b.counters.created + 1 } })

def setState (b : Broker) (id : RequestId) (state : RequestState) : Broker :=
  { b with requests := b.requests.modify (id - 1) fun r => { r with state } }

/-- Take a request out of the queue, and out of the requests in flight unless a newer request for
its path stands there. -/
def withdraw (b : Broker) (id : RequestId) : Broker :=
  let inFlight := match b.request? id with
    | some r => if b.inFlight.get? r.path = some id then b.inFlight.erase r.path else b.inFlight
    | none => b.inFlight
  { b with inFlight, queue := b.queue.filter (· ≠ id) }

/-- Become the helper. The first helper of all finds a request for the root at the front. -/
def attach (b : Broker) (now : Nat) : Except Fault (SessionId × Broker) :=
  if b.session.isSome then .error .alreadyInUse
  else
    let session := b.sessions + 1
    let b := { b with sessions := session, session := some session }
    if b.bootstrapped then .ok (session, b)
    else
      let b := { b with bootstrapped := true }
      let (id, b) := match b.inFlight.get? Path.root with
        | some id => (id, { b with queue := b.queue.filter (· ≠ id) })
        | none => b.create Path.root now
      match b.request? id with
      | some r =>
        .ok (session,
          if r.state = RequestState.queued then { b with queue := id :: b.queue } else b)
      | none => .ok (session, b)

/-- Ask for a path: join the request in flight for it, or queue a new one at the end. -/
def ask (b : Broker) (p : Path) (now : Nat) : RequestId × Broker :=
  match b.inFlight.get? p with
  | some id => (id, { b with counters := { b.counters with joined := b.counters.joined + 1 } })
  | none =>
    let (id, b) := b.create p now
    (id, { b with queue := b.queue ++ [id] })

/-- Take the request at the front of the queue, if there is one. -/
def take (b : Broker) (session : SessionId) : Except Fault (Option RequestId × Broker) :=
  if b.session ≠ some session then .error .detached
  else match b.queue with
    | [] => .ok (none, b)
    | id :: rest =>
      let delivered := match b.request? id with
        | some r => if r.state = RequestState.queued then b.setState id .delivered else b
        | none => b
      .ok (some id, { delivered with
        queue := rest
        counters := { b.counters with delivered := b.counters.delivered + 1 } })

/-- Stop being the helper. A session that is not attached changes nothing. -/
def detach (b : Broker) (session : SessionId) : Broker :=
  if b.session = some session then { b with session := none } else b

/-- Close the handle of a request. Only one that was not timed out before counts. -/
def close (b : Broker) (id : RequestId) : Broker :=
  let b := b.withdraw id
  match b.request? id with
  | some r =>
    let b := if r.state.isTerminal then b else b.setState id .completed
    if r.state = RequestState.timedOut then b
    else { b with counters := { b.counters with completed := b.counters.completed + 1 } }
  | none => b

/-- What those who wait for a request are told, once it is over. -/
def outcome? (b : Broker) (id : RequestId) : Option (Except Fault Unit) :=
  match b.request? id with
  | some r =>
    match r.state with
    | .completed => some (.ok ())
    | .timedOut => some (.error (.timeout r.path.text))
    | .queued | .delivered => none
  | none => none

/-- A waiter found the deadline of a request passed. One that was closed meanwhile is fine. -/
def expire (b : Broker) (id : RequestId) : Broker :=
  let b := b.withdraw id
  match b.request? id with
  | some r =>
    if r.state.isTerminal then b
    else { b.setState id .timedOut with
      counters := { b.counters with timedOut := b.counters.timedOut + 1 } }
  | none => b

/-- Times are kept in 64 bits of seconds; a sum beyond them is not a time. -/
def timeLimit : Nat := Numeral.signedLimit * 1000

/-- When those who wait for a request give up: a fixed time after it was created. -/
def deadline (b : Broker) (id : RequestId) : Deadline :=
  match b.timeout, b.request? id with
  | some timeout, some r =>
    if r.created + timeout < timeLimit then .at (r.created + timeout) else .overflow
  | _, _ => .never

end Broker

/-- The helper's end of a delivered request. -/
structure RequestHandle where
  request : RequestId
  path : Path
  sent : Bool := false
deriving DecidableEq, Repr

namespace RequestHandle

/-- The path and a NUL at the first read, and nothing ever after. -/
def read (h : RequestHandle) : Bytes × RequestHandle :=
  if h.sent then ([], h) else (Utf8.encode h.path.text ++ [0], { h with sent := true })

end RequestHandle

/-- The path that the bytes of a request name: up to the first NUL, and only if it is absolute. -/
def requestPath? (bytes : Bytes) : Option String :=
  match Utf8.decode (bytes.takeWhile (· ≠ 0)) with
  | some text => if text.toList.head? = some '/' then some text else none
  | none => none

namespace Broker

/-- Take a request and hold its handle. -/
def takeHandle (b : Broker) (session : SessionId) : Except Fault (Option RequestHandle × Broker) :=
  match b.take session with
  | .ok (some id, b) =>
    match b.request? id with
    | some r => .ok (some { request := id, path := r.path }, b)
    | none => .ok (none, b)
  | .ok (none, b) => .ok (none, b)
  | .error fault => .error fault

end Broker
end OnDemandFs
