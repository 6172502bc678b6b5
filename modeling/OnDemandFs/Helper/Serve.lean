import OnDemandFs.Broker
import OnDemandFs.Store.Basic

/-!
# Serving requests

A helper takes one request at a time, reads its path, lets a handler change the store and closes the
request, whether or not the handler failed. A request whose bytes name no path is closed at once and
not counted. The handler keeps a state of its own. Once its session is over the helper takes nothing
more; the request in hand is always closed before that is noticed.
-/
namespace OnDemandFs

/-- What a handler does with the store, its own state and the path that was asked for. -/
abbrev Handler (η : Type) := η → Store → String → η × Store × Except Fault Unit

structure Serving (η : Type) where
  session : SessionId
  handler : η
  served : Nat := 0

/-- What came of trying to serve the next request. -/
inductive Served (η : Type) where
  | detached
  | idle
  | closed (serving : Serving η) (broker : Broker) (store : Store)

namespace Serving

variable {η : Type}

/-- Handle a request that was taken, and close it. -/
def finish (handle : Handler η) (h : Serving η) (b : Broker) (s : Store) (r : RequestHandle) :
    Serving η × Broker × Store :=
  match requestPath? r.read.1 with
  | none => (h, b.close r.request, s)
  | some path =>
    let (handler, s, _) := handle h.handler s path
    ({ h with handler, served := h.served + 1 }, b.close r.request, s)

def next (handle : Handler η) (h : Serving η) (b : Broker) (s : Store) : Served η :=
  match b.takeHandle h.session with
  | .error _ => .detached
  | .ok (none, _) => .idle
  | .ok (some r, b) =>
    let (h, b, s) := h.finish handle b s r
    .closed h b s

end Serving
end OnDemandFs
