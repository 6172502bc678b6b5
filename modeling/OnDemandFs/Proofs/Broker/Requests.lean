import OnDemandFs.Broker
import Mathlib.Tactic.SplitIfs

/-!
# What each operation does to the requests

A broker never forgets a request: an operation adds one at the end, or changes the state of one. The
lemmas here say of each operation which request is added or changed, so that nothing below opens an
operation to learn it. Closing and expiring a request are one operation, `finish`, up to the
counters.

`Keeps` is what all of them have in common: a request stays, under its path and with its time, and
what is over stays as it is.
-/
namespace OnDemandFs

/-- The first end of a request counts. -/
def Request.finish (r : Request) (state : RequestState) : Request :=
  if r.state.isTerminal then r else { r with state }

namespace Request

variable {r : Request} {state : RequestState}

@[simp] theorem path_finish : (r.finish state).path = r.path := by
  unfold finish
  split_ifs <;> rfl

@[simp] theorem created_finish : (r.finish state).created = r.created := by
  unfold finish
  split_ifs <;> rfl

theorem finish_of_isTerminal (h : r.state.isTerminal = true) : r.finish state = r := if_pos h

theorem finish_of_live (h : r.state.isTerminal = false) : r.finish state = { r with state } :=
  if_neg (by rw [h]; exact Bool.noConfusion)

theorem isTerminal_finish (h : state.isTerminal = true) :
    (r.finish state).state.isTerminal = true := by
  unfold finish
  split_ifs with hr
  · exact hr
  · exact h

end Request

@[simp] theorem RequestHandle.request_read (r : RequestHandle) : r.read.2.request = r.request := by
  unfold read
  split <;> rfl

@[simp] theorem RequestHandle.path_read (r : RequestHandle) : r.read.2.path = r.path := by
  unfold read
  split <;> rfl

namespace Broker

variable {b : Broker}

/-- The number that the next request will have. -/
def nextId (b : Broker) : RequestId := b.requests.length + 1

theorem request?_congr {c : Broker} (h : c.requests = b.requests) (id : RequestId) :
    c.request? id = b.request? id := by
  cases id with
  | zero => rfl
  | succ n => simp only [request?, h]

theorem lt_nextId {id : RequestId} {r : Request} (h : b.request? id = some r) :
    0 < id ∧ id < b.nextId := by
  cases id with
  | zero => cases h
  | succ n =>
      have hn : n < b.requests.length := (List.getElem?_eq_some_iff.mp h).choose
      exact ⟨n.succ_pos, Nat.succ_lt_succ hn⟩

theorem outcome?_eq_none_iff {id : RequestId} {r : Request} (h : b.request? id = some r) :
    b.outcome? id = none ↔ r.state.isTerminal = false := by
  simp only [outcome?, h]
  cases r.state <;> simp [RequestState.isTerminal]

theorem deadline_of_timeout_none (ht : b.timeout = none) (id : RequestId) :
    b.deadline id = .never := by
  simp only [deadline, ht]

def state? (b : Broker) (id : RequestId) : Option RequestState := (b.request? id).map (·.state)

theorem state?_of_some {b : Broker} {id : RequestId} {r : Request} (h : b.request? id = some r) :
    b.state? id = some r.state := by
  rw [state?, h]
  rfl

theorem state?_congr {b c : Broker} {id : RequestId} (h : c.request? id = b.request? id) :
    c.state? id = b.state? id := by
  rw [state?, state?, h]

theorem state?_nextId (b : Broker) : b.state? b.nextId = none := by
  cases h : b.request? b.nextId with
  | none => rw [state?, h]; rfl
  | some r => exact absurd (lt_nextId h).2 (Nat.lt_irrefl _)

theorem request?_create (p : Path) (now : Nat) (j : RequestId) :
    (b.create p now).2.request? j =
      if j = b.nextId then some { path := p, created := now } else b.request? j := by
  cases j with
  | zero => rfl
  | succ n =>
      simp only [create, request?, nextId, Nat.succ.injEq]
      rcases Nat.lt_trichotomy n b.requests.length with h | h | h
      · rw [List.getElem?_append_left h, if_neg (by omega)]
      · simp [h]
      · rw [List.getElem?_eq_none (by simp; omega), List.getElem?_eq_none (by omega),
          if_neg (by omega)]

theorem request?_setState {id : RequestId} {r : Request} (h : b.request? id = some r)
    (state : RequestState) (j : RequestId) :
    (b.setState id state).request? j = if j = id then some { r with state } else b.request? j := by
  have hid := (lt_nextId h).1
  cases j with
  | zero => rw [if_neg (Nat.ne_of_lt hid)]; rfl
  | succ n =>
      simp only [setState, request?, List.getElem?_modify]
      by_cases hn : n + 1 = id
      · subst hn
        have h' : b.requests[n]? = some r := h
        simp [h']
      · have hi : id - 1 ≠ n := fun h => hn (by rw [← h]; exact Nat.sub_add_cancel hid)
        simp [hn, hi]

/-- What closing and expiring have in common. -/
def finish (b : Broker) (id : RequestId) (state : RequestState) : Broker :=
  match b.request? id with
  | some r => if r.state.isTerminal then b.withdraw id else (b.withdraw id).setState id state
  | none => b.withdraw id

theorem close_eq (b : Broker) (id : RequestId) :
    b.close id = { b.finish id .completed with counters := (b.close id).counters } := by
  have h : (b.withdraw id).request? id = b.request? id := rfl
  cases hr : b.request? id with
  | none => simp only [close, finish, h, hr]
  | some r => simp only [close, finish, h, hr]; split_ifs <;> rfl

theorem expire_eq (b : Broker) (id : RequestId) :
    b.expire id = { b.finish id .timedOut with counters := (b.expire id).counters } := by
  have h : (b.withdraw id).request? id = b.request? id := rfl
  cases hr : b.request? id with
  | none => simp only [expire, finish, h, hr]
  | some r => simp only [expire, finish, h, hr]; split_ifs <;> rfl

section Finish
variable {id : RequestId} {state : RequestState}

theorem request?_finish (b : Broker) (id : RequestId) (state : RequestState) (j : RequestId) :
    (b.finish id state).request? j =
      if j = id then (b.request? id).map (·.finish state) else b.request? j := by
  have hw (i : RequestId) : (b.withdraw id).request? i = b.request? i := request?_congr rfl i
  unfold finish
  cases hr : b.request? id with
  | none =>
      dsimp only
      rw [hw]
      split_ifs with hj
      · rw [hj, hr]
        rfl
      · rfl
  | some r =>
      dsimp only
      cases hs : r.state.isTerminal with
      | true =>
          rw [if_pos rfl, hw, Option.map_some, Request.finish_of_isTerminal hs]
          split_ifs with hj
          · rw [hj, hr]
          · rfl
      | false =>
          rw [if_neg Bool.noConfusion, request?_setState ((hw id).trans hr), hw, Option.map_some,
            Request.finish_of_live hs]

theorem request?_finish_of_ne {j : RequestId} (hj : j ≠ id) :
    (b.finish id state).request? j = b.request? j := by
  rw [request?_finish, if_neg hj]

theorem request?_finish_self {r : Request} (hr : b.request? id = some r) :
    (b.finish id state).request? id = some (r.finish state) := by
  rw [request?_finish, if_pos rfl, hr]
  rfl

theorem request?_close_self {r : Request} (hr : b.request? id = some r) :
    (b.close id).request? id = some (r.finish .completed) := by
  rw [close_eq]
  exact (request?_congr rfl id).trans (request?_finish_self hr)

theorem request?_close_of_ne {j : RequestId} (hj : j ≠ id) :
    (b.close id).request? j = b.request? j := by
  rw [close_eq]
  exact (request?_congr rfl j).trans (request?_finish_of_ne hj)

theorem request?_expire_self {r : Request} (hr : b.request? id = some r) :
    (b.expire id).request? id = some (r.finish .timedOut) := by
  rw [expire_eq]
  exact (request?_congr rfl id).trans (request?_finish_self hr)

theorem request?_expire_of_ne {j : RequestId} (hj : j ≠ id) :
    (b.expire id).request? j = b.request? j := by
  rw [expire_eq]
  exact (request?_congr rfl j).trans (request?_finish_of_ne hj)

theorem timeout_finish (b : Broker) (id : RequestId) (state : RequestState) :
    (b.finish id state).timeout = b.timeout := by
  unfold finish
  split
  · split_ifs <;> rfl
  · rfl

theorem queue_finish (b : Broker) (id : RequestId) (state : RequestState) :
    (b.finish id state).queue = b.queue.filter (· ≠ id) := by
  unfold finish
  split
  · split_ifs <;> rfl
  · rfl

theorem queue_expire (b : Broker) (id : RequestId) :
    (b.expire id).queue = b.queue.filter (· ≠ id) := by
  rw [expire_eq]
  exact queue_finish b id .timedOut

theorem queue_close (b : Broker) (id : RequestId) :
    (b.close id).queue = b.queue.filter (· ≠ id) := by
  rw [close_eq]
  exact queue_finish b id .completed

theorem inFlight_finish (b : Broker) (id : RequestId) (state : RequestState) :
    (b.finish id state).inFlight = (b.withdraw id).inFlight := by
  unfold finish
  split
  · split_ifs <;> rfl
  · rfl

end Finish

section Take
variable {id : RequestId} {r : Request} {rest : List RequestId}

/-- What is left when the request at the front of the queue went to the helper. -/
def deliver (b : Broker) (id : RequestId) : Broker :=
  { b.setState id .delivered with
    queue := b.queue.tail
    counters := { b.counters with delivered := b.counters.delivered + 1 } }

theorem request?_deliver (hr : b.request? id = some r) (j : RequestId) :
    (b.deliver id).request? j =
      if j = id then some { r with state := .delivered } else b.request? j :=
  request?_setState hr .delivered j

theorem takeHandle_of_ne {c : SessionId} (hs : b.session ≠ some c) :
    b.takeHandle c = .error .detached := by
  simp [takeHandle, take, hs]

theorem takeHandle_nil {c : SessionId} (hs : b.session = some c) (hq : b.queue = []) :
    b.takeHandle c = .ok (none, b) := by
  simp [takeHandle, take, hs, hq]

end Take

section Ask
variable {p : Path} {id : RequestId}

def countJoin (b : Broker) : Broker :=
  { b with counters := { b.counters with joined := b.counters.joined + 1 } }

def enqueue (b : Broker) (p : Path) (now : Nat) : Broker :=
  { (b.create p now).2 with queue := b.queue ++ [b.nextId] }

theorem ask_of_some (hp : b.inFlight.get? p = some id) (now : Nat) :
    b.ask p now = (id, b.countJoin) := by
  simp only [ask, hp, countJoin]

theorem ask_of_none (hp : b.inFlight.get? p = none) (now : Nat) :
    b.ask p now = (b.nextId, b.enqueue p now) := by
  simp only [ask, hp]
  rfl

theorem request?_enqueue (b : Broker) (p : Path) (now : Nat) (j : RequestId) :
    (b.enqueue p now).request? j =
      if j = b.nextId then some { path := p, created := now } else b.request? j :=
  request?_create p now j

end Ask

section Attach
variable {id : RequestId}

/-- A new session begins. -/
def openSession (b : Broker) : Broker :=
  { b with session := some (b.sessions + 1), sessions := b.sessions + 1 }

/-- What the first helper of all finds: a request for the root stands at the front. -/
def bootstrap (b : Broker) (now : Nat) : Broker :=
  match b.inFlight.get? Path.root with
  | some id =>
    if id ∈ b.queue then { b with bootstrapped := true, queue := id :: b.queue.filter (· ≠ id) }
    else { b with bootstrapped := true }
  | none =>
    { (b.create Path.root now).2 with bootstrapped := true, queue := b.nextId :: b.queue }

theorem timeout_bootstrap (b : Broker) (now : Nat) : (b.bootstrap now).timeout = b.timeout := by
  unfold bootstrap
  split
  · split_ifs <;> rfl
  · rfl

@[simp] theorem bootstrapped_bootstrap (b : Broker) (now : Nat) :
    (b.bootstrap now).bootstrapped = true := by
  unfold bootstrap
  split
  · split_ifs <;> rfl
  · rfl

@[simp] theorem sessions_bootstrap (b : Broker) (now : Nat) :
    (b.bootstrap now).sessions = b.sessions := by
  unfold bootstrap
  split
  · split_ifs <;> rfl
  · rfl

theorem attach_of_isSome (hs : b.session.isSome = true) (now : Nat) :
    b.attach now = .error .alreadyInUse := by
  simp [attach, hs]

theorem attach_again (hs : b.session = none) (hb : b.bootstrapped = true) (now : Nat) :
    b.attach now = .ok (b.sessions + 1, b.openSession) := by
  simp [attach, openSession, hs, hb]

theorem session_detach (b : Broker) (c : SessionId) :
    (b.detach c).session = if b.session = some c then none else b.session := by
  unfold Broker.detach
  split_ifs <;> rfl

/-- Only the session can change. -/
theorem detach_eq (b : Broker) (c : SessionId) :
    b.detach c = { b with session := (b.detach c).session } := by
  unfold Broker.detach
  split_ifs <;> rfl

theorem detach_of_ne {c : SessionId} (hs : b.session ≠ some c) : b.detach c = b := if_neg hs

@[simp] theorem request?_detach (b : Broker) (c : SessionId) (j : RequestId) :
    (b.detach c).request? j = b.request? j := by
  rw [detach_eq]
  exact request?_congr rfl j

@[simp] theorem queue_detach (b : Broker) (c : SessionId) : (b.detach c).queue = b.queue := by
  rw [detach_eq]

@[simp] theorem bootstrapped_detach (b : Broker) (c : SessionId) :
    (b.detach c).bootstrapped = b.bootstrapped := by
  rw [detach_eq]

theorem request?_bootstrap_of_some (hp : b.inFlight.get? Path.root = some id) (now : Nat)
    (j : RequestId) : (b.bootstrap now).request? j = b.request? j := by
  simp only [Broker.bootstrap, hp]
  split_ifs <;> exact request?_congr rfl j

theorem request?_bootstrap_of_none (hp : b.inFlight.get? Path.root = none) (now : Nat)
    (j : RequestId) : (b.bootstrap now).request? j =
      if j = b.nextId then some { path := Path.root, created := now } else b.request? j := by
  rw [← request?_create]
  simp only [Broker.bootstrap, hp]
  exact request?_congr rfl j

end Attach

/-- Whoever is the helper stays the helper, and nobody else becomes it. -/
structure SameSeat (b c : Broker) : Prop where
  session : c.session = b.session
  sessions : c.sessions = b.sessions
  bootstrapped : c.bootstrapped = b.bootstrapped

namespace SameSeat

theorem finish (b : Broker) (id : RequestId) (state : RequestState) :
    SameSeat b (b.finish id state) := by
  unfold Broker.finish
  split
  · split_ifs <;> exact ⟨rfl, rfl, rfl⟩
  · exact ⟨rfl, rfl, rfl⟩

theorem close (b : Broker) (id : RequestId) : SameSeat b (b.close id) := by
  have h := finish b id .completed
  rw [close_eq]
  exact ⟨h.session, h.sessions, h.bootstrapped⟩

theorem expire (b : Broker) (id : RequestId) : SameSeat b (b.expire id) := by
  have h := finish b id .timedOut
  rw [expire_eq]
  exact ⟨h.session, h.sessions, h.bootstrapped⟩

end SameSeat

/-- Requests stay, and what is over stays as it is. -/
def Keeps (b c : Broker) : Prop :=
  ∀ (id : RequestId) (q : Request), b.request? id = some q →
    ∃ q', c.request? id = some q' ∧ q'.path = q.path ∧ q'.created = q.created ∧
      (q.state.isTerminal = true → q'.state = q.state)

namespace Keeps

variable {c : Broker}

theorem of_eq (h : ∀ j, c.request? j = b.request? j) : Keeps b c :=
  fun id q hq => ⟨q, (h id).trans hq, rfl, rfl, fun _ => rfl⟩

theorem of_new {r : Request}
    (h : ∀ j, c.request? j = if j = b.nextId then some r else b.request? j) : Keeps b c := by
  intro id q hq
  have hid : id ≠ b.nextId := fun he => Nat.lt_irrefl _ (he ▸ (lt_nextId hq).2)
  exact ⟨q, by rw [h, if_neg hid, hq], rfl, rfl, fun _ => rfl⟩

theorem finish (b : Broker) (id : RequestId) (state : RequestState) :
    Keeps b (b.finish id state) := by
  intro j q hq
  by_cases hj : j = id
  · subst hj
    refine ⟨q.finish state, by rw [request?_finish, if_pos rfl, hq]; rfl, Request.path_finish,
      Request.created_finish, fun ht => ?_⟩
    rw [Request.finish_of_isTerminal ht]
  · exact ⟨q, by rw [request?_finish_of_ne hj, hq], rfl, rfl, fun _ => rfl⟩

theorem close (b : Broker) (id : RequestId) : Keeps b (b.close id) := by
  intro j q hq
  rw [close_eq]
  exact finish b id .completed j q hq

theorem expire (b : Broker) (id : RequestId) : Keeps b (b.expire id) := by
  intro j q hq
  rw [expire_eq]
  exact finish b id .timedOut j q hq

theorem deliver {id : RequestId} {r : Request} (hr : b.request? id = some r)
    (hq : r.state = .queued) : Keeps b (b.deliver id) := by
  intro j q hj
  by_cases h : j = id
  · subst h
    rw [hr] at hj
    cases hj
    refine ⟨_, (request?_deliver hr j).trans (if_pos rfl), rfl, rfl, fun ht => ?_⟩
    rw [hq] at ht
    cases ht
  · exact ⟨q, by rw [request?_deliver hr, if_neg h, hj], rfl, rfl, fun _ => rfl⟩

theorem bootstrap (b : Broker) (now : Nat) : Keeps b (b.bootstrap now) := by
  cases hp : b.inFlight.get? Path.root with
  | some id => exact of_eq (request?_bootstrap_of_some hp now)
  | none => exact of_new (request?_bootstrap_of_none hp now)

end Keeps

/-- At most one request is new, and it is queued. -/
def Grows (b c : Broker) : Prop :=
  ∀ id, c.state? id = b.state? id ∨ (b.state? id = none ∧ c.state? id = some .queued)

namespace Grows

variable {c : Broker}

theorem of_eq (h : ∀ j, c.request? j = b.request? j) : Grows b c :=
  fun id => .inl (state?_congr (h id))

theorem of_new {p : Path} {now : Nat} (h : ∀ j, c.request? j =
    if j = b.nextId then some { path := p, created := now } else b.request? j) : Grows b c := by
  intro id
  by_cases hid : id = b.nextId
  · exact .inr ⟨hid ▸ state?_nextId b, state?_of_some ((h id).trans (if_pos hid))⟩
  · exact .inl (state?_congr ((h id).trans (if_neg hid)))

theorem bootstrap (b : Broker) (now : Nat) : Grows b (b.bootstrap now).openSession := by
  cases hp : b.inFlight.get? Path.root with
  | some id => exact of_eq (request?_bootstrap_of_some hp now)
  | none => exact of_new (request?_bootstrap_of_none hp now)

end Grows

end Broker
end OnDemandFs
