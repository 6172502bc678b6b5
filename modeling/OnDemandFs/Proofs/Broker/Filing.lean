import OnDemandFs.Proofs.Broker.Requests
import OnDemandFs.Proofs.Table.Keys
import Mathlib.Tactic.Tauto

/-!
# Where the broker files its requests

A request that nobody has answered yet stands in `inFlight` under its own path, and in `queue` for
as long as no helper has it; a request that is over stands in neither. `Filed` says so, and each
operation of the broker keeps it. Finishing a request takes it out of both tables and leaves every
other row where it was; finishing one that is over already changes nothing at all.
-/
namespace OnDemandFs
namespace Broker

variable {b : Broker}

/-- Every live request stands in flight under its own path, every queued one in the queue, and
nothing else stands in either. -/
structure Filed (b : Broker) : Prop where
  keys_nodup : b.inFlight.keys.Nodup
  inFlight_iff (p : Path) (id : RequestId) : b.inFlight.get? p = some id ↔
    ∃ r, b.request? id = some r ∧ r.path = p ∧ r.state.isTerminal = false
  queue_nodup : b.queue.Nodup
  mem_queue (id : RequestId) :
    id ∈ b.queue ↔ ∃ r, b.request? id = some r ∧ r.state = .queued

theorem filed_new (timeout : Option Nat) : Filed { timeout } where
  keys_nodup := List.nodup_nil
  inFlight_iff p id := by cases id <;> simp [request?]
  queue_nodup := List.nodup_nil
  mem_queue id := by cases id <;> simp [request?]

namespace Filed

variable {p : Path} {id : RequestId} {r : Request}

theorem get?_path_iff (h : b.Filed) (hr : b.request? id = some r) :
    b.inFlight.get? r.path = some id ↔ r.state.isTerminal = false := by
  rw [h.inFlight_iff]
  constructor
  · rintro ⟨r', hr', -, hs⟩
    rw [hr] at hr'
    cases hr'
    exact hs
  · exact fun hs => ⟨r, hr, rfl, hs⟩

theorem mem_queue_iff (h : b.Filed) (hr : b.request? id = some r) :
    id ∈ b.queue ↔ r.state = .queued := by
  rw [h.mem_queue]
  constructor
  · rintro ⟨r', hr', hs⟩
    rw [hr] at hr'
    cases hr'
    exact hs
  · exact fun hs => ⟨r, hr, hs⟩

theorem nextId_notMem_queue (h : b.Filed) : b.nextId ∉ b.queue := by
  intro hm
  obtain ⟨r, hr, -⟩ := (h.mem_queue _).mp hm
  exact Nat.lt_irrefl _ (lt_nextId hr).2

/-- Only the requests and the two tables count. -/
theorem congr {c : Broker} (h : b.Filed) (hr : c.requests = b.requests)
    (hi : c.inFlight = b.inFlight) (hq : c.queue = b.queue) : c.Filed := by
  have hreq (j : RequestId) : c.request? j = b.request? j := request?_congr hr j
  refine ⟨hi ▸ h.keys_nodup, fun p id => ?_, hq ▸ h.queue_nodup, fun id => ?_⟩
  · rw [hi, hreq]
    exact h.inFlight_iff p id
  · rw [hq, hreq]
    exact h.mem_queue id

/-- The rows of the queue may be put in another order. -/
theorem reorder (h : b.Filed) {queue : List RequestId} (hq : queue.Nodup)
    (hm : ∀ j, j ∈ queue ↔ j ∈ b.queue) : Filed { b with queue } where
  keys_nodup := h.keys_nodup
  inFlight_iff := h.inFlight_iff
  queue_nodup := hq
  mem_queue j := (hm j).trans (h.mem_queue j)

/-- A new request may be put anywhere in the queue. -/
theorem create (h : b.Filed) (hp : b.inFlight.get? p = none) (now : Nat)
    {queue : List RequestId} (hq : queue.Nodup)
    (hm : ∀ j, j ∈ queue ↔ j ∈ b.queue ∨ j = b.nextId) :
    Filed { (b.create p now).2 with queue } where
  keys_nodup := Table.nodup_keys_set h.keys_nodup _ _
  queue_nodup := hq
  inFlight_iff q id := by
    change (b.inFlight.set p b.nextId).get? q = some id ↔
      ∃ r, (b.create p now).2.request? id = some r ∧ r.path = q ∧ r.state.isTerminal = false
    rw [Table.get?_set, request?_create]
    by_cases hid : id = b.nextId
    · subst hid
      have hold : b.inFlight.get? q ≠ some b.nextId := by
        intro hget
        obtain ⟨r, hr, -⟩ := (h.inFlight_iff _ _).mp hget
        exact Nat.lt_irrefl _ (lt_nextId hr).2
      by_cases hqp : q = p
      · simp [hqp, RequestState.isTerminal]
      · simp [hqp, hold, Ne.symm hqp]
    · rw [if_neg hid, ← h.inFlight_iff]
      by_cases hqp : q = p
      · simp [hqp, hp, Ne.symm hid]
      · rw [if_neg hqp]
  mem_queue id := by
    change id ∈ queue ↔ ∃ r, (b.create p now).2.request? id = some r ∧ r.state = .queued
    rw [hm, request?_create, h.mem_queue]
    by_cases hid : id = b.nextId
    · simp [hid]
    · simp [hid]

end Filed

theorem filter_ne_eq_self {id : RequestId} {l : List RequestId} (h : id ∉ l) :
    l.filter (· ≠ id) = l := by
  rw [List.filter_eq_self]
  intro j hj
  have hne : j ≠ id := fun he => h (he ▸ hj)
  simpa using hne

section Finish
variable {id : RequestId} {r : Request} {state : RequestState}

theorem Filed.get?_finish (h : b.Filed) (hr : b.request? id = some r) (p : Path) :
    (b.finish id state).inFlight.get? p =
      if b.inFlight.get? p = some id then none else b.inFlight.get? p := by
  have hpath : b.inFlight.get? p = some id → p = r.path := by
    intro hp
    obtain ⟨r', hr', he, -⟩ := (h.inFlight_iff _ _).mp hp
    rw [hr] at hr'
    cases hr'
    exact he.symm
  rw [inFlight_finish]
  simp only [withdraw, hr]
  by_cases hl : b.inFlight.get? r.path = some id
  · rw [if_pos hl, Table.get?_erase]
    by_cases hp : p = r.path
    · rw [if_pos hp, if_pos (hp ▸ hl)]
    · rw [if_neg hp, if_neg (fun hget => hp (hpath hget))]
  · rw [if_neg hl, if_neg]
    intro hp
    exact hl (hpath hp ▸ hp)

theorem Filed.finish_of_some (h : b.Filed) (hr : b.request? id = some r)
    (ht : state.isTerminal = true) : (b.finish id state).Filed where
  keys_nodup := by
    rw [inFlight_finish]
    simp only [withdraw, hr]
    split_ifs
    · exact Table.nodup_keys_erase h.keys_nodup _
    · exact h.keys_nodup
  queue_nodup := by
    rw [queue_finish]
    exact h.queue_nodup.filter _
  inFlight_iff p j := by
    rw [h.get?_finish hr]
    by_cases hj : j = id
    · subst hj
      rw [request?_finish, if_pos rfl, hr]
      constructor
      · intro hp
        split_ifs at hp with hc
        exact absurd hp hc
      · rintro ⟨r', hr', -, hs⟩
        cases hr'
        rw [Request.isTerminal_finish ht] at hs
        cases hs
    · rw [request?_finish_of_ne hj, ← h.inFlight_iff]
      split_ifs with hc
      · simp [hc, Ne.symm hj]
      · rfl
  mem_queue j := by
    rw [queue_finish, List.mem_filter]
    by_cases hj : j = id
    · subst hj
      rw [request?_finish, if_pos rfl, hr]
      constructor
      · rintro ⟨-, hne⟩
        simp at hne
      · rintro ⟨r', hr', hs⟩
        cases hr'
        have hover := Request.isTerminal_finish (r := r) ht
        rw [hs] at hover
        cases hover
    · rw [request?_finish_of_ne hj, ← h.mem_queue]
      simp [hj]

/-- A request that is over stands in no table, so finishing it again changes nothing. -/
theorem Filed.finish_eq_self (h : b.Filed) (hr : b.request? id = some r)
    (ht : r.state.isTerminal = true) : b.finish id state = b := by
  have hget : b.inFlight.get? r.path ≠ some id := by
    rw [Ne, h.get?_path_iff hr, ht]
    exact Bool.noConfusion
  have hne : id ∉ b.queue := by
    rw [h.mem_queue_iff hr]
    intro hq
    rw [hq] at ht
    cases ht
  simp only [Broker.finish, hr, ht, if_true, withdraw, if_neg hget, filter_ne_eq_self hne]

theorem Filed.finish_of_none (h : b.Filed) (hr : b.request? id = none) :
    b.finish id state = b := by
  have hne : id ∉ b.queue := by
    rw [h.mem_queue, hr]
    simp
  simp only [Broker.finish, hr, withdraw, filter_ne_eq_self hne]

theorem Filed.finish (h : b.Filed) (id : RequestId) (ht : state.isTerminal = true) :
    (b.finish id state).Filed := by
  cases hr : b.request? id with
  | none =>
      rw [h.finish_of_none hr]
      exact h
  | some r => exact h.finish_of_some hr ht

theorem Filed.close (h : b.Filed) (id : RequestId) : (b.close id).Filed := by
  have hfinish : (b.finish id .completed).Filed := h.finish id rfl
  rw [close_eq]
  exact hfinish.congr rfl rfl rfl

theorem Filed.expire (h : b.Filed) (id : RequestId) : (b.expire id).Filed := by
  have hfinish : (b.finish id .timedOut).Filed := h.finish id rfl
  rw [expire_eq]
  exact hfinish.congr rfl rfl rfl

theorem Filed.close_of_timedOut (h : b.Filed) (hr : b.request? id = some r)
    (hs : r.state = .timedOut) : b.close id = b := by
  have hw : (b.withdraw id).request? id = some r := hr
  have hcounters : (b.close id).counters = b.counters := by
    simp only [Broker.close, hw, hs, if_true]
    rfl
  rw [close_eq, h.finish_eq_self hr (by rw [hs]; rfl), hcounters]

theorem Filed.get?_expire (h : b.Filed) (hr : b.request? id = some r) (p : Path) :
    (b.expire id).inFlight.get? p =
      if b.inFlight.get? p = some id then none else b.inFlight.get? p := by
  rw [expire_eq]
  exact h.get?_finish hr p

end Finish

section Take
variable {id : RequestId} {r : Request} {rest : List RequestId}

theorem Filed.takeHandle_cons (h : b.Filed) {c : SessionId} (hs : b.session = some c)
    (hq : b.queue = id :: rest) :
    ∃ r, b.request? id = some r ∧ r.state = .queued ∧
      b.takeHandle c = .ok (some { request := id, path := r.path }, b.deliver id) := by
  obtain ⟨r, hr, hqd⟩ := (h.mem_queue id).mp (hq ▸ List.mem_cons_self)
  have ht : b.take c = .ok (some id, b.deliver id) := by
    simp [take, deliver, hs, hq, hr, hqd]
  have hd : (b.deliver id).request? id = some { r with state := .delivered } := by
    rw [request?_deliver hr, if_pos rfl]
  exact ⟨r, hr, hqd, by simp [takeHandle, ht, hd]⟩

theorem Filed.deliver (h : b.Filed) (hq : b.queue = id :: rest) (hr : b.request? id = some r) :
    (b.deliver id).Filed where
  keys_nodup := h.keys_nodup
  inFlight_iff p j := by
    have hqd := (h.mem_queue_iff hr).mp (hq ▸ List.mem_cons_self)
    rw [request?_deliver hr]
    refine (h.inFlight_iff p j).trans ?_
    by_cases hj : j = id
    · subst hj
      simp [hr, hqd, RequestState.isTerminal]
    · rw [if_neg hj]
  queue_nodup := by
    have hn := h.queue_nodup
    rw [hq] at hn
    simpa [Broker.deliver, hq] using (List.nodup_cons.mp hn).2
  mem_queue j := by
    have hn := h.queue_nodup
    rw [hq, List.nodup_cons] at hn
    have hrest : (b.deliver id).queue = rest := by simp [Broker.deliver, hq]
    rw [request?_deliver hr, hrest]
    by_cases hj : j = id
    · subst hj
      simp [hn.1]
    · rw [if_neg hj, ← h.mem_queue, hq, List.mem_cons, or_iff_right hj]

end Take

section Ask
variable {p : Path}

theorem Filed.countJoin (h : b.Filed) : b.countJoin.Filed := h.congr rfl rfl rfl

theorem Filed.enqueue (h : b.Filed) (hp : b.inFlight.get? p = none) (now : Nat) :
    (b.enqueue p now).Filed := by
  refine h.create hp now ?_ (by simp)
  rw [List.nodup_append]
  refine ⟨h.queue_nodup, by simp, ?_⟩
  rintro a ha c hc rfl
  rw [List.mem_singleton.mp hc] at ha
  exact h.nextId_notMem_queue ha

end Ask

section Attach

theorem Filed.attach_first (h : b.Filed) (hs : b.session = none) (hb : b.bootstrapped = false)
    (now : Nat) : b.attach now = .ok (b.sessions + 1, (b.bootstrap now).openSession) := by
  cases hp : b.inFlight.get? Path.root with
  | some id =>
      obtain ⟨r, hr, -, -⟩ := (h.inFlight_iff _ _).mp hp
      have hr' {c : Broker} (hc : c.requests = b.requests) : c.request? id = some r :=
        (request?_congr hc id).trans hr
      by_cases hq : r.state = .queued
      · have hm := (h.mem_queue_iff hr).mpr hq
        simp [attach, Broker.bootstrap, openSession, hs, hb, hp, hm, hr', hq]
      · have hm := mt (h.mem_queue_iff hr).mp hq
        have hf : ∀ a ∈ b.queue, ¬a = id := fun a ha he => hm (he ▸ ha)
        simpa [attach, Broker.bootstrap, openSession, hs, hb, hp, hm, hr', hq] using hf
  | none =>
      have hr (c : Broker) : (c.create Path.root now).2.request? (c.create Path.root now).1 =
          some { path := Path.root, created := now } := by
        rw [request?_create]
        exact if_pos rfl
      simp only [attach, hs, hb, hp, Option.isSome_none, Bool.false_eq_true, if_false]
      rw [hr]
      simp only [Broker.bootstrap, hp, if_true]
      rfl

theorem Filed.bootstrap (h : b.Filed) (now : Nat) : (b.bootstrap now).Filed := by
  unfold Broker.bootstrap
  cases hp : b.inFlight.get? Path.root with
  | some id =>
      have hf : id ∉ b.queue.filter (· ≠ id) := by simp
      dsimp only
      split_ifs with hm
      · have hqueue := h.reorder (List.nodup_cons.mpr ⟨hf, h.queue_nodup.filter _⟩) (fun j => by
          by_cases hj : j = id
          · simp [hj, hm]
          · simp [hj])
        exact hqueue.congr rfl rfl rfl
      · exact h.congr rfl rfl rfl
  | none =>
      have hqueue := h.create hp now
        (List.nodup_cons.mpr ⟨h.nextId_notMem_queue, h.queue_nodup⟩)
        (fun j => by rw [List.mem_cons, or_comm])
      exact hqueue.congr rfl rfl rfl

/-- The first helper finds the one live request for the root at the front, an old one if there is
one in the queue. -/
theorem Filed.queue_bootstrap (h : b.Filed)
    (hroot : ∀ j, b.inFlight.get? Path.root = some j → j ∈ b.queue) (now : Nat) :
    ∃ id, (b.bootstrap now).queue = id :: b.queue.filter (· ≠ id) ∧
      (b.bootstrap now).inFlight.get? Path.root = some id ∧
      (b.inFlight.get? Path.root = none ∧ id = b.nextId ∨
        b.inFlight.get? Path.root = some id ∧ (b.bootstrap now).requests = b.requests) := by
  unfold Broker.bootstrap
  cases hp : b.inFlight.get? Path.root with
  | some id =>
      refine ⟨id, ?_, ?_, .inr ⟨rfl, ?_⟩⟩ <;> simp [hroot id hp, hp]
  | none =>
      refine ⟨b.nextId, ?_, Table.get?_set_self _ _ _, .inl ⟨rfl, rfl⟩⟩
      rw [filter_ne_eq_self h.nextId_notMem_queue]

theorem Filed.openSession (h : b.Filed) : b.openSession.Filed := h.congr rfl rfl rfl

theorem Filed.detach (h : b.Filed) (c : SessionId) : (b.detach c).Filed := by
  rw [detach_eq]
  exact h.congr rfl rfl rfl

end Attach

end Broker
end OnDemandFs
