import OnDemandFs.Proofs.Broker.Overdue

/-!
# The counters balance

Every request that was created is completed, timed out or in flight; and it went to a helper, is
still in the queue or ran out of time there. Every call created a request or joined one, and the
first helper may have created one more.

The counters are compared with the log, which counts for itself: `ended` lists the requests by their
first end, `lost` those whose time ran out before they went to anybody, and `bootstraps` says
whether the first helper had to ask for the root itself. `Books` is what each step keeps of all
this.
-/
namespace OnDemandFs

theorem RequestState.verdict?_eq_none_iff (s : RequestState) :
    s.verdict? = none ↔ s.isTerminal = false := by
  cases s <;> simp [verdict?, isTerminal]

namespace Broker

/-! ### What the operations count -/

section Operations
variable {b : Broker} {id : RequestId} {r : Request}

theorem counters_close (hr : b.request? id = some r) (hs : r.state ≠ .timedOut) :
    (b.close id).counters = { b.counters with completed := b.counters.completed + 1 } := by
  have hw : (b.withdraw id).request? id = some r := hr
  simp only [close, hw, if_neg hs]
  split_ifs <;> rfl

theorem counters_expire (hr : b.request? id = some r) (hs : r.state.isTerminal = false) :
    (b.expire id).counters = { b.counters with timedOut := b.counters.timedOut + 1 } := by
  have hw : (b.withdraw id).request? id = some r := hr
  simp only [expire, hw, hs, Bool.false_eq_true, if_false]
  rfl

theorem Filed.expire_of_isTerminal (h : b.Filed) (hr : b.request? id = some r)
    (hs : r.state.isTerminal = true) : b.expire id = b := by
  have hw : (b.withdraw id).request? id = some r := hr
  have hcounters : (b.expire id).counters = b.counters := by
    simp only [Broker.expire, hw, hs, if_true]
    rfl
  rw [expire_eq, h.finish_eq_self hr hs, hcounters]

theorem length_requests_finish (b : Broker) (id : RequestId) (state : RequestState) :
    (b.finish id state).requests.length = b.requests.length := by
  unfold Broker.finish
  split
  · split_ifs
    · rfl
    · exact List.length_modify ..
  · rfl

theorem Filed.length_inFlight_finish (h : b.Filed) (hr : b.request? id = some r)
    (hs : r.state.isTerminal = false) (state : RequestState) :
    (b.finish id state).inFlight.length + 1 = b.inFlight.length := by
  have hget := (h.get?_path_iff hr).mpr hs
  rw [inFlight_finish]
  simp only [withdraw, hr, if_pos hget]
  exact (Table.perm_erase h.keys_nodup hget).length_eq.symm

theorem Filed.length_queue_finish (h : b.Filed) (hr : b.request? id = some r)
    (state : RequestState) :
    (b.finish id state).queue.length + (if r.state = .queued then 1 else 0) =
      b.queue.length := by
  rw [queue_finish]
  split_ifs with hs
  · have hm := (h.mem_queue_iff hr).mpr hs
    have herase : b.queue.filter (· ≠ id) = b.queue.erase id := by
      rw [h.queue_nodup.erase_eq_filter]
      refine List.filter_congr fun j _ => ?_
      by_cases hj : j = id <;> simp [hj]
    rw [herase, List.length_erase_of_mem hm]
    exact Nat.sub_add_cancel (List.length_pos_of_mem hm)
  · rw [filter_ne_eq_self fun hm => hs ((h.mem_queue_iff hr).mp hm), Nat.add_zero]

theorem length_inFlight_create {p : Path} (hp : b.inFlight.get? p = none) (h : b.Filed)
    (now : Nat) : (b.create p now).2.inFlight.length = b.inFlight.length + 1 := by
  have hperm := Table.perm_set h.keys_nodup p b.nextId
  rw [Table.erase_of_get?_none hp] at hperm
  exact hperm.length_eq

theorem Filed.length_queue_bootstrap_of_some (h : b.Filed)
    (hp : b.inFlight.get? Path.root = some id) (now : Nat) :
    (b.bootstrap now).queue.length = b.queue.length := by
  obtain ⟨r, hr, -⟩ := (h.inFlight_iff _ _).mp hp
  simp only [Broker.bootstrap, hp]
  split_ifs with hm
  · have hqueue := h.length_queue_finish hr .timedOut
    rw [queue_finish, if_pos ((h.mem_queue_iff hr).mp hm)] at hqueue
    exact hqueue
  · rfl

end Operations

/-! ### What the log counts -/

/-- The end that an event puts to a request, the first or a later one. -/
def Event.ending? : Event → Option (RequestId × Verdict)
  | ⟨.close h, _⟩ => some (h.request, .closed)
  | ⟨.expire _, .returned id _⟩ => some (id, .expired)
  | _ => none

/-- The request that comes to its first end with an event, if it is this end. -/
def endedBy? (d : Verdict) (log : List Event) (e : Event) : Option RequestId :=
  match e.ending? with
  | some (id, d') => if d' = d ∧ verdict? log id = none then some id else none
  | none => none

/-- The requests whose first end was this one, latest first. -/
def ended (d : Verdict) : List Event → List RequestId
  | [] => []
  | e :: log => (endedBy? d log e).toList ++ ended d log

/-- The requests whose time ran out before they went to a helper, latest first. -/
def lost : List Event → List RequestId
  | [] => []
  | e :: log => (endedBy? .expired log e).toList.filter (· ∉ deliveries log) ++ lost log

def Event.isSeated : Event → Bool
  | ⟨.attach, .channel _⟩ => true
  | _ => false

/-- The request that a call for the path was given. -/
def Event.asked? (p : Path) : Event → Option RequestId
  | ⟨.fetch q, .asked _ id⟩ => if q = p then some id else none
  | _ => none

/-- Some call asked for the path, and its request has not come to an end. -/
def isAwaited (log : List Event) (p : Path) : Bool :=
  (log.filterMap (Event.asked? p)).any fun id => (verdict? log id).isNone

/-- How often a helper made a request of its own when it came: the first one does, unless somebody
waits for the root already. -/
def bootstraps : List Event → Nat
  | [] => 0
  | e :: log => (if e.isSeated && !log.any Event.isSeated && !isAwaited log Path.root then 1
      else 0) + bootstraps log

def Event.closes (id : RequestId) : Event → Bool
  | ⟨.close h, _⟩ => h.request = id
  | _ => false

section Log
variable {e : Event} {log : List Event} {id : RequestId} {d : Verdict}

theorem Event.ending?_of_isQuiet (h : e.isQuiet = true) : e.ending? = none := by
  obtain ⟨a, r⟩ := e
  cases a <;> first | rfl | (cases r <;> cases h)

theorem Event.verdict?_eq_some_iff : e.verdict? id = some d ↔ e.ending? = some (id, d) := by
  obtain ⟨a, r⟩ := e
  cases a with
  | close h => simp [Event.verdict?, Event.ending?]
  | expire k => cases r <;> simp [Event.verdict?, Event.ending?]
  | _ => simp [Event.verdict?, Event.ending?]

theorem endedBy?_eq_some_iff :
    endedBy? d log e = some id ↔ e.ending? = some (id, d) ∧ verdict? log id = none := by
  unfold endedBy?
  cases he : e.ending? with
  | none => simp
  | some end' =>
      obtain ⟨j, d'⟩ := end'
      simp only [Option.ite_none_right_eq_some, Option.some.injEq, Prod.mk.injEq]
      constructor
      · rintro ⟨⟨rfl, hv⟩, rfl⟩
        exact ⟨⟨rfl, rfl⟩, hv⟩
      · rintro ⟨⟨rfl, rfl⟩, hv⟩
        exact ⟨⟨rfl, hv⟩, rfl⟩

theorem endedBy?_of_none (h : e.ending? = none) : endedBy? d log e = none := by
  rw [endedBy?, h]

theorem ended_of_ending?_none (h : e.ending? = none) : ended d (e :: log) = ended d log := by
  rw [ended, endedBy?_of_none h]
  rfl

theorem lost_of_ending?_none (h : e.ending? = none) : lost (e :: log) = lost log := by
  rw [lost, endedBy?_of_none h]
  rfl

/-- A later end changes nothing. -/
theorem endedBy?_of_verdict? {d' v : Verdict} (h : e.ending? = some (id, d'))
    (hv : verdict? log id = some v) : endedBy? d log e = none := by
  simp only [endedBy?, h, hv, reduceCtorEq, and_false, if_false]

theorem endedBy?_of_first {d' : Verdict} (h : e.ending? = some (id, d'))
    (hv : verdict? log id = none) : endedBy? d log e = if d' = d then some id else none := by
  simp only [endedBy?, h, hv, and_true]

theorem mem_ended_iff : id ∈ ended d log ↔ verdict? log id = some d := by
  induction log with
  | nil => simp [ended, verdict?]
  | cons e log ih =>
      simp only [ended, List.mem_append, Option.mem_toList, ih, verdict?_cons,
        endedBy?_eq_some_iff]
      cases hv : verdict? log id with
      | none => simp [Event.verdict?_eq_some_iff]
      | some d' => simp

theorem nodup_ended (d : Verdict) (log : List Event) : (ended d log).Nodup := by
  induction log with
  | nil => exact List.nodup_nil
  | cons e log ih =>
      rw [ended]
      cases he : endedBy? d log e with
      | none => exact ih
      | some id =>
          refine List.nodup_cons.mpr ⟨fun hm => ?_, ih⟩
          change id ∈ ended d log at hm
          rw [mem_ended_iff, (endedBy?_eq_some_iff.mp he).2] at hm
          cases hm

theorem disjoint_ended (log : List Event) :
    (ended .closed log).Disjoint (ended .expired log) := by
  intro id hc he
  rw [mem_ended_iff] at hc he
  rw [hc] at he
  cases he

theorem bootstraps_of_not_isSeated (h : e.isSeated = false) :
    bootstraps (e :: log) = bootstraps log := by
  simp [bootstraps, h]

/-- Nobody but the first helper brings a request of its own. -/
theorem bootstraps_eq_zero (h : log.any Event.isSeated = false) : bootstraps log = 0 := by
  induction log with
  | nil => rfl
  | cons e log ih =>
      rw [List.any_cons, Bool.or_eq_false_iff] at h
      rw [bootstraps_of_not_isSeated h.1, ih h.2]

theorem bootstraps_le_one (log : List Event) : bootstraps log ≤ 1 := by
  induction log with
  | nil => exact Nat.zero_le 1
  | cons e log ih =>
      rw [bootstraps]
      split_ifs with h
      · simp only [Bool.and_eq_true, Bool.not_eq_true'] at h
        exact Nat.le_of_eq (congrArg (1 + ·) (bootstraps_eq_zero h.1.2))
      · rw [Nat.zero_add]
        exact ih

end Log

namespace World

variable {w v : World} {a : Action} {r : Reply}

/-! ### Who asked -/

theorem Reachable.asked_holds (h : Reachable w) : ∀ (p : Path) (k : Nat) (id : RequestId),
    ⟨.fetch p, .asked k id⟩ ∈ w.log → w.Holds id p := by
  refine h.induct ?_ ?_
  · intro timeout now p k id hm
    simp [World.start] at hm
  · intro w a r v hw ih hs p k id hm
    rw [hs.log] at hm
    change v.Holds id p
    rcases List.mem_cons.mp hm with he | hold
    · cases he
      obtain ⟨-, hin, -⟩ := hs.fetch_last
      obtain ⟨q, hq, hp, -⟩ := ((hs.filed hw.filed).inFlight_iff _ _).mp hin
      exact ⟨q, hq, hp⟩
    · exact (ih p k id hold).step hs

/-- The log has the end of a request that its state has. -/
theorem Reachable.verdict?_eq (h : Reachable w) {id : RequestId} {q : Request}
    (hq : w.broker.request? id = some q) : verdict? w.log id = q.state.verdict? := by
  rw [h.verdict?_log, decided?_of_some hq]

theorem Reachable.verdict?_eq_none_iff (h : Reachable w) {id : RequestId} {q : Request}
    (hq : w.broker.request? id = some q) :
    verdict? w.log id = none ↔ q.state.isTerminal = false := by
  rw [h.verdict?_eq hq, q.state.verdict?_eq_none_iff]

theorem isAwaited_iff {log : List Event} {p : Path} : isAwaited log p = true ↔
    ∃ k id, ⟨.fetch p, .asked k id⟩ ∈ log ∧ verdict? log id = none := by
  simp only [isAwaited, List.any_eq_true, List.mem_filterMap, Option.isNone_iff_eq_none]
  constructor
  · rintro ⟨id, ⟨⟨a, r⟩, he, hid⟩, hv⟩
    cases a with
    | fetch q =>
        cases r with
        | asked k j =>
            simp only [Event.asked?, Option.ite_none_right_eq_some, Option.some.injEq] at hid
            obtain ⟨rfl, rfl⟩ := hid
            exact ⟨k, j, he, hv⟩
        | _ => cases hid
    | _ => cases hid
  · rintro ⟨k, id, he, hv⟩
    exact ⟨id, ⟨_, he, by simp [Event.asked?]⟩, hv⟩

/-- Before there is a helper, what is in flight for a path is what a call asked for. -/
theorem Reachable.isAwaited_iff (h : Reachable w) (hb : w.broker.bootstrapped = false)
    (p : Path) : isAwaited w.log p = true ↔ (w.broker.inFlight.get? p).isSome = true := by
  rw [World.isAwaited_iff, Option.isSome_iff_exists]
  constructor
  · rintro ⟨k, id, he, hv⟩
    obtain ⟨q, hq, hp⟩ := h.asked_holds p k id he
    exact ⟨id, (h.filed.inFlight_iff _ _).mpr ⟨q, hq, hp, (h.verdict?_eq_none_iff hq).mp hv⟩⟩
  · rintro ⟨id, hid⟩
    obtain ⟨q, hq, hp, hlive⟩ := (h.filed.inFlight_iff _ _).mp hid
    obtain ⟨-, -, hnone, -⟩ := h.inLine.untouched (h.inLine.channels_eq_nil hb)
    have hasked : w.Asked id := (h.asked id q hq).resolve_left (by rw [hnone]; exact nofun)
    obtain ⟨f, hf, rfl⟩ := List.mem_map.mp hasked
    obtain ⟨k, hk⟩ := List.mem_iff_getElem?.mp hf
    obtain ⟨q', hq', hp'⟩ := h.custody.fetch hk
    rw [hq] at hq'
    cases hq'
    obtain ⟨later, earlier, hlog, -⟩ := h.joined k f hk
    refine ⟨k, f.request, ?_, (h.verdict?_eq_none_iff hq).mpr hlive⟩
    rw [hlog, ← hp, hp']
    exact List.mem_append_right _ List.mem_cons_self

theorem Reachable.bootstrapped_eq (h : Reachable w) :
    w.broker.bootstrapped = w.log.any Event.isSeated := by
  refine h.induct (fun _ _ => rfl) ?_
  intro w a r v hw ih hs
  rw [hs.log, List.any_cons, ← ih]
  change v.broker.bootstrapped = _
  cases hs with
  | attachFirst => exact bootstrapped_bootstrap _ _
  | attachAgain _ hb => exact hb
  | detach | drop => exact bootstrapped_detach _ _
  | close => exact (SameSeat.close _ _).bootstrapped
  | expire => exact (SameSeat.expire _ _).bootstrapped
  | _ => rfl

/-! ### What each step keeps -/

/-- The counters agree with the tables and with the log. -/
structure Books (w : World) : Prop where
  requests : w.broker.counters.created = w.broker.requests.length
  delivered : w.broker.counters.delivered = (deliveries w.log).length
  completed : w.broker.counters.completed = (ended .closed w.log).length
  timedOut : w.broker.counters.timedOut = (ended .expired w.log).length
  ends : w.broker.counters.created = w.broker.counters.completed + w.broker.counters.timedOut +
    w.broker.inFlight.length
  turns : w.broker.counters.created = w.broker.counters.delivered + w.broker.queue.length +
    (lost w.log).length
  calls : w.fetches.length + bootstraps w.log =
    w.broker.counters.created + w.broker.counters.joined

theorem Books.start (timeout : Option Nat) (now : Nat) : (World.start timeout now).Books :=
  ⟨rfl, rfl, rfl, rfl, rfl, rfl, rfl⟩

theorem log_note (hlog : v.log = w.log) (a : Action) (r : Reply) :
    (v.note a r).log = ⟨a, r⟩ :: w.log := by
  rw [← hlog]
  rfl

/-- A step that ends nothing may create requests, count joins and add calls; what it creates goes to
the queue and into flight. -/
theorem Books.quiet (hb : w.Books) (hquiet : Event.isQuiet ⟨a, r⟩ = true) (hlog : v.log = w.log)
    (created joined calls own : Nat)
    (hcounters : v.broker.counters = { w.broker.counters with
      created := w.broker.counters.created + created
      joined := w.broker.counters.joined + joined })
    (hrequests : v.broker.requests.length = w.broker.requests.length + created)
    (hflight : v.broker.inFlight.length = w.broker.inFlight.length + created)
    (hqueue : v.broker.queue.length = w.broker.queue.length + created)
    (hcalls : v.fetches.length = w.fetches.length + calls)
    (hown : bootstraps (⟨a, r⟩ :: w.log) = own + bootstraps w.log)
    (heven : calls + own = created + joined) : (v.note a r).Books := by
  have hnone := Event.ending?_of_isQuiet hquiet
  have hnote : (v.note a r).log = ⟨a, r⟩ :: w.log := log_note hlog a r
  have hdelivered : deliveries (v.note a r).log = deliveries w.log := by
    rw [hnote, deliveries_of_none (Event.delivered?_of_isQuiet hquiet)]
  have hended (d : Verdict) : ended d (v.note a r).log = ended d w.log := by
    rw [hnote, ended_of_ending?_none hnone]
  have hlost : lost (v.note a r).log = lost w.log := by
    rw [hnote, lost_of_ending?_none hnone]
  have hends := hb.ends
  have hturns := hb.turns
  have hbalance := hb.calls
  refine ⟨?_, ?_, ?_, ?_, ?_, ?_, ?_⟩
  · change v.broker.counters.created = v.broker.requests.length
    rw [hcounters, hrequests, hb.requests]
  · change v.broker.counters.delivered = _
    rw [hcounters, hdelivered]
    exact hb.delivered
  · change v.broker.counters.completed = _
    rw [hcounters, hended]
    exact hb.completed
  · change v.broker.counters.timedOut = _
    rw [hcounters, hended]
    exact hb.timedOut
  · change v.broker.counters.created = v.broker.counters.completed +
      v.broker.counters.timedOut + v.broker.inFlight.length
    rw [hcounters, hflight]
    dsimp only
    omega
  · change v.broker.counters.created = v.broker.counters.delivered + v.broker.queue.length + _
    rw [hcounters, hqueue, hlost]
    dsimp only
    omega
  · change v.fetches.length + _ = v.broker.counters.created + v.broker.counters.joined
    rw [hcounters, hcalls, hnote, hown]
    dsimp only
    omega

theorem Books.deliver (hb : w.Books) {k : Nat} {h : RequestHandle} {rest : List RequestId}
    (hq : w.broker.queue = h.request :: rest) :
    ({ w with broker := w.broker.deliver h.request, handles := h :: w.handles }.note (.read k)
      (.delivered h)).Books where
  requests := by
    change w.broker.counters.created = (w.broker.requests.modify _ _).length
    rw [List.length_modify, hb.requests]
  delivered := by
    change w.broker.counters.delivered + 1 = (deliveries (⟨.read k, .delivered h⟩ :: w.log)).length
    rw [deliveries_cons, List.length_append, hb.delivered]
    rfl
  completed := hb.completed
  timedOut := hb.timedOut
  ends := hb.ends
  turns := by
    have hturns := hb.turns
    change w.broker.counters.created =
      w.broker.counters.delivered + 1 + w.broker.queue.tail.length + (lost w.log).length
    rw [hq, List.length_cons] at hturns
    rw [hq, List.tail_cons]
    omega
  calls := by
    change w.fetches.length + bootstraps (⟨.read k, .delivered h⟩ :: w.log) = _
    rw [bootstraps_of_not_isSeated rfl]
    exact hb.calls

/-- A request whose time runs out is lost if it stood in the queue. -/
theorem Reachable.length_lost (hw : Reachable w) {e : Event} {id : RequestId} {q : Request}
    (hq : w.broker.request? id = some q) (hlive : q.state.isTerminal = false) {d : Verdict}
    (he : e.ending? = some (id, d)) (hqueued : q.state = .queued → d = .expired) :
    (lost (e :: w.log)).length = (lost w.log).length + if q.state = .queued then 1 else 0 := by
  have hverdict : verdict? w.log id = none := (hw.verdict?_eq_none_iff hq).mpr hlive
  have haccounted := hw.custody.accounted id
  rw [state?_of_some hq] at haccounted
  rw [lost, endedBy?_of_first he hverdict, List.length_append, Nat.add_comm]
  congr 1
  cases hs : q.state with
  | queued =>
      rw [hs] at haccounted
      have hfresh : id ∉ deliveries w.log := List.count_eq_zero.mp haccounted.1
      simp [hqueued hs, hfresh]
  | delivered =>
      rw [hs] at haccounted
      have hsent : id ∈ deliveries w.log := by
        rw [← List.count_pos_iff, haccounted.1]
        exact Nat.one_pos
      cases d <;> simp [hsent]
  | completed | timedOut =>
      rw [hs] at hlive
      cases hlive

/-- A request that comes to its first end leaves the flight, and the queue if it is there. -/
theorem Books.finish (hb : w.Books) (hw : Reachable w) {id : RequestId} {q : Request}
    (state : RequestState) {d : Verdict} (hq : w.broker.request? id = some q)
    (hlive : q.state.isTerminal = false) (he : Event.ending? ⟨a, r⟩ = some (id, d))
    (hsent : Event.delivered? ⟨a, r⟩ = none) (hseat : Event.isSeated ⟨a, r⟩ = false)
    (hqueued : q.state = .queued → d = .expired)
    (hbroker : v.broker = { w.broker.finish id state with counters := { w.broker.counters with
      completed := w.broker.counters.completed + if d = .closed then 1 else 0
      timedOut := w.broker.counters.timedOut + if d = .expired then 1 else 0 } })
    (hlog : v.log = w.log) (hcalls : v.fetches.length = w.fetches.length) :
    (v.note a r).Books := by
  have hnote : (v.note a r).log = ⟨a, r⟩ :: w.log := log_note hlog a r
  have hverdict : verdict? w.log id = none := (hw.verdict?_eq_none_iff hq).mpr hlive
  have hended (d' : Verdict) : (ended d' (v.note a r).log).length =
      (ended d' w.log).length + if d = d' then 1 else 0 := by
    rw [hnote, ended, endedBy?_of_first he hverdict, List.length_append, Nat.add_comm]
    split_ifs <;> rfl
  have hflight := hw.filed.length_inFlight_finish hq hlive state
  have hqueue := hw.filed.length_queue_finish hq state
  have hends := hb.ends
  have hturns := hb.turns
  refine ⟨?_, ?_, ?_, ?_, ?_, ?_, ?_⟩
  · change v.broker.counters.created = v.broker.requests.length
    rw [hbroker]
    exact hb.requests.trans (length_requests_finish _ _ _).symm
  · change v.broker.counters.delivered = _
    rw [hbroker, hnote, deliveries_of_none hsent]
    exact hb.delivered
  · change v.broker.counters.completed = _
    rw [hbroker, hended]
    exact congrArg (· + _) hb.completed
  · change v.broker.counters.timedOut = _
    rw [hbroker, hended]
    exact congrArg (· + _) hb.timedOut
  · change v.broker.counters.created = v.broker.counters.completed +
      v.broker.counters.timedOut + v.broker.inFlight.length
    rw [hbroker]
    cases d <;> simp only [reduceCtorEq, if_true, if_false] <;> omega
  · change v.broker.counters.created = v.broker.counters.delivered + v.broker.queue.length + _
    rw [hbroker, hnote, hw.length_lost hq hlive he hqueued]
    dsimp only
    omega
  · change v.fetches.length + _ = v.broker.counters.created + v.broker.counters.joined
    rw [hbroker, hcalls, hnote, bootstraps_of_not_isSeated hseat]
    exact hb.calls

/-- An end that is not the first changes nothing at all. -/
theorem Books.again (hb : w.Books) {id : RequestId} {d d' : Verdict}
    (he : Event.ending? ⟨a, r⟩ = some (id, d)) (hverdict : verdict? w.log id = some d')
    (hsent : Event.delivered? ⟨a, r⟩ = none) (hseat : Event.isSeated ⟨a, r⟩ = false)
    (hbroker : v.broker = w.broker) (hlog : v.log = w.log)
    (hcalls : v.fetches.length = w.fetches.length) : (v.note a r).Books := by
  have hnote : (v.note a r).log = ⟨a, r⟩ :: w.log := log_note hlog a r
  have hended (d'' : Verdict) : ended d'' (v.note a r).log = ended d'' w.log := by
    rw [hnote, ended, endedBy?_of_verdict? he hverdict]
    rfl
  have hlost : lost (v.note a r).log = lost w.log := by
    rw [hnote, lost, endedBy?_of_verdict? he hverdict]
    rfl
  have hdelivered : deliveries (v.note a r).log = deliveries w.log := by
    rw [hnote, deliveries_of_none hsent]
  have hown : bootstraps (v.note a r).log = bootstraps w.log := by
    rw [hnote, bootstraps_of_not_isSeated hseat]
  have hsame : (v.note a r).broker = w.broker := hbroker
  have hcalls' : (v.note a r).fetches.length = w.fetches.length := hcalls
  constructor <;> simp only [hsame, hended, hlost, hdelivered, hown, hcalls']
  · exact hb.requests
  · exact hb.delivered
  · exact hb.completed
  · exact hb.timedOut
  · exact hb.ends
  · exact hb.turns
  · exact hb.calls

/-- The first helper makes a request of its own if none is in flight for the root. -/
theorem Reachable.bootstraps_first (hw : Reachable w) (hfirst : w.broker.bootstrapped = false)
    (k : Nat) : bootstraps (⟨.attach, .channel k⟩ :: w.log) =
      (if w.broker.inFlight.get? Path.root = none then 1 else 0) + bootstraps w.log := by
  have hnew : w.log.any Event.isSeated = false := hw.bootstrapped_eq ▸ hfirst
  have hawaited := hw.isAwaited_iff hfirst Path.root
  rw [bootstraps, hnew]
  congr 1
  cases hp : w.broker.inFlight.get? Path.root with
  | none =>
      rw [hp] at hawaited
      have hno : isAwaited w.log Path.root = false := by simpa using hawaited
      simp [hno, Event.isSeated]
  | some id =>
      rw [hp] at hawaited
      have hyes : isAwaited w.log Path.root = true := by simpa using hawaited
      simp [hyes]

theorem Reachable.bootstraps_again (hw : Reachable w) (hagain : w.broker.bootstrapped = true)
    (k : Nat) : bootstraps (⟨.attach, .channel k⟩ :: w.log) = bootstraps w.log := by
  have hseen := hw.bootstrapped_eq
  rw [hagain] at hseen
  simp [bootstraps, ← hseen]

theorem Books.attachFirst (hb : w.Books) (hw : Reachable w)
    (hfirst : w.broker.bootstrapped = false) {k : Nat} {channels : List (Option SessionId)}
    {bootstrap : Option RequestId} : ({ w with
      broker := (w.broker.bootstrap w.now).openSession, channels, bootstrap }.note .attach
        (.channel k)).Books := by
  have hown := hw.bootstraps_first hfirst k
  cases hp : w.broker.inFlight.get? Path.root with
  | some id =>
      have hq := hw.filed.length_queue_bootstrap_of_some hp w.now
      refine hb.quiet (v := { w with
        broker := (w.broker.bootstrap w.now).openSession, channels, bootstrap }) rfl rfl 0 0 0 0
        ?_ ?_ ?_ hq rfl (by rw [hown, hp]; rfl) rfl
      all_goals
        simp only [openSession, Broker.bootstrap, hp]
        split_ifs <;> rfl
  | none =>
      have hi := length_inFlight_create hp hw.filed w.now
      refine hb.quiet (v := { w with
        broker := (w.broker.bootstrap w.now).openSession, channels, bootstrap }) rfl rfl 1 0 0 1
        ?_ ?_ ?_ ?_ rfl (by rw [hown, hp]; rfl) rfl
      all_goals simp only [openSession, Broker.bootstrap, hp]
      · rfl
      · exact List.length_append
      · exact hi
      · rfl

theorem length_setProgress (w : World) (k : Nat) (progress : Progress) :
    (w.setProgress k progress).fetches.length = w.fetches.length :=
  List.length_modify ..

theorem Books.close (hb : w.Books) (hw : Reachable w) {h : RequestHandle} (hh : h ∈ w.handles) :
    ({ w with broker := w.broker.close h.request, handles := w.handles.erase h }.note (.close h)
      .done).Books := by
  obtain ⟨q, hq, -⟩ := hw.custody.handle hh
  have haccounted := hw.custody.accounted h.request
  have hopen := openHandles_pos hh
  rw [state?_of_some hq] at haccounted
  cases hs : q.state with
  | queued | completed =>
      rw [hs] at haccounted
      exact absurd haccounted.2 (Nat.ne_of_gt hopen)
  | delivered =>
      refine hb.finish hw .completed (d := .closed) hq (by rw [hs]; rfl) rfl rfl rfl
        (by rw [hs]; exact nofun) ?_ rfl rfl
      change w.broker.close h.request = _
      rw [close_eq, counters_close hq (by rw [hs]; exact nofun)]
      rfl
  | timedOut =>
      have hbefore : verdict? w.log h.request = some .expired := by
        rw [hw.verdict?_eq hq, hs]
        rfl
      exact hb.again (d := .closed) rfl hbefore rfl rfl (hw.filed.close_of_timedOut hq hs) rfl rfl

theorem Books.expire (hb : w.Books) (hw : Reachable w) {k : Nat} {f : Fetch}
    (hf : w.fetches[k]? = some f) (o : Except Fault Unit) :
    (({ w with broker := w.broker.expire f.request }.setProgress k (.returned o)).note (.expire k)
      (.returned f.request o)).Books := by
  obtain ⟨q, hq, -⟩ := hw.custody.fetch hf
  cases hlive : q.state.isTerminal with
  | false =>
      refine hb.finish hw .timedOut (d := .expired) hq hlive rfl rfl rfl
        (fun _ => rfl) ?_ rfl (length_setProgress _ _ _)
      change w.broker.expire f.request = _
      rw [expire_eq, counters_expire hq hlive]
      rfl
  | true =>
      obtain ⟨d, hd⟩ : ∃ d, q.state.verdict? = some d := by
        rw [← Option.ne_none_iff_exists', Ne, q.state.verdict?_eq_none_iff, hlive]
        exact Bool.noConfusion
      have hbefore : verdict? w.log f.request = some d := (hw.verdict?_eq hq).trans hd
      exact hb.again (d := .expired) rfl hbefore rfl rfl
        (hw.filed.expire_of_isTerminal hq hlive) rfl (length_setProgress _ _ _)

theorem Books.step (hb : w.Books) (hw : Reachable w) (hs : Step w a r v) :
    (v.note a r).Books := by
  -- the first helper may make a request, and a call makes one or joins one
  cases hs with
  | attachFirst _ hfirst => exact hb.attachFirst hw hfirst
  | attachAgain _ hagain =>
      exact hb.quiet rfl rfl 0 0 0 0 rfl rfl rfl rfl rfl
        (by rw [hw.bootstraps_again hagain, Nat.zero_add]) rfl
  | @deliver k c id rest q _ _ hq => exact hb.deliver (h := ⟨id, q.path, false⟩) hq
  | join hp =>
      exact hb.quiet rfl rfl 0 1 1 0 rfl rfl rfl rfl List.length_append
        (by rw [bootstraps_of_not_isSeated rfl, Nat.zero_add]) rfl
  | create hp =>
      exact hb.quiet rfl rfl 1 0 1 0 rfl List.length_append
        (length_inFlight_create hp hw.filed w.now) List.length_append List.length_append
        (by rw [bootstraps_of_not_isSeated rfl, Nat.zero_add]) rfl
  | close hh => exact hb.close hw hh
  | expire hf => exact hb.expire hw hf _
  | detach | drop =>
      refine hb.quiet rfl rfl 0 0 0 0 ?_ ?_ ?_ ?_ rfl
        (by rw [bootstraps_of_not_isSeated rfl, Nat.zero_add]) rfl
      all_goals
        dsimp only
        rw [detach_eq]
      all_goals rfl
  | wake | giveUp =>
      exact hb.quiet rfl rfl 0 0 0 0 rfl rfl rfl rfl (length_setProgress _ _ _)
        (by rw [bootstraps_of_not_isSeated rfl, Nat.zero_add]) rfl
  | attachRefused | readRefused | readNothing | pass =>
      exact hb.quiet rfl rfl 0 0 0 0 rfl rfl rfl rfl rfl
        (by rw [bootstraps_of_not_isSeated rfl, Nat.zero_add]) rfl

theorem Reachable.books (h : Reachable w) : w.Books :=
  h.induct Books.start fun hw hb hs => hb.step hw hs

/-- Whatever went to a helper was closed once, or its handle is still open. -/
theorem Reachable.countP_closes (h : Reachable w) : ∀ id : RequestId,
    w.log.countP (Event.closes id) + w.openHandles id = (deliveries w.log).count id := by
  refine h.induct (fun _ _ _ => rfl) ?_
  intro w a r v hw ih hs id
  have hid := ih id
  rw [hs.log, List.countP_cons]
  change _ + _ + v.openHandles id = _
  by_cases hquiet : Event.isQuiet ⟨a, r⟩ = true
  · have hcloses : Event.closes id ⟨a, r⟩ = false := by
      cases a <;> first | rfl | (cases r <;> cases hquiet)
    rw [hcloses, deliveries_of_none (Event.delivered?_of_isQuiet hquiet), openHandles,
      (hs.grows hquiet).2]
    exact hid
  cases hs with
  | deliver =>
      simp only [deliveries_cons, Event.delivered?, Event.closes, Option.toList, openHandles,
        List.count_append, List.count_singleton, List.countP_cons, beq_iff_eq,
        decide_eq_true_eq, Bool.false_eq_true, if_false] at hid ⊢
      omega
  | @close h hh =>
      have hopen := openHandles_pos hh
      rw [deliveries_of_none rfl]
      simp only [Event.closes, openHandles, List.countP_erase, hh, true_and,
        decide_eq_true_eq] at hid hopen ⊢
      by_cases hj : h.request = id
      · subst hj
        rw [if_pos rfl]
        omega
      · rw [if_neg hj]
        exact hid
  | expire =>
      rw [deliveries_of_none rfl]
      exact hid
  | _ => exact absurd rfl hquiet

/-- What the counters of a broker say about its tables and about what happened. -/
structure Balanced (w : World) : Prop where
  ends : w.broker.counters.created =
    w.broker.counters.completed + w.broker.counters.timedOut + w.broker.inFlight.length
  turns : w.broker.counters.created =
    w.broker.counters.delivered + w.broker.queue.length + (lost w.log).length
  calls : w.fetches.length + bootstraps w.log =
    w.broker.counters.created + w.broker.counters.joined
  bootstraps_le : bootstraps w.log ≤ 1
  attach {r : Reply} {v : World} (ha : w.act .attach = some (r, v)) :
    bootstraps v.log = 1 + bootstraps w.log ∧
        v.broker.requests = w.broker.requests ++ [{ path := Path.root, created := w.now }] ∨
      bootstraps v.log = bootstraps w.log ∧ v.broker.requests = w.broker.requests
  delivered : w.broker.counters.delivered = (deliveries w.log).length
  completed : w.broker.counters.completed = (ended .closed w.log).length
  timedOut : w.broker.counters.timedOut = (ended .expired w.log).length
  /-- No request is counted twice, -/
  nodup (d : Verdict) : (ended d w.log).Nodup
  /-- nor as completed and as timed out. -/
  disjoint : (ended .closed w.log).Disjoint (ended .expired w.log)
  closed_once (id : RequestId) : w.log.countP (Event.closes id) ≤ 1
  /-- Only what the queue holds can be lost there. -/
  mem_queue (id : RequestId) : id ∈ w.broker.queue ↔
    (∃ p, w.Holds id p) ∧ verdict? w.log id = none ∧ id ∉ deliveries w.log

theorem Reachable.mem_queue_iff (h : Reachable w) (id : RequestId) : id ∈ w.broker.queue ↔
    (∃ p, w.Holds id p) ∧ verdict? w.log id = none ∧ id ∉ deliveries w.log := by
  have haccounted := h.custody.accounted id
  cases hq : w.broker.request? id with
  | none => simp [h.filed.mem_queue, Holds, hq]
  | some q =>
      have hholds : ∃ p, w.Holds id p := ⟨q.path, q, hq, rfl⟩
      rw [state?_of_some hq] at haccounted
      rw [h.filed.mem_queue_iff hq, h.verdict?_eq hq, ← List.count_eq_zero, and_iff_right hholds]
      cases hs : q.state <;> rw [hs] at haccounted <;>
        simp_all [RequestState.verdict?, Accounted]

theorem Reachable.attach_requests (h : Reachable w) (ha : w.act .attach = some (r, v)) :
    bootstraps v.log = 1 + bootstraps w.log ∧
        v.broker.requests = w.broker.requests ++ [{ path := Path.root, created := w.now }] ∨
      bootstraps v.log = bootstraps w.log ∧ v.broker.requests = w.broker.requests := by
  obtain ⟨v, hs, rfl⟩ := h.step ha
  rw [hs.log]
  cases hs with
  | attachFirst _ hfirst =>
      rw [h.bootstraps_first hfirst]
      cases hp : w.broker.inFlight.get? Path.root with
      | none => exact .inl ⟨rfl, by simp only [World.note, openSession, Broker.bootstrap, hp]; rfl⟩
      | some id =>
          refine .inr ⟨Nat.zero_add _, ?_⟩
          simp only [World.note, openSession, Broker.bootstrap, hp]
          split_ifs <;> rfl
  | attachAgain _ hagain => exact .inr ⟨h.bootstraps_again hagain _, rfl⟩
  | attachRefused => exact .inr ⟨bootstraps_of_not_isSeated rfl, rfl⟩

theorem balanced_of_reachable {w : World} (h : Reachable w) : w.Balanced where
  ends := h.books.ends
  turns := h.books.turns
  calls := h.books.calls
  bootstraps_le := bootstraps_le_one _
  attach := h.attach_requests
  delivered := h.books.delivered
  completed := h.books.completed
  timedOut := h.books.timedOut
  nodup d := nodup_ended d w.log
  disjoint := disjoint_ended w.log
  closed_once id := by
    have hcount := h.countP_closes id
    have hle := (h.custody.accounted id).deliveries_le_one
    omega
  mem_queue := h.mem_queue_iff

/-- One request runs out in the queue before there is a helper. Of the two that the helper takes,
it closes one in time, and the other after a call gave up. -/
def thriftyHelper : List Action :=
  [.fetch pathA, .pass 5, .giveUp 0, .expire 0, .attach, .fetch pathB, .fetch pathB, .read 0,
    .read 0, .close ⟨2, Path.root, false⟩, .pass 5, .giveUp 1, .expire 1, .close ⟨3, pathB, false⟩]

theorem balanced_thriftyHelper : ∃ w, (start (some 5) 0).run? thriftyHelper = some w ∧
    w.broker.counters = ⟨3, 1, 2, 1, 2⟩ ∧ lost w.log = [1] ∧ ended .closed w.log = [2] ∧
    ended .expired w.log = [3, 1] ∧ bootstraps w.log = 1 ∧ w.fetches.length = 3 ∧
    w.Balanced := by
  have hrun : ((start (some 5) 0).run? thriftyHelper).isSome := by decide
  have hw := Option.some_get hrun
  exact ⟨_, hw.symm, rfl, rfl, rfl, rfl, rfl, rfl,
    balanced_of_reachable ((Reachable.start _ _).run? hw.symm)⟩

end World
end Broker
end OnDemandFs
