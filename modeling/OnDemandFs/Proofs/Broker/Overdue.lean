import OnDemandFs.Proofs.Broker.Order
import OnDemandFs.Proofs.Broker.Outcome

/-!
# Who withdraws a request that is overdue

A broker has no clock of its own: a request is withdrawn by the calls that wait for it, each of
which gives up at the deadline that the request had from its creation. So a request is withdrawn in
time if some call waits for it, and every request has such a call but one. The bootstrap, which the
first helper brings with it, is waited for by nobody until a call happens to ask for the root.

`Punctual` is what the deadlines promise. It holds at every moment of rest, unless the bootstrap was
left alone past its deadline; then it does not hold, and the next call for the root joins a request
that ran out long ago.
-/
namespace OnDemandFs

/-- It is this time, or an earlier one. -/
def Deadline.HasPassed (now : Nat) : Deadline → Prop
  | .at t => t ≤ now
  | .never | .overflow => False

instance (d : Deadline) (now : Nat) : Decidable (d.HasPassed now) := by
  cases d <;> unfold Deadline.HasPassed <;> infer_instance

namespace Broker

variable {b c : Broker}

theorem deadline_eq {timeout : Nat} {id : RequestId} {q : Request} (ht : b.timeout = some timeout)
    (hq : b.request? id = some q) : b.deadline id =
      if q.created + timeout < timeLimit then .at (q.created + timeout) else .overflow := by
  simp only [deadline, ht, hq]

/-- The deadline of a request is fixed when the request is created. -/
theorem Keeps.deadline (h : Keeps b c) (ht : c.timeout = b.timeout) {id : RequestId} {q : Request}
    (hq : b.request? id = some q) : c.deadline id = b.deadline id := by
  obtain ⟨q', hq', -, hcreated, -⟩ := h id q hq
  cases hb : b.timeout <;> simp only [Broker.deadline, ht, hb, hq, hq', hcreated]

namespace World

variable {w v : World} {a : Action} {r : Reply}

theorem Step.timeout (hs : Step w a r v) : v.broker.timeout = w.broker.timeout := by
  cases hs with
  | attachFirst => exact timeout_bootstrap _ _
  | detach | drop =>
      change (w.broker.detach _).timeout = _
      rw [detach_eq]
  | close =>
      change (w.broker.close _).timeout = _
      rw [close_eq]
      exact timeout_finish _ _ _
  | expire =>
      change (w.broker.expire _).timeout = _
      rw [expire_eq]
      exact timeout_finish _ _ _
  | _ => rfl

theorem map_request_setProgress (w : World) (k : Nat) (progress : Progress) :
    (w.setProgress k progress).fetches.map (·.request) = w.fetches.map (·.request) := by
  apply List.ext_getElem?
  intro j
  rw [List.getElem?_map, List.getElem?_map, getElem?_setProgress]
  split_ifs with hj
  · subst hj
    cases w.fetches[j]? <;> rfl
  · rfl

/-- Some call asked for the request. -/
def Asked (w : World) (id : RequestId) : Prop := id ∈ w.fetches.map (·.request)

theorem Asked.step {id : RequestId} (h : w.Asked id) (hs : Step w a r v) : v.Asked id := by
  cases hs with
  | join | create =>
      unfold Asked
      rw [List.map_append]
      exact List.mem_append_left _ h
  | wake | giveUp | expire =>
      unfold Asked
      rw [map_request_setProgress]
      exact h
  | _ => exact h

/-- Only a call and the first helper make new requests. -/
theorem Step.request_cases (hs : Step w a r v) {id : RequestId} {q : Request}
    (hq : v.broker.request? id = some q) :
    (∃ q', w.broker.request? id = some q') ∨ v.bootstrap = some id ∨ v.Asked id := by
  have hfinish (j : RequestId) (state : RequestState)
      (hj : (w.broker.finish j state).request? id = some q) :
      ∃ q', w.broker.request? id = some q' := by
    rw [request?_finish] at hj
    split_ifs at hj with he
    · obtain ⟨q', hq', -⟩ := Option.map_eq_some_iff.mp hj
      exact ⟨q', he ▸ hq'⟩
    · exact ⟨q, hj⟩
  cases hs with
  | attachFirst =>
      change (w.broker.bootstrap w.now).request? id = some q at hq
      cases hp : w.broker.inFlight.get? Path.root with
      | some j =>
          rw [request?_bootstrap_of_some hp] at hq
          exact .inl ⟨q, hq⟩
      | none =>
          rw [request?_bootstrap_of_none hp] at hq
          split_ifs at hq with he
          · right; left
            simp only [Broker.bootstrap, hp, he, List.head?_cons]
          · exact .inl ⟨q, hq⟩
  | create =>
      change (w.broker.enqueue _ w.now).request? id = some q at hq
      rw [request?_enqueue] at hq
      split_ifs at hq with he
      · right; right
        simp [Asked, he]
      · exact .inl ⟨q, hq⟩
  | deliver _ _ _ hr =>
      change (w.broker.deliver _).request? id = some q at hq
      rw [request?_deliver hr] at hq
      split_ifs at hq with he
      · exact .inl ⟨_, he ▸ hr⟩
      · exact .inl ⟨q, hq⟩
  | detach | drop =>
      change (w.broker.detach _).request? id = some q at hq
      rw [request?_detach] at hq
      exact .inl ⟨q, hq⟩
  | close =>
      change (w.broker.close _).request? id = some q at hq
      rw [close_eq] at hq
      exact .inl (hfinish _ _ hq)
  | expire =>
      change (w.broker.expire _).request? id = some q at hq
      rw [expire_eq] at hq
      exact .inl (hfinish _ _ hq)
  | _ => exact .inl ⟨q, hq⟩

/-- The bootstrap is chosen once. -/
theorem Step.bootstrap_eq (hs : Step w a r v) (h : Reachable w) {id : RequestId}
    (hid : w.bootstrap = some id) : v.bootstrap = some id := by
  cases hs with
  | attachFirst hn hb =>
      obtain ⟨-, -, hnone, -⟩ := h.inLine.untouched (h.inLine.channels_eq_nil hb)
      rw [hnone] at hid
      cases hid
  | _ => exact hid

/-- Whoever is not the bootstrap was asked for. -/
theorem Reachable.asked {w : World} (h : Reachable w) : ∀ (id : RequestId) (q : Request),
    w.broker.request? id = some q → w.bootstrap = some id ∨ w.Asked id := by
  refine h.induct ?_ ?_
  · intro timeout now id q hq
    cases id <;> cases hq
  · intro w a r v hw ih hs id q hq
    change v.bootstrap = some id ∨ v.Asked id
    rcases hs.request_cases hq with ⟨q', hq'⟩ | hnew
    · rcases ih id q' hq' with hboot | hasked
      · exact .inl (hs.bootstrap_eq hw hboot)
      · exact .inr (hasked.step hs)
    · exact hnew

/-- Only a deadline that is not a time ends a call without an outcome. -/
theorem Reachable.deadline_of_overflowed {w : World} (h : Reachable w) : ∀ (k : Nat) (f : Fetch),
    w.fetches[k]? = some f → f.progress = .overflowed →
      w.broker.deadline f.request = .overflow := by
  refine h.induct ?_ ?_
  · intro timeout now k f hf
    simp [World.start] at hf
  · intro w a r v hw ih hs k f hf ho
    change v.broker.deadline f.request = .overflow
    rcases hs.fetch_cases hf with hold | ⟨f', -, -, rfl | ⟨o, rfl, -⟩⟩ | ⟨-, -, -, hp, -⟩
    · obtain ⟨q, hq, -⟩ := hw.custody.fetch hold
      rw [hs.keeps.deadline hs.timeout hq]
      exact ih k f hold ho
    · cases ho
    · cases ho
    · rw [ho] at hp
      cases hd : v.broker.deadline f.request with
      | overflow => rfl
      | never | «at» => rw [hd] at hp; cases hp

/-- Every call whose deadline has passed was woken and is over. -/
def AtRest (w : World) : Prop :=
  ∀ f ∈ w.fetches, (w.broker.deadline f.request).HasPassed w.now → f.progress.isOver = true

instance (w : World) : Decidable w.AtRest := by unfold AtRest; infer_instance

/-- The bootstrap ran out, and no call ever asked for it. -/
def Abandoned (w : World) (timeout : Nat) : Prop :=
  ∃ id q, w.bootstrap = some id ∧ ¬ w.Asked id ∧ w.broker.request? id = some q ∧
    q.state.isTerminal = false ∧ q.created + timeout ≤ w.now

/-- Nothing is in the queue or in flight that ran out, so no call is sent away as soon as it
comes. -/
structure Punctual (w : World) (timeout : Nat) : Prop where
  withdrawn {id : RequestId} {q : Request} (hq : w.broker.request? id = some q)
    (hlive : q.state.isTerminal = false) : w.now < q.created + timeout
  queue {id : RequestId} (hid : id ∈ w.broker.queue) :
    ∃ q, w.broker.request? id = some q ∧ w.now < q.created + timeout
  inFlight {p : Path} {id : RequestId} (hid : w.broker.inFlight.get? p = some id) :
    ∃ q, w.broker.request? id = some q ∧ w.now < q.created + timeout
  fetch {p : Path} {k : Nat} {id : RequestId} {v : World}
    (ha : w.act (.fetch p) = some (.asked k id, v)) :
    (∀ t, v.broker.deadline id = .at t → v.now < t) ∧
      v.act (.wake k) = none ∧ v.act (.giveUp k) = none ∧ v.act (.expire k) = none

theorem Asked.isTerminal_of_le (h : Reachable w) (hrest : w.AtRest) {timeout : Nat}
    (ht : w.broker.timeout = some timeout) (hnow : w.now < timeLimit) {id : RequestId}
    {q : Request} (hid : w.Asked id) (hq : w.broker.request? id = some q)
    (hlate : q.created + timeout ≤ w.now) : q.state.isTerminal = true := by
  obtain ⟨f, hf, rfl⟩ := List.mem_map.mp hid
  obtain ⟨k, hk⟩ := List.mem_iff_getElem?.mp hf
  have hd : w.broker.deadline f.request = .at (q.created + timeout) := by
    rw [deadline_eq ht hq, if_pos (by omega)]
  have hover := hrest f hf (by rw [hd]; exact hlate)
  cases hp : f.progress with
  | waiting | expiring =>
      rw [hp] at hover
      cases hover
  | returned o =>
      have hout := h.outcome?_of_returned k f o hk hp
      by_contra hlive
      rw [(outcome?_eq_none_iff hq).mpr (by simpa using hlive)] at hout
      cases hout
  | overflowed =>
      rw [h.deadline_of_overflowed k f hk hp] at hd
      cases hd

theorem lt_of_not_abandoned (h : Reachable w) (hrest : w.AtRest) {timeout : Nat}
    (ht : w.broker.timeout = some timeout) (hnow : w.now < timeLimit)
    (hkept : ¬ w.Abandoned timeout) {id : RequestId} {q : Request}
    (hq : w.broker.request? id = some q) (hlive : q.state.isTerminal = false) :
    w.now < q.created + timeout := by
  by_contra hlate
  have hlate : q.created + timeout ≤ w.now := Nat.le_of_not_lt hlate
  by_cases hid : w.Asked id
  · rw [hid.isTerminal_of_le h hrest ht hnow hq hlate] at hlive
    cases hlive
  · rcases h.asked id q hq with hboot | hasked
    · exact hkept ⟨id, q, hboot, hid, hq, hlive, hlate⟩
    · exact hid hasked

/-- The call that has just come is the last one, and its request is the one in flight. -/
theorem Step.fetch_last {p : Path} {k : Nat} {id : RequestId}
    (hs : Step w (.fetch p) (.asked k id) v) :
    v.now = w.now ∧ v.broker.inFlight.get? p = some id ∧
      ∃ f, v.fetches[k]? = some f ∧ f.request = id ∧
        f.progress = .ofDeadline (v.broker.deadline id) := by
  cases hs with
  | join hp => exact ⟨rfl, hp, _, List.getElem?_concat_length, rfl, rfl⟩
  | create hp =>
      exact ⟨rfl, Table.get?_set_self _ _ _, _, List.getElem?_concat_length, rfl, rfl⟩

/-- A call that waits for a live request before its deadline goes on waiting. -/
theorem act_eq_none_of_waiting {k : Nat} {f : Fetch} (hf : w.fetches[k]? = some f)
    (ho : w.broker.outcome? f.request = none)
    (hp : f.progress = .ofDeadline (w.broker.deadline f.request))
    (hd : ∀ t, w.broker.deadline f.request = .at t → w.now < t) :
    w.act (.wake k) = none ∧ w.act (.giveUp k) = none ∧ w.act (.expire k) = none := by
  obtain ⟨p, id, progress⟩ := f
  dsimp only at ho hp hd
  cases hdeadline : w.broker.deadline id with
  | never =>
      rw [hdeadline] at hp
      subst hp
      simp [act, perform, hf, ho, hdeadline, Progress.ofDeadline]
  | «at» t =>
      rw [hdeadline] at hp
      subst hp
      simp [act, perform, hf, ho, hdeadline, Progress.ofDeadline, hd t hdeadline]
  | overflow =>
      rw [hdeadline] at hp
      subst hp
      simp [act, perform, hf, Progress.ofDeadline]

theorem punctual_of_not_abandoned (h : Reachable w) (hrest : w.AtRest) {timeout : Nat}
    (ht : w.broker.timeout = some timeout) (hpos : 0 < timeout) (hnow : w.now < timeLimit)
    (hkept : ¬ w.Abandoned timeout) : w.Punctual timeout where
  withdrawn hq hlive := lt_of_not_abandoned h hrest ht hnow hkept hq hlive
  queue {id} hid := by
    obtain ⟨q, hq, hstate⟩ := (h.filed.mem_queue id).mp hid
    exact ⟨q, hq, lt_of_not_abandoned h hrest ht hnow hkept hq (by rw [hstate]; rfl)⟩
  inFlight {p id} hid := by
    obtain ⟨q, hq, -, hlive⟩ := (h.filed.inFlight_iff p id).mp hid
    exact ⟨q, hq, lt_of_not_abandoned h hrest ht hnow hkept hq hlive⟩
  fetch {p k id v} ha := by
    obtain ⟨v, hs, rfl⟩ := h.step ha
    obtain ⟨hclock, hin, f, hf, hid, hp⟩ := hs.fetch_last
    have hfiled := hs.filed h.filed
    obtain ⟨q, hq, -, hlive⟩ := (hfiled.inFlight_iff _ _).mp hin
    have hlate : v.now < q.created + timeout := by
      rw [hclock]
      cases hs with
      | join hold =>
          exact lt_of_not_abandoned h hrest ht hnow hkept hq hlive
      | create =>
          have hnew := (request?_enqueue w.broker p w.now w.broker.nextId).trans (if_pos rfl)
          rw [hq] at hnew
          cases hnew
          exact Nat.lt_add_of_pos_right hpos
    have hd : ∀ t, v.broker.deadline id = .at t → v.now < t := by
      intro t hdt
      rw [deadline_eq (hs.timeout.trans ht) hq] at hdt
      split_ifs at hdt
      cases hdt
      exact hlate
    have hout := (outcome?_eq_none_iff hq).mpr hlive
    subst hid
    exact ⟨hd, act_eq_none_of_waiting hf hout hp hd⟩

/-- Deadlines are kept exactly as long as nobody leaves the bootstrap alone past its own. -/
theorem punctual_iff_of_reachable (h : Reachable w) (hrest : w.AtRest) {timeout : Nat}
    (ht : w.broker.timeout = some timeout) (hpos : 0 < timeout) (hnow : w.now < timeLimit) :
    w.Punctual timeout ↔ ¬ w.Abandoned timeout := by
  constructor
  · rintro hpunctual ⟨id, q, -, -, hq, hlive, hlate⟩
    exact Nat.lt_irrefl _ (Nat.lt_of_lt_of_le (hpunctual.withdrawn hq hlive) hlate)
  · exact punctual_of_not_abandoned h hrest ht hpos hnow

/-- A call waits for the bootstrap while no helper takes it, and one comes for another path at its
deadline. -/
def askedInTime : List Action :=
  [.attach, .fetch Path.root, .pass 5, .giveUp 0, .expire 0, .fetch pathA]

theorem punctual_askedInTime : ∃ w, (start (some 5) 0).run? askedInTime = some w ∧
    w.AtRest ∧ w.broker.queue = [2] ∧ w.Punctual 5 := by
  have hrun : ((start (some 5) 0).run? askedInTime).any (fun w => decide (w.AtRest ∧
      w.broker.queue = [2] ∧ w.broker.timeout = some 5 ∧ w.now < timeLimit ∧
      w.bootstrap = some 1 ∧ w.fetches.map (·.request) = [1, 2])) = true := by decide
  obtain ⟨w, hw, hfacts⟩ := (Option.any_eq_true _ _).mp hrun
  obtain ⟨hrest, hqueue, ht, hnow, hboot, hcalls⟩ := of_decide_eq_true hfacts
  refine ⟨w, hw, hrest, hqueue, ?_⟩
  have hreach := (Reachable.start (some 5) 0).run? hw
  refine (punctual_iff_of_reachable hreach hrest ht (by decide) hnow).mpr ?_
  rintro ⟨id, q, hid, hasked, -⟩
  rw [hboot] at hid
  cases hid
  apply hasked
  rw [Asked, hcalls]
  exact List.mem_cons_self

/-- The first helper comes and takes nothing until the deadline of its bootstrap has passed. -/
def idleHelper : List Action := [.attach, .pass 5]

/-- The first call ever is sent away as soon as it comes. -/
theorem not_punctual_idleHelper : ∃ w v, (start (some 5) 0).run? idleHelper = some w ∧
    w.AtRest ∧ w.broker.queue = [1] ∧ ¬ w.Punctual 5 ∧
    w.run? [.fetch Path.root, .giveUp 0, .expire 0] = some v ∧ v.now = w.now ∧
    v.log.head? = some ⟨.expire 0, .returned 1 (.error (.timeout "/"))⟩ := by
  have hrun : ((start (some 5) 0).run? idleHelper).any (fun w => decide (w.AtRest ∧
      w.broker.queue = [1] ∧ w.broker.request? 1 = some { path := Path.root, created := 0 } ∧
      w.now = 5)) = true := by decide
  obtain ⟨w, hw, hfacts⟩ := (Option.any_eq_true _ _).mp hrun
  obtain ⟨hrest, hqueue, hq, hnow⟩ := of_decide_eq_true hfacts
  have hlate : ¬ w.Punctual 5 := by
    intro hpunctual
    have hlt := hpunctual.withdrawn hq rfl
    rw [hnow] at hlt
    exact Nat.lt_irrefl _ hlt
  cases hw
  exact ⟨_, _, rfl, hrest, hqueue, hlate, rfl, rfl, rfl⟩

end World
end Broker
end OnDemandFs
