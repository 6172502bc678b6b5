import OnDemandFs.Proofs.Broker.Filing

/-!
# Asking and serving in turn

What a broker is like after a path was asked for, and after the request at the front of the queue
was taken and closed in one go, as an automatic helper does it.
-/
namespace OnDemandFs.Broker
variable {b : Broker} {p : Path} {id : RequestId} {r : Request} {rest : List RequestId}

/-- A path was asked for under a request that was there already or is new. -/
structure AskedFor (b : Broker) (p : Path) (id : RequestId) (c : Broker) : Prop where
  filed : c.Filed
  timeout : c.timeout = b.timeout
  seat : SameSeat b c
  queue : c.queue.length ≤ b.queue.length + 1
  request : ∃ r, c.request? id = some r ∧ r.path = p
  kept : ∀ j r, b.request? j = some r → c.request? j = some r
  fresh : ∀ j r, c.request? j = some r → b.request? j = some r ∨ r.path = p ∧ r.state = .queued

theorem Filed.askedFor (h : b.Filed) (p : Path) (now : Nat) :
    AskedFor b p (b.ask p now).1 (b.ask p now).2 := by
  cases hp : b.inFlight.get? p with
  | some id =>
      obtain ⟨r, hr, hpath, -⟩ := (h.inFlight_iff p id).mp hp
      have hsame (j : RequestId) : b.countJoin.request? j = b.request? j := request?_congr rfl j
      rw [ask_of_some hp]
      refine ⟨h.countJoin, rfl, ⟨rfl, rfl, rfl⟩, Nat.le_succ _, ⟨r, ?_, hpath⟩, fun j q hq => ?_,
        fun j q hq => .inl ?_⟩
      · exact (hsame id).trans hr
      · exact (hsame j).trans hq
      · exact (hsame j).symm.trans hq
  | none =>
      rw [ask_of_none hp]
      refine ⟨h.enqueue hp now, rfl, ⟨rfl, rfl, rfl⟩, ?_, ⟨{ path := p, created := now }, ?_, rfl⟩,
        fun j q hq => ?_, fun j q hq => ?_⟩
      · change (b.queue ++ [b.nextId]).length ≤ _
        rw [List.length_append]
        exact Nat.le_refl (b.queue.length + 1)
      · rw [request?_enqueue, if_pos rfl]
      · have hj : j ≠ b.nextId := fun heq => Nat.lt_irrefl _ (heq ▸ (lt_nextId hq).2)
        rw [request?_enqueue, if_neg hj, hq]
      · rw [request?_enqueue] at hq
        split at hq
        · cases hq
          exact .inr ⟨rfl, rfl⟩
        · exact .inl hq

/-- The first helper of all finds the requests as they were, and perhaps one more, for the root. -/
theorem request?_bootstrap_cases {now : Nat} (hr : (b.bootstrap now).request? id = some r) :
    b.request? id = some r ∨ r.path = .root ∧ r.state = .queued := by
  cases hp : b.inFlight.get? Path.root with
  | some j =>
      rw [request?_bootstrap_of_some hp] at hr
      exact .inl hr
  | none =>
      rw [request?_bootstrap_of_none hp] at hr
      split at hr
      · cases hr
        exact .inr ⟨rfl, rfl⟩
      · exact .inl hr

/-- The request at the front of the queue was taken and closed. -/
structure ServedFirst (b : Broker) (id : RequestId) (c : Broker) : Prop where
  filed : c.Filed
  timeout : c.timeout = b.timeout
  seat : SameSeat b c
  queue : c.queue.length < b.queue.length
  closed : ∀ r, b.request? id = some r → c.request? id = some { r with state := .completed }
  others : ∀ j, j ≠ id → c.request? j = b.request? j

theorem Filed.servedFirst (h : b.Filed) (hq : b.queue = id :: rest) (hr : b.request? id = some r) :
    ServedFirst b id ((b.deliver id).close id) := by
  have hdelivered : (b.deliver id).request? id = some { r with state := .delivered } := by
    rw [request?_deliver hr, if_pos rfl]
  refine ⟨(h.deliver hq hr).close id, ?_, ?_, ?_, fun q hq' => ?_, fun j hj => ?_⟩
  · rw [close_eq]
    exact timeout_finish _ id .completed
  · have hclose := SameSeat.close (b.deliver id) id
    exact ⟨hclose.session, hclose.sessions, hclose.bootstrapped⟩
  · have htail : (b.deliver id).queue = rest := by simp [Broker.deliver, hq]
    rw [queue_close, htail, hq]
    exact Nat.lt_succ_of_le (List.length_filter_le _ rest)
  · cases hr.symm.trans hq'
    rw [request?_close_self hdelivered]
    rfl
  · rw [request?_close_of_ne hj, request?_deliver hr, if_neg hj]

end OnDemandFs.Broker
