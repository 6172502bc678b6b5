import OnDemandFs.Proofs.Broker.Custody

/-!
# A helper comes, takes and goes

What a helper is given when it attaches, and what it takes when it reads. When it goes it leaves a
number of handles behind, and each is closed. In which order that happens makes no difference to a
request: it is finished if a handle of it is among them. In a world that has these handles open it
is a run of closes.
-/
namespace OnDemandFs
namespace Broker

variable {b : Broker} {rs : List RequestHandle} {id : RequestId}

def closeAll (b : Broker) (rs : List RequestHandle) : Broker :=
  rs.foldl (fun b r => b.close r.request) b

@[simp] theorem closeAll_nil (b : Broker) : b.closeAll [] = b := rfl

@[simp] theorem closeAll_cons (b : Broker) (r : RequestHandle) (rs : List RequestHandle) :
    b.closeAll (r :: rs) = (b.close r.request).closeAll rs := rfl

theorem request?_close (b : Broker) (id j : RequestId) : (b.close id).request? j =
    if j = id then (b.request? id).map (·.finish .completed) else b.request? j := by
  rw [close_eq, ← request?_finish]
  exact request?_congr rfl j

theorem request?_expire (b : Broker) (id j : RequestId) : (b.expire id).request? j =
    if j = id then (b.request? id).map (·.finish .timedOut) else b.request? j := by
  rw [expire_eq, ← request?_finish]
  exact request?_congr rfl j

theorem request?_closeAll (b : Broker) (rs : List RequestHandle) (id : RequestId) :
    (b.closeAll rs).request? id = if ∃ r ∈ rs, r.request = id then
      (b.request? id).map (·.finish .completed) else b.request? id := by
  induction rs generalizing b with
  | nil => simp
  | cons r rs ih =>
      rw [closeAll_cons, ih, request?_close]
      by_cases hr : r.request = id
      · subst hr
        have htwice (q : Request) : (q.finish .completed).finish .completed = q.finish .completed :=
          Request.finish_of_isTerminal (Request.isTerminal_finish rfl)
        cases b.request? r.request <;> simp [htwice]
      · simp [hr, Ne.symm hr]

theorem session_closeAll (b : Broker) (rs : List RequestHandle) :
    (b.closeAll rs).session = b.session := by
  induction rs generalizing b with
  | nil => rfl
  | cons r rs ih => rw [closeAll_cons, ih, (SameSeat.close b r.request).session]

/-- What nobody has taken yet stays where it is. -/
theorem queue_closeAll (h : ∀ r ∈ rs, r.request ∉ b.queue) : (b.closeAll rs).queue = b.queue := by
  induction rs generalizing b with
  | nil => rfl
  | cons r rs ih =>
      have hsame : (b.close r.request).queue = b.queue := by
        rw [queue_close, filter_ne_eq_self (h r List.mem_cons_self)]
      rw [closeAll_cons, ih, hsame]
      intro r' hr'
      rw [hsame]
      exact h r' (List.mem_cons_of_mem _ hr')

theorem Keeps.closeAll (b : Broker) (rs : List RequestHandle) : Keeps b (b.closeAll rs) := by
  intro id q hq
  rw [request?_closeAll, hq]
  split_ifs
  · refine ⟨_, rfl, Request.path_finish, Request.created_finish, fun hover => ?_⟩
    exact congrArg Request.state (Request.finish_of_isTerminal hover)
  · exact ⟨q, rfl, rfl, rfl, fun _ => rfl⟩

/-- Closing is not what makes a request time out. -/
theorem state?_closeAll_timedOut (h : (b.closeAll rs).state? id = some .timedOut) :
    b.state? id = some .timedOut := by
  rw [state?, request?_closeAll] at h
  split_ifs at h
  · cases hr : b.request? id with
    | none => simp [hr] at h
    | some r =>
        rw [state?_of_some hr]
        cases hs : r.state <;> simp [hr, Request.finish, hs, RequestState.isTerminal] at h ⊢
  · exact h

/-- A read that yields a request takes the one at the front. -/
theorem Filed.of_takeHandle (h : b.Filed) {channel : SessionId} (hs : b.session = some channel)
    {r : RequestHandle} {c : Broker} (ht : b.takeHandle channel = .ok (some r, c)) :
    ∃ q, b.request? r.request = some q ∧ q.state = .queued ∧ c = b.deliver r.request := by
  cases hq : b.queue with
  | nil =>
      rw [takeHandle_nil hs hq] at ht
      cases ht
  | cons id rest =>
      obtain ⟨q, hr, hqd, ht'⟩ := h.takeHandle_cons hs hq
      rw [ht'] at ht
      cases ht
      exact ⟨q, hr, hqd, rfl⟩

theorem Filed.of_attach (h : b.Filed) {now : Nat} {session : SessionId} {c : Broker}
    (ha : b.attach now = .ok (session, c)) : c.session = some session ∧ Keeps b c := by
  cases hs : b.session with
  | some session' =>
      rw [attach_of_isSome (by rw [hs]; rfl)] at ha
      cases ha
  | none =>
      cases hb : b.bootstrapped with
      | true =>
          rw [attach_again hs hb] at ha
          cases ha
          exact ⟨rfl, .of_eq fun _ => request?_congr rfl _⟩
      | false =>
          rw [h.attach_first hs hb] at ha
          cases ha
          exact ⟨by simp [Broker.openSession], Keeps.bootstrap b now⟩

namespace World

variable {w v : World}

/-- The handles of some requests were let go of, and nothing else happened. -/
structure LetGo (w : World) (rs : List RequestHandle) (v : World) : Prop where
  broker : v.broker = w.broker.closeAll rs
  now : v.now = w.now
  fetches : v.fetches = w.fetches
  channels : v.channels = w.channels
  deliveries : deliveries v.log = deliveries w.log
  handles (id : RequestId) : v.openHandles id + rs.countP (·.request = id) = w.openHandles id

theorem exists_handle_of_pos (h : 0 < w.openHandles id) : ∃ r ∈ w.handles, r.request = id := by
  simpa [openHandles, List.countP_pos_iff] using h

theorem Reachable.letGo (h : Reachable w)
    (hopen : ∀ id, rs.countP (·.request = id) ≤ w.openHandles id) :
    ∃ v, Reachable v ∧ w.LetGo rs v := by
  induction rs generalizing w with
  | nil => exact ⟨w, h, rfl, rfl, rfl, rfl, rfl, fun _ => rfl⟩
  | cons r rs ih =>
      have hpos : 0 < w.openHandles r.request :=
        Nat.lt_of_lt_of_le (by simp) (hopen r.request)
      obtain ⟨g, hg, hid⟩ := exists_handle_of_pos hpos
      have hreach := h.act ((Step.close hg).act h.filed)
      have hless (id : RequestId) : (w.handles.erase g).countP (·.request = id) +
          (if r.request = id then 1 else 0) = w.openHandles id := by
        have hg' := openHandles_pos hg
        rw [List.countP_erase, openHandles, hid]
        rw [openHandles, hid] at hg'
        by_cases heq : r.request = id
        · subst heq
          simp only [hg, decide_true, and_self, if_true]
          omega
        · simp [heq]
      obtain ⟨v, hv, hgo⟩ := ih hreach fun id => by
        have hid := hopen id
        have hl := hless id
        change rs.countP _ ≤ (w.handles.erase g).countP _
        rw [List.countP_cons] at hid
        simp only [decide_eq_true_eq] at hid
        omega
      refine ⟨v, hv, ?_, hgo.now, hgo.fetches, hgo.channels, ?_, fun id => ?_⟩
      · rw [hgo.broker, closeAll_cons, ← hid]
        rfl
      · rw [hgo.deliveries]
        exact deliveries_of_none rfl _
      · have hid := hgo.handles id
        have hl := hless id
        change _ = (w.handles.erase g).countP _ at hid
        rw [List.countP_cons]
        simp only [decide_eq_true_eq]
        omega

end World
end Broker
end OnDemandFs
