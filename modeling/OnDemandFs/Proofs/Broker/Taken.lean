import OnDemandFs.Proofs.Broker.Closing

/-!
# What was taken once

A request leaves the queue and never comes back: once a helper has taken it, or it is over, no
reader is ever given it again (`Advances`). A new helper gets a session of its own, and leaves alone
what others have taken (`Admits`).
-/
namespace OnDemandFs
namespace Broker

variable {b c : Broker} {id : RequestId}

/-- The request went to a helper, or is over. -/
def IsTaken (b : Broker) (id : RequestId) : Prop :=
  ∃ state, b.state? id = some state ∧ state ≠ .queued

/-- What was taken is never to be taken again. -/
def Advances (b c : Broker) : Prop := ∀ id, b.IsTaken id → c.IsTaken id

theorem IsTaken.congr (h : b.IsTaken id) (hr : c.request? id = b.request? id) : c.IsTaken id := by
  unfold IsTaken
  rw [state?_congr hr]
  exact h

theorem IsTaken.finish (h : b.IsTaken id) {state : RequestState} (ht : state.isTerminal = true)
    (hr : c.request? id = (b.request? id).map (·.finish state)) : c.IsTaken id := by
  obtain ⟨s, hs, -⟩ := h
  obtain ⟨q, hq, -⟩ := Option.map_eq_some_iff.mp hs
  rw [hq] at hr
  refine ⟨_, state?_of_some hr, fun hqueued => ?_⟩
  have hover := Request.isTerminal_finish (r := q) ht
  rw [hqueued] at hover
  cases hover

theorem not_isTaken_of_queued {q : Request} (hq : b.request? id = some q) (hs : q.state = .queued) :
    ¬ b.IsTaken id := by
  rintro ⟨s, hstate, hne⟩
  rw [state?_of_some hq, Option.some.injEq] at hstate
  exact hne (hstate.symm.trans hs)

namespace Advances

theorem of_eq (h : ∀ j, c.request? j = b.request? j) : Advances b c :=
  fun id hid => hid.congr (h id)

theorem of_grows (hg : Grows b c) : Advances b c := by
  rintro id ⟨s, hs, hne⟩
  rcases hg id with hsame | ⟨hnone, -⟩
  · exact ⟨s, hsame.trans hs, hne⟩
  · rw [hnone] at hs
    cases hs

theorem deliver {q : Request} (hq : b.request? id = some q) : Advances b (b.deliver id) := by
  intro j hj
  by_cases h : j = id
  · subst h
    exact ⟨.delivered, state?_of_some ((request?_deliver hq j).trans (if_pos rfl)), nofun⟩
  · exact hj.congr ((request?_deliver hq j).trans (if_neg h))

theorem close (b : Broker) (id : RequestId) : Advances b (b.close id) := by
  intro j hj
  have hr := request?_close b id j
  split_ifs at hr with h
  · subst h
    exact hj.finish rfl hr
  · exact hj.congr hr

theorem expire (b : Broker) (id : RequestId) : Advances b (b.expire id) := by
  intro j hj
  have hr := request?_expire b id j
  split_ifs at hr with h
  · subst h
    exact hj.finish rfl hr
  · exact hj.congr hr

theorem closeAll (b : Broker) (rs : List RequestHandle) : Advances b (b.closeAll rs) := by
  intro j hj
  have hr := request?_closeAll b rs j
  split_ifs at hr
  · exact hj.finish rfl hr
  · exact hj.congr hr

end Advances

theorem World.Step.advances {w v : World} {a : Action} {r : Reply} (hs : World.Step w a r v) :
    Advances w.broker v.broker := by
  cases hs with
  | deliver _ _ _ hr => exact .deliver hr
  | close => exact .close _ _
  | expire => exact .expire _ _
  | attachFirst => exact .of_grows (.bootstrap _ _)
  | attachAgain | join => exact .of_eq fun _ => request?_congr rfl _
  | create => exact .of_grows (.of_new (request?_enqueue _ _ _))
  | detach | drop => exact .of_eq (request?_detach _ _)
  | attachRefused | readRefused | readNothing | wake | giveUp | pass => exact .of_eq fun _ => rfl

theorem SameSeat.closeAll (b : Broker) (rs : List RequestHandle) : SameSeat b (b.closeAll rs) := by
  induction rs generalizing b with
  | nil => exact ⟨rfl, rfl, rfl⟩
  | cons r rs ih =>
      have hone := SameSeat.close b r.request
      have hrest := ih (b.close r.request)
      exact ⟨hrest.session.trans hone.session, hrest.sessions.trans hone.sessions,
        hrest.bootstrapped.trans hone.bootstrapped⟩

theorem Filed.closeAll (h : b.Filed) (rs : List RequestHandle) : (b.closeAll rs).Filed := by
  induction rs generalizing b with
  | nil => exact h
  | cons r rs ih => exact ih (h.close _)

/-- Whoever was given a request is the helper, and took it from the queue. -/
theorem Filed.of_takeHandle_ok (h : b.Filed) {channel : SessionId} {r : RequestHandle}
    (ht : b.takeHandle channel = .ok (some r, c)) :
    ∃ q, b.request? r.request = some q ∧ q.state = .queued ∧ c = b.deliver r.request := by
  by_cases hs : b.session = some channel
  · exact h.of_takeHandle hs ht
  · rw [takeHandle_of_ne hs] at ht
    cases ht

theorem Filed.takeHandle (h : b.Filed) {channel : SessionId} {r : RequestHandle}
    (ht : b.takeHandle channel = .ok (some r, c)) : c.Filed := by
  by_cases hs : b.session = some channel
  · cases hq : b.queue with
    | nil =>
        rw [takeHandle_nil hs hq] at ht
        cases ht
    | cons id rest =>
        obtain ⟨q, hr, -, ht'⟩ := h.takeHandle_cons hs hq
        rw [ht'] at ht
        cases ht
        exact h.deliver hq hr
  · rw [takeHandle_of_ne hs] at ht
    cases ht

/-- A session begins, with a number that no session had before. -/
structure Admits (b : Broker) (session : SessionId) (c : Broker) : Prop where
  free : b.session = none
  next : session = b.sessions + 1
  seated : c.session = some session
  sessions : c.sessions = session
  filed : c.Filed
  grows : Grows b c
  keeps : Keeps b c

theorem free_of_attach {now : Nat} {session : SessionId} (h : b.attach now = .ok (session, c)) :
    b.session = none := by
  cases hs : b.session with
  | none => rfl
  | some other =>
      rw [attach_of_isSome (by rw [hs]; rfl)] at h
      cases h

theorem Filed.admits (h : b.Filed) {now : Nat} {session : SessionId}
    (ha : b.attach now = .ok (session, c)) : Admits b session c := by
  have hs := free_of_attach ha
  have hkeeps := (h.of_attach ha).2
  cases hb : b.bootstrapped with
  | true =>
      rw [attach_again hs hb] at ha
      cases ha
      exact ⟨hs, rfl, rfl, rfl, h.openSession, .of_eq fun _ => request?_congr rfl _, hkeeps⟩
  | false =>
      rw [h.attach_first hs hb] at ha
      cases ha
      exact ⟨hs, rfl, by simp [Broker.openSession], by simp [Broker.openSession],
        (h.bootstrap _).openSession, .bootstrap _ _, hkeeps⟩

/-- A request that was there before, and was taken, is just as it was. -/
theorem Admits.request?_eq {session : SessionId} (h : Admits b session c) (hid : b.IsTaken id) :
    c.request? id = b.request? id := by
  obtain ⟨s, hs, -⟩ := hid
  obtain ⟨q, hq, hstate⟩ := Option.map_eq_some_iff.mp hs
  obtain ⟨q', hq', hpath, hcreated, -⟩ := h.keeps id q hq
  rcases h.grows id with hsame | ⟨hnone, -⟩
  · rw [state?_of_some hq', state?_of_some hq, Option.some.injEq] at hsame
    obtain ⟨path, created, state⟩ := q
    obtain ⟨path', created', state'⟩ := q'
    cases hpath
    cases hcreated
    cases hsame
    rw [hq, hq']
  · rw [hnone] at hs
    cases hs

end Broker
end OnDemandFs
