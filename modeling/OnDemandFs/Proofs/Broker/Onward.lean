import OnDemandFs.Proofs.Broker.Balance
import OnDemandFs.Proofs.Broker.Channels

/-!
# What goes on around a helper

A helper that holds a channel cannot keep others from acting, but there is little that they can do
to it. They cannot take its seat, and once it lost the seat it never gets it back; nobody reads but
who is in the seat; whoever stands in the queue stays in front of all that come later; and a request
whose handle was closed never has another one.
-/
namespace OnDemandFs.Broker

variable {b c : Broker}

theorem Keeps.nextId_le (h : Keeps b c) : b.nextId ≤ c.nextId := by
  cases hn : b.requests.length with
  | zero =>
      rw [nextId, hn]
      exact Nat.succ_le_succ (Nat.zero_le _)
  | succ n =>
      have hlast : b.request? (n + 1) = some b.requests[n] := List.getElem?_eq_getElem (by omega)
      obtain ⟨q, hq, -⟩ := h _ _ hlast
      rw [nextId, hn]
      exact Nat.succ_le_of_lt (lt_nextId hq).2

namespace World

variable {w v u : World} {a : Action} {r : Reply} {k : Nat} {session : SessionId} {id : RequestId}

/-! ## The seat -/

theorem Step.channel?_eq (hs : Step w a r v) (hc : w.channel? k = some session)
    (ha : a ≠ .drop k) : v.channel? k = some session := by
  have hk : k < w.channels.length := by
    by_contra hle
    rw [channel?, List.getElem?_eq_none (Nat.le_of_not_lt hle)] at hc
    cases hc
  cases hs with
  | attachFirst | attachAgain =>
      rw [channel?_concat (w := w) rfl, if_neg (Nat.ne_of_lt hk)]
      exact hc
  | @drop j d hd =>
      have hne : k ≠ j := by
        rintro rfl
        exact ha rfl
      rw [channel?_set_none (w := w) rfl, if_neg hne]
      exact hc
  | _ => exact hc

/-- A channel that lost the seat never gets it back. -/
theorem Reachable.attached_of_step (h : Reachable w) (hs : Step w a r v)
    (hc : w.channel? k = some session) (hk : v.Attached k) : w.Attached k := by
  have hv := (h.act (hs.act h.filed)).seated
  have hlog : attached? (⟨a, r⟩ :: w.log) = some k := by
    have hk : attached? (v.note a r).log = some k := (hv.attached_iff k).mp hk
    rwa [hs.log] at hk
  rw [h.seated.attached_iff]
  by_cases ha : a.isSeating = false
  · rwa [attached?_of_isSeating ha] at hlog
  · cases hs with
    | attachFirst | attachAgain =>
        cases hlog
        rw [channel?, List.getElem?_eq_none (Nat.le_refl _)] at hc
        cases hc
    | attachRefused => exact hlog
    | detach | drop =>
        simp only [attached?] at hlog
        split_ifs at hlog
        exact hlog
    | _ => exact absurd rfl ha

/-- Only the helper is given requests. -/
theorem Step.attached_of_delivered {h : RequestHandle} (hs : Step w a (.delivered h) v) :
    ∃ j, a = .read j ∧ w.Attached j := by
  cases hs with
  | deliver hc hsession => exact ⟨_, rfl, _, hc, hsession⟩

/-- As long as a channel has the seat, nothing goes to anybody else. -/
theorem Reachable.deliveries_of_attached (h : Reachable w) (hs : Step w a r v)
    (hk : w.Attached k) (ha : a ≠ .read k) : deliveries (v.note a r).log = deliveries w.log := by
  rw [hs.log]
  refine deliveries_of_none ?_ _
  cases r with
  | delivered g =>
      obtain ⟨j, rfl, hj⟩ := hs.attached_of_delivered
      rw [(exclusive_of_reachable h).at_most_one hj hk] at ha
      exact absurd rfl ha
  | _ => rfl

/-! ## The queue -/

/-- Of those in the queue some are left, in the order in which they stood; behind them are those who
came since, in the order in which they came. -/
structure Onward (w v : World) : Prop where
  nextId_le : w.broker.nextId ≤ v.broker.nextId
  queue : ∃ left came, v.broker.queue = left ++ came ∧ left.Sublist w.broker.queue ∧
    (∀ id ∈ came, w.broker.nextId ≤ id) ∧ came.Pairwise (· < ·)

theorem Onward.refl (w : World) : w.Onward w :=
  ⟨Nat.le_refl _, _, [], (List.append_nil _).symm, .refl _, by simp, .nil⟩

theorem lt_nextId_of_mem_queue (h : Reachable w) (hid : id ∈ w.broker.queue) :
    id < w.broker.nextId :=
  lt_nextId_of_mem_line h (List.mem_append_right _ hid)

theorem Onward.trans (h : w.Onward v) (hv : Reachable v) (h' : v.Onward u) : w.Onward u := by
  refine ⟨Nat.le_trans h.nextId_le h'.nextId_le, ?_⟩
  obtain ⟨left, came, hq, hleft, hcame, hsorted⟩ := h.queue
  obtain ⟨left', came', hq', hleft', hcame', hsorted'⟩ := h'.queue
  rw [hq, List.sublist_append_iff] at hleft'
  obtain ⟨still, stayed, rfl, hstill, hstayed⟩ := hleft'
  refine ⟨still, stayed ++ came', by rw [hq', List.append_assoc], hstill.trans hleft, ?_, ?_⟩
  · intro id hid
    rcases List.mem_append.mp hid with hid | hid
    · exact hcame id (hstayed.subset hid)
    · exact Nat.le_trans h.nextId_le (hcame' id hid)
  · refine List.pairwise_append.mpr ⟨hsorted.sublist hstayed, hsorted', fun i hi j hj => ?_⟩
    have hiq : i ∈ v.broker.queue := by
      rw [hq]
      exact List.mem_append_right _ (hstayed.subset hi)
    exact Nat.lt_of_lt_of_le (lt_nextId_of_mem_queue hv hiq) (hcame' j hj)

theorem Step.onward (hs : Step w a r v) (hb : w.broker.bootstrapped = true) :
    w.Onward (v.note a r) := by
  refine ⟨hs.keeps.nextId_le, ?_⟩
  change ∃ left came, v.broker.queue = left ++ came ∧ _
  have hless {queue : List RequestId} (hsub : queue.Sublist w.broker.queue) :
      ∃ left came, queue = left ++ came ∧ left.Sublist w.broker.queue ∧
        (∀ id ∈ came, w.broker.nextId ≤ id) ∧ came.Pairwise (· < ·) :=
    ⟨queue, [], (List.append_nil _).symm, hsub, by simp, .nil⟩
  cases hs with
  | attachFirst _ hfirst => rw [hfirst] at hb; cases hb
  | detach | drop =>
      refine hless ?_
      rw [queue_detach]
  | deliver => exact hless (List.tail_sublist _)
  | create => exact ⟨_, [w.broker.nextId], rfl, .refl _, by simp, List.pairwise_singleton _ _⟩
  | close =>
      refine hless ?_
      rw [queue_close]
      exact List.filter_sublist
  | expire =>
      refine hless ?_
      change (w.broker.expire _).queue.Sublist _
      rw [queue_expire]
      exact List.filter_sublist
  | _ => exact hless (.refl _)

/-- Nobody is lost: who was not given to a helper and did not run out is in the queue. -/
theorem Reachable.mem_queue_of_not_delivered (h : Reachable w) {q : Request}
    (hq : w.broker.request? id = some q) (hd : id ∉ deliveries w.log)
    (ht : q.state ≠ .timedOut) : id ∈ w.broker.queue := by
  have haccounted := h.custody.accounted id
  rw [state?_of_some hq, List.count_eq_zero.mpr hd] at haccounted
  rw [h.filed.mem_queue_iff hq]
  cases hs : q.state with
  | queued => rfl
  | delivered | completed => rw [hs] at haccounted; cases haccounted.1
  | timedOut => exact absurd hs ht

/-! ## What is over -/

/-- The request went to a helper, and its handle is not open any more. -/
def LetOff (w : World) (id : RequestId) : Prop := id ∈ deliveries w.log ∧ w.openHandles id = 0

theorem Reachable.letOff_step (h : Reachable w) (hs : Step w a r v) (hid : w.LetOff id) :
    (v.note a r).LetOff id := by
  refine ⟨?_, ?_⟩
  · rw [hs.log, deliveries_cons]
    exact List.mem_append_left _ hid.1
  by_cases hquiet : Event.isQuiet ⟨a, r⟩ = true
  · change v.openHandles id = 0
    rw [openHandles, (hs.grows hquiet).2]
    exact hid.2
  cases hs with
  | @deliver k c j rest q _ _ _ hr hq =>
      change List.countP _ (_ :: w.handles) = 0
      rw [List.countP_cons_of_neg, ← openHandles]
      · exact hid.2
      · -- it would have been queued, and went to a helper already
        rintro hj
        have hj : j = id := of_decide_eq_true hj
        have haccounted := h.custody.accounted id
        rw [← hj, state?_of_some hr, hq] at haccounted
        exact List.count_eq_zero.mp haccounted.1 (hj ▸ hid.1)
  | close =>
      change List.countP _ (w.handles.erase _) = 0
      exact Nat.eq_zero_of_le_zero
        (Nat.le_trans List.erase_sublist.countP_le (Nat.le_of_eq hid.2))
  | expire => exact hid.2
  | _ => exact absurd rfl hquiet

/-- A handle that is open is the only one of its request, which went to a helper once. -/
theorem Reachable.openHandles_eq_one (h : Reachable w) {g : RequestHandle} (hg : g ∈ w.handles) :
    w.openHandles g.request = 1 ∧ g.request ∈ deliveries w.log := by
  have haccounted := h.custody.accounted g.request
  have hpos := openHandles_pos hg
  rw [← List.count_pos_iff]
  cases hs : w.broker.state? g.request with
  | none =>
      rw [hs] at haccounted
      exact absurd haccounted.2 (Nat.ne_of_gt hpos)
  | some s =>
      rw [hs] at haccounted
      cases s with
      | queued | completed => exact absurd haccounted.2 (Nat.ne_of_gt hpos)
      | delivered => exact ⟨haccounted.2, by rw [haccounted.1]; exact Nat.one_pos⟩
      | timedOut =>
          have hle := haccounted.1
          have hone := haccounted.2
          exact ⟨by omega, by omega⟩

theorem Reachable.letOff_of_close (h : Reachable w) {g : RequestHandle} (hg : g ∈ w.handles)
    (hs : Step w (.close g) r v) : (v.note (.close g) r).LetOff g.request := by
  obtain ⟨hone, hmem⟩ := h.openHandles_eq_one hg
  refine ⟨?_, ?_⟩
  · rw [hs.log, deliveries_cons]
    exact List.mem_append_left _ hmem
  · cases hs with
    | close =>
        change List.countP _ (w.handles.erase g) = 0
        rw [List.countP_erase, ← openHandles, hone]
        simp [hg]

/-- It was closed in time, or it had run out before. -/
theorem Reachable.letOff_cases (h : Reachable w) (hid : w.LetOff id) :
    w.broker.state? id = some .completed ∧ verdict? w.log id = some .closed ∨
      w.broker.state? id = some .timedOut ∧ verdict? w.log id = some .expired := by
  have haccounted := h.custody.accounted id
  have hpos := List.count_pos_iff.mpr hid.1
  rw [hid.2] at haccounted
  rw [h.verdict?_log, decided?]
  cases hs : w.broker.state? id with
  | none =>
      rw [hs] at haccounted
      exact absurd haccounted.1 (Nat.ne_of_gt hpos)
  | some s =>
      rw [hs] at haccounted
      cases s with
      | queued => exact absurd haccounted.1 (Nat.ne_of_gt hpos)
      | delivered => exact absurd haccounted.2 Nat.zero_ne_one
      | completed => exact .inl ⟨rfl, rfl⟩
      | timedOut => exact .inr ⟨rfl, rfl⟩

end World
end OnDemandFs.Broker
