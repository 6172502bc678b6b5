import OnDemandFs.Proofs.Broker.Runs
import Mathlib.Data.List.Count

/-!
# Nobody is left waiting for nothing

A request that is not over is either in the queue or in the hands of a helper. `Accounted` counts,
for the state of a request, how often it went to a helper and how many of its handles are open;
`Custody` says that this holds of every request in a world, and that handles and calls name requests
that exist, by their own path. Each step keeps it, so it holds along every run, and whoever waits
can be pointed to the place in the queue or to the open handle that the answer will come from.
-/
namespace OnDemandFs.Broker

/-- How often a request went to a helper and how many of its handles are open. A request that was
withdrawn by its deadline may never have gone to anybody, or its handle may still be open. -/
def Accounted : Option RequestState → (deliveries handles : Nat) → Prop
  | none, d, h | some .queued, d, h => d = 0 ∧ h = 0
  | some .delivered, d, h => d = 1 ∧ h = 1
  | some .completed, d, h => d = 1 ∧ h = 0
  | some .timedOut, d, h => h ≤ d ∧ d ≤ 1

namespace Accounted

variable {r : Request} {d n : Nat}

theorem grow {b c : Broker} {id : RequestId} (hg : Grows b c)
    (h : Accounted (b.state? id) d n) : Accounted (c.state? id) d n := by
  rcases hg id with he | ⟨hnone, hqueued⟩
  · rw [he]
    exact h
  · rw [hnone] at h
    rw [hqueued]
    exact h

theorem deliver (h : Accounted (some .queued) d n) :
    Accounted (some .delivered) (d + 1) (n + 1) := by
  obtain ⟨rfl, rfl⟩ := h
  exact ⟨rfl, rfl⟩

theorem close (h : Accounted (some r.state) d n) (hn : 0 < n) :
    Accounted (some (r.finish .completed).state) d (n - 1) := by
  cases hs : r.state with
  | queued =>
      rw [hs] at h
      exact absurd h.2 (Nat.ne_of_gt hn)
  | delivered =>
      rw [hs] at h
      rw [Request.finish_of_live (by rw [hs]; rfl)]
      exact ⟨h.1, by rw [h.2]⟩
  | completed =>
      rw [hs] at h
      exact absurd h.2 (Nat.ne_of_gt hn)
  | timedOut =>
      rw [hs] at h
      rw [Request.finish_of_isTerminal (by rw [hs]; rfl), hs]
      exact ⟨Nat.le_trans (Nat.sub_le _ _) h.1, h.2⟩

theorem expire (h : Accounted (some r.state) d n) :
    Accounted (some (r.finish .timedOut).state) d n := by
  cases hs : r.state with
  | queued | delivered =>
      rw [hs] at h
      rw [Request.finish_of_live (by rw [hs]; rfl), h.1, h.2]
      exact ⟨by omega, by omega⟩
  | completed | timedOut =>
      rw [hs] at h
      rw [Request.finish_of_isTerminal (by rw [hs]; rfl), hs]
      exact h

theorem deliveries_le_one {state : Option RequestState} (h : Accounted state d n) : d ≤ 1 := by
  cases state with
  | none =>
      rw [h.1]
      exact Nat.zero_le 1
  | some s =>
      cases s with
      | queued =>
          rw [h.1]
          exact Nat.zero_le 1
      | delivered | completed => exact Nat.le_of_eq h.1
      | timedOut => exact h.2

end Accounted

namespace World

def openHandles (w : World) (id : RequestId) : Nat := w.handles.countP (·.request = id)

def Holds (w : World) (id : RequestId) (path : Path) : Prop :=
  ∃ r, w.broker.request? id = some r ∧ r.path = path

structure Custody (w : World) : Prop where
  accounted (id : RequestId) :
    Accounted (w.broker.state? id) ((deliveries w.log).count id) (w.openHandles id)
  handle {h : RequestHandle} (hh : h ∈ w.handles) : w.Holds h.request h.path
  fetch {k : Nat} {f : Fetch} (hf : w.fetches[k]? = some f) : w.Holds f.request f.path

theorem Holds.step {w v : World} {a : Action} {r : Reply} (hs : Step w a r v) {id : RequestId}
    {p : Path} (h : w.Holds id p) : v.Holds id p := by
  obtain ⟨q, hq, hp⟩ := h
  obtain ⟨q', hq', hp', -⟩ := hs.keeps _ _ hq
  exact ⟨q', hq', hp'.trans hp⟩

theorem openHandles_pos {w : World} {h : RequestHandle} (hh : h ∈ w.handles) :
    0 < w.openHandles h.request :=
  List.countP_pos_iff.mpr ⟨h, hh, by simp⟩

theorem Custody.accounted_step {w v : World} {a : Action} {r : Reply} (hc : w.Custody)
    (hs : Step w a r v) (id : RequestId) :
    Accounted (v.broker.state? id) ((deliveries (⟨a, r⟩ :: w.log)).count id)
      (v.openHandles id) := by
  have hid := hc.accounted id
  by_cases hquiet : Event.isQuiet ⟨a, r⟩ = true
  · obtain ⟨hg, hh⟩ := hs.grows hquiet
    rw [deliveries_of_none (Event.delivered?_of_isQuiet hquiet), openHandles, hh]
    exact hid.grow hg
  cases hs with
  | @deliver k c j rest q _ _ _ hr hq =>
      simp only [deliveries_cons, Event.delivered?, Option.toList, List.count_append, openHandles,
        List.countP_cons, decide_eq_true_eq]
      by_cases hj : id = j
      · subst hj
        rw [state?_of_some ((request?_deliver hr id).trans (if_pos rfl))]
        rw [state?_of_some hr, hq] at hid
        simpa [openHandles] using hid.deliver
      · rw [state?_congr ((request?_deliver hr id).trans (if_neg hj))]
        simpa [Ne.symm hj, openHandles] using hid
  | @close h hh =>
      obtain ⟨q, hq, -⟩ := hc.handle hh
      rw [deliveries_of_none rfl]
      simp only [openHandles, List.countP_erase, hh, true_and, decide_eq_true_eq]
      by_cases hj : id = h.request
      · subst hj
        rw [if_pos rfl, state?_of_some (request?_close_self hq)]
        rw [state?_of_some hq] at hid
        exact hid.close (openHandles_pos hh)
      · rw [if_neg (Ne.symm hj), state?_congr (request?_close_of_ne hj)]
        exact hid
  | @expire k f o hf =>
      obtain ⟨q, hq, -⟩ := hc.fetch hf
      rw [deliveries_of_none rfl]
      change Accounted ((w.broker.expire f.request).state? id) _ (w.openHandles id)
      by_cases hj : id = f.request
      · subst hj
        rw [state?_of_some (request?_expire_self hq)]
        rw [state?_of_some hq] at hid
        exact hid.expire
      · rw [state?_congr (request?_expire_of_ne hj)]
        exact hid
  | _ => exact absurd rfl hquiet

theorem Custody.handle_step {w v : World} {a : Action} {r : Reply} (hc : w.Custody)
    (hs : Step w a r v) {h : RequestHandle} (hh : h ∈ v.handles) : v.Holds h.request h.path := by
  by_cases hold : h ∈ w.handles
  · exact (hc.handle hold).step hs
  · cases hs with
    | deliver _ _ _ hr =>
        rcases List.mem_cons.mp hh with rfl | hh
        · exact ⟨_, (request?_deliver hr _).trans (if_pos rfl), rfl⟩
        · exact absurd hh hold
    | close => exact absurd (List.mem_of_mem_erase hh) hold
    | _ => exact absurd hh hold

theorem Custody.fetch_step {w v : World} {a : Action} {r : Reply} (hv : v.broker.Filed)
    (hc : w.Custody) (hs : Step w a r v) {k : Nat} {f : Fetch} (hf : v.fetches[k]? = some f) :
    v.Holds f.request f.path := by
  rcases hs.fetch_cases hf with hold | ⟨f', hold, -, rfl | ⟨o, rfl, -⟩⟩ | ⟨-, -, -, -, hp⟩
  · exact (hc.fetch hold).step hs
  · exact (hc.fetch hold).step hs
  · exact (hc.fetch hold).step hs
  · obtain ⟨q, hq, hpath, -⟩ := (hv.inFlight_iff _ _).mp hp
    exact ⟨q, hq, hpath⟩

theorem Reachable.custody {w : World} (h : Reachable w) : w.Custody := by
  refine h.induct ?_ ?_
  · intro timeout now
    refine ⟨fun id => ?_, fun hh => ?_, fun hf => ?_⟩
    · cases id <;> exact ⟨rfl, rfl⟩
    · cases hh
    · simp [World.start] at hf
  · intro w a r v hw hc hs
    refine ⟨fun id => ?_, fun hh => hc.handle_step hs hh, fun hf => ?_⟩
    · rw [hs.log]
      exact hc.accounted_step hs id
    · exact hc.fetch_step (hs.filed hw.filed) hs hf

/-- Every request that was not answered yet is where it can be answered, and whoever waits, waits
for such a one. -/
structure Answerable (w : World) : Prop where
  filed : w.broker.Filed
  live_unique {i j : RequestId} {q q' : Request} (hi : w.broker.request? i = some q)
    (hj : w.broker.request? j = some q') (hq : q.state.isTerminal = false)
    (hq' : q'.state.isTerminal = false) (hp : q.path = q'.path) : i = j
  delivered {id : RequestId} {q : Request} (hid : w.broker.request? id = some q)
    (hq : q.state = .delivered) : (deliveries w.log).count id = 1 ∧ w.openHandles id = 1
  waiting {f : Fetch} (hf : f ∈ w.fetches) (ho : f.progress.isOver = false)
    (hw : w.broker.outcome? f.request = none) :
    f.request ∈ w.broker.queue ∨ ∃ h ∈ w.handles, h.request = f.request ∧ h.path = f.path

theorem answerable_of_reachable {w : World} (h : Reachable w) : w.Answerable where
  filed := h.filed
  live_unique hi hj hq hq' hp := by
    have h₁ := (h.filed.get?_path_iff hi).mpr hq
    have h₂ := (h.filed.get?_path_iff hj).mpr hq'
    rw [hp, h₂] at h₁
    exact (Option.some.inj h₁).symm
  delivered {id q} hid hq := by
    have hc := h.custody.accounted id
    rw [state?_of_some hid, hq] at hc
    exact hc
  waiting {f} hf _ hw := by
    obtain ⟨k, hk⟩ := List.mem_iff_getElem?.mp hf
    obtain ⟨q, hq, hp⟩ := h.custody.fetch hk
    have hlive := (outcome?_eq_none_iff hq).mp hw
    cases hs : q.state with
    | queued => exact .inl ((h.filed.mem_queue_iff hq).mpr hs)
    | delivered =>
        have hc := h.custody.accounted f.request
        rw [state?_of_some hq, hs] at hc
        have hpos : 0 < w.openHandles f.request := by rw [hc.2]; exact Nat.one_pos
        obtain ⟨g, hg, hreq⟩ := List.countP_pos_iff.mp hpos
        have hreq : g.request = f.request := of_decide_eq_true hreq
        obtain ⟨q', hq', hp'⟩ := h.custody.handle hg
        rw [hreq, hq] at hq'
        cases hq'
        exact .inr ⟨g, hg, hreq, hp'.symm.trans hp⟩
    | completed | timedOut =>
        rw [hs] at hlive
        cases hlive

/-- The helper goes away with two requests; then a call joins one of them, and another begins. -/
def leavingHelper : List Action :=
  [.fetch pathA, .attach, .read 0, .read 0, .detach 0, .fetch pathA, .fetch pathB]

theorem answerable_leavingHelper : ∃ w, (start (some 5) 0).run? leavingHelper = some w ∧
    w.broker.queue = [3] ∧ w.handles.map (·.request) = [1, 2] ∧ w.fetches.length = 3 ∧
    w.Answerable := by
  have hrun : ((start (some 5) 0).run? leavingHelper).isSome := by decide
  have hw := Option.some_get hrun
  exact ⟨_, hw.symm, rfl, rfl, rfl,
    answerable_of_reachable ((Reachable.start _ _).run? hw.symm)⟩

end World
end OnDemandFs.Broker
