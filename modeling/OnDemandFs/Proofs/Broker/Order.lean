import OnDemandFs.Proofs.Broker.Custody
import Mathlib.Data.List.Nodup

/-!
# Who comes next

The requests that went to helpers, followed by those that stand in the queue, form one line. It is
in the order in which the requests were created, except that the request for the root which the
first helper finds at the front may be younger than those behind it. Taking a request moves the
boundary inside the line and nothing else; a new request joins at the end; whoever is withdrawn
leaves.

That the line is in order is all that there is to say about order, in the past and in what is to
come.
-/
namespace OnDemandFs.Broker.World

def line (w : World) : List RequestId := deliveries w.log ++ w.broker.queue

/-- By age, and the bootstrap before everybody. -/
def Precedes (w : World) (i j : RequestId) : Prop := i < j ∨ w.bootstrap = some i

structure InLine (w : World) : Prop where
  sorted : w.line.Pairwise w.Precedes
  untouched (hc : w.channels = []) : w.broker.bootstrapped = false ∧ w.broker.session = none ∧
    w.bootstrap = none ∧ deliveries w.log = []
  first (hc : w.channels ≠ []) : w.broker.bootstrapped = true ∧
    ∃ id, w.bootstrap = some id ∧ w.Holds id Path.root ∧
      (w.line.head? = some id ∨ w.broker.state? id = some .timedOut)

theorem channels_ne_nil {w : World} {k : Nat} {c : SessionId} (hc : w.channel? k = some c) :
    w.channels ≠ [] := by
  intro hnil
  simp [channel?, hnil] at hc

theorem Step.line {w v : World} {a : Action} {r : Reply} (hs : Step w a r v) :
    (v.note a r).line =
      deliveries w.log ++ ((Event.delivered? ⟨a, r⟩).toList ++ v.broker.queue) := by
  rw [World.line, hs.log, deliveries_cons, List.append_assoc]
  rfl

theorem line_of_cons {w : World} {id : RequestId} {rest : List RequestId}
    (hq : w.broker.queue = id :: rest) :
    w.line = deliveries w.log ++ ([id] ++ w.broker.queue.tail) := by
  rw [World.line, hq]
  rfl

theorem lt_nextId_of_mem_deliveries {w : World} (h : Reachable w) {id : RequestId}
    (hid : id ∈ deliveries w.log) : id < w.broker.nextId := by
  have hc := h.custody.accounted id
  cases hs : w.broker.request? id with
  | some r => exact (lt_nextId hs).2
  | none =>
      have hnone : w.broker.state? id = none := by rw [state?, hs]; rfl
      rw [hnone] at hc
      exact absurd (List.count_pos_iff.mpr hid) (by rw [hc.1]; exact Nat.lt_irrefl 0)

theorem lt_nextId_of_mem_line {w : World} (h : Reachable w) {id : RequestId}
    (hid : id ∈ w.line) : id < w.broker.nextId := by
  rcases List.mem_append.mp hid with hd | hq
  · exact lt_nextId_of_mem_deliveries h hd
  · obtain ⟨r, hr, -⟩ := (h.filed.mem_queue id).mp hq
    exact (lt_nextId hr).2

/-- As long as nothing went to a helper, what is in flight is in the queue. -/
theorem mem_queue_of_inFlight {w : World} (h : Reachable w) (hd : deliveries w.log = [])
    {p : Path} {id : RequestId} (hp : w.broker.inFlight.get? p = some id) :
    id ∈ w.broker.queue := by
  obtain ⟨r, hr, -, hlive⟩ := (h.filed.inFlight_iff p id).mp hp
  rw [h.filed.mem_queue_iff hr]
  have hc := h.custody.accounted id
  rw [state?_of_some hr, hd] at hc
  cases hs : r.state with
  | queued => rfl
  | delivered =>
      rw [hs] at hc
      cases hc.1
  | completed | timedOut =>
      rw [hs] at hlive
      cases hlive

theorem InLine.channels_eq_nil {w : World} (hl : w.InLine)
    (hb : w.broker.bootstrapped = false) : w.channels = [] := by
  by_contra hc
  rw [(hl.first hc).1] at hb
  cases hb

section Step
variable {w v : World} {a : Action} {r : Reply}

/-- The line that the first helper finds. -/
theorem InLine.bootstrap (hl : w.InLine) (h : Reachable w)
    (hb : w.broker.bootstrapped = false) :
    ∃ id, (w.broker.bootstrap w.now).queue = id :: w.broker.queue.filter (· ≠ id) ∧
      (w.broker.bootstrap w.now).inFlight.get? Path.root = some id ∧
      (w.broker.inFlight.get? Path.root = none ∧ id = w.broker.nextId ∨
        w.broker.inFlight.get? Path.root = some id ∧
          (w.broker.bootstrap w.now).requests = w.broker.requests) := by
  obtain ⟨-, -, -, hd⟩ := hl.untouched (hl.channels_eq_nil hb)
  exact h.filed.queue_bootstrap (fun j => mem_queue_of_inFlight h hd) w.now

theorem InLine.sorted_step (hl : w.InLine) (h : Reachable w) (hs : Step w a r v) :
    (v.note a r).line.Pairwise (v.note a r).Precedes := by
  have hsorted := hl.sorted
  rw [hs.line]
  cases hs with
  | attachFirst hn hb =>
      obtain ⟨-, -, hboot, hd⟩ := hl.untouched (hl.channels_eq_nil hb)
      obtain ⟨id, hq, -⟩ := hl.bootstrap h hb
      have hage : w.broker.queue.Pairwise (· < ·) := by
        rw [World.line, hd] at hsorted
        exact hsorted.imp fun {i j} hij => hij.resolve_right (by rw [hboot]; exact nofun)
      rw [hd]
      change (w.broker.bootstrap w.now).queue.Pairwise fun i j =>
        i < j ∨ (w.broker.bootstrap w.now).queue.head? = some i
      rw [hq]
      refine List.pairwise_cons.mpr ⟨fun _ _ => .inr rfl, ?_⟩
      exact (hage.filter _).imp .inl
  | create =>
      change (deliveries w.log ++ (w.broker.queue ++ [w.broker.nextId])).Pairwise w.Precedes
      rw [← List.append_assoc, List.pairwise_append]
      refine ⟨hsorted, List.pairwise_singleton _ _, fun i hi j hj => .inl ?_⟩
      rw [List.mem_singleton.mp hj]
      exact lt_nextId_of_mem_line h hi
  | @deliver _ _ id _ _ _ _ hq =>
      rw [line_of_cons hq] at hsorted
      exact hsorted
  | close =>
      refine hsorted.sublist (List.Sublist.append_left ?_ _)
      change ((w.broker.close _).queue).Sublist _
      rw [queue_close]
      exact List.filter_sublist
  | expire =>
      refine hsorted.sublist (List.Sublist.append_left ?_ _)
      change ((w.broker.expire _).queue).Sublist _
      rw [queue_expire]
      exact List.filter_sublist
  | detach | drop =>
      change (deliveries w.log ++ (w.broker.detach _).queue).Pairwise w.Precedes
      rw [queue_detach]
      exact hsorted
  | _ => exact hsorted

theorem InLine.untouched_step (hl : w.InLine) (hs : Step w a r v) (hc : v.channels = []) :
    v.broker.bootstrapped = false ∧ v.broker.session = none ∧ v.bootstrap = none ∧
      deliveries (v.note a r).log = [] := by
  by_cases ha : a.isSeating = true
  · cases hs with
    | attachFirst | attachAgain => simp at hc
    | attachRefused =>
        rw [World.note, deliveries_of_none rfl]
        exact hl.untouched hc
    | detach hk | drop hk => exact absurd (by simpa using hc) (channels_ne_nil hk)
    | _ => cases ha
  · obtain ⟨hseat, hchannels, hboot⟩ := hs.sameSeat (by simpa using ha)
    rw [hchannels] at hc
    obtain ⟨hb, hn, hboot', hd⟩ := hl.untouched hc
    refine ⟨hseat.bootstrapped.trans hb, hseat.session.trans hn, hboot.trans hboot', ?_⟩
    rw [hs.log, deliveries_cons, hd, List.nil_append]
    cases hs with
    | deliver hk => exact absurd hc (channels_ne_nil hk)
    | _ => rfl

theorem head?_append_filter {l q : List RequestId} {id j : RequestId} (hj : j ≠ id)
    (h : (l ++ q).head? = some id) : (l ++ q.filter (· ≠ j)).head? = some id := by
  cases l with
  | cons i rest => exact h
  | nil =>
      cases q with
      | nil => cases h
      | cons i rest =>
          cases h
          rw [List.filter_cons_of_pos (by simpa using Ne.symm hj)]
          rfl

/-- Once a helper has attached, the bootstrap stays the first of the line, unless it runs out. -/
theorem InLine.head_step (hl : w.InLine) (h : Reachable w) (hs : Step w a r v) {id : RequestId}
    (hc : w.channels ≠ []) (hid : w.line.head? = some id) :
    (v.note a r).line.head? = some id ∨ v.broker.state? id = some .timedOut := by
  rw [hs.line]
  cases hs with
  | attachFirst hn hb => exact absurd (hl.channels_eq_nil hb) hc
  | create =>
      left
      change (deliveries w.log ++ (w.broker.queue ++ [w.broker.nextId])).head? = some id
      rw [← List.append_assoc, List.head?_append]
      exact congrArg (Option.or · _) hid
  | @deliver _ _ j _ _ _ _ hq =>
      left
      rw [line_of_cons hq] at hid
      exact hid
  | @close g hg =>
      left
      -- a helper has the request, so the queue does not
      have hout : g.request ∉ w.broker.queue := by
        intro hm
        obtain ⟨q, hq, hstate⟩ := (h.filed.mem_queue _).mp hm
        have hcount := h.custody.accounted g.request
        rw [state?_of_some hq, hstate] at hcount
        exact absurd hcount.2 (Nat.ne_of_gt (openHandles_pos hg))
      change (deliveries w.log ++ (w.broker.close g.request).queue).head? = some id
      rw [queue_close, filter_ne_eq_self hout]
      exact hid
  | @expire k f o hf =>
      change (deliveries w.log ++ (w.broker.expire f.request).queue).head? = some id ∨
        (w.broker.expire f.request).state? id = some .timedOut
      rw [queue_expire]
      by_cases hj : f.request = id
      · obtain ⟨q, hq, -⟩ := h.custody.fetch hf
        subst hj
        cases hlive : q.state.isTerminal with
        | false =>
            right
            rw [state?_of_some (request?_expire_self hq), Request.finish_of_live hlive]
        | true =>
            left
            rw [filter_ne_eq_self]
            · exact hid
            · intro hm
              rw [(h.filed.mem_queue_iff hq).mp hm] at hlive
              cases hlive
      · exact .inl (head?_append_filter hj hid)
  | detach | drop =>
      left
      change (deliveries w.log ++ (w.broker.detach _).queue).head? = some id
      rw [queue_detach]
      exact hid
  | _ => exact .inl hid

theorem InLine.first_step (hl : w.InLine) (h : Reachable w) (hs : Step w a r v)
    (hc : v.channels ≠ []) : v.broker.bootstrapped = true ∧
    ∃ id, v.bootstrap = some id ∧ v.Holds id Path.root ∧
      ((v.note a r).line.head? = some id ∨ v.broker.state? id = some .timedOut) := by
  by_cases hold : w.channels = []
  · obtain ⟨hunset, -, -, hd⟩ := hl.untouched hold
    cases hs with
    | attachFirst hn hb =>
        obtain ⟨id, hq, hp, -⟩ := hl.bootstrap h hb
        obtain ⟨q, hreq, hpath, -⟩ := ((h.filed.bootstrap w.now).inFlight_iff _ _).mp hp
        have hhead : (w.broker.bootstrap w.now).queue.head? = some id := by rw [hq]; rfl
        refine ⟨bootstrapped_bootstrap _ _, id, hhead, ⟨q, hreq, hpath⟩, .inl ?_⟩
        rw [World.line, World.note, deliveries_of_none rfl]
        change (deliveries w.log ++ (w.broker.bootstrap w.now).queue).head? = some id
        rw [hd]
        exact hhead
    | attachAgain hn hb =>
        rw [hb] at hunset
        cases hunset
    | detach hk | drop hk => exact absurd hold (channels_ne_nil hk)
    | _ => exact absurd hold hc
  · obtain ⟨hb, id, hid, hholds, hfirst⟩ := hl.first hold
    have hkeep : v.broker.bootstrapped = true ∧ v.bootstrap = some id := by
      by_cases ha : a.isSeating = true
      · cases hs with
        | attachFirst hn hb' =>
            rw [hb'] at hb
            cases hb
        | detach | drop => exact ⟨by simpa using hb, hid⟩
        | attachAgain | attachRefused => exact ⟨hb, hid⟩
        | _ => cases ha
      · obtain ⟨hseat, -, hboot⟩ := hs.sameSeat (by simpa using ha)
        exact ⟨hseat.bootstrapped.trans hb, hboot.trans hid⟩
    refine ⟨hkeep.1, id, hkeep.2, hholds.step hs, ?_⟩
    rcases hfirst with hhead | hover
    · exact hl.head_step h hs hold hhead
    · right
      obtain ⟨q, hq, -⟩ := hholds
      rw [state?_of_some hq] at hover
      obtain ⟨q', hq', -, -, hsame⟩ := hs.keeps _ _ hq
      rw [state?_of_some hq', hsame (by rw [Option.some.inj hover]; rfl)]
      exact hover

end Step

theorem Reachable.inLine {w : World} (h : Reachable w) : w.InLine := by
  refine h.induct ?_ ?_
  · intro timeout now
    exact ⟨List.Pairwise.nil, fun _ => ⟨rfl, rfl, rfl, rfl⟩, fun hc => absurd rfl hc⟩
  · intro w a r v hw ih hs
    exact ⟨ih.sorted_step hw hs, ih.untouched_step hs, ih.first_step hw hs⟩

/-- Old requests go first, and nobody overtakes; the first helper of all is first asked for the
root. -/
structure Orderly (w : World) : Prop where
  once : (deliveries w.log).Nodup
  in_turn {i j : RequestId} (hi : i ∈ deliveries w.log) (hj : j ∈ deliveries w.log)
    (hij : i < j) (hb : w.bootstrap ≠ some j) :
    (deliveries w.log).idxOf i < (deliveries w.log).idxOf j
  oldest_next {k : Nat} {h : RequestHandle} {v : World}
    (ha : w.act (.read k) = some (.delivered h, v)) (hb : w.bootstrap ≠ some h.request)
    {j : RequestId} (hj : w.broker.state? j = some .queued) : h.request ≤ j
  first_attach (hc : w.channels = []) : ∃ id v, w.act .attach = some (.channel 0, v) ∧
    v.bootstrap = some id ∧ v.broker.queue.head? = some id ∧
    (∀ j, (∃ q, v.broker.request? j = some q ∧ q.path = Path.root ∧ q.state.isTerminal = false) ↔
      j = id) ∧
    (w.broker.inFlight.get? Path.root = none ∧ id = w.broker.nextId ∨
      w.broker.inFlight.get? Path.root = some id ∧ v.broker.requests = w.broker.requests)
  later_attach {r : Reply} {v : World} (hc : w.channels ≠ []) (ha : w.act .attach = some (r, v)) :
    v.broker.requests = w.broker.requests ∧ v.broker.queue = w.broker.queue ∧
      v.bootstrap = w.bootstrap
  /-- The first read that finds anything finds the bootstrap, unless that ran out before. -/
  first_read {k : Nat} {c : SessionId} (hk : w.channel? k = some c)
    (hs : w.broker.session = some c) (hd : deliveries w.log = []) :
    ∃ id, w.bootstrap = some id ∧ (w.broker.state? id = some .timedOut ∨
      ∃ v, w.act (.read k) = some (.delivered { request := id, path := Path.root }, v))

theorem orderly_of_reachable {w : World} (h : Reachable w) : w.Orderly where
  once := List.nodup_iff_count_le_one.mpr fun id => (h.custody.accounted id).deliveries_le_one
  in_turn {i j} hi hj hij hb := by
    have hsorted := (List.pairwise_append.mp h.inLine.sorted).1
    by_contra hlt
    rcases Nat.lt_or_eq_of_le (Nat.le_of_not_lt hlt) with hji | he
    · have hp := List.pairwise_iff_getElem.mp hsorted _ _ (List.idxOf_lt_length_of_mem hj)
        (List.idxOf_lt_length_of_mem hi) hji
      rw [List.getElem_idxOf, List.getElem_idxOf] at hp
      exact hp.elim (Nat.lt_asymm hij) hb
    · rw [List.idxOf_inj hj] at he
      exact Nat.ne_of_gt hij he
  oldest_next {k g v} ha hb {j} hj := by
    obtain ⟨v, hs, rfl⟩ := h.step ha
    cases hs with
    | deliver _ _ hq =>
        have hmem : j ∈ w.broker.queue := by
          obtain ⟨q, hr, hqd⟩ := Option.map_eq_some_iff.mp hj
          exact (h.filed.mem_queue j).mpr ⟨q, hr, hqd⟩
        have hsorted := (List.pairwise_append.mp h.inLine.sorted).2.1
        rw [hq] at hmem hsorted
        rcases List.mem_cons.mp hmem with rfl | hrest
        · exact Nat.le_refl _
        · exact Nat.le_of_lt (((List.pairwise_cons.mp hsorted).1 j hrest).resolve_right hb)
  first_attach hc := by
    obtain ⟨hb, hn, -⟩ := h.inLine.untouched hc
    obtain ⟨id, hq, hp, hold⟩ := h.inLine.bootstrap h hb
    have hhead : (w.broker.bootstrap w.now).queue.head? = some id := by rw [hq]; rfl
    have hact := (Step.attachFirst hn hb).act h.filed
    rw [hc] at hact
    refine ⟨id, _, hact, hhead, hhead, fun j => ?_, hold⟩
    have hiff := (h.filed.bootstrap w.now).openSession.inFlight_iff Path.root j
    exact hiff.symm.trans ⟨fun hj => Option.some.inj (hj.symm.trans hp), fun hj => hj ▸ hp⟩
  later_attach {r v} hc ha := by
    obtain ⟨v, hs, rfl⟩ := h.step ha
    cases hs with
    | attachFirst hn hb => exact absurd (h.inLine.channels_eq_nil hb) hc
    | attachAgain | attachRefused => exact ⟨rfl, rfl, rfl⟩
  first_read {k c} hk hs hd := by
    obtain ⟨-, id, hid, ⟨q, hr, hp⟩, hhead | hover⟩ := h.inLine.first (channels_ne_nil hk)
    · refine ⟨id, hid, .inr ?_⟩
      rw [line, hd, List.nil_append] at hhead
      obtain ⟨rest, hq⟩ := List.head?_eq_some_iff.mp hhead
      have hqd := (h.filed.mem_queue_iff hr).mp (hq ▸ List.mem_cons_self)
      have hact := (Step.deliver hk hs hq hr hqd).act h.filed
      rw [hp] at hact
      exact ⟨_, hact⟩
    · exact ⟨id, hid, .inl hover⟩

/-- The root is asked for between two other paths, and the helper goes away before the last. -/
def twoHelpers : List Action :=
  [.fetch pathA, .fetch Path.root, .fetch pathB, .attach, .read 0, .read 0, .detach 0, .attach,
    .read 1]

theorem orderly_twoHelpers : ∃ w, (start none 0).run? twoHelpers = some w ∧
    w.bootstrap = some 2 ∧ deliveries w.log = [2, 1, 3] ∧ w.Orderly := by
  have hrun : ((start none 0).run? twoHelpers).isSome := by decide
  have hw := Option.some_get hrun
  exact ⟨_, hw.symm, rfl, rfl, orderly_of_reachable ((Reachable.start _ _).run? hw.symm)⟩

end OnDemandFs.Broker.World
