import OnDemandFs.Proofs.Broker.Custody

/-!
# What those who wait are told

The log decides: the first time that a handle of a request is closed, or that a waiter with the lock
finds its deadline passed, is the `verdict?` on it, and nothing later changes that. The state of the
request and the outcome of every call that waited for it say the same.

A call that joined a request joined it before there was a verdict, so good news always comes from a
close that happened while the call waited, of a handle for the path that it asked for. A call whose
deadline is not a time ends without an outcome; it is not spoken of here.
-/
namespace OnDemandFs

inductive Verdict where
  | closed
  | expired
deriving DecidableEq, Repr

def Verdict.outcome (path : Path) : Verdict → Except Fault Unit
  | closed => .ok ()
  | expired => .error (.timeout path.text)

def RequestState.verdict? : RequestState → Option Verdict
  | completed => some .closed
  | timedOut => some .expired
  | queued | delivered => none

theorem Request.verdict?_finish (r : Request) (state : RequestState) :
    (r.finish state).state.verdict? = r.state.verdict?.or state.verdict? := by
  cases hs : r.state with
  | queued | delivered =>
      rw [Request.finish_of_live (by rw [hs]; rfl)]
      rfl
  | completed | timedOut =>
      rw [Request.finish_of_isTerminal (by rw [hs]; rfl), hs]
      rfl

namespace Broker

def Event.verdict? (id : RequestId) : Event → Option Verdict
  | ⟨.close h, _⟩ => if h.request = id then some .closed else none
  | ⟨.expire _, .returned i _⟩ => if i = id then some .expired else none
  | _ => none

/-- The first end of a request. -/
def verdict? (log : List Event) (id : RequestId) : Option Verdict :=
  log.reverse.findSome? (Event.verdict? id)

theorem verdict?_cons (e : Event) (log : List Event) (id : RequestId) :
    verdict? (e :: log) id = (verdict? log id).or (e.verdict? id) := by
  simp [verdict?, List.findSome?_append]

theorem verdict?_append (later earlier : List Event) (id : RequestId) :
    verdict? (later ++ earlier) id = (verdict? earlier id).or (verdict? later id) := by
  simp [verdict?, List.findSome?_append]

theorem Event.verdict?_of_isQuiet {e : Event} (h : e.isQuiet = true) (id : RequestId) :
    e.verdict? id = none := by
  obtain ⟨a, r⟩ := e
  cases a <;> first | rfl | (cases r <;> cases h)

theorem exists_close_of_verdict? {log : List Event} {id : RequestId}
    (h : verdict? log id = some .closed) : ∃ g r, ⟨.close g, r⟩ ∈ log ∧ g.request = id := by
  obtain ⟨⟨a, r⟩, he, hv⟩ := List.exists_of_findSome?_eq_some h
  cases a with
  | close g =>
      simp only [Event.verdict?] at hv
      split_ifs at hv with hid
      exact ⟨g, r, List.mem_reverse.mp he, hid⟩
  | expire k =>
      cases r <;> simp [Event.verdict?] at hv
  | _ => cases hv

/-- What the state of a request says about it. -/
def decided? (b : Broker) (id : RequestId) : Option Verdict :=
  (b.state? id).bind RequestState.verdict?

section Decided
variable {b c : Broker} {id : RequestId} {r : Request}

theorem decided?_of_some (hr : b.request? id = some r) : b.decided? id = r.state.verdict? := by
  rw [decided?, state?_of_some hr]
  rfl

theorem decided?_congr (h : c.request? id = b.request? id) : c.decided? id = b.decided? id := by
  rw [decided?, decided?, state?_congr h]

theorem Grows.decided? (hg : Grows b c) (id : RequestId) : c.decided? id = b.decided? id := by
  rcases hg id with he | ⟨hnone, hqueued⟩
  · rw [Broker.decided?, Broker.decided?, he]
  · rw [Broker.decided?, Broker.decided?, hnone, hqueued]
    rfl

theorem outcome?_of_some (hr : b.request? id = some r) :
    b.outcome? id = r.state.verdict?.map (·.outcome r.path) := by
  simp only [outcome?, hr]
  cases r.state <;> rfl

/-- Who expires a request is told what became of it, which need not be bad news. -/
theorem outcome?_expire (hr : b.request? id = some r) :
    (b.expire id).outcome? id = some ((r.state.verdict?.getD .expired).outcome r.path) := by
  rw [outcome?_of_some (request?_expire_self hr), r.verdict?_finish, Request.path_finish]
  cases r.state <;> rfl

theorem Keeps.outcome? (hk : Keeps b c) {o : Except Fault Unit} (ho : b.outcome? id = some o) :
    c.outcome? id = some o := by
  cases hr : b.request? id with
  | none => simp [Broker.outcome?, hr] at ho
  | some r =>
      obtain ⟨q, hq, hp, -, hs⟩ := hk id r hr
      have ht : r.state.isTerminal = true := by
        by_contra hn
        rw [(outcome?_eq_none_iff hr).mpr (by simpa using hn)] at ho
        cases ho
      rw [outcome?_of_some hr] at ho
      rw [outcome?_of_some hq, hs ht, hp, ho]

end Decided

namespace World

/-- The first end of a request in the log is the one that its state tells. -/
theorem Reachable.verdict?_log {w : World} (h : Reachable w) :
    ∀ id : RequestId, verdict? w.log id = w.broker.decided? id := by
  refine h.induct ?_ ?_
  · intro timeout now id
    cases id <;> rfl
  intro w a r v hw ih hs id
  rw [hs.log, verdict?_cons, ih]
  change _ = v.broker.decided? id
  by_cases hquiet : Event.isQuiet ⟨a, r⟩ = true
  · rw [Event.verdict?_of_isQuiet hquiet, Option.or_none, (hs.grows hquiet).1.decided?]
  cases hs with
  | @deliver k c j rest q _ _ _ hr hq =>
      change (w.broker.decided? id).or none = _
      rw [Option.or_none]
      by_cases hj : id = j
      · subst hj
        rw [decided?_of_some hr, decided?_of_some ((request?_deliver hr id).trans (if_pos rfl)), hq]
        rfl
      · exact (decided?_congr ((request?_deliver hr id).trans (if_neg hj))).symm
  | @close h hh =>
      obtain ⟨q, hq, -⟩ := hw.custody.handle hh
      by_cases hj : id = h.request
      · subst hj
        rw [decided?_of_some hq, decided?_of_some (request?_close_self hq), q.verdict?_finish]
        simp [Event.verdict?, RequestState.verdict?]
      · rw [decided?_congr (request?_close_of_ne hj)]
        simp [Event.verdict?, Ne.symm hj]
  | @expire k f o hf =>
      obtain ⟨q, hq, -⟩ := hw.custody.fetch hf
      change _ = (w.broker.expire f.request).decided? id
      by_cases hj : id = f.request
      · subst hj
        rw [decided?_of_some hq, decided?_of_some (request?_expire_self hq), q.verdict?_finish]
        simp [Event.verdict?, RequestState.verdict?]
      · rw [decided?_congr (request?_expire_of_ne hj)]
        simp [Event.verdict?, Ne.symm hj]
  | _ => exact absurd rfl hquiet

theorem Reachable.outcome?_of_returned {w : World} (h : Reachable w) :
    ∀ (k : Nat) (f : Fetch) (o : Except Fault Unit), w.fetches[k]? = some f →
      f.progress = .returned o → w.broker.outcome? f.request = some o := by
  refine h.induct ?_ ?_
  · intro timeout now k f o hf
    simp [World.start] at hf
  · intro w a r v hw ih hs k f o hf ho
    change v.broker.outcome? f.request = some o
    rcases hs.fetch_cases hf with hold | ⟨f', -, -, rfl | ⟨o', rfl, ho'⟩⟩ | ⟨-, -, -, hp, -⟩
    · exact hs.keeps.outcome? (ih k f o hold ho)
    · cases ho
    · cases ho
      exact ho'
    · rw [ho] at hp
      cases hd : v.broker.deadline f.request <;> rw [hd] at hp <;> cases hp

/-- Whoever joins a request joins it before its end. -/
theorem Reachable.joined {w : World} (h : Reachable w) :
    ∀ (k : Nat) (f : Fetch), w.fetches[k]? = some f → ∃ later earlier,
      w.log = later ++ ⟨.fetch f.path, .asked k f.request⟩ :: earlier ∧
        verdict? earlier f.request = none := by
  refine h.induct ?_ ?_
  · intro timeout now k f hf
    simp [World.start] at hf
  intro w a r v hw ih hs k f hf
  have hold {f' : Fetch} (hf' : w.fetches[k]? = some f') (hr : f'.request = f.request)
      (hp : f'.path = f.path) : ∃ later earlier,
      (v.note a r).log = later ++ ⟨.fetch f.path, .asked k f.request⟩ :: earlier ∧
        verdict? earlier f.request = none := by
    obtain ⟨later, earlier, hlog, hv⟩ := ih k f' hf'
    exact ⟨⟨a, r⟩ :: later, earlier, by rw [hs.log, hlog, hr, hp]; rfl, hr ▸ hv⟩
  rcases hs.fetch_cases hf with hf' | ⟨f', hf', -, rfl | ⟨o, rfl, -⟩⟩ | ⟨-, rfl, rfl, -, hp⟩
  · exact hold hf' rfl rfl
  · exact hold hf' rfl rfl
  · exact hold hf' rfl rfl
  · refine ⟨[], w.log, hs.log, ?_⟩
    obtain ⟨q, hq, -, hlive⟩ := ((hs.filed hw.filed).inFlight_iff _ _).mp hp
    rw [hw.verdict?_log, ← (hs.grows rfl).1.decided?, decided?_of_some hq]
    cases hst : q.state with
    | queued | delivered => rfl
    | completed | timedOut =>
        rw [hst] at hlive
        cases hlive

theorem Reachable.closed_holds {w : World} (h : Reachable w) :
    ∀ (g : RequestHandle) (r : Reply), ⟨.close g, r⟩ ∈ w.log →
      r = .done ∧ w.Holds g.request g.path := by
  refine h.induct ?_ ?_
  · intro timeout now g r hr
    simp [World.start] at hr
  · intro w a r v hw ih hs g r' hr'
    rw [hs.log] at hr'
    change r' = .done ∧ v.Holds g.request g.path
    rcases List.mem_cons.mp hr' with he | hold
    · cases he
      cases hs with
      | close hh => exact ⟨rfl, (hw.custody.handle hh).step (.close hh)⟩
    · exact ⟨(ih g r' hold).1, (ih g r' hold).2.step hs⟩

/-- What the log decides about a request is what its callers are told, and neither its end nor what
comes after it touches anything else. -/
structure Settled (w : World) : Prop where
  outcome {k : Nat} {f : Fetch} {o : Except Fault Unit} (hf : w.fetches[k]? = some f)
    (ho : f.progress = .returned o) :
    ∃ d, verdict? w.log f.request = some d ∧ o = d.outcome f.path
  agree {f g : Fetch} {o o' : Except Fault Unit} (hf : f ∈ w.fetches) (hg : g ∈ w.fetches)
    (hr : f.request = g.request) (ho : f.progress = .returned o)
    (ho' : g.progress = .returned o') : o = o'
  /-- A call that still waits will be told the same as soon as it looks. -/
  answer {k : Nat} {f : Fetch} {d : Verdict} (hf : w.fetches[k]? = some f)
    (hw : f.progress = .waiting) (hd : verdict? w.log f.request = some d) :
    ∃ v, w.act (.wake k) = some (.returned f.request (d.outcome f.path), v)
  closed_after_join {k : Nat} {f : Fetch} (hf : w.fetches[k]? = some f)
    (ho : f.progress = .returned (.ok ())) :
    ∃ later earlier h, w.log = later ++ ⟨.fetch f.path, .asked k f.request⟩ :: earlier ∧
      ⟨.close h, .done⟩ ∈ later ∧ h.request = f.request ∧ h.path = f.path
  /-- A close may have come in between, and then it is the close that counts. -/
  expire {k : Nat} {f : Fetch} (hf : w.fetches[k]? = some f) (he : f.progress = .expiring) :
    ∃ v, w.act (.expire k) = some (.returned f.request
        (((verdict? w.log f.request).getD .expired).outcome f.path), v) ∧
      (∀ j, j ≠ f.request → v.broker.request? j = w.broker.request? j) ∧
      v.broker.queue = w.broker.queue.filter (· ≠ f.request) ∧
      ∀ p, v.broker.inFlight.get? p =
        if w.broker.inFlight.get? p = some f.request then none else w.broker.inFlight.get? p
  late_close {h : RequestHandle} (hh : h ∈ w.handles)
    (ht : w.broker.state? h.request = some .timedOut) :
    ∃ v, w.act (.close h) = some (.done, v) ∧ v.broker = w.broker

/-- What the broker would tell a call is what the log decided about its request. -/
theorem Reachable.outcome?_eq {w : World} (h : Reachable w) {k : Nat} {f : Fetch}
    (hf : w.fetches[k]? = some f) :
    w.broker.outcome? f.request = (verdict? w.log f.request).map (·.outcome f.path) := by
  obtain ⟨q, hq, hp⟩ := h.custody.fetch hf
  rw [outcome?_of_some hq, h.verdict?_log, decided?_of_some hq, hp]

theorem Reachable.expire {w : World} (h : Reachable w) {k : Nat} {f : Fetch}
    (hf : w.fetches[k]? = some f) (he : f.progress = .expiring) :
    ∃ v, w.act (.expire k) = some (.returned f.request
        (((verdict? w.log f.request).getD .expired).outcome f.path), v) ∧
      v.broker = w.broker.expire f.request := by
  obtain ⟨q, hq, hp⟩ := h.custody.fetch hf
  have ho := outcome?_expire hq
  rw [hp, ← decided?_of_some hq, ← h.verdict?_log] at ho
  exact ⟨_, (Step.expire hf he ho).act h.filed, rfl⟩

theorem settled_of_reachable {w : World} (h : Reachable w) : w.Settled where
  outcome {k f o} hf ho := by
    have hout := h.outcome?_of_returned k f o hf ho
    rw [h.outcome?_eq hf, Option.map_eq_some_iff] at hout
    obtain ⟨d, hd, rfl⟩ := hout
    exact ⟨d, hd, rfl⟩
  agree {f g o o'} hf hg hr ho ho' := by
    obtain ⟨k, hk⟩ := List.mem_iff_getElem?.mp hf
    obtain ⟨j, hj⟩ := List.mem_iff_getElem?.mp hg
    have h₁ := h.outcome?_of_returned k f o hk ho
    have h₂ := h.outcome?_of_returned j g o' hj ho'
    rw [hr, h₂] at h₁
    exact (Option.some.inj h₁).symm
  answer {k f d} hf hw hd := by
    have ho : w.broker.outcome? f.request = some (d.outcome f.path) := by
      rw [h.outcome?_eq hf, hd]
      rfl
    exact ⟨_, (Step.wake hf hw ho).act h.filed⟩
  closed_after_join {k f} hf ho := by
    obtain ⟨later, earlier, hlog, hearlier⟩ := h.joined k f hf
    have hout := h.outcome?_of_returned k f _ hf ho
    rw [h.outcome?_eq hf, Option.map_eq_some_iff] at hout
    obtain ⟨d, hd, hok⟩ := hout
    cases d with
    | expired => cases hok
    | closed =>
        -- neither what came before nor the call itself is an end of the request
        rw [hlog, verdict?_append, verdict?_cons, hearlier] at hd
        obtain ⟨g, r, hg, hid⟩ := exists_close_of_verdict? hd
        obtain ⟨rfl, q, hq, hp⟩ := h.closed_holds g r (by
          rw [hlog]
          exact List.mem_append_left _ hg)
        obtain ⟨q', hq', hp'⟩ := h.custody.fetch hf
        rw [hid, hq'] at hq
        cases hq
        exact ⟨later, earlier, g, hlog, hg, hid, hp.symm.trans hp'⟩
  expire {k f} hf he := by
    obtain ⟨q, hq, -⟩ := h.custody.fetch hf
    obtain ⟨v, hv, hb⟩ := h.expire hf he
    refine ⟨v, hv, fun j hj => ?_, ?_, fun p => ?_⟩
    · rw [hb, request?_expire_of_ne hj]
    · rw [hb, queue_expire]
    · rw [hb, h.filed.get?_expire hq]
  late_close {g} hg ht := by
    obtain ⟨q, hq, -⟩ := h.custody.handle hg
    rw [state?_of_some hq] at ht
    have hsame := h.filed.close_of_timedOut hq (Option.some.inj ht)
    exact ⟨_, (Step.close hg).act h.filed, hsame⟩

/-- A request that a helper holds runs out, and its path is asked for again. The old handle is
closed while the new one is open, and the new one after a call gave up and before it took the
lock. -/
def slowHelper : List Action :=
  [.fetch pathA, .attach, .read 0, .read 0, .pass 5, .giveUp 0, .expire 0, .fetch pathA,
    .fetch pathA, .read 0, .close ⟨1, pathA, false⟩, .pass 5, .giveUp 1, .close ⟨3, pathA, false⟩,
    .expire 1, .wake 2]

theorem settled_slowHelper : ∃ w, (start (some 5) 0).run? slowHelper = some w ∧
    w.fetches.map (·.request) = [1, 3, 3] ∧ verdict? w.log 1 = some .expired ∧
    verdict? w.log 3 = some .closed ∧ w.Settled := by
  have hrun : ((start (some 5) 0).run? slowHelper).isSome := by decide
  have hw := Option.some_get hrun
  exact ⟨_, hw.symm, rfl, rfl, rfl, settled_of_reachable ((Reachable.start _ _).run? hw.symm)⟩

end World
end Broker
end OnDemandFs
