import OnDemandFs.Proofs.Broker.Handles
import OnDemandFs.Proofs.Broker.Turns
import OnDemandFs.Proofs.Mirror.Replies
import OnDemandFs.Session.Step

/-!
# Sessions over a mirror

In a session whose clients make queries and whose helper copies from an origin, the operations go
on, one leg at a time, in any order, and the helper serves one request at a time in between.
`Mirroring` tells how such a session comes about. `IsMirror` is what holds all along: the cache
mirrors the origin; whatever is asked for can be served and is there once its request is closed;
each waiting operation will end as it should; and what was replied is as the origin has it.
-/
namespace OnDemandFs

/-- A mount whose cache is empty and of which nothing was asked, with no timeout for requests. -/
structure Mount.IsNew (m : Mount) : Prop where
  tree : m.store.disk.IsTree m.store.root
  empty : ∀ row ∈ m.store.disk.objects, m.store.root <+: row.1 → row.1 = m.store.root
  unknown : m.store.indices.known = []
  unasked : m.broker = { timeout := none }

namespace Session

/-- How a session comes about in which clients make queries of a mount and a helper copies from an
origin, with the queries that were begun so far and their labels. -/
inductive Mirroring (o : Origin) (m : Mount) : List (String × Call) → Session → Prop
  | start (now : Nat) : Mirroring o m [] { now, mount := m, origin := o.place }
  | attend {calls : List (String × Call)} {s : Session} (h : Mirroring o m calls s)
      (hnone : s.helper = none) (refuse : Fault → Reply) :
      Mirroring o m calls (s.startHelper (.copying o) refuse).2
  | begin {calls : List (String × Call)} {s : Session} {label : String} {call : Call}
      (h : Mirroring o m calls s) (hlabel : ∀ c ∈ calls, c.1 ≠ label) (hquery : call.IsQuery) :
      Mirroring o m ((label, call) :: calls) (s.begin label call)
  | resume {calls : List (String × Call)} {s : Session} {before after : List Waiting} {w : Waiting}
      (h : Mirroring o m calls s) (hwaiting : s.waiting = before ++ w :: after) :
      Mirroring o m calls ({ s with waiting := before ++ after }.moveWaiting w)
  | serve {calls : List (String × Call)} {s t : Session} (h : Mirroring o m calls s)
      (hserve : s.serveOne = some t) : Mirroring o m calls t
  | pass {calls : List (String × Call)} {s : Session} (h : Mirroring o m calls s) (time : Nat) :
      Mirroring o m calls { s with now := time }

end Session

namespace Origin

open Session

variable {o : Origin} {s₀ : Store} {calls : List (String × Call)}

/-- A request that can be served, or was served. -/
structure IsRequested (o : Origin) (s₀ s : Store) (r : Request) : Prop where
  listable : r.path.IsListable
  state : r.state = .queued ∧ s.IsReachable r.path ∨ r.state = .completed ∧ Served o s₀ s r.path

theorem Served.mono {s t : Store} {p : Path} (h : Served o s₀ s p) (hgrown : s.Grown t) :
    Served o s₀ t p :=
  ⟨fun place hitem hindexable => hgrown.hasIndex (h.index place hitem hindexable),
    fun b hitem hwithin hfits => hgrown.hasBody (h.body b hitem hwithin hfits)⟩

theorem IsRequested.mono {s t : Store} {r : Request} (h : IsRequested o s₀ s r)
    (hgrown : s.Grown t) : IsRequested o s₀ t r :=
  ⟨h.listable, h.state.imp (fun hq => ⟨hq.1, hgrown.isReachable hq.2⟩)
    fun hc => ⟨hc.1, hc.2.mono hgrown⟩⟩

/-- No helper has been there yet, or the one that copies from the origin is attached. -/
def IsSeated (o : Origin) (b : Broker) : Option (Serving HelperMode) → Prop
  | none => b.session = none ∧ b.bootstrapped = false
  | some h => h.handler = .copying o ∧ b.session = some h.session

theorem IsSeated.same {b c : Broker} {helper : Option (Serving HelperMode)}
    (h : o.IsSeated b helper) (hseat : Broker.SameSeat b c) : o.IsSeated c helper := by
  cases helper with
  | none => exact ⟨hseat.session.trans h.1, hseat.bootstrapped.trans h.2⟩
  | some h' => exact ⟨h.1, hseat.session.trans h.2⟩

/-- An operation that waits for a request ends as it should once the request is closed. -/
def Awaits (o : Origin) (s₀ : Store) (calls : List (String × Call)) (b : Broker) : Waiting → Prop
  | .forRequest label call id resume => (label, call) ∈ calls ∧ ∃ r, b.request? id = some r ∧
      ∀ v : View, (resume v).CalmFrom v ∧ (resume v).AsksAtMost (2 * call.path.depth) ∧
        (Mirrors o s₀ v.store → Served o s₀ v.store r.path →
          (resume v).Meets (o.terms s₀) (o.Resolves s₀ call))
  | .forChannel .. => False

theorem Awaits.mono {b c : Broker} {w : Waiting} (h : o.Awaits s₀ calls b w)
    (hkept : ∀ j r, b.request? j = some r → ∃ r', c.request? j = some r' ∧ r'.path = r.path) :
    o.Awaits s₀ calls c w := by
  cases w with
  | forRequest label call id resume =>
      obtain ⟨hcall, r, hr, hresume⟩ := h
      obtain ⟨r', hr', hpath⟩ := hkept id r hr
      refine ⟨hcall, r', hr', fun v => ?_⟩
      rw [hpath]
      exact hresume v
  | forChannel label session reader => exact h

/-- A mount over a mirror. -/
structure Keeps (o : Origin) (s₀ : Store) (m : Mount) (helper : Option (Serving HelperMode)) :
    Prop where
  mirrors : Mirrors o s₀ m.store
  filed : m.broker.Filed
  untimed : m.broker.timeout = none
  seated : o.IsSeated m.broker helper
  requested : ∀ id r, m.broker.request? id = some r → IsRequested o s₀ m.store r

/-- What holds of a session over a mirror all along. -/
structure IsMirror (o : Origin) (s₀ : Store) (calls : List (String × Call))
    (s : Session) : Prop where
  keeps : Keeps o s₀ s.mount s.helper
  waiting : ∀ w ∈ s.waiting, o.Awaits s₀ calls s.mount.broker w
  ended : ∀ row ∈ s.ended, ∃ call, (row.1, call) ∈ calls ∧
    o.Answers s₀ (fun p f => Opens o s₀ p s.mount.store f) call row.2

variable {s : Session} {m : Mount} {helper : Option (Serving HelperMode)}

theorem Keeps.setView (h : Keeps o s₀ m helper) {v : View} (hmirrors : Mirrors o s₀ v.store)
    (hgrown : m.store.Grown v.store) : Keeps o s₀ { m with view := v } helper :=
  ⟨hmirrors, h.filed, h.untimed, h.seated, fun id r hr => (h.requested id r hr).mono hgrown⟩

theorem Keeps.ask (h : Keeps o s₀ m helper) {p : Path} {id : RequestId} {b : Broker}
    (hasked : m.broker.AskedFor p id b) (hp : p.IsListable) (hreachable : m.store.IsReachable p) :
    Keeps o s₀ { m with broker := b } helper := by
  refine ⟨h.mirrors, hasked.filed, hasked.timeout.trans h.untimed, h.seated.same hasked.seat,
    fun j r hr => ?_⟩
  rcases hasked.fresh j r hr with hold | ⟨hpath, hstate⟩
  · exact h.requested j r hold
  · exact ⟨hpath ▸ hp, .inl ⟨hstate, hpath ▸ hreachable⟩⟩

/-- Nobody gives up waiting. -/
theorem Keeps.deadline (h : Keeps o s₀ m helper) (id : RequestId) :
    m.broker.deadline id = .never := Broker.deadline_of_timeout_none h.untimed id

theorem IsMirror.setView (h : IsMirror o s₀ calls s) {v : View} (hmirrors : Mirrors o s₀ v.store)
    (hgrown : s.mount.store.Grown v.store) : IsMirror o s₀ calls (s.setView v) := by
  refine ⟨h.keeps.setView hmirrors hgrown, h.waiting, fun row hrow => ?_⟩
  obtain ⟨call, hcall, hanswers⟩ := h.ended row hrow
  exact ⟨call, hcall, hanswers.mono fun p f hf => hf.mono hgrown⟩

theorem grown_of_calm {v w : View} (h : v.Calm w) : v.store.Grown w.store :=
  .of_disk h.store.root h.store.disk

/-- An operation that is taken on to its next request or to its end. -/
theorem IsMirror.proceed (h : IsMirror o s₀ calls s) {label : String} {call : Call}
    (hcall : (label, call) ∈ calls) {i : Inquiry View Answer} (hcalm : i.CalmFrom s.mount.view)
    (hbound : i.AsksAtMost (2 * call.path.depth + 1))
    (hmeets : i.Meets (o.terms s₀) (o.Resolves s₀ call)) :
    IsMirror o s₀ calls (s.proceed label call i) := by
  cases i with
  | done v r =>
      have hv := h.setView hmeets.mirrors (grown_of_calm hcalm)
      obtain ⟨reply, files, hfinish, hanswers⟩ := answers_finish hmeets (s.setView v)
      unfold Session.proceed
      dsimp only
      rw [hfinish]
      refine ⟨hv.keeps, hv.waiting, fun row hrow => ?_⟩
      rcases List.mem_cons.mp hrow with rfl | hrow
      · exact ⟨call, hcall, hanswers⟩
      · exact hv.ended row hrow
  | asks v p resume =>
      obtain ⟨⟨hmirrors, hlistable, hreachable⟩, hresume, -⟩ := hmeets
      have hv := h.setView hmirrors (grown_of_calm hcalm.1)
      have hasked := hv.keeps.filed.askedFor p (s.setView v).now
      have hkeeps := hv.keeps.ask hasked hlistable hreachable
      have hdeadline := hkeeps.deadline ((s.setView v).mount.broker.ask p (s.setView v).now).1
      unfold Session.proceed
      dsimp only at hdeadline ⊢
      rw [hdeadline]
      refine ⟨hkeeps, fun w hw => ?_, hv.ended⟩
      rcases List.mem_append.mp hw with hw | hw
      · exact (hv.waiting w hw).mono fun j r hr => ⟨r, hasked.kept j r hr, rfl⟩
      · obtain ⟨r, hr, hpath⟩ := hasked.request
        rw [List.mem_singleton.mp hw]
        refine ⟨hcall, r, hr, fun u => ⟨hcalm.2 u, hbound.2 u, fun hkept hserved => ?_⟩⟩
        exact hresume u ⟨hkept, hpath ▸ hserved⟩

theorem IsMirror.begin (h : IsMirror o s₀ calls s) (hm : o.IsMirrorable s₀) {label : String}
    {call : Call} (hquery : call.IsQuery) :
    IsMirror o s₀ ((label, call) :: calls) (s.begin label call) := by
  have hmore : IsMirror o s₀ ((label, call) :: calls) s := by
    refine ⟨h.keeps, fun w hw => ?_, fun row hrow => ?_⟩
    · have hawaits := h.waiting w hw
      cases w with
      | forRequest label' call' id resume => exact ⟨List.mem_cons_of_mem _ hawaits.1, hawaits.2⟩
      | forChannel => exact hawaits
    · obtain ⟨call', hcall, hanswers⟩ := h.ended row hrow
      exact ⟨call', List.mem_cons_of_mem _ hcall, hanswers⟩
  exact hmore.proceed List.mem_cons_self (Call.calmFrom_start hquery s.mount.view)
    (Call.asksAtMost_start hquery s.mount.view) (Call.meets_start hm h.keeps.mirrors hquery)

theorem IsMirror.resume (h : IsMirror o s₀ calls s) {before after : List Waiting} {w : Waiting}
    (hwaiting : s.waiting = before ++ w :: after) :
    IsMirror o s₀ calls ({ s with waiting := before ++ after }.moveWaiting w) := by
  have hw : o.Awaits s₀ calls s.mount.broker w :=
    h.waiting w (by rw [hwaiting]; exact List.mem_append_right _ List.mem_cons_self)
  have hless : IsMirror o s₀ calls { s with waiting := before ++ after } := by
    refine ⟨h.keeps, fun w' hw' => h.waiting w' ?_, h.ended⟩
    rw [hwaiting]
    rcases List.mem_append.mp hw' with hw' | hw'
    · exact List.mem_append_left _ hw'
    · exact List.mem_append_right _ (List.mem_cons_of_mem _ hw')
  cases w with
  | forChannel => exact hw.elim
  | forRequest label call id resume =>
      obtain ⟨hcall, r, hr, hresume⟩ := hw
      obtain ⟨hcalm, hbound, hmeets⟩ := hresume s.mount.view
      unfold Session.moveWaiting
      rcases (h.keeps.requested id r hr).state with ⟨hqueued, -⟩ | ⟨hcompleted, hserved⟩
      · have hopen : s.mount.broker.outcome? id = none := by
          simp only [Broker.outcome?, hr, hqueued]
        simp only [hopen]
        refine ⟨h.keeps, fun w' hw' => ?_, h.ended⟩
        rcases List.mem_append.mp hw' with hw' | hw'
        · exact hless.waiting w' hw'
        · rw [List.mem_singleton.mp hw']
          exact ⟨hcall, r, hr, hresume⟩
      · have hclosed : s.mount.broker.outcome? id = some (.ok ()) := by
          simp only [Broker.outcome?, hr, hcompleted]
        simp only [hclosed]
        exact hless.proceed hcall hcalm (hbound.mono (Nat.le_succ _))
          (hmeets h.keeps.mirrors hserved)

/-- The helper takes the first request, answers it from the origin and closes it. -/
theorem next_copying {b : Broker} {h : Serving HelperMode} {id : RequestId} {rest : List RequestId}
    {r : Request} (hfiled : b.Filed) (hcopying : h.handler = .copying o)
    (hsession : b.session = some h.session) (hqueue : b.queue = id :: rest)
    (hr : b.request? id = some r) (hlistable : r.path.IsListable) (store : Store) :
    h.next HelperMode.handle b store = .closed { h with served := h.served + 1 }
      ((b.deliver id).close id) (o.answer store r.path).1 := by
  obtain ⟨r', hr', -, htake⟩ := hfiled.takeHandle_cons hsession hqueue
  cases hr.symm.trans hr'
  have hread : requestPath? ({ request := id, path := r.path } : RequestHandle).read.1 =
      some r.path.text :=
    requestPath?_read rfl (Path.nul_not_mem_text fun n hn => (hlistable n hn).2.2.2.2.2)
  unfold Serving.next Serving.finish
  simp only [htake, hread, HelperMode.handle, hcopying, Path.ofText_text]

/-- The session once its helper has served a request. -/
def served (o : Origin) (s : Session) (helper : Serving HelperMode) (id : RequestId) (p : Path) :
    Session :=
  { s with
    helper := some { helper with served := helper.served + 1 }
    mount := { s.mount.setStore (o.answer s.mount.store p).1 with
      broker := (s.mount.broker.deliver id).close id } }

theorem IsMirror.serveOne_eq (h : IsMirror o s₀ calls s) {helper : Serving HelperMode}
    (hhelper : s.helper = some helper) {id : RequestId} {rest : List RequestId}
    (hqueue : s.mount.broker.queue = id :: rest) {r : Request}
    (hr : s.mount.broker.request? id = some r) :
    s.serveOne = some (o.served s helper id r.path) := by
  have hseated := h.keeps.seated
  rw [hhelper] at hseated
  have hlistable := (h.keeps.requested id r hr).listable
  unfold Session.serveOne
  rw [hhelper]
  dsimp only
  rw [next_copying h.keeps.filed hseated.1 hseated.2 hqueue hr hlistable]
  rfl

theorem IsMirror.exists_of_serveOne (h : IsMirror o s₀ calls s) {t : Session}
    (hserve : s.serveOne = some t) : ∃ helper id rest r, s.helper = some helper ∧
      s.mount.broker.queue = id :: rest ∧ s.mount.broker.request? id = some r ∧
      r.state = .queued ∧ t = o.served s helper id r.path := by
  cases hhelper : s.helper with
  | none =>
      unfold Session.serveOne at hserve
      rw [hhelper] at hserve
      cases hserve
  | some helper =>
      cases hqueue : s.mount.broker.queue with
      | nil =>
          have hseated := h.keeps.seated
          rw [hhelper] at hseated
          have hidle : helper.next HelperMode.handle s.mount.broker s.mount.store = .idle := by
            unfold Serving.next
            rw [Broker.takeHandle_nil hseated.2 hqueue]
          unfold Session.serveOne at hserve
          rw [hhelper] at hserve
          dsimp only at hserve
          rw [hidle] at hserve
          cases hserve
      | cons id rest =>
          obtain ⟨r, hr, hqueued⟩ := (h.keeps.filed.mem_queue id).mp
            (by rw [hqueue]; exact List.mem_cons_self)
          have heq := (h.serveOne_eq hhelper hqueue hr).symm.trans hserve
          exact ⟨helper, id, rest, r, rfl, rfl, hr, hqueued, (Option.some.inj heq).symm⟩

/-- Serving a request keeps the mirror. -/
theorem IsMirror.serve (h : IsMirror o s₀ calls s) (hm : o.IsMirrorable s₀) {t : Session}
    (hserve : s.serveOne = some t) : IsMirror o s₀ calls t := by
  obtain ⟨helper, id, rest, r, hhelper, hqueue, hr, hqueued, rfl⟩ := h.exists_of_serveOne hserve
  have hseated := h.keeps.seated
  rw [hhelper] at hseated
  have hrequested := h.keeps.requested id r hr
  have hreachable : s.mount.store.IsReachable r.path := by
    rcases hrequested.state with ⟨-, hreachable⟩ | ⟨hcompleted, -⟩
    · exact hreachable
    · rw [hqueued] at hcompleted
      cases hcompleted
  have hfirst := h.keeps.filed.servedFirst hqueue hr
  obtain ⟨hmirrors, hgrown, hserved⟩ :=
    h.keeps.mirrors.answer hm hrequested.listable.isConfined hreachable
  refine ⟨⟨hmirrors, hfirst.filed, hfirst.timeout.trans h.keeps.untimed, ?_, fun j q hq => ?_⟩,
    fun w hw => (h.waiting w hw).mono fun j q hq => ?_, fun row hrow => ?_⟩
  · exact ⟨hseated.1, hfirst.seat.session.trans hseated.2⟩
  · by_cases hj : j = id
    · subst hj
      cases (hfirst.closed r hr).symm.trans hq
      exact ⟨hrequested.listable, .inr ⟨rfl, hserved⟩⟩
    · exact (h.keeps.requested j q ((hfirst.others j hj).symm.trans hq)).mono hgrown
  · by_cases hj : j = id
    · subst hj
      cases hr.symm.trans hq
      exact ⟨_, hfirst.closed r hr, rfl⟩
    · exact ⟨q, (hfirst.others j hj).trans hq, rfl⟩
  · obtain ⟨call, hcall, hanswers⟩ := h.ended row hrow
    exact ⟨call, hcall, hanswers.mono fun p f hf => hf.mono hgrown⟩

/-- The helper finds a request for the root, and the others as they were. -/
theorem IsMirror.attend (h : IsMirror o s₀ calls s) (hnone : s.helper = none)
    (refuse : Fault → Reply) : IsMirror o s₀ calls (s.startHelper (.copying o) refuse).2 := by
  obtain ⟨hsession, hbootstrapped⟩ : s.mount.broker.session = none ∧
      s.mount.broker.bootstrapped = false := by
    have hseated := h.keeps.seated
    rw [hnone] at hseated
    exact hseated
  unfold Session.startHelper
  rw [h.keeps.filed.attach_first hsession hbootstrapped]
  have hfiled := (h.keeps.filed.bootstrap s.now).openSession
  have hseat : (s.mount.broker.bootstrap s.now).openSession.session =
      some (s.mount.broker.sessions + 1) := by
    change some ((s.mount.broker.bootstrap s.now).sessions + 1) = _
    rw [Broker.sessions_bootstrap]
  refine ⟨⟨h.keeps.mirrors, hfiled, ?_, ⟨rfl, hseat⟩, fun id r hr => ?_⟩, fun w hw =>
    (h.waiting w hw).mono fun id r hr => ?_, h.ended⟩
  · exact (Broker.timeout_bootstrap _ _).trans h.keeps.untimed
  · rcases Broker.request?_bootstrap_cases ((Broker.request?_congr rfl id).symm.trans hr) with
      hold | ⟨hpath, hstate⟩
    · exact h.keeps.requested id r hold
    · exact ⟨hpath ▸ Path.isListable_root, .inl ⟨hstate, .inl hpath⟩⟩
  · obtain ⟨r', hr', hpath, -⟩ := Broker.Keeps.bootstrap s.mount.broker s.now id r hr
    exact ⟨r', (Broker.request?_congr rfl id).trans hr', hpath⟩

/-- Nothing is there before the first query. -/
theorem isMirror_start (hm : o.IsMirrorable m.store) (hnew : m.IsNew) (now : Nat) :
    IsMirror o m.store [] { now, mount := m, origin := o.place } := by
  have hbroker : m.broker = { timeout := none } := hnew.unasked
  refine ⟨⟨mirrors_start hm hnew.tree hnew.empty hnew.unknown, ?_, ?_, ?_, fun id r hr => ?_⟩,
    nofun, nofun⟩
  · rw [hbroker]
    exact Broker.filed_new none
  · rw [hbroker]
  · change m.broker.session = none ∧ m.broker.bootstrapped = false
    rw [hbroker]
    exact ⟨rfl, rfl⟩
  · change m.broker.request? id = some r at hr
    rw [hbroker] at hr
    cases id <;> cases hr

/-- However clients and the helper take turns. -/
theorem isMirror_of_mirroring (hm : o.IsMirrorable m.store) (hnew : m.IsNew)
    (h : Mirroring o m calls s) : IsMirror o m.store calls s := by
  induction h with
  | start now => exact isMirror_start hm hnew now
  | attend h hnone refuse ih => exact ih.attend hnone refuse
  | begin h hlabel hquery ih => exact ih.begin hm hquery
  | resume h hwaiting ih => exact ih.resume hwaiting
  | serve h hserve ih => exact ih.serve hm hserve
  | pass h time ih => exact ⟨ih.keeps, ih.waiting, ih.ended⟩

end Origin
end OnDemandFs
