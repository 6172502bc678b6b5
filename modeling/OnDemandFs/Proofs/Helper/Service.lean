import OnDemandFs.Proofs.Broker.Onward
import OnDemandFs.Proofs.Broker.Spoken
import OnDemandFs.Proofs.Path.Spelling

/-!
# Serving until the channel is detached

A helper takes a request, has it handled, closes it and begins again, and at each of these points
everybody else may act: at the broker, where the helper's channel may be detached under its hands,
and in the store. Left alone, three of its steps are one `Serving.next`.

Its deeds are written down as it does them. They always are a list of whole turns, each a request
that was taken, handled under the path that was read from its handle and closed, and at the end
perhaps the part of one that it is in the middle of. What the handler answers makes no difference to
that.
-/
namespace OnDemandFs
open Broker Broker.World

/-- There is a path in whatever a helper reads first. -/
theorem exists_requestPath?_read {r : RequestHandle} (hr : r.sent = false) :
    ∃ path, requestPath? r.read.1 = some path := by
  refine ⟨_, Eq.trans ?_ (requestPath?_spoken r.path.text)⟩
  rw [RequestHandle.read_of_fresh hr, spoken]
  exact congrArg (fun p : Path => requestPath? (Utf8.encode p.text ++ [0]))
    r.path.ofText_text.symm

/-- Where a helper stands. -/
inductive Phase where
  | taking
  | holding (r : RequestHandle)
  | closing (r : RequestHandle)
  | returned (result : Except Fault Nat)
deriving DecidableEq

/-- The handle in its hands. -/
def Phase.hand? : Phase → Option RequestHandle
  | holding r | closing r => some r
  | taking | returned _ => none

/-- What a helper did. -/
inductive Deed where
  | took (id : RequestId)
  | handled (path : String) (answer : Except Fault Unit)
  | closed (id : RequestId)

def Deed.taken? : Deed → Option RequestId
  | took id => some id
  | _ => none

def Deed.handled? : Deed → Option String
  | handled path _ => some path
  | _ => none

/-- A turn that is over. -/
structure Round where
  request : RequestId
  path : String
  answer : Except Fault Unit

def Round.deeds (t : Round) : List Deed :=
  [.took t.request, .handled t.path t.answer, .closed t.request]

/-- The path is what the first read of a handle of the request says. -/
def IsPathOf (w : World) (id : RequestId) (path : String) : Prop :=
  ∃ r : RequestHandle, r.request = id ∧ r.sent = false ∧ w.Holds id r.path ∧
    requestPath? r.read.1 = some path

theorem IsPathOf.step {w v : World} {a : Action} {r : Reply} {id : RequestId} {path : String}
    (h : IsPathOf w id path) (hs : Step w a r v) : IsPathOf (v.note a r) id path := by
  obtain ⟨g, hid, hsent, hholds, hread⟩ := h
  exact ⟨g, hid, hsent, hholds.step hs, hread⟩

/-- What was done of the turn that is not over. -/
def Phase.Begun : Phase → List Deed → Prop
  | .taking, deeds | .returned _, deeds => deeds = []
  | .holding r, deeds => deeds = [.took r.request]
  | .closing r, deeds => ∃ path answer, requestPath? r.read.1 = some path ∧
      deeds = [.took r.request, .handled path answer]

/-- A helper at work, and the world and the store that it shares with everybody else. -/
structure Service (η : Type) where
  world : World
  store : Store
  channel : Nat
  serving : Serving η
  phase : Phase := .taking
  /-- Earliest first. -/
  deeds : List Deed := []

/-- One thing that happens: the helper goes on, or somebody else acts at the broker or in the
store. -/
inductive Move where
  | own
  | act (action : Action)
  | put (store : Store)

namespace Service

variable {η : Type} {handle : Handler η} {l m n : Service η}

/-- A helper with its channel, before it took anything. -/
def start (world : World) (store : Store) (channel : Nat) (session : SessionId) (handler : η) :
    Service η where
  world
  store
  channel
  serving := { session, handler }

/-- The requests that it took, in the order in which it took them. -/
def taken (l : Service η) : List RequestId := l.deeds.filterMap Deed.taken?

/-- The paths that its handler was called with. -/
def handled (l : Service η) : List String := l.deeds.filterMap Deed.handled?

def note (l : Service η) (deeds : List Deed) : Service η := { l with deeds := l.deeds ++ deeds }

/-- What the helper does next; nothing if it waits for a request, or is done. -/
def step? (handle : Handler η) (l : Service η) : Option (Service η) :=
  match l.phase with
  | .taking =>
    match l.world.act (.read l.channel) with
    | some (.delivered r, world) =>
      some ({ l with world, phase := .holding r }.note [.took r.request])
    | some (.refused .detached, world) =>
      some { l with world, phase := .returned (.ok l.serving.served) }
    | some (.refused fault, world) => some { l with world, phase := .returned (.error fault) }
    | _ => none
  | .holding r =>
    let (serving, _, store) := l.serving.finish handle l.world.broker l.store r
    some ({ l with serving, store, phase := .closing r }.note
      (match requestPath? r.read.1 with
        | some path => [.handled path (handle l.serving.handler l.store path).2.2]
        | none => []))
  | .closing r => (l.world.act (.close r)).map fun (_, world) =>
    { l with world, phase := .taking }.note [.closed r.request]
  | .returned _ => none

/-- Others do not read or drop the helper's channel, or close the handle in its hands. -/
def isOthers (l : Service η) : Action → Bool
  | .read k | .drop k => k ≠ l.channel
  | .close h => l.phase.hand? ≠ some h
  | _ => true

def move? (handle : Handler η) (l : Service η) : Move → Option (Service η)
  | .own => l.step? handle
  | .act a =>
    if l.isOthers a then (l.world.act a).map fun (_, world) => { l with world } else none
  | .put store => some { l with store }

def run? (handle : Handler η) (l : Service η) : List Move → Option (Service η)
  | [] => some l
  | a :: rest => (l.move? handle a).bind fun m => m.run? handle rest

/-! ## What one step is -/

theorem step?_holding {r : RequestHandle} {path : String} (hp : l.phase = .holding r)
    (hread : requestPath? r.read.1 = some path) :
    l.step? handle =
      let done := handle l.serving.handler l.store path
      some ({ l with
        serving := { l.serving with handler := done.1, served := l.serving.served + 1 }
        store := done.2.1
        phase := .closing r }.note [.handled path done.2.2]) := by
  simp only [step?, hp, Serving.finish, hread]

theorem step?_closing {r : RequestHandle} {world : World} (hp : l.phase = .closing r)
    (ha : l.world.act (.close r) = some (.done, world)) :
    l.step? handle = some ({ l with world, phase := .taking }.note [.closed r.request]) := by
  simp only [step?, hp, ha, Option.map_some]

theorem step?_delivered {r : RequestHandle} {world : World} (hp : l.phase = .taking)
    (ha : l.world.act (.read l.channel) = some (.delivered r, world)) :
    l.step? handle = some ({ l with world, phase := .holding r }.note [.took r.request]) := by
  simp only [step?, hp, ha]

theorem step?_nothing {world : World} (hp : l.phase = .taking)
    (ha : l.world.act (.read l.channel) = some (.nothing, world)) : l.step? handle = none := by
  simp only [step?, hp, ha]

theorem step?_detached {world : World} (hp : l.phase = .taking)
    (ha : l.world.act (.read l.channel) = some (.refused .detached, world)) :
    l.step? handle = some { l with world, phase := .returned (.ok l.serving.served) } := by
  simp only [step?, hp, ha]

theorem run?_own (h : l.step? handle = some m) (rest : List Move) :
    l.run? handle (.own :: rest) = m.run? handle rest := by
  rw [run?, move?, h, Option.bind_some]

/-- Undisturbed, the steps of a turn come to what serving one request is. -/
theorem steps_eq_next (h : Reachable l.world)
    (hc : l.world.channel? l.channel = some l.serving.session) (hp : l.phase = .taking) :
    match l.serving.next handle l.world.broker l.store with
    | .idle => l.step? handle = none
    | .detached => ∃ m, l.step? handle = some m ∧ m.phase = .returned (.ok l.serving.served) ∧
        m.world.broker = l.world.broker ∧ m.store = l.store
    | .closed serving broker store => ∃ m, l.run? handle [.own, .own, .own] = some m ∧
        m.phase = .taking ∧ m.serving = serving ∧ m.world.broker = broker ∧ m.store = store := by
  by_cases hs : l.world.broker.session = some l.serving.session
  · cases hq : l.world.broker.queue with
    | nil =>
        simp only [Serving.next, takeHandle_nil hs hq]
        exact step?_nothing hp ((Step.readNothing hc hs hq).act h.filed)
    | cons id rest =>
        obtain ⟨q, hr, hqd, ht⟩ := h.filed.takeHandle_cons hs hq
        have hact := (Step.deliver hc hs hq hr hqd).act h.filed
        obtain ⟨path, hread⟩ := exists_requestPath?_read (r := ⟨id, q.path, false⟩) rfl
        have hclose := (Step.close (w := World.note _ _ _) (h := ⟨id, q.path, false⟩)
          List.mem_cons_self).act (h.act hact).filed
        simp only [Serving.next, ht, Serving.finish, hread]
        have hstep : l.step? handle = _ := step?_delivered hp hact
        have hrun := (run?_own hstep [.own, .own]).trans
          ((run?_own (step?_holding rfl hread) [.own]).trans
            (run?_own (step?_closing rfl hclose) []))
        exact ⟨_, hrun, rfl, rfl, rfl, rfl⟩
  · simp only [Serving.next, takeHandle_of_ne hs]
    exact ⟨_, step?_detached hp ((Step.readRefused hc hs).act h.filed), rfl, rfl, rfl⟩

/-! ## What every move keeps -/

/-- What holds of a helper between any two moves, since it began in `l`. -/
structure Busy (l m : Service η) : Prop where
  reach : Reachable m.world
  seat : m.world.channel? m.channel = some m.serving.session
  hand {r : RequestHandle} (hr : m.phase.hand? = some r) : r ∈ m.world.handles ∧ r.sent = false
  rounds : ∃ (done : List Round) (begun : List Deed), m.deeds = done.flatMap Round.deeds ++ begun ∧
    m.phase.Begun begun ∧ ∀ t ∈ done, IsPathOf m.world t.request t.path ∧ m.world.LetOff t.request
  count : m.serving.served = m.handled.length
  line : ∃ others, deliveries m.world.log = deliveries l.world.log ++ m.taken ++ others ∧
    (m.world.Attached m.channel → others = [])
  result {result : Except Fault Nat} (hp : m.phase = .returned result) :
    result = .ok m.handled.length ∧ ¬ m.world.Attached m.channel
  queue : l.world.Onward m.world

theorem Busy.bootstrapped (h : Busy l m) : m.world.broker.bootstrapped = true :=
  (h.reach.inLine.first (channels_ne_nil h.seat)).1

/-- What others do at the broker. -/
theorem Busy.act (h : Busy l m) {a : Action} {r : Reply} {world : World} (ha : m.isOthers a = true)
    (hact : m.world.act a = some (r, world)) : Busy l { m with world } := by
  obtain ⟨v, hs, rfl⟩ := h.reach.step hact
  have hread : a ≠ .read m.channel := by
    rintro rfl
    simp [isOthers] at ha
  have hdrop : a ≠ .drop m.channel := by
    rintro rfl
    simp [isOthers] at ha
  have hattached (hk : v.Attached m.channel) : m.world.Attached m.channel :=
    h.reach.attached_of_step hs h.seat hk
  refine ⟨h.reach.act hact, hs.channel?_eq h.seat hdrop, fun {g} hg => ?_, ?_, h.count, ?_,
    fun hp => ?_, h.queue.trans h.reach (hs.onward h.bootstrapped)⟩
  · obtain ⟨hmem, hsent⟩ := h.hand hg
    refine ⟨?_, hsent⟩
    change g ∈ v.handles
    cases hs with
    | deliver => exact List.mem_cons_of_mem _ hmem
    | @close g' =>
        have hne : g ≠ g' := by
          rintro rfl
          have hg : m.phase.hand? = some g := hg
          simp [isOthers, hg] at ha
        exact (List.mem_erase_of_ne hne).mpr hmem
    | _ => exact hmem
  · obtain ⟨done, begun, hdeeds, hbegun, hdone⟩ := h.rounds
    refine ⟨done, begun, hdeeds, hbegun, fun t ht => ?_⟩
    exact ⟨(hdone t ht).1.step hs, h.reach.letOff_step hs (hdone t ht).2⟩
  · obtain ⟨others, hline, hnone⟩ := h.line
    by_cases hk : v.Attached m.channel
    · refine ⟨others, ?_, fun _ => hnone (hattached hk)⟩
      rw [← h.reach.deliveries_of_attached hs (hattached hk) hread] at hline
      exact hline
    · refine ⟨others ++ (Event.delivered? ⟨a, r⟩).toList, ?_, fun hk' => absurd hk' hk⟩
      rw [← List.append_assoc]
      change _ = deliveries l.world.log ++ m.taken ++ others ++ _
      rw [← hline, hs.log, deliveries_cons]
  · obtain ⟨hres, hk⟩ := h.result hp
    exact ⟨hres, fun hk' => hk (hattached hk')⟩

theorem taken_note (l : Service η) (deeds : List Deed) :
    (l.note deeds).taken = l.taken ++ deeds.filterMap Deed.taken? := List.filterMap_append

theorem taken_note_eq_self (l : Service η) {deeds : List Deed}
    (h : deeds.filterMap Deed.taken? = []) : (l.note deeds).taken = l.taken := by
  rw [taken_note, h, List.append_nil]

theorem handled_note (l : Service η) (deeds : List Deed) :
    (l.note deeds).handled = l.handled ++ deeds.filterMap Deed.handled? := List.filterMap_append

theorem handled_note_eq_self (l : Service η) {deeds : List Deed}
    (h : deeds.filterMap Deed.handled? = []) : (l.note deeds).handled = l.handled := by
  rw [handled_note, h, List.append_nil]

/-- The helper takes the request at the front. -/
theorem Busy.take (handle : Handler η) (h : Busy l m) (hp : m.phase = .taking) {id : RequestId}
    {rest : List RequestId} {q : Request}
    (hsession : m.world.broker.session = some m.serving.session)
    (hq : m.world.broker.queue = id :: rest) (hr : m.world.broker.request? id = some q)
    (hqd : q.state = .queued) : ∃ r world,
      m.step? handle = some ({ m with world, phase := .holding r }.note [.took id]) ∧
      r.request = id ∧ world.broker.queue = rest ∧
      Busy l ({ m with world, phase := .holding r }.note [.took id]) := by
  have hs := Step.deliver h.seat hsession hq hr hqd
  have hact := hs.act h.reach.filed
  refine ⟨⟨id, q.path, false⟩, _, step?_delivered hp hact, rfl, ?_, ?_⟩
  · change m.world.broker.queue.tail = rest
    rw [hq]
    rfl
  refine ⟨h.reach.act hact, h.seat, fun hg => ?_, ?_, ?_, ?_, (fun hp => nomatch hp),
    h.queue.trans h.reach (hs.onward h.bootstrapped)⟩
  · cases hg
    exact ⟨List.mem_cons_self, rfl⟩
  · obtain ⟨done, begun, hdeeds, hbegun, hdone⟩ := h.rounds
    rw [hp] at hbegun
    cases hbegun
    refine ⟨done, [.took id], ?_, rfl, fun t ht => ?_⟩
    · change m.deeds ++ _ = _
      rw [hdeeds, List.append_nil]
    · exact ⟨(hdone t ht).1.step hs, h.reach.letOff_step hs (hdone t ht).2⟩
  · rw [handled_note_eq_self _ rfl]
    exact h.count
  · obtain ⟨others, hline, hnone⟩ := h.line
    have hothers := hnone ⟨_, h.seat, hsession⟩
    subst hothers
    refine ⟨[], ?_, fun _ => rfl⟩
    rw [taken_note, List.append_nil, ← List.append_assoc]
    change deliveries (World.note _ _ _).log = _
    rw [hs.log, deliveries_cons, hline, List.append_nil]
    rfl

/-- The helper finds its channel detached. -/
theorem Busy.leave (handle : Handler η) (h : Busy l m) (hp : m.phase = .taking)
    (hsession : m.world.broker.session ≠ some m.serving.session) : ∃ world,
      m.step? handle = some { m with world, phase := .returned (.ok m.handled.length) } ∧
      world.broker = m.world.broker ∧ world.handles = m.world.handles ∧
      Busy l { m with world, phase := .returned (.ok m.handled.length) } := by
  have hs := Step.readRefused h.seat hsession
  have hact := hs.act h.reach.filed
  have hnot : ¬ m.world.Attached m.channel := by
    rintro ⟨c, hc, hon⟩
    rw [h.seat] at hc
    cases hc
    exact hsession hon
  refine ⟨m.world.note _ _, h.count ▸ step?_detached hp hact, rfl, rfl, h.reach.act hact, h.seat,
    ?_, ?_, h.count, ?_, ?_, h.queue.trans h.reach (hs.onward h.bootstrapped)⟩
  · intro g hg
    cases hg
  · obtain ⟨done, begun, hdeeds, hbegun, hdone⟩ := h.rounds
    rw [hp] at hbegun
    refine ⟨done, begun, hdeeds, hbegun, fun t ht => ?_⟩
    exact ⟨(hdone t ht).1.step hs, h.reach.letOff_step hs (hdone t ht).2⟩
  · obtain ⟨others, hline, -⟩ := h.line
    exact ⟨others, (deliveries_of_none rfl _).trans hline, fun hk => absurd hk hnot⟩
  · rintro _ ⟨⟩
    exact ⟨rfl, hnot⟩

/-- The request in hand is handled, whatever comes of it. -/
theorem Busy.answer (handle : Handler η) (h : Busy l m) {r : RequestHandle}
    (hp : m.phase = .holding r) :
    ∃ path, requestPath? r.read.1 = some path ∧
      let done := handle m.serving.handler m.store path
      let next : Service η := { m with
        serving := { m.serving with handler := done.1, served := m.serving.served + 1 }
        store := done.2.1
        phase := .closing r }
      m.step? handle = some (next.note [.handled path done.2.2]) ∧
        Busy l (next.note [.handled path done.2.2]) := by
  obtain ⟨hmem, hsent⟩ := h.hand (r := r) (by rw [hp]; rfl)
  obtain ⟨path, hread⟩ := exists_requestPath?_read hsent
  refine ⟨path, hread, step?_holding hp hread, h.reach, h.seat, ?_, ?_, ?_, ?_,
    (fun hp => nomatch hp), h.queue⟩
  · rintro _ ⟨⟩
    exact ⟨hmem, hsent⟩
  · obtain ⟨done, begun, hdeeds, hbegun, hdone⟩ := h.rounds
    rw [hp] at hbegun
    cases hbegun
    refine ⟨done, [.took r.request, .handled path (handle m.serving.handler m.store path).2.2], ?_,
      ⟨path, _, hread, rfl⟩, hdone⟩
    change m.deeds ++ _ = _
    rw [hdeeds, List.append_assoc]
    rfl
  · rw [handled_note, List.length_append]
    exact congrArg Nat.succ h.count
  · obtain ⟨others, hline, hnone⟩ := h.line
    refine ⟨others, ?_, hnone⟩
    rw [taken_note_eq_self _ rfl]
    exact hline

/-- The request in hand is closed. -/
theorem Busy.close (handle : Handler η) (h : Busy l m) {r : RequestHandle}
    (hp : m.phase = .closing r) : ∃ world,
    m.world.act (.close r) = some (.done, world) ∧
      m.step? handle = some ({ m with world, phase := .taking }.note [.closed r.request]) ∧
      Busy l ({ m with world, phase := .taking }.note [.closed r.request]) := by
  obtain ⟨hmem, hsent⟩ := h.hand (r := r) (by rw [hp]; rfl)
  have hs := Step.close hmem
  have hact := hs.act h.reach.filed
  refine ⟨_, hact, step?_closing hp hact, h.reach.act hact, h.seat, (fun hg => nomatch hg), ?_, ?_,
    ?_, (fun hp => nomatch hp), h.queue.trans h.reach (hs.onward h.bootstrapped)⟩
  · obtain ⟨done, begun, hdeeds, hbegun, hdone⟩ := h.rounds
    rw [hp] at hbegun
    obtain ⟨path, answer, hread, rfl⟩ := hbegun
    refine ⟨done ++ [⟨r.request, path, answer⟩], [], ?_, rfl, fun t ht => ?_⟩
    · change m.deeds ++ _ = _
      rw [hdeeds, List.flatMap_append, List.append_assoc, List.append_nil]
      rfl
    rcases List.mem_append.mp ht with ht | ht
    · exact ⟨(hdone t ht).1.step hs, h.reach.letOff_step hs (hdone t ht).2⟩
    · cases List.mem_singleton.mp ht
      exact ⟨⟨r, rfl, hsent, (h.reach.custody.handle hmem).step hs, hread⟩,
        h.reach.letOff_of_close hmem hs⟩
  · rw [handled_note_eq_self _ rfl]
    exact h.count
  · obtain ⟨others, hline, hnone⟩ := h.line
    refine ⟨others, ?_, fun hk => hnone (h.reach.attached_of_step hs h.seat hk)⟩
    rw [taken_note_eq_self _ rfl]
    exact (deliveries_of_none rfl _).trans hline

theorem Busy.own (h : Busy l m) (hm : m.step? handle = some n) : Busy l n := by
  cases hp : m.phase with
  | taking =>
      by_cases hs : m.world.broker.session = some m.serving.session
      · cases hq : m.world.broker.queue with
        | nil =>
            rw [step?_nothing hp ((Step.readNothing h.seat hs hq).act h.reach.filed)] at hm
            cases hm
        | cons id rest =>
            obtain ⟨q, hr, hqd, -⟩ := h.reach.filed.takeHandle_cons hs hq
            obtain ⟨r, world, hstep, -, -, hbusy⟩ := h.take handle hp hs hq hr hqd
            cases hstep.symm.trans hm
            exact hbusy
      · obtain ⟨world, hstep, -, -, hbusy⟩ := h.leave handle hp hs
        cases hstep.symm.trans hm
        exact hbusy
  | holding r =>
      obtain ⟨path, -, hstep, hbusy⟩ := h.answer handle hp
      cases hstep.symm.trans hm
      exact hbusy
  | closing r =>
      obtain ⟨world, -, hstep, hbusy⟩ := h.close handle hp
      cases hstep.symm.trans hm
      exact hbusy
  | returned result =>
      simp only [step?, hp] at hm
      cases hm

theorem Busy.move (h : Busy l m) {a : Move} (hm : m.move? handle a = some n) : Busy l n := by
  cases a with
  | own => exact h.own hm
  | act a =>
      simp only [move?] at hm
      split_ifs at hm with ha
      obtain ⟨⟨r, world⟩, hact, rfl⟩ := Option.map_eq_some_iff.mp hm
      exact h.act ha hact
  | put store =>
      cases hm
      exact ⟨h.reach, h.seat, h.hand, h.rounds, h.count, h.line, h.result, h.queue⟩

theorem busy_start {w : World} (h : Reachable w) {store : Store} {channel : Nat}
    {session : SessionId} {handler : η} (hc : w.channel? channel = some session) :
    Busy (start w store channel session handler) (start w store channel session handler) where
  reach := h
  seat := hc
  hand hr := nomatch hr
  rounds := ⟨[], [], rfl, rfl, by simp⟩
  count := rfl
  line := ⟨[], by rw [List.append_nil]; exact (List.append_nil _).symm, fun _ => rfl⟩
  result hp := nomatch hp
  queue := .refl _

theorem Busy.run {moves : List Move} (h : Busy l m) (hr : m.run? handle moves = some n) :
    Busy l n := by
  induction moves generalizing m with
  | nil =>
      cases hr
      exact h
  | cons a rest ih =>
      obtain ⟨m', hm, hrest⟩ := Option.bind_eq_some_iff.mp hr
      exact ih (h.move hm) hrest

/-! ## After the channel was detached -/

theorem Busy.not_attached_iff (h : Busy l m) : ¬ m.world.Attached m.channel ↔
    m.world.broker.session ≠ some m.serving.session := by
  refine not_congr ⟨?_, fun hs => ⟨_, h.seat, hs⟩⟩
  rintro ⟨c, hc, hs⟩
  rw [h.seat] at hc
  cases hc
  exact hs

/-- Nothing is taken without the seat. -/
theorem Busy.parted_move (h : Busy l m) {a : Move} (hm : m.move? handle a = some n)
    (hd : ¬ m.world.Attached m.channel) :
    n.taken = m.taken ∧ ¬ n.world.Attached n.channel := by
  cases a with
  | put store =>
      cases hm
      exact ⟨rfl, hd⟩
  | act a =>
      simp only [move?] at hm
      split_ifs at hm
      obtain ⟨⟨r, world⟩, hact, rfl⟩ := Option.map_eq_some_iff.mp hm
      obtain ⟨v, hs, rfl⟩ := h.reach.step hact
      exact ⟨rfl, fun hk => hd (h.reach.attached_of_step hs h.seat hk)⟩
  | own =>
      change m.step? handle = some n at hm
      cases hp : m.phase with
      | taking =>
          obtain ⟨world, hstep, hbroker, -, hbusy⟩ := h.leave handle hp (h.not_attached_iff.mp hd)
          cases hstep.symm.trans hm
          exact ⟨rfl, (hbusy.result rfl).2⟩
      | holding r =>
          obtain ⟨path, -, hstep, -⟩ := h.answer handle hp
          cases hstep.symm.trans hm
          exact ⟨taken_note_eq_self _ rfl, hd⟩
      | closing r =>
          obtain ⟨world, hact, hstep, -⟩ := h.close handle hp
          cases hstep.symm.trans hm
          obtain ⟨v, hs, rfl⟩ := h.reach.step hact
          exact ⟨taken_note_eq_self _ rfl, fun hk => hd (h.reach.attached_of_step hs h.seat hk)⟩
      | returned result =>
          simp only [step?, hp] at hm
          cases hm

theorem Busy.parted (h : Busy l m) {moves : List Move} (hr : m.run? handle moves = some n)
    (hd : ¬ m.world.Attached m.channel) : n.taken = m.taken ∧ ¬ n.world.Attached n.channel := by
  induction moves generalizing m with
  | nil =>
      cases hr
      exact ⟨rfl, hd⟩
  | cons a rest ih =>
      obtain ⟨m', hm, hrest⟩ := Option.bind_eq_some_iff.mp hr
      obtain ⟨htaken, hd'⟩ := h.parted_move hm hd
      obtain ⟨htaken', hn⟩ := ih (h.move hm) hrest hd'
      exact ⟨htaken'.trans htaken, hn⟩

/-- Without the seat, the helper finishes what is in its hands and returns. -/
theorem Busy.finishes (h : Busy l m) (hd : ¬ m.world.Attached m.channel) :
    ∃ k n, k ≤ 3 ∧ m.run? handle (List.replicate k .own) = some n ∧
      n.phase = .returned (.ok n.handled.length) := by
  have htaking {m : Service η} (h : Busy l m) (hp : m.phase = .taking)
      (hd : ¬ m.world.Attached m.channel) : ∃ n, m.run? handle [.own] = some n ∧
        n.phase = .returned (.ok n.handled.length) := by
    obtain ⟨world, hstep, -⟩ := h.leave handle hp (h.not_attached_iff.mp hd)
    exact ⟨_, run?_own hstep [], rfl⟩
  have hclosing {m : Service η} {r : RequestHandle} (h : Busy l m) (hp : m.phase = .closing r)
      (hd : ¬ m.world.Attached m.channel) : ∃ n, m.run? handle [.own, .own] = some n ∧
        n.phase = .returned (.ok n.handled.length) := by
    obtain ⟨world, -, hstep, hbusy⟩ := h.close handle hp
    obtain ⟨n, hrun, hn⟩ := htaking hbusy rfl (h.parted_move (a := .own) hstep hd).2
    exact ⟨n, (run?_own hstep _).trans hrun, hn⟩
  cases hp : m.phase with
  | taking =>
      obtain ⟨n, hrun, hn⟩ := htaking h hp hd
      exact ⟨1, n, by omega, hrun, hn⟩
  | closing r =>
      obtain ⟨n, hrun, hn⟩ := hclosing h hp hd
      exact ⟨2, n, by omega, hrun, hn⟩
  | holding r =>
      obtain ⟨path, -, hstep, hbusy⟩ := h.answer handle hp
      obtain ⟨n, hrun, hn⟩ := hclosing hbusy rfl (h.parted_move (a := .own) hstep hd).2
      exact ⟨3, n, by omega, (run?_own hstep _).trans hrun, hn⟩
  | returned result => exact ⟨0, m, by omega, rfl, hp.trans (by rw [(h.result hp).1])⟩

/-! ## What a helper owes -/

theorem mem_taken_iff {id : RequestId} : id ∈ l.taken ↔ .took id ∈ l.deeds := by
  rw [taken, List.mem_filterMap]
  constructor
  · rintro ⟨d, hd, hid⟩
    cases d with
    | took j => cases hid; exact hd
    | handled | closed => cases hid
  · exact fun hd => ⟨_, hd, rfl⟩

/-- Whatever was closed is let off, and between two turns all that was taken is closed. -/
theorem Busy.letOff (h : Busy l m) {id : RequestId} (hid : .closed id ∈ m.deeds) :
    m.world.LetOff id := by
  obtain ⟨done, begun, hdeeds, hbegun, hdone⟩ := h.rounds
  rw [hdeeds, List.mem_append, List.mem_flatMap] at hid
  rcases hid with ⟨t, ht, hid⟩ | hid
  · simp only [Round.deeds, List.mem_cons, reduceCtorEq, Deed.closed.injEq, false_or,
      List.not_mem_nil, or_false] at hid
    rw [hid]
    exact (hdone t ht).2
  · cases hp : m.phase with
    | taking | returned => rw [hp] at hbegun; cases hbegun; cases hid
    | holding r => rw [hp] at hbegun; cases hbegun; simp at hid
    | closing r =>
        rw [hp] at hbegun
        obtain ⟨path, answer, -, rfl⟩ := hbegun
        simp at hid

theorem Busy.closed_of_taken (h : Busy l m) (hp : m.phase.hand? = none) {id : RequestId}
    (hid : id ∈ m.taken) : .closed id ∈ m.deeds := by
  obtain ⟨done, begun, hdeeds, hbegun, -⟩ := h.rounds
  have hnil : begun = [] := by
    cases hphase : m.phase with
    | taking | returned => rw [hphase] at hbegun; exact hbegun
    | holding | closing => rw [hphase] at hp; cases hp
  subst hnil
  rw [mem_taken_iff, hdeeds, List.append_nil, List.mem_flatMap] at hid
  obtain ⟨t, ht, hid⟩ := hid
  rw [hdeeds, List.append_nil, List.mem_flatMap]
  refine ⟨t, ht, ?_⟩
  simp only [Round.deeds, List.mem_cons, reduceCtorEq, Deed.took.injEq, List.not_mem_nil, or_false]
    at hid
  simp [Round.deeds, hid]

/-- What a helper that began in `l` has done and will do next, and what it leaves. -/
structure Dutiful (handle : Handler η) (l m : Service η) : Prop where
  /-- One turn after the other, each with one call of the handler. -/
  rounds : ∃ (done : List Round) (begun : List Deed), m.deeds = done.flatMap Round.deeds ++ begun ∧
    m.phase.Begun begun ∧ ∀ t ∈ done, IsPathOf m.world t.request t.path
  once : m.taken.Nodup
  takes (hp : m.phase = .taking) (hk : m.world.Attached m.channel) :
    match m.world.broker.queue with
    | [] => m.step? handle = none
    | id :: rest => ∃ r world,
        m.step? handle = some ({ m with world, phase := .holding r }.note [.took id]) ∧
          r.request = id ∧ world.broker.queue = rest
  handles {r : RequestHandle} (hp : m.phase = .holding r) : ∃ path,
    requestPath? r.read.1 = some path ∧
      let done := handle m.serving.handler m.store path
      m.step? handle = some ({ m with
        serving := { m.serving with handler := done.1, served := m.serving.served + 1 }
        store := done.2.1
        phase := .closing r }.note [.handled path done.2.2])
  closes {r : RequestHandle} (hp : m.phase = .closing r) : ∃ world,
    m.world.act (.close r) = some (.done, world) ∧
      m.step? handle = some ({ m with world, phase := .taking }.note [.closed r.request])
  leaves (hp : m.phase = .taking) (hd : ¬ m.world.Attached m.channel) : ∃ world,
    m.step? handle = some { m with world, phase := .returned (.ok m.handled.length) } ∧
      world.broker = m.world.broker ∧ world.handles = m.world.handles
  /-- Whatever happens after the channel was detached, nothing more is taken, -/
  parted (hd : ¬ m.world.Attached m.channel) {moves : List Move} {n : Service η}
    (hn : m.run? handle moves = some n) : n.taken = m.taken ∧ ¬ n.world.Attached n.channel
  /-- and the helper is not held up. -/
  finishes (hd : ¬ m.world.Attached m.channel) : ∃ k n, k ≤ 3 ∧
    m.run? handle (List.replicate k .own) = some n ∧ n.phase = .returned (.ok n.handled.length)
  returned {result : Except Fault Nat} (hp : m.phase = .returned result) :
    result = .ok m.handled.length ∧ ¬ m.world.Attached m.channel ∧
      (∀ id ∈ m.taken, .closed id ∈ m.deeds) ∧ ∀ g ∈ m.world.handles, g.request ∉ m.taken
  /-- Who is closed is completed, unless it had run out before. -/
  closed {id : RequestId} (hid : .closed id ∈ m.deeds) :
    m.world.broker.state? id = some .completed ∧ verdict? m.world.log id = some .closed ∨
      m.world.broker.state? id = some .timedOut ∧ verdict? m.world.log id = some .expired
  /-- What went to helpers since went to this one, and to others only after it was detached. -/
  line : ∃ others, deliveries m.world.log = deliveries l.world.log ++ m.taken ++ others ∧
    (m.world.Attached m.channel → others = [])
  /-- Those it did not take stand in the queue as they did, -/
  queue : l.world.Onward m.world
  /-- and all of them, but for those who ran out or went to the next helper. -/
  stays {id : RequestId} {q : Request} (hq : m.world.broker.request? id = some q)
    (hd : id ∉ deliveries m.world.log) (ht : q.state ≠ .timedOut) : id ∈ m.world.broker.queue

theorem Busy.dutiful (h : Busy l m) (handle : Handler η) : Dutiful handle l m where
  rounds := by
    obtain ⟨done, begun, hdeeds, hbegun, hdone⟩ := h.rounds
    exact ⟨done, begun, hdeeds, hbegun, fun t ht => (hdone t ht).1⟩
  once := by
    obtain ⟨others, hline, -⟩ := h.line
    have honce := (orderly_of_reachable h.reach).once
    rw [hline] at honce
    exact (honce.sublist (List.sublist_append_left _ _)).sublist (List.sublist_append_right _ _)
  takes hp hk := by
    have hs := not_not.mp (mt h.not_attached_iff.mpr (not_not.mpr hk))
    cases hq : m.world.broker.queue with
    | nil => exact step?_nothing hp ((Step.readNothing h.seat hs hq).act h.reach.filed)
    | cons id rest =>
        obtain ⟨q, hr, hqd, -⟩ := h.reach.filed.takeHandle_cons hs hq
        obtain ⟨r, world, hstep, hid, hrest, -⟩ := h.take handle hp hs hq hr hqd
        exact ⟨r, world, hstep, hid, hrest⟩
  handles hp := by
    obtain ⟨path, hread, hstep, -⟩ := h.answer handle hp
    exact ⟨path, hread, hstep⟩
  closes hp := by
    obtain ⟨world, hact, hstep, -⟩ := h.close handle hp
    exact ⟨world, hact, hstep⟩
  leaves hp hd := by
    obtain ⟨world, hstep, hbroker, hhandles, -⟩ := h.leave handle hp (h.not_attached_iff.mp hd)
    exact ⟨world, hstep, hbroker, hhandles⟩
  parted hd _ _ hn := h.parted hn hd
  finishes hd := h.finishes hd
  returned {result} hp := by
    obtain ⟨hres, hd⟩ := h.result hp
    have hclosed (id : RequestId) (hid : id ∈ m.taken) : .closed id ∈ m.deeds :=
      h.closed_of_taken (by rw [hp]; rfl) hid
    refine ⟨hres, hd, hclosed, fun g hg hid => ?_⟩
    exact Nat.ne_of_gt (openHandles_pos hg) (h.letOff (hclosed _ hid)).2
  closed hid := h.reach.letOff_cases (h.letOff hid)
  line := h.line
  queue := h.queue
  stays hq hd ht := h.reach.mem_queue_of_not_delivered hq hd ht

theorem dutiful_of_run {w : World} (h : Reachable w) {channel : Nat} {session : SessionId}
    (hc : w.channel? channel = some session) (store : Store) (handler : η) (handle : Handler η)
    {moves : List Move} {m : Service η}
    (hr : (start w store channel session handler).run? handle moves = some m) :
    Dutiful handle (start w store channel session handler) m :=
  ((busy_start h hc).run hr).dutiful handle

/-- A store that nothing was published in. -/
def blankStore : Store := ⟨[], 0, Disk.empty (.ofSeconds 0), { capacity := 0 }⟩

/-- A handler that fails at every second path. -/
def moody : Handler Bool := fun fails store path =>
  (!fails, store, if fails then .error (.notFound path) else .ok ())

/-- The first turn goes through. In the second, which fails, the call that waits gives up and the
channel is detached while the handler works; a third call is left for the next helper. -/
def twoTurns : List Move :=
  [.own, .own, .own, .own, .act (.fetch pathB), .own, .act (.detach 0), .act (.pass 5),
    .act (.giveUp 0), .act (.expire 0), .own, .own]

theorem dutiful_twoTurns : ∃ w m, (World.start (some 5) 0).run? [.fetch pathA, .attach] = some w ∧
    (start w blankStore 0 1 false).run? moody twoTurns = some m ∧
    m.phase = .returned (.ok 2) ∧ m.taken = [2, 1] ∧ m.handled = ["/", "/a"] ∧
    m.world.broker.queue = [3] ∧ Dutiful moody (start w blankStore 0 1 false) m := by
  have hrun : ((World.start (some 5) 0).run? [.fetch pathA, .attach]).any (fun w =>
      decide (w.channel? 0 = some 1) &&
        ((start w blankStore 0 1 false).run? moody twoTurns).any fun m =>
          decide (m.phase = .returned (.ok 2) ∧ m.taken = [2, 1] ∧ m.handled = ["/", "/a"] ∧
            m.world.broker.queue = [3])) = true := by decide
  obtain ⟨w, hw, hboth⟩ := (Option.any_eq_true _ _).mp hrun
  obtain ⟨hc, hserve⟩ := Bool.and_eq_true_iff.mp hboth
  obtain ⟨m, hm, hfacts⟩ := (Option.any_eq_true _ _).mp hserve
  obtain ⟨hphase, htaken, hhandled, hqueue⟩ := of_decide_eq_true hfacts
  exact ⟨w, m, hw, hm, hphase, htaken, hhandled, hqueue,
    dutiful_of_run ((Reachable.start _ _).run? hw) (of_decide_eq_true hc) _ _ _ hm⟩

end Service
end OnDemandFs
