import OnDemandFs.Proofs.Broker.Channels
import OnDemandFs.Proofs.Kernel.Desk

/-!
# A request at the table of handles is in one place

A helper at the table of handles does nothing that a helper with channels and handles of its own
could not do, so beside each run of a `Desk` goes a run of a world of the broker (`Follows`), and
what is known of every such world is known of the desk. The table itself says where a request is
(`Sound`). Together they leave one place for each request that was announced, and one moment at
which it is completed.
-/
namespace OnDemandFs
namespace Broker.World

variable {u v w : World} {a : Action} {r : Reply}

/-- A client does the same in every world that has this broker and these calls. -/
theorem Step.client (hs : Step v a r u) (ha : a.isClient = true) (hbroker : w.broker = v.broker)
    (hnow : w.now = v.now) (hfetches : w.fetches = v.fetches) :
    Step w a r { w with broker := u.broker, now := u.now, fetches := u.fetches } := by
  obtain ⟨broker, now, channels, handles, fetches, bootstrap, log⟩ := w
  cases hbroker
  cases hnow
  cases hfetches
  cases hs with
  | join hp => exact .join hp
  | create hp => exact .create hp
  | wake hf hw ho => exact .wake hf hw ho
  | giveUp hf hw ho hd ht => exact .giveUp hf hw ho hd ht
  | expire hf he ho => exact .expire hf he ho
  | pass time => exact .pass time
  | _ => cases ha

theorem Step.delivered?_of_isClient (hs : Step w a r v) (ha : a.isClient = true) :
    Event.delivered? ⟨a, r⟩ = none := by
  cases hs with
  | deliver => cases ha
  | _ => rfl

theorem isSeating_of_isClient (ha : a.isClient = true) : a.isSeating = false := by
  cases a with
  | attach | detach | drop => cases ha
  | _ => rfl

end Broker.World

namespace Desk

open Broker

variable {d e : Desk} {notes past later : List Note} {w v : World} {id : RequestId}

/-- A world of channels and handles that goes the same way as the desk. -/
structure Follows (past : List Note) (d : Desk) (w : World) : Prop where
  reachable : w.Reachable
  broker : w.broker = d.broker
  now : w.now = d.now
  fetches : w.fetches = d.fetches
  handles (id : RequestId) :
    w.openHandles id + past.count (.closed id) = past.count (.announced id)
  deliveries (id : RequestId) : (deliveries w.log).count id = past.count (.announced id)
  channel (c : ControlFile) (hc : d.table.control = some c) : ∃ k, w.channel? k = some c.session

theorem follows_start (timeout : Option Nat) (now : Nat) :
    Follows [] (start timeout now) (.start timeout now) where
  reachable := .start timeout now
  broker := rfl
  now := rfl
  fetches := rfl
  handles _ := rfl
  deliveries _ := rfl
  channel _ := nofun

/-- What the table keeps to itself, the world need not follow. -/
theorem Follows.table (h : Follows past d w) {table : Handles}
    (hclosed : ∀ id, later.count (.closed id) = past.count (.closed id))
    (hannounced : ∀ id, later.count (.announced id) = past.count (.announced id))
    (hchannel : ∀ c, table.control = some c → ∃ k, w.channel? k = some c.session) :
    Follows later { d with table } w where
  reachable := h.reachable
  broker := h.broker
  now := h.now
  fetches := h.fetches
  handles id := by rw [hclosed, hannounced, h.handles]
  deliveries id := by rw [hannounced, h.deliveries]
  channel := hchannel

/-- The world takes a step with which no handle comes or goes. -/
theorem Follows.act (h : Follows past d w) {a : Broker.Action} {r : Reply}
    (hs : World.Step w a r v) (hquiet : Event.delivered? ⟨a, r⟩ = none)
    (hhandles : v.handles = w.handles)
    (hchannels : ∀ k c, w.channel? k = some c → v.channel? k = some c) :
    Follows past { d with broker := v.broker, now := v.now, fetches := v.fetches }
      (v.note a r) where
  reachable := h.reachable.act (hs.act h.reachable.filed)
  broker := rfl
  now := rfl
  fetches := rfl
  handles id := by
    rw [← h.handles]
    change v.handles.countP _ + _ = w.handles.countP _ + _
    rw [hhandles]
  deliveries id := by rw [hs.log, deliveries_of_none hquiet, h.deliveries]
  channel c hc := (h.channel c hc).imp fun k hk => hchannels k _ hk

theorem Follows.filed (h : Follows past d w) : d.broker.Filed := by
  rw [← h.broker]
  exact h.reachable.filed

theorem Follows.client (h : Follows past d w) {a : Broker.Action} {r : Reply} {u : World}
    (ha : a.isClient = true) (hp : d.world.perform a = some (r, u)) :
    ∃ v, Follows past { d with broker := u.broker, now := u.now, fetches := u.fetches } v := by
  have hs := (World.step_of_perform (w := d.world) h.filed hp).client ha h.broker h.now h.fetches
  have hact := h.act hs (hs.delivered?_of_isClient ha) rfl fun _ _ => id
  exact ⟨_, hact⟩

theorem Follows.attachControl (h : Follows past d w) {session : SessionId} {broker : Broker}
    (hb : d.broker.attach d.now = .ok (session, broker)) :
    ∃ v, Follows past { d with
      broker
      table := { d.table with
        last := d.table.last + 1
        control := some ⟨d.table.last + 1, session⟩ } } v := by
  have hp : w.perform .attach = some (.channel w.channels.length, { w with
      broker
      channels := w.channels ++ [some session]
      bootstrap := if w.broker.bootstrapped then w.bootstrap else broker.queue.head? }) := by
    simp only [World.perform, h.broker, h.now, hb]
  have hs := World.step_of_perform h.reachable.filed hp
  have hact := h.act hs rfl rfl fun k c hk => by
    rw [World.channel?_concat rfl, if_neg, hk]
    rintro rfl
    simp [World.channel?] at hk
  rw [h.now, h.fetches] at hact
  refine ⟨_, hact.table (fun _ => rfl) (fun _ => rfl) fun c hc => ⟨w.channels.length, ?_⟩⟩
  cases hc
  exact (World.channel?_concat rfl _).trans (if_pos rfl)

theorem Follows.readControl (h : Follows past d w) {c : ControlFile} (hc : d.table.control = some c)
    {r : RequestHandle} {broker : Broker}
    (ht : d.broker.takeHandle c.session = .ok (some r, broker)) :
    ∃ v, Follows (.announced r.request :: past) { d with
      broker
      table := { d.table with pending := d.table.pending.set r.request r } } v := by
  obtain ⟨k, hk⟩ := h.channel c hc
  have hp : w.perform (.read k) =
      some (.delivered r, { w with broker, handles := r :: w.handles }) := by
    simp only [World.perform, hk, Option.map_some, h.broker, ht]
  have hs := World.step_of_perform h.reachable.filed hp
  refine ⟨_, ⟨h.reachable.act (hs.act h.reachable.filed), rfl, h.now, h.fetches, fun id => ?_,
    fun id => ?_, h.channel⟩⟩
  · have hid := h.handles id
    change (r :: w.handles).countP _ + _ = _
    rw [World.openHandles] at hid
    by_cases heq : r.request = id <;> simp [heq] <;> omega
  · have hid := h.deliveries id
    rw [hs.log, deliveries_cons, List.count_append, hid]
    by_cases heq : r.request = id <;> simp [Event.delivered?, heq]

theorem Follows.detach (h : Follows past d w) {c : ControlFile} (hc : d.table.control = some c) :
    ∃ v, Follows past { d with broker := d.broker.detach c.session } v := by
  obtain ⟨k, hk⟩ := h.channel c hc
  have hact := h.act (.detach hk) rfl rfl fun _ _ => id
  dsimp only at hact
  rw [h.broker, h.now, h.fetches] at hact
  exact ⟨_, hact⟩

theorem Follows.letGo (h : Follows past d w) (rs : List RequestHandle)
    (hopen : ∀ id, rs.countP (·.request = id) ≤ w.openHandles id) :
    ∃ v, Follows ((rs.map fun r => .closed r.request) ++ past)
      { d with broker := d.broker.closeAll rs } v := by
  obtain ⟨v, hv, hgo⟩ := h.reachable.letGo hopen
  refine ⟨v, hv, by rw [hgo.broker, h.broker], hgo.now.trans h.now, hgo.fetches.trans h.fetches,
    fun id => ?_, fun id => ?_, fun c hc => ?_⟩
  · have hid := h.handles id
    have hless := hgo.handles id
    rw [List.count_append, List.count_append, count_announced, count_closed]
    omega
  · rw [hgo.deliveries, h.deliveries, List.count_append, count_announced, Nat.zero_add]
  · simp only [World.channel?, hgo.channels]
    exact h.channel c hc

theorem Follows.accounted (h : Follows past d w) (id : RequestId) :
    Accounted (d.broker.state? id) (past.count (.announced id)) (w.openHandles id) := by
  have hid := h.reachable.custody.accounted id
  rwa [h.broker, h.deliveries] at hid

/-- Requests stay, and what is over stays as it is. -/
theorem Step.keeps (hs : Step d notes e) (hf : d.broker.Filed) : Keeps d.broker e.broker := by
  cases hs with
  | client ha h => exact (World.step_of_perform (w := d.world) hf h).keeps
  | attachControl h => exact (hf.of_attach h).2
  | readControl hs h =>
      obtain ⟨q, hq, hqueued, rfl⟩ := hf.of_takeHandle hs h
      exact .deliver hq hqueued
  | openRequest | readRequest | aside => exact .of_eq fun _ => rfl
  | releaseRequest => exact .close _ _
  | @releaseControl c =>
      intro id q hq
      exact Keeps.closeAll _ _ id q ((request?_detach _ c.session id).trans hq)

/-! ### What every run keeps -/

/-- The table is in order, and a world goes the same way. -/
def Kept (past : List Note) (d : Desk) : Prop := Sound past d ∧ ∃ w, Follows past d w

theorem Sound.handles (h : Sound past d) (hw : Follows past d w) (id : RequestId) :
    w.openHandles id = d.pendingOf id + d.openOf id := by
  have hbalance := h.balance id
  have hhandles := hw.handles id
  omega

theorem Kept.accounted (h : Kept past d) (id : RequestId) :
    Accounted (d.broker.state? id) (past.count (.announced id)) (d.pendingOf id + d.openOf id) := by
  obtain ⟨hsound, w, hw⟩ := h
  rw [← hsound.handles hw]
  exact hw.accounted id

theorem Sound.control_of_session (h : Sound past d) {channel : SessionId}
    (hs : d.broker.session = some channel) :
    ∃ c, d.table.control = some c ∧ c.session = channel := by
  rwa [h.session, Option.map_eq_some_iff] at hs

theorem openOf_pos {handle : Handle} {r : RequestHandle}
    (hr : d.table.requests.get? handle = some r) : 0 < d.openOf r.request :=
  List.countP_pos_iff.mpr ⟨r, List.mem_map.mpr ⟨_, Table.mem_of_get? hr, rfl⟩, by simp⟩

theorem Kept.step (h : Kept past d) (hs : Step d notes e) : Kept (notes ++ past) e := by
  have hkept := h
  obtain ⟨h, w, hw⟩ := h
  cases hs with
  | @client a r u ha hp =>
      have hseat := (World.step_of_perform (w := d.world) hw.filed hp).sameSeat
        (World.isSeating_of_isClient ha)
      exact ⟨h.client hseat.1.session _ _, hw.client ha hp⟩
  | attachControl hb => exact ⟨h.attachControl (hw.filed.of_attach hb).1, hw.attachControl hb⟩
  | @readControl channel r broker hs ht =>
      obtain ⟨c, hc, rfl⟩ := h.control_of_session hs
      obtain ⟨q, hq, hqueued, hb⟩ := hw.filed.of_takeHandle hs ht
      -- what is in the queue was never announced
      have hfresh : past.count (.announced r.request) = 0 := by
        have hid := hkept.accounted r.request
        rw [state?_of_some hq, hqueued] at hid
        exact hid.1
      exact ⟨h.readControl hs hfresh (by rw [hb]; rfl), hw.readControl hc ht⟩
  | openRequest hr =>
      exact ⟨h.openRequest hr, w, hw.table (fun _ => by simp) (fun _ => by simp) hw.channel⟩
  | readRequest hr =>
      exact ⟨h.readRequest hr, w, hw.table (fun _ => rfl) (fun _ => rfl) hw.channel⟩
  | @releaseRequest handle r hr =>
      obtain ⟨v, hv⟩ := hw.letGo [r] fun id => by
        have hpos := openOf_pos hr
        rw [h.handles hw]
        by_cases hid : r.request = id
        · subst hid
          simp
          omega
        · simp [hid]
      exact ⟨h.releaseRequest hr (SameSeat.close _ _).session, v,
        hv.table (fun _ => rfl) (fun _ => rfl) hv.channel⟩
  | @releaseControl c hc =>
      obtain ⟨u, hu⟩ := hw.detach hc
      obtain ⟨v, hv⟩ := hu.letGo d.table.pending.values fun id => by
        have hhandles := hu.handles id
        have hbalance := h.balance id
        change d.pendingOf id ≤ _
        omega
      have hsession : ((d.broker.detach c.session).closeAll d.table.pending.values).session =
          none := by
        rw [session_closeAll, session_detach, h.session, hc]
        simp
      exact ⟨h.releaseControl hsession, v, hv.table (fun _ => rfl) (fun _ => rfl) nofun⟩
  | aside ha =>
      refine ⟨h.aside ha, w, hw.table (fun _ => rfl) (fun _ => rfl) fun c hc => ?_⟩
      rw [ha.control] at hc
      exact hw.channel c hc

theorem Kept.act (h : Kept past d) (a : Action) : Kept ((d.act a).1 ++ past) (d.act a).2 := by
  rcases act_cases d a with hsame | hs
  · rw [hsame]
    exact h
  · exact h.step hs

theorem kept_start (timeout : Option Nat) (now : Nat) : Kept [] (start timeout now) := by
  refine ⟨⟨rfl, nofun, List.nodup_nil, List.nodup_nil, nofun, fun _ => rfl, fun _ => rfl,
    fun _ => Nat.le_refl 0, fun _ => Nat.le_refl 0⟩, _, follows_start timeout now⟩

theorem Kept.run (h : Kept past d) (actions : List Action) :
    Kept (d.run past actions).1 (d.run past actions).2 := by
  induction actions generalizing past d with
  | nil => exact h
  | cons a rest ih => exact ih (h.act a)

/-! ### Where a request is -/

theorem Kept.announced_le_one (h : Kept past d) (id : RequestId) :
    past.count (.announced id) ≤ 1 :=
  (h.accounted id).deliveries_le_one

/-- A request can be opened if it was announced and nothing else was done with it. -/
theorem Kept.pending_iff (h : Kept past d) (id : RequestId) : d.pendingOf id = 1 ↔
    .announced id ∈ past ∧ past.countP (Note.opens id) = 0 ∧ .closed id ∉ past := by
  have hannounced := h.announced_le_one id
  have hbalance := h.1.balance id
  have hopened := h.1.opened id
  have honce := h.1.once id
  rw [← List.count_pos_iff, ← List.count_eq_zero]
  omega

/-- What is open once is open under one handle. -/
theorem Sound.existsUnique_handle (h : Sound past d) (hone : d.openOf id = 1) :
    ∃! handle, ∃ r, d.table.requests.get? handle = some r ∧ r.request = id := by
  obtain ⟨r, hr, hid⟩ := List.countP_pos_iff.mp (Nat.lt_of_lt_of_eq Nat.zero_lt_one hone.symm)
  obtain ⟨⟨handle, r⟩, hrow, rfl⟩ := List.mem_map.mp hr
  have hget := (Table.get?_eq_some_iff h.requestKeys).mpr hrow
  refine ⟨handle, ⟨r, hget, of_decide_eq_true hid⟩, ?_⟩
  rintro other ⟨r', hget', hid'⟩
  by_contra hne
  -- without the first row the other one would still be counted
  have hcount := Table.countP_values_of_get? h.requestKeys hget fun r => r.request = id
  have hother : (d.table.requests.erase handle).get? other = some r' := by
    rw [Table.get?_erase, if_neg hne, hget']
  have hpos : 0 < (d.table.requests.erase handle).values.countP fun r => r.request = id :=
    List.countP_pos_iff.mpr
      ⟨r', List.mem_map.mpr ⟨_, Table.mem_of_get? hother, rfl⟩, decide_eq_true hid'⟩
  rw [if_pos hid] at hcount
  rw [openOf] at hone
  omega

/-- A request that is not over is in the queue or with the helper. -/
theorem Kept.live (h : Kept past d) {q : Request} (hq : d.broker.request? id = some q)
    (hlive : q.state.isTerminal = false) :
    id ∈ d.broker.queue ∨ d.pendingOf id + d.openOf id = 1 := by
  have hid := h.accounted id
  obtain ⟨-, w, hw⟩ := h
  rw [state?_of_some hq] at hid
  cases hs : q.state with
  | queued => exact .inl ((hw.filed.mem_queue_iff hq).mpr hs)
  | delivered =>
      rw [hs] at hid
      exact .inr hid.2
  | completed | timedOut =>
      rw [hs] at hlive
      cases hlive

theorem Kept.completed_iff (h : Kept past d) (id : RequestId) :
    d.broker.state? id = some .completed ↔
      .closed id ∈ past ∧ d.broker.state? id ≠ some .timedOut := by
  have hbalance := h.1.balance id
  have hannounced := h.announced_le_one id
  have hid := h.accounted id
  rw [← List.count_pos_iff]
  constructor
  · intro hs
    rw [hs] at hid
    obtain ⟨hdelivered, hnone⟩ := hid
    exact ⟨by omega, by rw [hs]; nofun⟩
  · rintro ⟨hclosed, hs⟩
    -- the one place there is for it is taken
    have hplace : past.count (.announced id) = 1 ∧ d.pendingOf id + d.openOf id = 0 := by omega
    rw [hplace.1, hplace.2] at hid
    cases hstate : d.broker.state? id with
    | none => simp [hstate, Accounted] at hid
    | some state => cases state <;> simp [hstate, Accounted] at hid hs ⊢

/-! ### What lets go of a request -/

/-- The action lets go of the handle of a request, or of the control file before the request was
opened. -/
def LetsGo (d : Desk) (id : RequestId) : Action → Prop
  | .releaseRequest handle => ∃ r, d.table.requests.get? handle = some r ∧ r.request = id
  | .releaseControl handle =>
    (d.table.controlSession? handle).isSome ∧ (d.table.pending.get? id).isSome
  | _ => False

theorem Sound.closed_mem_iff (h : Sound past d) (a : Action) :
    .closed id ∈ (d.act a).1 ↔ d.LetsGo id a := by
  cases a with
  | releaseRequest handle =>
      cases hr : d.table.requests.get? handle with
      | none => simp [Desk.act, LetsGo, Handles.releaseRequest_of_none hr, hr]
      | some r => simp [Desk.act, LetsGo, Handles.releaseRequest_of_some hr, hr, eq_comm]
  | releaseControl handle =>
      rw [LetsGo, ← h.pendingOf_pos_iff, pendingOf, List.countP_pos_iff]
      cases hc : d.table.controlSession? handle with
      | none => simp [Desk.act, Handles.releaseControl_of_none hc]
      | some session => simp [Desk.act, Handles.releaseControl_of_some hc]
  | client a =>
      simp only [Desk.act, LetsGo]
      split <;> simp
  | attachControl =>
      simp only [Desk.act, LetsGo]
      split <;> simp
  | readControl channel =>
      simp only [Desk.act, LetsGo]
      split <;> simp
  | openRequest id' =>
      simp only [Desk.act, LetsGo]
      split <;> simp
  | readRequest handle =>
      simp only [Desk.act, LetsGo]
      split <;> simp
  | insertFile | releaseFile | insertDirectory | releaseDirectory => simp [Desk.act, LetsGo]

/-- Letting go of a handle is not what makes its request time out. -/
theorem Step.state?_of_timedOut (hs : Step d notes e) (hclosed : .closed id ∈ notes)
    (ht : e.broker.state? id = some .timedOut) : d.broker.state? id = some .timedOut := by
  cases hs with
  | @releaseRequest handle r hr =>
      have hclose : (d.broker.closeAll [r]).state? id = some .timedOut := ht
      exact state?_closeAll_timedOut hclose
  | @releaseControl c hc =>
      have hdetached := state?_closeAll_timedOut ht
      rwa [state?_congr (request?_detach _ c.session id)] at hdetached
  | _ => simp at hclosed

theorem Kept.stays (h : Kept past d) (a : Action) {state : RequestState}
    (hs : d.broker.state? id = some state) (hover : state.isTerminal = true) :
    (d.act a).2.broker.state? id = some state := by
  rcases act_cases d a with hsame | hstep
  · rw [hsame]
    exact hs
  · obtain ⟨-, w, hw⟩ := h
    obtain ⟨q, hq, rfl⟩ := Option.map_eq_some_iff.mp hs
    obtain ⟨q', hq', -, -, hkeep⟩ := hstep.keeps hw.filed id q hq
    rw [state?_of_some hq', hkeep hover]

/-- A request is completed at the moment at which its handle is let go of, unless it has timed out
before. -/
theorem Kept.completes (h : Kept past d) (a : Action) (id : RequestId) :
    (d.broker.state? id ≠ some .completed ∧ (d.act a).2.broker.state? id = some .completed) ↔
      d.LetsGo id a ∧ d.broker.state? id ≠ some .timedOut := by
  have hnext := h.act a
  rw [hnext.completed_iff, Ne, h.completed_iff, ← h.1.closed_mem_iff, List.mem_append]
  constructor
  · rintro ⟨hbefore, hclosed, hafter⟩
    have htime : d.broker.state? id ≠ some .timedOut := fun ht => hafter (h.stays a ht rfl)
    exact ⟨hclosed.resolve_right fun hpast => hbefore ⟨hpast, htime⟩, htime⟩
  · rintro ⟨hclosed, htime⟩
    have hfresh : .closed id ∉ past := by
      have hbalance := hnext.1.balance id
      have hannounced := hnext.announced_le_one id
      have hpos := List.count_pos_iff.mpr hclosed
      rw [List.count_append] at hbalance
      rw [← List.count_eq_zero]
      omega
    refine ⟨fun hpast => hfresh hpast.1, .inl hclosed, fun ht => htime ?_⟩
    rcases act_cases d a with hsame | hstep
    · rwa [hsame] at ht
    · exact hstep.state?_of_timedOut hclosed ht

theorem Kept.left (h : Kept past d) {handle : Handle} {t : Handles} {b : Broker}
    (hr : d.table.releaseControl d.broker handle = (true, t, b)) :
    b.session = none ∧ t.control = none ∧ t.pending = [] ∧ t.requests = d.table.requests ∧
      b.queue = d.broker.queue := by
  obtain ⟨hsound, w, hw⟩ := id h
  cases hc : d.table.controlSession? handle with
  | none =>
      rw [Handles.releaseControl_of_none hc] at hr
      cases hr
  | some session =>
      rw [Handles.releaseControl_of_some hc] at hr
      cases hr
      rw [Handles.controlSession?_eq_some_iff] at hc
      refine ⟨?_, rfl, rfl, rfl, ?_⟩
      · rw [session_closeAll, session_detach, hsound.session, hc]
        simp
      · refine (queue_closeAll fun r hr => ?_).trans (queue_detach _ _)
        -- a pending request was delivered, so it is not in the queue any more
        rw [queue_detach, hw.filed.mem_queue]
        rintro ⟨q, hq, hqueued⟩
        have hid := h.accounted r.request
        rw [state?_of_some hq, hqueued] at hid
        have hpos : 0 < d.pendingOf r.request := List.countP_pos_iff.mpr ⟨r, hr, by simp⟩
        exact absurd hid.2 (by omega)

/-- Who is in charge of what was announced, at every moment. -/
structure Attended (past : List Note) (d : Desk) : Prop where
  announced_once (id : RequestId) : past.count (.announced id) ≤ 1
  /-- It is pending, or open, or it was closed, and no two of these. -/
  place {id : RequestId} (h : .announced id ∈ past) :
    d.pendingOf id + d.openOf id + past.count (.closed id) = 1
  handle {id : RequestId} (h : d.openOf id = 1) :
    ∃! handle, ∃ r, d.table.requests.get? handle = some r ∧ r.request = id
  unknown {id : RequestId} (h : .announced id ∉ past) :
    d.pendingOf id = 0 ∧ d.openOf id = 0 ∧ .closed id ∉ past
  own {id : RequestId} {r : RequestHandle} (h : d.table.pending.get? id = some r) : r.request = id
  opens_iff (id : RequestId) : (d.table.openRequest id).isSome ↔ d.pendingOf id = 1
  pending_iff (id : RequestId) : d.pendingOf id = 1 ↔
    .announced id ∈ past ∧ past.countP (Note.opens id) = 0 ∧ .closed id ∉ past
  opened_once (id : RequestId) : past.countP (Note.opens id) ≤ 1
  closes_iff (a : Action) (id : RequestId) : .closed id ∈ (d.act a).1 ↔ d.LetsGo id a
  closed_once (id : RequestId) : past.count (.closed id) ≤ 1
  /-- A request that has timed out is over, and closing it makes no difference any more. -/
  completed_iff (id : RequestId) : d.broker.state? id = some .completed ↔
    .closed id ∈ past ∧ d.broker.state? id ≠ some .timedOut
  completes (a : Action) (id : RequestId) :
    (d.broker.state? id ≠ some .completed ∧ (d.act a).2.broker.state? id = some .completed) ↔
      d.LetsGo id a ∧ d.broker.state? id ≠ some .timedOut
  stays (a : Action) {id : RequestId} {state : RequestState}
    (hs : d.broker.state? id = some state) (hover : state.isTerminal = true) :
    (d.act a).2.broker.state? id = some state
  left {handle : Handle} {t : Handles} {b : Broker}
    (h : d.table.releaseControl d.broker handle = (true, t, b)) :
    b.session = none ∧ t.control = none ∧ t.pending = [] ∧ t.requests = d.table.requests ∧
      b.queue = d.broker.queue
  detached (h : d.table.control = none) : d.broker.session = none ∧ d.table.pending = []
  /-- With all handles released, whatever is in flight, and whatever somebody waits for, is there
  for the next helper. -/
  queued (hc : d.table.control = none) (ho : d.table.requests = []) :
    (∀ p id, d.broker.inFlight.get? p = some id → id ∈ d.broker.queue) ∧
    ∀ f ∈ d.fetches, f.progress.isOver = false → d.broker.outcome? f.request = none →
      f.request ∈ d.broker.queue

theorem Kept.attended (h : Kept past d) : Attended past d where
  announced_once := h.announced_le_one
  place {id} hid := by
    have hpos := List.count_pos_iff.mpr hid
    have hone := h.announced_le_one id
    have hbalance := h.1.balance id
    omega
  handle := h.1.existsUnique_handle
  unknown {id} hid := by
    have hnone := List.count_eq_zero.mpr hid
    have hbalance := h.1.balance id
    rw [← List.count_eq_zero]
    omega
  own := h.1.request_of_get?
  opens_iff id := by
    have hone := h.announced_le_one id
    have hbalance := h.1.balance id
    rw [Handles.isSome_openRequest, ← h.1.pendingOf_pos_iff]
    omega
  pending_iff := h.pending_iff
  opened_once id := by
    have hone := h.announced_le_one id
    have honce := h.1.once id
    omega
  closes_iff a _ := h.1.closed_mem_iff a
  closed_once id := by
    have hone := h.announced_le_one id
    have hbalance := h.1.balance id
    omega
  completed_iff := h.completed_iff
  completes := h.completes
  stays a _ _ hs hover := h.stays a hs hover
  left := h.left
  detached hc := ⟨by rw [h.1.session, hc]; rfl, h.1.unattended hc⟩
  queued hc ho := by
    have hnone (id : RequestId) : d.pendingOf id + d.openOf id = 0 := by
      rw [pendingOf, openOf, h.1.unattended hc, ho]
      rfl
    have hlive {id : RequestId} {q : Request} (hq : d.broker.request? id = some q)
        (hs : q.state.isTerminal = false) : id ∈ d.broker.queue :=
      (h.live hq hs).resolve_right (by rw [hnone]; exact Nat.zero_ne_one)
    obtain ⟨-, w, hw⟩ := h
    refine ⟨fun p id hp => ?_, fun f hf _ hwait => ?_⟩
    · obtain ⟨q, hq, -, hs⟩ := (hw.filed.inFlight_iff p id).mp hp
      exact hlive hq hs
    · rw [← hw.fetches] at hf
      obtain ⟨k, hk⟩ := List.mem_iff_getElem?.mp hf
      obtain ⟨q, hq, -⟩ := hw.reachable.custody.fetch hk
      rw [hw.broker] at hq
      exact hlive hq ((outcome?_eq_none_iff hq).mp hwait)

theorem attended_of_run (timeout : Option Nat) (now : Nat) (actions : List Action) :
    Attended ((start timeout now).run [] actions).1 ((start timeout now).run [] actions).2 :=
  ((kept_start timeout now).run actions).attended

-- The first helper goes away with one request open and one pending, and closes the open one late.
example : ((start none 0).run [] [.client (.fetch World.pathA), .attachControl, .readControl 1,
    .readControl 1, .openRequest 2, .openRequest 2, .releaseControl 1, .attachControl,
    .readControl 1, .releaseRequest 2]).1 =
    [.closed 2, .closed 1, .opened 2 2, .announced 1, .announced 2] := by decide

end Desk
end OnDemandFs
