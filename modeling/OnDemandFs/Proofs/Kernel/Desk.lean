import OnDemandFs.Proofs.Kernel.Rows

/-!
# A helper at the table of handles

A helper that comes through the kernel has nothing but handles: it opens the control file, reads
from it which requests there are, opens these one by one and releases them when it is done. A `Desk`
is a table of handles with the broker behind it and the clients in front of it. Calls of the table
are taken whole, and the actions of the clients come between them; a read that has to wait is one
that reads again. A call that fails changes nothing.

What was announced, opened and closed is noted, and what a statement says about the past it says
about the notes.
-/
namespace OnDemandFs

/-- Clients ask and wait; they do not attach, and have no handles. -/
def Broker.Action.isClient : Broker.Action → Bool
  | .fetch _ | .wake _ | .giveUp _ | .expire _ | .pass _ => true
  | .attach | .detach _ | .drop _ | .read _ | .close _ => false

structure Desk where
  table : Handles := {}
  broker : Broker
  now : Nat
  fetches : List Broker.Fetch := []

namespace Desk

inductive Note where
  | announced (id : RequestId)
  | opened (id : RequestId) (handle : Handle)
  /-- The handle of the request was let go of. -/
  | closed (id : RequestId)
deriving DecidableEq, Repr

inductive Action where
  | client (a : Broker.Action)
  | attachControl
  /-- Whoever reads has the channel from when the control file was open, which may be long ago. -/
  | readControl (channel : SessionId)
  | openRequest (id : RequestId)
  | readRequest (handle : Handle)
  | releaseRequest (handle : Handle)
  | releaseControl (handle : Handle)
  /-- The table serves files and directories as well. -/
  | insertFile (f : Opened)
  | releaseFile (handle : Handle)
  | insertDirectory (slots : List Slot)
  | releaseDirectory (handle : Handle)
deriving Repr

def start (timeout : Option Nat) (now : Nat) : Desk := { broker := { timeout }, now }

/-- What the clients see. -/
def world (d : Desk) : Broker.World := { broker := d.broker, now := d.now, fetches := d.fetches }

/-- Take an action, with what is to be noted of it. -/
def act (d : Desk) : Action → List Note × Desk
  | .client a =>
    match a.isClient, d.world.perform a with
    | true, some (_, w) => ([], { d with broker := w.broker, now := w.now, fetches := w.fetches })
    | _, _ => ([], d)
  | .attachControl =>
    match d.table.attachControl d.broker d.now with
    | .ok (_, table, broker) => ([], { d with table, broker })
    | .error _ => ([], d)
  | .readControl channel =>
    match d.broker.takeHandle channel with
    | .ok (some r, broker) =>
      ([.announced (d.table.deliver r).1], { d with table := (d.table.deliver r).2, broker })
    | .ok (none, _) | .error _ => ([], d)
  | .openRequest id =>
    match d.table.openRequest id with
    | some (handle, table) => ([.opened id handle], { d with table })
    | none => ([], d)
  | .readRequest handle =>
    match d.table.readRequest handle with
    | some (_, table) => ([], { d with table })
    | none => ([], d)
  | .releaseRequest handle =>
    match d.table.releaseRequest d.broker handle with
    | (true, table, broker) =>
      (((d.table.requests.get? handle).toList.map fun r => .closed r.request),
        { d with table, broker })
    | (false, _, _) => ([], d)
  | .releaseControl handle =>
    match d.table.releaseControl d.broker handle with
    | (true, table, broker) =>
      (d.table.pending.values.map fun r => .closed r.request, { d with table, broker })
    | (false, _, _) => ([], d)
  | .insertFile f => ([], { d with table := (d.table.insertFile f).2.2 })
  | .releaseFile handle => ([], { d with table := (d.table.releaseFile handle).2 })
  | .insertDirectory slots => ([], { d with table := (d.table.insertDirectory slots).2 })
  | .releaseDirectory handle => ([], { d with table := (d.table.releaseDirectory handle).2 })

/-- Take actions one after the other; the notes are latest first. -/
def run (d : Desk) (past : List Note) : List Action → List Note × Desk
  | [] => (past, d)
  | a :: rest => run (d.act a).2 ((d.act a).1 ++ past) rest

/-! ### What an action does -/

/-- The table is used for something else than requests. -/
structure Aside (t u : Handles) : Prop where
  control : u.control = t.control
  pending : u.pending = t.pending
  requests : u.requests = t.requests
  last : t.last ≤ u.last

/-- Each action that does something, by its effect. -/
inductive Step (d : Desk) : List Note → Desk → Prop
  | client {a : Broker.Action} {r : Broker.Reply} {w : Broker.World} (ha : a.isClient = true)
      (h : d.world.perform a = some (r, w)) :
      Step d [] { d with broker := w.broker, now := w.now, fetches := w.fetches }
  | attachControl {session : SessionId} {broker : Broker}
      (h : d.broker.attach d.now = .ok (session, broker)) :
      Step d [] { d with
        broker
        table := { d.table with
          last := d.table.last + 1
          control := some ⟨d.table.last + 1, session⟩ } }
  | readControl {channel : SessionId} {r : RequestHandle} {broker : Broker}
      (hs : d.broker.session = some channel)
      (h : d.broker.takeHandle channel = .ok (some r, broker)) :
      Step d [.announced r.request] { d with
        broker
        table := { d.table with pending := d.table.pending.set r.request r } }
  | openRequest {id : RequestId} {r : RequestHandle} (h : d.table.pending.get? id = some r) :
      Step d [.opened id (d.table.last + 1)] { d with
        table := { d.table with
          last := d.table.last + 1
          pending := d.table.pending.erase id
          requests := d.table.requests.set (d.table.last + 1) r } }
  | readRequest {handle : Handle} {r : RequestHandle} (h : d.table.requests.get? handle = some r) :
      Step d [] { d with
        table := { d.table with requests := d.table.requests.set handle r.read.2 } }
  | releaseRequest {handle : Handle} {r : RequestHandle}
      (h : d.table.requests.get? handle = some r) :
      Step d [.closed r.request] { d with
        broker := d.broker.close r.request
        table := { d.table with requests := d.table.requests.erase handle } }
  | releaseControl {c : ControlFile} (hc : d.table.control = some c) :
      Step d (d.table.pending.values.map fun r => .closed r.request) { d with
        broker := (d.broker.detach c.session).closeAll d.table.pending.values
        table := { d.table with control := none, pending := [] } }
  | aside {table : Handles} (h : Aside d.table table) : Step d [] { d with table }

variable {d e : Desk} {notes past : List Note} {id : RequestId}

theorem act_cases (d : Desk) (a : Action) :
    d.act a = ([], d) ∨ Step d (d.act a).1 (d.act a).2 := by
  cases a with
  | client a =>
      simp only [act]
      cases ha : a.isClient with
      | false => exact .inl rfl
      | true =>
          cases h : d.world.perform a with
          | none => exact .inl rfl
          | some answer => exact .inr (.client ha h)
  | attachControl =>
      rw [act]
      cases h : d.broker.attach d.now with
      | error fault =>
          rw [Handles.attachControl_of_error h]
          exact .inl rfl
      | ok attached =>
          rw [Handles.attachControl_of_ok h]
          exact .inr (.attachControl h)
  | readControl channel =>
      simp only [act]
      by_cases hs : d.broker.session = some channel
      · cases h : d.broker.takeHandle channel with
        | error fault => exact .inl rfl
        | ok taken =>
            obtain ⟨_ | r, broker⟩ := taken
            · exact .inl rfl
            · exact .inr (.readControl hs h)
      · rw [Broker.takeHandle_of_ne hs]
        exact .inl rfl
  | openRequest id =>
      rw [act]
      cases h : d.table.pending.get? id with
      | none =>
          rw [Handles.openRequest_of_none h]
          exact .inl rfl
      | some r =>
          rw [Handles.openRequest_of_some h]
          exact .inr (.openRequest h)
  | readRequest handle =>
      rw [act]
      cases h : d.table.requests.get? handle with
      | none =>
          rw [Handles.readRequest_of_none h]
          exact .inl rfl
      | some r =>
          rw [Handles.readRequest_of_some h]
          exact .inr (.readRequest h)
  | releaseRequest handle =>
      rw [act]
      cases h : d.table.requests.get? handle with
      | none =>
          rw [Handles.releaseRequest_of_none h]
          exact .inl rfl
      | some r =>
          rw [Handles.releaseRequest_of_some h]
          exact .inr (.releaseRequest h)
  | releaseControl handle =>
      rw [act]
      cases hc : d.table.controlSession? handle with
      | none =>
          rw [Handles.releaseControl_of_none hc]
          exact .inl rfl
      | some session =>
          rw [Handles.releaseControl_of_some hc]
          exact .inr (.releaseControl (Handles.controlSession?_eq_some_iff.mp hc))
  | insertFile f => exact .inr (.aside ⟨rfl, rfl, rfl, Nat.le_succ _⟩)
  | releaseFile handle => exact .inr (.aside ⟨rfl, rfl, rfl, Nat.le_refl _⟩)
  | insertDirectory slots => exact .inr (.aside ⟨rfl, rfl, rfl, Nat.le_succ _⟩)
  | releaseDirectory handle => exact .inr (.aside ⟨rfl, rfl, rfl, Nat.le_refl _⟩)

/-! ### What is held -/

def Note.opens (id : RequestId) : Note → Bool
  | .opened id' _ => id' = id
  | .announced _ | .closed _ => false

/-- How often a request is pending, and under how many handles it is open. -/
def pendingOf (d : Desk) (id : RequestId) : Nat :=
  d.table.pending.values.countP fun r => r.request = id

def openOf (d : Desk) (id : RequestId) : Nat :=
  d.table.requests.values.countP fun r => r.request = id

/-- The table is in order, and what was announced is accounted for. -/
structure Sound (past : List Note) (d : Desk) : Prop where
  session : d.broker.session = d.table.control.map (·.session)
  own : ∀ row ∈ d.table.pending, row.2.request = row.1
  pendingKeys : d.table.pending.keys.Nodup
  requestKeys : d.table.requests.keys.Nodup
  numbered : ∀ handle ∈ d.table.requests.keys, handle ≤ d.table.last
  unattended : d.table.control = none → d.table.pending = []
  balance : ∀ id,
    d.pendingOf id + d.openOf id + past.count (.closed id) = past.count (.announced id)
  opened : ∀ id, d.openOf id ≤ past.countP (Note.opens id)
  once : ∀ id, d.pendingOf id + past.countP (Note.opens id) ≤ past.count (.announced id)

theorem Sound.request_of_get? (h : Sound past d) {r : RequestHandle}
    (hr : d.table.pending.get? id = some r) : r.request = id :=
  h.own _ (Table.mem_of_get? hr)

theorem Sound.pendingOf_pos_iff (h : Sound past d) :
    0 < d.pendingOf id ↔ (d.table.pending.get? id).isSome := by
  constructor
  · intro hpos
    obtain ⟨r, hr, hid⟩ := List.countP_pos_iff.mp hpos
    obtain ⟨⟨key, r'⟩, hrow, rfl⟩ := List.mem_map.mp hr
    obtain rfl : key = id := (h.own _ hrow).symm.trans (of_decide_eq_true hid)
    rw [(Table.get?_eq_some_iff h.pendingKeys).mpr hrow]
    rfl
  · intro hsome
    obtain ⟨r, hr⟩ := Option.isSome_iff_exists.mp hsome
    exact List.countP_pos_iff.mpr ⟨r, List.mem_map.mpr ⟨_, Table.mem_of_get? hr, rfl⟩,
      decide_eq_true (h.request_of_get? hr)⟩

/-- Whoever is the helper, the broker may do something else meanwhile. -/
theorem Sound.client (h : Sound past d) {broker : Broker}
    (hsession : broker.session = d.broker.session)
    (now : Nat) (fetches : List Broker.Fetch) : Sound past { d with broker, now, fetches } :=
  ⟨hsession.trans h.session, h.own, h.pendingKeys, h.requestKeys, h.numbered, h.unattended,
    h.balance, h.opened, h.once⟩

theorem Sound.attachControl (h : Sound past d) {broker : Broker} {session : SessionId}
    (hsession : broker.session = some session) :
    Sound past { d with
      broker
      table := { d.table with
        last := d.table.last + 1
        control := some ⟨d.table.last + 1, session⟩ } } :=
  ⟨hsession, h.own, h.pendingKeys, h.requestKeys,
    fun handle hmem => Nat.le_succ_of_le (h.numbered handle hmem), nofun, h.balance, h.opened,
      h.once⟩

theorem Sound.aside (h : Sound past d) {table : Handles} (ha : Aside d.table table) :
    Sound past { d with table } := by
  refine ⟨?_, ?_, ?_, ?_, fun handle hmem => ?_, ?_, fun id => ?_, fun id => ?_, fun id => ?_⟩
  all_goals simp only [pendingOf, openOf, ha.control, ha.pending, ha.requests] at *
  · exact h.session
  · exact h.own
  · exact h.pendingKeys
  · exact h.requestKeys
  · exact Nat.le_trans (h.numbered handle hmem) ha.last
  · exact h.unattended
  · exact h.balance id
  · exact h.opened id
  · exact h.once id

theorem Sound.readControl (h : Sound past d) {channel : SessionId}
    (hs : d.broker.session = some channel) {r : RequestHandle}
    (hfresh : past.count (.announced r.request) = 0) {broker : Broker}
    (hsession : broker.session = d.broker.session) :
    Sound ([.announced r.request] ++ past) { d with
      broker
      table := { d.table with pending := d.table.pending.set r.request r } } := by
  have hnone : d.table.pending.get? r.request = none := by
    have honce := h.once r.request
    rw [← Option.not_isSome_iff_eq_none, ← h.pendingOf_pos_iff]
    omega
  have hmore (id : RequestId) : (d.table.pending.set r.request r).values.countP
      (fun r => r.request = id) = d.pendingOf id + if r.request = id then 1 else 0 := by
    rw [Table.countP_values_set_of_none h.pendingKeys hnone, pendingOf]
    simp only [decide_eq_true_eq]
  refine ⟨hsession.trans h.session, fun row hrow => ?_, Table.nodup_keys_set h.pendingKeys _ _,
    h.requestKeys, h.numbered, fun hcontrol => ?_, fun id => ?_, fun id => ?_, fun id => ?_⟩
  · rcases Table.mem_of_mem_set hrow with hold | rfl
    · exact h.own row hold
    · rfl
  · change d.table.control = none at hcontrol
    rw [h.session, hcontrol] at hs
    cases hs
  · have hbalance := h.balance id
    simp only [pendingOf, openOf, hmore, List.count_append] at hbalance ⊢
    by_cases hid : r.request = id <;> simp [hid] <;> omega
  · rw [List.countP_append]
    exact Nat.le_trans (h.opened id) (Nat.le_add_left _ _)
  · have honce := h.once id
    simp only [pendingOf, hmore, List.countP_append, List.count_append] at honce ⊢
    by_cases hid : r.request = id <;> simp [hid, Note.opens] <;> omega

theorem Sound.openRequest (h : Sound past d) {r : RequestHandle}
    (hpending : d.table.pending.get? id = some r) :
    Sound ([.opened id (d.table.last + 1)] ++ past) { d with
      table := { d.table with
        last := d.table.last + 1
        pending := d.table.pending.erase id
        requests := d.table.requests.set (d.table.last + 1) r } } := by
  have hown : r.request = id := h.request_of_get? hpending
  have hnone : d.table.requests.get? (d.table.last + 1) = none := by
    rw [Table.get?_eq_none_iff]
    intro hmem
    exact Nat.not_succ_le_self _ (h.numbered _ hmem)
  have hless (j : RequestId) : d.pendingOf j =
      (d.table.pending.erase id).values.countP (fun r => r.request = j) +
        if id = j then 1 else 0 := by
    rw [pendingOf, Table.countP_values_of_get? h.pendingKeys hpending, hown]
    simp only [decide_eq_true_eq]
  have hmore (j : RequestId) : (d.table.requests.set (d.table.last + 1) r).values.countP
      (fun r => r.request = j) = d.openOf j + if id = j then 1 else 0 := by
    rw [Table.countP_values_set_of_none h.requestKeys hnone, openOf, hown]
    simp only [decide_eq_true_eq]
  refine ⟨h.session, fun row hrow => h.own row (List.mem_of_mem_filter hrow),
    Table.nodup_keys_erase h.pendingKeys _, Table.nodup_keys_set h.requestKeys _ _,
    fun handle hmem => ?_, fun hcontrol => ?_, fun j => ?_, fun j => ?_, fun j => ?_⟩
  · rcases (Table.mem_keys_set _ _ _ _).mp hmem with hold | rfl
    · exact Nat.le_succ_of_le (h.numbered handle hold)
    · exact Nat.le_refl _
  · change d.table.pending.erase id = []
    rw [h.unattended hcontrol]
    rfl
  · have hbalance := h.balance j
    have hj := hless j
    simp only [pendingOf, openOf, hmore, List.count_append] at hbalance hj ⊢
    by_cases hid : id = j <;> simp [hid] at hj ⊢ <;> omega
  · have hopened := h.opened j
    simp only [openOf, hmore, List.countP_append] at hopened ⊢
    by_cases hid : id = j <;> simp [hid, Note.opens] <;> omega
  · have honce := h.once j
    have hj := hless j
    simp only [pendingOf, List.countP_append, List.count_append] at honce hj ⊢
    by_cases hid : id = j <;> simp [hid, Note.opens] at hj ⊢ <;> omega

theorem Sound.openOf_readRequest (h : Sound past d) {handle : Handle} {r : RequestHandle}
    (hopen : d.table.requests.get? handle = some r) (id : RequestId) :
    (d.table.requests.set handle r.read.2).values.countP (fun r => r.request = id) =
      d.openOf id := by
  rw [Table.countP_values_set h.requestKeys, openOf,
    Table.countP_values_of_get? h.requestKeys hopen, r.request_read]

theorem Sound.readRequest (h : Sound past d) {handle : Handle} {r : RequestHandle}
    (hopen : d.table.requests.get? handle = some r) :
    Sound past { d with
      table := { d.table with requests := d.table.requests.set handle r.read.2 } } := by
  have hsame := h.openOf_readRequest hopen
  refine ⟨h.session, h.own, h.pendingKeys, Table.nodup_keys_set h.requestKeys _ _,
    fun handle' hmem => ?_, h.unattended, fun id => ?_, fun id => ?_, h.once⟩
  · rcases (Table.mem_keys_set _ _ _ _).mp hmem with hold | rfl
    · exact h.numbered handle' hold
    · exact h.numbered _ (List.mem_map_of_mem (Table.mem_of_get? hopen))
  · have hbalance := h.balance id
    simp only [pendingOf, openOf, hsame] at hbalance ⊢
    exact hbalance
  · have hopened := h.opened id
    simp only [openOf, hsame] at hopened ⊢
    exact hopened

theorem Sound.releaseRequest (h : Sound past d) {handle : Handle} {r : RequestHandle}
    (hopen : d.table.requests.get? handle = some r) {broker : Broker}
    (hsession : broker.session = d.broker.session) :
    Sound ([.closed r.request] ++ past) { d with
      broker
      table := { d.table with requests := d.table.requests.erase handle } } := by
  have hless (id : RequestId) : d.openOf id =
      (d.table.requests.erase handle).values.countP (fun r => r.request = id) +
        if r.request = id then 1 else 0 := by
    rw [openOf, Table.countP_values_of_get? h.requestKeys hopen]
    simp only [decide_eq_true_eq]
  refine ⟨hsession.trans h.session, h.own, h.pendingKeys, Table.nodup_keys_erase h.requestKeys _,
    fun handle' hmem => ?_, h.unattended, fun id => ?_, fun id => ?_, fun id => ?_⟩
  · exact h.numbered handle' ((List.filter_sublist.map _).subset hmem)
  · have hbalance := h.balance id
    have hid := hless id
    simp only [pendingOf, openOf, List.count_append] at hbalance hid ⊢
    by_cases heq : r.request = id <;> simp [heq] at hid ⊢ <;> omega
  · have hopened := h.opened id
    have hid := hless id
    simp only [openOf, List.countP_append] at hopened hid ⊢
    omega
  · have honce := h.once id
    simp only [pendingOf, List.countP_append, List.count_append] at honce ⊢
    simp [Note.opens]
    omega

theorem count_closed (rs : List RequestHandle) (id : RequestId) :
    (rs.map fun r => Note.closed r.request).count (.closed id) =
      rs.countP fun r => r.request = id := by
  rw [List.count, List.countP_map]
  apply List.countP_congr
  simp

theorem count_announced (rs : List RequestHandle) (id : RequestId) :
    (rs.map fun r => Note.closed r.request).count (.announced id) = 0 :=
  List.count_eq_zero.mpr (by simp)

theorem Sound.releaseControl (h : Sound past d) {broker : Broker}
    (hsession : broker.session = none) :
    Sound ((d.table.pending.values.map fun r => .closed r.request) ++ past) { d with
      broker
      table := { d.table with control := none, pending := [] } } := by
  have hopens (id : RequestId) :
      (d.table.pending.values.map fun r => Note.closed r.request).countP (Note.opens id) = 0 := by
    rw [List.countP_map]
    exact List.countP_eq_zero.mpr (by simp [Note.opens])
  refine ⟨hsession, nofun, List.nodup_nil, h.requestKeys, h.numbered, fun _ => rfl, fun id => ?_,
    fun id => ?_, fun id => ?_⟩
  · have hbalance := h.balance id
    simp only [pendingOf, openOf, List.count_append, count_closed, count_announced] at hbalance ⊢
    simp [Table.values] at hbalance ⊢
    omega
  · have hopened := h.opened id
    simp only [List.countP_append, hopens]
    exact Nat.le_trans hopened (by omega)
  · have honce := h.once id
    simp only [pendingOf, List.countP_append, List.count_append, hopens, count_announced] at honce ⊢
    simp [Table.values] at honce ⊢
    omega

end Desk
end OnDemandFs
