import OnDemandFs.Proofs.Broker.Channels
import OnDemandFs.Proofs.Broker.Taken
import OnDemandFs.Proofs.Kernel.Ledger

/-!
# Handles keep to themselves

A table of handles has a broker behind it that others use as well. Nobody else ever has the session
of the control file (`Seats`), and no request is in two places of the table (`Sorted`), since the
broker hands out each of them once. So a call that is made on one handle leaves every other one as
it is, at the broker too (`Undisturbed`); only releasing the control file closes what is pending
(`Fares`).
-/
namespace OnDemandFs
open Broker TableCall

variable {t u : Handles} {b c : Broker} {w v : World} {now : Nat} {x : Option Handle}
  {notes past : List Note} {h : Handle} {id : RequestId}

theorem TableCall.Step.filed (hs : TableCall.Step t b now x notes u c) (hf : b.Filed) :
    c.Filed := by
  cases hs with
  | insertFile | insertDirectory | openRequest | readRequest | releaseFile | releaseDirectory =>
      exact hf
  | attachControl ha => exact (hf.admits ha).filed
  | deliver ht => exact hf.takeHandle ht
  | releaseControl => exact (hf.detach _).closeAll _
  | releaseRequest => exact hf.close _

/-! ### Who is the helper -/

/-- The session of the control file is on, and nobody else has it. -/
structure Seats (t : Handles) (w : World) : Prop where
  control {file : ControlFile} (hc : t.control = some file) : w.broker.session = some file.session
  channel {k : Nat} {session : SessionId} (hk : w.channel? k = some session) :
    session ≤ w.broker.sessions
  other {k : Nat} {session : SessionId} {file : ControlFile} (hk : w.channel? k = some session)
    (hc : t.control = some file) : session ≠ file.session

namespace Seats

theorem isSeated (hseats : Seats t w) : IsSeated t w.broker := by
  intro hfree
  cases hc : t.control with
  | none => rfl
  | some file =>
      rw [hseats.control hc] at hfree
      cases hfree

/-- Somebody else attaches while the control file is closed. -/
theorem attach (hseats : Seats t w) (hfree : w.broker.session = none)
    (hn : v.broker.sessions = w.broker.sessions + 1)
    (hchannels : v.channels = w.channels ++ [some (w.broker.sessions + 1)]) : Seats t v := by
  have hclosed := hseats.isSeated hfree
  refine ⟨fun hc => ?_, fun hk => ?_, fun _ hc => ?_⟩
  · rw [hclosed] at hc
    cases hc
  · rw [World.channel?_concat hchannels] at hk
    split_ifs at hk
    · cases hk
      exact Nat.le_of_eq hn.symm
    · rw [hn]
      exact Nat.le_succ_of_le (hseats.channel hk)
  · rw [hclosed] at hc
    cases hc

/-- Somebody else lets go of a session, which is not that of the control file. -/
theorem detach (hseats : Seats t w) {k : Nat} {session : SessionId}
    (hk : w.channel? k = some session) (hb : v.broker = w.broker.detach session)
    (hold : ∀ j d, v.channel? j = some d → w.channel? j = some d) : Seats t v where
  control hc := by
    have hon := hseats.control hc
    have hne : w.broker.session ≠ some session := by
      rw [hon]
      exact fun heq => hseats.other hk hc (Option.some.inj heq).symm
    rw [hb, detach_of_ne hne, hon]
  channel hj := by
    rw [hb, detach_eq]
    exact hseats.channel (hold _ _ hj)
  other hj hc := hseats.other (hold _ _ hj) hc

theorem sameSeat (hseats : Seats t w) (hseat : SameSeat w.broker v.broker)
    (hcontrol : u.control = t.control) (hchannels : v.channels = w.channels) : Seats u v where
  control hc := by
    rw [hseat.session]
    exact hseats.control (hcontrol ▸ hc)
  channel hk := by
    rw [hseat.sessions]
    rw [World.channel?, hchannels] at hk
    exact hseats.channel hk
  other hk hc := by
    rw [World.channel?, hchannels] at hk
    exact hseats.other hk (hcontrol ▸ hc)

theorem others (hseats : Seats t w) {a : Action} {r : Broker.Reply} (hs : World.Step w a r v) :
    Seats t v := by
  by_cases ha : a.isSeating = true
  · cases hs with
    | attachFirst hfree => exact hseats.attach hfree (by simp [openSession]) rfl
    | attachAgain hfree => exact hseats.attach hfree rfl rfl
    | attachRefused => exact hseats
    | detach hk => exact hseats.detach hk rfl fun _ _ hj => hj
    | @drop k session hk =>
        refine hseats.detach hk rfl fun j d hj => ?_
        rw [World.channel?_set_none (w := w) rfl] at hj
        split_ifs at hj
        exact hj
    | _ => cases ha
  · obtain ⟨hseat, hchannels, -⟩ := hs.sameSeat (by simpa using ha)
    exact hseats.sameSeat hseat rfl hchannels

theorem step (hseats : Seats t w) (hf : w.broker.Filed)
    (hs : TableCall.Step t w.broker now x notes u c) : Seats u { w with broker := c } := by
  cases hs with
  | insertFile | insertDirectory | openRequest | readRequest | releaseFile | releaseDirectory =>
      exact hseats.sameSeat ⟨rfl, rfl, rfl⟩ rfl rfl
  | @attachControl session _ ha =>
      have hnew := hf.admits ha
      refine ⟨fun hc => ?_, fun hk => ?_, fun hk hc => ?_⟩
      · cases hc
        exact hnew.seated
      · change _ ≤ c.sessions
        rw [hnew.sessions, hnew.next]
        exact Nat.le_succ_of_le (hseats.channel hk)
      · cases hc
        rw [hnew.next]
        exact Nat.ne_of_lt (Nat.lt_succ_of_le (hseats.channel hk))
  | deliver ht =>
      obtain ⟨q, hq, -, rfl⟩ := hf.of_takeHandle_ok ht
      exact hseats.sameSeat ⟨rfl, rfl, rfl⟩ rfl rfl
  | releaseControl =>
      refine ⟨nofun, fun hk => ?_, nofun⟩
      change _ ≤ (closeAll _ _).sessions
      rw [(SameSeat.closeAll _ _).sessions, detach_eq]
      exact hseats.channel hk
  | releaseRequest => exact hseats.sameSeat (.close _ _) rfl rfl

end Seats

/-! ### Where the requests are -/

/-- What is pending or open was taken, and is in no other place of the table. -/
structure Sorted (t : Handles) (b : Broker) : Prop where
  own {row : RequestId × RequestHandle} (hrow : row ∈ t.pending) : row.2.request = row.1
  pending {row : RequestId × RequestHandle} (hrow : row ∈ t.pending) : b.IsTaken row.1
  opened {h : Handle} {r : RequestHandle} (hr : t.requests.get? h = some r) : b.IsTaken r.request
  once {h g : Handle} {r s : RequestHandle} (hr : t.requests.get? h = some r)
    (hs : t.requests.get? g = some s) (heq : r.request = s.request) : h = g
  apart {row : RequestId × RequestHandle} {h : Handle} {r : RequestHandle}
    (hrow : row ∈ t.pending) (hr : t.requests.get? h = some r) : r.request ≠ row.1

namespace Sorted

/-- Nobody touches the requests of the table. -/
theorem advance (hsorted : Sorted t b) (hadvance : Advances b c) (hp : u.pending = t.pending)
    (hr : u.requests = t.requests) : Sorted u c where
  own hrow := hsorted.own (hp ▸ hrow)
  pending hrow := hadvance _ (hsorted.pending (hp ▸ hrow))
  opened ho := hadvance _ (hsorted.opened (hr ▸ ho))
  once ho hs := hsorted.once (hr ▸ ho) (hr ▸ hs)
  apart hrow ho := hsorted.apart (hp ▸ hrow) (hr ▸ ho)

/-- Rows may go. -/
theorem restrict (hsorted : Sorted t b) (hadvance : Advances b c)
    (hp : ∀ row ∈ u.pending, row ∈ t.pending)
    (hr : ∀ h r, u.requests.get? h = some r → t.requests.get? h = some r) : Sorted u c where
  own hrow := hsorted.own (hp _ hrow)
  pending hrow := hadvance _ (hsorted.pending (hp _ hrow))
  opened ho := hadvance _ (hsorted.opened (hr _ _ ho))
  once ho hs := hsorted.once (hr _ _ ho) (hr _ _ hs)
  apart hrow ho := hsorted.apart (hp _ hrow) (hr _ _ ho)

theorem deliver (hsorted : Sorted t b) {r : RequestHandle} {q : Request}
    (hq : b.request? r.request = some q) (hqueued : q.state = .queued) :
    Sorted { t with pending := t.pending.set r.request r } (b.deliver r.request) where
  own hrow := by
    rcases Table.mem_of_mem_set hrow with hold | rfl
    · exact hsorted.own hold
    · rfl
  pending hrow := by
    rcases Table.mem_of_mem_set hrow with hold | rfl
    · exact Advances.deliver hq _ (hsorted.pending hold)
    · exact ⟨.delivered, state?_of_some ((request?_deliver hq _).trans (if_pos rfl)), nofun⟩
  opened ho := Advances.deliver hq _ (hsorted.opened ho)
  once := hsorted.once
  apart hrow ho := by
    rcases Table.mem_of_mem_set hrow with hold | rfl
    · exact hsorted.apart hold ho
    · -- what is open was taken before
      intro heq
      exact not_isTaken_of_queued hq hqueued (heq.subst (hsorted.opened ho))

theorem openRequest (hsorted : Sorted t b) {r : RequestHandle} (hp : t.pending.get? id = some r) :
    Sorted
      { t with
        last := t.last + 1
        pending := t.pending.erase id
        requests := t.requests.set (t.last + 1) r } b := by
  have hmem := Table.mem_of_get? hp
  have hid : r.request = id := hsorted.own hmem
  have hopen {h : Handle} {s : RequestHandle}
      (ho : (t.requests.set (t.last + 1) r).get? h = some s) :
      (h = t.last + 1 ∧ s = r) ∨ t.requests.get? h = some s := by
    rw [Table.get?_set] at ho
    split_ifs at ho with heq
    · exact .inl ⟨heq, (Option.some.inj ho).symm⟩
    · exact .inr ho
  refine ⟨fun hrow => hsorted.own (List.mem_of_mem_filter hrow),
    fun hrow => hsorted.pending (List.mem_of_mem_filter hrow), fun ho => ?_, fun ho hs heq => ?_,
    fun hrow ho => ?_⟩
  · rcases hopen ho with ⟨-, rfl⟩ | hold
    · exact hid ▸ hsorted.pending hmem
    · exact hsorted.opened hold
  · rcases hopen ho with ⟨rfl, hnew⟩ | hold <;> rcases hopen hs with ⟨rfl, hnew'⟩ | hold'
    · rfl
    · exact absurd (heq.symm.trans (hnew ▸ hid)) (hsorted.apart hmem hold')
    · exact absurd (heq.trans (hnew' ▸ hid)) (hsorted.apart hmem hold)
    · exact hsorted.once hold hold' heq
  · rcases hopen ho with ⟨-, rfl⟩ | hold
    · obtain ⟨-, hne⟩ := List.mem_filter.mp hrow
      exact fun heq => of_decide_eq_true hne (heq.symm.trans hid)
    · exact hsorted.apart (List.mem_of_mem_filter hrow) hold

theorem readRequest (hsorted : Sorted t b) {g : Handle} {r : RequestHandle}
    (hr : t.requests.get? g = some r) :
    Sorted { t with requests := t.requests.set g r.read.2 } b := by
  have hopen {h : Handle} {s : RequestHandle} (ho : (t.requests.set g r.read.2).get? h = some s) :
      ∃ s', t.requests.get? h = some s' ∧ s'.request = s.request := by
    rw [Table.get?_set] at ho
    split_ifs at ho with heq
    · cases ho
      exact ⟨r, heq ▸ hr, r.request_read.symm⟩
    · exact ⟨s, ho, rfl⟩
  refine ⟨hsorted.own, hsorted.pending, fun ho => ?_, fun ho hs heq => ?_, fun hrow ho => ?_⟩
  · obtain ⟨s', ho', hsame⟩ := hopen ho
    exact hsame ▸ hsorted.opened ho'
  · obtain ⟨r', ho', hr'⟩ := hopen ho
    obtain ⟨s', hs', hs''⟩ := hopen hs
    exact hsorted.once ho' hs' (hr'.trans (heq.trans hs''.symm))
  · obtain ⟨s', ho', hsame⟩ := hopen ho
    exact hsame ▸ hsorted.apart hrow ho'

theorem pending_get? (hsorted : Sorted t b) {r : RequestHandle} (hp : t.pending.get? id = some r) :
    r.request = id :=
  hsorted.own (Table.mem_of_get? hp)

theorem step (hsorted : Sorted t b) (hf : b.Filed) (hs : TableCall.Step t b now x notes u c) :
    Sorted u c := by
  cases hs with
  | insertFile | insertDirectory | releaseFile | releaseDirectory =>
      exact hsorted.advance (.of_eq fun _ => rfl) rfl rfl
  | attachControl ha => exact hsorted.advance (.of_grows (hf.admits ha).grows) rfl rfl
  | deliver ht =>
      obtain ⟨q, hq, hqueued, rfl⟩ := hf.of_takeHandle_ok ht
      exact hsorted.deliver hq hqueued
  | openRequest hp => exact hsorted.openRequest hp
  | readRequest hr => exact hsorted.readRequest hr
  | releaseControl =>
      refine hsorted.restrict (fun id hid => ?_) nofun fun _ _ => id
      exact Advances.closeAll _ _ id (hid.congr (request?_detach _ _ id))
  | @releaseRequest g r hr =>
      refine hsorted.restrict (.close _ _) (fun _ => id) fun h s hs => ?_
      rw [Table.get?_erase] at hs
      split_ifs at hs
      exact hs

end Sorted

/-! ### What becomes of the others -/

/-- Nothing happens to what a number stands for: not to the row, not to the request behind it, and
the helper stays the helper. -/
structure Undisturbed (t : Handles) (b : Broker) (u : Handles) (c : Broker) (h : Handle) :
    Prop where
  row : Handles.SameRow t u h
  request {r : RequestHandle} (hr : t.requests.get? h = some r) :
    c.request? r.request = b.request? r.request
  helper {session : SessionId} (hc : t.controlSession? h = some session) : c.session = some session

theorem Undisturbed.refl (hseats : Seats t w) (h : Handle) :
    Undisturbed t w.broker t w.broker h where
  row := .refl t h
  request _ := rfl
  helper hc := hseats.control (Handles.controlSession?_eq_some_iff.mp hc)

/-- What becomes of a pending request: it waits on, or is opened under a new number, or the control
file is released and it is closed. -/
inductive Fares (t : Handles) (b : Broker) (notes : List Note) (u : Handles) (c : Broker)
    (id : RequestId) (r : RequestHandle) : Prop
  | waits (hp : u.pending.get? id = some r) (hb : c.request? id = b.request? id)
  | opened (hnotes : notes = [.issued (t.last + 1) (.request id r.path)])
      (hp : u.pending.get? id = none) (hr : u.requests.get? (t.last + 1) = some r) (hb : c = b)
  | closed {h : Handle} {session : SessionId} (hc : t.controlSession? h = some session)
      (hnotes : notes = [.released h]) (hp : u.pending = [])
      (hb : c.request? id = (b.request? id).map (·.finish .completed))

/-- A call is about one number, and the others stay as they are. -/
theorem Seats.undisturbed (hseats : Seats t w) (hsorted : Sorted t w.broker) (hf : w.broker.Filed)
    (hs : TableCall.Step t w.broker now x notes u c) (hx : x ≠ some h) :
    Undisturbed t w.broker u c h := by
  have hrow := hs.sameRow hseats.isSeated hx
  have hhelper {session : SessionId} (hc : t.controlSession? h = some session) :
      w.broker.session = some session :=
    hseats.control (Handles.controlSession?_eq_some_iff.mp hc)
  cases hs with
  | insertFile | insertDirectory | openRequest | readRequest | releaseFile | releaseDirectory =>
      exact ⟨hrow, fun _ => rfl, hhelper⟩
  | attachControl ha =>
      have hnew := hf.admits ha
      refine ⟨hrow, fun hr => hnew.request?_eq (hsorted.opened hr), fun hc => ?_⟩
      rw [hnew.free] at hhelper
      cases hhelper hc
  | deliver ht =>
      obtain ⟨q, hq, hqueued, rfl⟩ := hf.of_takeHandle_ok ht
      refine ⟨hrow, fun hr => ?_, hhelper⟩
      rw [request?_deliver hq, if_neg]
      intro heq
      exact not_isTaken_of_queued hq hqueued (heq.subst (hsorted.opened hr))
  | @releaseControl file hfile =>
      refine ⟨hrow, fun {r} hr => ?_, fun hc => ?_⟩
      · rw [request?_closeAll, if_neg, request?_detach]
        rintro ⟨s, hs, heq⟩
        obtain ⟨row, hmem, rfl⟩ := List.mem_map.mp hs
        exact hsorted.apart hmem hr (heq.symm.trans (hsorted.own hmem))
      · rw [Handles.controlSession?_eq_some_iff, hfile] at hc
        cases hc
        exact absurd rfl hx
  | @releaseRequest g r hr =>
      refine ⟨hrow, fun hr' => ?_, fun hc => ?_⟩
      · refine request?_close_of_ne fun heq => hx ?_
        rw [hsorted.once hr' hr heq]
      · rw [(SameSeat.close _ _).session, hhelper hc]

theorem Sorted.fares (hsorted : Sorted t b) (hf : b.Filed)
    (hs : TableCall.Step t b now x notes u c) {r : RequestHandle}
    (hp : t.pending.get? id = some r) : Fares t b notes u c id r := by
  have hid := hsorted.pending_get? hp
  have hmem := Table.mem_of_get? hp
  cases hs with
  | insertFile | insertDirectory | readRequest | releaseFile | releaseDirectory =>
      exact .waits hp rfl
  | attachControl ha => exact .waits hp ((hf.admits ha).request?_eq (hsorted.pending hmem))
  | @deliver channel s _ ht =>
      obtain ⟨q, hq, hqueued, rfl⟩ := hf.of_takeHandle_ok ht
      have hne : id ≠ s.request := by
        rintro rfl
        exact not_isTaken_of_queued hq hqueued (hsorted.pending hmem)
      exact .waits ((Table.get?_set_of_ne _ _ hne).trans hp)
        ((request?_deliver hq id).trans (if_neg hne))
  | @openRequest id' s hs =>
      by_cases heq : id = id'
      · subst heq
        obtain rfl : r = s := Option.some.inj (hp.symm.trans hs)
        exact .opened (by rw [hid]) (Table.get?_erase_self _ _) (Table.get?_set_self _ _ _) rfl
      · exact .waits ((Table.get?_erase_of_ne _ heq).trans hp) rfl
  | @releaseControl file hfile =>
      refine .closed (Handles.controlSession?_eq_some_iff.mpr hfile) rfl rfl ?_
      rw [request?_closeAll, if_pos ⟨r, List.mem_map_of_mem hmem, hid⟩, request?_detach]
  | releaseRequest hr =>
      exact .waits hp (request?_close_of_ne fun heq => hsorted.apart hmem hr heq.symm)

end OnDemandFs
