import OnDemandFs.Proofs.Broker.Spoken
import OnDemandFs.Proofs.Kernel.Attended

/-!
# What a helper is told at the table of handles

A helper at the table of handles may ask how long a request is before it reads it, and reads it
under a handle of the table. All the time that the request is known the answer is the length of what
the handle yields. What is read under the handle, whatever happens in between, is what the handle of
the request yields, until it is released.
-/
namespace OnDemandFs
namespace Desk

open Broker

variable {d e : Desk} {notes past : List Note} {id : RequestId} {r : RequestHandle}
  {handle : Handle} {text : String}

/-! ### Whose handles these are -/

/-- Every handle is for the path of its request, and is not read before it is opened. -/
structure Voiced (d : Desk) : Prop where
  unread : ∀ row ∈ d.table.pending, row.2.sent = false
  pending : ∀ row ∈ d.table.pending, d.world.Holds row.2.request row.2.path
  opened : ∀ row ∈ d.table.requests, d.world.Holds row.2.request row.2.path

/-- What is taken from the queue is unread, and for the path of the request that it is for. -/
theorem fresh_of_takeHandle {b c : Broker} {session : SessionId}
    (ht : b.takeHandle session = .ok (some r, c)) :
    r.sent = false ∧ ∃ q, c.request? r.request = some q ∧ q.path = r.path := by
  unfold Broker.takeHandle at ht
  split at ht
  · split at ht
    · rename_i id b' _ q hq
      cases ht
      exact ⟨rfl, q, hq, rfl⟩
    · cases ht
  · cases ht
  · cases ht

theorem holds_of_keeps (hk : Keeps d.broker e.broker) {p : Path} (h : d.world.Holds id p) :
    e.world.Holds id p := by
  obtain ⟨q, hq, hp⟩ := h
  obtain ⟨q', hq', hp', -⟩ := hk id q hq
  exact ⟨q', hq', hp'.trans hp⟩

/-- Requests stay for their paths, so only new rows need a look. -/
theorem Voiced.keep (h : Voiced d) (hk : Keeps d.broker e.broker)
    (hpending : ∀ row ∈ e.table.pending, row ∈ d.table.pending ∨
      row.2.sent = false ∧ e.world.Holds row.2.request row.2.path)
    (hopened : ∀ row ∈ e.table.requests, row ∈ d.table.requests ∨
      d.world.Holds row.2.request row.2.path) : Voiced e where
  unread row hrow := (hpending row hrow).elim (h.unread row) (·.1)
  pending row hrow :=
    (hpending row hrow).elim (fun hold => holds_of_keeps hk (h.pending row hold)) (·.2)
  opened row hrow :=
    holds_of_keeps hk ((hopened row hrow).elim (h.opened row) id)

theorem Voiced.step (h : Voiced d) (hf : d.broker.Filed) (hs : Step d notes e) : Voiced e := by
  have hk := hs.keeps hf
  cases hs with
  | client => exact h.keep hk (fun _ => .inl) fun _ => .inl
  | attachControl => exact h.keep hk (fun _ => .inl) fun _ => .inl
  | @readControl channel r broker hs ht =>
      refine h.keep hk (fun row hrow => ?_) fun _ => .inl
      rcases Table.mem_of_mem_set hrow with hold | rfl
      · exact .inl hold
      · exact .inr (fresh_of_takeHandle ht)
  | @openRequest id r hr =>
      refine h.keep hk (fun row hrow => .inl (List.mem_of_mem_filter hrow)) fun row hrow => ?_
      rcases Table.mem_of_mem_set hrow with hold | rfl
      · exact .inl hold
      · exact .inr (h.pending (id, r) (Table.mem_of_get? hr))
  | @readRequest handle r hr =>
      refine h.keep hk (fun _ => .inl) fun row hrow => ?_
      rcases Table.mem_of_mem_set hrow with hold | rfl
      · exact .inl hold
      · rw [r.request_read, r.path_read]
        exact .inr (h.opened (handle, r) (Table.mem_of_get? hr))
  | releaseRequest =>
      exact h.keep hk (fun _ => .inl) fun row hrow => .inl (List.mem_of_mem_filter hrow)
  | releaseControl => exact h.keep hk nofun fun _ => .inl
  | aside ha =>
      refine h.keep hk (fun row hrow => .inl ?_) fun row hrow => .inl ?_
      · rwa [← ha.pending]
      · rwa [← ha.requests]

theorem voiced_start (timeout : Option Nat) (now : Nat) : Voiced (start timeout now) :=
  ⟨nofun, nofun, nofun⟩

theorem Voiced.run (h : Voiced d) (hkept : Kept past d) (actions : List Action) :
    Voiced (d.run past actions).2 := by
  induction actions generalizing past d with
  | nil => exact h
  | cons a rest ih =>
      refine ih ?_ (hkept.act a)
      rcases act_cases d a with hsame | hs
      · rw [hsame]
        exact h
      · obtain ⟨-, w, hw⟩ := hkept
        exact h.step hw.filed hs

/-! ### What is read under a handle -/

/-- What an action reads under a handle, if it does. -/
def heard? (d : Desk) (handle : Handle) : Action → Option Bytes
  | .readRequest handle' =>
    if handle' = handle then (d.table.readRequest handle).map (·.1) else none
  | _ => none

/-- What is read under a handle while the actions are taken, one after the other. -/
def readings (d : Desk) (handle : Handle) : List Action → List Bytes
  | [] => []
  | a :: rest => (d.heard? handle a).toList ++ (d.act a).2.readings handle rest

/-- How often the actions read under a handle before one of them releases it. -/
def reads (handle : Handle) : List Action → Nat
  | [] => 0
  | .readRequest handle' :: rest => reads handle rest + if handle' = handle then 1 else 0
  | .releaseRequest handle' :: rest => if handle' = handle then 0 else reads handle rest
  | _ :: rest => reads handle rest

theorem last_le_act (d : Desk) (a : Action) : d.table.last ≤ (d.act a).2.table.last := by
  rcases act_cases d a with hsame | hs
  · rw [hsame]
  · generalize (d.act a).1 = notes at hs
    generalize (d.act a).2 = e at hs ⊢
    cases hs with
    | attachControl | openRequest => exact Nat.le_succ _
    | aside ha => exact ha.last
    | client | readControl | readRequest | releaseRequest | releaseControl => exact Nat.le_refl _

/-- The row of a handle that was given out is touched by reading and by releasing only. -/
theorem get?_requests_act (hused : handle ≤ d.table.last) (a : Action)
    (hread : a ≠ .readRequest handle) (hrelease : a ≠ .releaseRequest handle) :
    (d.act a).2.table.requests.get? handle = d.table.requests.get? handle := by
  cases a with
  | client a =>
      simp only [act]
      split <;> rfl
  | attachControl =>
      rw [act]
      split
      · next hattach =>
          obtain ⟨session, -, -, rfl⟩ := Handles.attachControl_eq_ok_iff.mp hattach
          rfl
      · rfl
  | readControl channel =>
      simp only [act, Handles.deliver]
      split <;> rfl
  | openRequest id =>
      rw [act]
      split
      · next hopen =>
          obtain ⟨r, -, -, rfl⟩ := Handles.openRequest_eq_some_iff.mp hopen
          exact Table.get?_set_of_ne _ _ (Nat.ne_of_lt (Nat.lt_succ_of_le hused))
      · rfl
  | readRequest h =>
      rw [act]
      split
      · next hsome =>
          obtain ⟨r, -, -, rfl⟩ := Handles.readRequest_eq_some_iff.mp hsome
          exact Table.get?_set_of_ne _ _ fun hh => hread (hh ▸ rfl)
      · rfl
  | releaseRequest h =>
      rw [act]
      cases hr : d.table.requests.get? h with
      | none => rw [Handles.releaseRequest_of_none hr]
      | some r =>
          rw [Handles.releaseRequest_of_some hr]
          exact Table.get?_erase_of_ne _ fun hh => hrelease (hh ▸ rfl)
  | releaseControl h =>
      rw [act]
      cases hc : d.table.controlSession? h with
      | none => rw [Handles.releaseControl_of_none hc]
      | some session => rw [Handles.releaseControl_of_some hc]
  | insertFile | releaseFile | insertDirectory | releaseDirectory => rfl

/-- A handle that was released is not given out again. -/
theorem readings_of_none (hused : handle ≤ d.table.last)
    (hnone : d.table.requests.get? handle = none) (actions : List Action) :
    d.readings handle actions = [] := by
  have hread := Handles.readRequest_of_none hnone
  induction actions generalizing d with
  | nil => rfl
  | cons a rest ih =>
      have hheard : d.heard? handle a = none := by
        cases a with
        | readRequest h => simp [heard?, hread]
        | _ => rfl
      have hgone : (d.act a).2.table.requests.get? handle = none := by
        by_cases hused' : a = .readRequest handle ∨ a = .releaseRequest handle
        · rcases hused' with rfl | rfl
          · simp only [act, hread, hnone]
          · simp only [act, Handles.releaseRequest_of_none hnone, hnone]
        · rw [not_or] at hused'
          rw [get?_requests_act hused a hused'.1 hused'.2, hnone]
      rw [readings, hheard, ih (Nat.le_trans hused (last_le_act d a)) hgone
        (Handles.readRequest_of_none hgone)]
      rfl

/-- What is read under a handle is what the handle of the request yields. -/
theorem readings_eq (hused : handle ≤ d.table.last) (hr : d.table.requests.get? handle = some r)
    (actions : List Action) : d.readings handle actions = r.readings (reads handle actions) := by
  induction actions generalizing d r with
  | nil => rfl
  | cons a rest ih =>
      have hused' := Nat.le_trans hused (last_le_act d a)
      rw [readings]
      cases a with
      | readRequest h =>
          by_cases hh : h = handle
          · subst hh
            have hread := Handles.readRequest_of_some hr
            have hrow : (d.act (.readRequest h)).2.table.requests.get? h = some r.read.2 := by
              simp only [act, hread]
              exact Table.get?_set_self _ _ _
            rw [ih hused' hrow]
            simp [heard?, hread, reads, RequestHandle.readings]
          · have hne : Action.readRequest h ≠ .readRequest handle :=
              fun heq => hh (by cases heq; rfl)
            rw [ih hused' ((get?_requests_act hused (.readRequest h) hne (by simp)).trans hr)]
            simp [heard?, reads, hh]
      | releaseRequest h =>
          by_cases hh : h = handle
          · subst hh
            rw [readings_of_none hused' (by
              simp only [act, Handles.releaseRequest_of_some hr]
              exact Table.get?_erase_self _ _)]
            simp [heard?, reads, RequestHandle.readings]
          · have hne : Action.releaseRequest h ≠ .releaseRequest handle :=
              fun heq => hh (by cases heq; rfl)
            rw [ih hused' ((get?_requests_act hused (.releaseRequest h) (by simp) hne).trans hr)]
            simp [heard?, reads, hh]
      | _ =>
          refine ih hused' ((get?_requests_act hused _ ?_ ?_).trans hr)
          · simp
          · simp

/-! ### How long a request is -/

theorem Kept.requestSize? (h : Kept past d) (hv : Voiced d) {q : Request}
    (hq : d.broker.request? id = some q) :
    d.table.requestSize? id = if 0 < d.pendingOf id + d.openOf id
      then some ((Utf8.encode q.path.text).length + 1) else none := by
  have hsize {r : RequestHandle} (hr : d.world.Holds r.request r.path) (hid : r.request = id) :
      Handles.sizeOf r = (Utf8.encode q.path.text).length + 1 := by
    obtain ⟨q', hq', hp⟩ := hr
    rw [hid] at hq'
    obtain rfl : q' = q := Option.some.inj (hq'.symm.trans hq)
    rw [Handles.sizeOf, hp]
  unfold Handles.requestSize?
  cases hpending : d.table.pending.get? id with
  | some r =>
      have hpos : 0 < d.pendingOf id := by
        rw [h.1.pendingOf_pos_iff, hpending]
        rfl
      dsimp only
      rw [hsize (hv.pending _ (Table.mem_of_get? hpending)) (h.1.request_of_get? hpending),
        if_pos (Nat.add_pos_left hpos _)]
  | none =>
      have hzero : d.pendingOf id = 0 := by
        refine Nat.eq_zero_of_not_pos fun hpos => ?_
        rw [h.1.pendingOf_pos_iff, hpending] at hpos
        cases hpos
      rw [hzero, Nat.zero_add]
      dsimp only
      cases hfind : d.table.requests.values.find? (·.request = id) with
      | none =>
          have hnone : d.openOf id = 0 := List.countP_eq_zero.mpr (List.find?_eq_none.mp hfind)
          rw [hnone]
          rfl
      | some r =>
          obtain ⟨row, hrow, rfl⟩ := List.mem_map.mp (List.mem_of_find?_eq_some hfind)
          have hid := List.find?_some hfind
          have hpos : 0 < d.openOf id :=
            List.countP_pos_iff.mpr ⟨_, List.mem_of_find?_eq_some hfind, hid⟩
          rw [if_pos hpos, Option.map_some,
            hsize (hv.opened row hrow) (of_decide_eq_true hid)]

/-! ### What a helper is told -/

theorem Kept.holds (h : Kept past d) {f : Fetch} (hf : f ∈ d.fetches) :
    d.world.Holds f.request f.path := by
  obtain ⟨-, w, hw⟩ := h
  obtain ⟨k, hk⟩ := List.mem_iff_getElem?.mp hf
  rw [← hw.fetches] at hk
  obtain ⟨q, hq, hp⟩ := hw.reachable.custody.fetch hk
  rw [hw.broker] at hq
  exact ⟨q, hq, hp⟩

/-- A desk with all that happened at it from the start. -/
inductive Reached : Desk → Prop
  | run (timeout : Option Nat) (now : Nat) (actions : List Action) :
    Reached ((start timeout now).run [] actions).2

theorem Reached.kept (h : Reached d) : (∃ past, Kept past d) ∧ Voiced d := by
  cases h with
  | run timeout now actions =>
      have hstart := kept_start timeout now
      exact ⟨⟨_, hstart.run actions⟩, (voiced_start timeout now).run hstart actions⟩

/-- A text, as helpers get to know it. -/
structure Spoken (text : String) : Prop where
  /-- The helper is always told a path: what stands before the first NUL. -/
  told : requestPath? (spoken text) = some (upToNul (normalize text))
  told_iff : requestPath? (spoken text) = some (normalize text) ↔ '\x00' ∉ text.toList
  /-- A helper that has a channel gets a handle that speaks for the text. -/
  handle {w : World} (hw : w.Reachable) {f : Fetch} (hf : f ∈ w.fetches)
    (hp : f.path = .ofText text) {a : Broker.Action} {g : RequestHandle}
    (hg : ⟨a, .delivered g⟩ ∈ w.log) (hr : g.request = f.request) : Speaks text g
  /-- The table tells the length of what the handle yields while the request is pending or open. -/
  size {d : Desk} (hd : Reached d) {f : Fetch} (hf : f ∈ d.fetches) (hp : f.path = .ofText text) :
    d.table.requestSize? f.request = if 0 < d.pendingOf f.request + d.openOf f.request
      then some (spoken text).length else none
  /-- A helper at the table opens the request, and then reads from its handle between whatever else
  happens. -/
  readings {d : Desk} (hd : Reached d) {f : Fetch} (hf : f ∈ d.fetches) (hp : f.path = .ofText text)
    {handle : Handle} {table : Handles}
    (hopen : d.table.openRequest f.request = some (handle, table)) (rest : List Action) :
    { d with table }.readings handle rest = said text (reads handle rest)

theorem spoken_of_text (text : String) : Spoken text where
  told := requestPath?_spoken text
  told_iff := requestPath?_spoken_eq_iff
  handle hw _ hf hp _ _ hg hr := hw.speaks hf hp hg hr
  size hd f hf hp := by
    obtain ⟨⟨past, hkept⟩, hv⟩ := hd.kept
    obtain ⟨q, hq, hpath⟩ := hkept.holds hf
    rw [hkept.requestSize? hv hq, hpath, hp, spoken, List.length_append]
    rfl
  readings {d} hd f hf hp handle table hopen rest := by
    obtain ⟨⟨past, hkept⟩, hv⟩ := hd.kept
    obtain ⟨q, hq, hpath⟩ := hkept.holds hf
    obtain ⟨r, hr, rfl, rfl⟩ := Handles.openRequest_eq_some_iff.mp hopen
    have hmem := Table.mem_of_get? hr
    obtain ⟨q', hq', hpath'⟩ := hv.pending _ hmem
    rw [hkept.1.request_of_get? hr, hq] at hq'
    cases hq'
    have hspeaks : Speaks text r :=
      speaks_of_fresh (hv.unread _ hmem) (hpath'.symm.trans (hpath.trans hp))
    rw [readings_eq (Nat.le_refl _) (Table.get?_set_self _ _ _), hspeaks.readings]

-- The path and its NUL at the first read, nothing at the second, and no third one.
example : (start none 0).readings 2 [.client (.fetch World.pathA), .attachControl, .readControl 1,
    .readControl 1, .openRequest 1, .readRequest 2, .readRequest 2, .releaseRequest 2,
    .readRequest 2] = [[47, 97, 0], []] := by decide

end Desk
end OnDemandFs
