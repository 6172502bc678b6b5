import OnDemandFs.Proofs.Broker.Runs

/-!
# One helper at a time

Who is the helper can be read off the log: whoever attached last, unless it let go since. Channel
`k` is session `k + 1`, and a number is never used twice, so a channel that outlived its session
matches no later one: whatever is done to it, the helper of the moment stays the helper, and nothing
is taken from the queue.
-/
namespace OnDemandFs.Broker

/-- The channel that attached last, unless it was detached or dropped since. -/
def attached? : List Event → Option Nat
  | [] => none
  | ⟨.attach, .channel k⟩ :: _ => some k
  | ⟨.detach k, _⟩ :: log | ⟨.drop k, _⟩ :: log =>
    if attached? log = some k then none else attached? log
  | _ :: log => attached? log

theorem attached?_of_isSeating {a : Action} (h : a.isSeating = false) (r : Reply)
    (log : List Event) : attached? (⟨a, r⟩ :: log) = attached? log := by
  cases a with
  | attach | detach | drop => cases h
  | _ => rfl

namespace World

theorem channel?_concat {w v : World} {c : SessionId} (h : v.channels = w.channels ++ [some c])
    (k : Nat) : v.channel? k = if k = w.channels.length then some c else w.channel? k := by
  rw [channel?, h]
  rcases Nat.lt_trichotomy k w.channels.length with hk | hk | hk
  · rw [List.getElem?_append_left hk, if_neg (Nat.ne_of_lt hk)]
    rfl
  · simp [hk]
  · rw [if_neg (Nat.ne_of_gt hk), channel?, List.getElem?_eq_none (by simp; omega),
      List.getElem?_eq_none (by omega)]

theorem channel?_set_none {w v : World} {k : Nat} (h : v.channels = w.channels.set k none)
    (j : Nat) : v.channel? j = if j = k then none else w.channel? j := by
  rw [channel?, h, List.getElem?_set]
  by_cases hj : k = j
  · subst hj
    rw [if_pos rfl, if_pos rfl]
    split_ifs <;> rfl
  · rw [if_neg hj, if_neg (Ne.symm hj)]
    rfl

/-- The channel is still there, and its session is the one that is on. -/
def Attached (w : World) (k : Nat) : Prop :=
  ∃ c, w.channel? k = some c ∧ w.broker.session = some c

structure Seated (w : World) : Prop where
  number {k : Nat} {c : SessionId} (hk : w.channel? k = some c) : c = k + 1
  sessions : w.broker.sessions = w.channels.length
  session : w.broker.session = (attached? w.log).map (· + 1)
  alive {k : Nat} (hk : attached? w.log = some k) : w.channel? k = some (k + 1)

theorem Seated.attached_iff {w : World} (h : w.Seated) (k : Nat) :
    w.Attached k ↔ attached? w.log = some k := by
  constructor
  · rintro ⟨c, hk, hs⟩
    rw [h.session, h.number hk, Option.map_eq_some_iff] at hs
    obtain ⟨j, hj, he⟩ := hs
    rw [hj, Nat.succ.inj he]
  · intro hk
    exact ⟨k + 1, h.alive hk, by rw [h.session, hk]; rfl⟩

theorem Seated.attach {w v : World} (h : w.Seated)
    (hs : v.broker.session = some (w.broker.sessions + 1))
    (hn : v.broker.sessions = w.broker.sessions + 1)
    (hc : v.channels = w.channels ++ [some (w.broker.sessions + 1)]) :
    (v.note .attach (.channel w.channels.length)).Seated where
  number {k c} hk := by
    change v.channel? k = some c at hk
    rw [channel?_concat hc] at hk
    split_ifs at hk with he
    · cases hk
      rw [he, h.sessions]
    · exact h.number hk
  sessions := by
    change v.broker.sessions = v.channels.length
    rw [hn, hc, h.sessions]
    simp
  session := by
    change v.broker.session = some (w.channels.length + 1)
    rw [hs, h.sessions]
  alive {k} hk := by
    change v.channel? k = some (k + 1)
    cases hk
    rw [channel?_concat hc, if_pos rfl, h.sessions]

/-- A channel lets go, whether or not it was the helper's. -/
theorem Seated.release {w v : World} {a : Action} {k : Nat} {c : SessionId} (h : w.Seated)
    (hk : w.channel? k = some c)
    (ha : attached? (⟨a, .done⟩ :: w.log) =
      if attached? w.log = some k then none else attached? w.log)
    (hlog : v.log = w.log) (hb : v.broker = w.broker.detach c)
    (hlength : v.channels.length = w.channels.length)
    (hold : ∀ j d, v.channel? j = some d → w.channel? j = some d)
    (hsame : ∀ j, j ≠ k → v.channel? j = w.channel? j) : (v.note a .done).Seated where
  number {j d} hj := h.number (hold j d hj)
  sessions := by
    change v.broker.sessions = v.channels.length
    rw [hb, detach_eq, hlength]
    exact h.sessions
  session := by
    change v.broker.session = (attached? (⟨a, .done⟩ :: v.log)).map (· + 1)
    rw [hlog, ha, hb, session_detach, h.session, h.number hk]
    cases hj : attached? w.log with
    | none => rfl
    | some j =>
        by_cases he : j = k
        · simp [he]
        · simp [he]
  alive {j} hj := by
    change attached? (⟨a, .done⟩ :: v.log) = some j at hj
    rw [hlog, ha] at hj
    split_ifs at hj with he
    have hne : j ≠ k := by
      rintro rfl
      exact he hj
    change v.channel? j = some (j + 1)
    rw [hsame j hne]
    exact h.alive hj

theorem Seated.step {w v : World} {a : Action} {r : Reply} (h : w.Seated) (hs : Step w a r v) :
    (v.note a r).Seated := by
  by_cases ha : a.isSeating = true
  · cases hs with
    | attachFirst => exact h.attach (by simp [openSession]) (by simp [openSession]) rfl
    | attachAgain => exact h.attach rfl rfl rfl
    | attachRefused => exact ⟨h.number, h.sessions, h.session, h.alive⟩
    | detach hk => exact h.release hk rfl rfl rfl rfl (fun _ _ => id) (fun _ _ => rfl)
    | @drop k c hk =>
        refine h.release hk rfl rfl rfl (by simp) (fun j d hj => ?_) (fun j hj => ?_)
        · rw [channel?_set_none (w := w) rfl] at hj
          split_ifs at hj
          exact hj
        · rw [channel?_set_none (w := w) rfl, if_neg hj]
    | _ => cases ha
  · have ha : a.isSeating = false := by simpa using ha
    obtain ⟨hseat, hchannels, -⟩ := hs.sameSeat ha
    have hlog : attached? (v.note a r).log = attached? w.log := by
      rw [hs.log, attached?_of_isSeating ha]
    have hchannel (k : Nat) : (v.note a r).channel? k = w.channel? k := by
      rw [channel?, channel?, ← hchannels]
      rfl
    refine ⟨fun hk => ?_, ?_, ?_, fun hk => ?_⟩
    · rw [hchannel] at hk
      exact h.number hk
    · exact hseat.sessions.trans (h.sessions.trans (by rw [← hchannels]; rfl))
    · rw [hlog]
      exact hseat.session.trans h.session
    · rw [hlog] at hk
      rw [hchannel]
      exact h.alive hk

theorem Reachable.seated {w : World} (h : Reachable w) : w.Seated := by
  refine h.induct ?_ ?_
  · intro timeout now
    exact ⟨fun hk => by simp [channel?, World.start] at hk, rfl, rfl, fun hk => by cases hk⟩
  · intro w a r v _ ih hs
    exact ih.step hs

/-- The seat of the helper: who is in it, what those outside of it can do, and what it takes along
when it is given up. -/
structure Exclusive (w : World) : Prop where
  attached_iff (k : Nat) : w.Attached k ↔ attached? w.log = some k
  at_most_one {j k : Nat} (hj : w.Attached j) (hk : w.Attached k) : j = k
  /-- Nothing changes but the log. -/
  taken {k : Nat} (hk : w.Attached k) :
    w.act .attach = some (.refused .alreadyInUse, w.note .attach (.refused .alreadyInUse))
  free (hn : ∀ k, ¬w.Attached k) :
    ∃ v, w.act .attach = some (.channel w.channels.length, v) ∧ v.Attached w.channels.length
  stale_read {k : Nat} {c : SessionId} (hc : w.channel? k = some c) (hk : ¬w.Attached k) :
    w.act (.read k) = some (.refused .detached, w.note (.read k) (.refused .detached))
  stale_detach {k : Nat} {c : SessionId} (hc : w.channel? k = some c) (hk : ¬w.Attached k) :
    w.act (.detach k) = some (.done, w.note (.detach k) .done)
  /-- The channel itself is gone then, and nothing else. -/
  stale_drop {k : Nat} {c : SessionId} (hc : w.channel? k = some c) (hk : ¬w.Attached k) :
    w.act (.drop k) =
      some (.done, { w with channels := w.channels.set k none }.note (.drop k) .done)
  /-- The seat is free, and everything else in the broker stays for whoever attaches next. -/
  leave {a : Action} {k : Nat} (hk : w.Attached k) (ha : a = .detach k ∨ a = .drop k) :
    ∃ v, w.act a = some (.done, v) ∧ (∀ j, ¬v.Attached j) ∧
      v.broker = { w.broker with session := none } ∧ v.handles = w.handles ∧
      v.fetches = w.fetches

theorem exclusive_of_reachable {w : World} (h : Reachable w) : w.Exclusive where
  attached_iff := h.seated.attached_iff
  at_most_one {j k} hj hk := by
    rw [h.seated.attached_iff] at hj hk
    exact Option.some.inj (hj.symm.trans hk)
  taken {k} hk := by
    obtain ⟨c, -, hs⟩ := hk
    exact (Step.attachRefused (by rw [hs]; rfl)).act h.filed
  free hn := by
    have hs : w.broker.session = none := by
      cases hs : w.broker.session with
      | none => rfl
      | some c =>
          rw [h.seated.session, Option.map_eq_some_iff] at hs
          obtain ⟨k, hk, -⟩ := hs
          exact absurd ((h.seated.attached_iff k).mpr hk) (hn k)
    cases hb : w.broker.bootstrapped with
    | false =>
        have hact := (Step.attachFirst hs hb).act h.filed
        exact ⟨_, hact, ((h.act hact).seated.attached_iff _).mpr rfl⟩
    | true =>
        have hact := (Step.attachAgain hs hb).act h.filed
        exact ⟨_, hact, ((h.act hact).seated.attached_iff _).mpr rfl⟩
  stale_read {k c} hc hk := by
    have hs : w.broker.session ≠ some c := fun hs => hk ⟨c, hc, hs⟩
    exact (Step.readRefused hc hs).act h.filed
  stale_detach {k c} hc hk := by
    have hs : w.broker.session ≠ some c := fun hs => hk ⟨c, hc, hs⟩
    have hact := (Step.detach hc).act h.filed
    rw [detach_of_ne hs] at hact
    exact hact
  stale_drop {k c} hc hk := by
    have hs : w.broker.session ≠ some c := fun hs => hk ⟨c, hc, hs⟩
    have hact := (Step.drop hc).act h.filed
    rw [detach_of_ne hs] at hact
    exact hact
  leave {a k} hk ha := by
    obtain ⟨c, hc, hs⟩ := hk
    have hb : w.broker.detach c = { w.broker with session := none } := by
      rw [detach_eq, session_detach, if_pos hs]
    have hfree {v : World} (hv : v.broker = w.broker.detach c) (j : Nat) : ¬v.Attached j := by
      rintro ⟨d, -, hd⟩
      rw [hv, hb] at hd
      cases hd
    rcases ha with rfl | rfl
    · exact ⟨_, (Step.detach hc).act h.filed, hfree rfl, hb, rfl, rfl⟩
    · exact ⟨_, (Step.drop hc).act h.filed, hfree rfl, hb, rfl, rfl⟩

/-- A helper that was replaced keeps its channel: it reads, detaches once more and drops it. -/
def staleChannel : List Action :=
  [.attach, .fetch pathA, .detach 0, .attach, .read 0, .detach 0, .drop 0, .attach]

theorem exclusive_staleChannel : ∃ w, (start none 0).run? staleChannel = some w ∧
    attached? w.log = some 1 ∧ w.channels = [none, some 2] ∧ w.broker.queue = [1, 2] ∧
    w.Exclusive := by
  have hrun : ((start none 0).run? staleChannel).isSome := by decide
  have hw := Option.some_get hrun
  exact ⟨_, hw.symm, rfl, rfl, rfl, exclusive_of_reachable ((Reachable.start _ _).run? hw.symm)⟩

end World
end OnDemandFs.Broker
