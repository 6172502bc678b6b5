import OnDemandFs.CommandLine.Arguments
import OnDemandFs.Proofs.Broker.Overdue
import OnDemandFs.Settings.File

/-!
# How long a call may be told to wait

Settings take any number of seconds, from a file or from the command line, and nobody looks at it
before a call adds it to the time at which its request was created. A sum that is a time is a
deadline: the call ends with good news or with a timeout, and as long as no deadline comes
everything is as it would be without one. A sum that is not a time ends the call at once, without
an outcome.

What would be without a deadline is told by running the same actions on the same world `retimed`:
all of it as it is, but for the timeout.
-/
namespace OnDemandFs

theorem Deadline.HasPassed.mono {d : Deadline} {now later : Nat} (h : d.HasPassed now)
    (hle : now ≤ later) : d.HasPassed later := by
  cases d with
  | «at» t => exact Nat.le_trans h hle
  | never | overflow => cases h

namespace Broker

variable {b : Broker} {timeout : Option Nat}

/-- The same broker with another timeout. -/
def retimed (b : Broker) (timeout : Option Nat) : Broker := { b with timeout }

@[simp] theorem request?_retimed (b : Broker) (timeout : Option Nat) (id : RequestId) :
    (b.retimed timeout).request? id = b.request? id := request?_congr rfl id

@[simp] theorem outcome?_retimed (b : Broker) (timeout : Option Nat) (id : RequestId) :
    (b.retimed timeout).outcome? id = b.outcome? id := by
  simp only [outcome?, request?_retimed]

theorem bootstrap_retimed (b : Broker) (timeout : Option Nat) (now : Nat) :
    (b.retimed timeout).bootstrap now = (b.bootstrap now).retimed timeout := by
  simp only [bootstrap, retimed]
  cases b.inFlight.get? Path.root with
  | none => rfl
  | some id => by_cases hid : id ∈ b.queue <;> simp only [hid, if_true, if_false]

theorem detach_retimed (b : Broker) (timeout : Option Nat) (session : SessionId) :
    (b.retimed timeout).detach session = (b.detach session).retimed timeout := by
  simp only [detach, retimed]
  by_cases hs : b.session = some session <;> simp only [hs, if_true, if_false]

theorem withdraw_retimed (b : Broker) (timeout : Option Nat) (id : RequestId) :
    (b.retimed timeout).withdraw id = (b.withdraw id).retimed timeout := by
  simp only [withdraw, request?_retimed]
  rfl

theorem close_retimed (b : Broker) (timeout : Option Nat) (id : RequestId) :
    (b.retimed timeout).close id = (b.close id).retimed timeout := by
  simp only [close, withdraw_retimed, request?_retimed]
  split
  · split_ifs <;> rfl
  · rfl

theorem expire_retimed (b : Broker) (timeout : Option Nat) (id : RequestId) :
    (b.retimed timeout).expire id = (b.expire id).retimed timeout := by
  simp only [expire, withdraw_retimed, request?_retimed]
  split
  · split_ifs <;> rfl
  · rfl

theorem deadline_of_request?_none {id : RequestId} (hq : b.request? id = none) :
    b.deadline id = .never := by
  cases ht : b.timeout <;> simp only [deadline, ht, hq]

namespace World

variable {w v : World} {a : Action} {r : Reply}

def retimed (w : World) (timeout : Option Nat) : World :=
  { w with broker := w.broker.retimed timeout }

/-- A step can be taken with another timeout too, unless it gives up, if a call that comes with it
begins in the same way. -/
theorem Step.retimed (hs : Step w a r v) (timeout : Option Nat) (hgive : ∀ k, a ≠ .giveUp k)
    (hcome : ∀ k id, r = .asked k id →
      Progress.ofDeadline ((v.broker.retimed timeout).deadline id) =
        .ofDeadline (v.broker.deadline id)) :
    Step (w.retimed timeout) a r (v.retimed timeout) := by
  cases hs with
  | attachFirst hn hb =>
      have h := Step.attachFirst (w := w.retimed timeout) hn hb
      simp only [World.retimed, bootstrap_retimed] at h
      exact h
  | attachAgain hn hb => exact .attachAgain (w := w.retimed timeout) hn hb
  | attachRefused hn => exact .attachRefused (w := w.retimed timeout) hn
  | detach hc =>
      have h := Step.detach (w := w.retimed timeout) hc
      simp only [World.retimed, detach_retimed] at h
      exact h
  | drop hc =>
      have h := Step.drop (w := w.retimed timeout) hc
      simp only [World.retimed, detach_retimed] at h
      exact h
  | readRefused hc hn => exact .readRefused (w := w.retimed timeout) hc hn
  | readNothing hc hn hq => exact .readNothing (w := w.retimed timeout) hc hn hq
  | deliver hc hn hq hr hqd =>
      exact .deliver (w := w.retimed timeout) hc hn hq ((request?_retimed _ _ _).trans hr) hqd
  | join hp =>
      have h := Step.join (w := w.retimed timeout) hp
      have hd := hcome _ _ rfl
      simp only [World.retimed] at h ⊢
      rw [← hd]
      exact h
  | create hp =>
      have h := Step.create (w := w.retimed timeout) hp
      have hd := hcome _ _ rfl
      simp only [World.retimed] at h ⊢
      rw [← hd]
      exact h
  | close hh =>
      have h := Step.close (w := w.retimed timeout) hh
      simp only [World.retimed, close_retimed] at h
      exact h
  | wake hf hw ho =>
      exact .wake (w := w.retimed timeout) hf hw ((outcome?_retimed _ _ _).trans ho)
  | giveUp => exact absurd rfl (hgive _)
  | expire hf he ho =>
      have h := Step.expire (w := w.retimed timeout) hf he (by
        simp only [World.retimed, expire_retimed, outcome?_retimed]
        exact ho)
      simp only [World.retimed, expire_retimed] at h
      exact h
  | pass time => exact .pass (w := w.retimed timeout) time

/-! ## The sum that is not a time -/

theorem run?_cons_of_act (ha : w.act a = some (r, v)) (rest : List Action) :
    w.run? (a :: rest) = v.run? rest := by
  rw [run?, ha]
  rfl

theorem getElem?_setProgress_self {k : Nat} {f : Fetch} (hf : w.fetches[k]? = some f)
    (progress : Progress) :
    (w.setProgress k progress).fetches[k]? = some { f with progress } := by
  rw [getElem?_setProgress, if_pos rfl, hf]
  rfl

theorem Reachable.ends_expiring (h : Reachable w) {k : Nat} {f : Fetch}
    (hf : w.fetches[k]? = some f) (hp : f.progress = .expiring) :
    ∃ v o, w.run? [.expire k] = some v ∧ v.now = w.now ∧
      v.fetches[k]? = some { f with progress := .returned o } := by
  obtain ⟨q, hq, -⟩ := h.custody.fetch hf
  have ha := (Step.expire hf hp (outcome?_expire hq)).act h.filed
  exact ⟨_, _, run?_cons_of_act ha [], rfl,
    getElem?_setProgress_self (w := { w with broker := _ }) hf _⟩

/-- When the deadline has come, or the request is over, a call ends by what it does itself. -/
theorem Reachable.ends (h : Reachable w) {k : Nat} {f : Fetch} (hf : w.fetches[k]? = some f)
    (hlive : f.progress.isOver = false)
    (hdue : (w.broker.outcome? f.request).isSome = true ∨
      (w.broker.deadline f.request).HasPassed w.now) :
    ∃ own v o, (∀ a ∈ own, a ∈ [.wake k, .giveUp k, .expire k]) ∧ w.run? own = some v ∧
      v.now = w.now ∧ v.fetches[k]? = some { f with progress := .returned o } := by
  cases hp : f.progress with
  | returned o | overflowed => rw [hp] at hlive; cases hlive
  | expiring =>
      obtain ⟨v, o, hv, hnow, hk⟩ := h.ends_expiring hf hp
      exact ⟨[.expire k], v, o, by simp, hv, hnow, hk⟩
  | waiting =>
      cases ho : w.broker.outcome? f.request with
      | some o =>
          have ha := (Step.wake hf hp ho).act h.filed
          exact ⟨[.wake k], _, o, by simp, run?_cons_of_act ha [], rfl,
            getElem?_setProgress_self hf _⟩
      | none =>
          have hpassed := hdue.resolve_left (by rw [ho]; exact Bool.noConfusion)
          cases hd : w.broker.deadline f.request with
          | never | overflow => rw [hd] at hpassed; cases hpassed
          | «at» t =>
              rw [hd] at hpassed
              have ha := (Step.giveUp hf hp ho hd hpassed).act h.filed
              obtain ⟨v, o, hv, hnow, hk⟩ :=
                (h.act ha).ends_expiring (getElem?_setProgress_self hf .expiring) rfl
              exact ⟨[.giveUp k, .expire k], v, o, by simp,
                (run?_cons_of_act ha _).trans hv, hnow, hk⟩

/-! ## A time that does not come -/

/-- No deadline has come, and none was not a time. -/
structure Unhurried (w : World) : Prop where
  ahead (id : RequestId) : ¬ (w.broker.deadline id).HasPassed w.now
  whole {f : Fetch} (hf : f ∈ w.fetches) : f.progress ≠ .overflowed

theorem Step.now_le (hs : Step w a r v) : w.now ≤ v.now := by
  cases hs with
  | pass time => exact Nat.le_add_right _ _
  | _ => exact Nat.le_refl _

/-- A call that is over stays as it is. -/
theorem Step.mem_of_overflowed (hs : Step w a r v) {f : Fetch} (hf : f ∈ w.fetches)
    (ho : f.progress = .overflowed) : f ∈ v.fetches := by
  have hset {k : Nat} {g : Fetch} {progress : Progress} (hg : w.fetches[k]? = some g)
      (hne : g.progress ≠ .overflowed) : f ∈ (w.setProgress k progress).fetches := by
    obtain ⟨j, hj⟩ := List.mem_iff_getElem?.mp hf
    refine List.mem_iff_getElem?.mpr ⟨j, ?_⟩
    rw [getElem?_setProgress, if_neg, hj]
    rintro rfl
    rw [hj] at hg
    cases hg
    exact hne ho
  cases hs with
  | join | create => exact List.mem_append_left _ hf
  | wake hg hp => exact hset hg (by rw [hp]; exact Progress.noConfusion)
  | giveUp hg hp => exact hset hg (by rw [hp]; exact Progress.noConfusion)
  | expire hg hp => exact hset hg (by rw [hp]; exact Progress.noConfusion)
  | _ => exact hf

theorem Unhurried.of_step (h : v.Unhurried) (hs : Step w a r v) : w.Unhurried where
  ahead id hpassed := by
    cases hq : w.broker.request? id with
    | none =>
        rw [deadline_of_request?_none hq] at hpassed
        cases hpassed
    | some q =>
        apply h.ahead id
        rw [hs.keeps.deadline hs.timeout hq]
        exact hpassed.mono hs.now_le
  whole {f} hf ho := h.whole (hs.mem_of_overflowed hf ho) ho

theorem Step.asked {k : Nat} {id : RequestId} (hs : Step w a (.asked k id) v) :
    ∃ f ∈ v.fetches, f.progress = .ofDeadline (v.broker.deadline id) := by
  cases hs with
  | join | create => exact ⟨_, List.mem_append_right _ List.mem_cons_self, rfl⟩

/-- Nobody notices a timeout whose deadlines do not come: without it, everything is the same. -/
theorem Unhurried.run {actions : List Action} (h : Reachable w) (hr : w.run? actions = some v)
    (hv : v.Unhurried) :
    w.Unhurried ∧ (w.retimed none).run? actions = some (v.retimed none) := by
  induction actions generalizing w with
  | nil =>
      cases hr
      exact ⟨hv, rfl⟩
  | cons a rest ih =>
      obtain ⟨⟨r, u⟩, ha, hrest⟩ := Option.bind_eq_some_iff.mp hr
      obtain ⟨u, hs, rfl⟩ := h.step ha
      obtain ⟨hu, hrun⟩ := ih (h.act ha) hrest
      have hu : u.Unhurried := ⟨hu.ahead, hu.whole⟩
      have hw := hu.of_step hs
      have hgive (k : Nat) : a ≠ .giveUp k := by
        rintro rfl
        cases hs with
        | giveUp _ _ _ hd ht => exact hw.ahead _ (by rw [hd]; exact ht)
      have hcome (k : Nat) (id : RequestId) (hreply : r = .asked k id) :
          Progress.ofDeadline ((u.broker.retimed none).deadline id) =
            .ofDeadline (u.broker.deadline id) := by
        subst hreply
        obtain ⟨f, hf, hp⟩ := hs.asked
        have hwhole := hu.whole hf
        rw [hp] at hwhole
        rw [deadline_of_timeout_none rfl]
        cases hd : u.broker.deadline id with
        | never | «at» => rfl
        | overflow => rw [hd] at hwhole; exact absurd rfl hwhole
      have hact := (hs.retimed none hgive hcome).act (h.filed.congr rfl rfl rfl)
      exact ⟨hw, (run?_cons_of_act hact rest).trans hrun⟩

/-- With this timeout every deadline would be a time that has not come. -/
def Unnoticed (timeout : Option Nat) (w : World) : Prop :=
  ∀ id, (w.broker.retimed timeout).deadline id ≠ .overflow ∧
    ¬ ((w.broker.retimed timeout).deadline id).HasPassed w.now

theorem Unnoticed.of_step (h : v.Unnoticed timeout) (hs : Step w a r v) : w.Unnoticed timeout := by
  intro id
  cases hq : w.broker.request? id with
  | none =>
      rw [deadline_of_request?_none ((request?_retimed _ _ _).trans hq)]
      exact ⟨Deadline.noConfusion, False.elim⟩
  | some q =>
      have hkeeps : Keeps (w.broker.retimed timeout) (v.broker.retimed timeout) := by
        intro j q hj
        rw [request?_retimed] at hj ⊢
        exact hs.keeps j q hj
      rw [← hkeeps.deadline rfl ((request?_retimed _ _ _).trans hq)]
      exact ⟨(h id).1, fun hpassed => (h id).2 (hpassed.mono hs.now_le)⟩

/-- Whatever can be done without a timeout can be done with one whose deadlines do not come. -/
theorem Unnoticed.run {actions : List Action} (h : Reachable w) (ht : w.broker.timeout = none)
    (hr : w.run? actions = some v) (hv : v.Unnoticed timeout) :
    w.Unnoticed timeout ∧ (w.retimed timeout).run? actions = some (v.retimed timeout) := by
  induction actions generalizing w with
  | nil =>
      cases hr
      exact ⟨hv, rfl⟩
  | cons a rest ih =>
      obtain ⟨⟨r, u⟩, ha, hrest⟩ := Option.bind_eq_some_iff.mp hr
      obtain ⟨u, hs, rfl⟩ := h.step ha
      have htu : u.broker.timeout = none := hs.timeout.trans ht
      obtain ⟨hu, hrun⟩ := ih (h.act ha) htu hrest
      have hu : u.Unnoticed timeout := hu
      have hgive (k : Nat) : a ≠ .giveUp k := by
        rintro rfl
        cases hs with
        | giveUp _ _ _ hd => rw [deadline_of_timeout_none ht] at hd; cases hd
      have hcome (k : Nat) (id : RequestId) (_ : r = .asked k id) :
          Progress.ofDeadline ((u.broker.retimed timeout).deadline id) =
            .ofDeadline (u.broker.deadline id) := by
        rw [deadline_of_timeout_none htu]
        cases hd : (u.broker.retimed timeout).deadline id with
        | never | «at» => rfl
        | overflow => exact absurd hd (hu id).1
      have hact := (hs.retimed timeout hgive hcome).act (h.filed.congr rfl rfl rfl)
      exact ⟨hu.of_step hs, (run?_cons_of_act hact rest).trans hrun⟩

end World
end Broker
end OnDemandFs
