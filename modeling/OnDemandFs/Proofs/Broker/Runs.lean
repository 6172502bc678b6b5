import OnDemandFs.Proofs.Broker.World

/-!
# What a step does, and what a run keeps

`Step` tells each action by its effect, with the broker's part spelled out as far as a filed broker
determines it. `Reachable.filed` says that the broker of a reachable world is always filed, and
`Reachable.induct` is the induction that everything below goes by: a property that holds at the
start and that each step keeps.
-/
namespace OnDemandFs.Broker

namespace World

inductive Step (w : World) : Action → Reply → World → Prop
  | attachFirst (hs : w.broker.session = none) (hb : w.broker.bootstrapped = false) :
      Step w .attach (.channel w.channels.length) { w with
        broker := (w.broker.bootstrap w.now).openSession
        channels := w.channels ++ [some (w.broker.sessions + 1)]
        bootstrap := (w.broker.bootstrap w.now).queue.head? }
  | attachAgain (hs : w.broker.session = none) (hb : w.broker.bootstrapped = true) :
      Step w .attach (.channel w.channels.length) { w with
        broker := w.broker.openSession
        channels := w.channels ++ [some (w.broker.sessions + 1)] }
  | attachRefused (hs : w.broker.session.isSome = true) :
      Step w .attach (.refused .alreadyInUse) w
  | detach {k : Nat} {c : SessionId} (hc : w.channel? k = some c) :
      Step w (.detach k) .done { w with broker := w.broker.detach c }
  | drop {k : Nat} {c : SessionId} (hc : w.channel? k = some c) :
      Step w (.drop k) .done
        { w with broker := w.broker.detach c, channels := w.channels.set k none }
  | readRefused {k : Nat} {c : SessionId} (hc : w.channel? k = some c)
      (hs : w.broker.session ≠ some c) : Step w (.read k) (.refused .detached) w
  | readNothing {k : Nat} {c : SessionId} (hc : w.channel? k = some c)
      (hs : w.broker.session = some c) (hq : w.broker.queue = []) : Step w (.read k) .nothing w
  | deliver {k : Nat} {c : SessionId} {id : RequestId} {rest : List RequestId} {r : Request}
      (hc : w.channel? k = some c) (hs : w.broker.session = some c)
      (hq : w.broker.queue = id :: rest) (hr : w.broker.request? id = some r)
      (hqd : r.state = .queued) :
      Step w (.read k) (.delivered { request := id, path := r.path }) { w with
        broker := w.broker.deliver id
        handles := { request := id, path := r.path } :: w.handles }
  | join {p : Path} {id : RequestId} (hp : w.broker.inFlight.get? p = some id) :
      Step w (.fetch p) (.asked w.fetches.length id) { w with
        broker := w.broker.countJoin
        fetches := w.fetches ++ [⟨p, id, .ofDeadline (w.broker.countJoin.deadline id)⟩] }
  | create {p : Path} (hp : w.broker.inFlight.get? p = none) :
      Step w (.fetch p) (.asked w.fetches.length w.broker.nextId) { w with
        broker := w.broker.enqueue p w.now
        fetches := w.fetches ++ [⟨p, w.broker.nextId,
          .ofDeadline ((w.broker.enqueue p w.now).deadline w.broker.nextId)⟩] }
  | close {h : RequestHandle} (hh : h ∈ w.handles) :
      Step w (.close h) .done
        { w with broker := w.broker.close h.request, handles := w.handles.erase h }
  | wake {k : Nat} {f : Fetch} {o : Except Fault Unit} (hf : w.fetches[k]? = some f)
      (hw : f.progress = .waiting) (ho : w.broker.outcome? f.request = some o) :
      Step w (.wake k) (.returned f.request o) (w.setProgress k (.returned o))
  | giveUp {k : Nat} {f : Fetch} {t : Nat} (hf : w.fetches[k]? = some f)
      (hw : f.progress = .waiting) (ho : w.broker.outcome? f.request = none)
      (hd : w.broker.deadline f.request = .at t) (ht : t ≤ w.now) :
      Step w (.giveUp k) .done (w.setProgress k .expiring)
  | expire {k : Nat} {f : Fetch} {o : Except Fault Unit} (hf : w.fetches[k]? = some f)
      (he : f.progress = .expiring)
      (ho : (w.broker.expire f.request).outcome? f.request = some o) :
      Step w (.expire k) (.returned f.request o)
        ({ w with broker := w.broker.expire f.request }.setProgress k (.returned o))
  | pass (time : Nat) : Step w (.pass time) .done { w with now := w.now + time }

theorem step_of_perform {w v : World} {a : Action} {r : Reply} (hf : w.broker.Filed)
    (h : w.perform a = some (r, v)) : Step w a r v := by
  cases a with
  | attach =>
      cases hs : w.broker.session with
      | some c =>
          have hs' : w.broker.session.isSome = true := by rw [hs]; rfl
          simp only [perform, attach_of_isSome hs', Option.some.injEq, Prod.mk.injEq] at h
          obtain ⟨rfl, rfl⟩ := h
          exact .attachRefused hs'
      | none =>
          cases hb : w.broker.bootstrapped with
          | true =>
              simp only [perform, attach_again hs hb, hb, if_true, Option.some.injEq,
                Prod.mk.injEq] at h
              obtain ⟨rfl, rfl⟩ := h
              exact .attachAgain hs hb
          | false =>
              simp only [perform, hf.attach_first hs hb, hb, Bool.false_eq_true, if_false,
                Option.some.injEq, Prod.mk.injEq] at h
              obtain ⟨rfl, rfl⟩ := h
              exact .attachFirst hs hb
  | detach k =>
      simp only [perform, Option.map_eq_some_iff, Prod.mk.injEq] at h
      obtain ⟨c, hc, rfl, rfl⟩ := h
      exact .detach hc
  | drop k =>
      simp only [perform, Option.map_eq_some_iff, Prod.mk.injEq] at h
      obtain ⟨c, hc, rfl, rfl⟩ := h
      exact .drop hc
  | read k =>
      simp only [perform, Option.map_eq_some_iff] at h
      obtain ⟨c, hc, h⟩ := h
      by_cases hs : w.broker.session = some c
      · cases hq : w.broker.queue with
        | nil =>
            simp only [takeHandle_nil hs hq, Prod.mk.injEq] at h
            obtain ⟨rfl, rfl⟩ := h
            exact .readNothing hc hs hq
        | cons id rest =>
            obtain ⟨r', hr, hqd, ht⟩ := hf.takeHandle_cons hs hq
            simp only [ht, Prod.mk.injEq] at h
            obtain ⟨rfl, rfl⟩ := h
            exact .deliver hc hs hq hr hqd
      · simp only [takeHandle_of_ne hs, Prod.mk.injEq] at h
        obtain ⟨rfl, rfl⟩ := h
        exact .readRefused hc hs
  | fetch p =>
      cases hp : w.broker.inFlight.get? p with
      | some id =>
          simp only [perform, ask_of_some hp, Option.some.injEq, Prod.mk.injEq] at h
          obtain ⟨rfl, rfl⟩ := h
          exact .join hp
      | none =>
          simp only [perform, ask_of_none hp, Option.some.injEq, Prod.mk.injEq] at h
          obtain ⟨rfl, rfl⟩ := h
          exact .create hp
  | close handle =>
      simp only [perform] at h
      split_ifs at h with hh
      simp only [Option.some.injEq, Prod.mk.injEq] at h
      obtain ⟨rfl, rfl⟩ := h
      exact .close hh
  | wake k =>
      simp only [perform] at h
      split at h
      · rename_i path id hk
        simp only [Option.map_eq_some_iff, Prod.mk.injEq] at h
        obtain ⟨o, ho, rfl, rfl⟩ := h
        exact .wake hk rfl ho
      · cases h
  | giveUp k =>
      simp only [perform] at h
      split at h
      · rename_i path id hk
        split at h
        · rename_i t ho hd
          split_ifs at h with ht
          simp only [Option.some.injEq, Prod.mk.injEq] at h
          obtain ⟨rfl, rfl⟩ := h
          exact .giveUp hk rfl ho hd ht
        · cases h
      · cases h
  | expire k =>
      simp only [perform] at h
      split at h
      · rename_i path id hk
        simp only [Option.map_eq_some_iff, Prod.mk.injEq] at h
        obtain ⟨o, ho, rfl, rfl⟩ := h
        exact .expire hk rfl ho
      · cases h
  | pass time =>
      simp only [perform, Option.some.injEq, Prod.mk.injEq] at h
      obtain ⟨rfl, rfl⟩ := h
      exact .pass time

/-- Whatever a step tells can be done. -/
theorem Step.perform {w v : World} {a : Action} {r : Reply} (hs : Step w a r v)
    (hf : w.broker.Filed) : w.perform a = some (r, v) := by
  cases hs with
  | attachFirst hs hb =>
      simp only [World.perform, hf.attach_first hs hb, hb, Bool.false_eq_true, if_false]
      rfl
  | attachAgain hs hb => simp [World.perform, attach_again hs hb, hb]
  | attachRefused hs => simp [World.perform, attach_of_isSome hs]
  | detach hc | drop hc => simp [World.perform, hc]
  | readRefused hc hs => simp [World.perform, hc, takeHandle_of_ne hs]
  | readNothing hc hs hq => simp [World.perform, hc, takeHandle_nil hs hq]
  | deliver hc hs hq hr =>
      obtain ⟨r', hr', -, ht⟩ := hf.takeHandle_cons hs hq
      rw [hr] at hr'
      cases hr'
      simp [World.perform, hc, ht]
  | join hp => simp [World.perform, ask_of_some hp]
  | create hp => simp [World.perform, ask_of_none hp]
  | close hh => simp [World.perform, hh]
  | @wake k f o hk hw ho =>
      obtain ⟨path, id, progress⟩ := f
      cases hw
      simp [World.perform, hk, ho]
  | @giveUp k f t hk hw ho hd ht =>
      obtain ⟨path, id, progress⟩ := f
      cases hw
      simp [World.perform, hk, ho, hd, ht]
  | @expire k f o hk he ho =>
      obtain ⟨path, id, progress⟩ := f
      cases he
      simp [World.perform, hk, ho]
  | pass => rfl

theorem Step.filed {w v : World} {a : Action} {r : Reply} (hs : Step w a r v)
    (h : w.broker.Filed) : v.broker.Filed := by
  cases hs with
  | attachFirst => exact (h.bootstrap _).openSession
  | attachAgain => exact h.openSession
  | attachRefused | readRefused | readNothing | wake | giveUp | pass => exact h
  | detach | drop => exact h.detach _
  | deliver _ _ hq hr => exact h.deliver hq hr
  | join => exact h.countJoin
  | create hp => exact h.enqueue hp _
  | close => exact h.close _
  | expire => exact h.expire _

theorem Step.keeps {w v : World} {a : Action} {r : Reply} (hs : Step w a r v) :
    Keeps w.broker v.broker := by
  cases hs with
  | attachFirst => exact Keeps.bootstrap _ _
  | attachAgain | join => exact .of_eq fun _ => request?_congr rfl _
  | attachRefused | readRefused | readNothing | wake | giveUp | pass => exact .of_eq fun _ => rfl
  | detach | drop => exact .of_eq (request?_detach _ _)
  | deliver _ _ _ hr hq => exact .deliver hr hq
  | create => exact .of_new (request?_enqueue _ _ _)
  | close => exact .close _ _
  | expire => exact .expire _ _

theorem Step.log {w v : World} {a : Action} {r : Reply} (hs : Step w a r v) :
    (v.note a r).log = ⟨a, r⟩ :: w.log := by
  cases hs <;> rfl

/-- A quiet step leaves the handles and every request where they are. -/
theorem Step.grows {w v : World} {a : Action} {r : Reply} (hs : Step w a r v)
    (hq : Event.isQuiet ⟨a, r⟩ = true) :
    Grows w.broker v.broker ∧ v.handles = w.handles := by
  cases hs with
  | attachFirst => exact ⟨.bootstrap _ _, rfl⟩
  | attachAgain | join => exact ⟨.of_eq fun _ => request?_congr rfl _, rfl⟩
  | attachRefused | readRefused | readNothing | wake | giveUp | pass =>
      exact ⟨.of_eq fun _ => rfl, rfl⟩
  | detach | drop => exact ⟨.of_eq (request?_detach _ _), rfl⟩
  | create => exact ⟨.of_new (request?_enqueue _ _ _), rfl⟩
  | deliver | close | expire => cases hq

theorem Step.sameSeat {w v : World} {a : Action} {r : Reply} (hs : Step w a r v)
    (ha : a.isSeating = false) :
    SameSeat w.broker v.broker ∧ v.channels = w.channels ∧ v.bootstrap = w.bootstrap := by
  cases hs with
  | attachFirst | attachAgain | attachRefused | detach | drop => cases ha
  | close => exact ⟨.close _ _, rfl, rfl⟩
  | expire => exact ⟨.expire _ _, rfl, rfl⟩
  | _ => exact ⟨⟨rfl, rfl, rfl⟩, rfl, rfl⟩

theorem getElem?_setProgress (w : World) (k j : Nat) (progress : Progress) :
    (w.setProgress k progress).fetches[j]? =
      if j = k then (w.fetches[k]?).map ({ · with progress }) else w.fetches[j]? := by
  simp only [setProgress, List.getElem?_modify]
  by_cases h : j = k
  · subst h
    cases hf : w.fetches[j]? <;> simp
  · rw [if_neg h]
    cases hf : w.fetches[j]? <;> simp [Ne.symm h]

theorem getElem?_concat_eq_some {α : Type} {l : List α} {x y : α} {i : Nat}
    (h : (l ++ [x])[i]? = some y) : l[i]? = some y ∨ (i = l.length ∧ x = y) := by
  rcases Nat.lt_trichotomy i l.length with hi | hi | hi
  · rw [List.getElem?_append_left hi] at h
    exact .inl h
  · subst hi
    rw [List.getElem?_concat_length] at h
    exact .inr ⟨rfl, Option.some.inj h⟩
  · rw [List.getElem?_eq_none (by simp; omega)] at h
    cases h

/-- A call is as it was, or gives up, or returns what its request came to, or has just joined the
request in flight for its path. -/
theorem Step.fetch_cases {w v : World} {a : Action} {r : Reply} (hs : Step w a r v) {k : Nat}
    {f : Fetch} (hf : v.fetches[k]? = some f) :
    w.fetches[k]? = some f ∨
    (∃ f', w.fetches[k]? = some f' ∧ f'.progress.isOver = false ∧
      (f = { f' with progress := .expiring } ∨
        ∃ o, f = { f' with progress := .returned o } ∧ v.broker.outcome? f'.request = some o)) ∨
    (k = w.fetches.length ∧ a = .fetch f.path ∧ r = .asked k f.request ∧
      f.progress = .ofDeadline (v.broker.deadline f.request) ∧
      v.broker.inFlight.get? f.path = some f.request) := by
  cases hs with
  | @wake j g o hg hw ho =>
      rw [getElem?_setProgress] at hf
      split_ifs at hf with hk
      · subst hk
        rw [hg] at hf
        cases hf
        exact .inr (.inl ⟨g, hg, by rw [hw]; rfl, .inr ⟨o, rfl, ho⟩⟩)
      · exact .inl hf
  | @giveUp j g t hg hw =>
      rw [getElem?_setProgress] at hf
      split_ifs at hf with hk
      · subst hk
        rw [hg] at hf
        cases hf
        exact .inr (.inl ⟨g, hg, by rw [hw]; rfl, .inl rfl⟩)
      · exact .inl hf
  | @expire j g o hg he ho =>
      rw [getElem?_setProgress] at hf
      split_ifs at hf with hk
      · subst hk
        dsimp only at hf
        rw [hg] at hf
        cases hf
        exact .inr (.inl ⟨g, hg, by rw [he]; rfl, .inr ⟨o, rfl, ho⟩⟩)
      · exact .inl hf
  | join hp =>
      rcases getElem?_concat_eq_some hf with hf | ⟨hk, rfl⟩
      · exact .inl hf
      · exact .inr (.inr ⟨hk, rfl, by rw [hk], rfl, hp⟩)
  | create hp =>
      rcases getElem?_concat_eq_some hf with hf | ⟨hk, rfl⟩
      · exact .inl hf
      · exact .inr (.inr ⟨hk, rfl, by rw [hk], rfl, Table.get?_set_self _ _ _⟩)
  | _ => exact .inl hf

theorem act_eq_some_iff {w w' : World} {a : Action} {r : Reply} :
    w.act a = some (r, w') ↔ ∃ v, w.perform a = some (r, v) ∧ w' = v.note a r := by
  simp only [act, Option.map_eq_some_iff, Prod.mk.injEq]
  constructor
  · rintro ⟨⟨r, v⟩, hp, rfl, rfl⟩
    exact ⟨v, hp, rfl⟩
  · rintro ⟨v, hp, rfl⟩
    exact ⟨(r, v), hp, rfl, rfl⟩

theorem Step.act {w v : World} {a : Action} {r : Reply} (hs : Step w a r v)
    (hf : w.broker.Filed) : w.act a = some (r, v.note a r) :=
  act_eq_some_iff.mpr ⟨v, hs.perform hf, rfl⟩

theorem Reachable.filed {w : World} (h : Reachable w) : w.broker.Filed := by
  induction h with
  | start timeout now => exact filed_new timeout
  | act _ ha ih =>
      obtain ⟨v, hp, rfl⟩ := act_eq_some_iff.mp ha
      exact (step_of_perform ih hp).filed ih

theorem Reachable.step {w w' : World} {a : Action} {r : Reply} (h : Reachable w)
    (ha : w.act a = some (r, w')) : ∃ v, Step w a r v ∧ w' = v.note a r := by
  obtain ⟨v, hp, rfl⟩ := act_eq_some_iff.mp ha
  exact ⟨v, step_of_perform h.filed hp, rfl⟩

@[elab_as_elim]
theorem Reachable.induct {P : World → Prop} (start : ∀ timeout now, P (World.start timeout now))
    (step : ∀ {w a r v}, Reachable w → P w → Step w a r v → P (v.note a r))
    {w : World} (h : Reachable w) : P w := by
  induction h with
  | start timeout now => exact start timeout now
  | act hw ha ih =>
      obtain ⟨v, hs, rfl⟩ := hw.step ha
      exact step hw ih hs

/-- Take actions one after the other. -/
def run? (w : World) : List Action → Option World
  | [] => some w
  | a :: rest => (w.act a).bind fun (_, w') => run? w' rest

theorem Reachable.run? {w w' : World} (h : Reachable w) {actions : List Action}
    (hr : w.run? actions = some w') : Reachable w' := by
  induction actions generalizing w with
  | nil =>
      cases hr
      exact h
  | cons a rest ih =>
      obtain ⟨⟨r, v⟩, ha, hv⟩ := Option.bind_eq_some_iff.mp hr
      exact ih (h.act ha) hv

end World
end OnDemandFs.Broker
