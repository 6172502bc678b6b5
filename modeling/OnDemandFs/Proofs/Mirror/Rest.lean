import OnDemandFs.Proofs.Mirror.Sessions
import Mathlib.Algebra.GroupWithZero.Nat
import Mathlib.Data.List.TakeDrop
import Mathlib.Data.List.TakeWhile
import Mathlib.Order.Lattice.Nat

/-!
# Sessions over a mirror come to rest

Each move of a session over a mirror uses something up: an operation that goes on to its next
request has one request fewer to make, and serving makes the queue shorter. `Session.load` adds up
what is left, with two moves for a request, so a session with a helper moves until no operation
waits, and it has the budget for that. No operation is lost on the way.
-/
namespace OnDemandFs

open Inquiry (AsksAtMost)

/-- The number of requests that may still be made, however an operation is gone on with. -/
noncomputable def requestsLeft (resume : View → Inquiry View Answer) : Nat :=
  sInf {k | ∀ v, (resume v).AsksAtMost k}

section RequestsLeft
variable {resume : View → Inquiry View Answer} {k : Nat}

theorem requestsLeft_le (h : ∀ v, (resume v).AsksAtMost k) : requestsLeft resume ≤ k :=
  Nat.sInf_le h

theorem asksAtMost_requestsLeft (h : ∀ v, (resume v).AsksAtMost k) (v : View) :
    (resume v).AsksAtMost (requestsLeft resume) := by
  have hmem : requestsLeft resume ∈ {k | ∀ v, (resume v).AsksAtMost k} := Nat.sInf_mem ⟨k, h⟩
  exact hmem v

end RequestsLeft

/-- Two moves for each request that may be made, and one more for the operation. -/
noncomputable def Waiting.load : Waiting → Nat
  | .forRequest _ _ _ resume => 2 * requestsLeft resume + 1
  | .forChannel .. => 1

namespace Session
variable {s t : Session} {w : Waiting} {before after : List Waiting}

/-- What may still be moved: the operations, and the requests that are queued. -/
noncomputable def load (s : Session) : Nat :=
  (s.waiting.map Waiting.load).sum + s.mount.broker.queue.length

theorem load_remove (hwaiting : s.waiting = before ++ w :: after) :
    s.load = ({ s with waiting := before ++ after } : Session).load + w.load := by
  unfold load
  rw [hwaiting]
  simp only [List.map_append, List.map_cons, List.sum_append, List.sum_cons]
  omega

/-- A reply is made of what is kept for clients, and nothing else changes. -/
theorem finish_frame (s : Session) (call : Call) (result : Except Fault Answer) :
    (s.finish call result).2.waiting = s.waiting ∧ (s.finish call result).2.ended = s.ended ∧
      (s.finish call result).2.mount = s.mount ∧ (s.finish call result).2.helper = s.helper := by
  have hkernel (need : KernelNeed) (answer : Answer) :
      (s.finishKernel need answer).2.waiting = s.waiting ∧
        (s.finishKernel need answer).2.ended = s.ended ∧
        (s.finishKernel need answer).2.mount = s.mount ∧
        (s.finishKernel need answer).2.helper = s.helper := by
    unfold finishKernel
    split <;> exact ⟨rfl, rfl, rfl, rfl⟩
  unfold finish
  split
  case h_3 need answer => exact hkernel need answer
  all_goals exact ⟨rfl, rfl, rfl, rfl⟩

/-- An operation that is lost takes nothing with it. -/
theorem lose_frame (s : Session) (label : String) (call : Call) :
    (s.lose label call).waiting = s.waiting ∧ (s.lose label call).mount = s.mount ∧
      (s.lose label call).helper = s.helper ∧ (s.lose label call).table = s.table := by
  cases call <;> exact ⟨rfl, rfl, rfl, rfl⟩

/-- Taking an operation on puts no more on the session than the requests it may make. -/
theorem load_proceed (hfiled : s.mount.broker.Filed) (label : String) (call : Call)
    {i : Inquiry View Answer} {k : Nat} (hbound : i.AsksAtMost k) :
    (s.proceed label call i).load ≤ s.load + 2 * k := by
  cases i with
  | done v r =>
      obtain ⟨hwaiting, -, hmount, -⟩ := (s.setView v).finish_frame call r
      have hload : (s.proceed label call (.done v r)).load = s.load := by
        change (((s.setView v).finish call r).2.waiting.map _).sum +
          ((s.setView v).finish call r).2.mount.broker.queue.length = _
        rw [hwaiting, hmount]
        rfl
      omega
  | asks v p resume =>
      obtain ⟨hpos, hresume⟩ := hbound
      have hqueue := (hfiled.askedFor p s.now).queue
      unfold proceed
      dsimp only
      split
      · unfold load
        rw [(lose_frame _ label call).1, (lose_frame _ label call).2.1]
        change (s.waiting.map _).sum + (s.mount.broker.ask p s.now).2.queue.length ≤ _
        omega
      · change ((s.waiting ++ [_]).map _).sum + (s.mount.broker.ask p s.now).2.queue.length ≤ _
        have hleft := requestsLeft_le hresume
        unfold load
        simp only [List.map_append, List.map_singleton, List.sum_append, List.sum_singleton,
          Waiting.load]
        omega

theorem helper_proceed (label : String) (call : Call) (i : Inquiry View Answer) :
    (s.proceed label call i).helper = s.helper := by
  cases i with
  | done v r => exact ((s.setView v).finish_frame call r).2.2.2
  | asks v p resume =>
      unfold proceed
      dsimp only
      split
      · exact (lose_frame _ label call).2.2.1
      · rfl

/-- The first operation that can move is taken out and moved. -/
theorem exists_of_moveFirst (hmove : s.moveFirst = some t) : ∃ before w after,
    s.waiting = before ++ w :: after ∧ s.isReady w = true ∧
      t = { s with waiting := before ++ after }.moveWaiting w := by
  unfold moveFirst at hmove
  rw [List.span_eq_takeWhile_dropWhile] at hmove
  have hall := List.takeWhile_append_dropWhile (p := fun w => !s.isReady w) (l := s.waiting)
  cases hdrop : s.waiting.dropWhile fun w => !s.isReady w with
  | nil =>
      rw [hdrop] at hmove
      cases hmove
  | cons w rest =>
      rw [hdrop] at hmove hall
      have hready := List.head_dropWhile_not (fun w => !s.isReady w) (by rw [hdrop]; nofun)
      simp only [hdrop, List.head_cons, Bool.not_eq_false'] at hready
      exact ⟨_, w, rest, hall.symm, hready, (Option.some.inj hmove).symm⟩

theorem not_isReady_of_moveFirst (hmove : s.moveFirst = none) (hw : w ∈ s.waiting) :
    s.isReady w = false := by
  unfold moveFirst at hmove
  rw [List.span_eq_takeWhile_dropWhile] at hmove
  cases hdrop : s.waiting.dropWhile fun w => !s.isReady w with
  | nil => simpa using List.dropWhile_eq_nil_iff.mp hdrop w hw
  | cons w' rest =>
      rw [hdrop] at hmove
      cases hmove

end Session

namespace Origin

open Session

variable {o : Origin} {s₀ : Store} {m : Mount} {calls : List (String × Call)} {s t : Session}

/-- No request of a mirror expires. -/
theorem IsMirror.expireFirst (h : IsMirror o s₀ calls s) : s.expireFirst = none := by
  unfold Session.expireFirst
  rw [List.findSome?_eq_none_iff]
  intro w hw
  cases w with
  | forChannel => rfl
  | forRequest label call id resume =>
      have hdeadline := h.keeps.deadline id
      simp only [Session.deadlineOf?, hdeadline]

/-- An operation that can move has its request closed, and goes on. -/
theorem IsMirror.exists_of_moveFirst (h : IsMirror o s₀ calls s) (hmove : s.moveFirst = some t) :
    ∃ before after label call id resume,
      s.waiting = before ++ .forRequest label call id resume :: after ∧
      t = { s with waiting := before ++ after }.proceed label call (resume s.mount.view) ∧
      (resume s.mount.view).AsksAtMost (requestsLeft resume) := by
  obtain ⟨before, w, after, hwaiting, hready, rfl⟩ := Session.exists_of_moveFirst hmove
  have hawaits := h.waiting w (by rw [hwaiting]; exact List.mem_append_right _ List.mem_cons_self)
  cases w with
  | forChannel => exact hawaits.elim
  | forRequest label call id resume =>
      obtain ⟨-, r, hr, hresume⟩ := hawaits
      have hclosed : s.mount.broker.outcome? id = some (.ok ()) := by
        rcases (h.keeps.requested id r hr).state with ⟨hqueued, -⟩ | ⟨hcompleted, -⟩
        · simp only [isReady, Broker.outcome?, hr, hqueued] at hready
          cases hready
        · simp only [Broker.outcome?, hr, hcompleted]
      refine ⟨before, after, label, call, id, resume, hwaiting, ?_,
        asksAtMost_requestsLeft (fun v => (hresume v).2.1) _⟩
      simp only [moveWaiting, hclosed]

/-- An operation whose request is closed makes fewer requests from there on. -/
theorem IsMirror.load_moveFirst (h : IsMirror o s₀ calls s) (hmove : s.moveFirst = some t) :
    t.load < s.load := by
  obtain ⟨before, after, label, call, id, resume, hwaiting, rfl, hbound⟩ :=
    h.exists_of_moveFirst hmove
  have hproceed := load_proceed (s := { s with waiting := before ++ after }) h.keeps.filed label
    call hbound
  have hremove := load_remove hwaiting
  simp only [Waiting.load] at hremove
  omega

theorem IsMirror.load_serveOne (h : IsMirror o s₀ calls s) (hserve : s.serveOne = some t) :
    t.load < s.load := by
  obtain ⟨helper, id, rest, r, -, hqueue, hr, -, rfl⟩ := h.exists_of_serveOne hserve
  have hshorter := (h.keeps.filed.servedFirst hqueue hr).queue
  exact Nat.add_lt_add_left hshorter _

theorem IsMirror.load_move (h : IsMirror o s₀ calls s) (hmove : s.move = some t) :
    t.load < s.load := by
  unfold Session.move at hmove
  rw [h.expireFirst] at hmove
  cases hfirst : s.moveFirst with
  | some u =>
      rw [hfirst] at hmove
      cases hmove
      exact h.load_moveFirst hfirst
  | none =>
      rw [hfirst] at hmove
      exact h.load_serveOne hmove

/-- A move is a turn of an operation or of the helper. -/
theorem mirroring_move (hm : o.IsMirrorable m.store) (hnew : m.IsNew) (h : Mirroring o m calls s)
    (hmove : s.move = some t) : Mirroring o m calls t := by
  unfold Session.move at hmove
  rw [(isMirror_of_mirroring hm hnew h).expireFirst] at hmove
  cases hfirst : s.moveFirst with
  | some u =>
      rw [hfirst] at hmove
      cases hmove
      obtain ⟨before, w, after, hwaiting, -, rfl⟩ := Session.exists_of_moveFirst hfirst
      exact h.resume hwaiting
  | none =>
      rw [hfirst] at hmove
      exact h.serve hmove

/-- The helper stays. -/
theorem IsMirror.helper_move (h : IsMirror o s₀ calls s) (hhelper : s.helper.isSome = true)
    (hmove : s.move = some t) : t.helper.isSome = true := by
  unfold Session.move at hmove
  rw [h.expireFirst] at hmove
  cases hfirst : s.moveFirst with
  | some u =>
      rw [hfirst] at hmove
      cases hmove
      obtain ⟨before, after, label, call, id, resume, -, rfl, -⟩ := h.exists_of_moveFirst hfirst
      rw [helper_proceed]
      exact hhelper
  | none =>
      rw [hfirst] at hmove
      obtain ⟨helper, id, rest, r, -, -, -, -, rfl⟩ := h.exists_of_serveOne hmove
      rfl

/-- With enough fuel nothing is left that could move. -/
theorem mirroring_moveAll (hm : o.IsMirrorable m.store) (hnew : m.IsNew) {fuel : Nat}
    (h : Mirroring o m calls s) (hfuel : s.load < fuel) :
    Mirroring o m calls (moveAll fuel s) ∧ (moveAll fuel s).move = none ∧
      (s.helper.isSome = true → (moveAll fuel s).helper.isSome = true) := by
  induction fuel generalizing s with
  | zero => exact absurd hfuel (Nat.not_lt_zero _)
  | succ fuel ih =>
      unfold moveAll
      cases hmove : s.move with
      | none => exact ⟨h, hmove, id⟩
      | some t =>
          have hmirror := isMirror_of_mirroring hm hnew h
          have hload := hmirror.load_move hmove
          obtain ⟨hrest, hnone, hhelper⟩ := ih (mirroring_move hm hnew h hmove) (by omega)
          exact ⟨hrest, hnone, fun hs => hhelper (hmirror.helper_move hs hmove)⟩

/-- The budget of a session is enough. -/
theorem IsMirror.load_lt_budget (h : IsMirror o s₀ calls s) : s.load < s.budget := by
  have hsum : ∀ ws : List Waiting, (∀ w ∈ ws, o.Awaits s₀ calls s.mount.broker w) →
      (ws.map Waiting.load).sum ≤ ws.foldr (fun w n => budgetOf w + n) 0 := by
    intro ws
    induction ws with
    | nil => exact fun _ => Nat.le_refl 0
    | cons w ws ih =>
        intro hws
        have hrest := ih fun w' hw' => hws w' (List.mem_cons_of_mem _ hw')
        have hfirst : w.load ≤ budgetOf w := by
          have hawaits := hws w List.mem_cons_self
          cases w with
          | forChannel => exact hawaits.elim
          | forRequest label call id resume =>
              obtain ⟨-, r, -, hresume⟩ := hawaits
              have hleft := requestsLeft_le fun v => (hresume v).2.1
              simp only [Waiting.load, budgetOf]
              omega
        simp only [List.map_cons, List.sum_cons, List.foldr_cons]
        omega
  have hwaiting := hsum s.waiting h.waiting
  unfold load budget
  omega

/-- With a helper, what waits can move. -/
theorem IsMirror.waiting_eq_nil (h : IsMirror o s₀ calls s) (hhelper : s.helper.isSome = true)
    (hmove : s.move = none) : s.waiting = [] := by
  by_contra hwaiting
  obtain ⟨w, hw⟩ := List.exists_mem_of_ne_nil _ hwaiting
  unfold Session.move at hmove
  rw [h.expireFirst] at hmove
  cases hfirst : s.moveFirst with
  | some u =>
      rw [hfirst] at hmove
      cases hmove
  | none =>
      rw [hfirst] at hmove
      have hready := not_isReady_of_moveFirst hfirst hw
      have hawaits := h.waiting w hw
      cases w with
      | forChannel => exact hawaits.elim
      | forRequest label call id resume =>
          obtain ⟨-, r, hr, -⟩ := hawaits
          rcases (h.keeps.requested id r hr).state with ⟨hqueued, -⟩ | ⟨hcompleted, -⟩
          · have hmem := (h.keeps.filed.mem_queue id).mpr ⟨r, hr, hqueued⟩
            obtain ⟨helper, hhelper⟩ := Option.isSome_iff_exists.mp hhelper
            cases hqueue : s.mount.broker.queue with
            | nil =>
                rw [hqueue] at hmem
                cases hmem
            | cons id' rest =>
                obtain ⟨r', hr', -⟩ := (h.keeps.filed.mem_queue id').mp
                  (by rw [hqueue]; exact List.mem_cons_self)
                rw [h.serveOne_eq hhelper hqueue hr'] at hmove
                cases hmove
          · simp only [isReady, Broker.outcome?, hr, hcompleted] at hready
            cases hready

end Origin
end OnDemandFs
