import OnDemandFs.Proofs.Resolve.Legs
import OnDemandFs.Proofs.Resolve.Outcomes

/-!
# Operations side by side

Operations share one view, and each goes on by one query at a time: `Traffic.Moves` is one query of
one operation, answered from the view as it is then. An operation that asks for a path goes on once
the request is closed, which may be at any later time, and one that fails or is given up is gone.
What a session does in one go, a leg of an operation from one request to the next, is a series of
such moves (`goes_of_done`, `goes_of_asks`).

Whatever is true of each answer when it is given is true of what operations come to: `Moves.keeps`.
-/
namespace OnDemandFs

/-- An operation that is not over: the call that began it and what is left of its plan. -/
structure Operation where
  call : Call
  plan : Plan Answer

/-- Operations on a view that they share. -/
structure Traffic where
  view : View
  underway : List Operation := []

/-- What is given away by a move: the number of a path, or the answer to a call. -/
inductive Event where
  | numbered (path : Path) (id : NodeId)
  | answered (call : Call) (answer : Answer)

namespace Query
variable {β : Type}

def events : Query β → β → List Event
  | number p, id => [.numbered p id]
  | ask _, _ | entry _, _ | index _, _ | names _, _ | body _, _ | facts, _ => []

end Query

namespace Inquiry
variable {σ α : Type}

/-- The state at the end, or at the first request. -/
def state : Inquiry σ α → σ
  | done s _ | asks s _ _ => s

/-- What comes of an inquiry that ends well without any request. -/
def answer? : Inquiry σ α → Option α
  | done _ (.ok a) => some a
  | done _ (.error _) | asks .. => none

theorem eq_done_of_answer? {i : Inquiry σ α} {a : α} (h : i.answer? = some a) :
    i = .done i.state (.ok a) := by
  rcases i with ⟨s, fault | b⟩ | ⟨s, p, resume⟩
  · cases h
  · cases h
    rfl
  · cases h

end Inquiry

namespace Traffic

/-- One move of one operation, with what it gives away. -/
inductive Moves : Traffic → List Event → Traffic → Prop
  | begin (v : View) (ops : List Operation) (call : Call) :
      Moves ⟨v, ops⟩ [] ⟨v, ops ++ [⟨call, call.plan⟩]⟩
  | answer {v w : View} {before after : List Operation} {call : Call} {β : Type} {q : Query β}
      {next : β → Plan Answer} {b : β} (hanswer : q.answer v = .done w (.ok b)) :
      Moves ⟨v, before ++ ⟨call, .query q next⟩ :: after⟩ (q.events b)
        ⟨w, before ++ ⟨call, next b⟩ :: after⟩
  /-- The request for a path was closed. -/
  | resume {v : View} {before after : List Operation} {call : Call} {p : Path}
      {next : Unit → Plan Answer} :
      Moves ⟨v, before ++ ⟨call, .query (.ask p) next⟩ :: after⟩ []
        ⟨v, before ++ ⟨call, next ()⟩ :: after⟩
  | finish {v : View} {before after : List Operation} {call : Call} {answer : Answer} :
      Moves ⟨v, before ++ ⟨call, .ended (.ok answer)⟩ :: after⟩ [.answered call answer]
        ⟨v, before ++ after⟩
  /-- The operation failed, or its request did, or nobody waits for it any more. -/
  | leave {v : View} {before after : List Operation} {op : Operation} :
      Moves ⟨v, before ++ op :: after⟩ [] ⟨v, before ++ after⟩

variable {u t : Traffic} {told more : List Event}

/-- The cache is left alone, and numbers are only added. -/
theorem Moves.calm (h : Moves u told t) : u.view.Calm t.view := by
  cases h with
  | @answer v w before after call β q next b hanswer =>
      have hcalm := q.calmFrom_answer v
      rw [hanswer] at hcalm
      exact hcalm
  | begin | resume | finish | leave => exact .refl _

/-- What the operations come to will be about the paths that they were called for. -/
def Keeps (k : Known) (u : Traffic) : Prop :=
  ∀ op ∈ u.underway, op.plan.Ends k (Answer.IsAbout op.call.path k)

/-- If what is known bears out each answer to a query, it bears out what operations come to. -/
theorem Moves.keeps {k : Known} (h : Moves u told t) (hkeeps : u.Keeps k)
    (hallows : ∀ {β : Type} (q : Query β) (b : β), q.answer u.view = .done t.view (.ok b) →
      k.Allows q b) :
    t.Keeps k ∧ ∀ call answer, .answered call answer ∈ told →
      Answer.IsAbout call.path k answer := by
  cases h with
  | begin v ops call =>
      refine ⟨fun op hop => ?_, by simp⟩
      rcases List.mem_append.mp hop with hold | hnew
      · exact hkeeps op hold
      · rw [List.mem_singleton.mp hnew]
        exact call.ends_plan k
  | @answer v w before after call β q next b hanswer =>
      simp only [Keeps, List.forall_mem_append, List.forall_mem_cons] at hkeeps ⊢
      refine ⟨⟨hkeeps.1, hkeeps.2.1 b (hallows q b hanswer), hkeeps.2.2⟩, ?_⟩
      cases q <;> simp [Query.events]
  | resume =>
      simp only [Keeps, List.forall_mem_append, List.forall_mem_cons] at hkeeps ⊢
      exact ⟨⟨hkeeps.1, hkeeps.2.1 () trivial, hkeeps.2.2⟩, by simp⟩
  | @finish v before after call answer =>
      simp only [Keeps, List.forall_mem_append, List.forall_mem_cons] at hkeeps ⊢
      refine ⟨⟨hkeeps.1, hkeeps.2.2⟩, fun call' answer' hmem => ?_⟩
      cases List.mem_singleton.mp hmem
      exact hkeeps.2.1 answer rfl
  | leave =>
      simp only [Keeps, List.forall_mem_append, List.forall_mem_cons] at hkeeps ⊢
      exact ⟨⟨hkeeps.1, hkeeps.2.2⟩, by simp⟩

/-! ### Legs -/

/-- A series of moves, with what they give away, latest first. -/
inductive Goes (u : Traffic) : List Event → Traffic → Prop
  | refl : Goes u [] u
  | move {t w : Traffic} {told more : List Event} (h : Goes u told t) (hmove : Moves t more w) :
      Goes u (more ++ told) w

theorem Goes.trans {w : Traffic} (h : Goes u told t) (h' : Goes t more w) :
    Goes u (more ++ told) w := by
  induction h' with
  | refl => exact h
  | move _ hmove ih =>
      rw [List.append_assoc]
      exact ih.move hmove

variable {v w : View} {before after : List Operation} {call : Call} {plan plan' : Plan Answer}
  {leg : Inquiry View Answer}

/-- An operation that is carried on from a view to its end or to its next request. -/
inductive LegTo (v : View) (before after : List Operation) (call : Call) (plan : Plan Answer) :
    Inquiry View Answer → Prop
  | ended {w : View} {r : Except Fault Answer} {told : List Event}
      (h : Goes ⟨v, before ++ ⟨call, plan⟩ :: after⟩ told
        ⟨w, before ++ ⟨call, .ended r⟩ :: after⟩) :
      LegTo v before after call plan (.done w r)
  | asking {w : View} {p : Path} {next : Unit → Plan Answer} {told : List Event}
      (h : Goes ⟨v, before ++ ⟨call, plan⟩ :: after⟩ told
        ⟨w, before ++ ⟨call, .query (.ask p) next⟩ :: after⟩) :
      LegTo v before after call plan (.asks w p fun s => (next ()).meaning s)

theorem LegTo.of_goes (h : LegTo w before after call plan' leg)
    (hgoes : Goes ⟨v, before ++ ⟨call, plan⟩ :: after⟩ told
      ⟨w, before ++ ⟨call, plan'⟩ :: after⟩) : LegTo v before after call plan leg := by
  cases h with
  | ended h => exact .ended (hgoes.trans h)
  | asking h => exact .asking (hgoes.trans h)

/-- Carrying on an operation in one go is a series of moves. -/
theorem legTo_meaning (v : View) (before after : List Operation) (call : Call)
    (plan : Plan Answer) : LegTo v before after call plan (plan.meaning v) := by
  induction plan generalizing v with
  | ended r => exact .ended .refl
  | @query β q next ih =>
      have hanswered {w : View} {b : β} (hanswer : q.answer v = .done w (.ok b)) :
          LegTo v before after call (.query q next) ((Plan.query q next).meaning v) := by
        have hmeaning : (Plan.query q next).meaning v = (next b).meaning w := by
          change (q.answer v).andThen _ = _
          rw [hanswer]
          rfl
        rw [hmeaning]
        exact (ih b w).of_goes (Goes.refl.move (.answer hanswer))
      cases q with
      | ask p => exact .asking .refl
      | entry | index | names | body | number | facts => exact hanswered rfl

/-- So is a call, up to its first request or to its end. -/
theorem legTo_start (v : View) (before after : List Operation) (call : Call) :
    LegTo v before after call call.plan (call.start v) := by
  rw [← call.meaning_plan]
  exact legTo_meaning v before after call call.plan

/-- A call that is answered without any request. -/
theorem goes_of_answer? (v : View) (ops : List Operation) (call : Call) {answer : Answer}
    (h : (call.start v).answer? = some answer) :
    ∃ told, Goes ⟨v, ops⟩ (.answered call answer :: told) ⟨(call.start v).state, ops⟩ := by
  have hleg := legTo_start v ops [] call
  revert h hleg
  rcases call.start v with ⟨w, fault | a⟩ | ⟨w, p, resume⟩
  · exact nofun
  · rintro ⟨⟩ (@⟨_, _, told, hgoes⟩)
    have hbegun : Goes ⟨v, ops⟩ [] ⟨v, ops ++ [⟨call, call.plan⟩]⟩ :=
      Goes.refl.move (.begin v ops call)
    have hfinished := (hbegun.trans hgoes).move .finish
    simp only [List.append_nil] at hfinished
    exact ⟨told, hfinished⟩
  · exact nofun

end Traffic
end OnDemandFs
