import OnDemandFs.Proofs.Mirror.Again
import OnDemandFs.Proofs.Reading.Positional
import OnDemandFs.Proofs.Resolve.Legs
import OnDemandFs.Session.Settle

/-!
# Replies over a mirror

A client looks paths up, lists directories and opens files: it makes queries. `Answers` says that
the reply to a query tells what the origin has, and that a fault tells that it has nothing of the
kind that a mirror shows, or that the disk cannot carry the path. Each query ends with such a reply,
on the terms on which a mirror is asked.
-/
namespace OnDemandFs

/-- The calls of a client that looks paths up, lists directories and opens files. -/
def Call.IsQuery : Call → Prop
  | .lookup _ | .stat _ | .readDirectory _ | .openFile _ _ => True
  | _ => False

namespace Origin

open Resolver (Ends)

/-- How a query over a mirror ends. -/
def Resolves (o : Origin) (s₀ : Store) : Call → View → Except Fault Answer → Prop
  | .lookup p | .stat p => Ends o s₀
      (fun _ a => ∃ node, a = .node node ∧ o.Depicts s₀.disk p node) (o.Lacks s₀ p)
  | .readDirectory p => Ends o s₀
      (fun _ a => ∃ entries, a = .listed entries ∧ o.Lists s₀.disk p entries)
      (∀ place, o.Exposes s₀.disk p (.directory place) → ¬ Indexable o s₀ p)
  | .openFile p _ => Ends o s₀ (fun v a => ∃ f, a = .opened f ∧ Opens o s₀ p v.store f)
      (∀ b, o.Exposes s₀.disk p (.file b) →
        ¬ (Within o s₀ p (.file b) ∧ Disk.Fits (o.source p)))
  | _ => fun _ _ => False

/-- A reply tells what the origin has, as far as a mirror shows it and the disk can carry the path.
What is to be said of an opened file is given. -/
def Answers (o : Origin) (s₀ : Store) (opens : Path → Opened → Prop) : Call → Reply → Prop
  | .lookup p, .node node | .stat p, .attr node => o.Depicts s₀.disk p node
  | .lookup p, .fault _ | .stat p, .fault _ => o.Lacks s₀ p
  | .readDirectory p, .listed entries => o.Lists s₀.disk p entries
  | .readDirectory p, .fault _ =>
      ∀ place, o.Exposes s₀.disk p (.directory place) → ¬ Indexable o s₀ p
  | .openFile p _, .opened f => opens p f
  | .openFile p _, .fault _ => ∀ b, o.Exposes s₀.disk p (.file b) →
      ¬ (Within o s₀ p (.file b) ∧ Disk.Fits (o.source p))
  | _, _ => False

/-- To read an opened file is to read what the origin has at the path. -/
structure Reads (o : Origin) (d : Disk) (m : Mount) (p : Path) (f : Opened) : Prop where
  path : f.node.path = p
  body : ∃ b, o.Exposes d p (.file b) ∧ f.node.attr.size = b.content.length ∧
    m.readToEnd f = .ok b.content ∧ ∀ offset size, offset + size < Numeral.signedLimit →
      m.read f offset size = .ok ((b.content.drop offset).take size)

variable {o : Origin} {s₀ : Store} {v : View} {p : Path} {call : Call} {reply : Reply}

theorem Answers.mono {opens opens' : Path → Opened → Prop} (h : o.Answers s₀ opens call reply)
    (hopens : ∀ p f, opens p f → opens' p f) : o.Answers s₀ opens' call reply := by
  unfold Answers at h ⊢
  split at h
  · exact h
  · exact h
  · exact h
  · exact h
  · exact h
  · exact h
  · exact hopens _ _ h
  · exact h
  · exact h.elim

theorem Opens.reads {m : Mount} {f : Opened} (hm : o.IsMirrorable s₀)
    (h : Opens o s₀ p m.store f) : o.Reads s₀.disk m p f := by
  obtain ⟨b, c, hexposed, hbody, hcontent, hsize⟩ := h.body
  have hbytes : m.disk.content f.file = b.content := by
    have hdisk : m.disk = m.store.disk := rfl
    rw [Disk.content, hdisk, hbody]
    exact hcontent
  have hread : Reading.IsPositional b.content (m.readAt f) := by
    unfold Mount.readAt
    rw [hbytes]
    exact Reading.isPositional_ofContent b.content
  refine ⟨h.path, b, hexposed, hsize, ?_,
    fun offset size hlimit => Reading.readFully_eq hread hlimit⟩
  unfold Mount.readToEnd Mount.fileLength
  rw [hbytes]
  exact Reading.readToEnd_eq hread (hm.sizes p b hexposed.item)

/-- The reply of a query that is over. -/
theorem answers_finish {r : Except Fault Answer} (h : o.Resolves s₀ call v r) (s : Session) :
    ∃ reply files, s.finish call r = (reply, { s with files }) ∧
      o.Answers s₀ (fun p f => Opens o s₀ p v.store f) call reply := by
  cases call with
  | lookup p | stat p =>
      cases r with
      | error fault => exact ⟨_, s.files, rfl, h.error fault rfl⟩
      | ok a =>
          obtain ⟨node, rfl, hnode⟩ := h.ok a rfl
          exact ⟨_, s.files, rfl, hnode⟩
  | readDirectory p =>
      cases r with
      | error fault => exact ⟨_, s.files, rfl, h.error fault rfl⟩
      | ok a =>
          obtain ⟨entries, rfl, hentries⟩ := h.ok a rfl
          exact ⟨_, s.files, rfl, hentries⟩
  | openFile p name =>
      cases r with
      | error fault => exact ⟨_, s.files, rfl, h.error fault rfl⟩
      | ok a =>
          obtain ⟨f, rfl, hf⟩ := h.ok a rfl
          exact ⟨_, _, rfl, hf⟩
  | fetch | readLink | openDirectory | kernel => exact h.elim

theorem Resolves.mirrors {r : Except Fault Answer} (h : o.Resolves s₀ call v r) :
    Mirrors o s₀ v.store := by
  cases call with
  | lookup p | stat p | readDirectory p | openFile p name => exact h.mirrors
  | fetch | readLink | openDirectory | kernel => exact h.elim

end Origin

namespace Call

open Asking Origin
open Resolver (Ends)

variable {o : Origin} {s₀ : Store} {v : View} {c : Call}

/-- What comes of an operation becomes the answer of a call. -/
theorem meets_answer {α : Type} {t : Terms View} {m : Resolver α} {P : View → α → Prop} {E : Prop}
    {Q : View → Answer → Prop} {answer : α → Answer} (h : (m v).Meets t (Ends o s₀ P E))
    (hQ : ∀ w a, P w a → Q w (answer a)) :
    ((m >>= fun a => pure (answer a) : Resolver Answer) v).Meets t (Ends o s₀ Q E) :=
  meets_bind h (fun w a hw => .of_ok hw.mirrors (hQ w a (hw.ok a rfl))) fun _ fault hw =>
    .of_error hw.mirrors (hw.error fault rfl)

/-- Every query ends as it should, whatever becomes of the mirror while it waits. -/
theorem meets_start (hm : o.IsMirrorable s₀) (h : Mirrors o s₀ v.store) (hc : c.IsQuery) :
    (c.start v).Meets (o.terms s₀) (o.Resolves s₀ c) := by
  cases c with
  | lookup p | stat p =>
      exact meets_answer (Resolver.meets_lookup hm h p) fun _ node hnode => ⟨node, rfl, hnode⟩
  | readDirectory p =>
      exact meets_answer (Resolver.meets_readDirectory hm h p) fun _ entries hentries =>
        ⟨entries, rfl, hentries⟩
  | openFile p name =>
      exact meets_answer (Resolver.meets_openFile hm h p) fun _ f hf => ⟨f, rfl, hf⟩
  | fetch | readLink | openDirectory | kernel => exact hc.elim

theorem asksAtMost_start (hc : c.IsQuery) : AsksAtMost c.start (2 * c.path.depth + 1) := by
  cases c with
  | lookup p | stat p =>
      exact AsksAtMost.bind (Resolver.asksAtMost_lookup p) fun _ => (isSilent_pure _).asksAtMost 1
  | readDirectory p =>
      exact (Resolver.asksAtMost_readDirectory p).bind_isSilent fun _ => isSilent_pure _
  | openFile p name =>
      exact (Resolver.asksAtMost_openFile p).bind_isSilent fun _ => isSilent_pure _
  | fetch | readLink | openDirectory | kernel => exact hc.elim

theorem calmFrom_answer {α : Type} {plan : Plan α} {m : Resolver α} (h : plan.meaning = m)
    (answer : α → Answer) (v : View) :
    ((m >>= fun a => pure (answer a) : Resolver Answer) v).CalmFrom v := by
  subst h
  exact (plan.calmFrom_meaning v).andThen fun a u => .refl u

theorem calmFrom_start (hc : c.IsQuery) (v : View) : (c.start v).CalmFrom v := by
  cases c with
  | lookup p | stat p => exact calmFrom_answer (Plan.meaning_lookup p) .node v
  | readDirectory p => exact calmFrom_answer (Plan.meaning_readDirectory p) .listed v
  | openFile p name => exact calmFrom_answer (Plan.meaning_openFile p) .opened v
  | fetch | readLink | openDirectory | kernel => exact hc.elim

end Call
end OnDemandFs
