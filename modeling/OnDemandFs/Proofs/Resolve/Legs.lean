import OnDemandFs.Proofs.Resolve.Asked
import OnDemandFs.Proofs.Resolve.Queries

/-!
# The legs of an operation

An operation goes on from one request to the next, and anything may become of the cache while it
waits. On no leg of its way does it change the cache itself, and the legs are few: it asks at most
twice for each segment of its path and once more for what it is after.
So it ends if its requests are closed.
-/
namespace OnDemandFs

namespace Inquiry
variable {σ α β : Type}

/-- No way through the inquiry asks for more than so many paths. -/
def AsksAtMost : Inquiry σ α → Nat → Prop
  | done _ _, _ => True
  | asks _ _ resume, n => 0 < n ∧ ∀ s, (resume s).AsksAtMost (n - 1)

theorem AsksAtMost.mono {i : Inquiry σ α} {m n : Nat} (h : i.AsksAtMost m) (hmn : m ≤ n) :
    i.AsksAtMost n := by
  induction i generalizing m n with
  | done s r => trivial
  | asks s p resume ih =>
      obtain ⟨hpos, hresume⟩ := h
      exact ⟨Nat.lt_of_lt_of_le hpos hmn, fun s' => ih s' (hresume s') (Nat.sub_le_sub_right hmn 1)⟩

theorem AsksAtMost.andThen {i : Inquiry σ α} {f : α → Asking σ β} {m n : Nat} (h : i.AsksAtMost m)
    (hf : ∀ a s, (f a s).AsksAtMost n) : (i.andThen f).AsksAtMost (m + n) := by
  induction i generalizing m with
  | done s r =>
      cases r with
      | ok a => exact (hf a s).mono (Nat.le_add_left n m)
      | error fault => trivial
  | asks s p resume ih =>
      obtain ⟨hpos, hresume⟩ := h
      refine ⟨Nat.add_pos_left hpos n, fun s' => ?_⟩
      rw [Nat.sub_add_comm hpos]
      exact ih s' (hresume s')

/-- From where it starts, and from wherever it goes on, the inquiry leaves the cache as
it finds it. -/
def CalmFrom (v : View) : Inquiry View α → Prop
  | done w _ => v.Calm w
  | asks w _ resume => v.Calm w ∧ ∀ u, (resume u).CalmFrom u

variable {v w : View}

theorem CalmFrom.of_calm {i : Inquiry View α} (hcalm : v.Calm w) (h : i.CalmFrom w) :
    i.CalmFrom v := by
  cases i with
  | done u r => exact hcalm.trans h
  | asks u p resume => exact ⟨hcalm.trans h.1, h.2⟩

theorem CalmFrom.andThen {i : Inquiry View α} {f : α → Asking View β} (h : i.CalmFrom v)
    (hf : ∀ a u, (f a u).CalmFrom u) : (i.andThen f).CalmFrom v := by
  induction i generalizing v with
  | done w r =>
      cases r with
      | ok a => exact (hf a w).of_calm h
      | error fault => exact h
  | asks w p resume ih => exact ⟨h.1, fun u => ih u (h.2 u)⟩

end Inquiry

/-- No query changes the cache. -/
theorem Query.calmFrom_answer {β : Type} (q : Query β) (v : View) : (q.answer v).CalmFrom v := by
  cases q with
  | ask p => exact ⟨.refl v, fun u => .refl u⟩
  | index dir => exact ⟨v.store.alike_readIndex dir, rfl, rfl, List.prefix_rfl⟩
  | number p => exact Resolver.calm_identify p v
  | entry | names | body | facts => exact .refl v

/-- Whatever can be planned leaves the cache as it finds it. -/
theorem Plan.calmFrom_meaning {α : Type} (plan : Plan α) (v : View) :
    (plan.meaning v).CalmFrom v := by
  induction plan generalizing v with
  | ended r => exact .refl v
  | query q next ih => exact (q.calmFrom_answer v).andThen fun b u => ih b u

namespace Asking
variable {σ α β : Type} {m : Asking σ α} {f : α → Asking σ β} {k n : Nat}

/-- From whatever state it starts, the operation asks for no more than so many paths. -/
def AsksAtMost (m : Asking σ α) (n : Nat) : Prop := ∀ s, (m s).AsksAtMost n

theorem AsksAtMost.bind (hm : AsksAtMost m k) (hf : ∀ a, AsksAtMost (f a) n) :
    AsksAtMost (m >>= f) (k + n) :=
  fun s => (hm s).andThen fun a s' => hf a s'

theorem IsSilent.asksAtMost (h : IsSilent m) (n : Nat) : AsksAtMost m n := by
  intro s
  rw [Inquiry.eq_done_of_asked_eq_nil (h (.closing fun _ _ s => s) [] s)]
  trivial

/-- What is done in silence does not count. -/
theorem IsSilent.bind_asksAtMost (hm : IsSilent m) (hf : ∀ a, AsksAtMost (f a) n) :
    AsksAtMost (m >>= f) n := by
  have hbind := (hm.asksAtMost 0).bind hf
  rwa [Nat.zero_add] at hbind

theorem AsksAtMost.bind_isSilent (hm : AsksAtMost m n) (hf : ∀ a, IsSilent (f a)) :
    AsksAtMost (m >>= f) n :=
  hm.bind fun a => (hf a).asksAtMost 0

theorem asksAtMost_ask (p : Path) : AsksAtMost (ask p : Asking σ Unit) 1 :=
  fun _ => ⟨Nat.one_pos, fun _ => trivial⟩

theorem isSilent_fail (fault : Fault) : IsSilent (fail fault : Asking σ α) := fun _ _ _ => rfl

end Asking

namespace Resolver

open Asking

theorem isSilent_stat (p : Path) : IsSilent (stat p) := fun _ _ _ => rfl

theorem asksAtMost_askForIndex (dir : Path) : AsksAtMost (askForIndex dir) 1 := by
  refine (asksAtMost_ask dir).bind_isSilent fun _ => (isSilent_attempt _).bind fun held => ?_
  cases held with
  | index index => exact isSilent_pure _
  | absent => exact isSilent_pure _
  | foreign => exact isSilent_fail _

theorem asksAtMost_ensureIndex (dir : Path) : AsksAtMost (ensureIndex dir) 1 := by
  refine (isSilent_attempt _).bind_asksAtMost fun held => ?_
  cases held with
  | index index => exact (isSilent_pure _).asksAtMost 1
  | absent => exact asksAtMost_askForIndex dir
  | foreign => exact asksAtMost_askForIndex dir

theorem asksAtMost_volatileChild (child : Path) : AsksAtMost (volatileChild child) 1 := by
  refine (asksAtMost_ask child).bind_isSilent fun _ => (isSilent_stat child).bind fun found => ?_
  rcases found with _ | ⟨kind, _, _, _⟩
  · exact isSilent_fail _
  · cases kind with
    | file => exact isSilent_pure _
    | directory => exact isSilent_pure _
    | other => exact isSilent_fail _

theorem asksAtMost_resolveChild (dir : Path) (n : String) : AsksAtMost (resolveChild dir n) 2 := by
  by_cases hname : n = ".." ∨ IsReserved n
  · rw [resolveChild_eq_fail hname]
    exact (isSilent_fail _).asksAtMost 2
  · rw [resolveChild_eq hname]
    refine (asksAtMost_ensureIndex dir).bind (n := 1) fun index => ?_
    rcases index with _ | _ | entries
    · exact (isSilent_fail _).asksAtMost 1
    · exact asksAtMost_volatileChild _
    · unfold childIn
      dsimp only
      split
      · exact (isSilent_fail _).asksAtMost 1
      · exact (isSilent_pure _).asksAtMost 1

/-- Twice for each segment. -/
theorem asksAtMost_walkFromRoot (p : Path) : AsksAtMost (walkFromRoot p) (2 * p.depth) := by
  induction p using Path.extendInduction with
  | root => exact (isSilent_pure _).asksAtMost 0
  | extend q n hn ih =>
      have hdepth : 2 * (q.extend n).depth = 2 * q.depth + 2 := by
        unfold Path.depth
        rw [q.names_extend_of_isSegment hn, List.length_append, List.length_singleton]
        omega
      rw [walkFromRoot_extend q hn, hdepth]
      refine ih.bind fun x => ?_
      rcases into_cases q.isRoot x n with
        ⟨-, -, -, hinto⟩ | ⟨kind, -, -, hinto⟩ | ⟨fault, hinto⟩ <;> rw [hinto]
      · exact asksAtMost_resolveChild _ n
      · exact (isSilent_pure _).asksAtMost 2
      · exact (isSilent_fail _).asksAtMost 2

theorem asksAtMost_resolve (p : Path) : AsksAtMost (resolve p) (2 * p.depth) := by
  refine (asksAtMost_walkFromRoot p).bind_isSilent fun x => ?_
  split
  · exact (isSilent_attempt _).bind fun _ => isSilent_pure _
  · exact isSilent_pure _

theorem asksAtMost_lookup (p : Path) : AsksAtMost (lookup p) (2 * p.depth) := by
  refine (asksAtMost_resolve p).bind_isSilent fun x => ?_
  exact isSilent_get.bind fun _ => (isSilent_lift _).bind fun _ => (isSilent_act _).bind fun _ =>
    isSilent_pure _

theorem asksAtMost_openFile (p : Path) : AsksAtMost (openFile p) (2 * p.depth + 1) := by
  refine (asksAtMost_resolve p).bind fun x => ?_
  cases x.kind with
  | file =>
      refine AsksAtMost.bind_isSilent ?_ fun _ => isSilent_attempt _
      refine (isSilent_stat x.path).bind_asksAtMost fun cached =>
        isSilent_get.bind_asksAtMost fun w => ?_
      split
      · exact (isSilent_pure _).asksAtMost 1
      · refine (asksAtMost_ask x.path).bind_isSilent fun _ => (isSilent_stat x.path).bind
          fun found => ?_
        cases found with
        | none => exact isSilent_fail _
        | some e =>
            dsimp only
            split
            · exact isSilent_pure _
            · exact isSilent_fail _
  | staticDirectory | dynamicDirectory | symlink | control => exact (isSilent_fail _).asksAtMost 1

theorem asksAtMost_indexForListing (dir : Path) : AsksAtMost (indexForListing dir) 1 := by
  refine (isSilent_attempt _).bind_asksAtMost fun held => ?_
  rcases held with _ | (_ | entries) | _
  · exact asksAtMost_askForIndex dir
  · exact asksAtMost_askForIndex dir
  · exact (isSilent_pure _).asksAtMost 1
  · exact asksAtMost_askForIndex dir

theorem asksAtMost_readDirectory (p : Path) : AsksAtMost (readDirectory p) (2 * p.depth + 1) := by
  rw [readDirectory_eq]
  refine (asksAtMost_resolve p).bind fun x => ?_
  split
  · refine IsSilent.bind_asksAtMost ?_ fun first => ?_
    · cases x.path.isRoot with
      | false => exact isSilent_pure []
      | true =>
          exact IsSilent.mapM (fun c => (isSilent_act _).bind fun _ => isSilent_pure _) builtins
    · refine (asksAtMost_indexForListing x.path).bind_isSilent fun index => ?_
      exact isSilent_get.bind fun _ => (isSilent_lift _).bind fun names =>
        (IsSilent.mapM (isSilent_listChild x.path) _).bind fun _ => isSilent_pure _
  · exact (isSilent_fail _).asksAtMost 1

end Resolver
end OnDemandFs
