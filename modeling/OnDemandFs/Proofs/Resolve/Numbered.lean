import OnDemandFs.Proofs.Resolve.Confined
import OnDemandFs.Proofs.Resolve.Outcomes

/-!
# Which paths get numbers

Of the paths that an operation comes by it gives numbers to few. A look-up numbers the path that it
is for and an open does so too, but the directories on the way get no number; a listing numbers what
it lists and not the directory itself. `Plan.Numbers` follows a plan through all sound answers and
says which paths it gives numbers to; `Call.numbers_plan` has it for each call.
-/
namespace OnDemandFs

namespace Query
variable {β : Type}

/-- The paths that a query gives numbers to. -/
def numbered : Query β → List Path
  | number p => [p]
  | ask _ | entry _ | index _ | names _ | body _ | facts => []

end Query

/-- Nothing is known. -/
def Known.anything : Known := ⟨fun _ _ => True, fun _ => True⟩

theorem Known.allows_anything {β : Type} (q : Query β) (b : β) : Known.anything.Allows q b := by
  cases q with
  | body => exact fun _ _ _ => trivial
  | ask | entry | index | names | number | facts => trivial

namespace Plan
variable {α β γ : Type} {N : Path → Prop} {P : α → Prop} {Q : β → Prop}

/-- Whatever sound answers it gets, the plan gives numbers to such paths only, and what it comes to
is as told. -/
def Numbers (N : Path → Prop) (P : α → Prop) : Plan α → Prop
  | ended r => ∀ a, r = .ok a → P a
  | query q next => (∀ p ∈ q.numbered, N p) ∧ ∀ b, q.IsSound b → (next b).Numbers N P

theorem Numbers.bind {plan : Plan α} {f : α → Plan β} (h : plan.Numbers N P)
    (hf : ∀ a, P a → (f a).Numbers N Q) : (plan >>= f).Numbers N Q := by
  change (plan.andThen f).Numbers N Q
  induction plan with
  | ended r =>
      cases r with
      | ok a => exact hf a (h a rfl)
      | error fault => nofun
  | query q next ih => exact ⟨h.1, fun b hb => ih b (h.2 b hb)⟩

theorem Numbers.mono {N' : Path → Prop} {P' : α → Prop} {plan : Plan α} (h : plan.Numbers N P)
    (hN : ∀ p, N p → N' p) (hP : ∀ a, P a → P' a) : plan.Numbers N' P' := by
  induction plan with
  | ended r => exact fun a ha => hP a (h a ha)
  | query q next ih => exact ⟨fun p hp => hN p (h.1 p hp), fun b hb => ih b (h.2 b hb)⟩

/-- What else is known of the result can be added. -/
theorem Numbers.and_within {P' : α → Prop} {plan : Plan α} (h : plan.Numbers N P)
    (hwithin : plan.Within P') : plan.Numbers N fun a => P a ∧ P' a := by
  induction plan with
  | ended r => exact fun a ha => ⟨h a ha, hwithin a ha⟩
  | query q next ih => exact ⟨h.1, fun b hb => ih b (h.2 b hb) (hwithin.2 b hb)⟩

theorem Numbers.and_ends {P' : α → Prop} {plan : Plan α} (h : plan.Numbers N P)
    (hends : plan.Ends .anything P') : plan.Numbers N fun a => P a ∧ P' a := by
  induction plan with
  | ended r => exact fun a ha => ⟨h a ha, hends a ha⟩
  | query q next ih =>
      exact ⟨h.1, fun b hb => ih b (h.2 b hb) (hends b (Known.allows_anything q b))⟩

theorem numbers_pure {a : α} (h : P a) : (pure a : Plan α).Numbers N P := by
  rintro _ ⟨⟩
  exact h

theorem numbers_fail (fault : Fault) : (fail fault : Plan α).Numbers N P := nofun

theorem Numbers.mapM {f : γ → Plan β} {l : List γ} (hf : ∀ c ∈ l, (f c).Numbers N Q) :
    (l.mapM f).Numbers N fun bs => ∀ b ∈ bs, Q b := by
  induction l with
  | nil => exact numbers_pure nofun
  | cons c l ih =>
      rw [List.mapM_cons]
      refine (hf c List.mem_cons_self).bind fun b hb => ?_
      refine (ih fun c' hc' => hf c' (List.mem_cons_of_mem _ hc')).bind fun bs hbs => ?_
      exact numbers_pure (List.forall_mem_cons.mpr ⟨hb, hbs⟩)

theorem numbers_number {p : Path} (hp : N p) : (number p).Numbers N fun _ => True :=
  ⟨fun _ hq => List.mem_singleton.mp hq ▸ hp, fun _ _ => numbers_pure trivial⟩

/-! ### The walk gives no numbers -/

theorem silent_query {q : Query α} (hq : q.numbered = []) :
    (query q pure : Plan α).Numbers N fun _ => True := by
  refine ⟨?_, fun _ _ => numbers_pure trivial⟩
  rw [hq]
  exact nofun

theorem silent_ended (r : Except Fault α) : (ended r).Numbers N fun _ => True :=
  fun _ _ => trivial

theorem silent_held (dir : Path) : (held dir).Numbers N fun _ => True := by
  refine (silent_query rfl).bind fun found _ => ?_
  rcases found with fault | _ | e
  · exact numbers_pure trivial
  · exact numbers_pure trivial
  · dsimp only
    split
    · exact (silent_query rfl).bind fun _ _ => numbers_pure trivial
    · exact numbers_pure trivial

theorem silent_peek (dir : Path) : (peek dir).Numbers N fun _ => True :=
  (silent_held dir).bind fun _ _ => silent_ended _

theorem silent_askForIndex (dir : Path) : (askForIndex dir).Numbers N fun _ => True := by
  refine (silent_query rfl).bind fun _ _ => (silent_peek dir).bind fun held _ => ?_
  cases held with
  | index | absent => exact numbers_pure trivial
  | foreign => exact numbers_fail _

theorem silent_ensureIndex (dir : Path) : (ensureIndex dir).Numbers N fun _ => True := by
  refine (silent_peek dir).bind fun held _ => ?_
  cases held with
  | index => exact numbers_pure trivial
  | absent | foreign => exact silent_askForIndex dir

theorem silent_directoryKind (dir : Path) : (directoryKind dir).Numbers N fun _ => True :=
  (silent_held dir).bind fun _ _ => numbers_pure trivial

theorem silent_volatileChild (child : Path) : (volatileChild child).Numbers N fun _ => True :=
  (silent_query rfl).bind fun _ _ => (silent_query rfl).bind fun _ _ => silent_ended _

theorem silent_resolveChild (dir : Path) (n : String) :
    (resolveChild dir n).Numbers N fun _ => True := by
  unfold resolveChild
  split
  · exact numbers_fail _
  · refine (silent_ensureIndex dir).bind fun index _ => ?_
    rcases index with _ | _ | entries
    · exact numbers_fail _
    · exact silent_volatileChild _
    · unfold childIn
      dsimp only
      split
      · exact numbers_fail _
      · exact numbers_pure trivial

theorem silent_walk (x : Resolved) (names : List String) :
    (walk x names).Numbers N fun _ => True := by
  induction names generalizing x with
  | nil => exact numbers_pure trivial
  | cons n rest ih =>
      unfold walk
      split
      · exact (silent_resolveChild x.path n).bind fun y _ => ih y
      · exact numbers_fail _

theorem silent_walkFromRoot (p : Path) : (walkFromRoot p).Numbers N fun _ => True := by
  unfold walkFromRoot
  split
  · exact numbers_pure trivial
  · split
    · dsimp only
      split
      · exact numbers_pure trivial
      · exact numbers_fail _
    · exact silent_walk _ _

theorem silent_resolve (p : Path) : (resolve p).Numbers N fun _ => True := by
  refine (silent_walkFromRoot p).bind fun x _ => ?_
  split
  · exact (silent_directoryKind x.path).bind fun _ _ => (silent_ended _).bind fun _ _ =>
      numbers_pure trivial
  · exact numbers_pure trivial

/-- The walk ends at its path, if it ends well. -/
theorem numbers_resolve (p : Path) :
    (resolve p).Numbers N fun x => x.path = p ∧ p.IsConfined := by
  refine (((silent_resolve p).and_ends (ends_resolve p)).and_within (within_resolve p)).mono
    (fun _ => id) ?_
  rintro x ⟨⟨-, rfl⟩, hconfined⟩
  exact ⟨rfl, hconfined⟩

/-! ### The operations -/

variable {p dir : Path}

theorem silent_attributes (x : Resolved) : (attributes x).Numbers N fun _ => True := by
  unfold attributes
  rcases x.kind with _ | _ | _ | _ | _
  · refine (silent_query rfl).bind fun _ _ => (silent_ended _).bind fun found _ => ?_
    split <;> exact numbers_pure trivial
  · refine (silent_query rfl).bind fun _ _ => (silent_ended _).bind fun found _ => ?_
    split <;> exact numbers_pure trivial
  · refine (silent_query rfl).bind fun _ _ => (silent_ended _).bind fun found _ => ?_
    split <;> exact numbers_pure trivial
  · exact (silent_query rfl).bind fun _ _ => numbers_pure trivial
  · exact (silent_query rfl).bind fun _ _ => numbers_pure trivial

theorem numbers_lookup (hp : N p) : (lookup p).Numbers N fun _ => True := by
  refine (numbers_resolve p).bind fun x hx => (silent_attributes x).bind fun _ _ => ?_
  rw [hx.1]
  exact (numbers_number hp).bind fun _ _ => numbers_pure trivial

theorem silent_ensureBody (x : Resolved) : (ensureBody x).Numbers N fun _ => True := by
  refine (silent_query rfl).bind fun _ _ => (silent_ended _).bind fun cached _ =>
    (silent_query rfl).bind fun m _ => ?_
  split
  · exact numbers_pure trivial
  · refine (silent_query rfl).bind fun _ _ => (silent_query rfl).bind fun _ _ =>
      (silent_ended _).bind fun found _ => ?_
    split
    · split
      · exact numbers_pure trivial
      · exact numbers_fail _
    · exact numbers_fail _

theorem numbers_openBody {x : Resolved} (hx : N x.path) :
    (openBody x).Numbers N fun _ => True := by
  refine (silent_query rfl).bind fun _ _ => (silent_ended _).bind fun found _ => ?_
  split
  · exact (numbers_number hx).bind fun _ _ => numbers_pure trivial
  · exact numbers_fail _

theorem numbers_openFile (hp : N p) : (openFile p).Numbers N fun _ => True := by
  refine (numbers_resolve p).bind fun x hx => ?_
  split
  · exact (silent_ensureBody x).bind fun _ _ => numbers_openBody (hx.1 ▸ hp)
  · exact numbers_fail _
  · exact numbers_fail _
  · exact numbers_fail _
  · exact numbers_fail _

theorem silent_readLink (p : Path) : (readLink p).Numbers N fun _ => True := by
  refine (silent_resolve p).bind fun x _ => (silent_query rfl).bind fun _ _ => ?_
  split
  · exact numbers_pure trivial
  · exact numbers_fail _

theorem silent_indexForListing (dir : Path) : (indexForListing dir).Numbers N fun _ => True := by
  refine (silent_peek dir).bind fun held _ => ?_
  rcases held with _ | (_ | entries) | _
  · exact silent_askForIndex dir
  · exact silent_askForIndex dir
  · exact numbers_pure trivial
  · exact silent_askForIndex dir

theorem silent_children (dir : Path) (index : Option Index) :
    (children dir index).Numbers N fun _ => True := by
  rcases index with _ | _ | entries
  · unfold children
    dsimp only
    split
    · exact numbers_pure trivial
    · exact numbers_fail _
  · exact (silent_query rfl).bind fun _ _ => silent_ended _
  · exact numbers_pure trivial

theorem numbers_listChild {c : String × EntryKind} (hc : IsInner c.1) (hN : N (dir.extend c.1)) :
    (listChild dir c).Numbers N fun e => IsInner e.name := by
  have hkind : (childKind (dir.extend c.1) c.2).Numbers N fun _ => True := by
    cases c.2 with
    | file => exact numbers_pure trivial
    | directory =>
        refine (silent_directoryKind _).bind fun told _ => ?_
        cases told <;> exact numbers_pure trivial
  exact hkind.bind fun _ _ => (numbers_number hN).bind fun _ _ => numbers_pure hc

/-- The names of the built-in entries are like all others. -/
theorem isInner_of_mem_builtins {row : String × NodeKind} (h : row ∈ builtins) :
    IsInner row.1 := by
  rcases List.mem_pair.mp h with rfl | rfl
  · exact ⟨by decide, by decide, by decide⟩
  · exact ⟨by decide, by decide, by decide⟩

theorem numbers_firstEntries (hN : ∀ n, IsInner n → N (dir.extend n)) :
    (firstEntries dir).Numbers N fun es => ∀ e ∈ es, IsInner e.name := by
  unfold firstEntries
  split
  · next hroot =>
      have hdir : dir = .root := Path.ext_names (List.isEmpty_iff.mp hroot)
      subst hdir
      refine Numbers.mapM fun row hrow => ?_
      have hname := isInner_of_mem_builtins hrow
      exact (numbers_number (hN _ hname)).bind fun _ _ => numbers_pure hname
  · exact numbers_pure nofun

/-- Everything that is listed gets a number, as what the directory continues to. -/
theorem numbers_readDirectory (hN : ∀ n, IsInner n → N (p.extend n)) :
    (readDirectory p).Numbers N fun es => ∀ e ∈ es, IsInner e.name := by
  refine (numbers_resolve p).bind fun x hx => ?_
  obtain ⟨rfl, hconfined⟩ := hx
  split
  · refine (numbers_firstEntries hN).bind fun first hfirst => ?_
    refine ((silent_indexForListing x.path).and_within (within_indexForListing hconfined)).bind
      fun index hindex => ?_
    refine ((silent_children x.path index).and_within (within_children hconfined hindex.2)).bind
      fun names hnames => ?_
    refine (Numbers.mapM (Q := fun e => IsInner e.name) fun c hc => ?_).bind fun rest hrest =>
      numbers_pure (List.forall_mem_append.mpr ⟨hfirst, hrest⟩)
    have hname := hnames.2 c (List.mem_filter.mp hc).1
    exact numbers_listChild hname (hN _ hname)
  · exact numbers_fail _

end Plan

/-- What is listed leads nowhere else. -/
def Answer.IsTidy : Answer → Prop
  | .listed es => ∀ e ∈ es, IsInner e.name
  | .nothing | .node _ | .opened _ | .text _ => True

/-- The paths that a call may give numbers to. -/
def Call.Numbers : Call → Path → Prop
  | .lookup p, q | .stat p, q | .openFile p _, q => q = p
  | .kernel (.node p _), q | .kernel (.file p), q => q = p
  | .readDirectory p, q | .openDirectory _ p, q | .kernel (.listing _ p), q =>
    ∃ n, IsInner n ∧ q = p.extend n
  | .fetch _, _ | .readLink _, _ | .kernel (.link _), _ | .kernel (.request _), _ => False

theorem Call.numbers_plan (c : Call) : c.plan.Numbers c.Numbers Answer.IsTidy := by
  have hnode (p : Path) : (do pure (.node (← Plan.lookup p)) : Plan Answer).Numbers (· = p)
      Answer.IsTidy :=
    (Plan.numbers_lookup (N := (· = p)) rfl).bind fun _ _ => Plan.numbers_pure trivial
  have hopened (p : Path) : (do pure (.opened (← Plan.openFile p)) : Plan Answer).Numbers (· = p)
      Answer.IsTidy :=
    (Plan.numbers_openFile (N := (· = p)) rfl).bind fun _ _ => Plan.numbers_pure trivial
  have hlisted (p : Path) : (do pure (.listed (← Plan.readDirectory p)) : Plan Answer).Numbers
      (fun q => ∃ n, IsInner n ∧ q = p.extend n) Answer.IsTidy :=
    (Plan.numbers_readDirectory fun n hn => ⟨n, hn, rfl⟩).bind fun _ hes => Plan.numbers_pure hes
  have htext (p : Path) : (do pure (.text (← Plan.readLink p)) : Plan Answer).Numbers
      (fun _ => False) Answer.IsTidy :=
    (Plan.silent_readLink p).bind fun _ _ => Plan.numbers_pure trivial
  cases c with
  | fetch p => exact (Plan.silent_query rfl).bind fun _ _ => Plan.numbers_pure trivial
  | lookup p | stat p => exact hnode p
  | openFile p _ => exact hopened p
  | readDirectory p | openDirectory _ p => exact hlisted p
  | readLink p => exact htext p
  | kernel need =>
      cases need with
      | node p _ => exact hnode p
      | file p => exact hopened p
      | listing _ p => exact hlisted p
      | link p => exact htext p
      | request _ => exact Plan.numbers_pure trivial

end OnDemandFs
