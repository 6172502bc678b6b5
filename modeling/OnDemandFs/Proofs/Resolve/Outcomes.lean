import OnDemandFs.Proofs.Resolve.Presented
import OnDemandFs.Proofs.Resolve.Queries
import OnDemandFs.Session.Settle

/-!
# What operations come to

An operation is about the path that it was called for, however it gets there: the node that it
reports is the one at that path, with the number that was answered for that path, and an opened file
is one that the disk answered with. `Plan.Ends` follows a plan through all answers to its queries of
which no more is known than that, whatever else the cache and the helper answer.
-/
namespace OnDemandFs

/-- What may be known of the answers to queries: the numbers of paths, and which files were made. -/
structure Known where
  number : Path → NodeId → Prop
  file : FileId → Prop

/-- An answer that agrees with what is known. -/
def Known.Allows (k : Known) {β : Type} : Query β → β → Prop
  | .number p, id => k.number p id
  | .body _, found => ∀ file e, found = .ok (some (file, e)) → k.file file
  | .ask _, _ | .entry _, _ | .index _, _ | .names _, _ | .facts, _ => True

namespace Plan
variable {α β γ : Type} {k : Known} {P : α → Prop} {Q : β → Prop}

/-- Whatever allowed answers it gets, what the plan comes to is as told. -/
def Ends (k : Known) (P : α → Prop) : Plan α → Prop
  | ended r => ∀ a, r = .ok a → P a
  | query q next => ∀ b, k.Allows q b → (next b).Ends k P

theorem Ends.bind {plan : Plan α} {f : α → Plan β} (h : plan.Ends k P)
    (hf : ∀ a, P a → (f a).Ends k Q) : (plan >>= f).Ends k Q := by
  change (plan.andThen f).Ends k Q
  induction plan with
  | ended r =>
      cases r with
      | ok a => exact hf a (h a rfl)
      | error fault => nofun
  | query q next ih => exact fun b hb => ih b (h b hb)

theorem Ends.mono {P' : α → Prop} {plan : Plan α} (h : plan.Ends k P) (hP : ∀ a, P a → P' a) :
    plan.Ends k P' := by
  induction plan with
  | ended r => exact fun a ha => hP a (h a ha)
  | query q next ih => exact fun b hb => ih b (h b hb)

/-- Nothing need be known of a result that is of no consequence. -/
theorem ends_any (k : Known) (plan : Plan α) : plan.Ends k fun _ => True := by
  induction plan with
  | ended r => exact fun _ _ => trivial
  | query q next ih => exact fun b _ => ih b

theorem ends_pure {a : α} (h : P a) : (pure a : Plan α).Ends k P := by
  rintro _ ⟨⟩
  exact h

theorem ends_fail (fault : Fault) : (fail fault : Plan α).Ends k P := nofun

theorem ends_ended (r : Except Fault α) : (ended r).Ends k fun a => r = .ok a := fun _ h => h

theorem Ends.mapM {f : γ → Plan β} {l : List γ} (hf : ∀ c ∈ l, (f c).Ends k Q) :
    (l.mapM f).Ends k fun bs => ∀ b ∈ bs, Q b := by
  induction l with
  | nil => exact ends_pure nofun
  | cons c l ih =>
      rw [List.mapM_cons]
      refine (hf c List.mem_cons_self).bind fun b hb => ?_
      refine (ih fun c' hc' => hf c' (List.mem_cons_of_mem _ hc')).bind fun bs hbs => ?_
      exact ends_pure (List.forall_mem_cons.mpr ⟨hb, hbs⟩)

theorem ends_number (p : Path) : (number p).Ends k fun id => k.number p id :=
  fun _ hid => ends_pure hid

/-! ### The walk keeps to its path -/

variable {dir : Path} {n : String}

theorem ends_volatileChild (child : Path) :
    (volatileChild child).Ends k fun x => x.path = child := by
  refine (ends_any k _).bind fun _ _ => (ends_any k _).bind fun found _ => ?_
  refine (ends_ended _).mono fun x hx => ?_
  obtain ⟨e, -, hstanding⟩ := bind_eq_ok_iff.mp hx
  exact Store.path_of_standing hstanding

theorem ends_resolveChild (dir : Path) (n : String) :
    (resolveChild dir n).Ends k fun x => x.path = dir.extend n := by
  unfold resolveChild
  split
  · exact ends_fail _
  · refine (ends_any k _).bind fun index _ => ?_
    rcases index with _ | _ | entries
    · exact ends_fail _
    · exact ends_volatileChild _
    · unfold childIn
      dsimp only
      split
      · exact ends_fail _
      · exact ends_pure rfl

theorem ends_walk (x : Resolved) {names : List String} (hnames : ∀ n ∈ names, IsSegment n) :
    (walk x names).Ends k fun y => y.path.names = x.path.names ++ names := by
  induction names generalizing x with
  | nil => exact ends_pure (List.append_nil _).symm
  | cons n rest ih =>
      unfold walk
      split
      · refine (ends_resolveChild x.path n).bind fun y hy => ?_
        refine (ih y fun m hm => hnames m (List.mem_cons_of_mem _ hm)).mono fun z hz => ?_
        rw [hz, hy, Path.names_extend_of_isSegment _ (hnames n List.mem_cons_self),
          List.append_assoc, List.singleton_append]
      · exact ends_fail _

theorem ends_walkFromRoot (p : Path) : (walkFromRoot p).Ends k fun x => x.path = p := by
  unfold walkFromRoot
  split
  · next hnames => exact ends_pure (Path.ext_names hnames.symm)
  · next name rest hnames =>
      split
      · next kind hbuiltin =>
          dsimp only
          split
          · next hrest =>
              refine ends_pure (Path.ext_names ?_)
              rw [hnames, List.isEmpty_iff.mp hrest,
                Path.names_extend_of_isSegment _ (Store.isSegment_of_builtin hbuiltin)]
              rfl
          · exact ends_fail _
      · have hsegments : ∀ m ∈ name :: rest, IsSegment m := by
          rw [← hnames]
          exact p.allSegments
        refine (ends_walk _ hsegments).mono fun x hx => Path.ext_names ?_
        rw [hx, hnames]
        rfl

theorem ends_resolve (p : Path) : (resolve p).Ends k fun x => x.path = p := by
  refine (ends_walkFromRoot p).bind fun x hx => ?_
  split
  · exact (ends_any k _).bind fun told _ => (ends_any k _).bind fun kind _ => ends_pure hx
  · exact ends_pure hx

/-! ### The operations -/

theorem ends_lookup (p : Path) : (lookup p).Ends k fun n => n.path = p ∧ k.number p n.id := by
  refine (ends_resolve p).bind fun x hx => (ends_any k _).bind fun attr _ => ?_
  refine (ends_number x.path).bind fun id hid => ends_pure ⟨hx, ?_⟩
  rw [← hx]
  exact hid

theorem ends_listBuiltins : listBuiltins.Ends k fun es =>
    ∀ e ∈ es, k.number (Path.root.extend e.name) e.id :=
  Ends.mapM fun _ _ => (ends_number _).bind fun _ hid => ends_pure hid

theorem ends_listChild (dir : Path) (c : String × EntryKind) :
    (listChild dir c).Ends k fun e => k.number (dir.extend e.name) e.id :=
  (ends_any k _).bind fun _ _ => (ends_number _).bind fun _ hid => ends_pure hid

theorem ends_readDirectory (p : Path) : (readDirectory p).Ends k fun es =>
    ∀ e ∈ es, k.number (p.extend e.name) e.id := by
  refine (ends_resolve p).bind fun x hx => ?_
  subst hx
  split
  · have hfirst : (firstEntries x.path).Ends k fun es =>
        ∀ e ∈ es, k.number (x.path.extend e.name) e.id := by
      unfold firstEntries
      split
      · next hroot =>
          have hpath : x.path = .root := Path.ext_names (List.isEmpty_iff.mp hroot)
          rw [hpath]
          exact ends_listBuiltins
      · exact ends_pure nofun
    refine hfirst.bind fun first hfirst => (ends_any k _).bind fun index _ =>
      (ends_any k _).bind fun names _ => ?_
    refine (Ends.mapM fun c _ => ends_listChild x.path c).bind fun rest hrest => ?_
    exact ends_pure (List.forall_mem_append.mpr ⟨hfirst, hrest⟩)
  · exact ends_fail _

theorem ends_openBody (x : Resolved) : (openBody x).Ends k fun f =>
    f.node.path = x.path ∧ k.number x.path f.node.id ∧ k.file f.file := by
  have hbody : (body x.path).Ends k fun found => ∀ file e, found = .ok (some (file, e)) →
      k.file file := fun _ hfound => ends_pure hfound
  refine hbody.bind fun told htold => (ends_ended told).bind fun found hfound => ?_
  subst hfound
  split
  · next file e => exact (ends_number _).bind fun id hid => ends_pure ⟨rfl, hid, htold file e rfl⟩
  · exact ends_fail _

theorem ends_openFile (p : Path) : (openFile p).Ends k fun f =>
    f.node.path = p ∧ k.number p f.node.id ∧ k.file f.file := by
  refine (ends_resolve p).bind fun x hx => ?_
  subst hx
  split
  · exact (ends_any k _).bind fun _ _ => ends_openBody x
  · exact ends_fail _
  · exact ends_fail _
  · exact ends_fail _
  · exact ends_fail _

end Plan

/-! ### Calls -/

namespace Call

/-- The plan of the operation that a call begins. -/
def plan : Call → Plan Answer
  | fetch p => do Plan.ask p; pure .nothing
  | lookup p | stat p | kernel (.node p _) => do pure (.node (← Plan.lookup p))
  | readDirectory p | openDirectory _ p | kernel (.listing _ p) => do
    pure (.listed (← Plan.readDirectory p))
  | openFile p _ | kernel (.file p) => do pure (.opened (← Plan.openFile p))
  | readLink p | kernel (.link p) => do pure (.text (← Plan.readLink p))
  | kernel (.request _) => pure .nothing

theorem meaning_plan (c : Call) : c.plan.meaning = c.start := by
  have hnode (p : Path) : (do pure (Answer.node (← Plan.lookup p)) : Plan Answer).meaning =
      (do return .node (← Resolver.lookup p)) := by
    simp only [Plan.meaning_bind, Plan.meaning_lookup, Plan.meaning_pure]
  have hlisted (p : Path) :
      (do pure (Answer.listed (← Plan.readDirectory p)) : Plan Answer).meaning =
      (do return .listed (← Resolver.readDirectory p)) := by
    simp only [Plan.meaning_bind, Plan.meaning_readDirectory, Plan.meaning_pure]
  have hopened (p : Path) : (do pure (Answer.opened (← Plan.openFile p)) : Plan Answer).meaning =
      (do return .opened (← Resolver.openFile p)) := by
    simp only [Plan.meaning_bind, Plan.meaning_openFile, Plan.meaning_pure]
  have htext (p : Path) : (do pure (Answer.text (← Plan.readLink p)) : Plan Answer).meaning =
      (do return .text (← Resolver.readLink p)) := by
    simp only [Plan.meaning_bind, Plan.meaning_readLink, Plan.meaning_pure]
  cases c with
  | fetch p => simp only [plan, start, Plan.ask, Plan.meaning_bind, Plan.meaning_query,
      Plan.meaning_pure, Query.answer]
  | lookup p | stat p => exact hnode p
  | readDirectory p | openDirectory _ p => exact hlisted p
  | openFile p _ => exact hopened p
  | readLink p => exact htext p
  | kernel need =>
      cases need with
      | node p _ => exact hnode p
      | link p => exact htext p
      | file p => exact hopened p
      | listing _ p => exact hlisted p
      | request _ => rfl

end Call

/-- An answer that is about a path. -/
def Answer.IsAbout (p : Path) (k : Known) : Answer → Prop
  | .node n => n.path = p ∧ k.number p n.id
  | .opened f => f.node.path = p ∧ k.number p f.node.id ∧ k.file f.file
  | .listed es => ∀ e ∈ es, k.number (p.extend e.name) e.id
  | .text _ | .nothing => True

theorem Call.ends_plan (c : Call) (k : Known) : c.plan.Ends k (Answer.IsAbout c.path k) := by
  have hnode (p : Path) : (do pure (.node (← Plan.lookup p)) : Plan Answer).Ends k
      (Answer.IsAbout p k) :=
    (Plan.ends_lookup p).bind fun _ hn => Plan.ends_pure hn
  have hlisted (p : Path) : (do pure (.listed (← Plan.readDirectory p)) : Plan Answer).Ends k
      (Answer.IsAbout p k) :=
    (Plan.ends_readDirectory p).bind fun _ hes => Plan.ends_pure hes
  have hopened (p : Path) : (do pure (.opened (← Plan.openFile p)) : Plan Answer).Ends k
      (Answer.IsAbout p k) :=
    (Plan.ends_openFile p).bind fun _ hf => Plan.ends_pure hf
  have htext (p : Path) : (do pure (.text (← Plan.readLink p)) : Plan Answer).Ends k
      (Answer.IsAbout p k) :=
    (Plan.ends_any k _).bind fun _ _ => Plan.ends_pure trivial
  cases c with
  | fetch p => exact (Plan.ends_any k _).bind fun _ _ => Plan.ends_pure trivial
  | lookup p | stat p => exact hnode p
  | readDirectory p | openDirectory _ p => exact hlisted p
  | openFile p _ => exact hopened p
  | readLink p => exact htext p
  | kernel need =>
      cases need with
      | node p _ => exact hnode p
      | link p => exact htext p
      | file p => exact hopened p
      | listing _ p => exact hlisted p
      | request _ => exact Plan.ends_pure trivial

end OnDemandFs
