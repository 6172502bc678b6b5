import OnDemandFs.Proofs.Resolve.Frugal
import OnDemandFs.Proofs.Resolve.Listing
import OnDemandFs.Proofs.Resolve.Terms

/-!
# Nodes that a client may remember

A cacheable node may be remembered, since looking it up again is supposed to tell the same without a
request. `lookup_again` says when it does: just if the walk meets static listings only. `Declared`
is the relation for this, by one case for each way in which a walk goes on without asking.

Whether a node is cacheable is settled by the last step of its walk. So a node that is declared by
the listing of some directory is cacheable also if that directory is below a dynamic one, and then
looking it up again asks for what is on the way. `not_lookup_again` is the smallest case of this.
-/
namespace OnDemandFs
namespace Store

/-- Static listings declare the node and all directories on the way to it. -/
inductive Declared (s : Store) : Resolved → Prop
  | top : Declared s top
  | builtin {n : String} {kind : NodeKind} (hn : IsSegment n) (h : builtin? n = some kind) :
      Declared s { path := Path.root.extend n, kind }
  | child {x : Resolved} {n : String} {entries : List Entry} {e : Entry} (hx : Declared s x)
      (hn : IsSegment n) (hsought : IsSought x n)
      (hheld : s.held x.path = .ok (.index (.listing entries)))
      (hfind : (Index.listing entries).find? n = some e) :
      Declared s { path := x.path.extend n, kind := .ofEntry e.kind, hint := some e }

/-- Each index that is held in the one store is held in the other. -/
def KeepsIndices (s t : Store) : Prop :=
  ∀ dir index, s.held dir = .ok (.index index) → t.held dir = .ok (.index index)

theorem KeepsIndices.trans {s t u : Store} (h : s.KeepsIndices t) (h' : t.KeepsIndices u) :
    s.KeepsIndices u :=
  fun dir index hheld => h' dir index (h dir index hheld)

theorem Alike.keepsIndices {s t : Store} (h : Alike s t) : s.KeepsIndices t :=
  fun dir _ hheld => (h.held dir).trans hheld

variable {s t : Store} {x y : Resolved} {p : Path} {n : String}

theorem Declared.mono (h : s.Declared x) (hkeeps : s.KeepsIndices t) : t.Declared x := by
  induction h with
  | top => exact .top
  | builtin hn h => exact .builtin hn h
  | child _ hn hsought hheld hfind ih => exact .child ih hn hsought (hkeeps _ _ hheld) hfind

theorem Declared.volatile (h : s.Declared x) : x.volatile = false := by
  cases h <;> rfl

theorem childBy_of_find {dir : Path} {entries : List Entry} {e : Entry}
    (hfind : (Index.listing entries).find? n = some e) : s.childBy dir n (some (.listing entries)) =
      .ok { path := dir.extend n, kind := .ofEntry e.kind, hint := some e } := by
  rw [childBy, hfind]

theorem Declared.reached (h : s.Declared x) : s.reached x.path = .ok x := by
  induction h with
  | top => rfl
  | @builtin n kind hn h =>
      rw [reached_extend _ hn]
      exact enter_of_builtin (x := Store.top) rfl rfl h
  | @child x n entries e _ hn hsought hheld hfind ih =>
      rw [reached_extend _ hn, ih]
      change s.enter x n = _
      rw [enter_of_plain hsought.directory hsought.free, child_of_held hsought.ordinary hheld]
      exact childBy_of_find hfind

/-- The listing that declares a node. -/
theorem Declared.listing {q : Path} (h : s.Declared x) (hpath : x.path = q.extend n)
    (hn : IsSegment n) (hfree : IsFree q n) :
    (∃ y, s.Declared y ∧ y.path = q) ∧ ∃ entries, s.held q = .ok (.index (.listing entries)) := by
  cases h with
  | top =>
      have hroot : (q.extend n).isRoot = true := congrArg Path.isRoot hpath.symm
      rw [q.isRoot_extend hn] at hroot
      cases hroot
  | @builtin m kind hm hbuiltin =>
      obtain ⟨rfl, rfl⟩ := Path.extend_injective hm hn hpath
      rw [hfree rfl] at hbuiltin
      cases hbuiltin
  | @child y m entries e hy hm hsought hheld hfind =>
      obtain ⟨rfl, rfl⟩ := Path.extend_injective hm hn hpath
      exact ⟨⟨y, hy, rfl⟩, entries, hheld⟩

theorem volatile_of_classified (h : s.classified x = .ok y) : y.volatile = x.volatile := by
  unfold classified at h
  split at h
  · obtain ⟨held, -, hheld⟩ := bind_eq_ok_iff.mp h
    cases hheld
    rfl
  · cases h
    rfl

theorem Alike.classified (h : Alike s t) (x : Resolved) : t.classified x = s.classified x := by
  rw [Store.classified, Store.classified, h.held]

end Store

/-- The helper may publish what it likes as long as no index that is held goes or changes. -/
def Helper.Keeps (helper : Helper View) : Prop :=
  ∀ (asked : List Path) (v : View) (p : Path), v.store.KeepsIndices (helper asked p v).1.store

namespace Resolver

open Asking Store

variable {helper helper' : Helper View} {v w : View} {p : Path} {x y : Resolved} {k : Nat}
  {n : String}

/-! ### Declared nodes and silent walks -/

theorem run_resolveChild_of_held {asked : List Path} {dir : Path} {index : Index}
    (hname : ¬ (n = ".." ∨ IsReserved n)) (hheld : v.store.held dir = .ok (.index index)) :
    (resolveChild dir n).run helper asked v =
      (childIn dir n (some index)).run helper asked (peek dir v).1 := by
  rw [resolveChild_eq hname, run_bind, run_ensureIndex, hheld]

/-- To a declared node the walk asks for nothing. -/
theorem run_walkFromRoot_of_declared (h : v.store.Declared x) (asked : List Path) :
    ∃ w, v.Calm w ∧ (walkFromRoot x.path).run helper asked v = ⟨asked, w, .ok x⟩ := by
  induction h with
  | top => exact ⟨v, .refl v, rfl⟩
  | @builtin n kind hn h =>
      refine ⟨v, .refl v, ?_⟩
      have hinto : into Path.root.isRoot top n =
          pure { path := top.path.extend n, kind } := by
        simp only [into, h]
        rfl
      rw [walkFromRoot_extend _ hn]
      change ((pure top : Resolver Resolved) >>= fun x => into Path.root.isRoot x n).run _ _ _ = _
      rw [pure_bind, hinto]
      rfl
  | @child x n entries e _ hn hsought hheld hfind ih =>
      obtain ⟨w, hcalm, hwalk⟩ := ih
      have hheld' : w.store.held x.path = .ok (.index (.listing entries)) :=
        (hcalm.store.held x.path).trans hheld
      refine ⟨(peek x.path w).1, hcalm.trans (calm_peek x.path w), ?_⟩
      rw [walkFromRoot_extend _ hn, run_bind, hwalk]
      dsimp only
      rw [into_of_isSought hsought, run_resolveChild_of_held hsought.ordinary hheld', childIn,
        hfind]
      rfl

/-- Only a static listing saves a step its requests. -/
theorem held_of_asksFor_eq_nil {asked : List Path} {dir child : Path}
    (h : asksFor helper asked v dir child = []) :
    (∃ fault, v.store.held dir = .error fault) ∨
      ∃ entries, v.store.held dir = .ok (.index (.listing entries)) := by
  have hanew (w : View) : asksAnew helper asked w dir child ≠ [] := by
    unfold asksAnew
    rcases helper asked dir w with ⟨u, fault | _⟩
    · exact List.cons_ne_nil _ _
    · dsimp only
      split <;> exact List.cons_ne_nil _ _
  unfold asksFor at h
  revert h
  rcases v.store.held dir with fault | _ | index | _ <;> intro h
  · exact .inl ⟨fault, rfl⟩
  · exact absurd h (hanew _)
  · cases index with
    | dynamic => cases h
    | listing entries => exact .inr ⟨entries, rfl⟩
  · exact absurd h (hanew _)

/-- What the walk reaches without asking is declared. -/
theorem declared_of_asked_eq_nil (hasked : ((walkFromRoot p).run helper [] v).asked = [])
    (h : v.store.reached p = .ok x) : v.store.Declared x := by
  induction p using Path.extendInduction generalizing x with
  | root =>
      cases h
      exact .top
  | extend q n hn ih =>
      rw [reached_extend q hn] at h
      obtain ⟨y, hy, henter⟩ := bind_eq_ok_iff.mp h
      obtain rfl := path_of_reached hy
      rw [walkFromRoot_extend _ hn] at hasked
      have hquiet : ((walkFromRoot y.path).run helper [] v).asked = [] := by
        have hprefix : ((walkFromRoot y.path).run helper [] v).asked <+: _ :=
          asked_prefix_bind (walkFromRoot y.path) fun x => into y.path.isRoot x n
        rw [hasked] at hprefix
        exact List.prefix_nil.mp hprefix
      obtain ⟨hcalm, hwalk⟩ := told_of_asked_eq_nil hquiet (tells_walkFromRoot idle_id _)
      rw [hy] at hwalk
      cases hdir : y.kind.isDirectory with
      | false =>
          rw [enter_of_not_isDirectory hdir] at henter
          cases henter
      | true =>
          by_cases hfree : IsFree y.path n
          · rw [enter_of_plain hdir hfree] at henter
            have hsought : IsSought y n := ⟨hdir, hfree, ordinary_of_child henter⟩
            rw [run_bind_of_ok hwalk, (advances_into helper _ _ hsought).asked, hquiet] at hasked
            rcases held_of_asksFor_eq_nil hasked with ⟨fault, hheld⟩ | ⟨entries, hheld⟩
            · rw [hcalm.store.held] at hheld
              rw [child, if_neg hsought.ordinary, hheld] at henter
              cases henter
            · rw [hcalm.store.held] at hheld
              rw [child_of_held hsought.ordinary hheld, childBy] at henter
              split at henter
              · cases henter
              · next e hfind =>
                  cases henter
                  exact .child (ih hquiet hy) hn hsought hheld hfind
          · obtain ⟨hroot, hbuiltin⟩ := Classical.not_imp.mp hfree
            obtain ⟨kind, hkind⟩ := Option.ne_none_iff_exists'.mp hbuiltin
            rw [enter_of_builtin hdir hroot hkind] at henter
            cases henter
            have hpath : y.path = Path.root := Path.ext_names (List.isEmpty_iff.mp hroot)
            rw [hpath]
            exact .builtin hn hkind

/-! ### Looking up again -/

/-- The end of a walk, and how a directory is told apart after it. -/
theorem run_resolve_of_ok {asked : List Path}
    (h : ((walkFromRoot p).run helper asked v).result = .ok x) :
    ((walkFromRoot p).run helper asked v).state.Calm ((resolve p).run helper asked v).state ∧
      ((resolve p).run helper asked v).result =
        ((walkFromRoot p).run helper asked v).state.store.classified x := by
  unfold resolve
  rw [run_bind_of_ok h]
  generalize ((walkFromRoot p).run helper asked v).state = w
  generalize ((walkFromRoot p).run helper asked v).asked = asked'
  unfold classified
  split
  · rw [run_bind, run_attempt, directoryKind_eq]
    dsimp only
    cases w.store.held x.path with
    | error fault => exact ⟨calm_peek x.path w, rfl⟩
    | ok held => exact ⟨calm_peek x.path w, rfl⟩
  · exact ⟨.refl w, rfl⟩

/-- The parts of a look-up that ended well. -/
theorem node_of_lookup {node : Node} (h : ((lookup p).run helper [] v).result = .ok node) :
    ∃ x, (stage helper v p p.depth).result = .ok x ∧
      (stage helper v p p.depth).state.Calm ((lookup p).run helper [] v).state ∧
      ((lookup p).run helper [] v).state.identities.idOf? p = some node.id ∧
      ∃ y, ((lookup p).run helper [] v).state.store.classified x = .ok y ∧
        attributes y ((lookup p).run helper [] v).state = .ok node.attr ∧
        node = ⟨node.id, p, y.kind, node.attr, y.volatile⟩ := by
  rw [stage_depth]
  cases hwalk : ((walkFromRoot p).run helper [] v).result with
  | error fault =>
      unfold lookup resolve at h
      rw [bind_assoc, run_bind_of_error hwalk] at h
      cases h
  | ok x =>
      obtain ⟨hcalm, hresolve⟩ := run_resolve_of_ok hwalk
      have hpath : x.path = p := by
        have hplace := (stageInv helper v p (Nat.le_refl p.depth)).place
        rw [stage_depth, p.upTo_depth] at hplace
        exact hplace x hwalk
      refine ⟨x, rfl, ?_⟩
      cases hy : ((walkFromRoot p).run helper [] v).state.store.classified x with
      | error fault =>
          rw [hy] at hresolve
          unfold lookup at h
          rw [run_bind_of_error hresolve] at h
          cases h
      | ok y =>
          rw [hy] at hresolve
          have hypath : y.path = p := (classified_eq_ok hy).path.trans hpath
          unfold lookup at h ⊢
          rw [run_bind_of_ok hresolve] at h ⊢
          generalize ((resolve p).run helper [] v).state = w at h hcalm ⊢
          simp only [run_bind, run_get, run_lift, run_act, run_pure] at h ⊢
          have hid := calm_identify y.path w
          cases hattr : attributes y w with
          | error fault =>
              rw [hattr] at h
              cases h
          | ok attr =>
              rw [hattr] at h
              cases h
              refine ⟨hcalm.trans hid, ?_, y, ?_, ?_, ?_⟩
              · rw [← hypath]
                exact Identities.idOf?_assign w.identities y.path
              · exact ((hcalm.trans hid).store.classified x).trans hy
              · exact (attributes_of_calm hid y).trans hattr
              · dsimp only
                rw [hypath]

theorem reached_of_calm (h : v.Calm w) (p : Path) : w.store.reached p = v.store.reached p := by
  rw [← (tells_walkFromRoot idle_id p [] w h).2, ← (tells_walkFromRoot idle_id p [] w (.refl w)).2]

/-- In the view `w` looking up the path asks for nothing and tells of the same node. -/
structure TellsAgain (helper : Helper View) (w : View) (p : Path) (node : Node) : Prop where
  asked : ((lookup p).run helper [] w).asked = []
  result : ((lookup p).run helper [] w).result = .ok node

/-- A silent look-up found its path declared. -/
theorem declared_of_asked_lookup (h : ((lookup p).run helper [] w).asked = [])
    (hreached : w.store.reached p = .ok x) : w.store.Declared x := by
  rw [asked_lookup, stage_depth] at h
  exact declared_of_asked_eq_nil h hreached

theorem asked_lookup_of_declared (h : w.store.Declared x) :
    ((lookup x.path).run helper [] w).asked = [] := by
  rw [asked_lookup, stage_depth]
  obtain ⟨u, -, hwalk⟩ := run_walkFromRoot_of_declared h []
  rw [hwalk]

/-- Looking up again asks for nothing and tells the same just if the path is declared and the node
is as it was. -/
theorem tellsAgain_iff {e : View} {node : Node} (hid : e.identities.idOf? p = some node.id)
    (hpath : node.path = p) (hvolatile : node.volatile = false) (hcalm : e.Calm w) :
    TellsAgain helper w p node ↔ (∃ x, e.store.Declared x ∧ x.path = p) ∧
      ∃ y, e.described p = .ok (y, node.attr) ∧ y.kind = node.kind := by
  have hsame (hasked : ((lookup p).run helper [] w).asked = []) :
      (lookup p).run helper [] w = (lookup p).run (.closing fun _ _ v => v) [] w :=
    Inquiry.run_eq_of_asked_eq_nil hasked _
  constructor
  · rintro ⟨hasked, hresult⟩
    rw [hsame hasked] at hresult
    cases hdescribed : e.described p with
    | error fault =>
        rw [lookup_of_error idle_id hcalm hdescribed] at hresult
        cases hresult
    | ok described =>
        obtain ⟨y, attr⟩ := described
        obtain ⟨id, hnode, -⟩ := lookup_of_ok idle_id hcalm hdescribed []
        rw [hnode] at hresult
        cases hresult
        obtain ⟨y, hresolved, hattr⟩ := bind_eq_ok_iff.mp hdescribed
        obtain ⟨x, hreached, -⟩ := bind_eq_ok_iff.mp hresolved
        have hdeclared := declared_of_asked_lookup hasked ((reached_of_calm hcalm p).trans hreached)
        exact ⟨⟨x, hdeclared.mono hcalm.store.symm.keepsIndices, path_of_reached hreached⟩, _,
          rfl, rfl⟩
  · rintro ⟨⟨x, hdeclared, rfl⟩, y, hdescribed, hkind⟩
    have hasked : ((lookup x.path).run helper [] w).asked = [] :=
      asked_lookup_of_declared (hdeclared.mono hcalm.store.keepsIndices)
    refine ⟨hasked, ?_⟩
    obtain ⟨id, hnode, hid'⟩ := lookup_of_ok idle_id hcalm hdescribed []
    obtain ⟨y', hresolved, hattr⟩ := bind_eq_ok_iff.mp hdescribed
    obtain ⟨attr, -, hattr⟩ := bind_eq_ok_iff.mp hattr
    cases hattr
    have hypath : y.path = x.path := path_of_resolved hresolved
    obtain ⟨x', hreached, hclassified⟩ := bind_eq_ok_iff.mp hresolved
    rw [hdeclared.reached] at hreached
    cases hreached
    have hyvolatile : y.volatile = node.volatile := by
      rw [volatile_of_classified hclassified, hdeclared.volatile, hvolatile]
    rw [hypath] at hid' hnode
    have hnumber := Identities.idOf?_of_shown_prefix (calm_lookup idle_id hcalm x.path []).shown hid
    rw [hid'] at hnumber
    cases hnumber
    rw [hsame hasked, hnode, ← hpath, hkind, hyvolatile]

/-! ### Helpers that keep what is held -/

theorem IsCalm.keepsIndices {α : Type} {m : Resolver α} (hm : IsCalm m) (hkeeps : helper.Keeps)
    (asked : List Path) (v : View) : v.store.KeepsIndices (m.run helper asked v).state.store :=
  hm.run (R := fun v w => v.store.KeepsIndices w.store) (fun _ _ _ h h' => h.trans h')
    (fun _ _ h => h.store.keepsIndices) (fun earlier w p _ => hkeeps earlier w p)

/-- A child that a step led to, by an index that is still held. -/
structure StepTold (s : Store) (dir : Path) (n : String) (y : Resolved) (index : Index) :
    Prop where
  held : s.held dir = .ok (.index index)
  volatile : y.volatile = index.isDynamic
  declared : ∀ entries, index = .listing entries → ∃ e,
    (Index.listing entries).find? n = some e ∧
      y = { path := dir.extend n, kind := .ofEntry e.kind, hint := some e }

theorem volatile_of_standing {path : Path} {found : Option PhysicalEntry}
    (h : standing path found = .ok y) : y.volatile = true := by
  unfold standing at h
  split at h <;> cases h <;> rfl

theorem stepTold_childIn (hkeeps : helper.Keeps) {asked : List Path} {dir : Path} {index : Index}
    (hheld : v.store.held dir = .ok (.index index))
    (h : ((childIn dir n (some index)).run helper asked v).result = .ok y) :
    StepTold ((childIn dir n (some index)).run helper asked v).state.store dir n y index := by
  cases index with
  | dynamic =>
      refine ⟨(isCalm_volatileChild _).keepsIndices hkeeps asked v dir .dynamic hheld, ?_, ?_⟩
      case refine_2 =>
        intro entries hlisting
        cases hlisting
      rw [childIn, run_volatileChild] at h
      revert h
      rcases helper asked (dir.extend n) v with ⟨w, fault | _⟩
      · intro h
        cases h
      · intro h
        obtain ⟨found, -, hfound⟩ := bind_eq_ok_iff.mp h
        exact volatile_of_standing hfound
  | listing entries =>
      rw [childIn] at h ⊢
      cases hfind : (Index.listing entries).find? n with
      | none =>
          rw [hfind] at h
          cases h
      | some e =>
          rw [hfind] at h
          cases h
          refine ⟨hheld, rfl, ?_⟩
          rintro _ ⟨⟩
          exact ⟨e, hfind, rfl⟩

theorem stepTold_resolveChild (hkeeps : helper.Keeps) {asked : List Path} {dir : Path}
    (hname : ¬ (n = ".." ∨ IsReserved n))
    (h : ((resolveChild dir n).run helper asked v).result = .ok y) :
    ∃ index, StepTold ((resolveChild dir n).run helper asked v).state.store dir n y index := by
  have hpeek {u : View} {index : Index} (hheld : u.store.held dir = .ok (.index index)) :
      (peek dir u).1.store.held dir = .ok (.index index) :=
    ((calm_peek dir u).store.held dir).trans hheld
  have hanew (u : View) (asked : List Path)
      (h : ((askForIndex dir >>= childIn dir n).run helper asked u).result = .ok y) : ∃ index,
      StepTold ((askForIndex dir >>= childIn dir n).run helper asked u).state.store dir n y
        index := by
    rw [run_bind, run_askForIndex] at h ⊢
    revert h
    rcases helper asked dir u with ⟨w, fault | _⟩
    · nofun
    · dsimp only
      cases hheld : w.store.held dir with
      | error fault => nofun
      | ok held =>
          rcases held with _ | index | _
          · nofun
          · exact fun h => ⟨index, stepTold_childIn hkeeps (hpeek hheld) h⟩
          · nofun
  rw [resolveChild_eq hname, run_bind, run_ensureIndex] at h ⊢
  revert h
  cases hheld : v.store.held dir with
  | error fault => nofun
  | ok held =>
      rcases held with _ | index | _
      · have h := hanew (peek dir v).1 asked
        rw [run_bind] at h
        exact h
      · exact fun h => ⟨index, stepTold_childIn hkeeps (hpeek hheld) h⟩
      · have h := hanew (peek dir v).1 asked
        rw [run_bind] at h
        exact h

theorem isCalm_into (atRoot : Bool) (x : Resolved) (n : String) : IsCalm (into atRoot x n) := by
  unfold into
  split
  · split
    · exact isCalm_pure _
    · exact isCalm_resolveChild x.path n
  · exact isCalm_fail _

theorem stage_keepsIndices (hkeeps : helper.Keeps) {j : Nat} (hjk : j ≤ k) (hk : k ≤ p.depth) :
    (stage helper v p j).state.store.KeepsIndices (stage helper v p k).state.store := by
  induction hjk with
  | refl => exact fun _ _ h => h
  | @step k hjk ih =>
      have hn : p.names[k]? = some p.names[k] := List.getElem?_eq_getElem hk
      refine (ih (Nat.le_of_lt hk)).trans ?_
      cases hresult : (stage helper v p k).result with
      | error fault =>
          rw [stage_succ_of_error hn hresult]
          exact fun _ _ h => h
      | ok x =>
          rw [stage_succ_of_ok hn hresult]
          exact (isCalm_into _ x _).keepsIndices hkeeps _ _

/-- One more segment of the walk: a built-in entry, or a child by an index that is still held. -/
theorem stage_succ_told (hkeeps : helper.Keeps) (hn : p.names[k]? = some n)
    (hy : (stage helper v p (k + 1)).result = .ok y) :
    ∃ x, (stage helper v p k).result = .ok x ∧ x.path = p.upTo k ∧
      ((∃ kind, (p.upTo k).isRoot = true ∧ builtin? n = some kind ∧
          y = { path := x.path.extend n, kind }) ∨
        IsSought x n ∧ ∃ index,
          StepTold (stage helper v p (k + 1)).state.store (p.upTo k) n y index) := by
  have hk : k ≤ p.depth := Nat.le_of_lt (List.getElem?_eq_some_iff.mp hn).1
  cases hresult : (stage helper v p k).result with
  | error fault =>
      rw [stage_succ_of_error hn hresult] at hy
      cases hy
  | ok x =>
      have hplace : x.path = p.upTo k := (stageInv helper v p hk).place x hresult
      refine ⟨x, rfl, hplace, ?_⟩
      rw [stage_succ_of_ok hn hresult, ← hplace] at hy ⊢
      rcases into_cases x.path.isRoot x n with
        ⟨hdir, hfree, hordinary, hinto⟩ | ⟨kind, hroot, hkind, hinto⟩ | ⟨fault, hinto⟩ <;>
        rw [hinto] at hy ⊢
      · exact .inr ⟨⟨hdir, hfree, hordinary⟩, stepTold_resolveChild hkeeps hordinary hy⟩
      · cases hy
        exact .inl ⟨kind, hroot, hkind, rfl⟩
      · cases hy

/-- The walk to `p` met no child of a dynamic directory. -/
def Firm (helper : Helper View) (v : View) (p : Path) : Prop :=
  ∀ k ≤ p.depth, ∀ x, (stage helper v p k).result = .ok x → x.volatile = false

theorem declared_of_firm (hkeeps : helper.Keeps) (hfirm : Firm helper v p) (hk : k ≤ p.depth)
    (hx : (stage helper v p k).result = .ok x) : (stage helper v p k).state.store.Declared x := by
  induction k generalizing x with
  | zero =>
      rw [stage_zero] at hx ⊢
      cases hx
      exact .top
  | succ k ih =>
      have hn : p.names[k]? = some p.names[k] := List.getElem?_eq_getElem hk
      have hsegment : IsSegment p.names[k] := Path.isSegment_of_getElem? hn
      obtain ⟨y, hy, hplace, hstep⟩ := stage_succ_told hkeeps hn hx
      rcases hstep with ⟨kind, hroot, hkind, rfl⟩ | ⟨hsought, index, htold⟩
      · have hpath : y.path = Path.root :=
          hplace.trans (Path.ext_names (List.isEmpty_iff.mp hroot))
        rw [hpath]
        exact .builtin hsegment hkind
      · have hdeclared := (ih (Nat.le_of_lt hk) hy).mono
          (stage_keepsIndices hkeeps (Nat.le_succ k) hk)
        have hvolatile := hfirm (k + 1) hk x hx
        rw [htold.volatile] at hvolatile
        cases index with
        | dynamic => cases hvolatile
        | listing entries =>
            obtain ⟨e, hfind, rfl⟩ := htold.declared entries rfl
            have hheld := htold.held
            rw [← hplace] at hheld ⊢
            exact .child hdeclared hsegment hsought hheld hfind

theorem declared_upTo {s : Store} (h : s.Declared x) (hk : k ≤ x.path.depth) :
    ∃ y, s.Declared y ∧ y.path = x.path.upTo k := by
  induction h generalizing k with
  | top => exact ⟨top, .top, Path.ext_names List.take_nil.symm⟩
  | @builtin n kind hn h =>
      rcases Nat.eq_zero_or_pos k with rfl | hpos
      · exact ⟨top, .top, (Path.upTo_zero _).symm⟩
      · rw [Path.depth_extend _ hn] at hk
        obtain rfl : k = (Path.root.extend n).depth := by
          rw [Path.depth_extend _ hn]
          exact Nat.le_antisymm hk hpos
        exact ⟨_, .builtin hn h, (Path.upTo_depth _).symm⟩
  | @child x n entries e hx hn hsought hheld hfind ih =>
      by_cases hlast : k ≤ x.path.depth
      · rw [Path.upTo_extend _ hn hlast]
        exact ih hlast
      · rw [Path.depth_extend _ hn] at hk
        obtain rfl : k = (x.path.extend n).depth := by
          rw [Path.depth_extend _ hn]
          omega
        exact ⟨_, .child hx hn hsought hheld hfind, (Path.upTo_depth _).symm⟩

/-- A declared path was walked without meeting a child of a dynamic directory. -/
theorem firm_of_declared (hkeeps : helper.Keeps) (hk : k ≤ p.depth)
    (hdeclared : (stage helper v p p.depth).state.store.Declared y) (hpath : y.path = p.upTo k)
    (hx : (stage helper v p k).result = .ok x) : x.volatile = false := by
  cases k with
  | zero =>
      rw [stage_zero] at hx
      cases hx
      rfl
  | succ k =>
      have hn : p.names[k]? = some p.names[k] := List.getElem?_eq_getElem hk
      obtain ⟨z, hz, hplace, hstep⟩ := stage_succ_told hkeeps hn hx
      rcases hstep with ⟨kind, -, -, rfl⟩ | ⟨hsought, index, htold⟩
      · rfl
      · rw [Path.upTo_succ hn] at hpath
        have hfree : IsFree (p.upTo k) p.names[k] := hplace ▸ hsought.free
        obtain ⟨-, entries, hheld⟩ :=
          hdeclared.listing hpath (Path.isSegment_of_getElem? hn) hfree
        have hkept := stage_keepsIndices hkeeps hk (Nat.le_refl p.depth) _ _ htold.held
        rw [hheld] at hkept
        cases hkept
        exact htold.volatile

/-- Looking up a cacheable node again, in the cache as the first look-up left it. With no more than
that, it asks for nothing and tells the same if and only if the cache declares the path and still
holds the node as it was told. If the helper kept the indices that it found, this comes down to the
first walk: no directory on the way was a child of a dynamic one. -/
theorem lookup_again {node : Node} (h : ((lookup p).run helper [] v).result = .ok node)
    (hcacheable : node.isCacheable = true)
    (hcalm : ((lookup p).run helper [] v).state.Calm w) :
    (TellsAgain helper' w p node ↔
      (∃ x, ((lookup p).run helper [] v).state.store.Declared x ∧ x.path = p) ∧
      ∃ y, ((lookup p).run helper [] v).state.described p = .ok (y, node.attr) ∧
        y.kind = node.kind) ∧
    (helper.Keeps → (TellsAgain helper' w p node ↔ Firm helper v p)) := by
  obtain ⟨x, hx, hlater, hid, y, hy, hattr, hnode⟩ := node_of_lookup h
  have hvolatile : node.volatile = false := by
    unfold Node.isCacheable at hcacheable
    simp only [Bool.and_eq_true, Bool.not_eq_true'] at hcacheable
    exact hcacheable.1.1
  have hiff : TellsAgain helper' w p node ↔ _ :=
    tellsAgain_iff hid (congrArg Node.path hnode) hvolatile hcalm
  refine ⟨hiff, fun hkeeps => ?_⟩
  rw [hiff]
  have hxpath : x.path = p := by
    have hplace := (stageInv helper v p (Nat.le_refl p.depth)).place x hx
    rwa [p.upTo_depth] at hplace
  constructor
  · rintro ⟨⟨z, hdeclared, hzpath⟩, -⟩ k hk a ha
    subst hzpath
    have hthen := hdeclared.mono hlater.store.symm.keepsIndices
    obtain ⟨b, hb, hbpath⟩ := declared_upTo hthen hk
    exact firm_of_declared hkeeps hk hb hbpath ha
  · intro hfirm
    have hdeclared := (declared_of_firm hkeeps hfirm (Nat.le_refl p.depth) hx).mono
      hlater.store.keepsIndices
    refine ⟨⟨x, hdeclared, hxpath⟩, y, ?_, (congrArg Node.kind hnode).symm⟩
    have hreached := hdeclared.reached
    rw [hxpath] at hreached
    simp only [View.described, resolved, hreached, hy, hattr, bind, Except.bind]

theorem lookup_again_shelfView : ∃ node w,
    ((lookup (.ofText "/a")).run (.closing fun _ _ v => v) [] shelfView).result = .ok node ∧
    node.isCacheable = true ∧
    ((lookup (.ofText "/a")).run (.closing fun _ _ v => v) [] shelfView).state.Calm w ∧
    (TellsAgain (.closing fun _ _ v => v) w (.ofText "/a") node ↔
      Firm (.closing fun _ _ v => v) shelfView (.ofText "/a")) := by
  have hresult : ((lookup (.ofText "/a")).run (.closing fun _ _ v => v) [] shelfView).result =
      .ok ⟨2, .ofText "/a", .file, ⟨4, 7⟩, false⟩ := by decide +kernel
  have hkeeps : Helper.Keeps (.closing fun _ _ v => v) := fun _ _ _ _ _ hheld => hheld
  exact ⟨_, _, hresult, rfl, .refl _, (lookup_again hresult rfl (.refl _)).2 hkeeps⟩

/-- The index of a directory with one file. -/
def leafIndex : Index := .listing [⟨.file, 4, 7, "x"⟩]

/-- A dynamic root and in it a directory with a listing. -/
def leafDisk : Disk where
  objects := [([], .directory ⟨0, 0⟩), ([[99]], .directory ⟨0, 1⟩),
    ([[99], Store.indexName], .file 1), ([[99], [100]], .directory ⟨0, 2⟩),
    ([[99], [100], Store.indexName], .file 2)]
  bodies := [(1, ⟨Index.encode .dynamic, ⟨5, 0⟩⟩), (2, ⟨Index.encode leafIndex, ⟨6, 0⟩⟩)]
  nextFile := 3
  clock := ⟨0, 3⟩

def leafView : View := { store := ⟨[[99]], 1000, leafDisk, { capacity := 4 }⟩ }

/-- The file below the dynamic directory's child is cacheable, and looking it up again asks for the
child again. -/
theorem not_lookup_again : ∃ node,
    ((lookup (.ofText "/d/x")).run (.closing fun _ _ v => v) [] leafView).result = .ok node ∧
    node.isCacheable = true ∧
    ((lookup (.ofText "/d/x")).run (.closing fun _ _ v => v) []
      ((lookup (.ofText "/d/x")).run (.closing fun _ _ v => v) [] leafView).state).asked =
        [.ofText "/d"] := by
  have hresult : ((lookup (.ofText "/d/x")).run (.closing fun _ _ v => v) [] leafView).result =
      .ok ⟨2, .ofText "/d/x", .file, ⟨4, 7⟩, false⟩ := by decide +kernel
  exact ⟨_, hresult, rfl, by decide +kernel⟩

end Resolver
end OnDemandFs
