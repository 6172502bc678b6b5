import OnDemandFs.Proofs.Resolve.Entries
import OnDemandFs.Proofs.Resolve.Requests

/-!
# What the operations ask for

`stage` is how far the walk to a path has come after some of its segments, in the view that it then
finds, whatever the helper made of it. Each stage adds at most two requests to those before it, for
the next paths on the way. Of the operations, a look-up asks for nothing more than its walk, opening
a file for the file again if no usable body is there, and listing a directory for the directory
again unless a static listing of it is cached.
-/
namespace OnDemandFs
namespace Path
variable {p : Path} {k : Nat} {n : String}

/-- The path of the first `k` segments. -/
def upTo (p : Path) (k : Nat) : Path :=
  ⟨p.names.take k, fun n h => p.allSegments n (List.mem_of_mem_take h)⟩

theorem upTo_zero (p : Path) : p.upTo 0 = root := ext_names rfl

theorem upTo_depth (p : Path) : p.upTo p.depth = p := ext_names List.take_length

theorem isSegment_of_getElem? (h : p.names[k]? = some n) : IsSegment n :=
  p.allSegments n (List.mem_of_getElem? h)

theorem upTo_succ (h : p.names[k]? = some n) : p.upTo (k + 1) = (p.upTo k).extend n := by
  apply ext_names
  rw [names_extend_of_isSegment _ (isSegment_of_getElem? h)]
  change p.names.take (k + 1) = p.names.take k ++ [n]
  rw [List.take_add_one, h]
  rfl

theorem depth_extend (p : Path) (hn : IsSegment n) : (p.extend n).depth = p.depth + 1 := by
  rw [depth, p.names_extend_of_isSegment hn, List.length_append]
  rfl

theorem upTo_extend (p : Path) (hn : IsSegment n) (hk : k ≤ p.depth) :
    (p.extend n).upTo k = p.upTo k := by
  apply ext_names
  change (p.extend n).names.take k = p.names.take k
  rw [p.names_extend_of_isSegment hn, List.take_append_of_le_length hk]

theorem names_upTo_prefix_succ (p : Path) (k : Nat) : (p.upTo k).names <+: (p.upTo (k + 1)).names :=
  List.take_prefix_take_left (Nat.le_succ k)

end Path

/-- Requests for paths on the way to a path, none above an earlier one, and so many at most. -/
structure Descends (p : Path) (limit : Nat) (asked : List Path) : Prop where
  onTheWay : ∀ q ∈ asked, q.names <+: p.names
  downwards : asked.Pairwise fun q r => q.names <+: r.names
  length_le : asked.length ≤ limit

namespace Descends
variable {p q : Path} {limit : Nat} {asked more : List Path}

theorem nil (p : Path) : Descends p 0 [] := ⟨nofun, List.Pairwise.nil, Nat.le_refl 0⟩

/-- The way goes on from `p` to `q`, and one or both are asked for. -/
theorem append (h : Descends p limit asked) (hpq : p.names <+: q.names)
    (hmore : more.Sublist [p, q]) : Descends q (limit + more.length) (asked ++ more) := by
  have hmem : ∀ r ∈ more, p.names <+: r.names ∧ r.names <+: q.names := by
    intro r hr
    rcases List.mem_pair.mp (hmore.subset hr) with rfl | rfl
    · exact ⟨List.prefix_rfl, hpq⟩
    · exact ⟨hpq, List.prefix_rfl⟩
  have hpair : [p, q].Pairwise fun q r => q.names <+: r.names := by simpa using hpq
  refine ⟨?_, ?_, ?_⟩
  · intro r hr
    rcases List.mem_append.mp hr with hr | hr
    · exact (h.onTheWay r hr).trans hpq
    · exact (hmem r hr).2
  · rw [List.pairwise_append]
    refine ⟨h.downwards, hpair.sublist hmore, fun r hr r' hr' => ?_⟩
    exact (h.onTheWay r hr).trans (hmem r' hr').1
  · rw [List.length_append]
    have := h.length_le
    omega

theorem mono {limit' : Nat} (h : Descends p limit asked) (hle : limit ≤ limit') :
    Descends p limit' asked :=
  ⟨h.onTheWay, h.downwards, Nat.le_trans h.length_le hle⟩

/-- The last path is asked for once more, or not. -/
theorem again (h : Descends p limit asked) (hmore : more = [] ∨ more = [p]) :
    Descends p (limit + 1) (asked ++ more) := by
  rcases hmore with rfl | rfl
  · rw [List.append_nil]
    exact h.mono (Nat.le_succ _)
  · exact h.append List.prefix_rfl (List.sublist_cons_self p [p])

end Descends

namespace Resolver

open Asking Store

variable {helper : Helper View} {v : View} {p : Path} {x : Resolved} {k : Nat} {n : String}

/-- The walk to a path after its first `k` segments. -/
def stage (helper : Helper View) (v : View) (p : Path) (k : Nat) : Ending View Resolved :=
  (walkFromRoot (p.upTo k)).run helper [] v

theorem stage_zero (helper : Helper View) (v : View) (p : Path) :
    stage helper v p 0 = ⟨[], v, .ok top⟩ := by
  rw [stage, p.upTo_zero]
  rfl

theorem stage_succ_of_error (h : p.names[k]? = some n) {fault : Fault}
    (hk : (stage helper v p k).result = .error fault) :
    stage helper v p (k + 1) =
      ⟨(stage helper v p k).asked, (stage helper v p k).state, .error fault⟩ := by
  rw [stage, Path.upTo_succ h, walkFromRoot_extend _ (Path.isSegment_of_getElem? h)]
  exact run_bind_of_error hk _

theorem stage_succ_of_ok (h : p.names[k]? = some n) (hk : (stage helper v p k).result = .ok x) :
    stage helper v p (k + 1) =
      (into (p.upTo k).isRoot x n).run helper (stage helper v p k).asked
        (stage helper v p k).state := by
  rw [stage, Path.upTo_succ h, walkFromRoot_extend _ (Path.isSegment_of_getElem? h)]
  exact run_bind_of_ok hk _

theorem into_of_isSought (h : IsSought x n) : into x.path.isRoot x n = resolveChild x.path n := by
  have hnone : (if x.path.isRoot then builtin? n else none) = none := by
    split
    · next hroot => exact h.free hroot
    · rfl
  simp only [into, h.directory, if_true, hnone]

theorem advances_into (helper : Helper View) (asked : List Path) (w : View) (h : IsSought x n) :
    Advances asked x.path n (asksFor helper asked w x.path (x.path.extend n))
      ((into x.path.isRoot x n).run helper asked w) := by
  rw [into_of_isSought h]
  exact advances_resolveChild helper asked w x.path h.ordinary

/-- Where no index has to be consulted nothing is asked for. -/
theorem advances_into_of_not_isSought (helper : Helper View) (asked : List Path) (w : View)
    (h : ¬ IsSought x n) : Advances asked x.path n []
      ((into x.path.isRoot x n).run helper asked w) := by
  rcases into_cases x.path.isRoot x n with
    ⟨hdir, hfree, hordinary, -⟩ | ⟨kind, -, -, hinto⟩ | ⟨fault, hinto⟩
  · exact absurd ⟨hdir, hfree, hordinary⟩ h
  · rw [hinto]
    refine ⟨(List.append_nil _).symm, ?_, ?_⟩
    · rintro y ⟨⟩
      rfl
    · rintro y ⟨⟩
      nofun
  · rw [hinto]
    exact ⟨(List.append_nil _).symm, nofun, nofun⟩

/-- What is known of the walk after `k` segments. -/
structure StageInv (p : Path) (k : Nat) (e : Ending View Resolved) : Prop where
  descends : Descends (p.upTo k) (2 * k) e.asked
  place : ∀ x, e.result = .ok x → x.path = p.upTo k
  fresh : ∀ x, e.result = .ok x → x.volatile = true → e.asked.getLast? = some (p.upTo k)

theorem stageInv (helper : Helper View) (v : View) (p : Path) (hk : k ≤ p.depth) :
    StageInv p k (stage helper v p k) := by
  induction k with
  | zero =>
      rw [stage_zero]
      refine ⟨Descends.nil _, ?_, ?_⟩
      · rintro x ⟨⟩
        exact p.upTo_zero.symm
      · rintro x ⟨⟩
        nofun
  | succ k ih =>
      have hk' : k < p.names.length := hk
      have ih := ih (Nat.le_of_lt hk')
      have hn : p.names[k]? = some p.names[k] := List.getElem?_eq_getElem hk'
      have hprefix := p.names_upTo_prefix_succ k
      cases hresult : (stage helper v p k).result with
      | error fault =>
          rw [stage_succ_of_error hn hresult]
          refine ⟨?_, nofun, nofun⟩
          have h := ih.descends.append hprefix (List.nil_sublist _)
          rw [List.append_nil] at h
          exact h.mono (Nat.mul_le_mul_left 2 (Nat.le_succ k))
      | ok x =>
          have hplace : x.path = p.upTo k := ih.place x hresult
          have hchild : p.upTo (k + 1) = x.path.extend p.names[k] := by
            rw [Path.upTo_succ hn, hplace]
          have hadvances : ∃ more, more.Sublist [p.upTo k, p.upTo (k + 1)] ∧
              Advances (stage helper v p k).asked x.path p.names[k] more
                (stage helper v p (k + 1)) := by
            rw [stage_succ_of_ok hn hresult, ← hplace, hchild]
            by_cases hsought : IsSought x p.names[k]
            · exact ⟨_, asksFor_sublist _ _ _ _ _, advances_into helper _ _ hsought⟩
            · exact ⟨[], List.nil_sublist _, advances_into_of_not_isSought helper _ _ hsought⟩
          obtain ⟨more, hmore, hadv⟩ := hadvances
          have hlength : more.length ≤ 2 := hmore.length_le
          refine ⟨?_, ?_, ?_⟩
          · rw [hadv.asked]
            exact (ih.descends.append hprefix hmore).mono (by omega)
          · rw [hchild]
            exact hadv.place
          · rw [hchild]
            exact hadv.fresh

/-! ### The operations -/

theorem stage_depth (helper : Helper View) (v : View) (p : Path) :
    stage helper v p p.depth = (walkFromRoot p).run helper [] v := by
  rw [stage, p.upTo_depth]

theorem asked_resolve (helper : Helper View) (v : View) (p : Path) :
    ((resolve p).run helper [] v).asked = (stage helper v p p.depth).asked := by
  rw [stage_depth]
  refine asked_bind_of_isSilent (fun x => ?_) _
  split
  · exact (isSilent_attempt _).bind fun kind => isSilent_pure _
  · exact isSilent_pure _

/-- What the walk found, with the kind of a directory read off what is held in its place now. -/
theorem resolve_of_ok {asked : List Path} (h : ((resolve p).run helper asked v).result = .ok x) :
    ∃ y, ((walkFromRoot p).run helper asked v).result = .ok y ∧ x.path = y.path ∧
      x.volatile = y.volatile ∧ (x.kind.isDirectory = true → ∃ held,
        ((resolve p).run helper asked v).state.store.held x.path = .ok held ∧
        x.kind = held.kind) := by
  unfold resolve at h ⊢
  cases hwalk : ((walkFromRoot p).run helper asked v).result with
  | error fault =>
      rw [run_bind_of_error hwalk] at h
      cases h
  | ok y =>
      rw [run_bind_of_ok hwalk] at h ⊢
      generalize ((walkFromRoot p).run helper asked v).state = w at h ⊢
      refine ⟨y, rfl, ?_⟩
      cases hdir : y.kind.isDirectory with
      | false =>
          simp only [hdir, Bool.false_eq_true, if_false, run_pure] at h ⊢
          cases h
          exact ⟨rfl, rfl, fun hd => by rw [hdir] at hd; cases hd⟩
      | true =>
          simp only [hdir, if_true, run_bind, run_attempt, directoryKind_eq] at h ⊢
          have hkept : (peek y.path w).1.store.held y.path = w.store.held y.path :=
            (calm_peek y.path w).store.held y.path
          cases hheld : w.store.held y.path with
          | error fault =>
              rw [hheld] at h
              cases h
          | ok held =>
              rw [hheld] at h
              cases h
              exact ⟨rfl, rfl, fun _ => ⟨held, hkept.trans hheld, rfl⟩⟩

theorem asked_lookup (helper : Helper View) (v : View) (p : Path) :
    ((lookup p).run helper [] v).asked = (stage helper v p p.depth).asked := by
  rw [← asked_resolve]
  exact asked_bind_of_isSilent (fun x => isSilent_get.bind fun w => (isSilent_lift _).bind
    fun attr => (isSilent_act _).bind fun id => isSilent_pure _) _

/-- There is no body in the place of a file that the mount may use. -/
def LacksBody (v : View) (x : Resolved) : Prop :=
  ∃ found, v.store.stat x.path = .ok found ∧ isUsable v x found = false

theorem asked_ensureBody_of_lacksBody {asked : List Path} (h : LacksBody v x) :
    ((ensureBody x).run helper asked v).asked = asked ++ [x.path] := by
  obtain ⟨found, hstat, husable⟩ := h
  unfold ensureBody
  rw [run_bind, run_stat, hstat]
  dsimp only
  rw [run_bind, run_get]
  dsimp only
  rw [husable]
  simp only [Bool.false_eq_true, if_false]
  rw [asked_bind_of_isSilent, run_ask]
  intro _ helper asked w
  rw [run_bind, run_stat]
  rcases w.store.stat x.path with fault | _ | e
  · rfl
  · rfl
  · dsimp only
    split <;> rfl

theorem asked_ensureBody_of_not_lacksBody {asked : List Path} (h : ¬ LacksBody v x) :
    ((ensureBody x).run helper asked v).asked = asked := by
  unfold ensureBody
  rw [run_bind, run_stat]
  cases hstat : v.store.stat x.path with
  | error fault => rfl
  | ok found =>
      have husable : isUsable v x found = true := by
        by_contra hne
        exact h ⟨found, hstat, Bool.eq_false_iff.mpr hne⟩
      dsimp only
      rw [run_bind, run_get]
      dsimp only
      rw [husable]
      rfl

theorem asked_openFile_of_file (hresult : ((resolve p).run helper [] v).result = .ok x)
    (hfile : x.kind = .file) : ((openFile p).run helper [] v).asked =
      ((ensureBody x).run helper ((resolve p).run helper [] v).asked
        ((resolve p).run helper [] v).state).asked := by
  unfold openFile
  rw [run_bind_of_ok hresult, hfile]
  exact asked_bind_of_isSilent (fun _ => isSilent_attempt _) _

theorem asked_openFile_of_not_file
    (h : ∀ x, ((resolve p).run helper [] v).result = .ok x → x.kind ≠ .file) :
    ((openFile p).run helper [] v).asked = ((resolve p).run helper [] v).asked := by
  unfold openFile
  cases hresult : ((resolve p).run helper [] v).result with
  | error fault => rw [run_bind_of_error hresult]
  | ok x =>
      have hkind := h x hresult
      rw [run_bind_of_ok hresult]
      cases hk : x.kind with
      | file => exact absurd hk hkind
      | staticDirectory | dynamicDirectory | symlink | control => rfl

theorem asked_indexForListing_of_listing {asked : List Path} {dir : Path} {entries : List Entry}
    (h : v.store.held dir = .ok (.index (.listing entries))) :
    ((indexForListing dir).run helper asked v).asked = asked := by
  unfold indexForListing
  rw [run_bind, run_attempt, peek_snd, h]
  rfl

theorem asked_indexForListing {asked : List Path} {dir : Path} {held : Peeked}
    (h : v.store.held dir = .ok held) (hne : ∀ entries, held ≠ .index (.listing entries)) :
    ((indexForListing dir).run helper asked v).asked = asked ++ [dir] := by
  have hanew (w : View) : ((askForIndex dir).run helper asked w).asked = asked ++ [dir] := by
    rw [run_askForIndex]
    rcases helper asked dir w with ⟨u, fault | _⟩ <;> rfl
  unfold indexForListing
  rw [run_bind, run_attempt, peek_snd, h]
  rcases held with _ | (_ | entries) | _
  · exact hanew _
  · exact hanew _
  · exact absurd rfl (hne entries)
  · exact hanew _

theorem isSilent_listChild (dir : Path) (c : String × EntryKind) : IsSilent (listChild dir c) :=
  (isSilent_act _).bind fun _ => (isSilent_act _).bind fun _ => isSilent_pure _

/-- Listing a directory asks for no more than its index. -/
theorem asked_entriesOf (helper : Helper View) (asked : List Path) (v : View) (x : Resolved) :
    ∃ w, v.Calm w ∧ ((entriesOf x).run helper asked v).asked =
      ((indexForListing x.path).run helper asked w).asked := by
  obtain ⟨w, first, hfirst, hcalm, -⟩ := run_builtinsAt helper v x.path asked v (.refl v)
  refine ⟨w, hcalm, ?_⟩
  unfold entriesOf entriesAfter
  rw [run_bind, hfirst]
  exact asked_bind_of_isSilent (fun index => isSilent_get.bind fun u => (isSilent_lift _).bind
    fun names => (IsSilent.mapM (isSilent_listChild x.path) _).bind fun rest => isSilent_pure _) _

theorem asked_readDirectory_of_directory
    (hresult : ((resolve p).run helper [] v).result = .ok x) (hdir : x.kind.isDirectory = true) :
    ((readDirectory p).run helper [] v).asked =
      ((entriesOf x).run helper ((resolve p).run helper [] v).asked
        ((resolve p).run helper [] v).state).asked := by
  rw [readDirectory_eq, run_bind_of_ok hresult, if_pos hdir]

theorem asked_readDirectory_of_not_directory
    (h : ∀ x, ((resolve p).run helper [] v).result = .ok x → x.kind.isDirectory = false) :
    ((readDirectory p).run helper [] v).asked = ((resolve p).run helper [] v).asked := by
  rw [readDirectory_eq]
  cases hresult : ((resolve p).run helper [] v).result with
  | error fault => rw [run_bind_of_error hresult]
  | ok x =>
      rw [run_bind_of_ok hresult, h x hresult]
      rfl

end Resolver
end OnDemandFs
