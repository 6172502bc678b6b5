import OnDemandFs.Proofs.Index.Listings
import OnDemandFs.Proofs.Resolve.Reached

/-!
# The presented tree

The tree that a cache presents, described without a walk and without memory: `Store.Child` says
what a directory has under a name, and `Store.Shows` collects what is there from the root down.
What is not there is missed at a first obstacle, `Store.Obstacle`. The walk over the cache reaches
just what is shown, and fails with just that obstacle.
-/
namespace OnDemandFs
namespace Store

/-- The kind that an object gives to a child of a dynamic directory. -/
def standingKind : PhysicalKind → Option NodeKind
  | .file => some .file
  | .directory => some .staticDirectory
  | .other => none

/-- What a directory has under a name. -/
inductive Child (s : Store) (dir : Path) (n : String) : Resolved → Prop
  | builtin {kind : NodeKind} : dir.isRoot = true → builtin? n = some kind →
      Child s dir n { path := dir.extend n, kind }
  | declared {entries : List Entry} {e : Entry} : IsFree dir n →
      s.placed dir = .ok (.index (.listing entries)) → e ∈ entries → e.name = n →
      Child s dir n { path := dir.extend n, kind := .ofEntry e.kind, hint := some e }
  | standing {e : PhysicalEntry} {kind : NodeKind} : IsFree dir n → IsSegment n →
      n ≠ ".." → ¬ IsReserved n → s.placed dir = .ok (.index .dynamic) →
      s.stat (dir.extend n) = .ok (some e) → standingKind e.kind = some kind →
      Child s dir n { path := dir.extend n, kind, volatile := true }

/-- What is there, with the kind that it has for the directory above it. -/
inductive Shows (s : Store) : Resolved → Prop
  | root : Shows s top
  | child {x y : Resolved} {n : String} : Shows s x → x.kind.isDirectory = true →
      Child s x.path n y → Shows s y

/-- Why there is nothing under a name, or no telling. -/
inductive Obstacle (s : Store) (x : Resolved) (n : String) : Fault → Prop
  | notDirectory : x.kind.isDirectory = false → Obstacle s x n (.notADirectory x.path.text)
  | reserved : x.kind.isDirectory = true → IsFree x.path n → n = ".." ∨ IsReserved n →
      Obstacle s x n (.notFound (x.path.extend n).text)
  | unreadable {fault : Fault} : IsSought x n → s.placed x.path = .error fault →
      Obstacle s x n fault
  | foreign : IsSought x n → s.placed x.path = .ok .foreign →
      Obstacle s x n (.kindMismatch x.path.text)
  | unindexed : IsSought x n → s.placed x.path = .ok .absent →
      Obstacle s x n (.notFound (x.path.extend n).text)
  | undeclared {entries : List Entry} : IsSought x n →
      s.placed x.path = .ok (.index (.listing entries)) → (∀ e ∈ entries, e.name ≠ n) →
      Obstacle s x n (.notFound (x.path.extend n).text)
  | nothing {found : Option PhysicalEntry} : IsSought x n →
      s.placed x.path = .ok (.index .dynamic) → s.stat (x.path.extend n) = .ok found →
      (∀ e ∈ found, standingKind e.kind = none) →
      Obstacle s x n (.notFound (x.path.extend n).text)
  | unseen {fault : Fault} : IsSought x n → s.placed x.path = .ok (.index .dynamic) →
      s.stat (x.path.extend n) = .error fault → Obstacle s x n fault

variable {s : Store} {x y : Resolved} {dir : Path} {n : String} {fault : Fault}

theorem isSegment_of_builtin {kind : NodeKind} (h : builtin? n = some kind) : IsSegment n := by
  unfold builtin? builtins at h
  simp only [List.find?_cons, List.find?_nil] at h
  split at h
  · next hn =>
      have : controlName = n := by simpa using hn
      subst this
      decide
  · split at h
    · next hn =>
        have : cacheLinkName = n := by simpa using hn
        subst this
        decide
    · cases h

theorem Child.isSegment (h : s.Child dir n y) : IsSegment n := by
  cases h with
  | builtin _ hbuiltin => exact isSegment_of_builtin hbuiltin
  | declared _ hplaced hmem hname =>
      rw [← hname]
      exact ((isListing_of_placed hplaced).names _ hmem).isSegment
  | standing _ hsegment => exact hsegment

theorem Child.path_eq (h : s.Child dir n y) : y.path = dir.extend n := by
  cases h <;> rfl

theorem child_of_ordinary (h : s.Truthful) (hn : ¬ (n = ".." ∨ IsReserved n)) :
    s.child dir n = s.placed dir >>= Peeked.told dir >>= s.childBy dir n := by
  rw [child, if_neg hn, held_eq_placed h]

theorem standing_eq (path : Path) (found : Option PhysicalEntry) :
    standing path found = match found.bind fun e => standingKind e.kind with
      | some kind => .ok { path, kind, volatile := true }
      | none => .error (.notFound path.text) := by
  rcases found with _ | ⟨kind, _, _, _⟩
  · rfl
  · cases kind <;> rfl

theorem enter_of_child (h : s.Truthful) (hdir : x.kind.isDirectory = true)
    (hchild : s.Child x.path n y) : s.enter x n = .ok y := by
  cases hchild with
  | builtin hroot hbuiltin => exact enter_of_builtin hdir hroot hbuiltin
  | @declared entries e hfree hplaced hmem hname =>
      have hlisting : IsListing entries := isListing_of_placed hplaced
      have hordinary : ¬ (n = ".." ∨ IsReserved n) := by
        obtain ⟨-, -, hup, hreserved, -⟩ := hlisting.names e hmem
        rw [← hname]
        exact not_or.mpr ⟨hup, hreserved⟩
      have hfind : (Index.listing entries).find? n = some e :=
        (Index.find?_eq_some_iff hlisting).mpr ⟨hmem, hname⟩
      rw [enter_of_plain hdir hfree, child_of_ordinary h hordinary, hplaced]
      change s.childBy x.path n (some (.listing entries)) = _
      simp only [childBy, hfind]
  | standing hfree hsegment hup hreserved hplaced hstat hkind =>
      rw [enter_of_plain hdir hfree, child_of_ordinary h (not_or.mpr ⟨hup, hreserved⟩), hplaced]
      change s.stat (x.path.extend n) >>= standing (x.path.extend n) = _
      rw [hstat]
      change standing (x.path.extend n) (some _) = _
      rw [standing_eq, Option.bind_some, hkind]

theorem enter_of_sought (h : s.Truthful) (hsought : IsSought x n) :
    s.enter x n = s.placed x.path >>= Peeked.told x.path >>= s.childBy x.path n := by
  rw [enter_of_plain hsought.directory hsought.free, child_of_ordinary h hsought.ordinary]

theorem enter_of_obstacle (h : s.Truthful) (hobstacle : s.Obstacle x n fault) :
    s.enter x n = .error fault := by
  cases hobstacle with
  | notDirectory hdir => exact enter_of_not_isDirectory hdir
  | reserved hdir hfree hreserved => rw [enter_of_plain hdir hfree, child, if_pos hreserved]
  | unreadable hsought hplaced => rw [enter_of_sought h hsought, hplaced]; rfl
  | foreign hsought hplaced => rw [enter_of_sought h hsought, hplaced]; rfl
  | unindexed hsought hplaced => rw [enter_of_sought h hsought, hplaced]; rfl
  | undeclared hsought hplaced hnames =>
      rw [enter_of_sought h hsought, hplaced]
      change s.childBy x.path n (some (.listing _)) = _
      simp only [childBy, Index.find?_eq_none_iff.mpr hnames]
  | @nothing found hsought hplaced hstat hkind =>
      rw [enter_of_sought h hsought, hplaced]
      change s.stat (x.path.extend n) >>= standing (x.path.extend n) = _
      rw [hstat]
      change standing (x.path.extend n) found = _
      have hnone : (found.bind fun e => standingKind e.kind) = none := by
        cases found with
        | none => rfl
        | some e => exact hkind e rfl
      rw [standing_eq, hnone]
  | unseen hsought hplaced hstat =>
      rw [enter_of_sought h hsought, hplaced]
      change s.stat (x.path.extend n) >>= standing (x.path.extend n) = _
      rw [hstat]
      rfl

/-- Every step of a walk reaches a child or meets an obstacle. -/
theorem child_or_obstacle (s : Store) (x : Resolved) (hn : IsSegment n) :
    (x.kind.isDirectory = true ∧ ∃ y, s.Child x.path n y) ∨ ∃ fault, s.Obstacle x n fault := by
  cases hdir : x.kind.isDirectory with
  | false => exact .inr ⟨_, .notDirectory hdir⟩
  | true =>
      by_cases hfree : IsFree x.path n
      · by_cases hordinary : n = ".." ∨ IsReserved n
        · exact .inr ⟨_, .reserved hdir hfree hordinary⟩
        · have hsought : IsSought x n := ⟨hdir, hfree, hordinary⟩
          obtain ⟨hup, hreserved⟩ := not_or.mp hordinary
          cases hplaced : s.placed x.path with
          | error fault => exact .inr ⟨_, .unreadable hsought hplaced⟩
          | ok held =>
              rcases held with _ | (_ | entries) | _
              · exact .inr ⟨_, .unindexed hsought hplaced⟩
              · cases hstat : s.stat (x.path.extend n) with
                | error fault => exact .inr ⟨_, .unseen hsought hplaced hstat⟩
                | ok found =>
                    cases hkind : found.bind fun e => standingKind e.kind with
                    | none =>
                        refine .inr ⟨_, .nothing hsought hplaced hstat ?_⟩
                        rintro e rfl
                        exact hkind
                    | some kind =>
                        obtain ⟨e, rfl, hkind⟩ := Option.bind_eq_some_iff.mp hkind
                        exact .inl ⟨rfl, _, .standing hfree hn hup hreserved hplaced hstat hkind⟩
              · by_cases hnames : ∃ e ∈ entries, e.name = n
                · obtain ⟨e, hmem, hname⟩ := hnames
                  exact .inl ⟨rfl, _, .declared hfree hplaced hmem hname⟩
                · refine .inr ⟨_, .undeclared hsought hplaced fun e hmem hname => ?_⟩
                  exact hnames ⟨e, hmem, hname⟩
              · exact .inr ⟨_, .foreign hsought hplaced⟩
      · unfold IsFree at hfree
        push Not at hfree
        obtain ⟨hroot, hbuiltin⟩ := hfree
        obtain ⟨kind, hkind⟩ := Option.ne_none_iff_exists'.mp hbuiltin
        exact .inl ⟨rfl, _, .builtin hroot hkind⟩

theorem enter_eq_ok_iff (h : s.Truthful) (hn : IsSegment n) :
    s.enter x n = .ok y ↔ x.kind.isDirectory = true ∧ s.Child x.path n y := by
  constructor
  · intro henter
    rcases s.child_or_obstacle x hn with ⟨hdir, y', hchild⟩ | ⟨fault, hobstacle⟩
    · rw [enter_of_child h hdir hchild] at henter
      cases henter
      exact ⟨hdir, hchild⟩
    · rw [enter_of_obstacle h hobstacle] at henter
      cases henter
  · rintro ⟨hdir, hchild⟩
    exact enter_of_child h hdir hchild

theorem enter_eq_error_iff (h : s.Truthful) (hn : IsSegment n) :
    s.enter x n = .error fault ↔ s.Obstacle x n fault := by
  constructor
  · intro henter
    rcases s.child_or_obstacle x hn with ⟨hdir, y, hchild⟩ | ⟨fault', hobstacle⟩
    · rw [enter_of_child h hdir hchild] at henter
      cases henter
    · rw [enter_of_obstacle h hobstacle] at henter
      cases henter
      exact hobstacle
  · exact enter_of_obstacle h

/-! ### Whole paths -/

theorem Shows.reached (hs : s.Shows x) (h : s.Truthful) : s.reached x.path = .ok x := by
  induction hs with
  | root => rfl
  | child _ hdir hchild ih =>
      rw [hchild.path_eq, reached_extend _ hchild.isSegment, ih]
      exact enter_of_child h hdir hchild

/-- A walk from what is shown ends at what is shown, or at the first obstacle. -/
theorem foldlM_enter (h : s.Truthful) {names : List String} (hnames : ∀ n ∈ names, IsSegment n)
    (hs : s.Shows x) :
    match names.foldlM s.enter x with
    | .ok y => s.Shows y
    | .error fault => ∃ y n rest, s.Shows y ∧ x.path.names ++ names = y.path.names ++ n :: rest ∧
        s.Obstacle y n fault := by
  induction names generalizing x with
  | nil => exact hs
  | cons n rest ih =>
      have hn : IsSegment n := hnames n List.mem_cons_self
      have hrest : ∀ m ∈ rest, IsSegment m := fun m hm => hnames m (List.mem_cons_of_mem _ hm)
      rw [List.foldlM_cons]
      cases henter : s.enter x n with
      | error fault => exact ⟨x, n, rest, hs, rfl, (enter_eq_error_iff h hn).mp henter⟩
      | ok y =>
          obtain ⟨hdir, hchild⟩ := (enter_eq_ok_iff h hn).mp henter
          have hwalk := ih hrest (hs.child hdir hchild)
          rw [hchild.path_eq, Path.names_extend_of_isSegment _ hn, List.append_assoc] at hwalk
          exact hwalk

theorem reached_eq_ok_iff (h : s.Truthful) {p : Path} :
    s.reached p = .ok x ↔ s.Shows x ∧ x.path = p := by
  constructor
  · intro hreached
    have hshown := foldlM_enter h p.allSegments .root
    rw [show p.names.foldlM s.enter top = .ok x from hreached] at hshown
    exact ⟨hshown, path_of_reached hreached⟩
  · rintro ⟨hs, rfl⟩
    exact hs.reached h

theorem reached_eq_error_iff (h : s.Truthful) {p : Path} :
    s.reached p = .error fault ↔ ∃ x n rest, s.Shows x ∧
      p.names = x.path.names ++ n :: rest ∧ s.Obstacle x n fault := by
  constructor
  · intro hreached
    have hwalk := foldlM_enter h p.allSegments .root
    rw [show p.names.foldlM s.enter top = .error fault from hreached] at hwalk
    exact hwalk
  · rintro ⟨x, n, rest, hs, hp, hobstacle⟩
    have hx : x.path.names.foldlM s.enter top = .ok x := hs.reached h
    rw [Store.reached, hp, List.foldlM_append, hx]
    change (n :: rest).foldlM s.enter x = _
    rw [List.foldlM_cons, enter_of_obstacle h hobstacle]
    rfl

theorem Shows.kind_ne_dynamicDirectory (hs : s.Shows x) : x.kind ≠ .dynamicDirectory := by
  cases hs with
  | root => nofun
  | child _ _ hchild =>
      cases hchild with
      | @builtin kind _ hbuiltin =>
          change kind ≠ _
          rintro rfl
          cases not_isDirectory_of_builtin hbuiltin
      | @declared entries e =>
          change NodeKind.ofEntry e.kind ≠ _
          cases e.kind <;> nofun
      | @standing e kind _ _ _ _ _ _ hkind =>
          change kind ≠ _
          rintro rfl
          unfold standingKind at hkind
          split at hkind <;> cases hkind

end Store

/-- The path of a built-in entry. -/
def Path.IsBuiltin (p : Path) : Prop := ∃ n kind, p.names = [n] ∧ builtin? n = some kind

namespace Store
variable {s : Store} {x : Resolved}

/-- Volatile are just the children of dynamic directories that are not built in. -/
theorem Shows.volatile_iff (hs : s.Shows x) : x.volatile = true ↔
    x.path.isRoot = false ∧ ¬ x.path.IsBuiltin ∧
      s.placed x.path.parent = .ok (.index .dynamic) := by
  cases hs with
  | root => exact ⟨nofun, fun h => by cases h.1⟩
  | @child y _ n _ _ hchild =>
      have hn := hchild.isSegment
      rw [hchild.path_eq, Path.parent_extend _ hn, Path.isRoot_extend _ hn]
      cases hchild with
      | @builtin kind hroot hbuiltin =>
          refine ⟨nofun, fun h => absurd ⟨n, kind, ?_, hbuiltin⟩ h.2.1⟩
          rw [Path.names_extend_of_isSegment _ hn, List.isEmpty_iff.mp hroot]
          rfl
      | declared _ hplaced =>
          refine ⟨nofun, fun h => ?_⟩
          rw [h.2.2] at hplaced
          cases hplaced
      | standing hfree _ _ _ hplaced =>
          refine ⟨fun _ => ⟨rfl, ?_, hplaced⟩, fun _ => rfl⟩
          rintro ⟨m, kind, hm, hbuiltin⟩
          rw [Path.names_extend_of_isSegment _ hn] at hm
          have hm' : y.path.names ++ [n] = [] ++ [m] := hm
          obtain ⟨hroot, heq⟩ := List.append_inj' hm' rfl
          cases heq
          rw [hfree (List.isEmpty_iff.mpr hroot)] at hbuiltin
          cases hbuiltin

end Store

end OnDemandFs
