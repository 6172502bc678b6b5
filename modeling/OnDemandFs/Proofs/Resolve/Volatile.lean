import OnDemandFs.Proofs.Resolve.Confined
import OnDemandFs.Proofs.Resolve.Remembered

/-!
# Children of dynamic directories

A child of a dynamic directory is asked for on every access, and what stands in its place after that
is what is told of it. `indexAt` is the part of a walk before that request, and the view that it
ends with is the one in which the child is asked for. From there on the look-up or opening of the
child is a matter of that one answer.
-/
namespace OnDemandFs.Resolver

open Asking Store

variable {helper : Helper View} {answer : List Path → Path → View → View} {asked : List Path}
  {v w : View} {dir p : Path} {c : String} {x y : Resolved} {index : Index}

/-- The index of the directory that a path leads to; it is asked for if it is not cached. -/
def indexAt (dir : Path) : Resolver (Option Index) := do
  let x ← walkFromRoot dir
  if x.kind.isDirectory then ensureIndex x.path else fail (.notADirectory x.path.text)

/-- An index that was told of is held. -/
theorem held_of_ensureIndex
    (h : ((ensureIndex dir).run helper asked v).result = .ok (some index)) :
    ((ensureIndex dir).run helper asked v).state.store.held dir = .ok (.index index) := by
  have hpeek {u : View} {held : Except Fault Peeked} (hheld : u.store.held dir = held) :
      (peek dir u).1.store.held dir = held :=
    ((calm_peek dir u).store.held dir).trans hheld
  have hasked (u : View) (hu : ((askForIndex dir).run helper asked u).result = .ok (some index)) :
      ((askForIndex dir).run helper asked u).state.store.held dir = .ok (.index index) := by
    rw [run_askForIndex] at hu ⊢
    revert hu
    rcases helper asked dir u with ⟨w, fault | _⟩ <;> intro hu
    · cases hu
    · dsimp only at hu ⊢
      cases hheld : w.store.held dir with
      | error fault =>
          rw [hheld] at hu
          cases hu
      | ok held =>
          rw [hheld] at hu
          cases held with
          | index known =>
              cases hu
              exact hpeek hheld
          | absent | foreign => cases hu
  rw [run_ensureIndex] at h ⊢
  cases hheld : v.store.held dir with
  | error fault =>
      rw [hheld] at h
      cases h
  | ok held =>
      rw [hheld] at h
      cases held with
      | index known =>
          cases h
          exact hpeek hheld
      | absent | foreign => exact hasked _ h

/-- The way to an index that was told of. -/
theorem walk_of_indexAt (h : ((indexAt dir).run helper [] v).result = .ok (some index)) :
    ∃ x, (stage helper v dir dir.depth).result = .ok x ∧ x.path = dir ∧
      x.kind.isDirectory = true ∧ (indexAt dir).run helper [] v =
        (ensureIndex dir).run helper (stage helper v dir dir.depth).asked
          (stage helper v dir dir.depth).state := by
  have hplace := (stageInv helper v dir (Nat.le_refl dir.depth)).place
  rw [stage_depth, dir.upTo_depth] at hplace
  rw [stage_depth]
  unfold indexAt at h ⊢
  cases hwalk : ((walkFromRoot dir).run helper [] v).result with
  | error fault =>
      rw [run_bind_of_error hwalk] at h
      cases h
  | ok x =>
      have hpath := hplace x hwalk
      rw [run_bind_of_ok hwalk] at h ⊢
      cases hdir : x.kind.isDirectory with
      | false =>
          rw [hdir] at h
          cases h
      | true =>
          refine ⟨x, rfl, hpath, hdir, ?_⟩
          rw [if_pos rfl, hpath]

theorem held_of_indexAt (h : ((indexAt dir).run helper [] v).result = .ok (some index)) :
    ((indexAt dir).run helper [] v).state.store.held dir = .ok (.index index) := by
  obtain ⟨x, -, -, -, hrun⟩ := walk_of_indexAt h
  rw [hrun] at h ⊢
  exact held_of_ensureIndex h

/-- Nothing above the directory is asked for, and nothing beside the way to it. -/
theorem asked_indexAt (h : ((indexAt dir).run helper [] v).result = .ok (some index)) :
    ∀ q ∈ ((indexAt dir).run helper [] v).asked, q.names <+: dir.names := by
  have hway := (stageInv helper v dir (Nat.le_refl dir.depth)).descends.onTheWay
  rw [dir.upTo_depth] at hway
  obtain ⟨x, -, -, -, hrun⟩ := walk_of_indexAt h
  have hlast (q : Path) (hq : q ∈ (stage helper v dir dir.depth).asked ++ [dir]) :
      q.names <+: dir.names := by
    rcases List.mem_append.mp hq with hq | hq
    · exact hway q hq
    · rewrite [List.mem_singleton.mp hq]
      exact List.prefix_rfl
  have hanew (u : View) (q : Path) (hq : q ∈ ((askForIndex dir).run helper
      (stage helper v dir dir.depth).asked u).asked) : q.names <+: dir.names := by
    rw [run_askForIndex] at hq
    revert hq
    rcases helper (stage helper v dir dir.depth).asked dir u with ⟨w, fault | _⟩
    · exact hlast q
    · exact hlast q
  intro q hq
  rw [hrun, run_ensureIndex] at hq
  revert hq
  rcases (stage helper v dir dir.depth).state.store.held dir with fault | _ | known | _
  · exact hway q
  · exact hanew _ q
  · exact hway q
  · exact hanew _ q

/-- A walk that ends well met entry names only. -/
theorem isConfined_of_walk (h : ((walkFromRoot p).run helper asked v).result = .ok x) :
    p.IsConfined := by
  induction p using Path.extendInduction generalizing x with
  | root => exact .root
  | extend q n hn ih =>
      rw [walkFromRoot_extend q hn] at h
      cases hwalk : ((walkFromRoot q).run helper asked v).result with
      | error fault =>
          rw [run_bind_of_error hwalk] at h
          cases h
      | ok y =>
          rw [run_bind_of_ok hwalk] at h
          refine (Path.isConfined_extend_iff hn).mpr ⟨ih hwalk, ?_⟩
          rcases into_cases q.isRoot y n with
            ⟨-, -, hordinary, -⟩ | ⟨kind, -, hkind, -⟩ | ⟨fault, hinto⟩
          · exact not_or.mp hordinary
          · exact ((Path.isConfined_extend_iff hn).mp (Plan.isConfined_builtin hkind)).2
          · rw [hinto] at h
            cases h

/-- The walk to a child of a dynamic directory ends with what stands there once it was asked for. -/
theorem walk_of_dynamic (hn : IsSegment c) (hordinary : ¬ (c = ".." ∨ IsReserved c))
    (hfree : IsFree dir c)
    (h : ((indexAt dir).run (.closing answer) [] v).result = .ok (some .dynamic))
    (hw : w = answer ((indexAt dir).run (.closing answer) [] v).asked (dir.extend c)
      ((indexAt dir).run (.closing answer) [] v).state) :
    ((walkFromRoot (dir.extend c)).run (.closing answer) [] v).state = w ∧
      ((walkFromRoot (dir.extend c)).run (.closing answer) [] v).result =
        w.store.stat (dir.extend c) >>= standing (dir.extend c) := by
  obtain ⟨x, hx, rfl, hdir, hrun⟩ := walk_of_indexAt h
  have hsought : IsSought x c := ⟨hdir, hfree, hordinary⟩
  rw [stage_depth] at hx hrun
  rw [walkFromRoot_extend _ hn, run_bind_of_ok hx, into_of_isSought hsought,
    resolveChild_eq hordinary]
  rw [hrun] at h hw
  rw [run_bind_of_ok h, childIn, run_volatileChild]
  subst hw
  exact ⟨rfl, rfl⟩

/-! ### From the end of a walk on -/

theorem lookup_of_walk_error {fault : Fault}
    (h : ((walkFromRoot p).run helper [] v).result = .error fault) :
    ((lookup p).run helper [] v).result = .error fault := by
  unfold lookup resolve
  rw [bind_assoc, run_bind_of_error h]

theorem lookup_of_unclassified {fault : Fault}
    (h : ((walkFromRoot p).run helper [] v).result = .ok x)
    (hx : ((walkFromRoot p).run helper [] v).state.store.classified x = .error fault) :
    ((lookup p).run helper [] v).result = .error fault := by
  have hresolve := (run_resolve_of_ok h).2.trans hx
  unfold lookup
  rw [run_bind_of_error hresolve]

/-- What can be told apart and looked at is told of. -/
theorem lookup_of_classified (h : ((walkFromRoot p).run helper [] v).result = .ok x)
    (hx : ((walkFromRoot p).run helper [] v).state.store.classified x = .ok y)
    {found : Option PhysicalEntry}
    (hstat : ((walkFromRoot p).run helper [] v).state.store.stat y.path = .ok found) :
    ∃ id attr, ((lookup p).run helper [] v).result =
      .ok ⟨id, y.path, y.kind, attr, y.volatile⟩ := by
  obtain ⟨hcalm, hresolve⟩ := run_resolve_of_ok h
  rw [hx] at hresolve
  have hstat' := (hcalm.store.stat y.path).trans hstat
  unfold lookup
  rw [run_bind_of_ok hresolve]
  generalize ((resolve p).run helper [] v).state = u at hstat' ⊢
  simp only [run_bind, run_get, run_lift, run_act, run_pure]
  cases hattr : attributes y u with
  | error fault =>
      rw [(stat_of_attributes hattr).2] at hstat'
      cases hstat'
  | ok attr => exact ⟨_, _, rfl⟩

theorem openFile_of_not_ok (h : ∀ x, ((resolve p).run helper [] v).result = .ok x →
    x.kind.isDirectory = true) : ∃ fault, ((openFile p).run helper [] v).result = .error fault := by
  unfold openFile
  cases hresult : ((resolve p).run helper [] v).result with
  | error fault =>
      rw [run_bind_of_error hresult]
      exact ⟨fault, rfl⟩
  | ok x =>
      have hdir := h x hresult
      rw [run_bind_of_ok hresult]
      cases hkind : x.kind with
      | staticDirectory | dynamicDirectory => exact ⟨_, rfl⟩
      | file | symlink | control =>
          rw [hkind] at hdir
          cases hdir

theorem run_resolve_of_file (h : ((walkFromRoot p).run helper [] v).result = .ok x)
    (hfile : x.kind = .file) : (resolve p).run helper [] v =
      ⟨((walkFromRoot p).run helper [] v).asked, ((walkFromRoot p).run helper [] v).state,
        .ok x⟩ := by
  have hdir : ¬ x.kind.isDirectory = true := by
    rw [hfile]
    nofun
  unfold resolve
  rw [run_bind_of_ok h, if_neg hdir]
  rfl

/-- A file whose body is there to be used is opened as it is, and nobody is asked for it. -/
theorem openFile_of_usable {q : Location} {id : FileId} {e : PhysicalEntry}
    (h : ((walkFromRoot p).run helper [] v).result = .ok x) (hfile : x.kind = .file)
    (hw : ((walkFromRoot p).run helper [] v).state = w)
    (hstat : w.store.stat x.path = .ok (some e)) (husable : isUsable w x (some e) = true)
    (hfind : w.store.disk.find true (w.store.physical x.path) = .ok (q, .file id)) :
    ∃ u f, (openFile p).run helper [] v = ⟨((walkFromRoot p).run helper [] v).asked, u, .ok f⟩ ∧
      f.file = id ∧ u.store = w.store := by
  have hbody (asked : List Path) : (ensureBody x).run helper asked w = ⟨asked, w, .ok ()⟩ := by
    unfold ensureBody
    rw [run_bind, run_stat, hstat]
    dsimp only
    rw [run_bind, run_get]
    dsimp only
    rw [husable]
    rfl
  have hopen (asked : List Path) : ∃ u f, (ensureBody x >>= fun _ => attempt (openBody x)).run
      helper asked w = ⟨asked, u, .ok f⟩ ∧ f.file = id ∧ u.store = w.store := by
    rw [run_bind, hbody]
    dsimp only
    rw [run_attempt]
    unfold openBody
    rw [hfind]
    exact ⟨_, _, rfl, rfl, rfl⟩
  unfold openFile
  rw [run_bind, run_resolve_of_file h hfile, hw]
  dsimp only
  rw [hfile]
  exact hopen _

/-- A file that stands there and that no listing declares is opened as it is. -/
theorem openFile_of_standing {q : Location} {id : FileId}
    (h : ((walkFromRoot p).run helper [] v).result = .ok x) (hfile : x.kind = .file)
    (hhint : x.hint = none) (hw : ((walkFromRoot p).run helper [] v).state = w)
    (hstat : w.store.stat x.path = .ok (some (entryOf w.store.disk (.file id))))
    (hfind : w.store.disk.find true (w.store.physical x.path) = .ok (q, .file id)) :
    ∃ f, ((openFile p).run helper [] v).result = .ok f ∧ f.file = id ∧
      ((openFile p).run helper [] v).state.store = w.store := by
  have hkind : (entryOf w.store.disk (.file id)).kind = .file := kind_entryOf_file _ id
  have husable : isUsable w x (some (entryOf w.store.disk (.file id))) = true := by
    simp only [isUsable, hkind, isStale, hhint, Bool.and_false, Bool.not_false, decide_true,
      Bool.and_self]
  obtain ⟨u, f, hrun, hid, hstore⟩ := openFile_of_usable h hfile hw hstat husable hfind
  rw [hrun]
  exact ⟨f, rfl, hid, hstore⟩

end OnDemandFs.Resolver
