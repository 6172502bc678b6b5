import OnDemandFs.Proofs.Identity.Numbers
import OnDemandFs.Proofs.Resolve.Calm

/-!
# What a walk reaches

While a helper closes its requests without publishing anything, a walk is a function of the cache.
`Store.enter` makes one step of it, `Store.reached` folds the step over the segments of a path, and
`Store.classified` then reads the kind of a directory off its own index. The built-in entries are
children of the root here like any other. `tells_resolve` says that the operation ends with just
that, and `lookup_ends` adds the attributes and the number of the node.
-/
namespace OnDemandFs

/-- The index that is to be had for a directory, by what is held in its place. -/
def Peeked.told (dir : Path) : Peeked → Except Fault (Option Index)
  | .index known => .ok (some known)
  | .absent => .ok none
  | .foreign => .error (.kindMismatch dir.text)

/-- The kind of a directory, by what is held in its place. -/
def Peeked.kind : Peeked → NodeKind
  | .index .dynamic => .dynamicDirectory
  | _ => .staticDirectory

namespace Store

/-- The child of a dynamic directory, by what stands at its place. -/
def standing (path : Path) : Option PhysicalEntry → Except Fault Resolved
  | some ⟨.file, _, _, _⟩ => .ok { path, kind := .file, volatile := true }
  | some ⟨.directory, _, _, _⟩ => .ok { path, kind := .staticDirectory, volatile := true }
  | _ => .error (.notFound path.text)

/-- The child of a directory under a name, by the index of the directory. -/
def childBy (s : Store) (dir : Path) (name : String) : Option Index → Except Fault Resolved
  | none => .error (.notFound (dir.extend name).text)
  | some .dynamic => s.stat (dir.extend name) >>= standing (dir.extend name)
  | some (.listing entries) =>
    match (Index.listing entries).find? name with
    | none => .error (.notFound (dir.extend name).text)
    | some e => .ok { path := dir.extend name, kind := .ofEntry e.kind, hint := some e }

def child (s : Store) (dir : Path) (name : String) : Except Fault Resolved :=
  if name = ".." ∨ IsReserved name then .error (.notFound (dir.extend name).text)
  else s.held dir >>= Peeked.told dir >>= s.childBy dir name

/-- One step of a walk. -/
def enter (s : Store) (x : Resolved) (name : String) : Except Fault Resolved :=
  if x.kind.isDirectory then
    match (if x.path.isRoot then builtin? name else none) with
    | some kind => .ok { path := x.path.extend name, kind }
    | none => s.child x.path name
  else .error (.notADirectory x.path.text)

/-- The name is not taken by a built-in entry. -/
def IsFree (dir : Path) (n : String) : Prop := dir.isRoot = true → builtin? n = none

/-- The name has to be looked for in the index of a directory. -/
structure IsSought (x : Resolved) (n : String) : Prop where
  directory : x.kind.isDirectory = true
  free : IsFree x.path n
  ordinary : ¬ (n = ".." ∨ IsReserved n)

/-- Where every walk starts. -/
def top : Resolved := { path := .root, kind := .staticDirectory }

def reached (s : Store) (p : Path) : Except Fault Resolved := p.names.foldlM s.enter top

def classified (s : Store) (x : Resolved) : Except Fault Resolved :=
  if x.kind.isDirectory then s.held x.path >>= fun h => .ok { x with kind := h.kind } else .ok x

/-- What a path turns out to be. -/
def resolved (s : Store) (p : Path) : Except Fault Resolved := s.reached p >>= s.classified

variable {s : Store} {dir : Path} {name : String} {x y : Resolved}

theorem enter_of_not_isDirectory (h : x.kind.isDirectory = false) :
    s.enter x name = .error (.notADirectory x.path.text) := by
  simp only [enter, h, Bool.false_eq_true, if_false]

theorem enter_of_builtin (hdir : x.kind.isDirectory = true) (hroot : x.path.isRoot = true)
    {kind : NodeKind} (h : builtin? name = some kind) :
    s.enter x name = .ok { path := x.path.extend name, kind } := by
  simp only [enter, hdir, hroot, if_true, h]

theorem enter_of_plain (hdir : x.kind.isDirectory = true) (h : IsFree x.path name) :
    s.enter x name = s.child x.path name := by
  have hnone : (if x.path.isRoot then builtin? name else none) = none := by
    split
    · next hroot => exact h hroot
    · rfl
  simp only [enter, hdir, if_true, hnone]

theorem child_of_held {index : Index} (hname : ¬ (name = ".." ∨ IsReserved name))
    (hheld : s.held dir = .ok (.index index)) :
    s.child dir name = s.childBy dir name (some index) := by
  rw [child, if_neg hname, hheld]
  rfl

theorem ordinary_of_child (h : s.child dir name = .ok y) : ¬ (name = ".." ∨ IsReserved name) := by
  intro hname
  rw [child, if_pos hname] at h
  cases h

theorem path_of_standing {path : Path} {found : Option PhysicalEntry}
    (h : standing path found = .ok y) : y.path = path := by
  unfold standing at h
  split at h <;> cases h <;> rfl

theorem path_of_childBy {index : Option Index} (h : s.childBy dir name index = .ok y) :
    y.path = dir.extend name := by
  rcases index with _ | _ | entries
  · cases h
  · obtain ⟨found, -, hfound⟩ := bind_eq_ok_iff.mp h
    exact path_of_standing hfound
  · simp only [childBy] at h
    split at h <;> cases h
    rfl

theorem path_of_child (h : s.child dir name = .ok y) : y.path = dir.extend name := by
  unfold child at h
  split at h
  · cases h
  · obtain ⟨index, -, hindex⟩ := bind_eq_ok_iff.mp h
    exact path_of_childBy hindex

theorem path_of_enter (h : s.enter x name = .ok y) : y.path = x.path.extend name := by
  unfold enter at h
  split at h
  · split at h
    · cases h
      rfl
    · exact path_of_child h
  · cases h

theorem path_of_foldlM {names : List String} (hnames : ∀ n ∈ names, IsSegment n)
    (h : names.foldlM s.enter x = .ok y) : y.path.names = x.path.names ++ names := by
  induction names generalizing x with
  | nil =>
      cases h
      exact (List.append_nil _).symm
  | cons n rest ih =>
      rw [List.foldlM_cons] at h
      cases henter : s.enter x n with
      | error fault => rw [henter] at h; cases h
      | ok z =>
          rw [henter] at h
          rw [ih (fun m hm => hnames m (List.mem_cons_of_mem _ hm)) h, path_of_enter henter,
            Path.names_extend_of_isSegment _ (hnames n List.mem_cons_self), List.append_assoc]
          rfl

theorem path_of_reached {p : Path} (h : s.reached p = .ok x) : x.path = p :=
  Path.ext_names (path_of_foldlM p.allSegments h)

theorem reached_extend (p : Path) (hn : IsSegment name) :
    s.reached (p.extend name) = s.reached p >>= fun x => s.enter x name := by
  rw [reached, p.names_extend_of_isSegment hn, List.foldlM_append, ← reached]
  congr 1
  funext x
  rw [List.foldlM_cons]
  cases s.enter x name <;> rfl

/-- Reading its index settles the kind of a directory and nothing else. -/
structure Classifies (x y : Resolved) : Prop where
  path : y.path = x.path
  hint : y.hint = x.hint
  isDirectory : y.kind.isDirectory = x.kind.isDirectory

theorem isDirectory_kind (held : Peeked) : held.kind.isDirectory = true := by
  rcases held with _ | (_ | entries) | _ <;> rfl

theorem classified_eq_ok (h : s.classified x = .ok y) : Classifies x y := by
  unfold classified at h
  split at h
  · next hdir =>
      obtain ⟨held, -, hheld⟩ := bind_eq_ok_iff.mp h
      cases hheld
      exact ⟨rfl, rfl, (isDirectory_kind held).trans hdir.symm⟩
  · cases h
    exact ⟨rfl, rfl, rfl⟩

theorem path_of_resolved {p : Path} (h : s.resolved p = .ok x) : x.path = p := by
  obtain ⟨y, hreached, hclassified⟩ := bind_eq_ok_iff.mp h
  rw [(classified_eq_ok hclassified).path, path_of_reached hreached]

theorem not_isDirectory_of_builtin {kind : NodeKind} (h : builtin? name = some kind) :
    kind.isDirectory = false := by
  unfold builtin? builtins at h
  simp only [List.find?_cons, List.find?_nil] at h
  split at h
  · cases h
    rfl
  · split at h <;> cases h
    rfl

theorem ne_file_of_builtin {kind : NodeKind} (h : builtin? name = some kind) : kind ≠ .file := by
  rintro rfl
  unfold builtin? builtins at h
  simp only [List.find?_cons, List.find?_nil] at h
  split at h
  · cases h
  · split at h <;> cases h

end Store

namespace Resolver

open Asking Store

variable {answer : List Path → Path → View → View} {v : View} {dir : Path}

theorem tells_askForIndex (hidle : Helper.Idle answer) (dir : Path) :
    Tells answer v (askForIndex dir) (v.store.held dir >>= Peeked.told dir) := by
  refine (tells_ask hidle dir).bind fun _ _ => (tells_peek dir).bind fun h _ => ?_
  cases h with
  | index index => exact tells_pure _
  | absent => exact tells_pure _
  | foreign => exact tells_fail _

/-- Asking for an index again does not change what is told of it. -/
theorem tells_ensureIndex (hidle : Helper.Idle answer) (dir : Path) :
    Tells answer v (ensureIndex dir) (v.store.held dir >>= Peeked.told dir) := by
  rw [← bind_again]
  refine (tells_peek dir).bind fun h hheld => ?_
  cases h with
  | index index =>
      rw [hheld]
      exact tells_pure _
  | absent => exact tells_askForIndex hidle dir
  | foreign => exact tells_askForIndex hidle dir

theorem tells_volatileChild (hidle : Helper.Idle answer) (path : Path) :
    Tells answer v (volatileChild path) (v.store.stat path >>= standing path) := by
  refine (tells_ask hidle path).bind fun _ _ => (tells_stat path).bind fun found _ => ?_
  rcases found with _ | ⟨kind, _, _, _⟩
  · exact tells_fail _
  · cases kind with
    | file => exact tells_pure _
    | directory => exact tells_pure _
    | other => exact tells_fail _

theorem tells_resolveChild (hidle : Helper.Idle answer) (dir : Path) (name : String) :
    Tells answer v (resolveChild dir name) (v.store.child dir name) := by
  unfold resolveChild child
  by_cases hname : name = ".." ∨ IsReserved name
  · simp only [hname, if_true]
    exact tells_fail _
  · simp only [hname, if_false]
    refine (tells_ensureIndex hidle dir).bind fun index _ => ?_
    rcases index with _ | _ | entries
    · exact tells_fail _
    · exact tells_volatileChild hidle _
    · simp only [childBy]
      cases (Index.listing entries).find? name with
      | none => exact tells_fail _
      | some e => exact tells_pure _

/-- Below the root, and on a name that is not built in, a step of the walk is a step of `enter`. -/
theorem tells_walk (hidle : Helper.Idle answer) {names : List String} {x : Resolved}
    (hnames : ∀ n ∈ names, IsSegment n)
    (hplain : ∀ n ∈ names.head?, IsFree x.path n) :
    Tells answer v (walk x names) (names.foldlM v.store.enter x) := by
  induction names generalizing x with
  | nil => exact tells_pure x
  | cons n rest ih =>
      have hn : IsSegment n := hnames n List.mem_cons_self
      unfold walk
      rw [List.foldlM_cons]
      cases hdir : x.kind.isDirectory with
      | true =>
          rw [enter_of_plain hdir (hplain n rfl)]
          simp only [if_true]
          refine (tells_resolveChild hidle x.path n).bind fun y hy => ih ?_ ?_
          · exact fun m hm => hnames m (List.mem_cons_of_mem _ hm)
          · intro m _ hroot
            rw [path_of_child hy, Path.isRoot_extend x.path hn] at hroot
            cases hroot
      | false =>
          rw [enter_of_not_isDirectory hdir]
          simp only [Bool.false_eq_true, if_false]
          exact tells_fail _

theorem tells_walkFromRoot (hidle : Helper.Idle answer) (p : Path) :
    Tells answer v (walkFromRoot p) (v.store.reached p) := by
  unfold walkFromRoot reached
  have hsegments := p.allSegments
  generalize p.names = names at hsegments ⊢
  cases names with
  | nil => exact tells_pure _
  | cons n rest =>
      dsimp only
      cases hbuiltin : builtin? n with
      | none => exact tells_walk hidle hsegments fun m hm _ => by cases hm; exact hbuiltin
      | some kind =>
          rw [List.foldlM_cons, enter_of_builtin rfl rfl hbuiltin]
          cases rest with
          | nil => exact tells_pure _
          | cons m rest =>
              have hstop : v.store.enter { path := Path.root.extend n, kind } m =
                  .error (.notADirectory (Path.root.extend n).text) :=
                enter_of_not_isDirectory (not_isDirectory_of_builtin hbuiltin)
              change Tells answer v _
                (v.store.enter { path := Path.root.extend n, kind } m >>= fun y =>
                  rest.foldlM v.store.enter y)
              rw [hstop]
              exact tells_fail _

theorem directoryKind_eq (dir : Path) (v : View) :
    directoryKind dir v = ((peek dir v).1, v.store.held dir >>= fun h => .ok h.kind) := by
  unfold directoryKind
  rw [← peek_snd]
  obtain ⟨w, r⟩ := peek dir v
  rcases r with fault | _ | index | _
  · rfl
  · rfl
  · cases index <;> rfl
  · rfl

theorem tells_resolve (hidle : Helper.Idle answer) (p : Path) :
    Tells answer v (resolve p) (v.store.resolved p) := by
  refine (tells_walkFromRoot hidle p).bind fun x _ => ?_
  unfold classified
  by_cases hdir : x.kind.isDirectory = true
  · simp only [hdir, if_true]
    have hkind : Tells answer v (attempt (directoryKind x.path))
        (v.store.held x.path >>= fun h => .ok h.kind) :=
      tells_attempt fun w hw => by
        rw [directoryKind_eq, hw.store.held]
        exact ⟨calm_peek x.path w, rfl⟩
    have hbind := hkind.bind fun kind _ => tells_pure { x with kind }
    cases hheld : v.store.held x.path with
    | error fault => rw [hheld] at hbind; exact hbind
    | ok h => rw [hheld] at hbind; exact hbind
  · simp only [hdir]
    exact tells_pure x

/-- Only a place that cannot be looked at keeps a node from having attributes. -/
theorem stat_of_attributes {v : View} {x : Resolved} {fault : Fault}
    (h : attributes x v = .error fault) :
    (x.kind = .file ∨ x.kind.isDirectory = true) ∧ v.store.stat x.path = .error fault := by
  obtain ⟨path, kind, hint, volatile⟩ := x
  unfold attributes at h
  cases kind with
  | control | symlink => cases h
  | file =>
      dsimp only at h ⊢
      rcases hstat : v.store.stat path with fault' | _ | ⟨kind, _, _, _⟩ <;> rw [hstat] at h
      · cases h
        exact ⟨.inl rfl, rfl⟩
      · cases h
      · cases kind <;> cases h
  | staticDirectory | dynamicDirectory =>
      dsimp only at h ⊢
      rcases hstat : v.store.stat path with fault' | _ | ⟨kind, _, _, _⟩ <;> rw [hstat] at h
      · cases h
        exact ⟨.inr rfl, rfl⟩
      · cases h
      · cases kind <;> cases h

theorem attributes_of_calm {v w : View} (h : v.Calm w) (x : Resolved) :
    attributes x w = attributes x v := by
  unfold attributes rootTextLength Store.rootText
  rw [h.store.root, h.started, h.store.stat]

end Resolver

/-- What a path turns out to be, and its attributes. -/
def View.described (v : View) (p : Path) : Except Fault (Resolved × Attr) :=
  v.store.resolved p >>= fun x => Resolver.attributes x v >>= fun attr => .ok (x, attr)

namespace Resolver

open Asking Store

variable {answer : List Path → Path → View → View}

/-- How a look-up ends. -/
theorem lookup_ends (hidle : Helper.Idle answer) {v w : View} (hw : v.Calm w) (p : Path)
    (asked : List Path) :
    v.Calm ((lookup p).run (.closing answer) asked w).state ∧
    match v.described p with
    | .error fault => ((lookup p).run (.closing answer) asked w).result = .error fault
    | .ok (x, attr) => ∃ id,
        ((lookup p).run (.closing answer) asked w).result =
          .ok ⟨id, x.path, x.kind, attr, x.volatile⟩ ∧
        ((lookup p).run (.closing answer) asked w).state.identities.idOf? x.path = some id := by
  have hresolve := tells_resolve hidle p asked w hw
  unfold lookup View.described
  rw [run_bind]
  revert hresolve
  rcases (resolve p).run (.closing answer) asked w with ⟨asked', w', result⟩
  intro hresolve
  obtain ⟨hw', rfl⟩ := hresolve
  cases v.store.resolved p with
  | error fault => exact ⟨hw', rfl⟩
  | ok x =>
      simp only [run_bind, run_get, run_lift, run_act, run_pure, attributes_of_calm hw']
      change v.Calm _ ∧ match (attributes x v >>= fun attr => .ok (x, attr)) with
        | .error fault => _
        | .ok (x, attr) => _
      cases attributes x v with
      | error fault => exact ⟨hw', rfl⟩
      | ok attr =>
          exact ⟨hw'.trans (calm_identify x.path w'), _, rfl,
            Identities.idOf?_assign w'.identities x.path⟩

section LookUp
variable {v w : View} {p : Path}

theorem calm_lookup (hidle : Helper.Idle answer) (hw : v.Calm w) (p : Path) (asked : List Path) :
    v.Calm ((lookup p).run (.closing answer) asked w).state :=
  (lookup_ends hidle hw p asked).1

theorem lookup_of_error (hidle : Helper.Idle answer) (hw : v.Calm w) {fault : Fault}
    (h : v.described p = .error fault) (asked : List Path) :
    ((lookup p).run (.closing answer) asked w).result = .error fault := by
  have hends := (lookup_ends hidle hw p asked).2
  rw [h] at hends
  exact hends

theorem lookup_of_ok (hidle : Helper.Idle answer) (hw : v.Calm w) {x : Resolved} {attr : Attr}
    (h : v.described p = .ok (x, attr)) (asked : List Path) : ∃ id,
    ((lookup p).run (.closing answer) asked w).result = .ok ⟨id, x.path, x.kind, attr, x.volatile⟩ ∧
    ((lookup p).run (.closing answer) asked w).state.identities.idOf? x.path = some id := by
  have hends := (lookup_ends hidle hw p asked).2
  rw [h] at hends
  exact hends

end LookUp

end Resolver
end OnDemandFs
