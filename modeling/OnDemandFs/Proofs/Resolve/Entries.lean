import OnDemandFs.Proofs.Resolve.Reached

/-!
# The entries of a directory

To list a directory is to take the built-in entries if it is the root, its index, the names of its
children, and then the kind and the number of each. `View.listed` is what comes of it as a function
of the cache, without the numbers. `readDirectory_ends` says that while nothing is published the
operation ends with just that, each entry having the number of its path.
-/
namespace OnDemandFs
namespace Store

/-- The kind under which a child is listed; a directory that cannot be looked into is static. -/
def kindOf (s : Store) (child : Path) : EntryKind → NodeKind
  | .file => .file
  | .directory =>
    match s.held child with
    | .ok held => held.kind
    | .error _ => .staticDirectory

/-- The built-in entries of a directory. -/
def builtinsAt (dir : Path) : List (String × NodeKind) := if dir.isRoot then builtins else []

variable {s t : Store}

theorem Alike.listPhysical (h : s.Alike t) (dir : Path) :
    t.listPhysical dir = s.listPhysical dir := by
  simp only [Store.listPhysical, physical, h.disk, h.root]

theorem Alike.kindOf (h : s.Alike t) (child : Path) (kind : EntryKind) :
    t.kindOf child kind = s.kindOf child kind := by
  unfold Store.kindOf
  rw [h.held]

end Store

/-- The names that a directory lists and the kinds that it gives to them. -/
def View.listed (v : View) (dir : Path) : Except Fault (List (String × NodeKind)) := do
  let index ← v.store.held dir >>= Peeked.told dir
  let names ← Resolver.children dir index v
  .ok (Store.builtinsAt dir ++ (names.filter fun c => ¬ (dir.isRoot ∧ (builtin? c.1).isSome)).map
    fun c => (c.1, v.store.kindOf (dir.extend c.1) c.2))

/-- Names and kinds are as listed, and each entry has the number of its path. -/
structure Numbered (w : View) (dir : Path) (listed : List (String × NodeKind))
    (entries : List Listed) : Prop where
  names : entries.map (fun e => (e.name, e.kind)) = listed
  ids : ∀ e ∈ entries, w.identities.idOf? (dir.extend e.name) = some e.id

namespace Numbered
variable {u w : View} {dir : Path} {listed listed' : List (String × NodeKind)}
  {entries entries' : List Listed}

theorem nil (w : View) (dir : Path) : Numbered w dir [] [] := ⟨rfl, nofun⟩

theorem calm (h : Numbered w dir listed entries) (hcalm : w.Calm u) :
    Numbered u dir listed entries :=
  ⟨h.names, fun e he => Identities.idOf?_of_shown_prefix hcalm.shown (h.ids e he)⟩

theorem append (h : Numbered w dir listed entries) (h' : Numbered w dir listed' entries') :
    Numbered w dir (listed ++ listed') (entries ++ entries') := by
  constructor
  · rw [List.map_append, h.names, h'.names]
  · intro e he
    rcases List.mem_append.mp he with he | he
    · exact h.ids e he
    · exact h'.ids e he

/-- A child that was given its number just now. -/
theorem identify (w : View) (dir : Path) (c : String × NodeKind) :
    Numbered (Resolver.identify (dir.extend c.1) w).1 dir [c]
      [⟨(Resolver.identify (dir.extend c.1) w).2, c.1, c.2⟩] := by
  refine ⟨rfl, fun e he => ?_⟩
  rw [List.mem_singleton.mp he]
  exact Identities.idOf?_assign w.identities (dir.extend c.1)

end Numbered

namespace Resolver

open Asking Store

variable {helper : Helper View} {answer : List Path → Path → View → View} {asked : List Path}
  {v w : View} {dir p : Path}

theorem children_of_calm (h : v.Calm w) (dir : Path) (index : Option Index) :
    children dir index w = children dir index v := by
  unfold children
  rw [h.store.listPhysical]

/-- The index and then the names of a directory. -/
def namesOf (dir : Path) : Resolver (List (String × EntryKind)) :=
  indexForListing dir >>= fun index => get >>= fun v => lift (children dir index v)

theorem tells_indexForListing (hidle : Helper.Idle answer) (dir : Path) :
    Tells answer v (indexForListing dir) (v.store.held dir >>= Peeked.told dir) := by
  rw [← bind_again]
  refine (tells_peek dir).bind fun h hheld => ?_
  rcases h with _ | (_ | entries) | _
  · exact tells_askForIndex hidle dir
  · exact tells_askForIndex hidle dir
  · rw [hheld]
    exact tells_pure _
  · exact tells_askForIndex hidle dir

theorem tells_namesOf (hidle : Helper.Idle answer) (dir : Path) :
    Tells answer v (namesOf dir) (v.store.held dir >>= Peeked.told dir >>= fun index =>
      children dir index v) := by
  refine (tells_indexForListing hidle dir).bind fun index _ asked w hw => ?_
  rw [run_bind, run_get]
  dsimp only
  rw [run_lift]
  exact ⟨hw, children_of_calm hw dir index⟩

theorem childKind_eq (child : Path) (kind : EntryKind) (w : View) :
    w.Calm (childKind child kind w).1 ∧ (childKind child kind w).2 = w.store.kindOf child kind := by
  unfold childKind Store.kindOf
  cases kind with
  | file => exact ⟨.refl w, rfl⟩
  | directory =>
      have hcalm := calm_peek child w
      dsimp only
      rw [directoryKind_eq]
      cases w.store.held child with
      | error fault => exact ⟨hcalm, rfl⟩
      | ok held => exact ⟨hcalm, rfl⟩

/-- An operation that lists one child, whose number it gives out. -/
def ListsOne (helper : Helper View) (v : View) (dir : Path) (c : String × NodeKind)
    (m : Resolver Listed) : Prop :=
  ∀ asked w, v.Calm w → ∃ u e, m.run helper asked w = ⟨asked, u, .ok e⟩ ∧ w.Calm u ∧
    Numbered u dir [c] [e]

theorem listsOne_listChild (helper : Helper View) (v : View) (dir : Path) (c : String × EntryKind) :
    ListsOne helper v dir (c.1, v.store.kindOf (dir.extend c.1) c.2) (listChild dir c) := by
  intro asked w hw
  obtain ⟨hcalm, hkind⟩ := childKind_eq (dir.extend c.1) c.2 w
  refine ⟨_, _, rfl, hcalm.trans (calm_identify _ _), ?_⟩
  rw [← hw.store.kindOf, ← hkind]
  exact .identify _ dir (c.1, _)

theorem listsOne_builtin (helper : Helper View) (v : View) (c : String × NodeKind) :
    ListsOne helper v .root c (act (identify (Path.root.extend c.1)) >>= fun id =>
      pure ⟨id, c.1, c.2⟩) := by
  intro asked w hw
  exact ⟨_, _, rfl, calm_identify _ w, .identify w .root c⟩

/-- Children are listed one after the other. -/
theorem run_mapM_listsOne {α : Type} {f : α → Resolver Listed} {c : α → String × NodeKind}
    (hf : ∀ a, ListsOne helper v dir (c a) (f a)) (l : List α) (asked : List Path) (w : View)
    (hw : v.Calm w) : ∃ u entries, (l.mapM f).run helper asked w = ⟨asked, u, .ok entries⟩ ∧
      w.Calm u ∧ Numbered u dir (l.map c) entries := by
  induction l generalizing w with
  | nil => exact ⟨w, [], rfl, .refl w, .nil w dir⟩
  | cons a rest ih =>
      obtain ⟨u, e, hrun, hcalm, hfirst⟩ := hf a asked w hw
      obtain ⟨u', entries, hrun', hcalm', hrest⟩ := ih u (hw.trans hcalm)
      refine ⟨u', e :: entries, ?_, hcalm.trans hcalm', ?_⟩
      · rw [List.mapM_cons, run_bind, hrun]
        dsimp only
        rw [run_bind, hrun']
        rfl
      · exact (hfirst.calm hcalm').append hrest

theorem run_builtinsAt (helper : Helper View) (v : View) (dir : Path) (asked : List Path) (w : View)
    (hw : v.Calm w) : ∃ u first,
      (if dir.isRoot then listBuiltins else pure []).run helper asked w = ⟨asked, u, .ok first⟩ ∧
      w.Calm u ∧ Numbered u dir (builtinsAt dir) first := by
  unfold builtinsAt
  cases hroot : dir.isRoot with
  | false => exact ⟨w, [], rfl, .refl w, .nil w dir⟩
  | true =>
      have hdir : dir = .root := Path.ext_names (List.isEmpty_iff.mp hroot)
      rw [hdir]
      have hrun := run_mapM_listsOne (listsOne_builtin helper v) builtins asked w hw
      rw [List.map_id'] at hrun
      exact hrun

/-- The entries of a directory, behind those that come first. -/
def entriesAfter (x : Resolved) (first : List Listed) : Resolver (List Listed) := do
  let index ← indexForListing x.path
  let v ← get
  let names ← lift (children x.path index v)
  let names := names.filter fun c => ¬ (x.path.isRoot ∧ (builtin? c.1).isSome)
  let rest ← names.mapM (listChild x.path)
  pure (first ++ rest)

/-- The entries of a directory that was found. -/
def entriesOf (x : Resolved) : Resolver (List Listed) :=
  (if x.path.isRoot then listBuiltins else pure []) >>= entriesAfter x

theorem readDirectory_eq (p : Path) : readDirectory p = resolve p >>= fun x =>
    if x.kind.isDirectory then entriesOf x else fail (.notADirectory x.path.text) := by
  unfold readDirectory entriesOf entriesAfter
  congr 1
  funext x
  split
  · cases x.path.isRoot <;> rfl
  · rfl

theorem entriesAfter_eq (x : Resolved) (first : List Listed) :
    entriesAfter x first = namesOf x.path >>= fun names =>
      (names.filter fun c => ¬ (x.path.isRoot ∧ (builtin? c.1).isSome)).mapM (listChild x.path) >>=
        fun rest => pure (first ++ rest) := by
  unfold entriesAfter namesOf
  rw [bind_assoc]
  rfl

theorem listed_of_calm (h : v.Calm w) (dir : Path) : w.listed dir = v.listed dir := by
  have hkind : (fun c : String × EntryKind => (c.1, w.store.kindOf (dir.extend c.1) c.2)) =
      fun c => (c.1, v.store.kindOf (dir.extend c.1) c.2) := by
    funext c
    rw [h.store.kindOf]
  unfold View.listed
  simp only [h.store.held, children_of_calm h, hkind]

/-- How listing a directory that was found ends. -/
theorem entriesOf_ends (hidle : Helper.Idle answer) (w : View) (x : Resolved) (asked : List Path) :
    w.Calm ((entriesOf x).run (.closing answer) asked w).state ∧
    ∀ entries, ((entriesOf x).run (.closing answer) asked w).result = .ok entries →
      ∃ listed, w.listed x.path = .ok listed ∧
        Numbered ((entriesOf x).run (.closing answer) asked w).state x.path listed entries := by
  obtain ⟨w₁, first, hfirst, hcalm₁, hbuiltins⟩ :=
    run_builtinsAt (.closing answer) w x.path asked w (.refl w)
  have hnames := tells_namesOf hidle x.path asked w₁ (.refl w₁)
  unfold entriesOf
  rw [run_bind, hfirst]
  dsimp only
  rw [entriesAfter_eq, run_bind]
  revert hnames
  rcases (namesOf x.path).run (.closing answer) asked w₁ with ⟨asked₂, w₂, result⟩
  rintro ⟨hcalm₂, hresult⟩
  cases result with
  | error fault => exact ⟨hcalm₁.trans hcalm₂, nofun⟩
  | ok names =>
      obtain ⟨w₃, rest, hrest, hcalm₃, hchildren⟩ := run_mapM_listsOne
        (listsOne_listChild (.closing answer) w₁ x.path)
        (names.filter fun c => ¬ (x.path.isRoot ∧ (builtin? c.1).isSome)) asked₂ w₂ hcalm₂
      have hcalm : w₁.Calm w₃ := hcalm₂.trans hcalm₃
      obtain ⟨index, htold, hindex⟩ := bind_eq_ok_iff.mp hresult.symm
      dsimp only
      rw [run_bind, hrest]
      refine ⟨hcalm₁.trans hcalm, ?_⟩
      rintro entries ⟨⟩
      refine ⟨_, ?_, (hbuiltins.calm hcalm).append hchildren⟩
      rw [← listed_of_calm hcalm₁, View.listed, htold]
      change (children x.path index w₁ >>= _) = _
      rw [hindex]
      rfl

/-- How listing a directory ends: what the walk to it found is a directory, and the entries are
those that the cache has for it, each with its number. -/
theorem readDirectory_ends (hidle : Helper.Idle answer) {v : View} {entries : List Listed}
    (h : ((readDirectory p).run (.closing answer) [] v).result = .ok entries) :
    v.Calm ((readDirectory p).run (.closing answer) [] v).state ∧
    (∃ y, v.store.reached p = .ok y ∧ y.kind.isDirectory = true) ∧
    ∃ listed, v.listed p = .ok listed ∧
      Numbered ((readDirectory p).run (.closing answer) [] v).state p listed entries := by
  obtain ⟨hcalm, hfound⟩ := tells_resolve hidle p [] v (.refl v)
  rw [readDirectory_eq] at h ⊢
  cases hresolved : v.store.resolved p with
  | error fault =>
      rw [hresolved] at hfound
      rw [run_bind_of_error hfound] at h
      cases h
  | ok x =>
      have hpath : x.path = p := path_of_resolved hresolved
      rw [hresolved] at hfound
      rw [run_bind_of_ok hfound] at h ⊢
      cases hdir : x.kind.isDirectory with
      | false =>
          rw [hdir] at h
          cases h
      | true =>
          rw [hdir] at h
          simp only [if_true] at h ⊢
          obtain ⟨y, hreached, hclassified⟩ := bind_eq_ok_iff.mp hresolved
          obtain ⟨hcalm', hentries⟩ := entriesOf_ends hidle _ x _
          obtain ⟨listed, hlisted, hnumbered⟩ := hentries entries h
          rw [hpath] at hlisted hnumbered
          rw [listed_of_calm hcalm] at hlisted
          refine ⟨hcalm.trans hcalm', ⟨y, hreached, ?_⟩, listed, hlisted, hnumbered⟩
          rw [← (classified_eq_ok hclassified).isDirectory, hdir]

end Resolver
end OnDemandFs
