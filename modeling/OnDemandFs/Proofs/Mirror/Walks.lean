import OnDemandFs.Proofs.Helper.Mirrors
import OnDemandFs.Proofs.Resolve.Presented
import OnDemandFs.Proofs.Resolve.Terms

/-!
# Walks over a mirror

What a mirror shows is what the origin has under names that an index can carry, besides the built-in
entries and what these hide. An operation that works on a mirror asks only for paths whose directory
has its index, and counts on finding what it asked for: these are its terms, `Origin.terms`. On them
a walk ends at what the origin has, and fails only where the origin shows nothing or the disk cannot
carry the path.
-/
namespace OnDemandFs

/-- An index can carry every name of the path. -/
def Path.IsListable (p : Path) : Prop := ∀ n ∈ p.names, IsEntryName n

namespace Path
variable {p : Path} {n : String}

theorem isListable_root : root.IsListable := nofun

theorem isListable_extend_iff (hn : IsSegment n) :
    (p.extend n).IsListable ↔ p.IsListable ∧ IsEntryName n := by
  unfold IsListable
  rw [p.names_extend_of_isSegment hn]
  simp [or_imp, forall_and]

theorem IsListable.isConfined (h : p.IsListable) : p.IsConfined := by
  intro n hn
  obtain ⟨hempty, hdot, hup, hreserved, hslash, -⟩ := h n hn
  exact ⟨hempty, hslash, hdot, hup, hreserved⟩

/-- A path with two names or more is not built in. -/
theorem not_isBuiltin_extend (hn : IsSegment n) (hp : p ≠ root) : ¬ (p.extend n).IsBuiltin := by
  intro hbuiltin
  obtain ⟨m, kind, hnames, -⟩ := hbuiltin
  rw [p.names_extend_of_isSegment hn] at hnames
  have hlength := congrArg List.length hnames
  rw [List.length_append, List.length_singleton] at hlength
  exact hp (ext_names (List.length_eq_zero_iff.mp (by simpa using hlength)))

theorem not_isBuiltin_of_isFree (hn : IsSegment n) (hfree : Store.IsFree p n) :
    ¬ (p.extend n).IsBuiltin := by
  by_cases hroot : p = root
  · subst hroot
    intro hbuiltin
    obtain ⟨m, kind, hnames, hkind⟩ := hbuiltin
    rw [root.names_extend_of_isSegment hn] at hnames
    cases hnames
    rw [hfree rfl] at hkind
    cases hkind
  · exact not_isBuiltin_extend hn hroot

end Path

namespace Origin

/-- What a mirror of the origin shows at a path that is not built in. -/
structure Exposes (o : Origin) (d : Disk) (p : Path) (x : Item) : Prop where
  listable : p.IsListable
  free : ∀ n ∈ p.names.head?, builtin? n = none
  item : o.itemAt? d p = some x

/-- A mirror shows nothing at the path, or the disk cannot carry the path. -/
structure Lacks (o : Origin) (s₀ : Store) (p : Path) : Prop where
  plain : ¬ p.IsBuiltin
  missing : ∀ x, o.Exposes s₀.disk p x → ¬ Within o s₀ p x

variable {o : Origin} {s₀ s : Store} {p q : Path} {n : String} {x : Item} {d : Disk}

theorem exposes_root (h : s.disk.IsTree o.place) :
    o.Exposes s.disk .root (.directory o.place) :=
  ⟨Path.isListable_root, nofun, itemAt?_root h⟩

theorem Exposes.not_isBuiltin (h : o.Exposes d p x) : ¬ p.IsBuiltin := by
  intro hbuiltin
  obtain ⟨n, kind, hnames, hkind⟩ := hbuiltin
  rw [h.free n (by rw [hnames]; rfl)] at hkind
  cases hkind

/-- Above what is shown a directory is shown. -/
theorem Exposes.above (h : o.Exposes d (q.extend n) x) (hn : IsSegment n)
    (htree : d.IsTree o.place) :
    o.Exposes d q (.directory (o.source q)) := by
  have hstands := stands_of_itemAt? h.item
  rw [o.source_extend q hn] at hstands
  refine ⟨((Path.isListable_extend_iff hn).mp h.listable).1, fun m hm => h.free m ?_,
    itemAt?_of_stands (htree.parent _ _ (o.place_prefix_source q) hstands)⟩
  rw [q.names_extend_of_isSegment hn]
  exact List.mem_head?_append_of_mem_head? hm

theorem Exposes.free_extend (h : o.Exposes d q x) (hn : IsSegment n) (hfree : Store.IsFree q n) :
    ∀ m ∈ (q.extend n).names.head?, builtin? m = none := by
  intro m hm
  rw [q.names_extend_of_isSegment hn] at hm
  cases hnames : q.names with
  | nil =>
      rw [hnames] at hm
      cases hm
      exact hfree (by rw [Path.isRoot, hnames]; rfl)
  | cons m' rest =>
      rw [hnames] at hm
      exact h.free m (by rw [hnames]; exact hm)

theorem Indexable.above (h : Indexable o s₀ (q.extend n)) (hn : IsSegment n) :
    Indexable o s₀ q := by
  have hsource := h.source
  have hroom := h.room
  rw [o.source_extend q hn] at hsource
  rw [s₀.physical_extend q hn] at hroom
  exact ⟨hsource.of_append, hroom.of_prefix (List.prefix_append _ _)⟩

/-- Of a directory whose index can be made the disk can carry that index. -/
theorem Indexable.within (h : Indexable o s₀ p) (place : Location) :
    Within o s₀ p (.directory place) := by
  refine ⟨?_, Store.fits_indexPlace h.room⟩
  rcases p.eq_root_or_extend with rfl | ⟨q, n, hn, rfl⟩
  · exact h
  · rw [q.parent_extend hn]
    exact h.above hn

theorem Within.indexable (h : Within o s₀ (q.extend n) x) (hn : IsSegment n) :
    Indexable o s₀ q := by
  have habove := h.above
  rwa [q.parent_extend hn] at habove

theorem Lacks.extend (h : o.Lacks s₀ q) (hq : q ≠ .root) (hn : IsSegment n)
    (htree : s₀.disk.IsTree o.place) : o.Lacks s₀ (q.extend n) :=
  ⟨Path.not_isBuiltin_extend hn hq, fun _ hx hwithin =>
    h.missing _ (hx.above hn htree) ((hwithin.indexable hn).within _)⟩

/-- A node that the walk may come to. -/
inductive Found (o : Origin) (s₀ s : Store) : Resolved → Prop
  | top : Found o s₀ s Store.top
  | builtin {n : String} {kind : NodeKind} (hn : IsSegment n) (h : builtin? n = some kind) :
      Found o s₀ s { path := Path.root.extend n, kind }
  | child {q : Path} {n : String} {x : Item} {e : Entry} (hn : IsSegment n)
      (hexposed : o.Exposes s₀.disk (q.extend n) x) (hindex : s.HasIndex q)
      (hdeclares : x.Declares e) :
      Found o s₀ s { path := q.extend n, kind := .ofEntry e.kind, hint := some e }

/-- A directory that is shown and whose index can be asked for. -/
structure Entered (o : Origin) (s₀ s : Store) (p : Path) : Prop where
  exposed : o.Exposes s₀.disk p (.directory (o.source p))
  reachable : s.IsReachable p

theorem Found.mono {t : Store} {x : Resolved} (h : Found o s₀ s x) (hgrown : s.Grown t) :
    Found o s₀ t x := by
  cases h with
  | top => exact .top
  | builtin hn h => exact .builtin hn h
  | child hn hexposed hindex hdeclares =>
      exact .child hn hexposed (hgrown.hasIndex hindex) hdeclares

/-- Where the walk may go on it is in a directory. -/
theorem Found.entered {x : Resolved} (h : Found o s₀ s x) (htree : s₀.disk.IsTree o.place)
    (hdir : x.kind.isDirectory = true) : Entered o s₀ s x.path := by
  cases h with
  | top =>
      have hexposed := exposes_root htree
      rw [directory_of_itemAt? hexposed.item] at hexposed
      exact ⟨hexposed, .inl rfl⟩
  | builtin hn h =>
      rw [Store.not_isDirectory_of_builtin h] at hdir
      cases hdir
  | @child q n x e hn hexposed hindex hdeclares =>
      refine ⟨?_, .inr ?_⟩
      · cases x with
        | directory place => rwa [directory_of_itemAt? hexposed.item] at hexposed
        | file b =>
            rw [hdeclares.kind] at hdir
            cases hdir
      · rwa [q.parent_extend hn]

/-- Behind what is no directory nothing is shown. -/
theorem Found.lacks {x : Resolved} (h : Found o s₀ s x) (htree : s₀.disk.IsTree o.place)
    (hdir : x.kind.isDirectory = false) (hn : IsSegment n) : o.Lacks s₀ (x.path.extend n) := by
  cases h with
  | top => cases hdir
  | @builtin m kind hm h =>
      refine ⟨Path.not_isBuiltin_extend hn ?_, fun y hy => ?_⟩
      · intro hroot
        have hempty := congrArg Path.isRoot hroot
        rw [Path.root.isRoot_extend hm] at hempty
        cases hempty
      · have hfree := (hy.above hn htree).free m (by
          rw [Path.root.names_extend_of_isSegment hm]
          rfl)
        rw [hfree] at h
        cases h
  | @child q m x e hm hexposed hindex hdeclares =>
      refine ⟨Path.not_isBuiltin_extend hn ?_, fun y hy => ?_⟩
      · intro hroot
        have hempty := congrArg Path.isRoot hroot
        rw [q.isRoot_extend hm] at hempty
        cases hempty
      · have hitem := (hy.above hn htree).item
        rw [hexposed.item] at hitem
        cases hitem
        rw [hdeclares.kind] at hdir
        cases hdir

/-- The terms on which a mirror is asked. -/
def terms (o : Origin) (s₀ : Store) : Terms View where
  owed v p := Mirrors o s₀ v.store ∧ p.IsListable ∧ v.store.IsReachable p
  granted _ p w := Mirrors o s₀ w.store ∧ Served o s₀ w.store p
  refused _ _ _ _ := False

end Origin

namespace Resolver

open Asking Origin

variable {o : Origin} {s₀ : Store} {v : View} {p q : Path} {n : String}

theorem meets_peek (hm : o.IsMirrorable s₀) {t : Terms View} (h : Mirrors o s₀ v.store)
    (hexposed : o.Exposes s₀.disk p (.directory (o.source p))) :
    (attempt (peek p) v).Meets t fun w r =>
      Mirrors o s₀ w.store ∧ v.store.Grown w.store ∧ r = v.store.held p := by
  change _ ∧ _ ∧ (peek p v).2 = _
  rcases (peek_eq p v).1 with heq | heq
  · rw [heq]
    exact ⟨h, .of_disk rfl rfl, peek_snd p v⟩
  · rw [heq]
    have hread := h.readIndex hm hexposed.listable.isConfined (hm.isCarried hexposed.item)
    exact ⟨hread.1, hread.2, peek_snd p v⟩

/-- How asking for a directory ends. -/
structure IndexEnds (o : Origin) (s₀ : Store) (p : Path) (v : View)
    (r : Except Fault (Option Index)) : Prop where
  mirrors : Mirrors o s₀ v.store
  index : ∀ index, r = .ok (some index) → index = o.staticIndex s₀.disk p ∧ v.store.HasIndex p
  missing : (∀ index, r ≠ .ok (some index)) → ¬ Indexable o s₀ p

theorem IndexEnds.of_index (h : Mirrors o s₀ v.store) (hindex : v.store.HasIndex p) :
    IndexEnds o s₀ p v (.ok (some (o.staticIndex s₀.disk p))) := by
  refine ⟨h, fun index hr => ?_, fun hr => absurd rfl (hr _)⟩
  cases hr
  exact ⟨rfl, hindex⟩

/-- Looking into a directory that is shown fails only if the disk cannot carry its path. -/
theorem IndexEnds.of_error {s : Store} {fault : Fault} (hm : o.IsMirrorable s₀)
    (h : Mirrors o s₀ s) (hkept : Mirrors o s₀ v.store)
    (hexposed : o.Exposes s₀.disk p (.directory (o.source p)))
    (hheld : s.held p = .error fault) : IndexEnds o s₀ p v (.error fault) := by
  refine ⟨hkept, nofun, fun _ hindexable => ?_⟩
  obtain ⟨held, hok⟩ := h.exists_held hm hexposed.listable.isConfined hexposed.item
    (hindexable.within _)
  rw [hok] at hheld
  cases hheld

theorem meets_askForIndex (hm : o.IsMirrorable s₀) (h : Mirrors o s₀ v.store)
    (hp : Entered o s₀ v.store p) :
    (askForIndex p v).Meets (o.terms s₀) (IndexEnds o s₀ p) := by
  have hconfined := hp.exposed.listable.isConfined
  have hask : (ask p v).Meets (o.terms s₀) fun w r =>
      r = .ok () ∧ Mirrors o s₀ w.store ∧ Origin.Served o s₀ w.store p :=
    meets_ask ⟨h, hp.exposed.listable, hp.reachable⟩ (fun _ hw => ⟨rfl, hw⟩) nofun
  refine meets_bind hask (fun w _ hw => ?_) nofun
  obtain ⟨-, hmirrors, hserved⟩ := hw
  refine meets_bind (meets_peek hm hmirrors hp.exposed) (fun u held hu => ?_) fun u fault hu => ?_
  · obtain ⟨hkept, hgrown, hheld⟩ := hu
    rcases hmirrors.of_held hm hconfined hp.exposed.item hheld.symm with rfl | ⟨rfl, hindex⟩
    · refine ⟨hkept, nofun, fun _ hindexable => ?_⟩
      have hindex := hserved.index _ hp.exposed.item hindexable
      rw [hmirrors.held_of_hasIndex hm hconfined hindex] at hheld
      cases hheld
    · exact IndexEnds.of_index hkept (hgrown.hasIndex hindex)
  · exact IndexEnds.of_error hm hmirrors hu.1 hp.exposed hu.2.2.symm

theorem meets_ensureIndex (hm : o.IsMirrorable s₀) (h : Mirrors o s₀ v.store)
    (hp : Entered o s₀ v.store p) :
    (ensureIndex p v).Meets (o.terms s₀) (IndexEnds o s₀ p) := by
  have hconfined := hp.exposed.listable.isConfined
  refine meets_bind (meets_peek hm h hp.exposed) (fun w held hw => ?_) fun w fault hw => ?_
  · obtain ⟨hkept, hgrown, hheld⟩ := hw
    rcases h.of_held hm hconfined hp.exposed.item hheld.symm with rfl | ⟨rfl, hindex⟩
    · exact meets_askForIndex hm hkept ⟨hp.exposed, hgrown.isReachable hp.reachable⟩
    · exact IndexEnds.of_index hkept (hgrown.hasIndex hindex)
  · exact IndexEnds.of_error hm h hw.1 hp.exposed hw.2.2.symm

/-- The end of an operation over a mirror: it is kept, and what is found or why nothing is. -/
structure Ends {α : Type} (o : Origin) (s₀ : Store) (P : View → α → Prop) (E : Prop) (v : View)
    (r : Except Fault α) : Prop where
  mirrors : Mirrors o s₀ v.store
  ok : ∀ a, r = .ok a → P v a
  error : ∀ fault, r = .error fault → E

theorem Ends.of_ok {α : Type} {P : View → α → Prop} {E : Prop} {a : α} (h : Mirrors o s₀ v.store)
    (ha : P v a) : Ends o s₀ P E v (.ok a) := by
  refine ⟨h, fun b hb => ?_, nofun⟩
  cases hb
  exact ha

theorem Ends.of_error {α : Type} {P : View → α → Prop} {E : Prop} {fault : Fault}
    (h : Mirrors o s₀ v.store) (hE : E) : Ends o s₀ P E v (.error fault) :=
  ⟨h, nofun, fun _ _ => hE⟩

/-- How the walk to a path ends. -/
abbrev WalkEnds (o : Origin) (s₀ : Store) (p : Path) : View → Except Fault Resolved → Prop :=
  Ends o s₀ (fun v x => x.path = p ∧ Found o s₀ v.store x) (p ≠ .root ∧ o.Lacks s₀ p)

theorem WalkEnds.of_lacks {fault : Fault} (h : Mirrors o s₀ v.store) (hn : IsSegment n)
    (hlacks : o.Lacks s₀ (p.extend n)) : WalkEnds o s₀ (p.extend n) v (.error fault) := by
  refine .of_error h ⟨fun hroot => ?_, hlacks⟩
  have hempty := congrArg Path.isRoot hroot
  rw [p.isRoot_extend hn] at hempty
  cases hempty

/-- A child is shown just if the index of its directory declares it. -/
theorem meets_resolveChild (hm : o.IsMirrorable s₀) (h : Mirrors o s₀ v.store)
    (hp : Entered o s₀ v.store p) (hn : IsSegment n) (hfree : Store.IsFree p n) :
    (resolveChild p n v).Meets (o.terms s₀) (WalkEnds o s₀ (p.extend n)) := by
  have hplain := Path.not_isBuiltin_of_isFree hn hfree
  by_cases hname : n = ".." ∨ IsReserved n
  · rw [resolveChild_eq_fail hname]
    refine WalkEnds.of_lacks h hn ⟨hplain, fun x hx => ?_⟩
    have hentry := ((Path.isListable_extend_iff hn).mp hx.listable).2
    exact absurd hname (not_or.mpr ⟨hentry.2.2.1, hentry.2.2.2.1⟩)
  rw [resolveChild_eq hname]
  refine meets_bind (meets_ensureIndex hm h hp) (fun w index hw => ?_) fun w fault hw => ?_
  · cases index with
    | none =>
        refine WalkEnds.of_lacks hw.mirrors hn ⟨hplain, fun x hx hwithin => ?_⟩
        exact hw.missing nofun (hwithin.indexable hn)
    | some index =>
        obtain ⟨rfl, hindex⟩ := hw.index index rfl
        unfold childIn staticIndex
        dsimp only
        cases hfind : (Index.listing (listing s₀.disk (o.source p))).find? n with
        | none =>
            refine WalkEnds.of_lacks hw.mirrors hn ⟨hplain, fun x hx => ?_⟩
            have hentry := ((Path.isListable_extend_iff hn).mp hx.listable).2
            obtain ⟨e, he⟩ := find?_of_itemAt? hm.proper hentry hx.item
            rw [hfind] at he
            cases he
        | some e =>
            obtain ⟨hentry, x, hitem, hdeclares⟩ := declares_of_find? hm.proper hfind
            have hlistable := (Path.isListable_extend_iff hn).mpr ⟨hp.exposed.listable, hentry⟩
            have hexposed : o.Exposes s₀.disk (p.extend n) x :=
              ⟨hlistable, hp.exposed.free_extend hn hfree, hitem⟩
            exact .of_ok hw.mirrors ⟨rfl, .child hn hexposed hindex hdeclares⟩
  · refine WalkEnds.of_lacks hw.mirrors hn ⟨hplain, fun x hx hwithin => ?_⟩
    exact hw.missing nofun (hwithin.indexable hn)

theorem meets_into (hm : o.IsMirrorable s₀) {x : Resolved} (h : Mirrors o s₀ v.store)
    (hx : Found o s₀ v.store x) (hn : IsSegment n) :
    (into x.path.isRoot x n v).Meets (o.terms s₀) (WalkEnds o s₀ (x.path.extend n)) := by
  unfold into
  cases hdir : x.kind.isDirectory with
  | false =>
      simp only [Bool.false_eq_true, if_false]
      exact WalkEnds.of_lacks h hn (hx.lacks hm.tree hdir hn)
  | true =>
      have hp := hx.entered hm.tree hdir
      simp only [if_true]
      cases hbuiltin : (if x.path.isRoot then builtin? n else none) with
      | none =>
          refine meets_resolveChild hm h hp hn fun hroot => ?_
          rwa [if_pos hroot] at hbuiltin
      | some kind =>
          split at hbuiltin
          · next hroot =>
              have hpath : x.path = .root := Path.ext_names (List.isEmpty_iff.mp hroot)
              rw [hpath]
              exact .of_ok h ⟨rfl, .builtin hn hbuiltin⟩
          · cases hbuiltin

/-- The walk ends at what the origin has, or fails where the origin shows nothing or the disk cannot
carry the path. -/
theorem meets_walkFromRoot (hm : o.IsMirrorable s₀) (h : Mirrors o s₀ v.store) (p : Path) :
    (walkFromRoot p v).Meets (o.terms s₀) (WalkEnds o s₀ p) := by
  induction p using Path.extendInduction with
  | root => exact .of_ok h ⟨rfl, .top⟩
  | extend q n hn ih =>
      rw [walkFromRoot_extend q hn]
      refine meets_bind ih (fun w x hw => ?_) fun w fault hw => ?_
      · obtain ⟨rfl, hx⟩ := hw.ok x rfl
        exact meets_into hm hw.mirrors hx hn
      · obtain ⟨hq, hlacks⟩ := hw.error fault rfl
        exact WalkEnds.of_lacks hw.mirrors hn (hlacks.extend hq hn hm.tree)

end Resolver
end OnDemandFs
