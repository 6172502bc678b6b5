import OnDemandFs.Proofs.Resolve.Entries
import OnDemandFs.Proofs.Store.Physical

/-!
# What a directory lists

A listing takes the children of a directory from its index or from the disk, all at once; a walk
looks for one name. `View.listed` is the listing as a function of the cache. A name that it has is
not missed by the walk: at worst the walk cannot see what is there, otherwise it finds the kind that
is listed. A name that it lacks is not found.
-/
namespace OnDemandFs

/-- The fault says that there is nothing to be found. -/
def Fault.IsAbsence : Fault → Prop
  | .notFound _ | .notADirectory _ => True
  | _ => False

/-- What came out has the property; if nothing did, it is not for want of something there. -/
def NotMissed {α : Type} (P : α → Prop) : Except Fault α → Prop
  | .ok a => P a
  | .error fault => ¬ fault.IsAbsence

theorem NotMissed.bind {α β : Type} {P : α → Prop} {Q : β → Prop} {r : Except Fault α}
    {f : α → Except Fault β} (h : NotMissed P r) (hf : ∀ a, r = .ok a → P a → NotMissed Q (f a)) :
    NotMissed Q (r >>= f) := by
  cases r with
  | error fault => exact h
  | ok a => exact hf a rfl h

theorem NotMissed.mono {α : Type} {P Q : α → Prop} {r : Except Fault α} (h : NotMissed P r)
    (hPQ : ∀ a, P a → Q a) : NotMissed Q r := by
  cases r with
  | error fault => exact h
  | ok a => exact hPQ a h

theorem notMissed_of_error {α : Type} {r : Except Fault α}
    (h : ∀ fault, r = .error fault → ¬ fault.IsAbsence) : NotMissed (fun _ => True) r := by
  cases r with
  | error fault => exact h fault rfl
  | ok a => trivial

theorem Fault.IsOfCache.not_isAbsence {fault : Fault} (h : fault.IsOfCache) :
    ¬ fault.IsAbsence := by
  cases fault with
  | io | invalidIndex => exact id
  | _ => exact h.elim

namespace Store
variable {s : Store} {dir p : Path} {c : String} {x : Resolved}

theorem notMissed_held (s : Store) (dir : Path) : NotMissed (fun _ => True) (s.held dir) :=
  notMissed_of_error fun _ h => (isOfCache_of_held h).not_isAbsence

/-- The kind that a listing gives to a child is the kind that it turns out to have. -/
theorem notMissed_classified {kind : EntryKind} (h : x.kind = .ofEntry kind) :
    NotMissed (fun y => y.path = x.path ∧ y.kind = s.kindOf x.path kind) (s.classified x) := by
  unfold classified
  cases kind with
  | file =>
      rw [h]
      exact ⟨rfl, h⟩
  | directory =>
      rw [h]
      have hheld := s.notMissed_held x.path
      unfold kindOf
      change NotMissed _ (s.held x.path >>= fun held => .ok { x with kind := held.kind })
      revert hheld
      cases s.held x.path with
      | error fault => exact id
      | ok held => exact fun _ => ⟨rfl, rfl⟩

/-! ### The children of a directory -/

section Children
variable {names : List (String × EntryKind)}

/-- The child has the place that belongs to its name, and the kind under which it is listed. -/
def IsListedAs (dir : Path) (c : String) (kind : EntryKind) (y : Resolved) : Prop :=
  y.path = dir.extend c ∧ y.kind = .ofEntry kind

theorem standing_of_isOf {path : Path} {e : PhysicalEntry} {kind : EntryKind}
    (h : e.isOf kind = true) :
    standing path (some e) = .ok { path, kind := .ofEntry kind, volatile := true } := by
  obtain ⟨kind', size, mtime, file⟩ := e
  cases kind with
  | file =>
      have hkind : kind' = .file := of_decide_eq_true h
      rw [hkind]
      rfl
  | directory =>
      have hkind : kind' = .directory := of_decide_eq_true h
      rw [hkind]
      rfl

theorem isOf_of_standing {path : Path} {found : Option PhysicalEntry} {y : Resolved}
    (h : standing path found = .ok y) : ∃ e kind, found = some e ∧ e.isOf kind = true := by
  rcases found with _ | ⟨kind, _, _, _⟩
  · cases h
  · cases kind with
    | file => exact ⟨_, .file, rfl, rfl⟩
    | directory => exact ⟨_, .directory, rfl, rfl⟩
    | other => cases h

/-- A dynamic directory lists what stands in it under names of its own. -/
theorem mem_listPhysical_of_dynamic (hheld : s.held dir = .ok (.index .dynamic))
    (hnames : s.listPhysical dir = .ok names) :
    ∃ q t, s.disk.find true (s.physical dir) = .ok (q, .directory t) ∧
      ∀ (c : String) (kind : EntryKind), (c, kind) ∈ names ↔ ¬ IsReserved c ∧
        ∃ o, (Utf8.encode c, o) ∈ s.disk.children q ∧ listedKind? o = some kind := by
  obtain ⟨e, hstat, hdir⟩ := directory_of_held hheld
  obtain ⟨q, t, hfind⟩ := find_of_stat hstat hdir
  obtain ⟨names', hnames', hmem⟩ := mem_listPhysical_iff hfind
  have hsame : names' = names := Except.ok.inj (hnames'.symm.trans hnames)
  rw [hsame] at hmem
  exact ⟨q, t, hfind, hmem⟩

/-- What a dynamic directory lists is found in its place, if that can be looked at. -/
theorem notMissed_child_of_dynamic {kind : EntryKind} (hproper : s.disk.IsProper)
    (hheld : s.held dir = .ok (.index .dynamic)) (hc : IsSegment c)
    (hnames : s.listPhysical dir = .ok names) (hlisted : (c, kind) ∈ names) :
    NotMissed (IsListedAs dir c kind) (s.child dir c) := by
  obtain ⟨q, t, hfind, hmem⟩ := mem_listPhysical_of_dynamic hheld hnames
  obtain ⟨hreserved, o, ho, hkind⟩ := (hmem c kind).mp hlisted
  have hup : c ≠ ".." := by
    rintro rfl
    exact Disk.ne_above_of_mem_children hproper ho (by decide)
  have hat : s.disk.at? (q ++ [Utf8.encode c]) = some o :=
    (Disk.mem_children_iff_at? hproper).mp ho
  have hseen := Disk.find_concat_of_at? (isPlainName_encode hc hup) hfind hat
  rw [← physical_extend s dir hc] at hseen
  rw [child_of_held (not_or.mpr ⟨hup, hreserved⟩) hheld]
  change NotMissed _ (s.stat (dir.extend c) >>= standing (dir.extend c))
  rcases hseen with hok | ⟨fault, herror, hmissing⟩
  · have hentry : s.stat (dir.extend c) = .ok (some (entryOf s.disk o)) :=
      stat_eq_some_iff.mpr ⟨_, o, hok, rfl⟩
    rw [hentry]
    change NotMissed _ (standing (dir.extend c) (some (entryOf s.disk o)))
    rw [standing_of_isOf (isOf_entryOf.mpr hkind)]
    exact ⟨rfl, rfl⟩
  · unfold stat
    rw [herror]
    dsimp only
    rw [hmissing]
    exact id

/-- What is found in the place of a child of a dynamic directory is listed. -/
theorem mem_of_child_of_dynamic (hproper : s.disk.IsProper)
    (hheld : s.held dir = .ok (.index .dynamic)) (hc : IsSegment c)
    (hnames : s.listPhysical dir = .ok names) {y : Resolved} (hy : s.child dir c = .ok y) :
    ∃ kind, (c, kind) ∈ names := by
  obtain ⟨q, t, hfind, hmem⟩ := mem_listPhysical_of_dynamic hheld hnames
  have hordinary : ¬ (c = ".." ∨ IsReserved c) := ordinary_of_child hy
  obtain ⟨hup, hreserved⟩ := not_or.mp hordinary
  rw [child_of_held hordinary hheld] at hy
  obtain ⟨found, hseen, hstanding⟩ := bind_eq_ok_iff.mp hy
  obtain ⟨e, kind, rfl, hof⟩ := isOf_of_standing hstanding
  obtain ⟨l, o, hplace, rfl⟩ := stat_eq_some_iff.mp hseen
  rw [physical_extend s dir hc] at hplace
  have hat : s.disk.at? (q ++ [Utf8.encode c]) = some o :=
    Disk.at?_of_find_concat (isPlainName_encode hc hup) hfind hplace
  have ho : (Utf8.encode c, o) ∈ s.disk.children q := (Disk.mem_children_iff_at? hproper).mpr hat
  exact ⟨kind, (hmem c kind).mpr ⟨hreserved, o, ho, isOf_entryOf.mp hof⟩⟩

/-- Which names a directory has for its children, whatever its index. -/
structure Lists (s : Store) (dir : Path) (names : List (String × EntryKind)) : Prop where
  notMissed : ∀ c kind, IsSegment c → (c, kind) ∈ names →
    NotMissed (IsListedAs dir c kind) (s.child dir c)
  mem : ∀ c y, IsSegment c → s.child dir c = .ok y → ∃ kind, (c, kind) ∈ names

theorem held_of_told {index : Option Index} (h : s.held dir >>= Peeked.told dir = .ok index) :
    (index = none ∧ s.held dir = .ok .absent) ∨
      ∃ known, index = some known ∧ s.held dir = .ok (.index known) := by
  obtain ⟨held, hheld, htold⟩ := bind_eq_ok_iff.mp h
  rcases held with _ | known | _ <;> cases htold
  · exact .inl ⟨rfl, hheld⟩
  · exact .inr ⟨known, rfl, hheld⟩

theorem lists_of_listing {entries : List Entry} (hvalid : s.indices.Valid)
    (hheld : s.held dir = .ok (.index (.listing entries))) :
    s.Lists dir (entries.map fun e => (e.name, e.kind)) := by
  have hlisting : IsListing entries := isListing_of_held hvalid hheld
  constructor
  · intro c kind _ hlisted
    obtain ⟨e, he, heq⟩ := List.mem_map.mp hlisted
    cases heq
    obtain ⟨-, -, hup, hreserved, -⟩ := hlisting.names e he
    have hfind : (Index.listing entries).find? e.name = some e :=
      (Index.find?_eq_some_iff hlisting).mpr ⟨he, rfl⟩
    rw [child_of_held (not_or.mpr ⟨hup, hreserved⟩) hheld]
    simp only [childBy, hfind]
    exact ⟨rfl, rfl⟩
  · intro c y _ hy
    rw [child_of_held (ordinary_of_child hy) hheld] at hy
    cases hfind : (Index.listing entries).find? c with
    | none =>
        simp only [childBy, hfind] at hy
        cases hy
    | some e =>
        obtain ⟨he, rfl⟩ := (Index.find?_eq_some_iff hlisting).mp hfind
        exact ⟨e.kind, List.mem_map.mpr ⟨e, he, rfl⟩⟩

/-- A root that has no index has no children. -/
theorem lists_of_absent (hheld : s.held dir = .ok .absent) : s.Lists dir [] := by
  constructor
  · nofun
  · intro c y _ hy
    unfold child at hy
    split at hy
    · cases hy
    · rw [hheld] at hy
      cases hy

theorem lists_of_children {v : View} {index : Option Index} (hvalid : v.store.indices.Valid)
    (hproper : v.store.disk.IsProper) (htold : v.store.held dir >>= Peeked.told dir = .ok index)
    (hnames : Resolver.children dir index v = .ok names) : v.store.Lists dir names := by
  rcases held_of_told htold with ⟨rfl, hheld⟩ | ⟨known, rfl, hheld⟩
  · have hnil : names = [] := by
      unfold Resolver.children at hnames
      dsimp only at hnames
      split at hnames <;> cases hnames
      rfl
    rw [hnil]
    exact lists_of_absent hheld
  · cases known with
    | dynamic =>
        constructor
        · intro c kind hc hlisted
          exact notMissed_child_of_dynamic hproper hheld hc hnames hlisted
        · intro c y hc hy
          exact mem_of_child_of_dynamic hproper hheld hc hnames hy
    | listing entries =>
        have hentries : names = entries.map fun e => (e.name, e.kind) :=
          (Except.ok.inj hnames).symm
        rw [hentries]
        exact lists_of_listing hvalid hheld

end Children

/-! ### Built-in entries -/

theorem mem_builtinsAt_iff {kind : NodeKind} :
    (c, kind) ∈ builtinsAt dir ↔ dir.isRoot = true ∧ builtin? c = some kind := by
  unfold builtinsAt
  cases dir.isRoot with
  | false => simp
  | true =>
      unfold builtin? builtins
      by_cases hcontrol : controlName = c
      · subst hcontrol
        simp [controlName, cacheLinkName, eq_comm]
      · by_cases hlink : cacheLinkName = c
        · subst hlink
          simp [controlName, cacheLinkName, eq_comm]
        · simp [hcontrol, hlink, Ne.symm hcontrol, Ne.symm hlink]

theorem isFree_iff : IsFree dir c ↔ ¬ (dir.isRoot = true ∧ (builtin? c).isSome = true) := by
  unfold IsFree
  cases builtin? c <;> simp

end Store

namespace View

open Store

variable {v : View} {dir p : Path} {c : String} {kind : NodeKind} {y : Resolved}
  {listed : List (String × NodeKind)}

theorem notMissed_attributes (x : Resolved) (v : View) :
    NotMissed (fun _ => True) (Resolver.attributes x v) :=
  notMissed_of_error fun _ h =>
    (Store.isOfCache_of_stat (Resolver.stat_of_attributes h).2).not_isAbsence

theorem mem_listed_iff (hlisted : v.listed dir = .ok listed) : ∃ index names,
    v.store.held dir >>= Peeked.told dir = .ok index ∧ Resolver.children dir index v = .ok names ∧
    ∀ c kind, (c, kind) ∈ listed ↔ (dir.isRoot = true ∧ builtin? c = some kind) ∨
      (IsFree dir c ∧ ∃ k, (c, k) ∈ names ∧ v.store.kindOf (dir.extend c) k = kind) := by
  obtain ⟨index, htold, hrest⟩ := bind_eq_ok_iff.mp hlisted
  obtain ⟨names, hnames, heq⟩ := bind_eq_ok_iff.mp hrest
  cases heq
  refine ⟨index, names, htold, hnames, fun c kind => ?_⟩
  rw [List.mem_append, mem_builtinsAt_iff, List.mem_map]
  refine or_congr Iff.rfl ?_
  constructor
  · rintro ⟨⟨n, k⟩, hmem, heq⟩
    obtain ⟨hnames, hfree⟩ := List.mem_filter.mp hmem
    cases heq
    exact ⟨isFree_iff.mpr (of_decide_eq_true hfree), k, hnames, rfl⟩
  · rintro ⟨hfree, k, hmem, rfl⟩
    refine ⟨(c, k), List.mem_filter.mpr ⟨hmem, ?_⟩, rfl⟩
    exact decide_eq_true (isFree_iff.mp hfree)

theorem described_extend (hreached : v.store.reached p = .ok y) (hc : IsSegment c) :
    v.described (p.extend c) = v.store.enter y c >>= fun z => v.store.classified z >>= fun x =>
      Resolver.attributes x v >>= fun attr => .ok (x, attr) := by
  rw [described, resolved, reached_extend p hc, hreached]
  change (v.store.enter y c >>= v.store.classified) >>= _ = _
  rw [bind_assoc]

section Agreement
variable (hvalid : v.store.indices.Valid) (hproper : v.store.disk.IsProper)
  (hreached : v.store.reached p = .ok y) (hdir : y.kind.isDirectory = true)
  (hlisted : v.listed p = .ok listed) (hc : IsSegment c)

include hvalid hproper hreached hdir hlisted hc

/-- A name that is listed is not missed, and its kind is the listed one. -/
theorem notMissed_described (hmem : (c, kind) ∈ listed) :
    NotMissed (fun d => d.1.path = p.extend c ∧ d.1.kind = kind) (v.described (p.extend c)) := by
  have hpath : y.path = p := path_of_reached hreached
  obtain ⟨index, names, htold, hnames, hiff⟩ := mem_listed_iff hlisted
  have hlists : v.store.Lists p names := lists_of_children hvalid hproper htold hnames
  have henter : NotMissed (fun z => z.path = p.extend c ∧
      NotMissed (fun x => x.path = z.path ∧ x.kind = kind) (v.store.classified z))
      (v.store.enter y c) := by
    rcases (hiff c kind).mp hmem with ⟨hroot, hbuiltin⟩ | ⟨hfree, k, hk, rfl⟩
    · rw [enter_of_builtin hdir (by rw [hpath, hroot]) hbuiltin, hpath]
      refine ⟨rfl, ?_⟩
      rw [classified, not_isDirectory_of_builtin hbuiltin]
      exact ⟨rfl, rfl⟩
    · rw [enter_of_plain hdir (by rw [hpath]; exact hfree), hpath]
      refine (hlists.notMissed c k hc hk).mono fun z hz => ⟨hz.1, ?_⟩
      rw [← hz.1]
      exact notMissed_classified hz.2
  rw [described_extend hreached hc]
  refine henter.bind fun z _ hz => hz.2.bind fun x _ hx => ?_
  refine (notMissed_attributes x v).bind fun attr _ _ => ?_
  exact ⟨hx.1.trans hz.1, hx.2⟩

/-- A name that is not listed is not found. -/
theorem described_of_not_listed (hmem : ∀ kind, (c, kind) ∉ listed) :
    ∃ fault, v.described (p.extend c) = .error fault := by
  have hpath : y.path = p := path_of_reached hreached
  obtain ⟨index, names, htold, hnames, hiff⟩ := mem_listed_iff hlisted
  have hlists : v.store.Lists p names := lists_of_children hvalid hproper htold hnames
  have hfree : IsFree p c := by
    intro hroot
    cases hbuiltin : builtin? c with
    | none => rfl
    | some kind => exact absurd ((hiff c kind).mpr (.inl ⟨hroot, hbuiltin⟩)) (hmem kind)
  rw [described_extend hreached hc, enter_of_plain hdir (by rw [hpath]; exact hfree), hpath]
  cases hchild : v.store.child p c with
  | error fault => exact ⟨fault, rfl⟩
  | ok z =>
      obtain ⟨k, hk⟩ := hlists.mem c z hc hchild
      exact absurd ((hiff c _).mpr (.inr ⟨hfree, k, hk, rfl⟩)) (hmem _)

end Agreement
end View
end OnDemandFs
