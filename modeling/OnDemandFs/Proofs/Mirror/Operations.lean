import OnDemandFs.Proofs.Mirror.Walks
import OnDemandFs.Proofs.Resolve.Entries

/-!
# Look-ups, listings and opens over a mirror

Each operation tells of a path what the origin has there, and fails only where a mirror shows
nothing of the kind or the disk cannot carry the path.
-/
namespace OnDemandFs

namespace Origin
variable {o : Origin} {s₀ s t : Store} {p : Path}

/-- The node is that of what a mirror shows at the path. -/
structure Depicts (o : Origin) (d : Disk) (p : Path) (node : Node) : Prop where
  path : node.path = p
  shown : (∃ n, p.names = [n] ∧ builtin? n = some node.kind) ∨
    ∃ x, o.Exposes d p x ∧ node.kind = .ofEntry x.kind
  size : ∀ b, o.Exposes d p (.file b) → node.attr.size = b.content.length

/-- What a mirror shows in a directory, besides the built-in entries. -/
def shownIn (o : Origin) (d : Disk) (p : Path) : List (String × NodeKind) :=
  ((listing d (o.source p)).filter fun e => ¬ (p.isRoot ∧ (builtin? e.name).isSome)).map fun e =>
    (e.name, .ofEntry e.kind)

theorem isFree_iff {n : String} : decide (¬ (p.isRoot = true ∧ (builtin? n).isSome = true)) = true ↔
    Store.IsFree p n := by
  unfold Store.IsFree
  cases p.isRoot <;> cases builtin? n <;> simp

theorem sorted_shownIn {d : Disk} (hproper : d.IsProper) (p : Path) :
    (o.shownIn d p).Pairwise fun c c' => c.1 < c'.1 :=
  List.pairwise_map.mpr ((sorted_listing hproper (o.source p)).filter _)

theorem mem_shownIn_iff {d : Disk} (hproper : d.IsProper)
    (hp : o.Exposes d p (.directory (o.source p))) {n : String} {k : NodeKind} :
    (n, k) ∈ o.shownIn d p ↔
      IsEntryName n ∧ ∃ x, o.Exposes d (p.extend n) x ∧ k = .ofEntry x.kind := by
  have hlisting := isListing_listing hproper (o.source p)
  have hlisted : (n, k) ∈ o.shownIn d p ↔ ∃ e, (Index.listing (listing d (o.source p))).find? n =
      some e ∧ Store.IsFree p n ∧ k = .ofEntry e.kind := by
    unfold shownIn
    simp only [List.mem_map, List.mem_filter, isFree_iff, Prod.mk.injEq,
      Index.find?_eq_some_iff hlisting]
    constructor
    · rintro ⟨e, ⟨he, hfree⟩, rfl, rfl⟩
      exact ⟨e, ⟨he, rfl⟩, hfree, rfl⟩
    · rintro ⟨e, ⟨he, rfl⟩, hfree, rfl⟩
      exact ⟨e, ⟨he, hfree⟩, rfl, rfl⟩
  rw [hlisted]
  constructor
  · intro h
    obtain ⟨e, hfind, hfree, rfl⟩ := h
    obtain ⟨hentry, x, hitem, hdeclares⟩ := declares_of_find? hproper hfind
    have hlistable := (Path.isListable_extend_iff hentry.isSegment).mpr ⟨hp.listable, hentry⟩
    refine ⟨hentry, x, ⟨hlistable, hp.free_extend hentry.isSegment hfree, hitem⟩, ?_⟩
    rw [hdeclares.kind]
  · intro h
    obtain ⟨hentry, x, hx, rfl⟩ := h
    obtain ⟨e, hfind⟩ := find?_of_itemAt? hproper hentry hx.item
    obtain ⟨-, y, hitem, hdeclares⟩ := declares_of_find? hproper hfind
    cases hx.item.symm.trans hitem
    refine ⟨e, hfind, fun hroot => hx.free n ?_, by rw [hdeclares.kind]⟩
    obtain rfl : p = .root := Path.ext_names (List.isEmpty_iff.mp hroot)
    rw [Path.root.names_extend_of_isSegment hentry.isSegment]
    rfl

/-- The entries are those of what a mirror shows in the directory. -/
structure Lists (o : Origin) (d : Disk) (p : Path) (entries : List Listed) : Prop where
  directory : o.Exposes d p (.directory (o.source p))
  listed : ∃ rest, entries.map (fun e => (e.name, e.kind)) = Store.builtinsAt p ++ rest ∧
    rest.Pairwise (fun c c' => c.1 < c'.1) ∧ ∀ n k, (n, k) ∈ rest ↔
      IsEntryName n ∧ ∃ x, o.Exposes d (p.extend n) x ∧ k = .ofEntry x.kind

/-- The opened file has the content that the origin has at the path. -/
structure Opens (o : Origin) (s₀ : Store) (p : Path) (s : Store) (f : Opened) : Prop where
  path : f.node.path = p
  body : ∃ b c, o.Exposes s₀.disk p (.file b) ∧ s.disk.body? f.file = some c ∧
    c.content = b.content ∧ f.node.attr.size = b.content.length
  made : f.file < s.disk.nextFile
  copied : s.HasBody p

theorem Opens.mono {f : Opened} (h : Opens o s₀ p s f) (hgrown : s.Grown t) :
    Opens o s₀ p t f := by
  obtain ⟨b, c, hexposed, hbody, hcontent, hsize⟩ := h.body
  refine ⟨h.path, ⟨b, c, hexposed, ?_, hcontent, hsize⟩, Nat.lt_of_lt_of_le h.made hgrown.nextFile,
    hgrown.hasBody h.copied⟩
  rw [hgrown.bodies f.file h.made, hbody]

theorem Found.kind_of_isDirectory {x : Resolved} (h : Found o s₀ s x)
    (hdir : x.kind.isDirectory = true) : { x with kind := .staticDirectory } = x := by
  cases h with
  | top => rfl
  | builtin hn h =>
      rw [Store.not_isDirectory_of_builtin h] at hdir
      cases hdir
  | @child q n x e hn hexposed hindex hdeclares =>
      cases hkind : e.kind with
      | directory => rfl
      | file =>
          rw [hkind] at hdir
          cases hdir

theorem Found.shown {x : Resolved} (h : Found o s₀ s x) (htree : s₀.disk.IsTree o.place) :
    (∃ n, x.path.names = [n] ∧ builtin? n = some x.kind) ∨
      ∃ y, o.Exposes s₀.disk x.path y ∧ x.kind = .ofEntry y.kind := by
  cases h with
  | top => exact .inr ⟨_, exposes_root htree, rfl⟩
  | @builtin n kind hn h => exact .inl ⟨n, Path.root.names_extend_of_isSegment hn, h⟩
  | child hn hexposed hindex hdeclares =>
      exact .inr ⟨_, hexposed, congrArg NodeKind.ofEntry hdeclares.kind⟩

theorem Found.file {x : Resolved} (h : Found o s₀ s x) (hkind : x.kind = .file) :
    ∃ b, o.Exposes s₀.disk x.path (.file b) ∧ s.IsReachable x.path := by
  cases h with
  | top => cases hkind
  | builtin hn h => exact absurd hkind (Store.ne_file_of_builtin h)
  | @child q n y e hn hexposed hindex hdeclares =>
      cases y with
      | directory place =>
          rw [hdeclares.kind] at hkind
          cases hkind
      | file b => exact ⟨b, hexposed, .inr (by rwa [q.parent_extend hn])⟩

end Origin

namespace Resolver

open Asking Origin

variable {o : Origin} {s₀ : Store} {v : View} {p q : Path} {n : String} {t : Terms View}

/-! ### Resolving -/

theorem meets_directoryKind (hm : o.IsMirrorable s₀) (h : Mirrors o s₀ v.store)
    (hexposed : o.Exposes s₀.disk p (.directory (o.source p))) :
    (attempt (directoryKind p) v).Meets t (Ends o s₀
      (fun w kind => kind = .staticDirectory ∧ v.store.Grown w.store)
      (∀ x, o.Exposes s₀.disk p x → ¬ Within o s₀ p x)) := by
  obtain ⟨hkept, hgrown, -⟩ := meets_peek (t := t) hm h hexposed
  have hconfined := hexposed.listable.isConfined
  change Ends _ _ _ _ (directoryKind p v).1 (directoryKind p v).2
  rw [directoryKind_eq]
  cases hheld : v.store.held p with
  | error fault =>
      refine .of_error hkept fun x hx hwithin => ?_
      cases hexposed.item.symm.trans hx.item
      obtain ⟨held, hok⟩ := h.exists_held hm hconfined hexposed.item hwithin
      rw [hheld] at hok
      cases hok
  | ok held =>
      refine .of_ok hkept ⟨?_, hgrown⟩
      rcases h.of_held hm hconfined hexposed.item hheld with rfl | ⟨rfl, -⟩ <;> rfl

theorem meets_resolve (hm : o.IsMirrorable s₀) (h : Mirrors o s₀ v.store) (p : Path) :
    (resolve p v).Meets (o.terms s₀) (Ends o s₀
      (fun w x => x.path = p ∧ Found o s₀ w.store x) (o.Lacks s₀ p)) := by
  refine meets_bind (meets_walkFromRoot hm h p) (fun w x hw => ?_) fun w fault hw => ?_
  · obtain ⟨rfl, hx⟩ := hw.ok x rfl
    cases hdir : x.kind.isDirectory with
    | false =>
        simp only [Bool.false_eq_true, if_false]
        exact .of_ok hw.mirrors ⟨rfl, hx⟩
    | true =>
        have hp := hx.entered hm.tree hdir
        simp only [if_true]
        refine meets_bind (meets_directoryKind hm hw.mirrors hp.exposed) (fun u kind hu => ?_)
          fun u fault hu => ?_
        · obtain ⟨rfl, hgrown⟩ := hu.ok kind rfl
          refine .of_ok hu.mirrors ⟨rfl, ?_⟩
          rw [hx.kind_of_isDirectory hdir]
          exact hx.mono hgrown
        · exact .of_error hu.mirrors ⟨hp.exposed.not_isBuiltin, hu.error fault rfl⟩
  · exact .of_error hw.mirrors (hw.error fault rfl).2

/-! ### Looking up -/

/-- The size of a file is that of its copy, and the declared one before there is a copy. -/
theorem size_of_attributes {x : Resolved} {attr : Attr} (hkind : x.kind = .file)
    (h : attributes x v = .ok attr) : ∃ found, v.store.stat x.path = .ok found ∧
      (found = none → attr.size = (hinted x).size) ∧
      ∀ e, found = some e → e.kind = .file → attr.size = e.size := by
  unfold attributes at h
  rw [hkind] at h
  dsimp only at h
  rcases hstat : v.store.stat x.path with fault | _ | ⟨kind, size, mtime, file⟩ <;> rw [hstat] at h
  · cases h
  · cases h
    exact ⟨none, rfl, fun _ => rfl, nofun⟩
  · refine ⟨_, rfl, nofun, fun e he hfile => ?_⟩
    cases he
    cases hfile
    cases h
    rfl

theorem ends_attributes (hm : o.IsMirrorable s₀) (h : Mirrors o s₀ v.store) {x : Resolved}
    (hx : Found o s₀ v.store x) : Ends o s₀
      (fun _ attr => ∀ b, o.Exposes s₀.disk x.path (.file b) → attr.size = b.content.length)
      (o.Lacks s₀ x.path) v (attributes x v) := by
  have hlacks {y : Item} (hy : o.Exposes s₀.disk x.path y) {fault : Fault}
      (hattr : attributes x v = .error fault) : o.Lacks s₀ x.path := by
    refine ⟨hy.not_isBuiltin, fun _ hz hwithin => ?_⟩
    obtain ⟨found, hok⟩ := h.exists_stat hm hz.item hwithin
    rw [(stat_of_attributes hattr).2] at hok
    cases hok
  cases hx with
  | top =>
      refine ⟨h, fun attr _ b hb => ?_, fun fault => hlacks (exposes_root hm.tree)⟩
      cases (exposes_root hm.tree).item.symm.trans hb.item
  | @builtin n kind hn hbuiltin =>
      refine ⟨h, fun attr _ b hb => ?_, fun fault hattr => ?_⟩
      · refine absurd ⟨n, kind, ?_, hbuiltin⟩ hb.not_isBuiltin
        exact Path.root.names_extend_of_isSegment hn
      · rcases (stat_of_attributes hattr).1 with hfile | hdir
        · exact absurd hfile (Store.ne_file_of_builtin hbuiltin)
        · rw [Store.not_isDirectory_of_builtin hbuiltin] at hdir
          cases hdir
  | @child q n y e hn hexposed hindex hdeclares =>
      refine ⟨h, fun attr hattr b hb => ?_, fun fault => hlacks hexposed⟩
      cases hexposed.item.symm.trans hb.item
      have hkind : NodeKind.ofEntry e.kind = .file := by
        rw [hdeclares.kind]
        rfl
      obtain ⟨found, hstat, hnone, hsome⟩ := size_of_attributes hkind hattr
      rcases h.of_stat hm hb.listable.isConfined hb.item hstat with
        rfl | ⟨place, -, hother, -⟩ | ⟨b', id, hb', rfl, -⟩
      · have hsize := hm.sizes _ b hb.item
        have hlimit : Numeral.signedLimit ≤ UInt64.size := by decide
        rw [hnone rfl]
        change e.size.toNat = _
        rw [(hdeclares.file b rfl).1]
        exact UInt64.toNat_ofNat_of_lt' (by omega)
      · cases hother
      · cases hb'
        exact hsome _ rfl rfl

/-- A look-up finds what the origin has at the path, or a built-in entry. -/
theorem meets_lookup (hm : o.IsMirrorable s₀) (h : Mirrors o s₀ v.store) (p : Path) :
    (lookup p v).Meets (o.terms s₀)
      (Ends o s₀ (fun _ node => o.Depicts s₀.disk p node) (o.Lacks s₀ p)) := by
  refine meets_bind (meets_resolve hm h p) (fun w x hw => ?_) fun w fault hw =>
    .of_error hw.mirrors (hw.error fault rfl)
  obtain ⟨rfl, hx⟩ := hw.ok x rfl
  have hends := ends_attributes hm hw.mirrors hx
  change Inquiry.Meets _ _ ((lift (attributes x w) >>= fun attr =>
    act (identify x.path) >>= fun id =>
    pure ⟨id, x.path, x.kind, attr, x.volatile⟩ : Resolver Node) w)
  refine meets_bind hends (fun u attr hu => ?_) fun u fault hu =>
    .of_error hu.mirrors (hu.error fault rfl)
  exact .of_ok hu.mirrors ⟨rfl, hx.shown hm.tree, hu.ok attr rfl⟩

/-! ### Listing -/

theorem meets_indexForListing (hm : o.IsMirrorable s₀) (h : Mirrors o s₀ v.store)
    (hp : Entered o s₀ v.store p) :
    (indexForListing p v).Meets (o.terms s₀) (IndexEnds o s₀ p) := by
  have hconfined := hp.exposed.listable.isConfined
  refine meets_bind (meets_peek hm h hp.exposed) (fun w held hw => ?_) fun w fault hw =>
    IndexEnds.of_error hm h hw.1 hp.exposed hw.2.2.symm
  obtain ⟨hkept, hgrown, hheld⟩ := hw
  rcases h.of_held hm hconfined hp.exposed.item hheld.symm with rfl | ⟨rfl, hindex⟩
  · exact meets_askForIndex hm hkept ⟨hp.exposed, hgrown.isReachable hp.reachable⟩
  · exact IndexEnds.of_index hkept (hgrown.hasIndex hindex)

/-- The names of a directory are those of its listing. -/
theorem meets_namesOf (hm : o.IsMirrorable s₀) (h : Mirrors o s₀ v.store)
    (hp : Entered o s₀ v.store p) :
    (namesOf p v).Meets (o.terms s₀) (Ends o s₀
      (fun _ names => names = (listing s₀.disk (o.source p)).map fun e => (e.name, e.kind))
      (¬ Indexable o s₀ p)) := by
  refine meets_bind (meets_indexForListing hm h hp) (fun w index hw => ?_) fun w fault hw =>
    .of_error hw.mirrors (hw.missing nofun)
  cases index with
  | none =>
      have hmissing := hw.missing nofun
      change Ends _ _ _ _ w (children p none w)
      unfold children
      dsimp only
      cases hroot : p.isRoot with
      | false => exact .of_error hw.mirrors hmissing
      | true =>
          -- the index of the root has room
          obtain rfl : p = .root := Path.ext_names (List.isEmpty_iff.mp hroot)
          refine absurd ⟨?_, ?_⟩ hmissing
          · have hsource : o.source .root = o.place := List.append_nil _
            rw [hsource]
            exact hm.tree.fits
          · rw [s₀.physical_root]
            exact hm.room
  | some index =>
      obtain ⟨rfl, -⟩ := hw.index index rfl
      exact .of_ok hw.mirrors rfl

/-- A listed child is of the kind that the origin has. -/
theorem meets_childKind (hm : o.IsMirrorable s₀) (h : Mirrors o s₀ v.store) {x : Item}
    (hexposed : o.Exposes s₀.disk p x) : (act (childKind p x.kind) v).Meets t fun w r =>
      Mirrors o s₀ w.store ∧ r = .ok (.ofEntry x.kind) := by
  change Mirrors _ _ (childKind p x.kind v).1.store ∧ Except.ok (childKind p x.kind v).2 = _
  cases x with
  | file b => exact ⟨h, rfl⟩
  | directory place =>
      rw [directory_of_itemAt? hexposed.item] at hexposed
      have hends := meets_directoryKind (t := t) hm h hexposed
      change Ends _ _ _ _ (directoryKind p v).1 (directoryKind p v).2 at hends
      unfold Item.kind childKind
      dsimp only
      revert hends
      rcases directoryKind p v with ⟨w, fault | kind⟩ <;> intro hends
      · exact ⟨hends.mirrors, rfl⟩
      · obtain ⟨rfl, -⟩ := hends.ok kind rfl
        exact ⟨hends.mirrors, rfl⟩

/-- Each listed child has the kind that the listing gives to it. -/
theorem meets_listChild (hm : o.IsMirrorable s₀) (h : Mirrors o s₀ v.store)
    (hp : o.Exposes s₀.disk p (.directory (o.source p))) {e : Entry}
    (he : e ∈ listing s₀.disk (o.source p)) (hfree : Store.IsFree p e.name) :
    (listChild p (e.name, e.kind) v).Meets t fun w r => Mirrors o s₀ w.store ∧
      ∃ l, r = .ok l ∧ (l.name, l.kind) = (e.name, .ofEntry e.kind) := by
  have hlisting := isListing_listing hm.proper (o.source p)
  have hfind := (Index.find?_eq_some_iff hlisting).mpr ⟨he, rfl⟩
  obtain ⟨hentry, x, hitem, hdeclares⟩ := declares_of_find? hm.proper hfind
  have hlistable := (Path.isListable_extend_iff hentry.isSegment).mpr ⟨hp.listable, hentry⟩
  have hexposed : o.Exposes s₀.disk (p.extend e.name) x :=
    ⟨hlistable, hp.free_extend hentry.isSegment hfree, hitem⟩
  have hkind := meets_childKind (t := t) hm h hexposed
  rw [← hdeclares.kind] at hkind
  refine meets_bind hkind (fun w kind hw => ?_) fun w fault hw => nomatch hw.2
  obtain ⟨hkept, hk⟩ := hw
  cases hk
  exact ⟨hkept, _, rfl, rfl⟩

/-- Giving numbers to the built-in entries leaves the cache alone. -/
theorem meets_builtinsAt (p : Path) (v : View) :
    ((if p.isRoot then listBuiltins else pure [] : Resolver (List Listed)) v).Meets t fun w r =>
      w.store = v.store ∧
        ∃ first, r = .ok first ∧ first.map (fun e => (e.name, e.kind)) = Store.builtinsAt p := by
  unfold Store.builtinsAt
  cases p.isRoot with
  | false => exact ⟨rfl, [], rfl, rfl⟩
  | true =>
      have hall := meets_mapM (t := t) (s := v) (I := fun w => w.store = v.store)
        (g := fun e : Listed => (e.name, e.kind)) (k := id) (l := builtins)
        (f := fun c => act (identify (Path.root.extend c.1)) >>= fun id => pure ⟨id, c.1, c.2⟩)
        (fun c _ w hw => ⟨hw, _, rfl, rfl⟩) rfl
      rw [List.map_id] at hall
      exact hall

theorem meets_entriesOf (hm : o.IsMirrorable s₀) (h : Mirrors o s₀ v.store) {x : Resolved}
    (hp : Entered o s₀ v.store x.path) :
    (entriesOf x v).Meets (o.terms s₀) (Ends o s₀ (fun _ entries => o.Lists s₀.disk x.path entries)
      (¬ Indexable o s₀ x.path)) := by
  refine meets_bind (meets_builtinsAt x.path v) (fun w first hw => ?_) fun w fault hw => ?_
  · obtain ⟨hstore, first', hfirst, hbuiltins⟩ := hw
    cases hfirst
    rw [← hstore] at h hp
    rw [entriesAfter_eq]
    refine meets_bind (meets_namesOf hm h hp) (fun u names hu => ?_) fun u fault hu =>
      .of_error hu.mirrors (hu.error fault rfl)
    obtain rfl := hu.ok names rfl
    have hfiltered : ((listing s₀.disk (o.source x.path)).map fun e => (e.name, e.kind)).filter
        (fun c => ¬ (x.path.isRoot ∧ (builtin? c.1).isSome)) =
        ((listing s₀.disk (o.source x.path)).filter fun e =>
          ¬ (x.path.isRoot ∧ (builtin? e.name).isSome)).map fun e => (e.name, e.kind) :=
      List.filter_map
    rw [hfiltered]
    have hchildren := meets_mapM (t := o.terms s₀) (s := u) (I := fun w => Mirrors o s₀ w.store)
      (g := fun e : Listed => (e.name, e.kind)) (f := listChild x.path)
      (k := fun c : String × EntryKind => (c.1, NodeKind.ofEntry c.2))
      (l := ((listing s₀.disk (o.source x.path)).filter fun e =>
        ¬ (x.path.isRoot ∧ (builtin? e.name).isSome)).map fun e => (e.name, e.kind)) ?_ hu.mirrors
    · refine meets_bind hchildren (fun w rest hw => ?_) fun w fault hw => ?_
      · obtain ⟨hkept, rest', hrest, hlisted⟩ := hw
        cases hrest
        refine .of_ok hkept ⟨hp.exposed, o.shownIn s₀.disk x.path, ?_,
          sorted_shownIn hm.proper x.path, fun n k => mem_shownIn_iff hm.proper hp.exposed⟩
        rw [List.map_append, hbuiltins, hlisted, List.map_map]
        rfl
      · obtain ⟨-, _, hrest, -⟩ := hw
        cases hrest
    · intro c hc u hu
      obtain ⟨e, he, rfl⟩ := List.mem_map.mp hc
      obtain ⟨hmem, hfree⟩ := List.mem_filter.mp he
      exact meets_listChild hm hu hp.exposed hmem (isFree_iff.mp hfree)
  · obtain ⟨-, _, hfirst, -⟩ := hw
    cases hfirst

/-- A listing shows what the origin has in the directory. -/
theorem meets_readDirectory (hm : o.IsMirrorable s₀) (h : Mirrors o s₀ v.store) (p : Path) :
    (readDirectory p v).Meets (o.terms s₀) (Ends o s₀ (fun _ entries => o.Lists s₀.disk p entries)
      (∀ place, o.Exposes s₀.disk p (.directory place) → ¬ Indexable o s₀ p)) := by
  rw [readDirectory_eq]
  refine meets_bind (meets_resolve hm h p) (fun w x hw => ?_) fun w fault hw =>
    .of_error hw.mirrors fun _ hx hindexable =>
      (hw.error fault rfl).missing _ hx (hindexable.within _)
  obtain ⟨rfl, hx⟩ := hw.ok x rfl
  cases hdir : x.kind.isDirectory with
  | true =>
      have hp := hx.entered hm.tree hdir
      refine (meets_entriesOf hm hw.mirrors hp).mono fun u r hu => ?_
      exact ⟨hu.mirrors, hu.ok, fun fault hr _ _ => hu.error fault hr⟩
  | false =>
      refine .of_error hw.mirrors fun place hexposed => ?_
      rcases hx.shown hm.tree with ⟨n, hnames, hbuiltin⟩ | ⟨y, hy, hkind⟩
      · exact absurd ⟨n, _, hnames, hbuiltin⟩ hexposed.not_isBuiltin
      · cases hy.item.symm.trans hexposed.item
        rw [hkind] at hdir
        cases hdir

/-! ### Opening -/

theorem hasBody_of_stat (hm : o.IsMirrorable s₀) (h : Mirrors o s₀ v.store) {b : Body}
    (hexposed : o.Exposes s₀.disk p (.file b)) {e : PhysicalEntry}
    (hstat : v.store.stat p = .ok (some e)) : e.kind = .file ∧ v.store.HasBody p := by
  rcases h.of_stat hm hexposed.listable.isConfined hexposed.item hstat with
    hnone | ⟨place, -, hother, -⟩ | ⟨b', id, -, hfound, hfile⟩
  · cases hnone
  · cases hother
  · cases hfound
    exact ⟨rfl, id, hfile⟩

/-- A body is there, or it is asked for and then there if the disk can carry its path. -/
theorem meets_ensureBody (hm : o.IsMirrorable s₀) (h : Mirrors o s₀ v.store) {x : Resolved}
    {b : Body} (hexposed : o.Exposes s₀.disk x.path (.file b))
    (hreachable : v.store.IsReachable x.path) :
    (ensureBody x v).Meets (o.terms s₀)
      (Ends o s₀ (fun w _ => w.store.HasBody x.path)
        ¬ (Within o s₀ x.path (.file b) ∧ Disk.Fits (o.source x.path))) := by
  have hstat (w : View) : (stat x.path w).Meets (o.terms s₀) fun u r =>
      u = w ∧ r = w.store.stat x.path := ⟨rfl, rfl⟩
  have hget (w : View) : (get w).Meets (o.terms s₀) fun u r => u = w ∧ r = .ok w := ⟨rfl, rfl⟩
  have hwithout {w : View} {fault : Fault} (hw : Mirrors o s₀ w.store)
      (hfault : .error fault = w.store.stat x.path) :
      ¬ (Within o s₀ x.path (.file b) ∧ Disk.Fits (o.source x.path)) := by
    rintro ⟨hwithin, -⟩
    obtain ⟨found, hok⟩ := hw.exists_stat hm hexposed.item hwithin
    rw [hok] at hfault
    cases hfault
  refine meets_bind (hstat v) (fun w cached hw => ?_) fun w fault hw => ?_
  · obtain ⟨rfl, hcached⟩ := hw
    refine meets_bind (hget w) (fun _ _ hw => ?_) fun _ _ hw => by cases hw.2
    obtain ⟨hsame, hw⟩ := hw
    cases hw
    rw [hsame]
    split
    · next husable =>
        cases cached with
        | none => cases husable
        | some e => exact .of_ok h (hasBody_of_stat hm h hexposed hcached.symm).2
    · have hask : (ask x.path w).Meets (o.terms s₀) fun u r =>
          r = .ok () ∧ Mirrors o s₀ u.store ∧ Origin.Served o s₀ u.store x.path :=
        meets_ask ⟨h, hexposed.listable, hreachable⟩ (fun _ hu => ⟨rfl, hu⟩)
          fun _ _ hrefused => hrefused.elim
      refine meets_bind hask (fun u _ hu => ?_) fun _ _ hu => by cases hu.1
      obtain ⟨-, hkept, hserved⟩ := hu
      refine meets_bind (hstat u) (fun u' found hu' => ?_) fun u' fault hu' => ?_
      · obtain ⟨rfl, hfound⟩ := hu'
        cases found with
        | none =>
            refine .of_error hkept fun ⟨hwithin, hfits⟩ => ?_
            obtain ⟨id, hfile⟩ := hserved.body b hexposed.item hwithin hfits
            rw [Store.stat_of_file hkept.tree (hm.isCarried hexposed.item)
              (hkept.fits_physical hwithin) hfile] at hfound
            cases hfound
        | some e =>
            obtain ⟨hkind, hbody⟩ := hasBody_of_stat hm hkept hexposed hfound.symm
            simp only [hkind, if_true]
            exact .of_ok hkept hbody
      · obtain ⟨rfl, hfound⟩ := hu'
        exact .of_error hkept (hwithout hkept hfound)
  · obtain ⟨rfl, hcached⟩ := hw
    exact .of_error h (hwithout h hcached)

theorem ends_openBody (hm : o.IsMirrorable s₀) (h : Mirrors o s₀ v.store) {x : Resolved} {b : Body}
    (hexposed : o.Exposes s₀.disk x.path (.file b)) (hbody : v.store.HasBody x.path) :
    Ends o s₀ (fun w f => Opens o s₀ x.path w.store f) (¬ Within o s₀ x.path (.file b))
      (openBody x v).1 (openBody x v).2 := by
  have hcarried := Store.carried_physical h.tree.carried (hm.isCarried hexposed.item)
  have hprefix := v.store.root_prefix_physical x.path
  obtain ⟨id, hfile⟩ := hbody
  cases hfind : v.store.disk.find true (v.store.physical x.path) with
  | error cause =>
      have hwithout : ¬ Within o s₀ x.path (.file b) := by
        intro hwithin
        rw [Store.find_physical h.tree (hm.isCarried hexposed.item)
          (h.fits_physical hwithin) hfile] at hfind
        cases hfind
      unfold openBody
      rw [hfind]
      split
      · exact .of_error h hwithout
      · exact .of_error h hwithout
      · next hok => cases hok
      · exact .of_error h hwithout
  | ok found =>
      obtain ⟨q, y⟩ := found
      obtain ⟨-, hat, -⟩ := h.tree.find_place hprefix hcarried hfind
      rw [Disk.stands_eq_file_iff.mp hfile] at hat
      cases hat
      obtain ⟨-, b', c, hitem, hcopy, hcontent, -⟩ :=
        h.body x.path id hexposed.listable.isConfined hfile
      cases hexposed.item.symm.trans hitem
      unfold openBody
      rw [hfind]
      refine .of_ok h ⟨rfl, ⟨b, c, hexposed, hcopy, hcontent, ?_⟩,
        (h.tree.filed _ id hprefix hfile).1, id, hfile⟩
      simp only [Store.entryOf, hcopy, hcontent]

/-- An open file has the content that the origin has at the path. -/
theorem meets_openFile (hm : o.IsMirrorable s₀) (h : Mirrors o s₀ v.store) (p : Path) :
    (openFile p v).Meets (o.terms s₀) (Ends o s₀ (fun w f => Opens o s₀ p w.store f)
      (∀ b, o.Exposes s₀.disk p (.file b) →
        ¬ (Within o s₀ p (.file b) ∧ Disk.Fits (o.source p)))) := by
  refine meets_bind (meets_resolve hm h p) (fun w x hw => ?_) fun w fault hw =>
    .of_error hw.mirrors fun _ hx hwithin => (hw.error fault rfl).missing _ hx hwithin.1
  obtain ⟨rfl, hx⟩ := hw.ok x rfl
  by_cases hfile : x.kind = .file
  · obtain ⟨b, hexposed, hreachable⟩ := hx.file hfile
    simp only [hfile]
    have hsame (b' : Body) (hb' : o.Exposes s₀.disk x.path (.file b')) : b' = b := by
      cases hexposed.item.symm.trans hb'.item
      rfl
    refine meets_bind (meets_ensureBody hm hw.mirrors hexposed hreachable) (fun u _ hu => ?_)
      fun u fault hu => .of_error hu.mirrors fun b' hb' => hsame b' hb' ▸ hu.error fault rfl
    have hends := ends_openBody hm hu.mirrors hexposed (hu.ok () rfl)
    refine ⟨hends.mirrors, hends.ok, fun fault hr b' hb' hwithin => ?_⟩
    rw [hsame b' hb'] at hwithin
    exact hends.error fault hr hwithin.1
  · have hnone (b : Body) (hexposed : o.Exposes s₀.disk x.path (.file b)) :
        ¬ (Within o s₀ x.path (.file b) ∧ Disk.Fits (o.source x.path)) := by
      rcases hx.shown hm.tree with ⟨n, hnames, hbuiltin⟩ | ⟨y, hy, hkind⟩
      · exact absurd ⟨n, _, hnames, hbuiltin⟩ hexposed.not_isBuiltin
      · cases hy.item.symm.trans hexposed.item
        exact absurd hkind hfile
    cases hkind : x.kind with
    | file => exact absurd hkind hfile
    | staticDirectory | dynamicDirectory | symlink | control => exact .of_error hw.mirrors hnone

end Resolver
end OnDemandFs
