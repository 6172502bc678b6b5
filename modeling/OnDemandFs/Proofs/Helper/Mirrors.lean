import OnDemandFs.Proofs.Helper.Unchanged
import OnDemandFs.Reading
import Mathlib.Algebra.Group.Int.Defs

/-!
# A cache that mirrors an origin

A cache that was empty and that only answers from an origin went into is a partial copy of the
origin: `Mirrors` says that what is there is as the origin has it, that no copy is there without the
index of its directory, and that what is remembered of indices is right. Every answer for a path
whose directory has its index keeps this, takes nothing back, and leaves the copy or the index that
was asked for. What the cache holds of a directory is then either nothing or the index of the
origin's directory.
-/
namespace OnDemandFs

namespace Store

/-- An index stands in the copy of a directory. -/
def HasIndex (s : Store) (p : Path) : Prop :=
  ∃ id, s.disk.stands (s.indexPlace p) = some (.file id)

/-- The copy of a path is a file. -/
def HasBody (s : Store) (p : Path) : Prop :=
  ∃ id, s.disk.stands (s.physical p) = some (.file id)

/-- The index of the directory above is there, if there is a directory above. -/
def IsReachable (s : Store) (p : Path) : Prop := p = .root ∨ s.HasIndex p.parent

/-- Nothing of a cache was taken back. -/
structure Grown (s t : Store) : Prop where
  root : t.root = s.root
  directories : ∀ l, s.root <+: l → s.disk.stands l = some .directory →
    t.disk.stands l = some .directory
  files : ∀ l, s.root <+: l → (∃ id, s.disk.stands l = some (.file id)) →
    ∃ id, t.disk.stands l = some (.file id)
  nextFile : s.disk.nextFile ≤ t.disk.nextFile
  bodies : ∀ id < s.disk.nextFile, t.disk.body? id = s.disk.body? id

namespace Grown
variable {s t u : Store} {p : Path}

theorem of_disk (hroot : t.root = s.root) (hdisk : t.disk = s.disk) : s.Grown t := by
  refine ⟨hroot, fun _ _ => ?_, fun _ _ => ?_, ?_, fun _ _ => ?_⟩ <;> rw [hdisk]
  · exact id
  · exact id

theorem physical (h : s.Grown t) (p : Path) : t.physical p = s.physical p := by
  unfold Store.physical
  rw [h.root]

theorem hasIndex (h : s.Grown t) (hindex : s.HasIndex p) : t.HasIndex p := by
  unfold HasIndex indexPlace
  rw [h.physical]
  exact h.files _ (s.root_prefix_indexPlace p) hindex

theorem isReachable (h : s.Grown t) (hreachable : s.IsReachable p) : t.IsReachable p :=
  hreachable.imp id h.hasIndex

theorem hasBody (h : s.Grown t) (hbody : s.HasBody p) : t.HasBody p := by
  unfold HasBody
  rw [h.physical]
  exact h.files _ (s.root_prefix_physical p) hbody

end Grown
end Store

namespace Origin

/-- The index of a directory of the origin. -/
def staticIndex (o : Origin) (d : Disk) (p : Path) : Index := .listing (listing d (o.source p))

/-- An origin that a store with an empty cache can be served from: a tree of files and directories
apart from the cache, with no directory declared dynamic and no index too long, under names that the
disk can carry, its files no longer than can be read and their times such as a listing can carry.
There is room to stage an index in the cache. -/
structure IsMirrorable (o : Origin) (s : Store) : Prop where
  static : o.dynamic = []
  tree : s.disk.IsTree o.place
  proper : s.disk.IsProper
  apart : Disk.Apart s.root o.place
  carried : ∀ l, o.place <+: l → s.disk.stands l ≠ none → ∀ n ∈ l, Disk.IsCarried n
  small : ∀ p place, o.itemAt? s.disk p = some (.directory place) →
    (o.staticIndex s.disk p).encode.length ≤ s.maxIndexBytes
  sizes : ∀ p b, o.itemAt? s.disk p = some (.file b) →
    b.content.length + Reading.chunkSize < Numeral.signedLimit
  times : ∀ p b, o.itemAt? s.disk p = some (.file b) →
    -2 ^ 63 ≤ b.mtime.seconds ∧ b.mtime.seconds < 2 ^ 63
  room : Disk.HasRoom s.root

/-- What stands on a disk is listed there, so it is enough to look at the list. -/
theorem isMirrorable_of_rows {o : Origin} {s : Store} (hstatic : o.dynamic = [])
    (htree : s.disk.IsTree o.place) (hproper : s.disk.IsProper)
    (hapart : Disk.Apart s.root o.place) (hroom : Disk.HasRoom s.root)
    (hcarried : ∀ row ∈ s.disk.objects, ∀ n ∈ row.1, Disk.IsCarried n)
    (hsmall : ∀ row ∈ s.disk.objects, o.place <+: row.1 →
      (Index.listing (listing s.disk row.1)).encode.length ≤ s.maxIndexBytes)
    (hbodies : ∀ row ∈ s.disk.bodies,
      row.2.content.length + Reading.chunkSize < Numeral.signedLimit ∧
        -2 ^ 63 ≤ row.2.mtime.seconds ∧ row.2.mtime.seconds < 2 ^ 63) : o.IsMirrorable s := by
  have hrow {l : Location} (hstands : s.disk.stands l ≠ none) :
      ∃ row ∈ s.disk.objects, row.1 = l := by
    obtain ⟨x, hx⟩ := Option.ne_none_iff_exists'.mp hstands
    obtain ⟨y, hat, -⟩ := Disk.stands_eq_some_iff.mp hx
    exact ⟨(l, y), Table.mem_of_get? hat, rfl⟩
  have hbody {p : Path} {b : Body} (hitem : o.itemAt? s.disk p = some (.file b)) :
      ∃ row ∈ s.disk.bodies, row.2 = b := by
    unfold itemAt? at hitem
    split at hitem
    · cases hitem
    · next id _ =>
        obtain ⟨c, hget, hc⟩ := Option.map_eq_some_iff.mp hitem
        cases hc
        exact ⟨(id, b), Table.mem_of_get? hget, rfl⟩
    · cases hitem
  refine ⟨hstatic, htree, hproper, hapart, fun l hl hstands => ?_, fun p place hitem => ?_,
    fun p b hitem => ?_, fun p b hitem => ?_, hroom⟩
  · obtain ⟨row, hmem, rfl⟩ := hrow hstands
    exact hcarried row hmem
  · obtain ⟨row, hmem, hplace⟩ := hrow (stands_of_itemAt? hitem)
    unfold staticIndex
    rw [← hplace]
    exact hsmall row hmem (hplace ▸ o.place_prefix_source p)
  · obtain ⟨row, hmem, rfl⟩ := hbody hitem
    exact (hbodies row hmem).1
  · obtain ⟨row, hmem, rfl⟩ := hbody hitem
    exact (hbodies row hmem).2

/-- The cache of `s` is a partial copy of what the origin had at the time of `s₀`. -/
structure Mirrors (o : Origin) (s₀ s : Store) : Prop extends s.IsTidy where
  root : s.root = s₀.root
  limit : s.maxIndexBytes = s₀.maxIndexBytes
  origin : Disk.Preserves o.place s₀.disk s.disk
  directory : ∀ p, p.IsConfined → s.disk.stands (s.physical p) = some .directory →
    ∃ place, o.itemAt? s₀.disk p = some (.directory place)
  body : ∀ p id, p.IsConfined → s.disk.stands (s.physical p) = some (.file id) →
    Disk.Fits (s.physical p) ∧ ∃ b c, o.itemAt? s₀.disk p = some (.file b) ∧
      s.disk.body? id = some c ∧ c.content = b.content ∧ c.mtime.seconds = b.mtime.seconds
  index : ∀ p id, p.IsConfined → s.disk.stands (s.indexPlace p) = some (.file id) →
    Disk.Fits (s.indexPlace p) ∧ ∃ t, s.disk.body? id = some ⟨(o.staticIndex s₀.disk p).encode, t⟩
  indexed : ∀ p n, IsSegment n → (p.extend n).IsConfined →
    s.disk.stands (s.physical (p.extend n)) ≠ none → s.HasIndex p
  known : ∀ p stamp index, s.indices.known.get? p = some (stamp, index) →
    index = o.staticIndex s₀.disk p

/-- Where the cache is looked into for an item: for a directory that is its index. -/
def seat (s : Store) (p : Path) : Item → Location
  | .directory _ => s.indexPlace p
  | .file _ => s.physical p

/-- The disk can carry the place of a path in the origin, and in the cache an index that is staged
in its place. -/
structure Indexable (o : Origin) (s₀ : Store) (p : Path) : Prop where
  source : Disk.Fits (o.source p)
  room : Disk.HasRoom (s₀.physical p)

/-- The disk can carry the index that declares an item, and the place that is looked into for it. -/
structure Within (o : Origin) (s₀ : Store) (p : Path) (x : Item) : Prop where
  above : Indexable o s₀ p.parent
  seat : Disk.Fits (seat s₀ p x)

/-- What the origin has at a path that was asked for is there. -/
structure Served (o : Origin) (s₀ s : Store) (p : Path) : Prop where
  index : ∀ place, o.itemAt? s₀.disk p = some (.directory place) → Indexable o s₀ p → s.HasIndex p
  body : ∀ b, o.itemAt? s₀.disk p = some (.file b) → Within o s₀ p (.file b) →
    Disk.Fits (o.source p) → s.HasBody p

variable {o : Origin} {s₀ s : Store} {p q : Path} {d : Disk}

theorem IsMirrorable.carried_source (h : o.IsMirrorable s) {x : Item}
    (hitem : o.itemAt? s.disk p = some x) : ∀ m ∈ o.source p, Disk.IsCarried m :=
  h.carried _ (o.place_prefix_source p) (stands_of_itemAt? hitem)

theorem IsMirrorable.isCarried (h : o.IsMirrorable s) {x : Item}
    (hitem : o.itemAt? s.disk p = some x) : p.IsCarried :=
  fun _ hn => h.carried_source hitem _ (List.mem_append_right _ (List.mem_map_of_mem hn))

theorem itemAt?_root (h : s.disk.IsTree o.place) :
    o.itemAt? s.disk .root = some (.directory o.place) := by
  have hsource : o.source .root = o.place := List.append_nil _
  have hitem := itemAt?_of_stands (o := o) (p := .root) (d := s.disk) (by
    rw [hsource]
    exact h.isDirectory)
  rwa [hsource] at hitem

/-- An empty cache mirrors any origin. -/
theorem mirrors_start (h : o.IsMirrorable s) (htree : s.disk.IsTree s.root)
    (hempty : ∀ row ∈ s.disk.objects, s.root <+: row.1 → row.1 = s.root)
    (hknown : s.indices.known = []) : Mirrors o s s := by
  have htop {l : Location} (hl : s.root <+: l) (hstands : s.disk.stands l ≠ none) : l = s.root :=
    Disk.eq_top_of_empty h.proper hempty hl hstands
  have hindex (p : Path) : s.disk.stands (s.indexPlace p) = none := by
    by_contra hstands
    have hlength := congrArg List.length (htop (s.root_prefix_indexPlace p) hstands)
    simp [Store.indexPlace, Store.physical] at hlength
  have hroot (p : Path) (hstands : s.disk.stands (s.physical p) ≠ none) : p = .root :=
    s.physical_injective (by rw [htop (s.root_prefix_physical p) hstands, s.physical_root])
  have hnone (p : Path) : s.disk.stands (s.indexPlace p) ≠ some .directory := by
    rw [hindex]
    intro h
    cases h
  have hroomy (p : Path) (id : FileId) (hfile : s.disk.stands (s.indexPlace p) = some (.file id)) :
      Disk.HasRoom (s.physical p) := by
    rw [hindex] at hfile
    cases hfile
  refine ⟨⟨htree, h.proper, hnone, hroomy⟩, rfl, rfl, .refl _ _, fun p _ hdir => ?_,
    fun p id _ hfile => ?_, fun p id _ hfile => ?_, fun p n hn _ hstands => ?_,
    fun p _ _ hrow => ?_⟩
  · rw [hroot p (Option.ne_none_iff_exists'.mpr ⟨_, hdir⟩)]
    exact ⟨_, itemAt?_root h.tree⟩
  · rw [hroot p (Option.ne_none_iff_exists'.mpr ⟨_, hfile⟩), s.physical_root,
      htree.isDirectory] at hfile
    cases hfile
  · rw [hindex] at hfile
    cases hfile
  · have hempty := congrArg Path.isRoot (hroot _ hstands)
    rw [p.isRoot_extend hn] at hempty
    cases hempty
  · rw [hknown] at hrow
    cases hrow

/-! ### Answers -/

/-- What an answer puts in the place of a copy. -/
theorem Added.of_physical (hq : q.IsConfined) (h : Added o s p d (s.physical q)) : q = p ∧
    ((∃ place, o.item? s.disk p = some (.directory place) ∧
        d.stands (s.physical p) = some .directory) ∨
      Disk.Fits (s.physical p) ∧ ∃ b id, o.item? s.disk p = some (.file b) ∧
        d.stands (s.physical p) = some (.file id) ∧
          d.body? id = some ⟨b.content, .ofSeconds b.mtime.seconds⟩) := by
  generalize hplace : s.physical q = l at h
  cases h with
  | copy hitem hdir => exact ⟨s.physical_injective hplace, .inl ⟨_, hitem, hdir⟩⟩
  | index hitem hfits hfile hbody => exact absurd hplace (Store.physical_ne_indexPlace hq p)
  | body hitem hfits hfile hbody =>
      exact ⟨s.physical_injective hplace, .inr ⟨hfits, _, _, hitem, hfile, hbody⟩⟩

/-- What an answer puts in the place of an index. -/
theorem Added.of_indexPlace (hp : p.IsConfined) (h : Added o s p d (s.indexPlace q)) : q = p ∧
    Disk.Fits (s.indexPlace p) ∧ ∃ place id t, o.item? s.disk p = some (.directory place) ∧
      d.stands (s.indexPlace p) = some (.file id) ∧
      d.body? id = some ⟨(o.indexOf s.disk p place).encode, t⟩ := by
  generalize hplace : s.indexPlace q = l at h
  cases h with
  | copy hitem hdir => exact absurd hplace.symm (Store.physical_ne_indexPlace hp q)
  | index hitem hfits hfile hbody =>
      exact ⟨s.indexPlace_injective hplace, hfits, _, _, _, hitem, hfile, hbody⟩
  | body hitem hfits hfile hbody => exact absurd hplace.symm (Store.physical_ne_indexPlace hp q)

namespace Mirrors

theorem treeOfOrigin (h : Mirrors o s₀ s) (hm : o.IsMirrorable s₀) : s.disk.IsTree o.place :=
  h.origin.tree hm.tree h.proper

/-- What the helper finds is what was there at the start. -/
theorem itemAt?_of_item? (h : Mirrors o s₀ s) (hm : o.IsMirrorable s₀) (hp : p.IsConfined)
    {x : Item} (hitem : o.item? s.disk p = some x) : o.itemAt? s₀.disk p = some x := by
  rw [← itemAt?_congr h.origin]
  exact (Origin.itemAt?_of_item? (h.treeOfOrigin hm) hp hitem).1

theorem indexOf_eq (h : Mirrors o s₀ s) (hm : o.IsMirrorable s₀) {place : Location}
    (hitem : o.itemAt? s₀.disk p = some (.directory place)) :
    o.indexOf s.disk p place = o.staticIndex s₀.disk p := by
  unfold indexOf staticIndex
  rw [hm.static, if_neg List.not_mem_nil, directory_of_itemAt? hitem,
    listing_congr h.origin hm.proper h.proper (o.place_prefix_source p)]

/-- Nothing is taken back by an answer. -/
theorem grown_of_adds (h : Mirrors o s₀ s) (hm : o.IsMirrorable s₀) (hp : p.IsConfined)
    (hadds : Adds o s p d) : s.Grown { s with disk := d } := by
  have hcopy {x : Item} (hitem : o.item? s.disk p = some x) :=
    h.itemAt?_of_item? hm hp hitem
  refine ⟨rfl, fun l hl hdir => ?_, fun l hl hfile => ?_, hadds.nextFile, hadds.bodies⟩
  · rcases hadds.stands l with hsame | hadded
    · exact hsame.trans hdir
    · cases hadded with
      | copy hitem hnew => exact hnew
      | index hitem hfits hnew hbody => exact absurd hdir (h.indices p)
      | body hitem hfits hnew hbody =>
          obtain ⟨place, hitem'⟩ := h.directory p hp hdir
          rw [hcopy hitem] at hitem'
          cases hitem'
  · rcases hadds.stands l with hsame | hadded
    · rw [← hsame] at hfile
      exact hfile
    · cases hadded with
      | copy hitem hnew =>
          obtain ⟨id, hid⟩ := hfile
          obtain ⟨-, b, -, hitem', -⟩ := h.body p id hp hid
          rw [hcopy hitem] at hitem'
          cases hitem'
      | index hitem hfits hnew hbody => exact ⟨_, hnew⟩
      | body hitem hfits hnew hbody => exact ⟨_, hnew⟩

theorem of_adds (h : Mirrors o s₀ s) (hm : o.IsMirrorable s₀) (hp : p.IsConfined)
    (hreachable : s.IsReachable p) (hadds : Adds o s p d)
    (htidy : ({ s with disk := d } : Store).IsTidy) : Mirrors o s₀ { s with disk := d } := by
  have hgrown := h.grown_of_adds hm hp hadds
  have hcopy {x : Item} (hitem : o.item? s.disk p = some x) :=
    h.itemAt?_of_item? hm hp hitem
  have hold {l : Location} {id : FileId} (hl : s.root <+: l)
      (hfile : s.disk.stands l = some (.file id)) : d.body? id = s.disk.body? id :=
    hadds.bodies id (h.tree.filed l id hl hfile).1
  refine ⟨htidy, h.root, h.limit, ?_, fun q hq hdir => ?_,
    fun q id hq hfile => ?_, fun q id hq hfile => ?_, fun q n hn hq hstands => ?_, h.known⟩
  · have hapart : Disk.Apart s.root o.place := h.root ▸ hm.apart
    exact h.origin.trans (hadds.preserves (h.treeOfOrigin hm) hapart)
  · rcases hadds.stands (s.physical q) with hsame | hadded
    · exact h.directory q hq (hsame ▸ hdir)
    · obtain ⟨rfl, ⟨place, hitem, -⟩ | ⟨-, b, id, -, hfile, -⟩⟩ := hadded.of_physical hq
      · exact ⟨place, hcopy hitem⟩
      · change d.stands (s.physical q) = _ at hdir
        rw [hfile] at hdir
        cases hdir
  · change d.stands (s.physical q) = _ at hfile
    rcases hadds.stands (s.physical q) with hsame | hadded
    · rw [hsame] at hfile
      obtain ⟨hfits, b, c, hitem, hbody, hcontent, htime⟩ := h.body q id hq hfile
      exact ⟨hfits, b, c, hitem, (hold (s.root_prefix_physical q) hfile).trans hbody, hcontent,
        htime⟩
    · obtain ⟨rfl, ⟨place, -, hdir⟩ | ⟨hfits, b, id', hitem, hfile', hbody⟩⟩ :=
        hadded.of_physical hq
      · rw [hdir] at hfile
        cases hfile
      · rw [hfile'] at hfile
        cases hfile
        exact ⟨hfits, b, _, hcopy hitem, hbody, rfl, rfl⟩
  · change d.stands (s.indexPlace q) = _ at hfile
    rcases hadds.stands (s.indexPlace q) with hsame | hadded
    · rw [hsame] at hfile
      obtain ⟨hfits, t, hbody⟩ := h.index q id hq hfile
      exact ⟨hfits, t, (hold (s.root_prefix_indexPlace q) hfile).trans hbody⟩
    · obtain ⟨rfl, hfits, place, id', t, hitem, hfile', hbody⟩ := hadded.of_indexPlace hp
      rw [hfile'] at hfile
      cases hfile
      rw [h.indexOf_eq hm (hcopy hitem)] at hbody
      exact ⟨hfits, t, hbody⟩
  · change d.stands (s.physical (q.extend n)) ≠ none at hstands
    refine hgrown.hasIndex ?_
    rcases hadds.stands (s.physical (q.extend n)) with hsame | hadded
    · exact h.indexed q n hn hq (hsame ▸ hstands)
    · obtain ⟨heq, -⟩ := hadded.of_physical hq
      rw [← heq] at hreachable
      rcases hreachable with hroot | hindex
      · have hempty := congrArg Path.isRoot hroot
        rw [q.isRoot_extend hn] at hempty
        cases hempty
      · rwa [q.parent_extend hn] at hindex

/-- What stands in the place of a copy is what the origin has. -/
theorem copy_cases (h : Mirrors o s₀ s) (hp : p.IsConfined) {x : Item}
    (hitem : o.itemAt? s₀.disk p = some x) : s.disk.stands (s.physical p) = none ∨
      (∃ place, x = .directory place ∧ s.disk.stands (s.physical p) = some .directory) ∨
      ∃ b id, x = .file b ∧ s.disk.stands (s.physical p) = some (.file id) := by
  cases hstands : s.disk.stands (s.physical p) with
  | none => exact .inl rfl
  | some y =>
      rcases h.tree.plain _ y (s.root_prefix_physical p) hstands with rfl | ⟨id, rfl⟩
      · obtain ⟨place, hdir⟩ := h.directory p hp hstands
        cases hitem.symm.trans hdir
        exact .inr (.inl ⟨place, rfl, rfl⟩)
      · obtain ⟨-, b, -, hfile, -⟩ := h.body p id hp hstands
        cases hitem.symm.trans hfile
        exact .inr (.inr ⟨b, id, rfl, rfl⟩)

/-- A directory that has its index is there. -/
theorem directory_of_hasIndex (h : Mirrors o s₀ s) (hindex : s.HasIndex p) :
    s.disk.stands (s.physical p) = some .directory := by
  obtain ⟨id, hid⟩ := hindex
  exact h.tree.parent _ Store.indexName (s.root_prefix_physical p) (by
    change s.disk.stands (s.indexPlace p) ≠ none
    rw [hid]
    nofun)

theorem isHoused_of_isReachable (h : Mirrors o s₀ s) (hreachable : s.IsReachable p) :
    s.IsHoused p := by
  rcases p.eq_root_or_extend with rfl | ⟨q, n, hn, rfl⟩
  · exact .inl rfl
  · refine hreachable.imp id fun hindex => ?_
    rw [q.parent_extend hn] at hindex
    rw [s.physical_dropLast_extend q hn]
    exact h.directory_of_hasIndex hindex

theorem physical_eq (h : Mirrors o s₀ s) (p : Path) : s.physical p = s₀.physical p := by
  unfold Store.physical
  rw [h.root]

theorem fits_physical (h : Mirrors o s₀ s) {x : Item} (hwithin : Within o s₀ p x) :
    Disk.Fits (s.physical p) := by
  rw [h.physical_eq]
  cases x with
  | directory place => exact hwithin.seat.of_append
  | file b => exact hwithin.seat

theorem fits_indexPlace (h : Mirrors o s₀ s) {place : Location}
    (hwithin : Within o s₀ p (.directory place)) : Disk.Fits (s.indexPlace p) := by
  unfold Store.indexPlace
  rw [h.physical_eq]
  exact hwithin.seat

theorem hasRoom_above (h : Mirrors o s₀ s) {x : Item} (hwithin : Within o s₀ p x)
    (hne : p ≠ .root) : Disk.HasRoom (s.physical p).dropLast := by
  obtain hroot | ⟨q, n, hn, rfl⟩ := p.eq_root_or_extend
  · exact absurd hroot hne
  · have hroom := hwithin.above.room
    rw [q.parent_extend hn, ← h.physical_eq] at hroom
    rwa [s.physical_dropLast_extend q hn]

/-- An answer for a path that the walk can reach keeps the mirror, takes nothing back and leaves
what was asked for. -/
theorem answer (h : Mirrors o s₀ s) (hm : o.IsMirrorable s₀) (hp : p.IsConfined)
    (hreachable : s.IsReachable p) : Mirrors o s₀ (o.answer s p).1 ∧ s.Grown (o.answer s p).1 ∧
      Served o s₀ (o.answer s p).1 p := by
  have htidy := tidy_answer (o := o) h.toIsTidy hp
  have hhoused := h.isHoused_of_isReachable hreachable
  have hroot (b : Body) : o.item? s.disk .root ≠ some (.file b) := fun hitem => by
    have hfile := h.itemAt?_of_item? hm Path.IsConfined.root hitem
    rw [itemAt?_root hm.tree] at hfile
    cases hfile
  have hadds := adds_answer h.toIsTidy hp hhoused hroot
  have hgrown := h.grown_of_adds hm hp hadds
  have hmirrors := h.of_adds hm hp hreachable hadds (by rwa [← answer_fst])
  rw [← answer_fst] at hgrown hmirrors
  have hfound {x : Item} (hitem : o.itemAt? s₀.disk p = some x) (hfits : Disk.Fits (o.source p)) :
      o.item? s.disk p = some x := by
    refine item?_of_itemAt? (h.treeOfOrigin hm) (hm.carried_source hitem) hfits ?_
    rw [itemAt?_congr h.origin, hitem]
  refine ⟨hmirrors, hgrown, fun place hitem hindexable => ?_,
    fun b hitem hwithin hfits => ?_⟩
  · have hroom := hindexable.room
    rw [← h.physical_eq] at hroom
    have hindexed := indexed_answer h.toIsTidy hhoused (hm.isCarried hitem) hroom
      (hfound hitem hindexable.source) fun id hfile => by
        obtain ⟨-, b, -, hother, -⟩ := h.body p id hp hfile
        cases hitem.symm.trans hother
    unfold Store.HasIndex Store.indexPlace
    rw [physical_answer]
    exact hindexed
  · have hne : p ≠ .root := by
      rintro rfl
      exact hroot b (hfound hitem hfits)
    have hcopied := copied_answer h.toIsTidy hp (hm.isCarried hitem) (hhoused.resolve_left hne)
      (h.fits_physical hwithin) (h.hasRoom_above hwithin hne) (hfound hitem hfits) fun hdir => by
        obtain ⟨place, hother⟩ := h.directory p hp hdir
        cases hitem.symm.trans hother
    unfold Store.HasBody
    rw [physical_answer]
    exact hcopied

/-! ### What is told of a place -/

/-- Where something is told of, it is what the origin has, with its size and its time. -/
theorem of_stat (h : Mirrors o s₀ s) (hm : o.IsMirrorable s₀) (hp : p.IsConfined) {x : Item}
    (hitem : o.itemAt? s₀.disk p = some x) {found : Option PhysicalEntry}
    (hstat : s.stat p = .ok found) :
    found = none ∨ (∃ place e, x = .directory place ∧ found = some e ∧ e.kind = .directory) ∨
      ∃ b id, x = .file b ∧ found = some ⟨.file, b.content.length, b.mtime.seconds, some id⟩ ∧
        s.disk.stands (s.physical p) = some (.file id) := by
  cases found with
  | none => exact .inl rfl
  | some e =>
      right
      obtain ⟨q, y, hfind, rfl⟩ := Store.stat_eq_some_iff.mp hstat
      obtain ⟨-, hat, -⟩ := h.tree.find_place (s.root_prefix_physical p)
        (Store.carried_physical h.tree.carried (hm.isCarried hitem)) hfind
      have hstands := Disk.stands_of_at? hat
      rcases h.copy_cases hp hitem with hnone | ⟨place, rfl, hdir⟩ | ⟨b, id, rfl, hfile⟩
      · rw [hnone] at hstands
        cases hstands
      · rw [hdir] at hstands
        cases y with
        | directory t => exact .inl ⟨place, _, rfl, rfl, rfl⟩
        | file | link | pipe => cases hstands
      · rw [Disk.stands_eq_file_iff.mp hfile] at hat
        cases hat
        obtain ⟨-, b', c, hitem', hbody, hcontent, htime⟩ := h.body p id hp hfile
        cases hitem.symm.trans hitem'
        refine .inr ⟨b, id, rfl, ?_, hfile⟩
        simp only [Store.entryOf, hbody, hcontent, htime]

/-- A place that the disk can carry can be looked at. -/
theorem exists_stat (h : Mirrors o s₀ s) (hm : o.IsMirrorable s₀) {x : Item}
    (hitem : o.itemAt? s₀.disk p = some x) (hwithin : Within o s₀ p x) :
    ∃ found, s.stat p = .ok found :=
  ⟨_, Store.stat_of_tree h.tree (hm.isCarried hitem) (h.fits_physical hwithin)⟩

/-! ### What is told of an index -/

theorem decode_staticIndex (hm : o.IsMirrorable s₀) (p : Path) :
    Index.decode (o.staticIndex s₀.disk p).encode = .ok (o.staticIndex s₀.disk p) :=
  Index.decode_encode fun entries hindex => by
    cases hindex
    exact isListing_listing hm.proper _

/-- An index that is told of is that of the origin. -/
theorem of_index? (h : Mirrors o s₀ s) (hm : o.IsMirrorable s₀) (hp : p.IsConfined)
    (hcarried : p.IsCarried) {index : Index} (htold : s.index? p = .ok (some index)) :
    index = o.staticIndex s₀.disk p ∧ s.HasIndex p := by
  rw [Store.index?_eq] at htold
  unfold Store.report at htold
  split at htold
  · split at htold <;> cases htold
  · next place id hfind =>
      have hat := (h.tree.find_place (s.root_prefix_indexPlace p)
        (Store.carried_indexPlace h.tree.carried hcarried) hfind).2.1
      have hstands : s.disk.stands (s.indexPlace p) = some (.file id) :=
        Disk.stands_eq_file_iff.mpr hat
      refine ⟨?_, id, hstands⟩
      obtain ⟨-, t, hbody⟩ := h.index p id hp hstands
      rw [hbody] at htold
      have hdecoded (hdecoded : s.decoded p ⟨(o.staticIndex s₀.disk p).encode, t⟩ =
          .ok (some index)) : index = o.staticIndex s₀.disk p := by
        unfold Store.decoded Store.refusal at hdecoded
        split at hdecoded
        · cases hdecoded
        · dsimp only at hdecoded
          rw [decode_staticIndex hm p] at hdecoded
          cases hdecoded
          rfl
      dsimp only at htold
      split at htold
      · next stamp known hrow =>
          split at htold
          · cases htold
            exact h.known p stamp index hrow
          · exact hdecoded htold
      · exact hdecoded htold
  · cases htold

/-- What is held of a directory of the origin: nothing, or its index. -/
theorem of_held (h : Mirrors o s₀ s) (hm : o.IsMirrorable s₀) (hp : p.IsConfined)
    {place : Location} (hitem : o.itemAt? s₀.disk p = some (.directory place)) {held : Peeked}
    (hheld : s.held p = .ok held) :
    held = .absent ∨ held = .index (o.staticIndex s₀.disk p) ∧ s.HasIndex p := by
  have hcarried := hm.isCarried hitem
  obtain ⟨found, hstat, hof⟩ := bind_eq_ok_iff.mp hheld
  rcases h.of_stat hm hp hitem hstat with rfl | ⟨-, e, -, rfl, hkind⟩ | ⟨b, -, hfile, -⟩
  · cases hof
    exact .inl rfl
  · unfold Peeked.of at hof
    dsimp only at hof
    rw [if_pos hkind] at hof
    rcases htold : s.index? p with fault | _ | index <;> rw [htold] at hof <;> cases hof
    · exact .inl rfl
    · obtain ⟨rfl, hindex⟩ := h.of_index? hm hp hcarried htold
      exact .inr ⟨rfl, hindex⟩
  · cases hfile

theorem held_of_hasIndex (h : Mirrors o s₀ s) (hm : o.IsMirrorable s₀) (hp : p.IsConfined)
    (hindex : s.HasIndex p) : s.held p = .ok (.index (o.staticIndex s₀.disk p)) := by
  have hdir := h.directory_of_hasIndex hindex
  obtain ⟨place, hitem⟩ := h.directory p hp hdir
  have hcarried := hm.isCarried hitem
  obtain ⟨id, hid⟩ := hindex
  obtain ⟨hfits, t, hbody⟩ := h.index p id hp hid
  have hsmall : (o.staticIndex s₀.disk p).encode.length ≤ s.maxIndexBytes :=
    h.limit ▸ hm.small p place hitem
  rw [Store.held_of_directory h.tree hcarried hfits.of_append hdir]
  rcases Store.index?_of_file h.tree hcarried hfits hid hbody hsmall (decode_staticIndex hm p) with
    htold | ⟨known, hrow, htold⟩ <;> rw [htold]
  · rfl
  · rw [h.known p _ known hrow]
    rfl

/-- A directory of the origin can be looked into, if the disk can carry its path. -/
theorem exists_held (h : Mirrors o s₀ s) (hm : o.IsMirrorable s₀) (hp : p.IsConfined)
    {place : Location} (hitem : o.itemAt? s₀.disk p = some (.directory place))
    (hwithin : Within o s₀ p (.directory place)) : ∃ held, s.held p = .ok held := by
  have hcarried := hm.isCarried hitem
  have hfits := h.fits_indexPlace hwithin
  by_cases hindex : s.HasIndex p
  · exact ⟨_, h.held_of_hasIndex hm hp hindex⟩
  · rcases h.copy_cases hp hitem with hnone | ⟨-, -, hdir⟩ | ⟨b, id, hfile, -⟩
    · exact ⟨_, Store.held_of_free h.tree hcarried hfits.of_append hnone⟩
    · have hfree : s.disk.stands (s.indexPlace p) = none := by
        by_contra hstands
        obtain ⟨x, hx⟩ := Option.ne_none_iff_exists'.mp hstands
        rcases h.tree.plain _ x (s.root_prefix_indexPlace p) hx with rfl | ⟨id, rfl⟩
        · exact h.indices p hx
        · exact hindex ⟨id, hx⟩
      rw [Store.held_of_directory h.tree hcarried hfits.of_append hdir,
        Store.index?_of_free h.tree hcarried hfits hfree]
      exact ⟨_, rfl⟩
    · cases hfile

/-- Reading an index keeps the mirror. -/
theorem readIndex (h : Mirrors o s₀ s) (hm : o.IsMirrorable s₀) (hp : p.IsConfined)
    (hcarried : p.IsCarried) : Mirrors o s₀ (s.readIndex p).1 ∧ s.Grown (s.readIndex p).1 := by
  have hrow {q : Path} {stamp : Stamp} {index : Index}
      (hrow : (s.readIndex p).1.indices.known.get? q = some (stamp, index)) :
      index = o.staticIndex s₀.disk q := by
    rcases Store.row_readIndex hrow with hold | ⟨rfl, place, id, body, hfind, hbody, hdecode, -⟩
    · exact h.known q stamp index hold
    · obtain ⟨-, hat, -⟩ := h.tree.find_place (s.root_prefix_indexPlace q)
        (Store.carried_indexPlace h.tree.carried hcarried) hfind
      obtain ⟨-, t, hbody'⟩ := h.index q id hp (Disk.stands_eq_file_iff.mpr hat)
      cases hbody.symm.trans hbody'
      rw [decode_staticIndex hm q] at hdecode
      cases hdecode
      rfl
  obtain ⟨indices, hread, -, -⟩ := s.readIndex_effect p
  rw [hread] at hrow ⊢
  exact ⟨⟨⟨h.tree, h.proper, h.indices, h.roomy⟩, h.root, h.limit, h.origin, h.directory, h.body,
    h.index, h.indexed, fun q stamp index => hrow⟩, .of_disk rfl rfl⟩

end Mirrors
end Origin
end OnDemandFs
