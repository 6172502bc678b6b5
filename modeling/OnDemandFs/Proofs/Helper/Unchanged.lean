import OnDemandFs.Proofs.Helper.Additions

/-!
# An origin that does not change

As long as only the cache is written to, a tree that lies apart from it keeps its objects and the
bodies of its files. So what an origin has at a path, and the listing of each of its directories,
stay what they were; the listing is in the order of the names, and has just the children that an
index can carry.
-/
namespace OnDemandFs

/-- The objects of a tree and on the way to it are what they were, and so are the bodies of its
files. -/
structure Disk.Preserves (top : Location) (d d' : Disk) : Prop where
  objects : ∀ l, top <+: l ∨ l <+: top → d'.at? l = d.at? l
  nextFile : d.nextFile ≤ d'.nextFile
  bodies : ∀ l id, top <+: l → d.at? l = some (.file id) → d'.body? id = d.body? id

namespace Disk.Preserves
variable {top l : Location} {d d' d'' : Disk}

theorem refl (top : Location) (d : Disk) : Preserves top d d :=
  ⟨fun _ _ => rfl, Nat.le_refl _, fun _ _ _ _ => rfl⟩

theorem trans (h : Preserves top d d') (h' : Preserves top d' d'') : Preserves top d d'' := by
  refine ⟨fun l hl => ?_, Nat.le_trans h.nextFile h'.nextFile, fun l id hl hfile => ?_⟩
  · rw [h'.objects l hl, h.objects l hl]
  · have hfile' : d'.at? l = some (.file id) := by rw [h.objects l (.inl hl), hfile]
    rw [h'.bodies l id hl hfile', h.bodies l id hl hfile]

theorem tree (h : Preserves top d d') (htree : d.IsTree top) (hproper : d'.IsProper) :
    d'.IsTree top := by
  refine htree.elsewhere ⟨fun l hl => ?_, h.nextFile, fun l id hl hfile => ?_, hproper⟩
  · rw [Disk.stands, Disk.stands, h.objects l hl]
  · exact h.bodies l id hl (Disk.stands_eq_file_iff.mp hfile)

end Disk.Preserves

/-- Neither of two places lies in the other. -/
structure Disk.Apart (l l' : Location) : Prop where
  below : ¬ l <+: l'
  above : ¬ l' <+: l

theorem Disk.Apart.not_prefix {top base l : Location} (h : Disk.Apart top base)
    (hl : base <+: l ∨ l <+: base) : ¬ top <+: l := by
  intro htop
  rcases hl with hl | hl
  · rcases List.prefix_or_prefix_of_prefix htop hl with hbelow | habove
    · exact h.below hbelow
    · exact h.above habove
  · exact h.below (htop.trans hl)

namespace Origin
variable {o : Origin} {s : Store} {d d' : Disk} {p : Path} {n : String} {e : Entry} {l : Location}

/-- An answer leaves the origin alone. -/
theorem Adds.preserves {top : Location} (h : Adds o s p d) (htree : s.disk.IsTree top)
    (hapart : Disk.Apart s.root top) : Disk.Preserves top s.disk d := by
  refine ⟨fun l hl => h.outside l (hapart.not_prefix hl), h.nextFile, fun l id hl hfile => ?_⟩
  exact h.bodies id (htree.filed l id hl (Disk.stands_eq_file_iff.mpr hfile)).1

/-! ### What it has at a path -/

/-- What stands at the place that a path spells in the origin. -/
def itemAt? (o : Origin) (d : Disk) (p : Path) : Option Item :=
  match d.at? (o.source p) with
  | some (.directory _) => some (.directory (o.source p))
  | some (.file id) => (d.body? id).map .file
  | _ => none

theorem place_prefix_source (o : Origin) (p : Path) : o.place <+: o.source p :=
  List.prefix_append _ _

theorem source_extend (o : Origin) (p : Path) (hn : IsSegment n) :
    o.source (p.extend n) = o.source p ++ [Utf8.encode n] := by
  unfold source
  rw [p.names_extend_of_isSegment hn, List.map_append, List.append_assoc]
  rfl

theorem itemAt?_of_stands (h : d.stands (o.source p) = some .directory) :
    o.itemAt? d p = some (.directory (o.source p)) := by
  obtain ⟨x, hat, hx⟩ := Disk.stands_eq_some_iff.mp h
  unfold itemAt?
  rw [hat]
  cases x with
  | directory t => rfl
  | file | link | pipe => cases hx

theorem stands_of_itemAt? {x : Item} (h : o.itemAt? d p = some x) :
    d.stands (o.source p) ≠ none := by
  intro hnone
  unfold itemAt? at h
  rw [Disk.stands_eq_none_iff.mp hnone] at h
  cases h

theorem directory_of_itemAt? {place : Location} (h : o.itemAt? d p = some (.directory place)) :
    place = o.source p := by
  unfold itemAt? at h
  split at h
  · cases h
    rfl
  · obtain ⟨b, -, hb⟩ := Option.map_eq_some_iff.mp h
    cases hb
  · cases h

theorem itemAt?_congr (h : Disk.Preserves o.place d d') (p : Path) :
    o.itemAt? d' p = o.itemAt? d p := by
  have hplace := o.place_prefix_source p
  unfold itemAt?
  rw [h.objects _ (.inl hplace)]
  cases hat : d.at? (o.source p) with
  | none => rfl
  | some x =>
      cases x with
      | file id =>
          dsimp only
          rw [h.bodies _ id hplace hat]
      | directory | link | pipe => rfl

/-- What the helper finds is what stands at the place. -/
theorem itemAt?_of_item? {x : Item} (htree : d.IsTree o.place) (hp : p.IsConfined)
    (h : o.item? d p = some x) : o.itemAt? d p = some x ∧ Disk.Fits (o.source p) := by
  have hcarried : ∀ m ∈ o.source p, Disk.IsCarried m := by
    intro m hm
    rcases List.mem_append.mp hm with hm | hm
    · exact htree.carried m hm
    · obtain ⟨n, hn, rfl⟩ := List.mem_map.mp hm
      exact isCarried_of_item hp h n hn
  cases x with
  | directory place =>
      obtain ⟨t, hfind⟩ := find_of_item_directory h
      obtain ⟨rfl, hat, hfits⟩ := htree.find_place (o.place_prefix_source p) hcarried hfind
      rw [itemAt?, hat]
      exact ⟨rfl, hfits⟩
  | file b =>
      obtain ⟨q, id, hfind, hbody⟩ := find_of_item_file h
      obtain ⟨rfl, hat, hfits⟩ := htree.find_place (o.place_prefix_source p) hcarried hfind
      rw [itemAt?, hat]
      refine ⟨?_, hfits⟩
      dsimp only
      rw [hbody]
      rfl

/-- On paths that are short enough the helper finds what stands there. -/
theorem item?_of_itemAt? {x : Item} (htree : d.IsTree o.place)
    (hcarried : ∀ m ∈ o.source p, Disk.IsCarried m) (hfits : Disk.Fits (o.source p))
    (h : o.itemAt? d p = some x) : o.item? d p = some x := by
  unfold itemAt? at h
  cases hat : d.at? (o.source p) with
  | none =>
      rw [hat] at h
      cases h
  | some y =>
      rw [hat] at h
      unfold item?
      rw [htree.find_of_at? (o.place_prefix_source p) hcarried hfits hat true]
      cases y with
      | directory t => exact h
      | file id => exact h
      | link | pipe => cases h

/-! ### Its listings -/

theorem mem_listing_iff_at? (hproper : d.IsProper) : e ∈ listing d l ↔
    ∃ x, d.at? (l ++ [Utf8.encode e.name]) = some x ∧
      entryOf d (Utf8.encode e.name, x) = some e := by
  rw [mem_listing_iff]
  constructor
  · intro h
    obtain ⟨n, x, hmem, hentry⟩ := h
    obtain ⟨rfl, -⟩ := entryOf_eq_some hentry
    exact ⟨x, (Disk.mem_children_iff_at? hproper).mp hmem, hentry⟩
  · intro h
    obtain ⟨x, hat, hentry⟩ := h
    exact ⟨_, x, (Disk.mem_children_iff_at? hproper).mpr hat, hentry⟩

/-- A listing is in the order of the names, and no name stands in it twice. -/
theorem sorted_listing (hproper : d.IsProper) (l : Location) :
    (listing d l).Pairwise fun e e' => e.name < e'.name := by
  have hle : (listing d l).Pairwise fun e e' => e.name ≤ e'.name := by
    have hsorted := @List.pairwise_mergeSort Entry (fun a b => decide (a.name ≤ b.name))
      (fun a b c hab hbc => by
        simp only [decide_eq_true_eq] at hab hbc ⊢
        exact String.le_trans hab hbc)
      (fun a b => by simpa using String.le_total a.name b.name)
      ((d.children l).filterMap (entryOf d))
    exact hsorted.imp fun h => of_decide_eq_true h
  have hne : (listing d l).Pairwise fun e e' => e.name ≠ e'.name :=
    List.pairwise_map.mp (isListing_listing hproper l).nodup
  exact (hle.and hne).imp fun h => Std.lt_of_le_of_ne h.1 h.2

theorem entryOf_congr {child : Name × Object}
    (h : ∀ id, child.2 = .file id → d'.body? id = d.body? id) :
    entryOf d' child = entryOf d child := by
  obtain ⟨n, x⟩ := child
  cases x with
  | file id =>
      unfold entryOf
      dsimp only
      rw [h id rfl]
  | directory | link | pipe => rfl

theorem listing_congr {top : Location} (h : Disk.Preserves top d d') (hproper : d.IsProper)
    (hproper' : d'.IsProper) (hl : top <+: l) : listing d' l = listing d l := by
  have hmem (e : Entry) : e ∈ listing d' l ↔ e ∈ listing d l := by
    have hbelow : top <+: l ++ [Utf8.encode e.name] := hl.trans (List.prefix_append _ _)
    rw [mem_listing_iff_at? hproper, mem_listing_iff_at? hproper', h.objects _ (.inl hbelow)]
    refine exists_congr fun x => and_congr_right fun hat => ?_
    rw [entryOf_congr]
    rintro id rfl
    exact h.bodies _ id hbelow hat
  have hsorted := sorted_listing hproper l
  have hsorted' := sorted_listing hproper' l
  have hnodup {entries : List Entry} (hlisting : IsListing entries) : entries.Nodup :=
    .of_map _ hlisting.nodup
  have hperm : (listing d' l).Perm (listing d l) :=
    (List.perm_ext_iff_of_nodup (hnodup (isListing_listing hproper' l))
      (hnodup (isListing_listing hproper l))).mpr hmem
  exact hperm.eq_of_pairwise
    (fun e e' _ _ hlt hgt => absurd (String.lt_trans hlt hgt) (String.lt_irrefl _)) hsorted' hsorted

theorem entryOf_encode (hn : IsEntryName n) (x : Object) : entryOf d (Utf8.encode n, x) =
    match x with
    | .directory t => some ⟨.directory, 0, .ofInt t.seconds, n⟩
    | .file id => (d.body? id).map fun b =>
        ⟨.file, .ofNat b.content.length, .ofInt b.mtime.seconds, n⟩
    | _ => none := by
  unfold entryOf
  dsimp only
  rw [Utf8.decode_encode]
  dsimp only
  rw [if_neg (not_not.mpr hn)]
  cases x with
  | file id =>
      dsimp only
      cases d.body? id <;> rfl
  | directory | link | pipe => rfl

/-- The entry of a listing says of what is there what a client has to know. -/
structure Item.Declares (x : Item) (e : Entry) : Prop where
  kind : e.kind = x.kind
  file : ∀ b, x = .file b →
    e.size = .ofNat b.content.length ∧ e.mtime = .ofInt b.mtime.seconds

/-- An index declares a child if and only if the origin has something there that can be served. -/
theorem declares_of_find? (hproper : d.IsProper)
    (h : (Index.listing (listing d (o.source p))).find? n = some e) :
    IsEntryName n ∧ ∃ x, o.itemAt? d (p.extend n) = some x ∧ x.Declares e := by
  have hlisting := isListing_listing hproper (o.source p)
  obtain ⟨hmem, rfl⟩ := (Index.find?_eq_some_iff hlisting).mp h
  have hname := hlisting.names e hmem
  obtain ⟨y, hat, hentry⟩ := (mem_listing_iff_at? hproper).mp hmem
  refine ⟨hname, ?_⟩
  rw [itemAt?, o.source_extend p hname.isSegment, hat]
  rw [entryOf_encode hname] at hentry
  cases y with
  | directory t =>
      rw [← Option.some.inj hentry]
      exact ⟨_, rfl, rfl, nofun⟩
  | file id =>
      obtain ⟨b, hbody, heq⟩ := Option.map_eq_some_iff.mp hentry
      dsimp only
      rw [hbody, ← heq]
      refine ⟨_, rfl, rfl, fun b' hb' => ?_⟩
      cases hb'
      exact ⟨rfl, rfl⟩
  | link | pipe => cases hentry

theorem find?_of_itemAt? {x : Item} (hproper : d.IsProper) (hn : IsEntryName n)
    (h : o.itemAt? d (p.extend n) = some x) :
    ∃ e, (Index.listing (listing d (o.source p))).find? n = some e := by
  have hfind (e : Entry) {y : Object}
      (hat : d.at? (o.source p ++ [Utf8.encode n]) = some y)
      (hentry : entryOf d (Utf8.encode n, y) = some e) (hname : e.name = n) :
      ∃ e, (Index.listing (listing d (o.source p))).find? n = some e := by
    subst hname
    exact ⟨e, (Index.find?_eq_some_iff (isListing_listing hproper _)).mpr
      ⟨(mem_listing_iff_at? hproper).mpr ⟨y, hat, hentry⟩, rfl⟩⟩
  rw [itemAt?, o.source_extend p hn.isSegment] at h
  cases hat : d.at? (o.source p ++ [Utf8.encode n]) with
  | none =>
      rw [hat] at h
      cases h
  | some y =>
      rw [hat] at h
      cases y with
      | directory t => exact hfind _ hat (entryOf_encode hn _) rfl
      | file id =>
          obtain ⟨b, hbody, -⟩ := Option.map_eq_some_iff.mp h
          refine hfind ⟨.file, .ofNat b.content.length, .ofInt b.mtime.seconds, n⟩ hat ?_ rfl
          rw [entryOf_encode hn]
          dsimp only
          rw [hbody]
          rfl
      | link | pipe => cases h

end Origin
end OnDemandFs
