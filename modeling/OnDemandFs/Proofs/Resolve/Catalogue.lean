import OnDemandFs.Proofs.Helper.Answers
import OnDemandFs.Proofs.Resolve.Frugal
import OnDemandFs.Proofs.Resolve.Listed
import OnDemandFs.Proofs.Resolve.Queries
import OnDemandFs.Proofs.Text.Ascii
import Mathlib.Order.Basic
import Mathlib.Data.String.Basic

/-!
# What a listing contains

The children of a directory come from its index or from the disk, and both may hold anything; the
names of the root may be taken by the built-in entries. A listing contains none twice all the same.
`Catalogue` says what it contains in which order, and that names, paths and numbers go together one
to one.

A helper may do what it likes to the cache while the directory is asked for. What comes of it is
still a cache on a disk, where names are such as file systems have them, and no number is taken
back: that is `Helper.IsLawful`. The listing is then the one of the cache that it leaves.
-/
namespace OnDemandFs

namespace Disk

/-- A name that a file system can give to an entry of a directory. -/
structure IsFileName (n : Name) : Prop extends IsPlainName n where
  slash_free : slash ∉ n
  nul_free : 0 ∉ n

theorem isFileName_iff {n : Name} :
    IsFileName n ↔ n ≠ [] ∧ n ≠ here ∧ n ≠ above ∧ slash ∉ n ∧ 0 ∉ n :=
  ⟨fun h => ⟨h.ne_nil, h.ne_here, h.ne_above, h.slash_free, h.nul_free⟩,
    fun ⟨hnil, hhere, habove, hslash, hnul⟩ => ⟨⟨hnil, hhere, habove⟩, hslash, hnul⟩⟩

instance (n : Name) : Decidable (IsFileName n) := decidable_of_iff' _ isFileName_iff

/-- Each place is there once, under a name that a file system can give. -/
structure IsNamed (d : Disk) : Prop where
  keys : d.objects.keys.Nodup
  names : ∀ row ∈ d.objects, ∀ n ∈ row.1.getLast?, IsFileName n

theorem IsNamed.isProper {d : Disk} (h : d.IsNamed) : d.IsProper := by
  refine ⟨h.keys, fun row hrow hlast => ?_⟩
  exact (h.names row hrow above hlast).ne_above rfl

end Disk

/-- A cache on a disk, whatever it holds; the remembered listings were decoded. -/
structure View.IsLawful (v : View) : Prop where
  valid : v.store.indices.Valid
  disk : v.store.disk.IsNamed

/-- Whatever a helper does to the cache, it leaves a cache on a disk, and no number that was given
out is taken back. -/
structure Helper.IsLawful (helper : Helper View) : Prop where
  view (asked : List Path) (p : Path) {v : View} (hv : v.IsLawful) : (helper asked p v).1.IsLawful
  shown (asked : List Path) (p : Path) (v : View) :
    v.identities.shown <+: (helper asked p v).1.identities.shown

/-- What helpers keep, and reading an index and giving out a number keep, holds at the end of every
operation. -/
theorem Plan.run_keeps {α : Type} {I : View → Prop} {helper : Helper View}
    (hhelper : ∀ asked p v, I v → I (helper asked p v).1)
    (hread : ∀ v dir, I v → I { v with store := (v.store.readIndex dir).1 })
    (hnumber : ∀ v p, I v → I (Resolver.identify p v).1) (plan : Plan α) {asked : List Path}
    {v : View} (hv : I v) : I (plan.meaning.run helper asked v).state := by
  induction plan generalizing asked v with
  | ended r => exact hv
  | query q next ih =>
      have hq : I (q.answer.run helper asked v).state := by
        cases q with
        | ask p =>
            rw [Query.answer, Asking.run_ask]
            exact hhelper asked p v hv
        | index dir => exact hread v dir hv
        | number p => exact hnumber v p hv
        | entry | names | body | facts => exact hv
      rw [meaning, Asking.run_bind]
      revert hq
      rcases q.answer.run helper asked v with ⟨asked', w, fault | b⟩
      · exact id
      · exact fun hw => ih b hw

theorem Plan.isLawful_run {α : Type} {helper : Helper View} (hhelper : helper.IsLawful)
    (plan : Plan α) (asked : List Path) {v : View} (hv : v.IsLawful) :
    (plan.meaning.run helper asked v).state.IsLawful := by
  refine plan.run_keeps (I := View.IsLawful) (fun asked p v hv => hhelper.view asked p hv)
    (fun v dir hv => ?_) (fun v p hv => ⟨hv.valid, hv.disk⟩) hv
  have hdisk : (v.store.readIndex dir).1.disk = v.store.disk := (v.store.alike_readIndex dir).disk
  exact ⟨Store.valid_readIndex hv.valid dir, hdisk ▸ hv.disk⟩

/-- Numbers that are not taken back stay the numbers of the entries. -/
theorem Numbered.later {v w : View} {dir : Path} {listed : List (String × NodeKind)}
    {entries : List Listed} (h : Numbered v dir listed entries)
    (hshown : v.identities.shown <+: w.identities.shown) : Numbered w dir listed entries :=
  ⟨h.names, fun e he => Identities.idOf?_of_shown_prefix hshown (h.ids e he)⟩

namespace Resolver

open Asking Store

variable {helper : Helper View} {asked : List Path} {v w : View} {dir p : Path} {x : Resolved}
  {listed : List (String × NodeKind)} {entries : List Listed}

/-! ### A listing with any helper -/

/-- However the helper left the cache, the index that is read in the end is the one to list by. -/
theorem index_ends (hhelper : helper.IsLawful) (asked : List Path) (w : View) (dir : Path)
    {index : Option Index} (h : ((indexForListing dir).run helper asked w).result = .ok index) :
    w.identities.shown <+: ((indexForListing dir).run helper asked w).state.identities.shown ∧
    ((indexForListing dir).run helper asked w).state.store.held dir >>= Peeked.told dir =
      .ok index := by
  have hpeek := calm_peek dir w
  have hanew (h : ((askForIndex dir).run helper asked (peek dir w).1).result = .ok index) :
      w.identities.shown <+:
        ((askForIndex dir).run helper asked (peek dir w).1).state.identities.shown ∧
      ((askForIndex dir).run helper asked (peek dir w).1).state.store.held dir >>=
        Peeked.told dir = .ok index := by
    have hshown := hhelper.shown asked dir (peek dir w).1
    rw [run_askForIndex] at h ⊢
    revert h hshown
    rcases helper asked dir (peek dir w).1 with ⟨u, fault | _⟩
    · intro h
      cases h
    · intro h hshown
      have hagain := calm_peek dir u
      refine ⟨(hpeek.shown.trans hshown).trans hagain.shown, ?_⟩
      dsimp only at h ⊢
      rw [hagain.store.held]
      exact h
  unfold indexForListing at h ⊢
  rw [run_bind, run_attempt, peek_snd] at h ⊢
  revert h
  cases hheld : w.store.held dir with
  | error fault =>
      intro h
      cases h
  | ok held =>
      rcases held with _ | (_ | known) | _
      · exact hanew
      · exact hanew
      · intro h
        cases h
        refine ⟨hpeek.shown, ?_⟩
        change (peek dir w).1.store.held dir >>= Peeked.told dir = _
        rw [hpeek.store.held, hheld]
        rfl
      · exact hanew

theorem listed_ends (hhelper : helper.IsLawful) (asked : List Path) (w : View) (x : Resolved)
    (h : ((entriesOf x).run helper asked w).result = .ok entries) :
    ∃ listed, ((entriesOf x).run helper asked w).state.listed x.path = .ok listed ∧
      Numbered ((entriesOf x).run helper asked w).state x.path listed entries := by
  obtain ⟨w₁, first, hfirst, -, hbuiltins⟩ :=
    run_builtinsAt helper w x.path asked w (.refl w)
  have hindex := fun index => @index_ends helper hhelper asked w₁ x.path index
  unfold entriesOf at h ⊢
  rw [run_bind, hfirst] at h ⊢
  dsimp only at h ⊢
  unfold entriesAfter at h ⊢
  rw [run_bind] at h ⊢
  revert hindex h
  rcases (indexForListing x.path).run helper asked w₁ with ⟨asked₂, w₂, fault | index⟩
  · intro h
    cases h
  intro h hindex
  obtain ⟨hshown, htold⟩ := hindex index rfl
  dsimp only at h htold ⊢
  rw [run_bind, run_get] at h ⊢
  dsimp only at h ⊢
  rw [run_bind, run_lift] at h ⊢
  cases hnames : children x.path index w₂ with
  | error fault =>
      rw [hnames] at h
      cases h
  | ok names =>
      rw [hnames] at h
      obtain ⟨w₃, rest, hrest, hcalm, hchildren⟩ := run_mapM_listsOne
        (listsOne_listChild helper w₂ x.path)
        (names.filter fun c => ¬ (x.path.isRoot ∧ (builtin? c.1).isSome)) asked₂ w₂ (.refl w₂)
      dsimp only at h ⊢
      rw [run_bind, hrest] at h ⊢
      cases h
      refine ⟨_, ?_, (hbuiltins.later (hshown.trans hcalm.shown)).append hchildren⟩
      change w₃.listed x.path = _
      rw [listed_of_calm hcalm, View.listed, htold]
      change (children x.path index w₂ >>= _) = _
      rw [hnames]
      rfl

/-- Whatever a helper does meanwhile, the listing is the one of the cache that is found in the
end. -/
theorem readDirectory_listed (hhelper : helper.IsLawful)
    (h : ((readDirectory p).run helper [] v).result = .ok entries) :
    ∃ listed, ((readDirectory p).run helper [] v).state.listed p = .ok listed ∧
      Numbered ((readDirectory p).run helper [] v).state p listed entries := by
  rw [readDirectory_eq] at h ⊢
  cases hfound : (found helper v p).result with
  | error fault =>
      rw [run_bind_of_error hfound] at h
      cases h
  | ok x =>
      have hpath : x.path = p := path_of_found hfound
      rw [run_bind_of_ok hfound] at h ⊢
      cases hdir : x.kind.isDirectory with
      | false =>
          rw [hdir] at h
          cases h
      | true =>
          rw [hdir] at h
          simp only [if_true] at h ⊢
          have hends := listed_ends hhelper _ _ x h
          rw [hpath] at hends
          exact hends

end Resolver

/-! ### What is listed -/

namespace Store
variable {s : Store} {dir : Path} {names : List (String × EntryKind)}

theorem pairwise_mergeSort_names {l : List (String × EntryKind)} :
    (l.mergeSort fun a b => decide (a.1 ≤ b.1)).Pairwise fun a b => a.1 ≤ b.1 := by
  have htrans (a b c : String × EntryKind) (hab : decide (a.1 ≤ b.1) = true)
      (hbc : decide (b.1 ≤ c.1) = true) : decide (a.1 ≤ c.1) = true :=
    decide_eq_true (le_trans (of_decide_eq_true hab) (of_decide_eq_true hbc))
  have htotal (a b : String × EntryKind) : (decide (a.1 ≤ b.1) || decide (b.1 ≤ a.1)) = true := by
    rw [Bool.or_eq_true]
    exact (le_total a.1 b.1).imp decide_eq_true decide_eq_true
  exact (List.pairwise_mergeSort htrans htotal l).imp of_decide_eq_true

/-- Names that are text are distinct, as those on the disk are. -/
theorem nodup_listedAs {d : Disk} (h : d.IsProper) (place : Location) :
    (((d.children place).filterMap listedAs).map (·.1)).Nodup := by
  refine List.pairwise_map.mpr ?_
  rw [List.pairwise_filterMap]
  refine (Origin.pairwise_children h place).imp fun {c c'} hne e he e' he' heq => hne ?_
  obtain ⟨hn, -⟩ := listedAs_eq_some_iff.mp (show listedAs (c.1, c.2) = some (e.1, e.2) from he)
  obtain ⟨hn', -⟩ :=
    listedAs_eq_some_iff.mp (show listedAs (c'.1, c'.2) = some (e'.1, e'.2) from he')
  rw [hn, hn', heq]

/-- What stands in a directory is listed by name, no name twice. -/
theorem sorted_listPhysical (hproper : s.disk.IsProper) (h : s.listPhysical dir = .ok names) :
    names.Pairwise fun a b => a.1 < b.1 := by
  unfold listPhysical at h
  split at h
  · split at h <;> cases h
    exact List.Pairwise.nil
  · next place t hfind =>
      cases h
      have hnodup : ((((s.disk.children place).filterMap listedAs).mergeSort
          fun a b => decide (a.1 ≤ b.1)).map (·.1)).Nodup :=
        ((List.mergeSort_perm _ _).map _).nodup_iff.mpr (nodup_listedAs hproper place)
      refine (pairwise_mergeSort_names.and (List.pairwise_map.mp hnodup)).imp ?_
      exact fun h => lt_of_le_of_ne h.1 h.2
  · cases h
    exact List.Pairwise.nil

/-- A name that is text and that a file system can give to something that is listed is one that an
index can carry. -/
theorem isEntryName_of_listPhysical (hnamed : s.disk.IsNamed)
    (h : s.listPhysical dir = .ok names) {c : String × EntryKind} (hc : c ∈ names) :
    IsEntryName c.1 := by
  obtain ⟨hordinary, place, o, hmem, -⟩ := exists_of_mem_listPhysical h hc
  have hname := hnamed.names _ (Disk.mem_children_iff.mp hmem) (Utf8.encode c.1)
    (by rw [List.getLast?_concat]; rfl)
  refine ⟨?_, ?_, ?_, hordinary, ?_, ?_⟩
  · exact fun heq => hname.ne_nil (by rw [heq]; rfl)
  · exact fun heq => hname.ne_here (by rw [heq]; rfl)
  · exact fun heq => hname.ne_above (by rw [heq]; rfl)
  · exact fun hslash => hname.slash_free ((Utf8.slash_mem_encode_iff _).mpr hslash)
  · exact fun hnul => hname.nul_free ((Utf8.nul_mem_encode_iff _).mpr hnul)

end Store

/-- What stands behind the built-in entries of a directory: what the index declares, in its order;
or what stands in the place of the directory, by name. -/
inductive Remaining (w : View) (dir : Path) : List (String × NodeKind) → Prop
  | declared {entries : List Entry} (hheld : w.store.held dir = .ok (.index (.listing entries))) :
      Remaining w dir ((entries.filter fun e => ¬ (dir.isRoot ∧ (builtin? e.name).isSome)).map
        fun e => (e.name, w.store.kindOf (dir.extend e.name) e.kind))
  | standing {place : Location} {t : Timestamp} {rest : List (String × NodeKind)}
      (hheld : w.store.held dir = .ok (.index .dynamic))
      (hfind : w.store.disk.find true (w.store.physical dir) = .ok (place, .directory t))
      (hsorted : rest.Pairwise fun c c' => c.1 < c'.1)
      (hmem : ∀ c kind, (c, kind) ∈ rest ↔ Store.IsFree dir c ∧ ¬ IsReserved c ∧
        ∃ n o k, (n, o) ∈ w.store.disk.children place ∧ Utf8.decode n = some c ∧
          Store.listedKind? o = some k ∧ w.store.kindOf (dir.extend c) k = kind) :
      Remaining w dir rest
  /-- Only the root need not have an index. -/
  | unindexed (hroot : dir.isRoot = true) (hheld : w.store.held dir = .ok .absent) :
      Remaining w dir []

/-- A listing of a directory, in the view that was found: no name twice and no number twice, each
the number of the path that the name leads to; the built-in entries first, and then the others. -/
structure Catalogue (w : View) (dir : Path) (entries : List Listed) : Prop where
  names : (entries.map (·.name)).Nodup
  ids : (entries.map (·.id)).Nodup
  valid {e : Listed} (he : e ∈ entries) : IsEntryName e.name
  joined {e : Listed} (he : e ∈ entries) :
    normalize (joinText dir.text e.name) = joinText dir.text e.name ∧
      (Path.ofText (joinText dir.text e.name)).fileName = e.name
  numbered {e : Listed} (he : e ∈ entries) :
    w.identities.idOf? (.ofText (joinText dir.text e.name)) = some e.id
  split : ∃ rest, entries.map (fun e => (e.name, e.kind)) = Store.builtinsAt dir ++ rest ∧
    (∀ c ∈ rest, Store.IsFree dir c.1) ∧ Remaining w dir rest

section Listing
variable {w : View} {dir : Path} {listed : List (String × NodeKind)}
  {names : List (String × EntryKind)}

/-- The children that a listing has besides the built-in entries. -/
def View.remaining (w : View) (dir : Path) (names : List (String × EntryKind)) :
    List (String × NodeKind) :=
  (names.filter fun c => ¬ (dir.isRoot ∧ (builtin? c.1).isSome)).map
    fun c => (c.1, w.store.kindOf (dir.extend c.1) c.2)

theorem mem_remaining_iff {c : String} {kind : NodeKind} : (c, kind) ∈ w.remaining dir names ↔
    Store.IsFree dir c ∧ ∃ k, (c, k) ∈ names ∧ w.store.kindOf (dir.extend c) k = kind := by
  unfold View.remaining
  rw [List.mem_map]
  constructor
  · rintro ⟨⟨n, k⟩, hmem, heq⟩
    obtain ⟨hnames, hfree⟩ := List.mem_filter.mp hmem
    cases heq
    exact ⟨Store.isFree_iff.mpr (of_decide_eq_true hfree), k, hnames, rfl⟩
  · rintro ⟨hfree, k, hmem, rfl⟩
    refine ⟨(c, k), List.mem_filter.mpr ⟨hmem, ?_⟩, rfl⟩
    exact decide_eq_true (Store.isFree_iff.mp hfree)

theorem remaining_standing (hw : w.IsLawful) (hheld : w.store.held dir = .ok (.index .dynamic))
    (hnames : w.store.listPhysical dir = .ok names) :
    Remaining w dir (w.remaining dir names) := by
  obtain ⟨place, t, hfind, hmem⟩ := Store.mem_listPhysical_of_dynamic hheld hnames
  have hsorted := Store.sorted_listPhysical hw.disk.isProper hnames
  refine .standing hheld hfind (List.pairwise_map.mpr (hsorted.filter _)) fun c kind => ?_
  rw [mem_remaining_iff]
  refine and_congr_right fun _ => ?_
  constructor
  · rintro ⟨k, hlisted, hkind⟩
    obtain ⟨hreserved, o, ho, hk⟩ := (hmem c k).mp hlisted
    exact ⟨hreserved, Utf8.encode c, o, k, ho, Utf8.decode_encode c, hk, hkind⟩
  · rintro ⟨hreserved, n, o, k, ho, hn, hk, hkind⟩
    rw [← Utf8.encode_of_decode hn] at ho
    exact ⟨k, (hmem c k).mpr ⟨hreserved, o, ho, hk⟩, hkind⟩

/-- A listing is the built-in entries and children whose names are distinct and valid. -/
theorem listed_eq (hw : w.IsLawful) (hlisted : w.listed dir = .ok listed) : ∃ names,
    listed = Store.builtinsAt dir ++ w.remaining dir names ∧
    Remaining w dir (w.remaining dir names) ∧ (names.map (·.1)).Nodup ∧
    ∀ c ∈ names, IsEntryName c.1 := by
  obtain ⟨index, htold, hrest⟩ := bind_eq_ok_iff.mp hlisted
  obtain ⟨names, hnames, heq⟩ := bind_eq_ok_iff.mp hrest
  cases heq
  refine ⟨names, rfl, ?_⟩
  rcases Store.held_of_told htold with ⟨rfl, hheld⟩ | ⟨known, rfl, hheld⟩
  · unfold Resolver.children at hnames
    dsimp only at hnames
    split at hnames
    · next hroot =>
        cases hnames
        exact ⟨.unindexed hroot hheld, List.nodup_nil, nofun⟩
    · cases hnames
  · cases known with
    | dynamic =>
        have hsorted := Store.sorted_listPhysical hw.disk.isProper hnames
        refine ⟨remaining_standing hw hheld hnames, ?_, fun c hc =>
          Store.isEntryName_of_listPhysical hw.disk hnames hc⟩
        exact List.pairwise_map.mpr (hsorted.imp fun h => ne_of_lt h)
    | listing entries =>
        have hlisting : IsListing entries := Store.isListing_of_held hw.valid hheld
        cases hnames
        refine ⟨?_, ?_, ?_⟩
        · have hdeclared := Remaining.declared hheld
          unfold View.remaining
          rw [List.filter_map, List.map_map]
          exact hdeclared
        · rw [List.map_map]
          exact hlisting.nodup
        · intro c hc
          obtain ⟨e, he, rfl⟩ := List.mem_map.mp hc
          exact hlisting.names e he

theorem isEntryName_of_mem_builtinsAt {c : String × NodeKind} (hc : c ∈ Store.builtinsAt dir) :
    IsEntryName c.1 := by
  have hbuiltins : ∀ c ∈ builtins, IsEntryName c.1 := by decide
  unfold Store.builtinsAt at hc
  split at hc
  · exact hbuiltins c hc
  · cases hc

theorem nodup_builtinsAt (dir : Path) : ((Store.builtinsAt dir).map (·.1)).Nodup := by
  unfold Store.builtinsAt
  split
  · decide
  · exact List.nodup_nil

theorem nodup_remaining (h : (names.map (·.1)).Nodup) :
    ((w.remaining dir names).map (·.1)).Nodup := by
  unfold View.remaining
  rw [List.map_map]
  exact h.sublist (List.filter_sublist.map _)

/-- What has its number in a view is a catalogue if the names are distinct and valid. -/
theorem catalogue_of_listed (hw : w.IsLawful) (hlisted : w.listed dir = .ok listed)
    {entries : List Listed} (hnumbered : Numbered w dir listed entries) :
    Catalogue w dir entries := by
  obtain ⟨names, rfl, hremaining, hnodup, hvalid⟩ := listed_eq hw hlisted
  have hfree : ∀ c ∈ w.remaining dir names, Store.IsFree dir c.1 :=
    fun c hc => (mem_remaining_iff.mp hc).1
  have hnames : (entries.map (·.name)).Nodup := by
    have hsame := congrArg (List.map Prod.fst) hnumbered.names
    rw [List.map_map] at hsame
    change entries.map (·.name) = _ at hsame
    rw [hsame, List.map_append, List.nodup_append]
    refine ⟨nodup_builtinsAt dir, nodup_remaining hnodup, ?_⟩
    rintro a ha b hb rfl
    obtain ⟨⟨n, kind⟩, hn, rfl⟩ := List.mem_map.mp ha
    obtain ⟨c, hc, heq⟩ := List.mem_map.mp hb
    obtain ⟨hroot, hbuiltin⟩ := Store.mem_builtinsAt_iff.mp hn
    have hnone := hfree c hc hroot
    rw [heq, hbuiltin] at hnone
    cases hnone
  have hentry {e : Listed} (he : e ∈ entries) : IsEntryName e.name := by
    have hmem : (e.name, e.kind) ∈ Store.builtinsAt dir ++ w.remaining dir names := by
      rw [← hnumbered.names]
      exact List.mem_map.mpr ⟨e, he, rfl⟩
    rcases List.mem_append.mp hmem with hfirst | hrest
    · exact isEntryName_of_mem_builtinsAt hfirst
    · obtain ⟨-, k, hk, -⟩ := mem_remaining_iff.mp hrest
      exact hvalid _ hk
  have hpath (n : String) : Path.ofText (joinText dir.text n) = dir.extend n := by
    rw [Path.ofText_joinText, Path.ofText_text]
  refine ⟨hnames, ?_, hentry, fun he => ?_, fun he => ?_, _, hnumbered.names, hfree, hremaining⟩
  · -- numbers are those of different paths, as the names differ
    refine List.pairwise_map.mpr ((List.pairwise_map.mp hnames).imp_of_mem ?_)
    intro e e' he he' hne heq
    have hid := Identities.pathOf?_eq_some_iff.mpr (hnumbered.ids e he)
    rw [heq, Identities.pathOf?_eq_some_iff.mpr (hnumbered.ids e' he')] at hid
    have hsame := Path.extend_injective (hentry he').isSegment (hentry he).isSegment
      (Option.some.inj hid)
    exact hne hsame.2.symm
  · have hsegment := (hentry he).isSegment
    rw [normalize, hpath, dir.text_extend hsegment, dir.fileName_extend hsegment]
    exact ⟨rfl, rfl⟩
  · rw [hpath]
    exact hnumbered.ids _ he

end Listing

/-- Whatever the cache holds and whatever a helper does to it meanwhile, what comes of listing a
directory is a catalogue of the directory as it is found in the end. -/
theorem catalogue_of_run {helper : Helper View} (hhelper : helper.IsLawful) {v : View}
    (hv : v.IsLawful) {text : String} {entries : List Listed}
    (h : ((Resolver.readDirectory (.ofText text)).run helper [] v).result = .ok entries) :
    Catalogue ((Resolver.readDirectory (.ofText text)).run helper [] v).state (.ofText text)
      entries := by
  obtain ⟨listed, hlisted, hnumbered⟩ := Resolver.readDirectory_listed hhelper h
  have hlawful := (Plan.readDirectory (.ofText text)).isLawful_run hhelper [] hv
  rw [Plan.meaning_readDirectory] at hlawful
  exact catalogue_of_listed hlawful hlisted hnumbered

/-- A root that declares a file under the name of a built-in entry, another file, and a directory
that is not there; and other things stand in it. -/
def clutterDisk : Disk where
  objects := [([], .directory ⟨0, 0⟩), ([[99]], .directory ⟨0, 1⟩),
    ([[99], Store.indexName], .file 1), ([[99], Utf8.encode controlName], .file 2),
    ([[99], [255]], .file 2), ([[99], [100]], .link [98] ⟨0, 3⟩)]
  bodies := [(1, ⟨Index.encode (.listing [⟨.file, 4, 7, "b"⟩, ⟨.file, 4, 7, cacheLinkName⟩,
    ⟨.directory, 0, 7, "a"⟩]), ⟨5, 0⟩⟩), (2, ⟨[104, 105], ⟨6, 0⟩⟩)]
  nextFile := 3
  clock := ⟨0, 4⟩

/-- The helper puts that disk in the place of an empty one when it is asked for the root. -/
def clutter : Helper View :=
  fun _ _ v => ({ v with store := { v.store with disk := clutterDisk } }, .ok ())

def clutterEntries : List Listed := [⟨2, controlName, .control⟩, ⟨3, cacheLinkName, .symlink⟩,
  ⟨4, "b", .file⟩, ⟨5, "a", .staticDirectory⟩]

theorem catalogue_of_run_clutter : ∃ v : View, clutter.IsLawful ∧ v.IsLawful ∧
    ((Resolver.readDirectory (.ofText "/")).run clutter [] v).result = .ok clutterEntries ∧
    Catalogue ((Resolver.readDirectory (.ofText "/")).run clutter [] v).state (.ofText "/")
      clutterEntries := by
  have hdisk : clutterDisk.IsNamed := ⟨by decide, by decide⟩
  have hhelper : clutter.IsLawful :=
    ⟨fun _ _ _ hv => ⟨hv.valid, hdisk⟩, fun _ _ _ => List.prefix_rfl⟩
  have hv : View.IsLawful { store := ⟨[[99]], 1000, .empty ⟨0, 0⟩, { capacity := 4 }⟩ } :=
    ⟨IndexCache.valid_of_known_nil rfl, by decide, by decide⟩
  have hresult : ((Resolver.readDirectory (.ofText "/")).run clutter []
      { store := ⟨[[99]], 1000, .empty ⟨0, 0⟩, { capacity := 4 }⟩ }).result =
      .ok clutterEntries := by decide +kernel
  exact ⟨_, hhelper, hv, hresult, catalogue_of_run hhelper hv hresult⟩

end OnDemandFs
