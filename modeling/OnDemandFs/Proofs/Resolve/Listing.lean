import OnDemandFs.Proofs.Resolve.Listed

/-!
# Listings and look-ups agree

While nothing is published, listing a directory and looking names up in it agree: what the list has
is not missed and comes with the same number and the same kind, and what the list lacks is not
found. The list is `View.listed` with the number of each path, and numbers stay.
-/
namespace OnDemandFs
namespace Resolver

open Asking

/-- What came of looking a name up fits a list. -/
structure Fits (entries : List Listed) (c : String) (r : Except Fault Node) : Prop where
  listed : ∀ e ∈ entries, e.name = c →
    NotMissed (fun node => node.id = e.id ∧ node.kind = e.kind) r
  unlisted : (∀ e ∈ entries, e.name ≠ c) → ∃ fault, r = .error fault

/-- While nothing is published, looking names up in a directory fits the list of the directory. -/
theorem lookup_fits_list {answer : List Path → Path → View → View} (hidle : Helper.Idle answer)
    {v : View} (hvalid : v.store.indices.Valid) (hproper : v.store.disk.IsProper) {d : String}
    {asked : List Path} {w : View} {entries : List Listed}
    (hread : (readDirectory (.ofText d) v).runWith answer [] = (asked, w, .ok entries)) {u : View}
    (hcalm : w.Calm u) {c : String} (hc : IsSegment c) (before : List Path) :
    Fits entries c ((lookup (.ofText (joinText d c)) u).runWith answer before).2.2 := by
  rw [runWith_eq_run] at hread
  simp only [Prod.mk.injEq] at hread
  obtain ⟨-, rfl, hresult⟩ := hread
  rw [runWith_eq_run, Path.ofText_joinText]
  obtain ⟨hread, ⟨y, hreached, hdir⟩, listed, hlisted, hnumbered⟩ :=
    readDirectory_ends hidle hresult
  have hu : v.Calm u := hread.trans hcalm
  constructor
  · rintro e he rfl
    have hmem : (e.name, e.kind) ∈ listed := by
      rw [← hnumbered.names]
      exact List.mem_map.mpr ⟨e, he, rfl⟩
    have hfound := View.notMissed_described hvalid hproper hreached hdir hlisted hc hmem
    cases hdescribed : v.described ((Path.ofText d).extend e.name) with
    | error fault =>
        rw [hdescribed] at hfound
        rw [lookup_of_error hidle hu hdescribed]
        exact hfound
    | ok described =>
        obtain ⟨x, attr⟩ := described
        rw [hdescribed] at hfound
        obtain ⟨hpath, hkind⟩ := hfound
        obtain ⟨id, hnode, hid⟩ := lookup_of_ok hidle hu hdescribed before
        have hlater := hcalm.trans (calm_lookup hidle (.refl u) (.extend (.ofText d) e.name) before)
        have hnumber := Identities.idOf?_of_shown_prefix hlater.shown (hnumbered.ids e he)
        rw [hnode]
        rw [hpath] at hid
        exact ⟨Option.some.inj (hid.symm.trans hnumber), hkind⟩
  · intro hnames
    have hmem (kind : NodeKind) : (c, kind) ∉ listed := by
      rw [← hnumbered.names]
      intro hmem
      obtain ⟨e, he, heq⟩ := List.mem_map.mp hmem
      exact hnames e he (congrArg Prod.fst heq)
    obtain ⟨fault, hdescribed⟩ :=
      View.described_of_not_listed hvalid hproper hreached hdir hlisted hc hmem
    exact ⟨fault, lookup_of_error hidle hu hdescribed before⟩

/-- The listing of a root with a file and a directory. -/
def shelfIndex : Index := .listing [⟨.file, 4, 7, "a"⟩, ⟨.directory, 0, 8, "b"⟩]

/-- A file is declared and not there, one is there and not declared, and the directory that is
declared is a dynamic one. -/
def shelfDisk : Disk where
  objects := [([], .directory ⟨0, 0⟩), ([[99]], .directory ⟨0, 1⟩),
    ([[99], Store.indexName], .file 1), ([[99], [98]], .directory ⟨0, 2⟩),
    ([[99], [98], Store.indexName], .file 2), ([[99], [122]], .file 2)]
  bodies := [(1, ⟨Index.encode shelfIndex, ⟨5, 0⟩⟩), (2, ⟨Index.encode .dynamic, ⟨6, 0⟩⟩)]
  nextFile := 3
  clock := ⟨0, 3⟩

def shelfView : View := { store := ⟨[[99]], 1000, shelfDisk, { capacity := 4 }⟩ }

/-- What the root lists. -/
def shelfEntries : List Listed := [⟨2, controlName, .control⟩, ⟨3, cacheLinkName, .symlink⟩,
  ⟨4, "a", .file⟩, ⟨5, "b", .dynamicDirectory⟩]

theorem lookup_fits_list_shelfView : ∃ asked w,
    Helper.Idle (fun _ p v => (identify p v).1) ∧ shelfView.store.indices.Valid ∧
    shelfView.store.disk.IsProper ∧
    (readDirectory (.ofText "/") shelfView).runWith (fun _ p v => (identify p v).1) [] =
      (asked, w, .ok shelfEntries) ∧
    w.Calm w ∧ IsSegment "b" ∧ Fits shelfEntries "b"
      ((lookup (.ofText (joinText "/" "b")) w).runWith
        (fun _ p v => (identify p v).1) asked).2.2 := by
  have hidle : Helper.Idle (fun _ p v => (identify p v).1) := fun _ p v => calm_identify p v
  have hvalid : shelfView.store.indices.Valid := IndexCache.valid_of_known_nil rfl
  have hproper : shelfView.store.disk.IsProper := ⟨by decide, by decide⟩
  have hresult : ((readDirectory (.ofText "/") shelfView).runWith
      (fun _ p v => (identify p v).1) []).2.2 = .ok shelfEntries := by decide +kernel
  obtain ⟨⟨asked, w, result⟩, hread⟩ : ∃ ending, (readDirectory (.ofText "/") shelfView).runWith
      (fun _ p v => (identify p v).1) [] = ending := ⟨_, rfl⟩
  rw [hread] at hresult
  cases hresult
  have hc : IsSegment "b" := by decide
  exact ⟨asked, w, hidle, hvalid, hproper, hread, .refl w, hc,
    lookup_fits_list hidle hvalid hproper hread (.refl w) hc asked⟩

end Resolver
end OnDemandFs
