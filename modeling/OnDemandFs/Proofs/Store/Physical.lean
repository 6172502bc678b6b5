import OnDemandFs.Proofs.Disk.Children
import OnDemandFs.Proofs.Path.Spelling
import OnDemandFs.Store.Basic

/-!
# What a directory physically has

Listing the copy of a directory and looking at the place of one of its children go different ways on
the disk. They agree: a name of its own is listed just if a file or a directory stands at the place
that belongs to the name, as long as that place can be looked at.
-/
namespace OnDemandFs.Store
variable {s : Store} {dir : Path} {c : String}

theorem physical_extend (s : Store) (dir : Path) (hc : IsSegment c) :
    s.physical (dir.extend c) = s.physical dir ++ [Utf8.encode c] := by
  unfold physical
  rw [dir.names_extend_of_isSegment hc, List.map_append, List.append_assoc]
  rfl

theorem encode_ne {t : String} (h : c ≠ t) : Utf8.encode c ≠ Utf8.encode t :=
  fun heq => h (Utf8.encode_injective heq)

theorem isPlainName_encode (hc : IsSegment c) (hup : c ≠ "..") :
    Disk.IsPlainName (Utf8.encode c) :=
  ⟨encode_ne hc.1, encode_ne hc.2.1, encode_ne hup⟩

/-- The name and kind under which a child is listed, if it is. -/
def listedAs : Name × Object → Option (String × EntryKind)
  | (n, o) =>
    match Utf8.decode n, o with
    | some name, .file _ => if IsReserved name then none else some (name, EntryKind.file)
    | some name, .directory _ => if IsReserved name then none else some (name, EntryKind.directory)
    | _, _ => none

/-- The kind under which an object is listed. -/
def listedKind? : Object → Option EntryKind
  | .file _ => some .file
  | .directory _ => some .directory
  | _ => none

theorem listedAs_eq_some_iff {n : Name} {o : Object} {k : EntryKind} :
    listedAs (n, o) = some (c, k) ↔
      n = Utf8.encode c ∧ ¬ IsReserved c ∧ listedKind? o = some k := by
  unfold listedAs listedKind?
  dsimp only
  cases hn : Utf8.decode n with
  | none =>
      refine ⟨nofun, fun h => ?_⟩
      rw [h.1, Utf8.decode_encode] at hn
      cases hn
  | some name =>
      have hname : n = Utf8.encode c ↔ name = c := by
        constructor
        · rintro rfl
          rw [Utf8.decode_encode] at hn
          exact (Option.some.inj hn).symm
        · rintro rfl
          exact (Utf8.encode_of_decode hn).symm
      rw [hname]
      cases o with
      | file | directory =>
          dsimp only
          by_cases hr : IsReserved name
          · rw [if_pos hr]
            refine ⟨nofun, ?_⟩
            rintro ⟨rfl, hc, -⟩
            exact absurd hr hc
          · rw [if_neg hr]
            constructor
            · rintro ⟨⟩
              exact ⟨rfl, hr, rfl⟩
            · rintro ⟨rfl, -, ⟨⟩⟩
              rfl
      | link | pipe => exact ⟨nofun, fun h => by cases h.2.2⟩

theorem kind_entryOf_file (d : Disk) (id : FileId) : (entryOf d (.file id)).kind = .file := by
  unfold entryOf
  dsimp only
  split <;> rfl

theorem isOf_entryOf {d : Disk} {o : Object} {k : EntryKind} :
    (entryOf d o).isOf k = true ↔ listedKind? o = some k := by
  unfold PhysicalEntry.isOf listedKind?
  cases o with
  | file id =>
      rw [kind_entryOf_file]
      cases k <;> simp
  | directory | link | pipe => cases k <;> simp [entryOf]

theorem stat_eq_some_iff {p : Path} {e : PhysicalEntry} : s.stat p = .ok (some e) ↔
    ∃ q o, s.disk.find false (s.physical p) = .ok (q, o) ∧ e = entryOf s.disk o := by
  unfold stat
  cases s.disk.find false (s.physical p) with
  | error fault =>
      constructor
      · intro h
        dsimp only at h
        split at h <;> cases h
      · nofun
  | ok found =>
      obtain ⟨q, o⟩ := found
      constructor
      · intro h
        cases h
        exact ⟨q, o, rfl, rfl⟩
      · rintro ⟨q', o', hfind, rfl⟩
        cases hfind
        rfl

/-- Where a directory stands, it is found also with its links followed. -/
theorem find_of_stat {e : PhysicalEntry} (hstat : s.stat dir = .ok (some e))
    (hdir : e.kind = .directory) :
    ∃ q t, s.disk.find true (s.physical dir) = .ok (q, .directory t) := by
  obtain ⟨q, o, hfind, rfl⟩ := stat_eq_some_iff.mp hstat
  cases o with
  | directory t => exact ⟨q, t, Disk.find_true_of_false nofun hfind⟩
  | file id =>
      rw [kind_entryOf_file] at hdir
      cases hdir
  | link | pipe => cases hdir

/-- The listing of a directory, as the names and kinds of its children. -/
theorem mem_listPhysical_iff {q : Location} {t : Timestamp}
    (hfind : s.disk.find true (s.physical dir) = .ok (q, .directory t)) : ∃ names,
    s.listPhysical dir = .ok names ∧ ∀ (c : String) (k : EntryKind), (c, k) ∈ names ↔
      ¬ IsReserved c ∧ ∃ o, (Utf8.encode c, o) ∈ s.disk.children q ∧ listedKind? o = some k := by
  refine ⟨((s.disk.children q).filterMap listedAs).mergeSort fun a b => decide (a.1 ≤ b.1), ?_, ?_⟩
  · unfold listPhysical
    rw [hfind]
    rfl
  · intro c k
    rw [List.mem_mergeSort, List.mem_filterMap]
    constructor
    · rintro ⟨⟨n, o⟩, hmem, hlisted⟩
      obtain ⟨rfl, hr, hk⟩ := listedAs_eq_some_iff.mp hlisted
      exact ⟨hr, o, hmem, hk⟩
    · rintro ⟨hr, o, hmem, hk⟩
      exact ⟨_, hmem, listedAs_eq_some_iff.mpr ⟨rfl, hr, hk⟩⟩

/-- Whatever is listed stands on the disk, under a name that is not reserved. -/
theorem exists_of_mem_listPhysical {names : List (String × EntryKind)}
    (h : s.listPhysical dir = .ok names) {e : String × EntryKind} (he : e ∈ names) :
    ¬ IsReserved e.1 ∧
      ∃ q o, (Utf8.encode e.1, o) ∈ s.disk.children q ∧ listedKind? o = some e.2 := by
  cases hfind : s.disk.find true (s.physical dir) with
  | error fault =>
      unfold listPhysical at h
      rw [hfind] at h
      dsimp only at h
      split at h
      · cases h
        cases he
      · cases h
  | ok found =>
      obtain ⟨q, o⟩ := found
      cases o with
      | directory t =>
          obtain ⟨names', hnames, hmem⟩ := mem_listPhysical_iff hfind
          cases hnames.symm.trans h
          obtain ⟨hordinary, o, hchild, hkind⟩ := (hmem e.1 e.2).mp he
          exact ⟨hordinary, q, o, hchild, hkind⟩
      | file | link | pipe =>
          unfold listPhysical at h
          rw [hfind] at h
          cases h
          cases he

end OnDemandFs.Store
