import OnDemandFs.Proofs.Disk.Publishing
import OnDemandFs.Proofs.Index.RoundTrip
import OnDemandFs.Proofs.Resolve.Confined

/-!
# Copies in a plain tree

A cache that nothing but publications were made in is a plain tree. There the copy of a path is what
stands at the place that the path spells, and its index what stands under the reserved name in it.
So what the store tells of a path is read off these two places, as long as the disk can carry the
path at all.
-/
namespace OnDemandFs

/-- The disk can carry every name of the path. -/
def Path.IsCarried (p : Path) : Prop := ∀ n ∈ p.names, Disk.IsCarried (Utf8.encode n)

namespace Path
variable {p : Path} {n : String}

theorem isCarried_extend_iff (hn : IsSegment n) :
    (p.extend n).IsCarried ↔ p.IsCarried ∧ Disk.IsCarried (Utf8.encode n) := by
  unfold IsCarried
  rw [p.names_extend_of_isSegment hn]
  simp only [List.mem_append, List.mem_singleton]
  constructor
  · exact fun h => ⟨fun m hm => h m (.inl hm), h n (.inr rfl)⟩
  · intro h m hm
    rcases hm with hm | rfl
    · exact h.1 m hm
    · exact h.2

end Path

namespace Disk

/-- No entry is called like a staged file. -/
theorem not_isStaging_encode {n : String} (hn : ¬ IsReserved n) : ¬ IsStaging (Utf8.encode n) := by
  rintro ⟨rest, hrest⟩
  rw [← String.ofList_toList (s := n)] at hrest
  obtain ⟨cs, hone, hrest⟩ := Utf8.encode_eq_cons (by decide : 46 < 128) hrest.symm
  obtain ⟨cs, htwo, hrest⟩ := Utf8.encode_eq_cons (by decide : 46 < 128) hrest
  obtain ⟨cs, hthree, -⟩ := Utf8.encode_eq_cons (by decide : 46 < 128) hrest
  refine hn ⟨cs, ?_⟩
  rw [hone, htwo, hthree]
  rfl

theorem ne_stagingName_of_encode {n : String} (hn : ¬ IsReserved n) (k : Nat) :
    Utf8.encode n ≠ stagingName k := by
  intro heq
  refine not_isStaging_encode hn ?_
  rw [heq]
  exact isStaging_stagingName k

end Disk

namespace Store

theorem isCarried_indexName : Disk.IsCarried indexName := by decide

theorem not_isStaging_indexName : ¬ Disk.IsStaging indexName := by decide

/-- Where a file can be staged the index has room. -/
theorem fits_indexPlace {s : Store} {p : Path} (h : Disk.HasRoom (s.physical p)) :
    Disk.Fits (s.indexPlace p) := by
  have hname : Disk.pathLength [indexName] = 4 := by decide +kernel
  unfold Disk.HasRoom at h
  unfold Disk.Fits indexPlace
  rw [Disk.pathLength_append, hname]
  omega

theorem indexName_ne_stagingName (k : Nat) : indexName ≠ Disk.stagingName k := by
  intro heq
  refine not_isStaging_indexName ?_
  rw [heq]
  exact Disk.isStaging_stagingName k

/-- No entry is called like an index. -/
theorem encode_ne_indexName {n : String} (hn : ¬ IsReserved n) : Utf8.encode n ≠ indexName := by
  refine encode_ne ?_
  rintro rfl
  exact hn (by decide)

variable {s : Store} {p q : Path}

theorem physical_root (s : Store) : s.physical .root = s.root := List.append_nil _

theorem root_prefix_physical (s : Store) (p : Path) : s.root <+: s.physical p :=
  List.prefix_append _ _

theorem root_prefix_indexPlace (s : Store) (p : Path) : s.root <+: s.indexPlace p :=
  (s.root_prefix_physical p).trans (List.prefix_append _ _)

/-- Places depend on the root alone. -/
theorem indexPlace_of_root {t : Store} (h : t.root = s.root) (p : Path) :
    t.indexPlace p = s.indexPlace p := by
  rw [indexPlace, indexPlace, physical, physical, h]

theorem refusal_of_root {t : Store} (h : t.root = s.root) (p : Path) (reason : String) :
    t.refusal p reason = s.refusal p reason := by
  rw [refusal, refusal, indexPlace_of_root h]

theorem physical_injective (s : Store) : Function.Injective s.physical := by
  intro p q h
  have hnames := List.append_cancel_left h
  exact Path.ext_names (List.map_injective_iff.mpr (fun _ _ => Utf8.encode_injective) hnames)

/-- The copy of a confined path lies in no index's place. -/
theorem physical_ne_indexPlace (hp : p.IsConfined) (q : Path) : s.physical p ≠ s.indexPlace q := by
  intro heq
  unfold physical indexPlace physical at heq
  rw [List.append_assoc] at heq
  have hnames := List.append_cancel_left heq
  have hmem : indexName ∈ p.names.map Utf8.encode := by
    rw [hnames]
    exact List.mem_append_right _ (List.mem_singleton_self _)
  obtain ⟨n, hn, hencode⟩ := List.mem_map.mp hmem
  exact encode_ne_indexName (hp n hn).2.2.2.2 hencode

theorem indexPlace_injective (s : Store) : Function.Injective s.indexPlace := by
  intro p q h
  exact s.physical_injective (List.append_inj' h rfl).1

theorem carried_physical (hroot : ∀ m ∈ s.root, Disk.IsCarried m) (hp : p.IsCarried) :
    ∀ m ∈ s.physical p, Disk.IsCarried m := by
  intro m hm
  rcases List.mem_append.mp hm with hm | hm
  · exact hroot m hm
  · obtain ⟨n, hn, rfl⟩ := List.mem_map.mp hm
    exact hp n hn

theorem carried_indexPlace (hroot : ∀ m ∈ s.root, Disk.IsCarried m) (hp : p.IsCarried) :
    ∀ m ∈ s.indexPlace p, Disk.IsCarried m := by
  intro m hm
  rcases List.mem_append.mp hm with hm | hm
  · exact carried_physical hroot hp m hm
  · rw [List.mem_singleton.mp hm]
    exact isCarried_indexName

theorem plain_physical (hroot : ∀ m ∈ s.root, Disk.IsCarried m) (hp : ∀ n ∈ p.names, n ≠ "..") :
    ∀ m ∈ s.physical p, Disk.IsPlainName m := by
  intro m hm
  rcases List.mem_append.mp hm with hm | hm
  · exact (hroot m hm).plain
  · obtain ⟨n, hn, rfl⟩ := List.mem_map.mp hm
    exact isPlainName_encode (p.allSegments n hn) (hp n hn)

theorem plain_indexPlace (hroot : ∀ m ∈ s.root, Disk.IsCarried m)
    (hp : ∀ n ∈ p.names, n ≠ "..") : ∀ m ∈ s.indexPlace p, Disk.IsPlainName m := by
  intro m hm
  rcases List.mem_append.mp hm with hm | hm
  · exact plain_physical hroot hp m hm
  · rw [List.mem_singleton.mp hm]
    exact isCarried_indexName.plain

section Tree
variable (htree : s.disk.IsTree s.root)
include htree

/-- What is told of a path is what stands at its place. -/
theorem stat_of_tree (hp : p.IsCarried) (hfits : Disk.Fits (s.physical p)) :
    s.stat p = .ok ((s.disk.at? (s.physical p)).map (entryOf s.disk)) := by
  have hcarried := carried_physical htree.carried hp
  have hprefix := s.root_prefix_physical p
  unfold stat
  cases hat : s.disk.at? (s.physical p) with
  | none =>
      obtain ⟨fault, hfind, hmissing⟩ := htree.find_of_free hprefix hcarried hfits
        (Disk.stands_eq_none_iff.mpr hat) false
      simp only [hfind, hmissing, if_true]
      rfl
  | some o =>
      rw [htree.find_of_at? hprefix hcarried hfits hat false]
      rfl

theorem stat_of_directory (hp : p.IsCarried) (hfits : Disk.Fits (s.physical p))
    (hdir : s.disk.stands (s.physical p) = some .directory) :
    ∃ e, s.stat p = .ok (some e) ∧ e.kind = .directory := by
  obtain ⟨o, hat, ho⟩ := Disk.stands_eq_some_iff.mp hdir
  rw [stat_of_tree htree hp hfits, hat]
  cases o with
  | directory t => exact ⟨_, rfl, rfl⟩
  | file | link | pipe => cases ho

theorem stat_of_file (hp : p.IsCarried) (hfits : Disk.Fits (s.physical p)) {id : FileId}
    (hfile : s.disk.stands (s.physical p) = some (.file id)) :
    s.stat p = .ok (some (entryOf s.disk (.file id))) := by
  rw [stat_of_tree htree hp hfits, Disk.stands_eq_file_iff.mp hfile]
  rfl

theorem find_physical (hp : p.IsCarried) (hfits : Disk.Fits (s.physical p)) {id : FileId}
    (hfile : s.disk.stands (s.physical p) = some (.file id)) :
    s.disk.find true (s.physical p) = .ok (s.physical p, .file id) :=
  htree.find_of_at? (s.root_prefix_physical p) (carried_physical htree.carried hp) hfits
    (Disk.stands_eq_file_iff.mp hfile) true

theorem stat_of_free (hp : p.IsCarried) (hfits : Disk.Fits (s.physical p))
    (hfree : s.disk.stands (s.physical p) = none) : s.stat p = .ok none := by
  rw [stat_of_tree htree hp hfits, Disk.stands_eq_none_iff.mp hfree]
  rfl

theorem find_indexPlace (hp : p.IsCarried) (hfits : Disk.Fits (s.indexPlace p)) {id : FileId}
    (hfile : s.disk.stands (s.indexPlace p) = some (.file id)) :
    s.disk.find true (s.indexPlace p) = .ok (s.indexPlace p, .file id) :=
  htree.find_of_at? (s.root_prefix_indexPlace p) (carried_indexPlace htree.carried hp) hfits
    (Disk.stands_eq_file_iff.mp hfile) true

/-- Where no index was published there is none. -/
theorem index?_of_free (hp : p.IsCarried) (hfits : Disk.Fits (s.indexPlace p))
    (hfree : s.disk.stands (s.indexPlace p) = none) : s.index? p = .ok none := by
  obtain ⟨fault, hfind, hmissing⟩ := htree.find_of_free (s.root_prefix_indexPlace p)
    (carried_indexPlace htree.carried hp) hfits hfree true
  rw [index?_eq, report_of_error hfind, if_pos hmissing]

/-- A published index is told of, or what was remembered of it. -/
theorem index?_of_file (hp : p.IsCarried) (hfits : Disk.Fits (s.indexPlace p)) {id : FileId}
    {b : Body} {index : Index} (hfile : s.disk.stands (s.indexPlace p) = some (.file id))
    (hbody : s.disk.body? id = some b) (hlength : b.content.length ≤ s.maxIndexBytes)
    (hdecode : Index.decode b.content = .ok index) :
    s.index? p = .ok (some index) ∨
      ∃ known, s.indices.known.get? p = some (stampOf id b, known) ∧
        s.index? p = .ok (some known) := by
  have hfind := find_indexPlace htree hp hfits hfile
  rw [index?_eq]
  by_cases hrow : ∃ known, s.indices.known.get? p = some (stampOf id b, known)
  · obtain ⟨known, hknown⟩ := hrow
    exact .inr ⟨known, hknown, by rw [hknown, report_of_eq hfind hbody]⟩
  · left
    rw [report_of_ne hfind hbody fun known hknown => hrow ⟨known, hknown⟩]
    exact decoded_of_decode hlength hdecode

theorem held_of_directory (hp : p.IsCarried) (hfits : Disk.Fits (s.physical p))
    (hdir : s.disk.stands (s.physical p) = some .directory) :
    s.held p = s.index? p >>= fun told =>
      .ok (told.elim Peeked.absent Peeked.index) := by
  obtain ⟨e, hstat, hkind⟩ := stat_of_directory htree hp hfits hdir
  rw [held, hstat]
  change Peeked.of (s.index? p) (some e) = _
  unfold Peeked.of
  dsimp only
  rw [if_pos hkind]
  rcases s.index? p with fault | _ | index <;> rfl

theorem held_of_free (hp : p.IsCarried) (hfits : Disk.Fits (s.physical p))
    (hfree : s.disk.stands (s.physical p) = none) : s.held p = .ok .absent := by
  rw [held, stat_of_free htree hp hfits hfree]
  rfl

/-- An index that is told of stands in its directory. -/
theorem file_of_index? (hp : p.IsCarried) {index : Index} (h : s.index? p = .ok (some index)) :
    ∃ id, s.disk.stands (s.indexPlace p) = some (.file id) := by
  rw [index?_eq] at h
  unfold report at h
  split at h
  · split at h <;> cases h
  · next place id hfind =>
      obtain ⟨-, hat, -⟩ := htree.find_place (s.root_prefix_indexPlace p)
        (carried_indexPlace htree.carried hp) hfind
      exact ⟨id, Disk.stands_eq_file_iff.mpr hat⟩
  · cases h

/-- What an index is held for stands there with the index in it, and the disk can carry it. -/
theorem directory_of_held_index (hp : p.IsConfined) {index : Index}
    (h : s.held p = .ok (.index index)) :
    p.IsCarried ∧ s.disk.stands (s.physical p) = some .directory ∧
      ∃ id, s.disk.stands (s.indexPlace p) = some (.file id) := by
  obtain ⟨found, hstat, hof⟩ := bind_eq_ok_iff.mp h
  obtain ⟨e, rfl, hkind, htold⟩ := Peeked.directory_of_index hof
  obtain ⟨q, t, hfind⟩ := find_of_stat hstat hkind
  have hcarried : p.IsCarried := by
    intro n hn
    have hmem : Utf8.encode n ∈ s.physical p :=
      List.mem_append_right _ (List.mem_map_of_mem hn)
    exact Disk.isCarried_of_find hfind hmem
      (isPlainName_encode (p.allSegments n hn) (hp n hn).2.2.2.1)
  have hat := (htree.find_place (s.root_prefix_physical p) (carried_physical htree.carried hcarried)
    hfind).2.1
  exact ⟨hcarried, Disk.stands_of_at? hat, file_of_index? htree hcarried htold⟩

end Tree
end Store
end OnDemandFs
