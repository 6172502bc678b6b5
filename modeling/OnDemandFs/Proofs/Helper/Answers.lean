import OnDemandFs.Helper.Origin
import OnDemandFs.Proofs.Disk.Proper
import OnDemandFs.Proofs.Store.Copies

/-!
# What an answer from an origin does

A helper that copies looks at the one place of the origin that belongs to the path, and publishes
what it finds there. `Origin.item?` is what it finds. Where it finds nothing it does nothing: what
was published before stays. A directory is published as an index and a file as a body, both unless
something of the other kind stands in the way, which then stays too.
-/
namespace OnDemandFs

namespace Origin

/-- What an origin has at a path: a directory, with its place on the disk, or a file. -/
inductive Item where
  | directory (place : Location)
  | file (body : Body)
deriving DecidableEq, Repr

def Item.kind : Item → EntryKind
  | directory _ => .directory
  | file _ => .file

/-- What is found at a path, links followed. -/
def item? (o : Origin) (d : Disk) (p : Path) : Option Item :=
  match d.find true (o.source p) with
  | .ok (place, .directory _) => some (.directory place)
  | .ok (_, .file id) => (d.body? id).map .file
  | _ => none

/-- The index under which a directory of the origin is published. -/
def indexOf (o : Origin) (d : Disk) (p : Path) (place : Location) : Index :=
  if p ∈ o.dynamic then .dynamic else .listing (listing d place)

variable {o : Origin} {d : Disk} {p : Path} {place : Location} {e : Entry}

/-! ### Listings -/

theorem mem_listing_iff :
    e ∈ listing d place ↔ ∃ n x, (n, x) ∈ d.children place ∧ entryOf d (n, x) = some e := by
  unfold listing
  rw [List.mem_mergeSort, List.mem_filterMap]
  constructor
  · intro h
    obtain ⟨⟨n, x⟩, hmem, hentry⟩ := h
    exact ⟨n, x, hmem, hentry⟩
  · intro h
    obtain ⟨n, x, hmem, hentry⟩ := h
    exact ⟨(n, x), hmem, hentry⟩

theorem entryOf_eq_some {n : Name} {x : Object} (h : entryOf d (n, x) = some e) :
    n = Utf8.encode e.name ∧ IsEntryName e.name := by
  unfold entryOf at h
  dsimp only at h
  cases hn : Utf8.decode n with
  | none =>
      rw [hn] at h
      cases h
  | some name =>
      have hencode : n = Utf8.encode name := (Utf8.encode_of_decode hn).symm
      rw [hn] at h
      dsimp only at h
      split at h
      · cases h
      · next hname =>
          have hname : IsEntryName name := not_not.mp hname
          cases x with
          | directory t =>
              cases h
              exact ⟨hencode, hname⟩
          | file id =>
              dsimp only at h
              split at h <;> cases h
              exact ⟨hencode, hname⟩
          | link | pipe => cases h

/-- The names of one directory are different. -/
theorem pairwise_children (h : d.IsProper) (place : Location) :
    (d.children place).Pairwise fun c c' => c.1 ≠ c'.1 := by
  -- a row alone is a disk with that child only
  have hrow {row : Location × Object} {c : Name × Object}
      (hc : c ∈ ({ d with objects := [row] } : Disk).children place) : row.1 = place ++ [c.1] := by
    rw [← List.mem_singleton.mp (Disk.mem_children_iff.mp hc)]
  have hkeys : d.objects.Pairwise fun row row' => row.1 ≠ row'.1 := List.pairwise_map.mp h.keys
  unfold Disk.children
  rw [List.pairwise_filterMap]
  refine hkeys.imp fun {row row'} hne c hc c' hc' heq => hne ?_
  have hmem := hrow (List.mem_filterMap.mpr ⟨row, List.mem_singleton_self _, hc⟩)
  have hmem' := hrow (List.mem_filterMap.mpr ⟨row', List.mem_singleton_self _, hc'⟩)
  rw [hmem, hmem', heq]

theorem isListing_listing (h : d.IsProper) (place : Location) : IsListing (listing d place) := by
  constructor
  · intro e he
    obtain ⟨n, x, -, hentry⟩ := mem_listing_iff.mp he
    exact (entryOf_eq_some hentry).2
  · have hentries : ((d.children place).filterMap (entryOf d)).Pairwise
        fun e e' => e.name ≠ e'.name := by
      rw [List.pairwise_filterMap]
      refine (pairwise_children h place).imp fun hne e he e' he' heq => hne ?_
      rw [(entryOf_eq_some he).1, (entryOf_eq_some he').1, heq]
    have hnodup : (((d.children place).filterMap (entryOf d)).map (·.name)).Nodup :=
      List.pairwise_map.mpr hentries
    exact (((List.mergeSort_perm _ _).map _).nodup_iff).mpr hnodup

theorem wellListed_indexOf (h : d.IsProper) (o : Origin) (p : Path) (place : Location) :
    ∀ entries, o.indexOf d p place = .listing entries → IsListing entries := by
  intro entries hindex
  unfold indexOf at hindex
  split at hindex
  · cases hindex
  · cases hindex
    exact isListing_listing h place

/-! ### Answers -/

variable {s : Store} {b : Body}

theorem find_of_item_directory (h : o.item? d p = some (.directory place)) :
    ∃ t, d.find true (o.source p) = .ok (place, .directory t) := by
  unfold item? at h
  split at h
  · next q t hfind =>
      cases h
      exact ⟨t, hfind⟩
  · obtain ⟨b, -, hb⟩ := Option.map_eq_some_iff.mp h
    cases hb
  · cases h

theorem find_of_item_file (h : o.item? d p = some (.file b)) :
    ∃ q id, d.find true (o.source p) = .ok (q, .file id) ∧ d.body? id = some b := by
  unfold item? at h
  split at h
  · cases h
  · next q id hfind =>
      obtain ⟨b', hbody, hb⟩ := Option.map_eq_some_iff.mp h
      cases hb
      exact ⟨q, id, hfind, hbody⟩
  · cases h

theorem answer_of_none (h : o.item? s.disk p = none) : (o.answer s p).1 = s := by
  unfold item? at h
  unfold answer
  rcases hfind : s.disk.find true (o.source p) with fault | ⟨q, x⟩ <;> rw [hfind] at h
  · split
    · rfl
    · rfl
    · next heq => cases heq
    · next heq => cases heq
    · rfl
  · cases x with
    | directory t => cases h
    | file id =>
        have hbody : s.disk.body? id = none := Option.map_eq_none_iff.mp h
        simp only [hbody]
    | link | pipe => rfl

theorem answer_of_directory (hproper : s.disk.IsProper)
    (h : o.item? s.disk p = some (.directory place)) :
    o.answer s p = s.publishIndex p (o.indexOf s.disk p place) := by
  have hlisting : Index.ofEntries (listing s.disk place) = .ok (.listing (listing s.disk place)) :=
    Index.ofEntries_eq_ok_iff.mpr ⟨rfl, isListing_listing hproper place⟩
  obtain ⟨t, hfind⟩ := find_of_item_directory h
  simp only [answer, hfind, hlisting, indexOf]
  split <;> rfl

theorem answer_of_file (h : o.item? s.disk p = some (.file b)) :
    o.answer s p = match s.publishFile p b.content with
      | (s, .ok ()) => s.setModified p b.mtime.seconds
      | (s, .error fault) => (s, .error fault) := by
  obtain ⟨q, id, hfind, hbody⟩ := find_of_item_file h
  rcases hpublish : s.publishFile p b.content with ⟨t, fault | _⟩ <;>
    simp only [answer, hfind, hbody, hpublish]

/-- What the origin has under a confined path, the cache can have too. -/
theorem isCarried_of_item {x : Item} (hp : p.IsConfined) (h : o.item? d p = some x) :
    p.IsCarried := by
  intro n hn
  have hmem : Utf8.encode n ∈ o.source p :=
    List.mem_append_right _ (List.mem_map_of_mem hn)
  have hplain : Disk.IsPlainName (Utf8.encode n) :=
    Store.isPlainName_encode (p.allSegments n hn) (hp n hn).2.2.2.1
  cases x with
  | directory place =>
      obtain ⟨t, hfind⟩ := find_of_item_directory h
      exact Disk.isCarried_of_find hfind hmem hplain
  | file b =>
      obtain ⟨q, id, hfind, -⟩ := find_of_item_file h
      exact Disk.isCarried_of_find hfind hmem hplain

end Origin

namespace Store
variable {s : Store} {p : Path} {n : String}

theorem change_fst (s : Store) (act : Disk → Disk.Outcome Unit) :
    (s.change act).1 = { s with disk := (act s.disk).1 } := by
  unfold change
  rcases act s.disk with ⟨d, r⟩
  rfl

/-- Publishing a body is one publication, or nothing at all. -/
theorem publishFile_fst (s : Store) (p : Path) (content : Bytes) :
    (s.publishFile p content).1 = s ∨ (s.publishFile p content).1 =
      { s with disk := (s.disk.publish (s.physical p).dropLast (s.physical p) content).1 } := by
  by_cases hplace : s.physical p = []
  · rw [publishFile_of_eq_nil hplace]
    exact .inl rfl
  · rw [publishFile_of_ne_nil hplace, change_fst]
    exact .inr rfl

theorem change_of_ok {act : Disk → Disk.Outcome Unit} (h : (act s.disk).2 = .ok ()) :
    s.change act = ({ s with disk := (act s.disk).1 }, .ok ()) := by
  unfold change
  revert h
  rcases act s.disk with ⟨d, r⟩
  rintro rfl
  rfl

theorem change_of_error {act : Disk → Disk.Outcome Unit} {fault : IoFault}
    (h : (act s.disk).2 = .error fault) :
    s.change act = ({ s with disk := (act s.disk).1 }, .error (.io fault)) := by
  unfold change
  revert h
  rcases act s.disk with ⟨d, r⟩
  rintro rfl
  rfl

theorem setModified_of_file {q : Location} {id : FileId}
    (h : s.disk.find true (s.physical p) = .ok (q, .file id)) (seconds : Int) :
    s.setModified p seconds =
      ({ s with disk := s.disk.setFileTime id (.ofSeconds seconds) }, .ok ()) := by
  have htime : s.disk.setTime (s.physical p) (.ofSeconds seconds) =
      (s.disk.setFileTime id (.ofSeconds seconds), .ok ()) := by
    rw [Disk.setTime, h]
  unfold setModified change
  dsimp only
  rw [htime]
  rfl

/-- There is a directory to put the copy of the path into, unless it is the root. -/
def IsHoused (s : Store) (p : Path) : Prop :=
  p = .root ∨ s.disk.stands (s.physical p).dropLast = some .directory

theorem physical_dropLast_extend (s : Store) (p : Path) (hn : IsSegment n) :
    (s.physical (p.extend n)).dropLast = s.physical p := by
  rw [s.physical_extend p hn, List.dropLast_concat]

theorem isHoused_extend_iff (s : Store) (p : Path) (hn : IsSegment n) :
    s.IsHoused (p.extend n) ↔ s.disk.stands (s.physical p) = some .directory := by
  rw [IsHoused, s.physical_dropLast_extend p hn]
  refine or_iff_right fun hroot => ?_
  have hempty := congrArg Path.isRoot hroot
  rw [p.isRoot_extend hn] at hempty
  cases hempty

/-- The directory of the copy is made, unless a file stands there. -/
theorem makeDirectories_physical (htree : s.disk.IsTree s.root) (hp : p.IsCarried)
    (hfits : Disk.Fits (s.physical p)) (hhoused : s.IsHoused p)
    (hfile : ∀ id, s.disk.stands (s.physical p) ≠ some (.file id)) :
    ∃ d, s.disk.makeDirectories (s.physical p) = (d, .ok ()) ∧
      Disk.Grows s.root (s.physical p) s.disk d ∧
      d.stands = Function.update s.disk.stands (s.physical p) (some .directory) := by
  have hprefix := s.root_prefix_physical p
  have hcarried := carried_physical htree.carried hp
  cases hstands : s.disk.stands (s.physical p) with
  | some x =>
      have hdir : s.disk.stands (s.physical p) = some .directory := by
        rcases htree.plain _ _ hprefix hstands with rfl | ⟨id, rfl⟩
        · exact hstands
        · exact absurd hstands (hfile id)
      refine ⟨s.disk, ?_, .refl htree _, ?_⟩
      · exact Disk.makeDirectories_of_directory hcarried hfits
          (htree.wayDown hprefix (by rw [hdir]; nofun)) hdir
      · rw [← hdir, Function.update_eq_self]
  | none =>
      rcases p.eq_root_or_extend with rfl | ⟨q, n, hn, rfl⟩
      · rw [s.physical_root, htree.isDirectory] at hstands
        cases hstands
      · have hup := (s.isHoused_extend_iff q hn).mp hhoused
        rw [s.physical_extend q hn] at hcarried hfits hstands ⊢
        exact Disk.makeDirectories_free htree (s.root_prefix_physical q) hcarried hfits hup hstands

end Store

namespace Origin
variable {o : Origin} {s : Store} {p : Path} {place : Location} {b : Body}

/-- An answer changes the disk and nothing else of the store. -/
theorem answer_fst (o : Origin) (s : Store) (p : Path) :
    (o.answer s p).1 = { s with disk := (o.answer s p).1.disk } := by
  have hindex (index : Index) :
      (s.publishIndex p index).1 = { s with disk := (s.publishIndex p index).1.disk } := by
    unfold Store.publishIndex
    rw [Store.change_fst]
  unfold answer
  split
  · rfl
  · rfl
  · split
    · exact hindex _
    · split
      · exact hindex _
      · rfl
  · split
    · rfl
    · have hfile (content : Bytes) :
          (s.publishFile p content).1 = { s with disk := (s.publishFile p content).1.disk } := by
        rcases s.publishFile_fst p content with hsame | hnew
        · rw [hsame]
        · rw [hnew]
      next b _ =>
        specialize hfile b.content
        revert hfile
        rcases s.publishFile p b.content with ⟨t, fault | _⟩
        · exact id
        · intro hfile
          dsimp only at hfile ⊢
          unfold Store.setModified
          rw [Store.change_fst, hfile]
  · rfl

/-- A directory of the origin becomes a directory, with an index of it if there is room to stage
one. -/
theorem answer_directory (htree : s.disk.IsTree s.root) (hproper : s.disk.IsProper)
    (hitem : o.item? s.disk p = some (.directory place)) (hp : p.IsCarried)
    (hfits : Disk.Fits (s.indexPlace p)) (hhoused : s.IsHoused p)
    (hfile : ∀ id, s.disk.stands (s.physical p) ≠ some (.file id))
    (hindex : s.disk.stands (s.indexPlace p) ≠ some .directory) :
    ∃ d d', (o.answer s p).1 = { s with disk := d' } ∧
      Disk.Grows s.root (s.physical p) s.disk d ∧
      d.stands = Function.update s.disk.stands (s.physical p) (some .directory) ∧
      ((Disk.HasRoom (s.physical p) ∧
          ∃ t, Disk.Puts d (s.indexPlace p) ⟨(o.indexOf s.disk p place).encode, t⟩ d') ∨
        ¬ Disk.HasRoom (s.physical p) ∧ Disk.Restores (s.physical p) d d') := by
  have hfitsDir : Disk.Fits (s.physical p) := hfits.of_append
  obtain ⟨d, hmade, hgrows, hstands⟩ :=
    Store.makeDirectories_physical htree hp hfitsDir hhoused hfile
  have hdir : d.stands (s.physical p) = some .directory := by
    rw [hstands, Function.update_self]
  have hfree : d.stands (s.indexPlace p) ≠ some .directory := by
    have hne : s.indexPlace p ≠ s.physical p := by simp [Store.indexPlace]
    rwa [hstands, Function.update_of_ne hne]
  have hanswer : (o.answer s p).1 = { s with disk :=
      (s.disk.publish (s.physical p) (s.indexPlace p) (o.indexOf s.disk p place).encode).1 } := by
    rw [answer_of_directory hproper hitem, Store.publishIndex, Store.change_fst]
  rcases Disk.publish_of_made hmade hgrows.tree (s.root_prefix_physical p) hdir hfitsDir
    (Store.carried_indexPlace htree.carried hp) Store.indexName_ne_stagingName
    (o.indexOf s.disk p place).encode with ⟨-, -, hroom, -, hputs⟩ | ⟨hnot, -, hrestores⟩
  · exact ⟨d, _, hanswer, hgrows, hstands, .inl ⟨hroom, _, hputs⟩⟩
  · rcases hnot with hnot | hnot | hnot
    · exact absurd hnot hfree
    · exact absurd hfits hnot
    · exact ⟨d, _, hanswer, hgrows, hstands, .inr ⟨hnot, hrestores⟩⟩

/-- What was published is given the time of the origin's file. -/
theorem answer_of_puts {d : Disk} {t : Timestamp} (hitem : o.item? s.disk p = some (.file b))
    (hp : p.IsCarried) (hne : s.physical p ≠ []) (hfits : Disk.Fits (s.physical p))
    (hok : (s.disk.publish (s.physical p).dropLast (s.physical p) b.content).2 = .ok ())
    (htree : (s.disk.publish (s.physical p).dropLast (s.physical p) b.content).1.IsTree s.root)
    (hputs : Disk.Puts d (s.physical p) ⟨b.content, t⟩
      (s.disk.publish (s.physical p).dropLast (s.physical p) b.content).1) :
    ∃ d', o.answer s p = ({ s with disk := d' }, .ok ()) ∧
      Disk.Puts d (s.physical p) ⟨b.content, .ofSeconds b.mtime.seconds⟩ d' := by
  have hfile := htree.find_of_at? (s.root_prefix_physical p)
    (Store.carried_physical htree.carried hp) hfits (Disk.stands_eq_file_iff.mp hputs.self) true
  refine ⟨_, ?_, hputs.setFileTime⟩
  rw [answer_of_file hitem, Store.publishFile_of_ne_nil hne, Store.change_of_ok hok]
  exact Store.setModified_of_file hfile _

/-- A file of the origin becomes a file with its content and time, in the place of any other. -/
theorem answer_file (htree : s.disk.IsTree s.root) (hitem : o.item? s.disk p = some (.file b))
    (hp : p.IsCarried) (hconfined : p.IsConfined) (hfits : Disk.Fits (s.physical p))
    (hroom : Disk.HasRoom (s.physical p).dropLast)
    (hup : s.disk.stands (s.physical p).dropLast = some .directory)
    (hfree : s.disk.stands (s.physical p) ≠ some .directory) :
    ∃ d, o.answer s p = ({ s with disk := d }, .ok ()) ∧
      Disk.Puts s.disk (s.physical p) ⟨b.content, .ofSeconds b.mtime.seconds⟩ d := by
  rcases p.eq_root_or_extend with rfl | ⟨q, n, hn, rfl⟩
  · rw [s.physical_root, htree.isDirectory] at hfree
    exact absurd rfl hfree
  · have hprefix := s.root_prefix_physical q
    have hcarried := Store.carried_physical htree.carried hp
    have hreserved : ¬ IsReserved n := ((Path.isConfined_extend_iff hn).mp hconfined).2.2
    have hplace := s.physical_extend q hn
    have hdropLast := s.physical_dropLast_extend q hn
    have hne : s.physical (q.extend n) ≠ [] := by simp [hplace]
    rw [hdropLast] at hup hroom
    rw [hplace] at hcarried hfits hfree
    have hcarriedUp : ∀ m ∈ s.physical q, Disk.IsCarried m :=
      fun m hm => hcarried m (List.mem_append_left _ hm)
    have hmade := Disk.makeDirectories_of_directory hcarriedUp hfits.of_append
      (htree.wayDown hprefix (by rw [hup]; nofun)) hup
    rcases Disk.publish_of_made hmade htree hprefix hup hfits.of_append hcarried
      (Disk.ne_stagingName_of_encode hreserved) b.content with ⟨-, -, -, hok, hputs⟩ | ⟨hnot, -⟩
    · have htree' := hputs.tree htree hprefix hup hfree
      rw [← hplace, ← hdropLast] at hok htree' hputs
      rw [← hplace] at hfits
      exact answer_of_puts hitem hp hne hfits hok htree' hputs
    · rcases hnot with hnot | hnot | hnot
      · exact absurd hnot hfree
      · exact absurd hfits hnot
      · exact absurd hroom hnot

/-- Giving a file its time moves nothing. -/
theorem setModified_cases (s : Store) (p : Path) (seconds : Int) :
    (s.setModified p seconds).1 = s ∨ ∃ id, (s.setModified p seconds).1 =
      { s with disk := s.disk.setFileTime id (.ofSeconds seconds) } := by
  unfold Store.setModified
  rw [Store.change_fst]
  unfold Disk.setTime
  split
  · exact .inl rfl
  · exact .inr ⟨_, rfl⟩
  · exact .inl rfl
  · exact .inl rfl

theorem stands_setModified (s : Store) (p : Path) (seconds : Int) :
    (s.setModified p seconds).1.disk.stands = s.disk.stands := by
  rcases setModified_cases s p seconds with hsame | ⟨id, htime⟩
  · rw [hsame]
  · rw [htime]
    exact Disk.stands_setFileTime _ _ _

theorem tree_setModified {top : Location} (h : s.disk.IsTree top) (p : Path) (seconds : Int) :
    (s.setModified p seconds).1.disk.IsTree top := by
  rcases setModified_cases s p seconds with hsame | ⟨id, htime⟩
  · rwa [hsame]
  · rw [htime]
    refine h.congr (Disk.stands_setFileTime _ _ _) ?_ fun id' hid' => ?_
    · exact Nat.le_of_eq (Disk.nextFile_setFileTime _ _ _).symm
    · rw [Disk.body?_setFileTime]
      split
      · next heq =>
          rw [Option.isSome_map, ← heq]
          exact hid'
      · exact hid'

/-- Where a directory stands no file is put. -/
theorem stands_answer_file (htree : s.disk.IsTree s.root)
    (hitem : o.item? s.disk p = some (.file b))
    (hp : p.IsCarried) (hfits : Disk.Fits (s.physical p))
    (hdir : s.disk.stands (s.physical p) = some .directory) :
    (o.answer s p).1.disk.stands = s.disk.stands := by
  have hprefix := s.root_prefix_physical p
  have hrestores := (Disk.publish_directory (Store.carried_physical htree.carried hp) hfits
    (htree.wayDown hprefix (by rw [hdir]; nofun)) hdir b.content).2
  have hpublished : (s.publishFile p b.content).1.disk.stands = s.disk.stands := by
    rcases s.publishFile_fst p b.content with hsame | hnew
    · rw [hsame]
    · rw [hnew]
      exact hrestores.stands
  rw [answer_of_file hitem]
  revert hpublished
  rcases s.publishFile p b.content with ⟨t, fault | _⟩
  · exact id
  · exact fun hpublished => (stands_setModified t p _).trans hpublished

/-- Where a file stands no directory is made. -/
theorem stands_answer_directory (htree : s.disk.IsTree s.root) (hproper : s.disk.IsProper)
    (hitem : o.item? s.disk p = some (.directory place)) (hp : p.IsCarried) {id : FileId}
    (hfile : s.disk.stands (s.physical p) = some (.file id)) :
    (o.answer s p).1.disk.stands (s.physical p) = some (.file id) := by
  rcases p.eq_root_or_extend with rfl | ⟨q, n, hn, rfl⟩
  · rw [s.physical_root, htree.isDirectory] at hfile
    cases hfile
  · have hcarried := Store.carried_physical htree.carried hp
    have hprefix := s.root_prefix_physical (q.extend n)
    have hmakes := Disk.makes_makeDirectories htree hprefix hcarried
    have hfail : ∃ fault, (s.disk.makeDirectories (s.physical (q.extend n))).2 = .error fault := by
      rw [s.physical_extend q hn] at hcarried hfile ⊢
      exact Disk.makeDirectories_file htree (s.root_prefix_physical q) hcarried hfile
    rw [answer_of_directory hproper hitem]
    unfold Store.publishIndex
    rw [Store.change_fst, Disk.publish_eq]
    revert hmakes hfail
    rcases s.disk.makeDirectories (s.physical (q.extend n)) with ⟨d, fault | _⟩
    · exact fun hmakes _ => hmakes.grows.file_iff.mpr hfile
    · intro _ hfail
      obtain ⟨fault, hfail⟩ := hfail
      cases hfail

/-- Answers keep the cache a tree, whatever they find in the origin. -/
theorem extends_answer (htree : s.disk.IsTree s.root) (hproper : s.disk.IsProper)
    (hp : p.IsConfined) :
    Disk.Extends s.root (s.physical p) s.disk (o.answer s p).1.disk := by
  cases hitem : o.item? s.disk p with
  | none =>
      rw [answer_of_none hitem]
      exact .refl htree _
  | some x =>
      have hcarried := isCarried_of_item hp hitem
      cases x with
      | directory place =>
          rw [answer_of_directory hproper hitem]
          unfold Store.publishIndex
          rw [Store.change_fst]
          exact Disk.extends_publish htree (s.root_prefix_physical p)
            (Store.carried_indexPlace htree.carried hcarried) Store.indexName_ne_stagingName _
      | file b =>
          have hpublished : Disk.Extends s.root (s.physical p) s.disk
              (s.publishFile p b.content).1.disk := by
            rcases s.publishFile_fst p b.content with hsame | hnew
            · rw [hsame]
              exact .refl htree _
            rw [hnew]
            rcases p.eq_root_or_extend with rfl | ⟨q, n, hn, rfl⟩
            · have hrestores := (Disk.publish_directory htree.carried htree.fits htree.way
                htree.isDirectory b.content).2
              rw [s.physical_root]
              exact (Disk.Extends.refl htree _).congr (hrestores.tree htree) hrestores.stands
            · have hplaced := Store.carried_physical htree.carried hcarried
              have hreserved : ¬ IsReserved n := ((Path.isConfined_extend_iff hn).mp hp).2.2
              rw [s.physical_extend q hn] at hplaced ⊢
              rw [List.dropLast_concat]
              exact (Disk.extends_publish htree (s.root_prefix_physical q) hplaced
                (Disk.ne_stagingName_of_encode hreserved) _).mono (List.prefix_append _ _)
          rw [answer_of_file hitem]
          revert hpublished
          rcases s.publishFile p b.content with ⟨t, fault | _⟩
          · exact id
          · exact fun hpublished => hpublished.congr (tree_setModified hpublished.tree p _)
              (stands_setModified t p _)

/-- Answers keep the disk proper. -/
theorem isProper_answer (hproper : s.disk.IsProper) : (o.answer s p).1.disk.IsProper := by
  cases hitem : o.item? s.disk p with
  | none => rwa [answer_of_none hitem]
  | some x =>
      cases x with
      | directory place =>
          rw [answer_of_directory hproper hitem]
          unfold Store.publishIndex
          rw [Store.change_fst]
          exact hproper.publish _ _ _
      | file b =>
          have hpublished : (s.publishFile p b.content).1.disk.IsProper := by
            rcases s.publishFile_fst p b.content with hsame | hnew
            · rwa [hsame]
            · rw [hnew]
              exact hproper.publish _ _ _
          rw [answer_of_file hitem]
          revert hpublished
          rcases s.publishFile p b.content with ⟨t, fault | _⟩
          · exact id
          · intro hpublished
            rcases setModified_cases t p b.mtime.seconds with hsame | ⟨id, htime⟩
            · rwa [hsame]
            · rw [htime]
              exact hpublished.setFileTime _ _

end Origin
end OnDemandFs
