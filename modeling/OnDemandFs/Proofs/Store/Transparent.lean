import OnDemandFs.Proofs.Store.Reports
import OnDemandFs.Store.Publish

/-!
# The memory of indices is transparent

A store lives through reads, publications, removals and whatever others do to its directory, and its
memory may lose rows at any time. A remembered index can be out of date; what saves it is the stamp.
The invariant says for each row which bytes it stands for: at some time in the past the index file
of the directory held them under the stamp of the row, they were within the limit, and the index is
what they decode to. As long as a stamp tells the bytes of one index file apart, a row that is hit
therefore stands for what is on the disk now, and a hit may skip both checks.
-/
namespace OnDemandFs.Store

/-- The index file of a directory: its stamp and its bytes. -/
def indexFile? (s : Store) (dir : Path) : Option (Stamp × Bytes) :=
  match s.disk.find true (s.indexPlace dir) with
  | .ok (_, .file id) => (s.disk.body? id).map fun body => (stampOf id body, body.content)
  | _ => none

/-- The states of a store since it was opened, the latest first. Between two of its operations the
disk may become any other, and its memory any that holds nothing but rows it has held before: rows
may be lost, and may even come back. -/
inductive History : List Store → Prop
  | opened {d : Disk} {root : List Name} {maxIndexBytes capacity : Nat} {s : Store} :
      openAt d root maxIndexBytes capacity = .ok s → History [s]
  | readIndex {s : Store} {past : List Store} (text : String) : History (s :: past) →
      History ((s.readIndex (.ofText text)).1 :: s :: past)
  | publishIndex {s : Store} {past : List Store} (text : String) (index : Index) :
      History (s :: past) → History ((s.publishIndex (.ofText text) index).1 :: s :: past)
  | remove {s : Store} {past : List Store} (text : String) : History (s :: past) →
      History ((s.remove (.ofText text)).1 :: s :: past)
  | createDirectory {s : Store} {past : List Store} (text : String) : History (s :: past) →
      History ((s.createDirectory (.ofText text)).1 :: s :: past)
  | outside {s : Store} {past : List Store} (disk : Disk) : History (s :: past) →
      History ({ s with disk } :: s :: past)
  | evict {s : Store} {past : List Store} (indices : IndexCache) : History (s :: past) →
      (∀ dir row, indices.known.get? dir = some row →
        ∃ t ∈ s :: past, t.indices.known.get? dir = some row) →
      History ({ s with indices } :: s :: past)

/-- At no two times did the index file of one directory carry one stamp and different bytes. -/
def StampsTell (states : List Store) : Prop :=
  ∀ s ∈ states, ∀ t ∈ states, ∀ dir stamp bytes bytes', s.indexFile? dir = some (stamp, bytes) →
    t.indexFile? dir = some (stamp, bytes') → bytes = bytes'

/-- Each row that was ever remembered stands for bytes that the index file of its directory had at
some time. -/
structure Sourced (states : List Store) : Prop where
  limit : ∀ s ∈ states, ∀ t ∈ states, s.maxIndexBytes = t.maxIndexBytes
  row : ∀ s ∈ states, ∀ dir stamp index, s.indices.known.get? dir = some (stamp, index) →
    ∃ t ∈ states, ∃ bytes, t.indexFile? dir = some (stamp, bytes) ∧
      bytes.length ≤ t.maxIndexBytes ∧ Index.decode bytes = .ok index

variable {s s' : Store} {past states : List Store} {dir : Path}

theorem indexFile?_eq_some_iff {stamp : Stamp} {bytes : Bytes} :
    s.indexFile? dir = some (stamp, bytes) ↔ ∃ place id body,
      s.disk.find true (s.indexPlace dir) = .ok (place, .file id) ∧ s.disk.body? id = some body ∧
        stamp = stampOf id body ∧ bytes = body.content := by
  unfold indexFile?
  constructor
  · intro h
    split at h
    · next place id hfind =>
        obtain ⟨body, hbody, heq⟩ := Option.map_eq_some_iff.mp h
        cases heq
        exact ⟨place, id, body, hfind, hbody, rfl, rfl⟩
    · cases h
  · rintro ⟨place, id, body, hfind, hbody, rfl, rfl⟩
    rw [hfind]
    exact Option.map_eq_some_iff.mpr ⟨body, hbody, rfl⟩

theorem maxIndexBytes_readIndex (s : Store) (dir : Path) :
    (s.readIndex dir).1.maxIndexBytes = s.maxIndexBytes := by
  obtain ⟨indices, hread, -⟩ := s.readIndex_effect dir
  rw [hread]

theorem maxIndexBytes_remove (s : Store) (p : Path) :
    (s.remove p).1.maxIndexBytes = s.maxIndexBytes := by
  unfold Store.remove
  split
  · rfl
  · split_ifs <;> rfl

theorem row_remove {p q : Path} {row : Stamp × Index}
    (h : (s.remove p).1.indices.known.get? q = some row) : s.indices.known.get? q = some row := by
  unfold Store.remove at h
  split at h
  · exact IndexCache.row_of_forget h
  · split_ifs at h <;> exact h

/-- One more state, whose rows are known from before or were just read. -/
theorem Sourced.cons (h : Sourced (s :: past)) (hlimit : s'.maxIndexBytes = s.maxIndexBytes)
    (hrow : ∀ dir stamp index, s'.indices.known.get? dir = some (stamp, index) →
      (∃ t ∈ s :: past, t.indices.known.get? dir = some (stamp, index)) ∨
      ∃ bytes, s.indexFile? dir = some (stamp, bytes) ∧ bytes.length ≤ s.maxIndexBytes ∧
        Index.decode bytes = .ok index) : Sourced (s' :: s :: past) := by
  have hlimits : ∀ t ∈ s' :: s :: past, t.maxIndexBytes = s.maxIndexBytes := by
    intro t ht
    rcases List.mem_cons.mp ht with rfl | ht
    · exact hlimit
    · exact h.limit t ht s List.mem_cons_self
  refine ⟨fun t ht u hu => (hlimits t ht).trans (hlimits u hu).symm, ?_⟩
  intro t ht dir stamp index hknown
  have hpast (hknown : ∃ t ∈ s :: past, t.indices.known.get? dir = some (stamp, index)) :
      ∃ t ∈ s' :: s :: past, ∃ bytes, t.indexFile? dir = some (stamp, bytes) ∧
        bytes.length ≤ t.maxIndexBytes ∧ Index.decode bytes = .ok index := by
    obtain ⟨t, ht, hknown⟩ := hknown
    obtain ⟨u, hu, hsource⟩ := h.row t ht dir stamp index hknown
    exact ⟨u, List.mem_cons_of_mem _ hu, hsource⟩
  rcases List.mem_cons.mp ht with rfl | ht
  · rcases hrow dir stamp index hknown with hold | hread
    · exact hpast hold
    · exact ⟨s, List.mem_cons_of_mem _ List.mem_cons_self, hread⟩
  · exact hpast ⟨t, ht, hknown⟩

theorem sourced_of_history (h : History states) : Sourced states := by
  induction h with
  | @opened d root maxIndexBytes capacity s hopen =>
      have hempty : s.indices.known = [] := by
        obtain ⟨place, rfl⟩ := of_openAt hopen
        rfl
      refine ⟨fun t ht u hu => ?_, fun t ht dir stamp index hrow => ?_⟩
      · rw [List.mem_singleton.mp ht, List.mem_singleton.mp hu]
      · rw [List.mem_singleton.mp ht, hempty] at hrow
        cases hrow
  | @readIndex s past text _ ih =>
      refine ih.cons (maxIndexBytes_readIndex s _) fun dir stamp index hrow => ?_
      rcases row_readIndex hrow with
        hold | ⟨rfl, place, id, body, hfind, hbody, hdecode, hlength, hstamp⟩
      · exact .inl ⟨s, List.mem_cons_self, hold⟩
      · exact .inr ⟨body.content,
          indexFile?_eq_some_iff.mpr ⟨place, id, body, hfind, hbody, hstamp, rfl⟩, hlength, hdecode⟩
  | @publishIndex s past text index _ ih =>
      exact ih.cons rfl fun dir stamp index hrow => .inl ⟨s, List.mem_cons_self, hrow⟩
  | @remove s past text _ ih =>
      exact ih.cons (maxIndexBytes_remove s _) fun dir stamp index hrow =>
        .inl ⟨s, List.mem_cons_self, row_remove hrow⟩
  | @createDirectory s past text _ ih =>
      exact ih.cons rfl fun dir stamp index hrow => .inl ⟨s, List.mem_cons_self, hrow⟩
  | @outside s past disk _ ih =>
      exact ih.cons rfl fun dir stamp index hrow => .inl ⟨s, List.mem_cons_self, hrow⟩
  | evict indices _ hheld ih =>
      exact ih.cons rfl fun dir stamp index hrow => .inl (hheld dir _ hrow)

theorem truthful_of_sourced (h : Sourced states) (hstamps : StampsTell states) (hs : s ∈ states) :
    s.Truthful := by
  intro dir stamp index hrow place id body hfind hbody hstamp
  obtain ⟨t, ht, bytes, hfile, hlength, hdecode⟩ := h.row s hs dir stamp index hrow
  have hnow : s.indexFile? dir = some (stamp, body.content) :=
    indexFile?_eq_some_iff.mpr ⟨place, id, body, hfind, hbody, hstamp.symm, rfl⟩
  have hsame : bytes = body.content := hstamps t ht s hs dir stamp _ _ hfile hnow
  rw [hsame] at hlength hdecode
  rw [h.limit t ht s hs] at hlength
  exact decoded_of_decode hlength hdecode

/-- Without a memory an index is what its file says. -/
theorem indexOnDisk_eq_forgetAll (s : Store) (dir : Path) :
    s.indexOnDisk dir = ({ s with indices := s.indices.forgetAll }.readIndex dir).2 :=
  (index?_eq { s with indices := s.indices.forgetAll } dir).symm

/-- Whatever happened since the store was opened, a read answers as if it had no memory, if a stamp
never stood for two contents of one index file. -/
theorem readIndex_transparent (h : History (s :: past)) (hstamps : StampsTell (s :: past))
    (text : String) : (s.readIndex (.ofText text)).2 = s.indexOnDisk (.ofText text) :=
  index?_eq_indexOnDisk (truthful_of_sourced (sourced_of_history h) hstamps List.mem_cons_self) _

/-- Stamps tell if no file ever has one stamp and two contents, whatever it is called. -/
theorem stampsTell_of_bodies (h : ∀ s ∈ states, ∀ t ∈ states, ∀ row ∈ s.disk.bodies,
    ∀ row' ∈ t.disk.bodies, stampOf row.1 row.2 = stampOf row'.1 row'.2 →
      row.2.content = row'.2.content) : StampsTell states := by
  intro s hs t ht dir stamp bytes bytes' hfile hfile'
  obtain ⟨-, id, body, -, hbody, hstamp, rfl⟩ := indexFile?_eq_some_iff.mp hfile
  obtain ⟨-, id', body', -, hbody', hstamp', rfl⟩ := indexFile?_eq_some_iff.mp hfile'
  exact h s hs t ht (id, body) (Table.mem_of_get? hbody) (id', body') (Table.mem_of_get? hbody')
    (hstamp.symm.trans hstamp')

/-- A new store over an empty directory. -/
def loft : Store := ⟨[], 100, .empty ⟨7, 0⟩, { capacity := 4 }⟩

def loftPublished : Store := (loft.publishIndex (.ofText "/d") .dynamic).1

def loftRead : Store := (loftPublished.readIndex (.ofText "d/")).1

def loftRepublished : Store :=
  (loftRead.publishIndex (.ofText "/d") (.listing [⟨.file, 5, 0, "a"⟩])).1

/-- An index is published, read and published again. The old one is still remembered, and the next
read does not give it. -/
theorem readIndex_transparent_loft :
    History [loftRepublished, loftRead, loftPublished, loft] ∧
      StampsTell [loftRepublished, loftRead, loftPublished, loft] ∧
      loftRepublished.indices.known.map (·.2.2) = [.dynamic] ∧
      (loftRepublished.readIndex (.ofText "//d")).2 = loftRepublished.indexOnDisk (.ofText "//d") ∧
      loftRepublished.indexOnDisk (.ofText "//d") = .ok (some (.listing [⟨.file, 5, 0, "a"⟩])) := by
  have hopen : openAt (.empty ⟨7, 0⟩) [] 100 4 = .ok loft := rfl
  have hhistory : History [loftRepublished, loftRead, loftPublished, loft] :=
    .publishIndex "/d" _ (.readIndex "d/" (.publishIndex "/d" _ (.opened hopen)))
  have hstamps : StampsTell [loftRepublished, loftRead, loftPublished, loft] :=
    stampsTell_of_bodies (by decide +kernel)
  exact ⟨hhistory, hstamps, by decide +kernel, readIndex_transparent hhistory hstamps "//d",
    by decide +kernel⟩

end OnDemandFs.Store
