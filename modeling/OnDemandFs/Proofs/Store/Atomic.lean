import OnDemandFs.Proofs.Disk.Between
import OnDemandFs.Proofs.Store.Copies
import OnDemandFs.Proofs.Store.Readers
import OnDemandFs.Store.Publish

/-!
# Publications are atomic

An index or a body is published while any number of reads of indices go on. A `Scene` is a moment in
between: the store, how far the publication has come, and how far each read. Whoever is next makes
one step; a step of the publication may fail, and the memory may lose rows at any time.

The invariant of a scene takes what the publication has done so far from `Publication.Effect`, and
says of each read in terms of the store before whether it has the old or the new version in hand: a
file that was there before keeps its body, and the new file is found only when nothing is written to
it any more. So each stamp goes with the content that it was taken with.
-/
namespace OnDemandFs

/-- What is published: the index of a directory, or the body of a file. -/
inductive Edition where
  | index (dir : Path) (index : Index)
  | body (p : Path) (content : Bytes)

namespace Edition

def path : Edition → Path
  | index dir _ => dir
  | body p _ => p

def target (s : Store) : Edition → Location
  | index dir _ => s.indexPlace dir
  | body p _ => s.physical p

def content : Edition → Bytes
  | index _ ix => ix.encode
  | body _ content => content

/-- The call that publishes it. -/
def publish (s : Store) : Edition → Store.Outcome Unit
  | index dir ix => s.publishIndex dir ix
  | body p content => s.publishFile p content

theorem publish_eq {s : Store} {e : Edition} (h : e.target s ≠ []) :
    e.publish s = s.change (·.publish (e.target s).dropLast (e.target s) e.content) := by
  cases e with
  | index dir ix =>
      have hup : (s.indexPlace dir).dropLast = s.physical dir := List.dropLast_concat
      rw [target, hup]
      rfl
  | body p content => exact Store.publishFile_of_ne_nil h content

/-- No body is put in the place of the top of the disk. -/
theorem publish_of_target_eq_nil {s : Store} {e : Edition} (h : e.target s = []) :
    e.publish s = (s, .error (.notAFile e.path.text)) := by
  cases e with
  | index dir ix => exact absurd h (List.concat_ne_nil _ _)
  | body p content => exact Store.publishFile_of_eq_nil h content

/-- What a read of the index of `dir` makes of the new file. -/
def reading (s : Store) (e : Edition) (dir : Path) : Except Fault (Option Index) :=
  s.decoded dir ⟨e.content, s.disk.clock⟩

end Edition

namespace Store

/-- The path of the directory leads down only, and past no link. -/
structure IsReadable (s : Store) (dir : Path) : Prop where
  down : ∀ n ∈ dir.names, n ≠ ".."
  straight : s.disk.Straight (s.indexPlace dir)

/-- Each remembered index goes with a file that was made, and is what this file decodes to as long
as it has the stamp that the index was remembered under. -/
def Recalls (s : Store) : Prop :=
  ∀ dir stamp index, s.indices.known.get? dir = some (stamp, index) →
    stamp.file < s.disk.nextFile ∧ ∀ body, s.disk.body? stamp.file = some body →
      stampOf stamp.file body = stamp →
        body.content.length ≤ s.maxIndexBytes ∧ Index.decode body.content = .ok index

theorem Recalls.truthful {s : Store} (h : s.Recalls) : s.Truthful := by
  intro dir stamp index hrow place id body hfind hbody hstamp
  subst hstamp
  obtain ⟨hlength, hdecode⟩ := (h dir _ index hrow).2 body hbody rfl
  exact decoded_of_decode hlength hdecode

end Store

/-- A publication under way, and the reads that go on meanwhile. -/
structure Scene where
  store : Store
  publication : Disk.Publication
  readers : List (Path × IndexRead)

namespace Scene

inductive Step (s : Store) (e : Edition) : Scene → Scene → Prop
  | publish {w : Scene} {disk : Disk} {publication : Disk.Publication} :
      Disk.Publication.Step (e.target s).dropLast (e.target s) e.content
        (w.store.disk, w.publication) (disk, publication) →
      Step s e w { w with store := { w.store with disk }, publication }
  | read {w : Scene} {i : Nat} {dir : Path} {r : IndexRead} : w.readers[i]? = some (dir, r) →
      Step s e w { w with
        store := (r.advance w.store dir).1
        readers := w.readers.set i (dir, (r.advance w.store dir).2) }
  | forget {w : Scene} (indices : IndexCache) :
      (∀ dir row, indices.known.get? dir = some row → w.store.indices.known.get? dir = some row) →
      Step s e w { w with store := { w.store with indices } }

/-- What can be met while `e` is published in `s`. -/
inductive Reachable (s : Store) (e : Edition) : Scene → Prop
  | start (dirs : List Path) : (∀ dir ∈ dirs, s.IsReadable dir) →
      Reachable s e ⟨s, .making, dirs.map fun dir => (dir, .opening)⟩
  | step {w w' : Scene} : Reachable s e w → Step s e w w' → Reachable s e w'

/-- What is promised of each moment of a publication. -/
structure Atomic (s : Store) (e : Edition) (w : Scene) : Prop where
  /-- The canonical name holds the old object or the new file, and that one is whole. -/
  target : w.store.disk.stands (e.target s) = s.disk.stands (e.target s) ∨
    (w.publication = .finished (.ok ()) ∧ ∃ id,
      w.store.disk.stands (e.target s) = some (.file id) ∧ s.disk.nextFile ≤ id ∧
        w.store.disk.content id = e.content)
  /-- All other names hold what they held, but for new directories on the way and
  the staged file. -/
  others : ∀ l, l ≠ e.target s → w.publication.staged? ≠ some l →
    w.store.disk.stands l = s.disk.stands l ∨
      (l <+: (e.target s).dropLast ∧ s.disk.stands l = none ∧
        w.store.disk.stands l = some .directory)
  /-- The staged file has a name of its own, which was free. -/
  staged : ∀ l, w.publication.staged? = some l → s.disk.stands l = none ∧
    ∃ n, Disk.IsStaging n ∧ l = (e.target s).dropLast ++ [n]
  /-- Who has an old file open keeps its content. -/
  files : ∀ id < s.disk.nextFile, w.store.disk.body? id = s.disk.body? id
  unlisted : ∀ dir names, w.store.listPhysical dir = .ok names →
    ∀ c ∈ names, ¬ Disk.IsStaging (Utf8.encode c.1)
  /-- A failure leaves no more than directories on the way. -/
  failed : ∀ fault, w.publication = .finished (.error fault) → ∀ l,
    w.store.disk.stands l = s.disk.stands l ∨
      (l <+: (e.target s).dropLast ∧ s.disk.stands l = none ∧
        w.store.disk.stands l = some .directory)
  /-- Nothing is published over a directory or below a file. -/
  possible : w.publication = .finished (.ok ()) → s.disk.stands (e.target s) ≠ some .directory ∧
    ∀ l id, l <+: (e.target s).dropLast → s.disk.stands l ≠ some (.file id)
  /-- After a success the target has a file that no name had, and its index is read. -/
  done : w.publication = .finished (.ok ()) → ∃ id,
    w.store.disk.stands (e.target s) = some (.file id) ∧ w.store.disk.content id = e.content ∧
      (∀ l, s.root <+: l → s.disk.stands l ≠ some (.file id)) ∧
      ∀ dir index, e = .index dir index → (w.store.readIndex dir).2 = e.reading s dir
  /-- A read gives the old answer or that of the new version, and no index for a path that the disk
  cannot carry. -/
  answers : ∀ dir answer, (dir, .finished answer) ∈ w.readers → answer = s.indexOnDisk dir ∨
    (w.publication = .finished (.ok ()) ∧ (∃ index, e = .index dir index) ∧
      answer = e.reading s dir) ∨
    (¬ dir.IsCarried ∧ ∀ index, answer ≠ .ok (some index))
  /-- No index is remembered under the stamp of another version. -/
  memory : w.store.Recalls

/-! ### The invariant -/

/-- The index file of `dir` is open, in the old version or in the new one. -/
structure InHand (s : Store) (e : Edition) (d : Disk) (p : Disk.Publication) (dir : Path)
    (id : FileId) (body : Body) : Prop where
  held : d.body? id = some body
  made : id < d.nextFile
  version : (id < s.disk.nextFile ∧ s.indexOnDisk dir = s.decoded dir body) ∨
    (p = .finished (.ok ()) ∧ s.indexPlace dir = e.target s ∧ body.content = e.content)

/-- The old answer, or that of the new version, or none at a path that nothing can be at. -/
def Told (s : Store) (e : Edition) (p : Disk.Publication) (dir : Path)
    (answer : Except Fault (Option Index)) : Prop :=
  answer = s.indexOnDisk dir ∨
    (p = .finished (.ok ()) ∧ s.indexPlace dir = e.target s ∧ answer = e.reading s dir) ∨
    (¬ dir.IsCarried ∧ ∀ index, answer ≠ .ok (some index))

/-- How far a read has come with one of the versions. -/
def Reads (s : Store) (e : Edition) (d : Disk) (p : Disk.Publication) (dir : Path) :
    IndexRead → Prop
  | .opening => True
  | .opened id => ∃ body, InHand s e d p dir id body
  | .stamped id stamp | .missed id stamp =>
    ∃ body, InHand s e d p dir id body ∧ stamp = Store.stampOf id body
  | .loaded stamp content => ∃ id body, InHand s e d p dir id body ∧
    stamp = Store.stampOf id body ∧ content = body.content ∧ content.length ≤ s.maxIndexBytes
  | .finished answer => Told s e p dir answer

/-- What holds at each moment. Only the old files and the new one once it is out have rows, so none
is remembered for a file that is still written to. -/
structure Sound (s : Store) (e : Edition) (w : Scene) : Prop where
  root : w.store.root = s.root
  limit : w.store.maxIndexBytes = s.maxIndexBytes
  effect : w.publication.Effect (e.target s).dropLast (e.target s) e.content s.disk w.store.disk
  memory : w.store.Recalls
  settled : ∀ dir stamp index, w.store.indices.known.get? dir = some (stamp, index) →
    stamp.file < s.disk.nextFile ∨ w.publication = .finished (.ok ())
  readers : ∀ x ∈ w.readers, s.IsReadable x.1 ∧
    Reads s e w.store.disk w.publication x.1 x.2

section Read
variable {s t : Store} {e : Edition} {d d' : Disk} {p p' : Disk.Publication} {dir : Path}
  {id : FileId} {body : Body} {r : IndexRead}

theorem decoded_congr {body' : Body} (h : body'.content = body.content) :
    s.decoded dir body' = s.decoded dir body := by
  rw [Store.decoded, Store.decoded, h]

theorem InHand.told (h : InHand s e d p dir id body) : Told s e p dir (s.decoded dir body) := by
  rcases h.version with ⟨-, hold⟩ | ⟨hdone, htarget, hcontent⟩
  · exact .inl hold.symm
  · exact .inr (.inl ⟨hdone, htarget, decoded_congr hcontent⟩)

/-- What is in hand stays as it is when the publication goes on. -/
theorem InHand.step (h : InHand s e d p dir id body) (hnext : s.disk.nextFile ≤ d'.nextFile)
    (hold : ∀ id < s.disk.nextFile, d'.body? id = d.body? id)
    (hdone : p = .finished (.ok ()) → d' = d ∧ p' = p) : InHand s e d' p' dir id body := by
  rcases h.version with ⟨hid, hversion⟩ | ⟨hp, hversion⟩
  · refine ⟨?_, Nat.lt_of_lt_of_le hid hnext, .inl ⟨hid, hversion⟩⟩
    rw [hold id hid, h.held]
  · obtain ⟨rfl, rfl⟩ := hdone hp
    exact ⟨h.held, h.made, .inr ⟨hp, hversion⟩⟩

theorem Told.step {answer : Except Fault (Option Index)} (h : Told s e p dir answer)
    (hdone : p = .finished (.ok ()) → p' = p) : Told s e p' dir answer := by
  rcases h with hold | ⟨hp, hnew⟩ | hnone
  · exact .inl hold
  · exact .inr (.inl ⟨(hdone hp).trans hp, hnew⟩)
  · exact .inr (.inr hnone)

theorem Reads.step (h : Reads s e d p dir r) (hnext : s.disk.nextFile ≤ d'.nextFile)
    (hold : ∀ id < s.disk.nextFile, d'.body? id = d.body? id)
    (hdone : p = .finished (.ok ()) → d' = d ∧ p' = p) : Reads s e d' p' dir r := by
  cases r with
  | opening => trivial
  | opened id =>
      obtain ⟨body, hhand⟩ := h
      exact ⟨body, hhand.step hnext hold hdone⟩
  | stamped id stamp =>
      obtain ⟨body, hhand, hstamp⟩ := h
      exact ⟨body, hhand.step hnext hold hdone, hstamp⟩
  | missed id stamp =>
      obtain ⟨body, hhand, hstamp⟩ := h
      exact ⟨body, hhand.step hnext hold hdone, hstamp⟩
  | loaded stamp content =>
      obtain ⟨id, body, hhand, hloaded⟩ := h
      exact ⟨id, body, hhand.step hnext hold hdone, hloaded⟩
  | finished answer => exact Told.step h fun hp => (hdone hp).2

end Read

/-! ### Reads -/

section Advance
variable {s t : Store} {e : Edition} {p : Disk.Publication} {dir : Path} {r : IndexRead}

theorem dropLast_target_above (s : Store) (e : Edition) :
    (e.target s).dropLast <+: s.physical e.path := by
  cases e with
  | index dir ix =>
      rw [Edition.target, Store.indexPlace, List.dropLast_concat]
      exact List.prefix_refl _
  | body p content => exact List.dropLast_prefix _

/-- No index lies on the way to the target. -/
theorem indexPlace_not_above (he : e.path.IsConfined) (dir : Path) :
    ¬ s.indexPlace dir <+: (e.target s).dropLast := by
  intro h
  have hprefix := h.trans (dropLast_target_above s e)
  rw [Store.indexPlace, Store.physical, Store.physical, List.append_assoc,
    List.prefix_append_right_inj] at hprefix
  have hmem : Store.indexName ∈ e.path.names.map Utf8.encode :=
    hprefix.subset (List.mem_append_right _ (List.mem_singleton_self _))
  obtain ⟨n, hn, hencode⟩ := List.mem_map.mp hmem
  exact Store.encode_ne_indexName (he n hn).2.2.2.2 hencode

theorem indexPlace_ne_staged (dir : Path) {up : List Name} {n : Name} (hn : Disk.IsStaging n) :
    s.indexPlace dir ≠ up ++ [n] := by
  intro heq
  obtain ⟨-, hname⟩ := List.append_inj' heq rfl
  refine Store.not_isStaging_indexName ?_
  rw [List.head_eq_of_cons_eq hname]
  exact hn

/-- Where a name is too long for the disk or has a nul in it, no index file is opened. -/
theorem reads_opening_not_carried (hrooted : s.disk.IsRooted s.root) (hdir : s.IsReadable dir)
    (hroot : t.root = s.root) (hnot : ¬ dir.IsCarried) :
    Reads s e t.disk p dir (IndexRead.opening.advance t dir).2 := by
  have hplain := Store.plain_indexPlace hrooted.carried hdir.down
  rw [← Store.indexPlace_of_root hroot] at hplain
  cases hfind : t.disk.find true (t.indexPlace dir) with
  | error fault =>
      rw [IndexRead.opening_of_error hfind]
      refine .inr (.inr ⟨hnot, fun index => ?_⟩)
      split <;> nofun
  | ok found =>
      refine absurd (fun n hn => ?_) hnot
      have hmem : Utf8.encode n ∈ t.indexPlace dir :=
        List.mem_append_left _ (List.mem_append_right _ (List.mem_map_of_mem hn))
      exact Disk.isCarried_of_find hfind hmem (hplain _ hmem)

/-- Where the index file is found as it was, the old version is opened or the old answer given. -/
theorem reads_of_sameFind (hrooted : s.disk.IsRooted s.root) (hdir : s.IsReadable dir)
    (hroot : t.root = s.root) (hnext : s.disk.nextFile ≤ t.disk.nextFile)
    (hbodies : ∀ id < s.disk.nextFile, t.disk.body? id = s.disk.body? id)
    (hsame : Disk.SameFind (s.disk.find true (s.indexPlace dir))
      (t.disk.find true (s.indexPlace dir))) :
    Reads s e t.disk p dir (IndexRead.opening.advance t dir).2 := by
  have hplace := Store.indexPlace_of_root hroot dir
  generalize hold : s.disk.find true (s.indexPlace dir) = old at hsame
  generalize hnew : t.disk.find true (s.indexPlace dir) = new at hsame
  rw [← hplace] at hnew
  cases hsame with
  | missing hmissing hmissing' =>
      rw [IndexRead.opening_of_error hnew, if_pos hmissing']
      left
      rw [Store.indexOnDisk, Store.report_of_error hold, if_pos hmissing]
  | failed fault =>
      rw [IndexRead.opening_of_error hnew]
      exact .inl (Store.report_of_error hold none).symm
  | @found l o o' hstand =>
      have hother (ho : ∀ id, o.stand ≠ .file id) :
          t.refusal dir "not a regular file" = s.indexOnDisk dir := by
        rw [Store.refusal_of_root hroot, Store.indexOnDisk, Store.report, hold]
        cases o with
        | file id => exact absurd rfl (ho id)
        | directory | link | pipe => rfl
      unfold IndexRead.advance
      dsimp only
      rw [hnew]
      cases o' with
      | file id =>
          obtain rfl : o = .file id := by
            cases o <;> cases hstand
            rfl
          obtain ⟨rfl, hat⟩ :=
            hdir.straight.find_place (Store.plain_indexPlace hrooted.carried hdir.down) hold
          obtain ⟨hid, hsome⟩ :=
            hrooted.filed _ id (s.root_prefix_indexPlace dir) (Disk.stands_of_at? hat)
          obtain ⟨body, hbody⟩ := Option.isSome_iff_exists.mp hsome
          exact ⟨body, (hbodies id hid).trans hbody, Nat.lt_of_lt_of_le hid hnext,
            .inl ⟨hid, Store.report_none hold hbody⟩⟩
      | directory | link | pipe =>
          refine .inl (hother fun id ho => ?_)
          rw [← hstand] at ho
          cases ho

/-- Whatever has been done so far, the index file that is opened is one of the two versions. -/
theorem reads_opening (hrooted : s.disk.IsRooted s.root) (he : e.path.IsConfined)
    (hdir : s.IsReadable dir) (hroot : t.root = s.root)
    (heffect : p.Effect (e.target s).dropLast (e.target s) e.content s.disk t.disk) :
    Reads s e t.disk p dir (IndexRead.opening.advance t dir).2 := by
  by_cases hpath : dir.IsCarried
  case neg => exact reads_opening_not_carried hrooted hdir hroot hpath
  rcases heffect.find hrooted (s.root_prefix_indexPlace dir)
    (Store.carried_indexPlace hrooted.carried hpath) hdir.straight (indexPlace_not_above he dir)
    (fun n hn => indexPlace_ne_staged dir hn) with hsame | ⟨hdone, htarget, id, hpublished, hfind⟩
  · exact reads_of_sameFind hrooted hdir hroot heffect.nextFile (fun id hid => heffect.bodies hid)
      hsame
  · obtain ⟨time, hbody⟩ := hpublished.body
    unfold IndexRead.advance
    dsimp only
    rw [Store.indexPlace_of_root hroot, hfind]
    exact ⟨_, hbody, hpublished.nextFile, .inr ⟨hdone, htarget, rfl⟩⟩

variable {w : Scene}

/-- A read goes on with the version that it has in hand. -/
theorem Sound.reads_advance (h : Sound s e w) (hrooted : s.disk.IsRooted s.root)
    (he : e.path.IsConfined) (hdir : s.IsReadable dir)
    (hreads : Reads s e w.store.disk w.publication dir r) :
    Reads s e w.store.disk w.publication dir (r.advance w.store dir).2 := by
  cases r with
  | opening => exact reads_opening hrooted he hdir h.root h.effect
  | opened id =>
      obtain ⟨body, hhand⟩ := hreads
      simp only [IndexRead.advance, hhand.held]
      exact ⟨body, hhand, rfl⟩
  | stamped id stamp =>
      obtain ⟨body, hhand, rfl⟩ := hreads
      rcases w.store.indices.lookup_cases dir (Store.stampOf id body) with
        ⟨index, hrow, hhit⟩ | ⟨c, hmiss, -⟩
      · -- a row that is hit is what the file in hand decodes to
        obtain ⟨hlength, hdecode⟩ := (h.memory dir _ index hrow).2 body hhand.held rfl
        rw [h.limit] at hlength
        simp only [IndexRead.advance, hhit]
        rw [← Store.decoded_of_decode hlength hdecode]
        exact hhand.told
      · simp only [IndexRead.advance, hmiss]
        exact ⟨body, hhand, rfl⟩
  | missed id stamp =>
      obtain ⟨body, hhand, rfl⟩ := hreads
      have hlength : (Store.stampOf id body).length = body.content.length := rfl
      unfold IndexRead.advance
      dsimp only
      rw [hlength, h.limit]
      split
      · next hlarge =>
          have hdecoded : s.decoded dir body = s.refusal dir (toString body.content.length ++
              " bytes exceeds limit of " ++ toString s.maxIndexBytes) := if_pos hlarge
          rw [Store.refusal_of_root h.root, ← hdecoded]
          exact hhand.told
      · next hsmall =>
          refine ⟨id, body, hhand, rfl, ?_, ?_⟩
          · rw [Disk.content, hhand.held]
          · rw [Disk.content, hhand.held]
            exact Nat.not_lt.mp hsmall
  | loaded stamp content =>
      obtain ⟨id, body, hhand, -, rfl, hlength⟩ := hreads
      unfold IndexRead.advance
      dsimp only
      split
      · next fault hdecode =>
          have hdecoded : s.decoded dir body = s.refusal dir fault.message := by
            rw [Store.decoded, if_neg (Nat.not_lt.mpr hlength), hdecode]
          rw [Store.refusal_of_root h.root, ← hdecoded]
          exact hhand.told
      · next index hdecode =>
          rw [← Store.decoded_of_decode hlength hdecode]
          exact hhand.told
  | finished answer => exact hreads

/-- What a read remembers goes with the file that it has in hand. -/
theorem Sound.row_advance (h : Sound s e w)
    (hreads : Reads s e w.store.disk w.publication dir r) {q : Path} {stamp : Stamp} {index : Index}
    (hrow : (r.advance w.store dir).1.indices.known.get? q = some (stamp, index)) :
    (stamp.file < s.disk.nextFile ∨ w.publication = .finished (.ok ())) ∧
      stamp.file < w.store.disk.nextFile ∧
      ∀ body, w.store.disk.body? stamp.file = some body → Store.stampOf stamp.file body = stamp →
        body.content.length ≤ w.store.maxIndexBytes ∧ Index.decode body.content = .ok index := by
  rcases IndexRead.row_advance hrow with hold | ⟨content, rfl, hdecode⟩
  · exact ⟨h.settled q stamp index hold, h.memory q stamp index hold⟩
  · obtain ⟨id, body, hhand, rfl, rfl, hlength⟩ := hreads
    refine ⟨?_, hhand.made, fun body' hheld _ => ?_⟩
    · rcases hhand.version with ⟨hid, -⟩ | ⟨hdone, -⟩
      · exact .inl hid
      · exact .inr hdone
    · cases hhand.held.symm.trans hheld
      rw [h.limit]
      exact ⟨hlength, hdecode⟩

end Advance

/-! ### Runs -/

section Run
variable {s : Store} {e : Edition} {w w' : Scene}

theorem isTarget (hrooted : s.disk.IsRooted s.root) (he : e.path.IsConfined)
    (hstraight : s.disk.Straight (e.target s).dropLast) : s.disk.IsTarget (e.target s) := by
  have hdown : ∀ n ∈ e.path.names, n ≠ ".." := fun n hn => (he n hn).2.2.2.1
  refine ⟨?_, hrooted.top_isDirectory, hstraight, fun n hn hfree heq => ?_⟩
  · cases e with
    | index dir ix => exact Store.plain_indexPlace hrooted.carried hdown
    | body p content => exact Store.plain_physical hrooted.carried hdown
  · cases e with
    | index dir ix => exact indexPlace_ne_staged dir hn heq.symm
    | body p content =>
        rcases p.eq_root_or_extend with rfl | ⟨q, m, hm, rfl⟩
        · -- the root itself is there, and the staged file is put where nothing is
          have hroot : (Edition.body .root content).target s = s.root := s.physical_root
          rw [heq, hroot, hrooted.isDirectory] at hfree
          cases hfree
        · have hplace : (Edition.body (q.extend m) content).target s =
              s.physical q ++ [Utf8.encode m] := s.physical_extend q hm
          rw [hplace, List.dropLast_concat] at heq
          have hname : n = Utf8.encode m := List.head_eq_of_cons_eq (List.append_cancel_left heq)
          have hreserved : ¬ IsReserved m := by
            refine (he m ?_).2.2.2.2
            rw [Edition.path, q.names_extend_of_isSegment hm]
            exact List.mem_append_right _ (List.mem_singleton_self _)
          rw [hname] at hn
          exact Disk.not_isStaging_encode hreserved hn

theorem sound_start (hmemory : s.Recalls) {dirs : List Path}
    (hdirs : ∀ dir ∈ dirs, s.IsReadable dir) :
    Sound s e ⟨s, .making, dirs.map fun dir => (dir, .opening)⟩ := by
  refine ⟨rfl, rfl, Disk.Paves.refl s.disk, hmemory,
    fun dir stamp index hrow => .inl (hmemory dir stamp index hrow).1, fun x hx => ?_⟩
  obtain ⟨dir, hdir, rfl⟩ := List.mem_map.mp hx
  exact ⟨hdirs dir hdir, trivial⟩

theorem Sound.step (h : Sound s e w) (hrooted : s.disk.IsRooted s.root) (he : e.path.IsConfined)
    (hstraight : s.disk.Straight (e.target s).dropLast) (hstep : Step s e w w') : Sound s e w' := by
  cases hstep with
  | @publish disk publication hstep =>
      have heffect := Disk.Publication.effect_step (isTarget hrooted he hstraight) hstep h.effect
      have hbodies (id : FileId) (hid : id < s.disk.nextFile) :
          disk.body? id = w.store.disk.body? id :=
        (heffect.bodies hid).trans (h.effect.bodies hid).symm
      have hdone (hp : w.publication = .finished (.ok ())) :
          disk = w.store.disk ∧ publication = w.publication := by
        rw [hp] at hstep ⊢
        exact Prod.mk.inj (Disk.Publication.eq_of_step_finished hstep)
      refine ⟨h.root, h.limit, heffect, fun dir stamp index hrow => ?_,
        fun dir stamp index hrow => ?_, fun x hx => ?_⟩
      · have hrecalled := h.memory dir stamp index hrow
        rcases h.settled dir stamp index hrow with hid | hp
        · refine ⟨Nat.lt_of_lt_of_le hid heffect.nextFile, fun body hbody => ?_⟩
          exact hrecalled.2 body ((hbodies _ hid).symm.trans hbody)
        · obtain ⟨rfl, -⟩ := hdone hp
          exact hrecalled
      · rcases h.settled dir stamp index hrow with hid | hp
        · exact .inl hid
        · exact .inr ((hdone hp).2.trans hp)
      · obtain ⟨hreadable, hreads⟩ := h.readers x hx
        exact ⟨hreadable, hreads.step heffect.nextFile hbodies hdone⟩
  | @read i dir r hreader =>
      have hmem : (dir, r) ∈ w.readers := List.mem_of_getElem? hreader
      obtain ⟨hreadable, hreads⟩ := h.readers _ hmem
      have hrows := @Sound.row_advance s e dir r w h hreads
      have hadvance := h.reads_advance hrooted he hreadable hreads
      rw [IndexRead.advance_fst]
      refine ⟨h.root, h.limit, h.effect, fun q stamp index hrow => (hrows hrow).2,
        fun q stamp index hrow => (hrows hrow).1, fun x hx => ?_⟩
      rcases List.mem_or_eq_of_mem_set hx with hold | rfl
      · exact h.readers x hold
      · exact ⟨hreadable, hadvance⟩
  | forget indices hkept =>
      exact ⟨h.root, h.limit, h.effect,
        fun dir stamp index hrow => h.memory dir stamp index (hkept dir _ hrow),
        fun dir stamp index hrow => h.settled dir stamp index (hkept dir _ hrow), h.readers⟩

theorem sound_of_reachable (hrooted : s.disk.IsRooted s.root) (he : e.path.IsConfined)
    (hstraight : s.disk.Straight (e.target s).dropLast) (hmemory : s.Recalls)
    (h : Reachable s e w) : Sound s e w := by
  induction h with
  | start dirs hdirs => exact sound_start hmemory hdirs
  | step _ hstep ih => exact ih.step hrooted he hstraight hstep

theorem decoded_eq (h : Sound s e w) (dir : Path) (body : Body) :
    w.store.decoded dir body = s.decoded dir body := by
  simp only [Store.decoded, h.limit, Store.refusal_of_root h.root]

/-- Once it is published, an index is what a read finds. -/
theorem Sound.readIndex (h : Sound s e w) {dir : Path} {index : Index} (he : e = .index dir index)
    {id : FileId}
    (hpublished : Disk.Published (e.target s).dropLast (e.target s) e.content s.disk id
      w.store.disk) : (w.store.readIndex dir).2 = e.reading s dir := by
  subst he
  have hfind : w.store.disk.find true (w.store.indexPlace dir) =
      .ok (s.indexPlace dir, .file id) := by
    rw [Store.indexPlace_of_root h.root]
    exact hpublished.found
  obtain ⟨t, hbody⟩ := hpublished.body
  calc (w.store.readIndex dir).2
    _ = w.store.indexOnDisk dir := Store.index?_eq_indexOnDisk h.memory.truthful dir
    _ = w.store.decoded dir _ := Store.report_none hfind hbody
    _ = s.decoded dir _ := decoded_eq h dir _
    _ = _ := decoded_congr rfl

theorem Sound.published (h : Sound s e w) (hdone : w.publication = .finished (.ok ())) :
    ∃ id, Disk.Published (e.target s).dropLast (e.target s) e.content s.disk id w.store.disk ∧
      w.store.disk.content id = e.content := by
  have heffect := h.effect
  rw [hdone] at heffect
  obtain ⟨id, hpublished⟩ := heffect
  obtain ⟨t, hbody⟩ := hpublished.body
  exact ⟨id, hpublished, by rw [Disk.content, hbody]⟩

/-- Until the publication is done, its target is left as it was. -/
theorem Sound.target (h : Sound s e w) (htarget : s.disk.IsTarget (e.target s))
    (hnot : w.publication ≠ .finished (.ok ())) :
    w.store.disk.stands (e.target s) = s.disk.stands (e.target s) := by
  have hstaged : w.publication.staged? ≠ some (e.target s) := by
    intro hstaged
    obtain ⟨id, hstaged⟩ := h.effect.staged hstaged
    obtain ⟨n, hn, heq⟩ := hstaged.name
    exact htarget.apart n hn (heq ▸ hstaged.free) heq.symm
  rcases h.effect.others hstaged fun hdone => absurd hdone hnot with hsame | ⟨hway, hfree, -⟩
  · exact hsame
  · -- only the top is on the way to itself, and it is there
    rw [Disk.eq_nil_of_prefix_dropLast hway, htarget.top] at hfree
    cases hfree

theorem atomic_of_sound (hrooted : s.disk.IsRooted s.root) (he : e.path.IsConfined)
    (hstraight : s.disk.Straight (e.target s).dropLast) (h : Sound s e w) : Atomic s e w := by
  have htarget := isTarget hrooted he hstraight
  have heffect := h.effect
  constructor
  case target =>
    by_cases hdone : w.publication = .finished (.ok ())
    · obtain ⟨id, hp, hcontent⟩ := h.published hdone
      exact .inr ⟨hdone, id, hp.stands, hp.fresh, hcontent⟩
    · exact .inl (h.target htarget hdone)
  case others => exact fun l hne hl => heffect.others hl fun _ => hne
  case staged =>
    intro l hl
    obtain ⟨id, hstaged⟩ := heffect.staged hl
    exact ⟨hstaged.free, hstaged.name⟩
  case files => exact fun id hid => heffect.bodies hid
  case unlisted =>
    exact fun dir names hlisted c hc =>
      Disk.not_isStaging_encode (Store.exists_of_mem_listPhysical hlisted hc).1
  case failed =>
    intro fault hfailed l
    rw [hfailed] at heffect
    exact Disk.Paves.stands heffect l
  case possible =>
    intro hdone
    obtain ⟨id, hp, -⟩ := h.published hdone
    exact ⟨hp.free, fun l old hl => hp.not_file htarget hl old⟩
  case done =>
    intro hdone
    obtain ⟨id, hp, hcontent⟩ := h.published hdone
    refine ⟨id, hp.stands, hcontent, fun l hl hfile => ?_,
      fun dir index hedition => h.readIndex hedition hp⟩
    exact absurd (hrooted.filed l id hl hfile).1 (Nat.not_lt.mpr hp.fresh)
  case answers =>
    intro dir answer hmem
    rcases (h.readers _ hmem).2 with hold | ⟨hdone, hplace, hnew⟩ | hnone
    · exact .inl hold
    · refine .inr (.inl ⟨hdone, ?_, hnew⟩)
      cases e with
      | index dir' index =>
          obtain rfl : dir = dir' := s.indexPlace_injective hplace
          exact ⟨index, rfl⟩
      | body p content => exact absurd hplace.symm (Store.physical_ne_indexPlace he dir)
    · exact .inr (.inr hnone)
  case memory => exact h.memory

/-- The call makes the steps of the publication without a pause. -/
theorem reachable_publish {s : Store} {e : Edition} (hne : e.target s ≠ []) : ∃ r,
    (e.publish s).2 = r.mapError .io ∧ Reachable s e ⟨(e.publish s).1, .finished r, []⟩ := by
  have hafter (n : Nat) : Reachable s e
      ⟨{ s with disk := (Disk.Publication.after (e.target s).dropLast (e.target s) e.content
          s.disk n).1 },
        (Disk.Publication.after (e.target s).dropLast (e.target s) e.content s.disk n).2, []⟩ := by
    induction n with
    | zero => exact .start [] (fun _ h => absurd h List.not_mem_nil)
    | succ n ih => exact ih.step (.publish (.advance _ _))
  have hcall : e.publish s =
      s.change (·.publish (e.target s).dropLast (e.target s) e.content) := e.publish_eq hne
  have hfive := hafter 5
  rw [Disk.Publication.after_five] at hfive
  refine ⟨(s.disk.publish (e.target s).dropLast (e.target s) e.content).2, ?_, ?_⟩
  · rw [hcall]
    rfl
  · rw [hcall]
    exact hfive

end Run

/-- A publication is atomic: whatever happens in between, the promises hold at each moment; the call
itself gets to such a moment, or it refuses the top of the disk and changes nothing; and an index
that a file can hold is read as it was published. -/
theorem publication_atomic {s : Store} {e : Edition} (hrooted : s.disk.IsRooted s.root)
    (he : e.path.IsConfined) (hstraight : s.disk.Straight (e.target s).dropLast)
    (hmemory : s.Recalls) :
    (∀ w, Reachable s e w → Atomic s e w) ∧
      ((∃ r, (e.publish s).2 = r.mapError .io ∧ Reachable s e ⟨(e.publish s).1, .finished r, []⟩) ∨
        e.target s = [] ∧ e.publish s = (s, .error (.notAFile e.path.text))) ∧
      ∀ dir index, e = .index dir index → index.IsSound →
        index.encode.length ≤ s.maxIndexBytes → e.reading s dir = .ok (some index) := by
  refine ⟨fun w hw => ?_, ?_, ?_⟩
  · exact atomic_of_sound hrooted he hstraight
      (sound_of_reachable hrooted he hstraight hmemory hw)
  · by_cases htop : e.target s = []
    · exact .inr ⟨htop, e.publish_of_target_eq_nil htop⟩
    · exact .inl (reachable_publish htop)
  · rintro dir index rfl hsound hlength
    exact Store.decoded_of_decode hlength (Index.decode_encode (Index.isSound_iff.mp hsound))

/-- Whose step is next. -/
inductive Turn where
  | publisher
  | reader (i : Nat)

/-- The step of whoever is next, if nothing fails. -/
def turn (s : Store) (e : Edition) (w : Scene) : Turn → Scene
  | .publisher =>
    let (disk, publication) :=
      w.publication.advance (e.target s).dropLast (e.target s) e.content w.store.disk
    { w with store := { w.store with disk }, publication }
  | .reader i =>
    match w.readers[i]? with
    | none => w
    | some (dir, r) =>
      let (store, r) := r.advance w.store dir
      { w with store, readers := w.readers.set i (dir, r) }

theorem Reachable.turns {s : Store} {e : Edition} {w : Scene} (h : Reachable s e w)
    (turns : List Turn) : Reachable s e (turns.foldl (turn s e) w) := by
  induction turns generalizing w with
  | nil => exact h
  | cons x rest ih =>
      refine ih ?_
      cases x with
      | publisher => exact h.step (.publish (.advance _ _))
      | reader i =>
          unfold turn
          dsimp only
          split
          · exact h
          · next hreader => exact h.step (.read hreader)

/-- A store with the index of one directory. -/
def attic : Store := (Store.publishIndex ⟨[], 100, .empty ⟨7, 0⟩, { capacity := 4 }⟩
  (.ofText "/d") .dynamic).1

def atticEdition : Edition := .index (.ofText "/d") (.listing [⟨.file, 5, 0, "a"⟩])

/-- The first two reads have the old index open when the new one is moved over it, and the first
goes on when the third, which opened the new one, is over. -/
def atticTurns : List Turn :=
  [.reader 0, .reader 0, .publisher, .publisher, .publisher, .reader 1, .publisher, .reader 1] ++
    List.replicate 5 (.reader 2) ++ List.replicate 3 (.reader 0) ++ List.replicate 3 (.reader 1)

def atticScene : Scene := atticTurns.foldl (turn attic atticEdition)
  ⟨attic, .making, [(.ofText "/d", .opening), (.ofText "//d", .opening), (.ofText "d/", .opening)]⟩

/-- Two reads give the old version and one the new, which is what a read after that gives although
the old one is remembered. -/
theorem publication_atomic_attic :
    (attic.disk.IsRooted attic.root ∧ atticEdition.path.IsConfined ∧
      attic.disk.Straight (atticEdition.target attic).dropLast ∧ attic.Recalls) ∧
    Reachable attic atticEdition atticScene ∧ Atomic attic atticEdition atticScene ∧
    atticScene.publication = .finished (.ok ()) ∧
    atticScene.readers.map Prod.snd = [.finished (.ok (some .dynamic)),
      .finished (.ok (some .dynamic)), .finished (.ok (some (.listing [⟨.file, 5, 0, "a"⟩])))] ∧
    atticScene.store.indices.known.map (·.2.2) = [.dynamic] ∧
    (atticScene.store.readIndex (.ofText "/d")).2 =
      .ok (some (.listing [⟨.file, 5, 0, "a"⟩])) := by
  have hproper : attic.disk.IsProper := ⟨by decide +kernel, by decide +kernel⟩
  have htree : attic.disk.IsTree attic.root :=
    Disk.isTree_of_rows hproper (fun _ hn => absurd hn List.not_mem_nil) (by decide)
      (Disk.wayDown_nil _ _) rfl (by decide +kernel)
  have hrooted := htree.isRooted
  have hconfined : atticEdition.path.IsConfined := by decide +kernel
  have hstraight : attic.disk.Straight (atticEdition.target attic).dropLast :=
    htree.straight List.nil_prefix
  have hmemory : attic.Recalls := nofun
  have hreadable (dir : Path) (hdir : ∀ n ∈ dir.names, n ≠ "..") : attic.IsReadable dir :=
    ⟨hdir, htree.straight List.nil_prefix⟩
  have hscene : Reachable attic atticEdition atticScene := by
    refine Reachable.turns (.start [.ofText "/d", .ofText "//d", .ofText "d/"] ?_) _
    intro dir hdir
    refine hreadable dir ?_
    revert dir
    decide +kernel
  exact ⟨⟨hrooted, hconfined, hstraight, hmemory⟩, hscene,
    (publication_atomic hrooted hconfined hstraight hmemory).1 _ hscene, rfl,
    by decide +kernel, by decide +kernel, by decide +kernel⟩

end Scene
end OnDemandFs
