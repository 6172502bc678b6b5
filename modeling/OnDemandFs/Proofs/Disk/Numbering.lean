import OnDemandFs.Disk.Change
import OnDemandFs.Proofs.Disk.Stands

/-!
# Files that were numbered

Files are numbered in the order in which they are made, and a name can only be given to a file that
was made. So the content of a file that was there before is what it was, whatever is published,
removed or dated: a publication writes into the file that it made itself. `Keeps` says this of a
later disk, and only writing in place falls out of it.
-/
namespace OnDemandFs.Disk

variable {d₀ d d' : Disk} {l : Location}

/-- Each file that has a name was made. -/
def IsNumbered (d : Disk) : Prop := ∀ row ∈ d.objects, ∀ id, row.2 = .file id → id < d.nextFile

theorem IsNumbered.at? (h : d.IsNumbered) {id : FileId} (hat : d.at? l = some (.file id)) :
    id < d.nextFile :=
  h _ (Table.mem_of_get? hat) id rfl

/-- A disk with nothing on it. -/
theorem isNumbered_empty (clock : Timestamp) : (empty clock).IsNumbered := by
  intro row hrow id hid
  rw [List.mem_singleton.mp hrow] at hid
  cases hid

/-- A later disk, on which the files that were made before have the content that they had. -/
structure Keeps (d₀ d : Disk) : Prop where
  numbered : d.IsNumbered
  nextFile : d₀.nextFile ≤ d.nextFile
  content : ∀ id < d₀.nextFile, d.content id = d₀.content id

theorem content_congr {id : FileId} (h : d'.body? id = d.body? id) :
    d'.content id = d.content id := by
  rw [Disk.content, Disk.content, h]

theorem content_of_body? {id : FileId} {b : Body} (h : d.body? id = some b) :
    d.content id = b.content := by
  rw [Disk.content, h]

theorem content_overwrite (d : Disk) (id : FileId) (content : Bytes) (id' : FileId) :
    (d.overwrite id content).content id' = if id' = id then content else d.content id' := by
  have hbody := body?_overwrite d id content id'
  split at hbody
  · next heq => rw [if_pos heq, content_of_body? hbody]
  · next hne => rw [if_neg hne, content_congr hbody]

theorem content_setFileTime (d : Disk) (id : FileId) (t : Timestamp) (id' : FileId) :
    (d.setFileTime id t).content id' = d.content id' := by
  unfold setFileTime
  split
  · next b hb =>
      by_cases heq : id' = id
      · subst heq
        have hbody : Disk.body? { d with bodies := d.bodies.set id' { b with mtime := t } } id' =
            some { b with mtime := t } := Table.get?_set_self _ _ _
        rw [content_of_body? hb, content_of_body? hbody]
      · exact content_congr (Table.get?_set_of_ne _ _ heq)
  · rfl

namespace Keeps

theorem refl (h : d.IsNumbered) : Keeps d d := ⟨h, Nat.le_refl _, fun _ _ => rfl⟩

/-- Names were taken away or given to files that were made. -/
theorem names (h : Keeps d₀ d) (hbodies : SameBodies d d')
    (hrows : ∀ row ∈ d'.objects, row ∈ d.objects ∨ ∀ id, row.2 = .file id → id < d.nextFile) :
    Keeps d₀ d' := by
  refine ⟨fun row hrow id hid => ?_, ?_, fun id hid => ?_⟩
  · rw [hbodies.nextFile]
    rcases hrows row hrow with hold | hnew
    · exact h.numbered row hold id hid
    · exact hnew id hid
  · rw [hbodies.nextFile]
    exact h.nextFile
  · rw [content_congr (hbodies.body? id), h.content id hid]

theorem tick (h : Keeps d₀ d) : Keeps d₀ d.tick.2 :=
  h.names (sameBodies_tick d) fun _ hrow => .inl hrow

theorem touch (h : Keeps d₀ d) (l : Location) : Keeps d₀ (d.touch l) := by
  refine h.names (sameBodies_touch d l) fun row hrow => ?_
  unfold Disk.touch at hrow
  dsimp only at hrow
  split at hrow
  · rcases Table.mem_of_mem_set hrow with hold | rfl
    · exact .inl hold
    · exact .inr nofun
  · exact .inl hrow

theorem set (h : Keeps d₀ d) {o : Object} (ho : ∀ id, o = .file id → id < d.nextFile) :
    Keeps d₀ { d with objects := d.objects.set l o } := by
  refine h.names ⟨rfl, rfl⟩ fun row hrow => ?_
  rcases Table.mem_of_mem_set hrow with hold | rfl
  · exact .inl hold
  · exact .inr ho

theorem put (h : Keeps d₀ d) {o : Object} (ho : ∀ id, o = .file id → id < d.nextFile) :
    Keeps d₀ (d.put l o) :=
  (h.set ho).touch _

theorem unlink (h : Keeps d₀ d) (l : Location) : Keeps d₀ (d.unlink l) := by
  have herased : Keeps d₀ { d with objects := d.objects.erase l } :=
    h.names ⟨rfl, rfl⟩ fun row hrow => .inl (List.mem_of_mem_filter hrow)
  exact herased.touch _

theorem clear (h : Keeps d₀ d) (l : Location) : Keeps d₀ (d.clear l) := by
  have hcleared : Keeps d₀ { d with objects := d.objects.filter fun row =>
      ¬ (l <+: row.1) ∨ row.1 = l } :=
    h.names ⟨rfl, rfl⟩ fun row hrow => .inl (List.mem_of_mem_filter hrow)
  exact hcleared.touch _

theorem create (h : Keeps d₀ d) (l : Location) (content : Bytes) :
    Keeps d₀ (d.create l content).2 := by
  have hmade : Keeps d₀ { d.tick.2 with
      bodies := d.tick.2.bodies.set d.nextFile ⟨content, d.tick.1⟩
      nextFile := d.nextFile + 1 } := by
    refine ⟨fun row hrow id hid => ?_, Nat.le_succ_of_le h.nextFile, fun id hid => ?_⟩
    · exact Nat.lt_succ_of_lt (h.numbered row hrow id hid)
    · rw [← h.content id hid]
      refine content_congr (Table.get?_set_of_ne _ _ ?_)
      exact Nat.ne_of_lt (Nat.lt_of_lt_of_le hid h.nextFile)
  refine hmade.put fun id hid => ?_
  cases hid
  exact Nat.lt_succ_self _

theorem setFileTime (h : Keeps d₀ d) (id : FileId) (t : Timestamp) :
    Keeps d₀ (d.setFileTime id t) := by
  refine ⟨fun row hrow id' hid => ?_, ?_, fun id' hid => ?_⟩
  · rw [nextFile_setFileTime]
    refine h.numbered row ?_ id' hid
    unfold Disk.setFileTime at hrow
    split at hrow <;> exact hrow
  · rw [nextFile_setFileTime]
    exact h.nextFile
  · rw [content_setFileTime, h.content id' hid]

/-- Writing into a file that was not there before. -/
theorem overwrite (h : Keeps d₀ d) {id : FileId} (hnew : d₀.nextFile ≤ id) (content : Bytes) :
    Keeps d₀ (d.overwrite id content) := by
  refine ⟨h.numbered, h.nextFile, fun id' hid => ?_⟩
  rw [content_overwrite, if_neg (Nat.ne_of_lt (Nat.lt_of_lt_of_le hid hnew)), h.content id' hid]

/-! ### Changes by path -/

theorem makeDirectory (h : Keeps d₀ d) (path : List Name) : Keeps d₀ (d.makeDirectory path).1 := by
  unfold Disk.makeDirectory
  split
  · exact h
  · split
    · exact h
    · exact h.tick.put nofun

theorem makeDirectoriesUp (h : Keeps d₀ d) (up : List Name) :
    Keeps d₀ (d.makeDirectoriesUp up).1 := by
  induction up generalizing d with
  | nil => exact h
  | cons n up ih =>
      have hmade := h.makeDirectory (n :: up).reverse
      unfold Disk.makeDirectoriesUp
      dsimp only
      split
      · next heq =>
          rw [heq] at hmade
          have hup := ih hmade
          split
          · next heq' =>
              rw [heq'] at hup
              have hagain := hup.makeDirectory (n :: up).reverse
              split
              · next heq'' =>
                  rw [heq''] at hagain
                  split <;> exact hagain
              · next heq'' =>
                  rw [heq''] at hagain
                  exact hagain
          · next heq' =>
              rw [heq'] at hup
              exact hup
      · split
        · next heq =>
            rw [heq] at hmade
            split <;> exact hmade
        · next heq =>
            rw [heq] at hmade
            exact hmade

theorem setTime (h : Keeps d₀ d) (path : List Name) (t : Timestamp) :
    Keeps d₀ (d.setTime path t).1 := by
  unfold Disk.setTime
  split
  · exact h
  · exact h.setFileTime _ t
  · exact h
  · exact h

theorem remove (h : Keeps d₀ d) (path : List Name) : Keeps d₀ (d.remove path).1 := by
  unfold Disk.remove
  split
  · exact h
  · split
    · exact h.clear _
    · exact (h.clear _).unlink _
  · exact h.unlink _

theorem moveOver (h : Keeps d₀ d) (source : Location) {id : FileId} (hid : id < d.nextFile)
    (target : List Name) : Keeps d₀ (d.moveOver source id target).1 := by
  unfold Disk.moveOver
  split
  · exact h
  · exact h
  · split
    · exact h
    · split
      · exact h
      · refine (h.unlink source).put fun id' hid' => ?_
        cases hid'
        rw [(sameBodies_unlink d source).nextFile]
        exact hid

theorem openToWrite (h : Keeps d₀ d) (path : List Name) : Keeps d₀ (d.openToWrite path).1 := by
  unfold Disk.openToWrite
  split
  · exact h
  · split
    · exact h
    · exact h
    · exact h
    · exact h.create _ []

end Keeps

/-! ### Publication -/

/-- What is staged is a file that was not there before. -/
def Publication.IsFresh (d₀ d : Disk) : Publication → Prop
  | .writing _ id | .moving _ id => d₀.nextFile ≤ id ∧ id < d.nextFile
  | .making | .staging | .discarding .. | .finished _ => True

theorem Keeps.advance (h : Keeps d₀ d) (dir target : List Name) (content : Bytes)
    {p : Publication} (hfresh : p.IsFresh d₀ d) :
    Keeps d₀ (p.advance dir target content d).1 ∧
      (p.advance dir target content d).2.IsFresh d₀ (p.advance dir target content d).1 := by
  unfold Publication.advance
  cases p with
  | making =>
      have hmade : Keeps d₀ (d.makeDirectories dir).1 := h.makeDirectoriesUp dir.reverse
      dsimp only
      revert hmade
      rcases d.makeDirectories dir with ⟨d', fault | _⟩ <;> exact fun hmade => ⟨hmade, trivial⟩
  | staging =>
      dsimp only
      cases d.stagingSpot dir with
      | error fault => exact ⟨h, trivial⟩
      | ok place =>
          refine ⟨h.create _ [], h.nextFile, ?_⟩
          rw [nextFile_create]
          exact Nat.lt_succ_self _
  | writing place id => exact ⟨h.overwrite hfresh.1 content, hfresh⟩
  | moving place id =>
      have hmoved := h.moveOver place hfresh.2 target
      dsimp only
      revert hmoved
      rcases d.moveOver place id target with ⟨d', fault | _⟩ <;>
        exact fun hmoved => ⟨hmoved, trivial⟩
  | discarding place fault => exact ⟨h.unlink place, trivial⟩
  | finished r => exact ⟨h, trivial⟩

/-- At no moment of a publication does a file that was there before have another content. -/
theorem keeps_after (h : d.IsNumbered) (dir target : List Name) (content : Bytes) (n : Nat) :
    Keeps d (Publication.after dir target content d n).1 ∧
      (Publication.after dir target content d n).2.IsFresh d
        (Publication.after dir target content d n).1 := by
  induction n with
  | zero => exact ⟨.refl h, trivial⟩
  | succ n ih => exact ih.1.advance dir target content ih.2

theorem keeps_publish (h : d.IsNumbered) (dir target : List Name) (content : Bytes) :
    Keeps d (d.publish dir target content).1 := by
  have hafter := (keeps_after h dir target content 5).1
  unfold Disk.publish
  revert hafter
  rcases Publication.after dir target content d 5 with ⟨d', p⟩
  cases p <;> exact id

/-! ### Writing in place -/

/-- The file that writing in place writes into, which may be new. -/
def writtenFile? (d : Disk) (path : List Name) : Option FileId :=
  match (d.openToWrite path).2 with
  | .ok id => id
  | .error _ => none

/-- A later disk on which one file, if any, has a new content. -/
structure Rewrites (d₀ : Disk) (file : Option FileId) (content : Bytes) (d : Disk) : Prop where
  numbered : d.IsNumbered
  nextFile : d₀.nextFile ≤ d.nextFile
  made : ∀ id ∈ file, id < d.nextFile
  written : ∀ id ∈ file, d.content id = content
  others : ∀ id < d₀.nextFile, id ∉ file → d.content id = d₀.content id

theorem rewrites_writeInPlace (h : d.IsNumbered) (path : List Name) (content : Bytes) :
    Rewrites d (d.writtenFile? path) content (d.writeInPlace path content).1 := by
  have hkeeps := (Keeps.refl h).openToWrite path
  have hmade : ∀ id, (d.openToWrite path).2 = .ok (some id) →
      id < (d.openToWrite path).1.nextFile := by
    unfold openToWrite
    split
    · exact nofun
    · split
      · next hat =>
          intro id hid
          cases hid
          exact h.at? hat
      · exact nofun
      · exact nofun
      · intro id hid
        cases hid
        dsimp only
        rw [nextFile_create]
        exact Nat.lt_succ_self _
  unfold writtenFile? writeInPlace
  revert hkeeps hmade
  rcases d.openToWrite path with ⟨d', fault | _ | id⟩
  · exact fun hkeeps _ => ⟨hkeeps.numbered, hkeeps.nextFile, nofun, nofun, fun id hid _ =>
      hkeeps.content id hid⟩
  · exact fun hkeeps _ => ⟨hkeeps.numbered, hkeeps.nextFile, nofun, nofun, fun id hid _ =>
      hkeeps.content id hid⟩
  · intro hkeeps hmade
    refine ⟨hkeeps.numbered, hkeeps.nextFile, ?_, ?_, fun id' hid' hother => ?_⟩
    · rintro _ ⟨⟩
      exact hmade id rfl
    · rintro _ ⟨⟩
      rw [content_overwrite, if_pos rfl]
    · have hne : id' ≠ id := fun heq => hother (heq ▸ rfl)
      rw [content_overwrite, if_neg hne, hkeeps.content id' hid']

/-- Where a file is found it is written into. -/
theorem writtenFile?_of_find {path : List Name} {id : FileId}
    (h : d.find true path = .ok (l, .file id)) : d.writtenFile? path = some id := by
  obtain ⟨hfault, hwalk, hat⟩ := find_eq_ok_iff.mp h
  have hspot : d.spot true path = .ok l := spot_eq_ok_iff.mpr ⟨hfault, hwalk⟩
  simp only [writtenFile?, openToWrite, hspot, hat]

end OnDemandFs.Disk
