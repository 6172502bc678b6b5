import OnDemandFs.Disk.Change
import OnDemandFs.Proofs.Disk.Children

/-!
# Disks stay proper

No walk ends in a place that is called like the place above it, and what a change puts on the disk
it puts where a walk ends or under a staging name. So each change keeps a proper disk proper, also
one that fails half way.
-/
namespace OnDemandFs.Disk

variable {d : Disk} {place l : Location} {o : Object} {path : List Name}

/-! ### Where walks end -/

/-- No name on the way to the place is that of the place above. -/
def IsStraight (l : Location) : Prop := above ∉ l

theorem IsStraight.getLast?_ne (h : IsStraight l) : l.getLast? ≠ some above :=
  fun hlast => h (List.mem_of_getLast? hlast)

theorem IsStraight.dropLast (h : IsStraight l) : IsStraight l.dropLast :=
  fun hmem => h (List.dropLast_subset _ hmem)

theorem IsStraight.concat (h : IsStraight l) {n : Name} (hn : n ≠ above) :
    IsStraight (l ++ [n]) := by
  intro hmem
  rcases List.mem_append.mp hmem with hmem | hmem
  · exact h hmem
  · exact hn (List.mem_singleton.mp hmem).symm

theorem isStraight_linkStart (h : IsStraight place) (target : Bytes) :
    IsStraight (linkStart place target) := by
  unfold linkStart
  split
  · exact List.not_mem_nil
  · exact h

theorem isStraight_walkWith {fl : Bool} {onLink : Location → List Name → Except Errno Location}
    (hlink : ∀ l names q, IsStraight l → onLink l names = .ok q → IsStraight q)
    (hplace : IsStraight place) (h : d.walkWith fl onLink place path = .ok l) : IsStraight l := by
  induction path generalizing place with
  | nil =>
      cases h
      exact hplace
  | cons n rest ih =>
      have hturns := d.turns place n
      rw [walkWith_cons] at h
      cases hturn : d.turn place n <;> rw [hturn] at h hturns
      case refused fault => cases h
      case onward q =>
        cases hturns with
        | stay => exact ih hplace h
        | up => exact ih hplace.dropLast h
        | down hn => exact ih (hplace.concat hn) h
      case link target =>
        cases hturns with
        | link hn hat =>
            simp only [Turn.take] at h
            split at h
            · cases h
              exact hplace.concat hn
            · exact hlink _ _ _ (isStraight_linkStart hplace target) h
      case free =>
        cases hturns with
        | free hn hat =>
            simp only [Turn.take] at h
            split at h
            · cases h
              exact hplace.concat hn
            · cases h

theorem isStraight_walk {fl : Bool} {links : Nat} (hplace : IsStraight place)
    (h : d.walk fl links place path = .ok l) : IsStraight l := by
  induction links generalizing place path l with
  | zero => exact isStraight_walkWith (fun _ _ _ _ hq => by cases hq) hplace h
  | succ links ih => exact isStraight_walkWith (fun _ _ _ hl hq => ih hl hq) hplace h

theorem isStraight_of_spot {fl : Bool} (h : d.spot fl path = .ok l) : IsStraight l :=
  isStraight_walk List.not_mem_nil (spot_eq_ok_iff.mp h).2

/-! ### Single changes -/

theorem isProper_empty (clock : Timestamp) : (empty clock).IsProper := by
  constructor
  · exact List.nodup_singleton _
  · intro row hrow
    rw [List.mem_singleton.mp hrow]
    nofun

namespace IsProper

/-- Only the objects count. -/
theorem congr (h : d.IsProper) {d' : Disk} (hobjects : d'.objects = d.objects) : d'.IsProper :=
  ⟨hobjects ▸ h.keys, hobjects ▸ h.names⟩

theorem tick (h : d.IsProper) : d.tick.2.IsProper := h.congr rfl

theorem of_sublist (h : d.IsProper) {d' : Disk} (hobjects : d'.objects.Sublist d.objects) :
    d'.IsProper :=
  ⟨h.keys.sublist (hobjects.map _), fun row hrow => h.names row (hobjects.subset hrow)⟩

theorem getLast?_ne (h : d.IsProper) (hat : d.at? l = some o) : l.getLast? ≠ some above :=
  h.names (l, o) ((Table.get?_eq_some_iff h.keys).mp hat)

theorem set (h : d.IsProper) (hl : l.getLast? ≠ some above) (o : Object) :
    IsProper { d with objects := d.objects.set l o } := by
  refine ⟨Table.nodup_keys_set h.keys l o, fun row hrow => ?_⟩
  have hkey : row.1 ∈ (d.objects.set l o).keys := List.mem_map_of_mem hrow
  rcases (Table.mem_keys_set d.objects l o row.1).mp hkey with hold | hnew
  · obtain ⟨row', hrow', heq⟩ := List.mem_map.mp hold
    rw [← heq]
    exact h.names row' hrow'
  · rw [hnew]
    exact hl

theorem touch (h : d.IsProper) (l : Location) : (d.touch l).IsProper := by
  unfold Disk.touch
  dsimp only [tick]
  split
  · next hat => exact (h.set (h.getLast?_ne hat) _).congr rfl
  · exact h.congr rfl

theorem put (h : d.IsProper) (hl : l.getLast? ≠ some above) (o : Object) : (d.put l o).IsProper :=
  (h.set hl o).touch _

theorem create (h : d.IsProper) (hl : l.getLast? ≠ some above) (content : Bytes) :
    (d.create l content).2.IsProper := by
  refine put ?_ hl _
  exact h.congr rfl

theorem unlink (h : d.IsProper) (l : Location) : (d.unlink l).IsProper :=
  (h.of_sublist List.filter_sublist).touch _

theorem clear (h : d.IsProper) (l : Location) : (d.clear l).IsProper :=
  (h.of_sublist List.filter_sublist).touch _

theorem setFileTime (h : d.IsProper) (id : FileId) (t : Timestamp) :
    (d.setFileTime id t).IsProper := by
  unfold Disk.setFileTime
  split
  · exact h.congr rfl
  · exact h

/-! ### Changes by path -/

theorem makeDirectory (h : d.IsProper) (path : List Name) : (d.makeDirectory path).1.IsProper := by
  unfold Disk.makeDirectory
  split
  · exact h
  · next hspot =>
      split
      · exact h
      · exact h.tick.put (isStraight_of_spot hspot).getLast?_ne _

theorem makeDirectoriesUp (h : d.IsProper) (up : List Name) :
    (d.makeDirectoriesUp up).1.IsProper := by
  induction up generalizing d with
  | nil => exact h
  | cons n up ih =>
      have hmade := h.makeDirectory (n :: up).reverse
      unfold Disk.makeDirectoriesUp
      dsimp only
      split
      · next heq =>
          rw [heq] at hmade
          have hup := ih hmade
          split
          · next heq' =>
              rw [heq'] at hup
              have hagain := hup.makeDirectory (n :: up).reverse
              split
              · next heq'' =>
                  rw [heq''] at hagain
                  split <;> exact hagain
              · next heq'' =>
                  rw [heq''] at hagain
                  exact hagain
          · next heq' =>
              rw [heq'] at hup
              exact hup
      · split
        · next heq =>
            rw [heq] at hmade
            split <;> exact hmade
        · next heq =>
            rw [heq] at hmade
            exact hmade

theorem openToWrite (h : d.IsProper) (path : List Name) : (d.openToWrite path).1.IsProper := by
  unfold Disk.openToWrite
  split
  · exact h
  · next hspot =>
      split
      · exact h
      · exact h
      · exact h
      · exact h.create (isStraight_of_spot hspot).getLast?_ne []

theorem writeInPlace (h : d.IsProper) (path : List Name) (content : Bytes) :
    (d.writeInPlace path content).1.IsProper := by
  have hopened := h.openToWrite path
  unfold Disk.writeInPlace
  revert hopened
  rcases d.openToWrite path with ⟨d', fault | _ | id⟩
  · exact id
  · exact id
  · exact fun hopened => hopened.congr rfl

theorem setTime (h : d.IsProper) (path : List Name) (t : Timestamp) :
    (d.setTime path t).1.IsProper := by
  unfold Disk.setTime
  split
  · exact h
  · exact h.setFileTime _ t
  · exact h
  · exact h

theorem makeSpecial (h : d.IsProper) (path : List Name) (make : Timestamp → Object) :
    (d.makeSpecial path make).1.IsProper := by
  unfold Disk.makeSpecial
  split
  · exact h
  · next hspot =>
      split
      · exact h
      · exact h.tick.put (isStraight_of_spot hspot).getLast?_ne _

theorem remove (h : d.IsProper) (path : List Name) : (d.remove path).1.IsProper := by
  unfold Disk.remove
  split
  · exact h
  · split
    · exact h.clear _
    · exact (h.clear _).unlink _
  · exact h.unlink _

theorem moveOver (h : d.IsProper) (source : Location) (id : FileId) (target : List Name) :
    (d.moveOver source id target).1.IsProper := by
  unfold Disk.moveOver
  split
  · exact h
  · exact h
  · next hspot =>
      split
      · exact h
      · split
        · exact h
        · exact (h.unlink source).put (isStraight_of_spot hspot).getLast?_ne _

end IsProper

/-! ### Publication -/

theorem freshFrom_ne_above (d : Disk) (dir : Location) (tries n : Nat) :
    d.freshFrom dir tries n ≠ above := by
  have hstaging (n : Nat) : stagingName n ≠ above := by
    intro heq
    have hlength : 2 < (stagingName n).length := by simp [stagingName]
    rw [heq] at hlength
    exact absurd hlength (by decide)
  induction tries generalizing n with
  | zero => exact hstaging n
  | succ tries ih =>
      unfold freshFrom
      split
      · exact hstaging n
      · exact ih (n + 1)

/-- Each step of a publication keeps the disk proper. -/
theorem IsProper.advance (h : d.IsProper) (dir target : List Name) (content : Bytes)
    (p : Publication) : (p.advance dir target content d).1.IsProper := by
  unfold Publication.advance
  cases p with
  | making =>
      have hmade : (d.makeDirectories dir).1.IsProper := h.makeDirectoriesUp dir.reverse
      dsimp only
      revert hmade
      rcases d.makeDirectories dir with ⟨d', fault | _⟩ <;> exact id
  | staging =>
      dsimp only
      cases hspot : d.stagingSpot dir with
      | error fault => exact h
      | ok place =>
          have hstaged : IsStraight (place ++ [d.freshStaging place]) :=
            (isStraight_of_spot (stagingSpot_eq_ok_iff.mp hspot).1).concat
              (d.freshFrom_ne_above place _ _)
          exact h.create hstaged.getLast?_ne []
  | writing place file => exact h.congr rfl
  | moving place file =>
      have hmoved := h.moveOver place file target
      dsimp only
      revert hmoved
      rcases d.moveOver place file target with ⟨d', fault | _⟩ <;> exact id
  | discarding place fault => exact h.unlink place
  | finished r => exact h

/-- So at no moment of a publication is the disk anything but proper. -/
theorem IsProper.after (h : d.IsProper) (dir target : List Name) (content : Bytes) (n : Nat) :
    (Publication.after dir target content d n).1.IsProper := by
  induction n with
  | zero => exact h
  | succ n ih => exact ih.advance dir target content _

theorem IsProper.publish (h : d.IsProper) (dir target : List Name) (content : Bytes) :
    (d.publish dir target content).1.IsProper := by
  have hafter := h.after dir target content 5
  unfold Disk.publish
  revert hafter
  rcases Publication.after dir target content d 5 with ⟨d', p⟩
  cases p <;> exact id

end OnDemandFs.Disk
