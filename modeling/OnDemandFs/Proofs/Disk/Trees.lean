import OnDemandFs.Proofs.Disk.Stands
import Mathlib.Data.List.Infix

/-!
# Plain trees

`IsTree` says that at and below a place there is nothing but files and directories, each in a
directory, and that the place itself is reached through directories only. In such a tree a path
under carried names is found just if something stands at the very place that it spells, unless the
path is longer than a path may be. The tree stays one when a directory or a file is put into a
directory of it, also in the place of another file. `IsRooted` allows for links and pipes as well;
what is then told of a path is told of one that is `Straight`.
-/
namespace OnDemandFs.Disk

/-- No longer than a path may be. -/
def Fits (l : List Name) : Prop := pathLength l < pathLimit

instance (l : List Name) : Decidable (Fits l) := inferInstanceAs (Decidable (_ < _))

theorem pathLength_append (l m : List Name) :
    pathLength (l ++ m) = pathLength l + pathLength m := by
  induction l with
  | nil => simp [pathLength]
  | cons n rest ih => simp only [List.cons_append, pathLength, ih]; omega

theorem Fits.of_append {l m : List Name} (h : Fits (l ++ m)) : Fits l := by
  unfold Fits at h ⊢
  rw [pathLength_append] at h
  omega

theorem pathFault?_eq_none_iff {l : List Name} (h : ∀ n ∈ l, IsCarried n) :
    pathFault? l = none ↔ Fits l := by
  have hnul : l.any (·.contains 0) = false := by
    rw [List.any_eq_false]
    intro n hn
    simpa using (h n hn).noNul
  unfold pathFault? Fits
  rw [hnul]
  by_cases hlong : pathLength l ≥ pathLimit
  · simp [hlong]
  · simp [hlong, Nat.lt_of_not_le hlong]

theorem HasRoom.of_prefix {l m : List Name} (h : HasRoom m) (hl : l <+: m) : HasRoom l := by
  obtain ⟨rest, rfl⟩ := hl
  unfold HasRoom at h ⊢
  rw [pathLength_append] at h
  omega

theorem spot_of_wayDown {d : Disk} {l : Location} (hcarried : ∀ n ∈ l, IsCarried n) (hfits : Fits l)
    (hway : d.WayDown [] l) (hlink : ∀ target, d.stands l ≠ some (.link target)) (fl : Bool) :
    d.spot fl l = .ok l :=
  spot_eq_ok_iff.mpr ⟨(pathFault?_eq_none_iff hcarried).mpr hfits,
    walk_of_wayDown hcarried hway hlink fl⟩

/-- No link stands on the way to a place, nor at it. -/
def Straight (d : Disk) (l : Location) : Prop :=
  ∀ pre target, pre <+: l → d.stands pre ≠ some (.link target)

/-- The place is a directory that is reached through directories, what stands below it stands in a
directory, and its files were made. -/
structure IsRooted (d : Disk) (top : Location) : Prop where
  carried : ∀ n ∈ top, IsCarried n
  way : d.WayDown [] top
  isDirectory : d.stands top = some .directory
  parent : ∀ l n, top <+: l → d.stands (l ++ [n]) ≠ none → d.stands l = some .directory
  filed : ∀ l id, top <+: l → d.stands l = some (.file id) →
    id < d.nextFile ∧ (d.body? id).isSome = true

/-- Files and directories, each in a directory, all the way from the top. -/
structure IsTree (d : Disk) (top : Location) : Prop where
  carried : ∀ n ∈ top, IsCarried n
  fits : Fits top
  way : d.WayDown [] top
  isDirectory : d.stands top = some .directory
  parent : ∀ l n, top <+: l → d.stands (l ++ [n]) ≠ none → d.stands l = some .directory
  plain : ∀ l x, top <+: l → d.stands l = some x → x = .directory ∨ ∃ id, x = .file id
  filed : ∀ l id, top <+: l → d.stands l = some (.file id) →
    id < d.nextFile ∧ (d.body? id).isSome = true

section Rooted
variable {d : Disk} {top l : Location}

theorem IsRooted.top_isDirectory (h : d.IsRooted top) : d.stands [] = some .directory := by
  cases top with
  | nil => exact h.isDirectory
  | cons n rest => exact h.way [] n ⟨rest, rfl⟩

theorem IsRooted.wayDown (h : d.IsRooted top) (hl : top <+: l) (hstands : d.stands l ≠ none) :
    d.WayDown [] l := by
  obtain ⟨names, rfl⟩ := hl
  induction names using List.reverseRecOn with
  | nil => rw [List.append_nil]; exact h.way
  | append_singleton names n ih =>
      rw [← List.append_assoc] at hstands ⊢
      have hdir := h.parent (top ++ names) n (List.prefix_append top names) hstands
      rw [wayDown_concat]
      exact ⟨ih (by rw [hdir]; nofun), hdir⟩

/-- Where nothing stands, something is missing. -/
theorem Straight.find_of_free (h : d.Straight l) (hcarried : ∀ n ∈ l, IsCarried n) (hfits : Fits l)
    (hfree : d.stands l = none) (fl : Bool) :
    ∃ fault, d.find fl l = .error fault ∧ isMissing fault = true := by
  have hfault := (pathFault?_eq_none_iff hcarried).mpr hfits
  have hwalk := @walk_down d fl linkLimit [] l hcarried fun pre target hpre => h pre target hpre
  rcases hwalk with ⟨-, hwalk⟩ | ⟨-, hstop⟩
  · exact ⟨_, Disk.find_of_free (spot_eq_ok_iff.mpr ⟨hfault, hwalk⟩) (stands_eq_none_iff.mp hfree),
      rfl⟩
  · have hspot : ∃ fault, d.spot fl l = .error fault ∧ isMissing fault = true := by
      rw [Disk.spot, hfault]
      rcases hstop with hstop | hstop <;> rw [hstop] <;> exact ⟨_, rfl, rfl⟩
    obtain ⟨fault, hspot, hmissing⟩ := hspot
    exact ⟨fault, find_of_spot_error hspot, hmissing⟩

end Rooted

section Rows
variable {d : Disk} {top l : Location} {n : Name}

/-- A directory, or a file that was made. -/
def IsPlain (d : Disk) : Object → Prop
  | .directory _ => True
  | .file id => id < d.nextFile ∧ (d.body? id).isSome = true
  | _ => False

instance (d : Disk) (o : Object) : Decidable (d.IsPlain o) := by
  cases o <;> unfold IsPlain <;> infer_instance

/-- That a disk holds a tree is seen from its rows. -/
theorem isTree_of_rows (hproper : d.IsProper) (hcarried : ∀ n ∈ top, IsCarried n) (hfits : Fits top)
    (hway : d.WayDown [] top) (hdir : d.stands top = some .directory)
    (hrows : ∀ row ∈ d.objects, top <+: row.1 → row.1 ≠ top →
      d.isDirectoryAt row.1.dropLast = true ∧ d.IsPlain row.2) : d.IsTree top := by
  have hrow {l : Location} {o : Object} (hat : d.at? l = some o) (hl : top <+: l) (hne : l ≠ top) :
      d.isDirectoryAt l.dropLast = true ∧ d.IsPlain o :=
    hrows (l, o) ((Table.get?_eq_some_iff hproper.keys).mp hat) hl hne
  refine ⟨hcarried, hfits, hway, hdir, fun l n hl hsome => ?_, fun l x hl hx => ?_,
    fun l id hl hfile => ?_⟩
  · obtain ⟨x, hx⟩ := Option.ne_none_iff_exists'.mp hsome
    obtain ⟨o, hat, -⟩ := stands_eq_some_iff.mp hx
    have hne : l ++ [n] ≠ top := by
      intro heq
      have hle := hl.length_le
      simp only [← heq, List.length_append, List.length_singleton] at hle
      omega
    have hparent := (hrow hat (hl.trans (List.prefix_append l [n])) hne).1
    rwa [List.dropLast_concat, isDirectoryAt_iff] at hparent
  · obtain ⟨o, hat, rfl⟩ := stands_eq_some_iff.mp hx
    by_cases hne : l = top
    · rw [hne, hdir] at hx
      exact .inl (Option.some.inj hx).symm
    · have hplain := (hrow hat hl hne).2
      cases o with
      | file id => exact .inr ⟨id, rfl⟩
      | directory => exact .inl rfl
      | link | pipe => exact hplain.elim
  · have hne : l ≠ top := by
      rintro rfl
      rw [hdir] at hfile
      cases hfile
    exact (hrow (stands_eq_file_iff.mp hfile) hl hne).2

variable (hproper : d.IsProper) (hempty : ∀ row ∈ d.objects, top <+: row.1 → row.1 = top)
include hproper hempty

theorem eq_top_of_empty (hl : top <+: l) (hstands : d.stands l ≠ none) : l = top := by
  obtain ⟨x, hx⟩ := Option.ne_none_iff_exists'.mp hstands
  obtain ⟨o, hat, -⟩ := stands_eq_some_iff.mp hx
  exact hempty (l, o) ((Table.get?_eq_some_iff hproper.keys).mp hat) hl

/-- A directory with nothing in it. -/
theorem isTree_of_empty (hcarried : ∀ n ∈ top, IsCarried n) (hfits : Fits top)
    (hway : d.WayDown [] top) (hdir : d.stands top = some .directory) : d.IsTree top :=
  isTree_of_rows hproper hcarried hfits hway hdir fun row hrow hl hne =>
    absurd (hempty row hrow hl) hne

end Rows

namespace IsTree
variable {d d' : Disk} {top l : Location} {n : Name}

theorem isRooted (h : d.IsTree top) : d.IsRooted top :=
  ⟨h.carried, h.way, h.isDirectory, h.parent, h.filed⟩

theorem wayDown (h : d.IsTree top) (hl : top <+: l) (hstands : d.stands l ≠ none) :
    d.WayDown [] l :=
  h.isRooted.wayDown hl hstands

/-- Above a directory of the tree there are directories only. -/
theorem directory_of_prefix (h : d.IsTree top) (hl : top <+: l)
    (hdir : d.stands l = some .directory) {q : Location} (hq : q <+: l) :
    d.stands q = some .directory := by
  have hway := h.wayDown hl (by rw [hdir]; nofun)
  obtain ⟨rest, rfl⟩ := hq
  cases rest with
  | nil => rwa [List.append_nil] at hdir
  | cons n rest => exact hway q n ⟨rest, by simp⟩

/-- On the way to the tree there are directories, and in the tree there are no links either. -/
theorem straight (h : d.IsTree top) (hl : top <+: l) : d.Straight l := by
  intro pre target hpre hlink
  rcases List.prefix_or_prefix_of_prefix hpre hl with habove | hbelow
  · obtain ⟨rest, hrest⟩ := habove
    cases rest with
    | nil =>
        rw [List.append_nil] at hrest
        rw [hrest, h.isDirectory] at hlink
        cases hlink
    | cons n rest =>
        have hdir := h.way pre n ⟨rest, by rw [← hrest]; simp⟩
        rw [List.nil_append, hlink] at hdir
        cases hdir
  · rcases h.plain pre _ hbelow hlink with hdir | ⟨id, hfile⟩
    · cases hdir
    · cases hfile

theorem walk (h : d.IsTree top) (hl : top <+: l) (hcarried : ∀ m ∈ l, IsCarried m) (fl : Bool) :
    (d.WayDown [] l ∧ d.walk fl linkLimit [] l = .ok l) ∨
      (¬ d.WayDown [] l ∧ IsStop (d.walk fl linkLimit [] l)) :=
  walk_down linkLimit hcarried fun pre target hpre => h.straight hl pre target hpre

theorem wayDown_concat_iff (h : d.IsTree top) (hl : top <+: l) :
    d.WayDown [] (l ++ [n]) ↔ d.stands l = some .directory := by
  rw [wayDown_concat]
  constructor
  · exact fun hway => hway.2
  · exact fun hdir => ⟨h.wayDown hl (by rw [hdir]; nofun), hdir⟩

/-- What stands in the tree is where its path leads. -/
theorem spot_of_stands (h : d.IsTree top) (hl : top <+: l) (hcarried : ∀ m ∈ l, IsCarried m)
    (hfits : Fits l) (hstands : d.stands l ≠ none) (fl : Bool) : d.spot fl l = .ok l :=
  spot_of_wayDown hcarried hfits (h.wayDown hl hstands)
    (fun target => h.straight hl l target (List.prefix_refl l)) fl

/-- What stands in the tree is found under its path. -/
theorem find_of_at? (h : d.IsTree top) (hl : top <+: l) (hcarried : ∀ m ∈ l, IsCarried m)
    (hfits : Fits l) {o : Object} (hat : d.at? l = some o) (fl : Bool) :
    d.find fl l = .ok (l, o) := by
  have hspot := h.spot_of_stands hl hcarried hfits (by rw [stands_of_at? hat]; nofun) fl
  exact find_of_spot hspot hat

/-- A name in a directory of the tree leads to its place, taken or free. -/
theorem spot_concat (h : d.IsTree top) (hl : top <+: l) (hcarried : ∀ m ∈ l ++ [n], IsCarried m)
    (hfits : Fits (l ++ [n])) (hdir : d.stands l = some .directory) (fl : Bool) :
    d.spot fl (l ++ [n]) = .ok (l ++ [n]) := by
  have hprefix : top <+: l ++ [n] := hl.trans (List.prefix_append l [n])
  rcases h.walk hprefix hcarried fl with ⟨-, hwalk⟩ | ⟨hway, -⟩
  · exact spot_eq_ok_iff.mpr ⟨(pathFault?_eq_none_iff hcarried).mpr hfits, hwalk⟩
  · exact absurd ((h.wayDown_concat_iff hl).mpr hdir) hway

/-- Anything else leads nowhere. -/
theorem spot_cases (h : d.IsTree top) (hl : top <+: l) (hcarried : ∀ m ∈ l ++ [n], IsCarried m)
    (fl : Bool) :
    (d.spot fl (l ++ [n]) = .ok (l ++ [n]) ∧ Fits (l ++ [n]) ∧ d.stands l = some .directory) ∨
      ∃ fault, d.spot fl (l ++ [n]) = .error fault ∧
        (¬ Fits (l ++ [n]) ∨ d.stands l ≠ some .directory ∧ isMissing fault = true) := by
  have hprefix : top <+: l ++ [n] := hl.trans (List.prefix_append l [n])
  by_cases hfits : Fits (l ++ [n])
  · by_cases hdir : d.stands l = some .directory
    · exact .inl ⟨h.spot_concat hl hcarried hfits hdir fl, hfits, hdir⟩
    · have hfault := (pathFault?_eq_none_iff hcarried).mpr hfits
      rcases h.walk hprefix hcarried fl with ⟨hway, -⟩ | ⟨-, hstop⟩
      · exact absurd ((h.wayDown_concat_iff hl).mp hway) hdir
      · refine .inr ?_
        rw [spot, hfault]
        rcases hstop with hstop | hstop <;> rw [hstop]
        · exact ⟨_, rfl, .inr ⟨hdir, rfl⟩⟩
        · exact ⟨_, rfl, .inr ⟨hdir, rfl⟩⟩
  · have hfault : pathFault? (l ++ [n]) ≠ none := by
      rw [Ne, pathFault?_eq_none_iff hcarried]
      exact hfits
    obtain ⟨fault, hfault⟩ := Option.ne_none_iff_exists'.mp hfault
    refine .inr ⟨fault, ?_, .inl hfits⟩
    rw [spot, hfault]

/-- Where nothing stands, something is missing. -/
theorem find_of_free (h : d.IsTree top) (hl : top <+: l) (hcarried : ∀ m ∈ l, IsCarried m)
    (hfits : Fits l) (hx : d.stands l = none) (fl : Bool) :
    ∃ fault, d.find fl l = .error fault ∧ isMissing fault = true :=
  (h.straight hl).find_of_free hcarried hfits hx fl

/-- A path that is found leads to the place that it spells. -/
theorem find_place (h : d.IsTree top) (hl : top <+: l) (hcarried : ∀ m ∈ l, IsCarried m) {fl : Bool}
    {q : Location} {o : Object} (hfind : d.find fl l = .ok (q, o)) :
    q = l ∧ d.at? l = some o ∧ Fits l := by
  obtain ⟨hfault, hwalk, hat⟩ := find_eq_ok_iff.mp hfind
  rcases h.walk hl hcarried fl with ⟨-, hdown⟩ | ⟨-, hstop⟩
  · rw [hdown] at hwalk
    cases hwalk
    exact ⟨rfl, hat, (pathFault?_eq_none_iff hcarried).mp hfault⟩
  · rcases hstop with hstop | hstop <;> rw [hstop] at hwalk <;> cases hwalk

/-- Bodies may come and change, but none may go. -/
theorem congr (h : d.IsTree top) (hstands : d'.stands = d.stands) (hnext : d.nextFile ≤ d'.nextFile)
    (hbodies : ∀ id, (d.body? id).isSome = true → (d'.body? id).isSome = true) : d'.IsTree top := by
  refine ⟨h.carried, h.fits, ?_, ?_, ?_, ?_, ?_⟩
  · intro pre n hpre
    rw [hstands]
    exact h.way pre n hpre
  · rw [hstands]
    exact h.isDirectory
  · rw [hstands]
    exact h.parent
  · rw [hstands]
    exact h.plain
  · intro q id hq hfile
    rw [hstands] at hfile
    obtain ⟨hid, hbody⟩ := h.filed q id hq hfile
    exact ⟨Nat.lt_of_lt_of_le hid hnext, hbodies id hbody⟩

/-- One more file or directory in a directory of the tree,
a file perhaps in the place of another. -/
theorem update (h : d.IsTree top) (hl : top <+: l) {x : Stand}
    (hstands : d'.stands = Function.update d.stands (l ++ [n]) (some x))
    (hdir : d.stands l = some .directory) (hfree : d.stands (l ++ [n]) ≠ some .directory)
    (hx : x = .directory ∨ ∃ id, x = .file id ∧ id < d'.nextFile ∧ (d'.body? id).isSome = true)
    (hnext : d.nextFile ≤ d'.nextFile)
    (hbodies : ∀ id, (d.body? id).isSome = true → (d'.body? id).isSome = true) :
    d'.IsTree top := by
  have hkeep {q : Location} (hq : d.stands q = some .directory) :
      d'.stands q = some .directory := by
    rw [hstands, Function.update_apply]
    split
    · next heq => rw [heq] at hq; exact absurd hq hfree
    · exact hq
  refine ⟨h.carried, h.fits, fun pre m hpre => hkeep (h.way pre m hpre), hkeep h.isDirectory, ?_,
    ?_, ?_⟩
  · intro q m hq hsome
    rw [hstands, Function.update_apply] at hsome
    split at hsome
    · next heq =>
        obtain ⟨rfl, -⟩ := List.append_inj' heq rfl
        exact hkeep hdir
    · exact hkeep (h.parent q m hq hsome)
  · intro q y hq hy
    rw [hstands, Function.update_apply] at hy
    split at hy
    · cases hy
      rcases hx with hx | ⟨id, hx, -⟩
      · exact .inl hx
      · exact .inr ⟨id, hx⟩
    · exact h.plain q y hq hy
  · intro q id hq hfile
    rw [hstands, Function.update_apply] at hfile
    split at hfile
    · cases hfile
      rcases hx with hx | ⟨id', hx, hid⟩
      · cases hx
      · cases hx
        exact hid
    · obtain ⟨hid, hbody⟩ := h.filed q id hq hfile
      exact ⟨Nat.lt_of_lt_of_le hid hnext, hbodies id hbody⟩

end IsTree
end OnDemandFs.Disk
