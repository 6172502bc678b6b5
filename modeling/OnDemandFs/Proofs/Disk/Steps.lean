import OnDemandFs.Proofs.Disk.Publishing

/-!
# A publication step by step

Others look at the disk between any two steps of a publication, and any step may fail, for want of
space if for nothing else. `Publication.Step` allows for all of that: directories are made one at a
time, a staged file has any free staging name and is written piece by piece. `Publication.Effect`
says for each state what the disk differs in from the disk before: new directories on the way to the
target, the staged file while there is one, and in the end the target. Nothing is asked of the disk
but that no link stands on that way.
-/
namespace OnDemandFs.Disk

namespace Publication

/-- A step that failed. What was staged has still to be taken away. -/
def fail (fault : IoFault) : Publication → Publication
  | .making | .staging => .finished (.error fault)
  | .writing place _ | .moving place _ => .discarding place fault
  | .discarding place cause => .discarding place cause
  | .finished r => .finished r

/-- One step of publishing `content` at `target`, staged in `dir`, as it may go. -/
inductive Step (dir target : List Name) (content : Bytes) :
    Disk × Publication → Disk × Publication → Prop
  | advance (d : Disk) (p : Publication) :
      Step dir target content (d, p) (p.advance dir target content d)
  | fail (d : Disk) (p : Publication) (fault : IoFault) :
      Step dir target content (d, p) (d, p.fail fault)
  | make (d : Disk) {pre : List Name} : pre <+: dir →
      Step dir target content (d, .making) ((d.makeDirectory pre).1, .making)
  | stage (d : Disk) {place : Location} {n : Name} : d.spot true dir = .ok place → IsStaging n →
      d.at? (place ++ [n]) = none → Step dir target content (d, .staging)
        ((d.create (place ++ [n]) []).2, .writing (place ++ [n]) d.nextFile)
  | write (d : Disk) (place : Location) (id : FileId) (count : Nat) :
      Step dir target content (d, .writing place id)
        (d.overwrite id (content.take count), .writing place id)

end Publication

/-! ### Paths past no link -/

section Plain
variable {d : Disk} {place q l : Location} {names : List Name} {fl : Bool}

/-- Past no link a walk under names that lead down gets nowhere else. -/
theorem walkWith_plain {onLink : Location → List Name → Except Errno Location}
    (hnames : ∀ n ∈ names, IsPlainName n)
    (hlinks : ∀ pre target, pre <+: names → (pre = names → fl = true) →
      d.stands (place ++ pre) ≠ some (.link target))
    (h : d.walkWith fl onLink place names = .ok q) :
    q = place ++ names ∧ d.WayDown place names := by
  induction names generalizing place with
  | nil =>
      cases h
      exact ⟨(List.append_nil _).symm, wayDown_nil d _⟩
  | cons n rest ih =>
      have hn := hnames n List.mem_cons_self
      have hstay : ¬ (n = [] ∨ n = here) := not_or.mpr ⟨hn.ne_nil, hn.ne_here⟩
      have ih := @ih (place ++ [n]) (fun m hm => hnames m (List.mem_cons_of_mem _ hm))
        (fun pre target hpre hlast => by
          have := hlinks (n :: pre) target (List.cons_prefix_cons.mpr ⟨rfl, hpre⟩)
            fun heq => hlast (List.tail_eq_of_cons_eq heq)
          rwa [List.append_assoc])
      rw [List.append_assoc] at ih
      rw [walkWith_cons] at h
      unfold turn at h
      simp only [if_neg hstay, if_neg hn.ne_above] at h
      split at h
      · cases h
      · next hdirectory =>
          have hdir : d.stands place = some .directory :=
            isDirectoryAt_iff.mp (not_not.mp hdirectory)
          rw [wayDown_cons]
          split at h
          · cases h
          · cases hat : d.at? (place ++ [n]) with
            | none =>
                simp only [hat, Turn.take] at h
                split at h
                · next hlast =>
                    cases h
                    rw [List.isEmpty_iff.mp hlast]
                    exact ⟨rfl, hdir, wayDown_nil d _⟩
                · cases h
            | some o =>
                cases o with
                | link target t =>
                    have hlink : d.stands (place ++ [n]) = some (.link target) := stands_of_at? hat
                    have hlast : ¬ ([n] = n :: rest → fl = true) :=
                      fun hlast => hlinks [n] target ⟨rest, rfl⟩ hlast hlink
                    obtain ⟨heq, hfl⟩ := Classical.not_imp.mp hlast
                    have hrest : rest = [] := (List.tail_eq_of_cons_eq heq).symm
                    subst hrest
                    rw [Bool.not_eq_true] at hfl
                    simp only [hat, Turn.take, hfl] at h
                    cases h
                    exact ⟨rfl, hdir, wayDown_nil d _⟩
                | file | directory | pipe =>
                    simp only [hat, Turn.take] at h
                    obtain ⟨hq, hway⟩ := ih h
                    exact ⟨hq, hdir, hway⟩

theorem walk_plain {links : Nat} (hnames : ∀ n ∈ names, IsPlainName n)
    (hlinks : ∀ pre target, pre <+: names → (pre = names → fl = true) →
      d.stands (place ++ pre) ≠ some (.link target))
    (h : d.walk fl links place names = .ok q) : q = place ++ names ∧ d.WayDown place names := by
  cases links with
  | zero => exact walkWith_plain hnames hlinks h
  | succ links => exact walkWith_plain hnames hlinks h

/-- A path past no link leads to the place that it spells, or nowhere. -/
theorem spot_plain (hnames : ∀ n ∈ l, IsPlainName n)
    (hlinks : ∀ pre target, pre <+: l → (pre = l → fl = true) → d.stands pre ≠ some (.link target))
    (h : d.spot fl l = .ok q) :
    q = l ∧ d.WayDown [] l ∧ Fits l ∧ ∀ n ∈ l, IsCarried n := by
  obtain ⟨hfault, hwalk⟩ := spot_eq_ok_iff.mp h
  obtain ⟨hq, hway⟩ := walk_plain hnames hlinks hwalk
  have hcarried (n : Name) (hn : n ∈ l) : IsCarried n := isCarried_of_spot h hn (hnames n hn)
  exact ⟨hq, hway, (pathFault?_eq_none_iff hcarried).mp hfault, hcarried⟩

theorem Straight.spot (h : d.Straight l) (hnames : ∀ n ∈ l, IsPlainName n)
    (hspot : d.spot fl l = .ok q) : q = l :=
  (spot_plain hnames (fun pre target hpre _ => h pre target hpre) hspot).1

end Plain

/-! ### What a publication has done so far -/

/-- New directories on the way to a place, and no other change of what was there. -/
structure Paves (dir : Location) (d₀ d : Disk) : Prop where
  stands : ∀ l, d.stands l = d₀.stands l ∨
    (l <+: dir ∧ d₀.stands l = none ∧ d.stands l = some .directory)
  nextFile : d₀.nextFile ≤ d.nextFile
  bodies : ∀ id < d₀.nextFile, d.body? id = d₀.body? id

/-- A file is staged in a directory, and otherwise the way to it was paved. -/
structure Staged (dir : Location) (d₀ : Disk) (place : Location) (id : FileId) (d : Disk) :
    Prop where
  name : ∃ n, IsStaging n ∧ place = dir ++ [n]
  free : d₀.stands place = none
  stands : d.stands place = some (.file id)
  isDirectory : d.stands dir = some .directory
  fresh : d₀.nextFile ≤ id
  nextFile : id < d.nextFile
  others : ∀ l, l ≠ place → d.stands l = d₀.stands l ∨
    (l <+: dir ∧ d₀.stands l = none ∧ d.stands l = some .directory)
  bodies : ∀ old < d₀.nextFile, d.body? old = d₀.body? old

/-- A new file with the whole content is found at the target, and otherwise the way was paved. -/
structure Published (dir target : Location) (content : Bytes) (d₀ : Disk) (id : FileId) (d : Disk) :
    Prop where
  found : d.find true target = .ok (target, .file id)
  body : ∃ t, d.body? id = some ⟨content, t⟩
  free : d₀.stands target ≠ some .directory
  fresh : d₀.nextFile ≤ id
  nextFile : id < d.nextFile
  others : ∀ l, l ≠ target → d.stands l = d₀.stands l ∨
    (l <+: dir ∧ d₀.stands l = none ∧ d.stands l = some .directory)
  bodies : ∀ old < d₀.nextFile, d.body? old = d₀.body? old

/-- Where a file is staged, if one is. -/
def Publication.staged? : Publication → Option Location
  | .writing place _ | .moving place _ | .discarding place _ => some place
  | .making | .staging | .finished _ => none

/-- What the disk differs in from `d₀`, by the state of the publication. -/
def Publication.Effect (dir target : List Name) (content : Bytes) (d₀ d : Disk) :
    Publication → Prop
  | .making => Paves dir d₀ d
  | .staging => Paves dir d₀ d ∧ d.stands dir = some .directory
  | .writing place id => Staged dir d₀ place id d
  | .moving place id => Staged dir d₀ place id d ∧ ∃ t, d.body? id = some ⟨content, t⟩
  | .discarding place _ => ∃ id, Staged dir d₀ place id d
  | .finished (.ok ()) => ∃ id, Published dir target content d₀ id d
  | .finished (.error _) => Paves dir d₀ d

/-- A place that something can be published at, staged next to it. -/
structure IsTarget (d₀ : Disk) (target : Location) : Prop where
  plain : ∀ n ∈ target, IsPlainName n
  top : d₀.stands [] = some .directory
  straight : d₀.Straight target.dropLast
  apart : ∀ n, IsStaging n → d₀.stands (target.dropLast ++ [n]) = none →
    target.dropLast ++ [n] ≠ target

section Effect
variable {d₀ d d' : Disk} {dir target l place : Location} {n : Name} {content : Bytes} {id : FileId}

theorem Paves.refl (d : Disk) : Paves dir d d := ⟨fun _ => .inl rfl, Nat.le_refl _, fun _ _ => rfl⟩

theorem Paves.straight (h : Paves dir d₀ d) (hstraight : d₀.Straight l) : d.Straight l := by
  intro pre target hpre
  rcases h.stands pre with hsame | ⟨-, -, hnew⟩
  · rw [hsame]
    exact hstraight pre target hpre
  · rw [hnew]
    nofun

theorem Paves.isDirectory (h : Paves dir d₀ d) (hl : d₀.stands l = some .directory) :
    d.stands l = some .directory := by
  rcases h.stands l with hsame | ⟨-, -, hnew⟩
  · rw [hsame]
    exact hl
  · exact hnew

theorem Paves.makeDirectory (h : Paves dir d₀ d) (hplain : ∀ n ∈ dir, IsPlainName n)
    (hstraight : d₀.Straight dir) (hl : l <+: dir) :
    Paves dir d₀ (d.makeDirectory l).1 ∧
      ((d.makeDirectory l).2 = .ok () → (d.makeDirectory l).1.stands l = some .directory) := by
  have hplainl : ∀ n ∈ l, IsPlainName n := fun n hn => hplain n (hl.subset hn)
  have hstraightl : d.Straight l := fun pre target hpre =>
    h.straight hstraight pre target (hpre.trans hl)
  unfold Disk.makeDirectory
  cases hspot : d.spot false l with
  | error fault => exact ⟨h, nofun⟩
  | ok q =>
      obtain rfl : q = l := hstraightl.spot hplainl hspot
      dsimp only
      cases hat : d.at? q with
      | some o => exact ⟨h, nofun⟩
      | none =>
          have hbodies : SameBodies d (d.tick.2.put q (.directory d.tick.1)) :=
            (sameBodies_tick d).trans (sameBodies_put _ _ _)
          have hstands : (d.tick.2.put q (.directory d.tick.1)).stands =
              Function.update d.stands q (some .directory) := by
            rw [stands_put, stands_tick]
            rfl
          have hfree : d₀.stands q = none := by
            have hnone : d.stands q = none := stands_eq_none_iff.mpr hat
            rcases h.stands q with hsame | ⟨-, hwas, -⟩
            · rw [← hsame]
              exact hnone
            · exact hwas
          simp only [Option.isSome_none, Bool.false_eq_true, if_false]
          refine ⟨⟨fun q' => ?_, ?_, fun id hid => ?_⟩, fun _ => ?_⟩
          · rw [hstands, Function.update_apply]
            split
            · next heq =>
                rw [heq]
                exact .inr ⟨hl, hfree, rfl⟩
            · exact h.stands q'
          · rw [hbodies.nextFile]
            exact h.nextFile
          · rw [hbodies.body?]
            exact h.bodies id hid
          · rw [hstands, Function.update_self]

theorem settled_fst (path : List Name) (r : Outcome Unit) : (settled path r).1 = r.1 := by
  obtain ⟨d, fault | _⟩ := r
  · unfold settled
    dsimp only
    split <;> rfl
  · rfl

theorem Paves.settled {r : Outcome Unit} (h : Paves dir d₀ r.1) (hplain : ∀ n ∈ dir, IsPlainName n)
    (hstraight : d₀.Straight dir) (hl : l <+: dir)
    (hmade : r.2 = .ok () → r.1.stands l = some .directory) (hok : (settled l r).2 = .ok ()) :
    r.1.stands l = some .directory := by
  obtain ⟨d, fault | _⟩ := r
  · unfold Disk.settled at hok
    dsimp only at hok
    split at hok
    · next hdirectory =>
        unfold Disk.isDirectory at hdirectory
        split at hdirectory
        · next q t hfind =>
            obtain ⟨hfault, hwalk, hat⟩ := find_eq_ok_iff.mp hfind
            have hspot : d.spot true l = .ok q := spot_eq_ok_iff.mpr ⟨hfault, hwalk⟩
            have hstraightl : d.Straight l := fun pre target hpre =>
              h.straight hstraight pre target (hpre.trans hl)
            rw [← hstraightl.spot (fun n hn => hplain n (hl.subset hn)) hspot]
            exact stands_of_at? hat
        · cases hdirectory
    · cases hok
  · exact hmade rfl

/-- However far it gets, the making of directories makes directories. -/
theorem Paves.makeDirectoriesUp (hplain : ∀ n ∈ dir, IsPlainName n) (hstraight : d₀.Straight dir)
    (htop : d₀.stands [] = some .directory) {up : List Name} (hup : up.reverse <+: dir)
    (h : Paves dir d₀ d) :
    Paves dir d₀ (d.makeDirectoriesUp up).1 ∧ ((d.makeDirectoriesUp up).2 = .ok () →
      (d.makeDirectoriesUp up).1.stands up.reverse = some .directory) := by
  induction up generalizing d with
  | nil => exact ⟨h, fun _ => h.isDirectory htop⟩
  | cons n up ih =>
      rw [List.reverse_cons] at hup ⊢
      have hup' : up.reverse <+: dir := (List.prefix_append _ _).trans hup
      have hmake := h.makeDirectory hplain hstraight hup
      have hsettle {r : Outcome Unit} (hpaves : Paves dir d₀ r.1)
          (hmade : r.2 = .ok () → r.1.stands (up.reverse ++ [n]) = some .directory) :
          Paves dir d₀ (Disk.settled (up.reverse ++ [n]) r).1 ∧
            ((Disk.settled (up.reverse ++ [n]) r).2 = .ok () →
              (Disk.settled (up.reverse ++ [n]) r).1.stands (up.reverse ++ [n]) =
                some .directory) := by
        rw [settled_fst]
        exact ⟨hpaves, hpaves.settled hplain hstraight hup hmade⟩
      rw [makeDirectoriesUp_cons]
      revert hmake
      split
      · next d' heq =>
          rw [heq]
          rintro ⟨hpaves, -⟩
          have hrec := ih hup' hpaves
          revert hrec
          rcases d'.makeDirectoriesUp up with ⟨d'', fault | _⟩
          · exact fun hrec => ⟨hrec.1, nofun⟩
          · intro hrec
            obtain ⟨hagain, hmade⟩ := hrec.1.makeDirectory hplain hstraight hup
            exact hsettle hagain hmade
      · exact fun hmake => hsettle hmake.1 hmake.2

theorem Published.stands (h : Published dir target content d₀ id d) :
    d.stands target = some (.file id) :=
  stands_eq_file_iff.mpr (find_eq_ok_iff.mp h.found).2.2

theorem IsTarget.plainUp (h : d₀.IsTarget target) : ∀ n ∈ target.dropLast, IsPlainName n :=
  fun n hn => h.plain n (List.dropLast_subset _ hn)

theorem Paves.makeDirectories (h : Paves target.dropLast d₀ d) (htarget : d₀.IsTarget target) :
    Paves target.dropLast d₀ (d.makeDirectories target.dropLast).1 ∧
      ((d.makeDirectories target.dropLast).2 = .ok () →
        (d.makeDirectories target.dropLast).1.stands target.dropLast = some .directory) := by
  have hup : target.dropLast.reverse.reverse <+: target.dropLast := by
    rw [List.reverse_reverse]
  have hmade := Paves.makeDirectoriesUp htarget.plainUp htarget.straight htarget.top hup h
  rwa [List.reverse_reverse] at hmade

/-- A file is staged under a free name. -/
theorem Paves.stage (h : Paves dir d₀ d) (hdir : d.stands dir = some .directory)
    (hname : IsStaging n) (hfree : d.at? (dir ++ [n]) = none) :
    Staged dir d₀ (dir ++ [n]) d.nextFile (d.create (dir ++ [n]) []).2 := by
  have hnone : d.stands (dir ++ [n]) = none := stands_eq_none_iff.mpr hfree
  have hstands := stands_create d (dir ++ [n]) []
  refine ⟨⟨n, hname, rfl⟩, ?_, ?_, ?_, h.nextFile, ?_, fun l hl => ?_, fun old hold => ?_⟩
  · rcases h.stands (dir ++ [n]) with hsame | ⟨-, hwas, -⟩
    · rw [← hsame]
      exact hnone
    · exact hwas
  · rw [hstands, Function.update_self]
  · rw [hstands, Function.update_of_ne (by simp), hdir]
  · rw [nextFile_create]
    exact Nat.lt_succ_self _
  · rw [hstands, Function.update_of_ne hl]
    exact h.stands l
  · rw [body?_create, if_neg (Nat.ne_of_lt (Nat.lt_of_lt_of_le hold h.nextFile))]
    exact h.bodies old hold

theorem Staged.overwrite (h : Staged dir d₀ place id d) (content : Bytes) :
    Staged dir d₀ place id (d.overwrite id content) := by
  refine ⟨h.name, h.free, h.stands, h.isDirectory, h.fresh, h.nextFile, h.others,
    fun old hold => ?_⟩
  rw [body?_overwrite, if_neg (Nat.ne_of_lt (Nat.lt_of_lt_of_le hold h.fresh))]
  exact h.bodies old hold

/-- The staged file is taken away, and nothing is left of it under any name. -/
theorem Staged.unlink (h : Staged dir d₀ place id d) : Paves dir d₀ (d.unlink place) := by
  have hbodies := sameBodies_unlink d place
  refine ⟨fun l => ?_, ?_, fun old hold => ?_⟩
  · rw [stands_unlink, Function.update_apply]
    split
    · next heq =>
        rw [heq]
        exact .inl h.free.symm
    · next hne => exact h.others l hne
  · rw [hbodies.nextFile]
    exact Nat.le_of_lt (Nat.lt_of_le_of_lt h.fresh h.nextFile)
  · rw [hbodies.body?]
    exact h.bodies old hold

/-- The place of the staged file is not on the way to any place in its directory. -/
theorem Staged.ne_of_prefix (h : Staged dir d₀ place id d) (hl : l <+: dir) : l ≠ place := by
  obtain ⟨n, -, rfl⟩ := h.name
  intro heq
  have := hl.length_le
  rw [heq, List.length_append, List.length_singleton] at this
  omega

theorem Staged.straight (h : Staged dir d₀ place id d) (hstraight : d₀.Straight dir) :
    d.Straight dir := by
  intro pre target hpre
  rcases h.others pre (h.ne_of_prefix hpre) with hsame | ⟨-, -, hnew⟩
  · rw [hsame]
    exact hstraight pre target hpre
  · rw [hnew]
    nofun

theorem prefix_dropLast_of_ne (h : l <+: target) (hne : l ≠ target) : l <+: target.dropLast := by
  rcases target.eq_nil_or_concat with rfl | ⟨up, n, rfl⟩
  · exact absurd (List.prefix_nil.mp h) hne
  · rw [List.concat_eq_append] at h hne ⊢
    rw [List.dropLast_concat]
    exact (List.prefix_concat_iff.mp h).resolve_left hne

theorem eq_nil_of_prefix_dropLast (h : l <+: l.dropLast) : l = [] := by
  have hlength := h.length_le
  rw [List.length_dropLast] at hlength
  exact List.eq_nil_of_length_eq_zero (by omega)

/-- Nothing is published below a file. -/
theorem Published.not_file (h : Published target.dropLast target content d₀ id d)
    (htarget : d₀.IsTarget target) (hl : l <+: target.dropLast) (old : FileId) :
    d₀.stands l ≠ some (.file old) := by
  have hne {q : Location} (hq : q <+: target.dropLast) : q ≠ target := by
    rintro rfl
    refine h.free ?_
    rw [eq_nil_of_prefix_dropLast hq]
    exact htarget.top
  have hlinks (pre : Location) (link : Bytes) (hpre : pre <+: target) :
      d.stands pre ≠ some (.link link) := by
    by_cases heq : pre = target
    · rw [heq, h.stands]
      nofun
    · have hup := prefix_dropLast_of_ne hpre heq
      rcases h.others pre heq with hsame | ⟨-, -, hnew⟩
      · rw [hsame]
        exact htarget.straight pre link hup
      · rw [hnew]
        nofun
  obtain ⟨hfault, hwalk, -⟩ := find_eq_ok_iff.mp h.found
  have hway := (spot_plain htarget.plain (fun pre link hpre _ => hlinks pre link hpre)
    (spot_eq_ok_iff.mpr ⟨hfault, hwalk⟩)).2.1
  have hdir : d.stands l = some .directory := by
    obtain ⟨rest, hrest⟩ := hl.trans (List.dropLast_prefix target)
    cases rest with
    | nil => exact absurd ((List.append_nil l).symm.trans hrest) (hne hl)
    | cons n rest => exact hway l n ⟨rest, by rw [← hrest]; simp⟩
  rcases h.others l (hne hl) with hsame | ⟨-, hfree, -⟩
  · rw [← hsame, hdir]
    nofun
  · rw [hfree]
    nofun

/-- The move takes away nothing on the way to the target. -/
theorem Staged.wayDown_move (h : Staged target.dropLast d₀ place id d)
    (hway : d.WayDown [] target) (hnot : d.stands target ≠ some .directory) :
    ((d.unlink place).put target (.file id)).WayDown [] target := by
  intro pre n hpre
  have hdir : d.stands pre = some .directory := hway pre n hpre
  have hne : pre ≠ target := by
    rintro rfl
    exact hnot hdir
  have hne' : pre ≠ place :=
    h.ne_of_prefix (prefix_dropLast_of_ne ((List.prefix_append _ _).trans hpre) hne)
  rw [List.nil_append, stands_put, Function.update_of_ne hne, stands_unlink,
    Function.update_of_ne hne', hdir]

/-- The staged file is moved over whatever stood at the target. -/
theorem Staged.move (h : Staged target.dropLast d₀ place id d) (htarget : d₀.IsTarget target)
    (hbody : ∃ t, d.body? id = some ⟨content, t⟩) {q : Location}
    (hspot : d.spot false target = .ok q) (hnot : d.stands q ≠ some .directory) :
    Published target.dropLast target content d₀ id ((d.unlink place).put q (.file id)) := by
  -- a link may stand at the target, but on the way there is none
  have hlinks (pre : Location) (link : Bytes) (hpre : pre <+: target)
      (hlast : pre = target → false = true) : d.stands pre ≠ some (.link link) := by
    have hne : pre ≠ target := fun heq => Bool.false_ne_true (hlast heq)
    exact h.straight htarget.straight pre link (prefix_dropLast_of_ne hpre hne)
  obtain ⟨rfl, hway, hfits, hcarried⟩ := spot_plain htarget.plain hlinks hspot
  have hplace : q ≠ place := by
    obtain ⟨n, hname, rfl⟩ := h.name
    exact (htarget.apart n hname h.free).symm
  have hpaves := h.unlink
  have hunlinked := sameBodies_unlink d place
  have hput := sameBodies_put (d.unlink place) q (.file id)
  have hself : ((d.unlink place).put q (.file id)).stands q = some (.file id) := by
    rw [stands_put, Function.update_self]
    rfl
  refine ⟨?_, ?_, ?_, h.fresh, ?_, fun l hl => ?_, fun old hold => ?_⟩
  · exact find_of_spot (spot_of_wayDown hcarried hfits (h.wayDown_move hway hnot)
      (by rw [hself]; nofun) true) (stands_eq_file_iff.mp hself)
  · obtain ⟨t, hbody⟩ := hbody
    exact ⟨t, by rw [hput.body?, hunlinked.body?, hbody]⟩
  · intro hdir
    rcases h.others q hplace with hsame | ⟨-, hwas, -⟩
    · exact hnot (hsame.trans hdir)
    · rw [hwas] at hdir
      cases hdir
  · rw [hput.nextFile, hunlinked.nextFile]
    exact h.nextFile
  · rw [stands_put, Function.update_of_ne hl]
    exact hpaves.stands l
  · rw [hput.body?]
    exact hpaves.bodies old hold

namespace Publication
variable {p : Publication} {x y : Disk × Publication}

theorem effect_advance (htarget : d₀.IsTarget target)
    (h : p.Effect target.dropLast target content d₀ d) :
    (p.advance target.dropLast target content d).2.Effect target.dropLast target content d₀
      (p.advance target.dropLast target content d).1 := by
  cases p with
  | making =>
      have hmakes := Paves.makeDirectories h htarget
      unfold advance
      revert hmakes
      rcases d.makeDirectories target.dropLast with ⟨d', fault | _⟩
      · exact fun hmakes => hmakes.1
      · exact fun hmakes => ⟨hmakes.1, hmakes.2 rfl⟩
  | staging =>
      obtain ⟨hpaves, hdir⟩ := h
      unfold advance
      cases hspot : d.stagingSpot target.dropLast with
      | error fault => exact hpaves
      | ok q =>
          obtain rfl : q = target.dropLast :=
            (hpaves.straight htarget.straight).spot htarget.plainUp
              (stagingSpot_eq_ok_iff.mp hspot).1
          obtain ⟨k, hname, hfree⟩ := d.freshStaging_free target.dropLast
          rw [← hname] at hfree
          exact hpaves.stage hdir (hname ▸ isStaging_stagingName k) hfree
  | writing place id =>
      have hbody : (d.overwrite id content).body? id = some ⟨content, d.clock⟩ := by
        rw [body?_overwrite, if_pos rfl]
      exact ⟨Staged.overwrite h content, d.clock, hbody⟩
  | moving place id =>
      obtain ⟨hstaged, hbody⟩ := h
      rcases d.moveOver_cases place id target with ⟨q, hspot, hnot, hmove⟩ | ⟨⟨fault, hmove⟩, -⟩
      · simp only [advance, hmove]
        exact ⟨id, hstaged.move htarget hbody hspot hnot⟩
      · simp only [advance, hmove]
        exact ⟨id, hstaged⟩
  | discarding place fault =>
      obtain ⟨id, hstaged⟩ := h
      exact hstaged.unlink
  | finished r => exact h

theorem effect_fail (h : p.Effect dir target content d₀ d) (fault : IoFault) :
    (p.fail fault).Effect dir target content d₀ d := by
  cases p with
  | making => exact h
  | staging => exact h.1
  | writing place id => exact ⟨id, h⟩
  | moving place id => exact ⟨id, h.1⟩
  | discarding place cause => exact h
  | finished r => exact h

theorem effect_step (htarget : d₀.IsTarget target)
    (hstep : Step target.dropLast target content x y)
    (h : x.2.Effect target.dropLast target content d₀ x.1) :
    y.2.Effect target.dropLast target content d₀ y.1 := by
  cases hstep with
  | advance d p => exact effect_advance htarget h
  | fail d p fault => exact effect_fail h fault
  | make d hpre => exact (Paves.makeDirectory h htarget.plainUp htarget.straight hpre).1
  | stage d hspot hname hfree =>
      obtain ⟨hpaves, hdir⟩ := h
      have hplace := (hpaves.straight htarget.straight).spot htarget.plainUp hspot
      subst hplace
      exact hpaves.stage hdir hname hfree
  | write d place id count => exact Staged.overwrite h _

theorem Effect.staged (h : p.Effect dir target content d₀ d) (hl : p.staged? = some l) :
    ∃ id, Staged dir d₀ l id d := by
  cases p with
  | making | staging | finished => cases hl
  | writing place id =>
      cases hl
      exact ⟨id, h⟩
  | moving place id =>
      cases hl
      exact ⟨id, h.1⟩
  | discarding place fault =>
      cases hl
      exact h

/-- Outside of the staged file and the target there are new directories at most. -/
theorem Effect.others (h : p.Effect dir target content d₀ d) (hl : p.staged? ≠ some l)
    (hdone : p = .finished (.ok ()) → l ≠ target) : d.stands l = d₀.stands l ∨
      (l <+: dir ∧ d₀.stands l = none ∧ d.stands l = some .directory) := by
  have hne {place : Location} (hstaged : p.staged? = some place) : l ≠ place := by
    rintro rfl
    exact hl hstaged
  cases p with
  | making => exact Paves.stands h l
  | staging => exact Paves.stands h.1 l
  | writing place id => exact Staged.others h l (hne rfl)
  | moving place id => exact Staged.others h.1 l (hne rfl)
  | discarding place fault =>
      obtain ⟨id, hstaged⟩ := h
      exact hstaged.others l (hne rfl)
  | finished r =>
      cases r with
      | error fault => exact Paves.stands h l
      | ok =>
          obtain ⟨id, hpublished⟩ := h
          exact hpublished.others l (hdone rfl)

theorem Effect.bodies (h : p.Effect dir target content d₀ d) {id : FileId}
    (hid : id < d₀.nextFile) :
    d.body? id = d₀.body? id := by
  cases p with
  | making => exact Paves.bodies h id hid
  | staging => exact Paves.bodies h.1 id hid
  | writing place _ => exact Staged.bodies h id hid
  | moving place _ => exact Staged.bodies h.1 id hid
  | discarding place fault =>
      obtain ⟨_, hstaged⟩ := h
      exact hstaged.bodies id hid
  | finished r =>
      cases r with
      | error fault => exact Paves.bodies h id hid
      | ok =>
          obtain ⟨_, hpublished⟩ := h
          exact hpublished.bodies id hid

theorem Effect.nextFile (h : p.Effect dir target content d₀ d) : d₀.nextFile ≤ d.nextFile := by
  have hstaged {place : Location} {id : FileId} (h : Staged dir d₀ place id d) :
      d₀.nextFile ≤ d.nextFile := Nat.le_of_lt (Nat.lt_of_le_of_lt h.fresh h.nextFile)
  cases p with
  | making => exact Paves.nextFile h
  | staging => exact Paves.nextFile h.1
  | writing place _ => exact hstaged h
  | moving place _ => exact hstaged h.1
  | discarding place fault =>
      obtain ⟨_, h⟩ := h
      exact hstaged h
  | finished r =>
      cases r with
      | error fault => exact Paves.nextFile h
      | ok =>
          obtain ⟨_, hpublished⟩ := h
          exact Nat.le_of_lt (Nat.lt_of_le_of_lt hpublished.fresh hpublished.nextFile)

/-- What changed at a place, if anything did, is that nothing stood there, or that the new file came
to the target. -/
theorem Effect.cases_at (h : p.Effect dir target content d₀ d) (l : Location) :
    d.stands l = d₀.stands l ∨
      (d₀.stands l = none ∧ (d.stands l = some .directory ∨ ∃ id, d.stands l = some (.file id))) ∨
      (l = target ∧ d₀.stands l ≠ some .directory ∧ ∃ id, d.stands l = some (.file id)) := by
  by_cases hl : p.staged? = some l
  · obtain ⟨id, hstaged⟩ := h.staged hl
    exact .inr (.inl ⟨hstaged.free, .inr ⟨id, hstaged.stands⟩⟩)
  · by_cases hdone : p = .finished (.ok ()) ∧ l = target
    · obtain ⟨rfl, rfl⟩ := hdone
      obtain ⟨id, hpublished⟩ := h
      exact .inr (.inr ⟨rfl, hpublished.free, id, hpublished.stands⟩)
    · rcases h.others hl fun hp heq => hdone ⟨hp, heq⟩ with hsame | ⟨-, hfree, hnew⟩
      · exact .inl hsame
      · exact .inr (.inl ⟨hfree, .inl hnew⟩)

/-- No directory goes. -/
theorem Effect.isDirectory (h : p.Effect dir target content d₀ d)
    (hl : d₀.stands l = some .directory) : d.stands l = some .directory := by
  rcases h.cases_at l with hsame | ⟨hfree, -⟩ | ⟨-, hnot, -⟩
  · rw [hsame]
    exact hl
  · rw [hl] at hfree
    cases hfree
  · exact absurd hl hnot

/-- No link comes. -/
theorem Effect.straight (h : p.Effect dir target content d₀ d) (hl : d₀.Straight l) :
    d.Straight l := by
  intro pre link hpre
  rcases h.cases_at pre with hsame | ⟨-, hnew | ⟨id, hnew⟩⟩ | ⟨-, -, id, hnew⟩
  · rw [hsame]
    exact hl pre link hpre
  all_goals
    rw [hnew]
    nofun

/-- A finished publication changes nothing any more. -/
theorem eq_of_step_finished {r : Except IoFault Unit}
    (hstep : Step dir target content (d, .finished r) y) : y = (d, .finished r) := by
  cases hstep <;> rfl

/-- So many steps are ahead at most. -/
def ahead : Publication → Nat
  | .making => 5
  | .staging => 4
  | .writing _ _ => 3
  | .moving _ _ => 2
  | .discarding _ _ => 1
  | .finished _ => 0

theorem ahead_advance (dir target : List Name) (content : Bytes) (d : Disk) (p : Publication) :
    (p.advance dir target content d).2.ahead ≤ p.ahead - 1 := by
  cases p with
  | making =>
      unfold advance
      rcases d.makeDirectories dir with ⟨d', fault | _⟩
      · exact Nat.zero_le _
      · exact Nat.le_refl 4
  | staging =>
      unfold advance
      cases d.stagingSpot dir with
      | error fault => exact Nat.zero_le _
      | ok place => exact Nat.le_refl 3
  | writing place id => exact Nat.le_refl 2
  | moving place id =>
      unfold advance
      dsimp only
      rcases d.moveOver place id target with ⟨d', fault | _⟩
      · exact Nat.le_refl 1
      · exact Nat.zero_le _
  | discarding place fault => exact Nat.le_refl 0
  | finished r => exact Nat.le_refl 0

theorem ahead_after (dir target : List Name) (content : Bytes) (d : Disk) (n : Nat) :
    (after dir target content d n).2.ahead ≤ 5 - n := by
  induction n with
  | zero => exact Nat.le_refl 5
  | succ n ih =>
      have hstep := ahead_advance dir target content (after dir target content d n).1
        (after dir target content d n).2
      have hafter : after dir target content d (n + 1) =
          (after dir target content d n).2.advance dir target content
            (after dir target content d n).1 := rfl
      rw [hafter]
      omega

theorem after_five (dir target : List Name) (content : Bytes) (d : Disk) :
    after dir target content d 5 =
      ((d.publish dir target content).1, .finished (d.publish dir target content).2) := by
  have hahead := ahead_after dir target content d 5
  unfold publish
  revert hahead
  rcases after dir target content d 5 with ⟨d', p⟩
  intro hahead
  cases p with
  | finished r => rfl
  | making | staging | writing | moving | discarding => cases hahead

end Publication

end Effect
end OnDemandFs.Disk
