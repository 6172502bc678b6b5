import OnDemandFs.Disk.Change
import OnDemandFs.Proofs.Disk.Trees
import Mathlib.Data.List.Perm.Subperm

/-!
# What a publication leaves behind

Publishing into a plain tree either fails, and then no more than directories were made on the way to
the target, or it puts one new file at the target. Nothing else of the tree is changed, nothing at
all outside, and no file that was there before has another body. The staged file has a name of its
own for as long as it exists, since of as many names as there are objects and one more one is free.
-/
namespace OnDemandFs.Disk

variable {d d' d'' : Disk} {top l dir : Location} {n : Name} {content : Bytes} {body : Body}

/-! ### Staging names -/

/-- Staging names start with four dots. -/
def IsStaging (n : Name) : Prop := [46, 46, 46, 46] <+: n

instance (n : Name) : Decidable (IsStaging n) := inferInstanceAs (Decidable (_ <+: _))

theorem isStaging_stagingName (k : Nat) : IsStaging (stagingName k) := List.prefix_append _ _

theorem stagingName_injective : Function.Injective stagingName := by
  intro m n h
  have hdigits : (Nat.toDigits 10 m).map (fun c => c.toUInt8) =
      (Nat.toDigits 10 n).map fun c => c.toUInt8 := List.append_cancel_left h
  have hback (k : Nat) : ((Nat.toDigits 10 k).map fun c => c.toUInt8).map
      (fun b => Char.ofNat b.toNat) = Nat.toDigits 10 k := by
    rw [List.map_map]
    refine (List.map_congr_left fun c hc => ?_).trans (List.map_id _)
    have hdigit : c.isDigit = true := Nat.isDigit_of_mem_toDigits (by decide) (by decide) hc
    have hrange : c.toNat ≤ 57 := by
      simp only [Char.isDigit, Bool.and_eq_true, decide_eq_true_eq] at hdigit
      exact hdigit.2
    have hbyte : c.toUInt8.toNat = c.toNat := by
      rw [Char.toUInt8, UInt32.toNat_toUInt8]
      exact Nat.mod_eq_of_lt (by change c.toNat < 256; omega)
    change Char.ofNat c.toUInt8.toNat = c
    rw [hbyte, Char.ofNat_toNat]
  have hsame : Nat.toDigits 10 m = Nat.toDigits 10 n := by
    rw [← hback m, hdigits, hback n]
  rw [← Nat.ofDigitChars_ten_toDigits (n := m), hsame, Nat.ofDigitChars_ten_toDigits]

theorem freshFrom_cases (d : Disk) (dir : Location) (tries n : Nat) :
    (∃ k, d.freshFrom dir tries n = stagingName k ∧ d.at? (dir ++ [stagingName k]) = none) ∨
      ∀ i < tries, d.at? (dir ++ [stagingName (n + i)]) ≠ none := by
  induction tries generalizing n with
  | zero => exact .inr fun i hi => absurd hi (Nat.not_lt_zero i)
  | succ tries ih =>
      unfold freshFrom
      cases hat : d.at? (dir ++ [stagingName n]) with
      | none => exact .inl ⟨n, rfl, hat⟩
      | some o =>
          rcases ih (n + 1) with hfree | htaken
          · exact .inl hfree
          · refine .inr fun i hi => ?_
            cases i with
            | zero => rw [Nat.add_zero, hat]; nofun
            | succ i =>
                have := htaken i (by omega)
                rwa [Nat.add_right_comm, Nat.add_assoc] at this

theorem mem_keys_of_at? (h : d.at? l ≠ none) : l ∈ d.objects.keys := by
  unfold at? at h
  generalize d.objects = objects at h
  induction objects with
  | nil => exact absurd rfl h
  | cons row rest ih =>
      by_cases hrow : row.1 = l
      · exact List.mem_map.mpr ⟨row, List.mem_cons_self, hrow⟩
      · simp only [Table.get?, hrow, if_false] at h
        exact List.mem_cons_of_mem _ (ih h)

/-- The name of a staged file is free in its directory. -/
theorem freshStaging_free (d : Disk) (dir : Location) :
    ∃ k, d.freshStaging dir = stagingName k ∧ d.at? (dir ++ [stagingName k]) = none := by
  rcases d.freshFrom_cases dir (d.objects.length + 1) d.nextFile with hfree | htaken
  · exact hfree
  · exfalso
    -- more names would be taken than there are objects
    let names := (List.range (d.objects.length + 1)).map fun i =>
      dir ++ [stagingName (d.nextFile + i)]
    have hnodup : names.Nodup := by
      refine List.Nodup.map (fun i j hij => ?_) List.nodup_range
      obtain ⟨-, hname⟩ := List.append_inj' hij rfl
      have := stagingName_injective (List.head_eq_of_cons_eq hname)
      omega
    have hsubset : names ⊆ d.objects.keys := by
      intro q hq
      obtain ⟨i, hi, rfl⟩ := List.mem_map.mp hq
      exact mem_keys_of_at? (htaken i (List.mem_range.mp hi))
    have hlength := (List.subperm_of_subset hnodup hsubset).length_le
    simp only [names, List.length_map, List.length_range, Table.keys] at hlength
    omega

/-! ### Directories -/

/-- Nothing but directories were added in the tree, on the way to a place, and no old body is
another. -/
structure Grows (top dir : Location) (d d' : Disk) : Prop where
  tree : d'.IsTree top
  stands : ∀ l, d'.stands l = d.stands l ∨
    (top <+: l ∧ l <+: dir ∧ d.stands l = none ∧ d'.stands l = some .directory)
  nextFile : d.nextFile ≤ d'.nextFile
  bodies : ∀ id < d.nextFile, d'.body? id = d.body? id
  outside : ∀ l, ¬ top <+: l → d'.at? l = d.at? l

theorem Grows.refl (h : d.IsTree top) (dir : Location) : Grows top dir d d :=
  ⟨h, fun _ => .inl rfl, Nat.le_refl _, fun _ _ => rfl, fun _ _ => rfl⟩

theorem Grows.mono (h : Grows top l d d') (hl : l <+: dir) : Grows top dir d d' := by
  refine ⟨h.tree, fun q => ?_, h.nextFile, h.bodies, h.outside⟩
  rcases h.stands q with hsame | ⟨hq, hway, hnew⟩
  · exact .inl hsame
  · exact .inr ⟨hq, hway.trans hl, hnew⟩

theorem Grows.trans (h : Grows top dir d d') (h' : Grows top dir d' d'') :
    Grows top dir d d'' := by
  refine ⟨h'.tree, fun l => ?_, Nat.le_trans h.nextFile h'.nextFile, fun id hid => ?_,
    fun l hl => (h'.outside l hl).trans (h.outside l hl)⟩
  · rcases h'.stands l with hsame | ⟨hl, hway, hnone, hdir⟩
    · rw [hsame]
      exact h.stands l
    · refine .inr ⟨hl, hway, ?_, hdir⟩
      rcases h.stands l with hsame | ⟨-, -, hwas, -⟩
      · rw [← hsame]
        exact hnone
      · exact hwas
  · rw [h'.bodies id (Nat.lt_of_lt_of_le hid h.nextFile), h.bodies id hid]

theorem Grows.file_iff (h : Grows top dir d d') {id : FileId} :
    d'.stands l = some (.file id) ↔ d.stands l = some (.file id) := by
  rcases h.stands l with hsame | ⟨-, -, hnone, hnew⟩
  · rw [hsame]
  · simp [hnone, hnew]

/-- What is not in the tree is neither a place in a directory of it nor that directory. -/
theorem ne_of_not_prefix (hl : top <+: l) {q : Location} (hq : ¬ top <+: q) :
    q ≠ l ++ [n] ∧ q ≠ (l ++ [n]).dropLast := by
  rw [List.dropLast_concat]
  constructor
  · intro heq
    exact hq (heq ▸ hl.trans (List.prefix_append l [n]))
  · intro heq
    exact hq (heq ▸ hl)

/-- One directory is made where nothing stood, or nothing happens. -/
theorem makeDirectory_cases (h : d.IsTree top) (hl : top <+: l)
    (hcarried : ∀ m ∈ l ++ [n], IsCarried m) :
    ((d.makeDirectory (l ++ [n])).2 = .ok () ∧
        Grows top (l ++ [n]) d (d.makeDirectory (l ++ [n])).1 ∧
        (d.makeDirectory (l ++ [n])).1.stands =
          Function.update d.stands (l ++ [n]) (some .directory) ∧
        d.stands l = some .directory ∧ d.stands (l ++ [n]) = none ∧ Fits (l ++ [n])) ∨
      ∃ fault, d.makeDirectory (l ++ [n]) = (d, .error fault) := by
  have hprefix : top <+: l ++ [n] := hl.trans (List.prefix_append l [n])
  unfold makeDirectory
  rcases h.spot_cases hl hcarried false with ⟨hspot, hfits, hdir⟩ | ⟨fault, hspot, -⟩
  · rw [hspot]
    dsimp only
    cases hat : d.at? (l ++ [n]) with
    | some o => exact .inr ⟨_, rfl⟩
    | none =>
        have hfree : d.stands (l ++ [n]) = none := stands_eq_none_iff.mpr hat
        have hstands : (d.tick.2.put (l ++ [n]) (.directory d.tick.1)).stands =
            Function.update d.stands (l ++ [n]) (some .directory) := by
          rw [stands_put, stands_tick]
          rfl
        have hbodies : SameBodies d (d.tick.2.put (l ++ [n]) (.directory d.tick.1)) :=
          (sameBodies_tick d).trans (sameBodies_put _ _ _)
        simp only [Option.isSome_none, Bool.false_eq_true, if_false]
        refine .inl ⟨trivial, ⟨?_, ?_, ?_, ?_, ?_⟩, hstands, hdir, hfree, hfits⟩
        · refine h.update hl hstands hdir (by rw [hfree]; nofun) (.inl rfl) ?_ fun id hid => ?_
          · exact Nat.le_of_eq hbodies.nextFile.symm
          · rw [hbodies.body?]
            exact hid
        · intro q
          rw [hstands, Function.update_apply]
          split
          · next heq => exact .inr ⟨heq ▸ hprefix, heq ▸ List.prefix_refl _, heq ▸ hfree, rfl⟩
          · exact .inl rfl
        · exact Nat.le_of_eq hbodies.nextFile.symm
        · exact fun id _ => hbodies.body? id
        · intro q hq
          obtain ⟨hne, hne'⟩ := ne_of_not_prefix (n := n) hl hq
          exact at?_put_of_ne hne hne'
  · rw [hspot]
    exact .inr ⟨fault, rfl⟩

/-- Making a directory that is there succeeds and does nothing. -/
theorem makeDirectories_of_directory (hcarried : ∀ m ∈ l, IsCarried m) (hfits : Fits l)
    (hway : d.WayDown [] l) (hdir : d.stands l = some .directory) :
    d.makeDirectories l = (d, .ok ()) := by
  have hspot (fl : Bool) : d.spot fl l = .ok l :=
    spot_of_wayDown hcarried hfits hway (by rw [hdir]; nofun) fl
  rcases l.eq_nil_or_concat with rfl | ⟨up, n, rfl⟩
  · rfl
  · rw [List.concat_eq_append] at hdir hspot ⊢
    obtain ⟨o, hat, ho⟩ := stands_eq_some_iff.mp hdir
    have hisDirectory : d.isDirectory (up ++ [n]) = true := by
      cases o with
      | directory t => simp only [isDirectory, find_of_spot (hspot true) hat]
      | file | link | pipe => cases ho
    have hmake : d.makeDirectory (up ++ [n]) = (d, systemFault Errno.alreadyExists) := by
      simp only [makeDirectory, hspot false, hat, Option.isSome_some, if_true]
    rw [makeDirectories, List.reverse_append, List.reverse_singleton, List.singleton_append,
      makeDirectoriesUp, List.reverse_cons, List.reverse_reverse, hmake]
    simp only [systemFault, Errno.alreadyExists, hisDirectory, if_true]

/-- A directory that could not be made may be there already. -/
def settled (path : List Name) : Outcome Unit → Outcome Unit
  | (d, .error fault) => if d.isDirectory path then (d, .ok ()) else (d, .error fault)
  | (d, .ok ()) => (d, .ok ())

theorem makeDirectoriesUp_cons (d : Disk) (n : Name) (up : List Name) :
    d.makeDirectoriesUp (n :: up) =
      match d.makeDirectory (up.reverse ++ [n]) with
      | (d, .error (.system 2)) =>
        match d.makeDirectoriesUp up with
        | (d, .ok ()) => settled (up.reverse ++ [n]) (d.makeDirectory (up.reverse ++ [n]))
        | (d, .error fault) => (d, .error fault)
      | r => settled (up.reverse ++ [n]) r := by
  rw [makeDirectoriesUp, List.reverse_cons]
  rfl

/-- Directories were made towards the place, which is one itself if that succeeded. -/
structure Makes (top : Location) (d : Disk) (l : Location) (r : Outcome Unit) : Prop where
  grows : Grows top l d r.1
  made : r.2 = .ok () → r.1.stands l = some .directory ∧ Fits l

theorem Makes.settled {r : Outcome Unit} (hl : top <+: l) (hcarried : ∀ m ∈ l, IsCarried m)
    (h : Makes top d l r) : Makes top d l (settled l r) := by
  obtain ⟨d', result⟩ := r
  cases result with
  | ok => exact h
  | error fault =>
      have htree : d'.IsTree top := h.grows.tree
      unfold Disk.settled
      dsimp only
      split
      · next hdirectory =>
          refine ⟨h.grows, fun _ => ?_⟩
          unfold isDirectory at hdirectory
          split at hdirectory
          · next q t hfind =>
              obtain ⟨-, hat, hfits⟩ := htree.find_place hl hcarried hfind
              exact ⟨stands_of_at? hat, hfits⟩
          · cases hdirectory
      · exact ⟨h.grows, nofun⟩

theorem makes_makeDirectory (h : d.IsTree top) (hl : top <+: l)
    (hcarried : ∀ m ∈ l ++ [n], IsCarried m) :
    Makes top d (l ++ [n]) (d.makeDirectory (l ++ [n])) := by
  rcases makeDirectory_cases h hl hcarried with ⟨-, hgrows, hstands, -, -, hfits⟩ | ⟨fault, hsame⟩
  · refine ⟨hgrows, fun _ => ?_⟩
    rw [hstands, Function.update_self]
    exact ⟨rfl, hfits⟩
  · rw [hsame]
    exact ⟨.refl h _, nofun⟩

theorem makes_makeDirectoriesUp (h : d.IsTree top) {up : List Name} (hl : top <+: up.reverse)
    (hcarried : ∀ m ∈ up.reverse, IsCarried m) :
    Makes top d up.reverse (d.makeDirectoriesUp up) := by
  induction up generalizing d with
  | nil =>
      obtain rfl : top = [] := List.prefix_nil.mp hl
      exact ⟨.refl h _, fun _ => ⟨h.isDirectory, h.fits⟩⟩
  | cons n up ih =>
      rw [List.reverse_cons] at hl hcarried ⊢
      rcases List.prefix_concat_iff.mp hl with htop | hup
      · -- the walk up has come to the top, which is there
        have hthere := makeDirectories_of_directory h.carried h.fits h.way h.isDirectory
        rw [makeDirectories] at hthere
        have hreverse : top.reverse = n :: up := by simp [htop]
        rw [← htop, ← hreverse, hthere]
        exact ⟨.refl h _, fun _ => ⟨h.isDirectory, h.fits⟩⟩
      · have hcarriedUp : ∀ m ∈ up.reverse, IsCarried m :=
          fun m hm => hcarried m (List.mem_append_left _ hm)
        have hlonger : up.reverse <+: up.reverse ++ [n] := List.prefix_append _ _
        have hmakes := makes_makeDirectory h hup hcarried
        rw [makeDirectoriesUp_cons]
        revert hmakes
        split
        · next d' heq =>
            rw [heq]
            intro hmakes
            have hrec := ih hmakes.grows.tree hup hcarriedUp
            revert hrec
            rcases d'.makeDirectoriesUp up with ⟨d'', fault | _⟩
            · exact fun hrec => ⟨hmakes.grows.trans (hrec.grows.mono hlonger), nofun⟩
            · intro hrec
              have hagain := makes_makeDirectory hrec.grows.tree hup hcarried
              refine Makes.settled hl hcarried ⟨?_, hagain.made⟩
              exact (hmakes.grows.trans (hrec.grows.mono hlonger)).trans hagain.grows
        · exact fun hmakes => hmakes.settled hl hcarried

theorem makes_makeDirectories (h : d.IsTree top) (hl : top <+: l)
    (hcarried : ∀ m ∈ l, IsCarried m) : Makes top d l (d.makeDirectories l) := by
  have hreverse : l.reverse.reverse = l := List.reverse_reverse l
  rw [← hreverse] at hl hcarried
  have hmakes := makes_makeDirectoriesUp h hl hcarried
  rwa [hreverse] at hmakes

/-- In a directory that is there, a directory is made under a free name. -/
theorem makeDirectories_free (h : d.IsTree top) (hl : top <+: l)
    (hcarried : ∀ m ∈ l ++ [n], IsCarried m) (hfits : Fits (l ++ [n]))
    (hdir : d.stands l = some .directory) (hfree : d.stands (l ++ [n]) = none) :
    ∃ d', d.makeDirectories (l ++ [n]) = (d', .ok ()) ∧ Grows top (l ++ [n]) d d' ∧
      d'.stands = Function.update d.stands (l ++ [n]) (some .directory) := by
  have hmake : (d.makeDirectory (l ++ [n])).2 = .ok () := by
    simp only [makeDirectory, h.spot_concat hl hcarried hfits hdir false,
      stands_eq_none_iff.mp hfree, Option.isSome_none, Bool.false_eq_true, if_false]
  rcases makeDirectory_cases h hl hcarried with ⟨-, hgrows, hstands, -⟩ | ⟨fault, hsame⟩
  · refine ⟨(d.makeDirectory (l ++ [n])).1, ?_, hgrows, hstands⟩
    rw [makeDirectories, List.reverse_append, List.reverse_singleton, List.singleton_append,
      makeDirectoriesUp_cons, List.reverse_reverse]
    revert hmake
    rcases d.makeDirectory (l ++ [n]) with ⟨d', result⟩
    rintro rfl
    rfl
  · rw [hsame] at hmake
    cases hmake

/-- Where a file stands no directory is made. -/
theorem makeDirectories_file (h : d.IsTree top) (hl : top <+: l)
    (hcarried : ∀ m ∈ l ++ [n], IsCarried m) {id : FileId}
    (hfile : d.stands (l ++ [n]) = some (.file id)) :
    ∃ fault, (d.makeDirectories (l ++ [n])).2 = .error fault := by
  have hprefix : top <+: l ++ [n] := hl.trans (List.prefix_append l [n])
  have hmakes := makes_makeDirectories h hprefix hcarried
  cases hresult : (d.makeDirectories (l ++ [n])).2 with
  | error fault => exact ⟨fault, rfl⟩
  | ok =>
      have hmade := (hmakes.made hresult).1
      rcases hmakes.grows.stands (l ++ [n]) with hsame | ⟨-, -, hnone, -⟩
      · rw [hsame, hfile] at hmade
        cases hmade
      · rw [hfile] at hnone
        cases hnone

/-! ### Publications -/

/-- The disk with a file staged in a directory. -/
def stage (d : Disk) (dir : Location) (content : Bytes) : Disk :=
  (d.create (dir ++ [d.freshStaging dir]) []).2.overwrite d.nextFile content

/-- The time of a file that is staged in a directory. -/
def stageTime (d : Disk) (dir : Location) : Timestamp :=
  (d.create (dir ++ [d.freshStaging dir]) []).2.clock

/-- The steps of a publication, one after the other. -/
theorem publish_eq (d : Disk) (dir target : List Name) (content : Bytes) :
    d.publish dir target content =
      match d.makeDirectories dir with
      | (d, .error fault) => (d, .error fault)
      | (d, .ok ()) =>
        match d.stagingSpot dir with
        | .error fault => (d, .error fault)
        | .ok place =>
          match (d.stage place content).moveOver (place ++ [d.freshStaging place]) d.nextFile
            target with
          | (e, .ok ()) => (e, .ok ())
          | (e, .error fault) => (e.unlink (place ++ [d.freshStaging place]), .error fault) := by
  unfold publish
  simp only [Publication.after, Publication.advance]
  rcases d.makeDirectories dir with ⟨d, fault | _⟩
  · rfl
  · dsimp only
    cases d.stagingSpot dir with
    | error fault => rfl
    | ok place =>
        have hid : (d.create (place ++ [d.freshStaging place]) []).1 = d.nextFile := rfl
        simp only [hid, stage]
        rcases ((d.create (place ++ [d.freshStaging place]) []).2.overwrite d.nextFile
          content).moveOver (place ++ [d.freshStaging place]) d.nextFile target with
          ⟨d', fault | _⟩ <;> rfl

/-- A new file stands at the place, and nothing else changed. -/
structure Puts (d : Disk) (l : Location) (body : Body) (d' : Disk) : Prop where
  stands : d'.stands = Function.update d.stands l (some (.file d.nextFile))
  nextFile : d'.nextFile = d.nextFile + 1
  body : d'.body? d.nextFile = some body
  bodies : ∀ id < d.nextFile, d'.body? id = d.body? id
  isSome : ∀ id, (d.body? id).isSome = true → (d'.body? id).isSome = true
  others : ∀ q, q ≠ l → q ≠ l.dropLast → d'.at? q = d.at? q

/-- Everything stands as it did; there may be bodies of new files, without a name. -/
structure Restores (dir : Location) (d d' : Disk) : Prop where
  stands : d'.stands = d.stands
  nextFile : d.nextFile ≤ d'.nextFile
  bodies : ∀ id < d.nextFile, d'.body? id = d.body? id
  isSome : ∀ id, (d.body? id).isSome = true → (d'.body? id).isSome = true
  others : ∀ q, q ≠ dir → d'.at? q = d.at? q

theorem Restores.refl (dir : Location) (d : Disk) : Restores dir d d :=
  ⟨rfl, Nat.le_refl _, fun _ _ => rfl, fun _ => id, fun _ _ => rfl⟩

theorem Puts.self (h : Puts d l body d') : d'.stands l = some (.file d.nextFile) := by
  rw [h.stands, Function.update_self]

theorem Puts.of_ne (h : Puts d l body d') {q : Location} (hq : q ≠ l) :
    d'.stands q = d.stands q := by
  rw [h.stands, Function.update_of_ne hq]

theorem Puts.tree (hputs : Puts d (l ++ [n]) body d') (h : d.IsTree top) (hl : top <+: l)
    (hdir : d.stands l = some .directory) (hfree : d.stands (l ++ [n]) ≠ some .directory) :
    d'.IsTree top := by
  refine h.update hl hputs.stands hdir hfree (.inr ⟨_, rfl, ?_, ?_⟩) ?_ hputs.isSome
  · rw [hputs.nextFile]
    exact Nat.lt_succ_self _
  · rw [hputs.body]
    rfl
  · rw [hputs.nextFile]
    exact Nat.le_succ _

theorem Puts.setFileTime {t t' : Timestamp} (h : Puts d l ⟨content, t⟩ d') :
    Puts d l ⟨content, t'⟩ (d'.setFileTime d.nextFile t') := by
  refine ⟨?_, ?_, ?_, fun id hid => ?_, fun id hid => ?_, fun q hq hq' => ?_⟩
  · rw [stands_setFileTime, h.stands]
  · rw [nextFile_setFileTime, h.nextFile]
  · rw [body?_setFileTime, if_pos rfl, h.body]
    rfl
  · rw [body?_setFileTime, if_neg (Nat.ne_of_lt hid), h.bodies id hid]
  · rw [body?_setFileTime]
    split
    · rw [h.body]
      rfl
    · exact h.isSome id hid
  · rw [at?_setFileTime, h.others q hq hq']

theorem Restores.tree (hrestores : Restores dir d d') (h : d.IsTree top) : d'.IsTree top :=
  h.congr hrestores.stands hrestores.nextFile hrestores.isSome

theorem Restores.grows (hrestores : Restores dir d d') (h : d.IsTree top) (hdir : top <+: dir) :
    Grows top dir d d' :=
  ⟨hrestores.tree h, fun q => .inl (congrFun hrestores.stands q), hrestores.nextFile,
    hrestores.bodies,
    fun q hq => hrestores.others q fun heq => hq (heq ▸ hdir)⟩

theorem puts_stage (d : Disk) (dir : Location) (content : Bytes) :
    Puts d (dir ++ [d.freshStaging dir]) ⟨content, d.stageTime dir⟩ (d.stage dir content) := by
  refine ⟨stands_create d _ [], nextFile_create d _ [], ?_, fun id hid => ?_,
    fun id hid => ?_, fun q hq hq' => at?_create_of_ne hq hq'⟩
  · rw [stage, body?_overwrite, if_pos rfl]
    rfl
  · rw [stage, body?_overwrite, if_neg (Nat.ne_of_lt hid), body?_create, if_neg (Nat.ne_of_lt hid)]
  · rw [stage, body?_overwrite, body?_create]
    split
    · rfl
    · exact hid

theorem stands_freshStaging (d : Disk) (dir : Location) :
    d.stands (dir ++ [d.freshStaging dir]) = none := by
  obtain ⟨k, hname, hfree⟩ := d.freshStaging_free dir
  rw [hname]
  exact stands_eq_none_iff.mpr hfree

/-- The staged file is taken away again. -/
theorem stands_unlink_stage (d : Disk) (dir : Location) (content : Bytes) :
    ((d.stage dir content).unlink (dir ++ [d.freshStaging dir])).stands = d.stands := by
  rw [stands_unlink, (puts_stage d dir content).stands, Function.update_idem]
  funext q
  rw [Function.update_apply]
  split
  · next heq => rw [heq, stands_freshStaging]
  · rfl

theorem at?_unlink_stage (d : Disk) {dir q : Location} (content : Bytes) (hq : q ≠ dir) :
    ((d.stage dir content).unlink (dir ++ [d.freshStaging dir])).at? q = d.at? q := by
  by_cases hself : q = dir ++ [d.freshStaging dir]
  · have hnone (e : Disk) (he : e.stands = d.stands) : e.at? q = none := by
      rw [← stands_eq_none_iff, he, hself, stands_freshStaging]
    rw [hnone _ (stands_unlink_stage d dir content), hnone d rfl]
  · have hq' : q ≠ (dir ++ [d.freshStaging dir]).dropLast := by rwa [List.dropLast_concat]
    rw [at?_unlink_of_ne hself hq', (puts_stage d dir content).others q hself hq']

theorem restores_stage (d : Disk) (dir : Location) (content : Bytes) :
    Restores dir d ((d.stage dir content).unlink (dir ++ [d.freshStaging dir])) := by
  have hputs := puts_stage d dir content
  have hunlink := sameBodies_unlink (d.stage dir content) (dir ++ [d.freshStaging dir])
  refine ⟨stands_unlink_stage d dir content, ?_, fun id hid => ?_, fun id hid => ?_,
    fun q hq => at?_unlink_stage d content hq⟩
  · rw [hunlink.nextFile, hputs.nextFile]
    exact Nat.le_succ _
  · rw [hunlink.body?, hputs.bodies id hid]
  · rw [hunlink.body?]
    exact hputs.isSome id hid

/-- The staged file is moved to another name in its directory. -/
theorem puts_move (d : Disk) (dir : Location) (n : Name) (content : Bytes) :
    Puts d (dir ++ [n]) ⟨content, d.stageTime dir⟩ (((d.stage dir content).unlink
      (dir ++ [d.freshStaging dir])).put (dir ++ [n]) (.file d.nextFile)) := by
  have hputs := puts_stage d dir content
  have hsame : SameBodies (d.stage dir content) (((d.stage dir content).unlink
      (dir ++ [d.freshStaging dir])).put (dir ++ [n]) (.file d.nextFile)) :=
    (sameBodies_unlink _ _).trans (sameBodies_put _ _ _)
  refine ⟨?_, ?_, ?_, fun id hid => ?_, fun id hid => ?_, fun q hq hq' => ?_⟩
  · rw [stands_put, stands_unlink_stage]
    rfl
  · rw [hsame.nextFile, hputs.nextFile]
  · rw [hsame.body?, hputs.body]
  · rw [hsame.body?, hputs.bodies id hid]
  · rw [hsame.body?]
    exact hputs.isSome id hid
  · rw [at?_put_of_ne hq hq']
    rw [List.dropLast_concat] at hq'
    exact at?_unlink_stage d content hq'

/-- A move goes to the place that its target leads to, unless a directory stands there. -/
theorem moveOver_cases (d : Disk) (source : Location) (id : FileId) (target : List Name) :
    (∃ place, d.spot false target = .ok place ∧ d.stands place ≠ some .directory ∧
        d.moveOver source id target = ((d.unlink source).put place (.file id), .ok ())) ∨
      ((∃ fault, d.moveOver source id target = (d, .error fault)) ∧
        ∀ place, d.spot false target = .ok place → target.getLast? ≠ some above →
          d.stands place = some .directory) := by
  unfold moveOver
  cases hspot : d.spot false target with
  | error fault =>
      refine .inr ⟨?_, nofun⟩
      cases fault with
      | nulInName => exact ⟨_, rfl⟩
      | system | notUtf8 | other => exact ⟨_, rfl⟩
  | ok place =>
      by_cases hlast : target.getLast? = some above
      · simp only [hlast, if_true]
        exact .inr ⟨⟨_, rfl⟩, fun _ _ hne => absurd rfl hne⟩
      · cases hdirectory : d.isDirectoryAt place with
        | true =>
            simp only [hlast, hdirectory, if_false, if_true]
            refine .inr ⟨⟨_, rfl⟩, fun q hq _ => ?_⟩
            cases hq
            exact isDirectoryAt_iff.mp hdirectory
        | false =>
            simp only [hlast, hdirectory, if_false, Bool.false_eq_true]
            refine .inl ⟨place, rfl, fun hdir => ?_, rfl⟩
            rw [isDirectoryAt_iff.mpr hdir] at hdirectory
            cases hdirectory

/-- Where a directory stands in the way of the staged file, everything is left as it was. -/
theorem publish_stuck {d₁ : Disk} {path target : List Name} {fault : IoFault}
    (hmade : d.makeDirectories path = (d₁, .ok ())) (hspot : d₁.stagingSpot path = .ok dir)
    (hmove : (d₁.stage dir content).moveOver (dir ++ [d₁.freshStaging dir]) d₁.nextFile target =
      (d₁.stage dir content, .error fault)) :
    (d.publish path target content).2 = .error fault ∧
      Restores dir d₁ (d.publish path target content).1 := by
  rw [publish_eq, hmade]
  dsimp only
  rw [hspot]
  dsimp only
  rw [hmove]
  exact ⟨rfl, restores_stage d₁ dir content⟩

/-- Without room for the staged file, everything is left as it was. -/
theorem publish_of_not_hasRoom {d₁ : Disk} {path target : List Name}
    (hmade : d.makeDirectories path = (d₁, .ok ())) (hroom : ¬ HasRoom path) :
    (∃ fault, (d.publish path target content).2 = .error fault) ∧
      Restores dir d₁ (d.publish path target content).1 := by
  rw [publish_eq, hmade]
  dsimp only
  cases hspot : d₁.stagingSpot path with
  | error fault => exact ⟨⟨fault, rfl⟩, .refl dir d₁⟩
  | ok place => exact absurd (stagingSpot_eq_ok_iff.mp hspot).2 hroom

/-- No file is put where a directory is. -/
theorem publish_directory (hcarried : ∀ m ∈ l, IsCarried m) (hfits : Fits l)
    (hway : d.WayDown [] l) (hdir : d.stands l = some .directory) (content : Bytes) :
    (∃ fault, (d.publish l.dropLast l content).2 = .error fault) ∧
      Restores l.dropLast d (d.publish l.dropLast l content).1 := by
  have hprefix : l.dropLast <+: l := List.dropLast_prefix l
  have hup : d.stands l.dropLast = some .directory := by
    rcases l.eq_nil_or_concat with rfl | ⟨up, n, rfl⟩
    · exact hdir
    · rw [List.concat_eq_append] at hway ⊢
      rw [List.dropLast_concat]
      exact (wayDown_concat.mp hway).2
  have hcarriedUp : ∀ m ∈ l.dropLast, IsCarried m := fun m hm =>
    hcarried m (List.IsPrefix.subset hprefix hm)
  have hfitsUp : Fits l.dropLast := by
    obtain ⟨rest, hrest⟩ := hprefix
    rw [← hrest] at hfits
    exact hfits.of_append
  have hmade := makeDirectories_of_directory hcarriedUp hfitsUp (hway.of_prefix hprefix) hup
  by_cases hroom : HasRoom l.dropLast
  case neg => exact publish_of_not_hasRoom hmade hroom
  have hspot : d.stagingSpot l.dropLast = .ok l.dropLast :=
    stagingSpot_eq_ok_iff.mpr ⟨spot_of_wayDown hcarriedUp hfitsUp (hway.of_prefix hprefix)
      (by rw [hup]; nofun) true, hroom⟩
  -- the directories on the way are not where the file is staged
  have hkeep {q : Location} (hq : d.stands q = some .directory) :
      (d.stage l.dropLast content).stands q = some .directory := by
    rw [(puts_stage d l.dropLast content).of_ne, hq]
    rintro rfl
    rw [stands_freshStaging] at hq
    cases hq
  have htarget : (d.stage l.dropLast content).spot false l = .ok l :=
    spot_of_wayDown hcarried hfits (fun pre n hpre => hkeep (hway pre n hpre))
      (by rw [hkeep hdir]; nofun) false
  rcases (d.stage l.dropLast content).moveOver_cases (l.dropLast ++ [d.freshStaging l.dropLast])
    d.nextFile l with ⟨place, hplace, hnot, -⟩ | ⟨⟨fault, hmove⟩, -⟩
  · rw [htarget] at hplace
    cases hplace
    exact absurd (hkeep hdir) hnot
  · obtain ⟨hresult, hrestores⟩ := publish_stuck hmade hspot hmove
    exact ⟨⟨fault, hresult⟩, hrestores⟩

/-- With its directory there, a file is put at its target, unless a directory stands there or a path
is too long. -/
theorem publish_of_made {d₁ : Disk} (hmade : d.makeDirectories dir = (d₁, .ok ()))
    (h : d₁.IsTree top) (hl : top <+: dir) (hdir : d₁.stands dir = some .directory)
    (hfitsDir : Fits dir) (hcarried : ∀ m ∈ dir ++ [n], IsCarried m) (hn : ∀ k, n ≠ stagingName k)
    (content : Bytes) :
    (d₁.stands (dir ++ [n]) ≠ some .directory ∧ Fits (dir ++ [n]) ∧ HasRoom dir ∧
        (d.publish dir (dir ++ [n]) content).2 = .ok () ∧
        Puts d₁ (dir ++ [n]) ⟨content, d₁.stageTime dir⟩ (d.publish dir (dir ++ [n]) content).1) ∨
      ((d₁.stands (dir ++ [n]) = some .directory ∨ ¬ Fits (dir ++ [n]) ∨ ¬ HasRoom dir) ∧
        (∃ fault, (d.publish dir (dir ++ [n]) content).2 = .error fault) ∧
        Restores dir d₁ (d.publish dir (dir ++ [n]) content).1) := by
  by_cases hroom : HasRoom dir
  case neg => exact .inr ⟨.inr (.inr hroom), publish_of_not_hasRoom hmade hroom⟩
  have hspot : d₁.stagingSpot dir = .ok dir :=
    stagingSpot_eq_ok_iff.mpr ⟨h.spot_of_stands hl
      (fun m hm => hcarried m (List.mem_append_left _ hm)) hfitsDir (by rw [hdir]; nofun) true,
      hroom⟩
  have hstaged := puts_stage d₁ dir content
  have htree : (d₁.stage dir content).IsTree top :=
    hstaged.tree h hl hdir (by rw [stands_freshStaging]; nofun)
  have hne : dir ++ [n] ≠ dir ++ [d₁.freshStaging dir] := by
    obtain ⟨k, hname, -⟩ := d₁.freshStaging_free dir
    intro heq
    obtain ⟨-, heq⟩ := List.append_inj' heq rfl
    exact hn k ((List.head_eq_of_cons_eq heq).trans hname)
  have htarget : (d₁.stage dir content).stands (dir ++ [n]) = d₁.stands (dir ++ [n]) :=
    hstaged.of_ne hne
  have hdirStaged : (d₁.stage dir content).stands dir = some .directory := by
    rw [hstaged.of_ne (by simp), hdir]
  have hplace := htree.spot_cases hl hcarried false
  rcases (d₁.stage dir content).moveOver_cases (dir ++ [d₁.freshStaging dir]) d₁.nextFile
    (dir ++ [n]) with ⟨place, hspot', hfree, hmove⟩ | ⟨⟨fault, hmove⟩, hwhy⟩
  · rcases hplace with ⟨hok, hfits, -⟩ | ⟨fault, herror, -⟩
    · rw [hok] at hspot'
      cases hspot'
      rw [htarget] at hfree
      refine .inl ⟨hfree, hfits, hroom, ?_⟩
      rw [publish_eq, hmade]
      dsimp only
      rw [hspot]
      dsimp only
      rw [hmove]
      exact ⟨rfl, puts_move d₁ dir n content⟩
    · rw [herror] at hspot'
      cases hspot'
  · obtain ⟨hresult, hrestores⟩ := publish_stuck hmade hspot hmove
    refine .inr ⟨?_, ⟨fault, hresult⟩, hrestores⟩
    rcases hplace with ⟨hok, -, -⟩ | ⟨-, -, hlong | ⟨hnot, -⟩⟩
    · left
      rw [← htarget]
      refine hwhy _ hok ?_
      rw [List.getLast?_concat]
      intro heq
      exact (hcarried n (by simp)).plain.ne_above (Option.some.inj heq)
    · exact .inr (.inl hlong)
    · exact absurd hdirStaged hnot

/-- A publication puts a file at its target, or fails and leaves no more than directories. -/
theorem publish_cases (h : d.IsTree top) (hl : top <+: dir)
    (hcarried : ∀ m ∈ dir ++ [n], IsCarried m) (hn : ∀ k, n ≠ stagingName k) (content : Bytes) :
    ((∃ fault, (d.publish dir (dir ++ [n]) content).2 = .error fault) ∧
        Grows top dir d (d.publish dir (dir ++ [n]) content).1) ∨
      ((d.publish dir (dir ++ [n]) content).2 = .ok () ∧ Fits (dir ++ [n]) ∧ HasRoom dir ∧
        ∃ d₁, Grows top dir d d₁ ∧ d₁.stands dir = some .directory ∧
          d₁.stands (dir ++ [n]) ≠ some .directory ∧
          Puts d₁ (dir ++ [n]) ⟨content, d₁.stageTime dir⟩
            (d.publish dir (dir ++ [n]) content).1) := by
  have hmakes := makes_makeDirectories h hl fun m hm => hcarried m (List.mem_append_left _ hm)
  cases hmade : d.makeDirectories dir with
  | mk d₁ result =>
      rw [hmade] at hmakes
      cases result with
      | error fault =>
          rw [publish_eq, hmade]
          exact .inl ⟨⟨fault, rfl⟩, hmakes.grows⟩
      | ok =>
          obtain ⟨hdir, hfits⟩ := hmakes.made rfl
          have htree : d₁.IsTree top := hmakes.grows.tree
          rcases publish_of_made hmade htree hl hdir hfits hcarried hn content with
            ⟨hfree, hfitsTarget, hroom, hok, hputs⟩ | ⟨-, herror, hrestores⟩
          · exact .inr ⟨hok, hfitsTarget, hroom, d₁, hmakes.grows, hdir, hfree, hputs⟩
          · exact .inl ⟨herror, hmakes.grows.trans (hrestores.grows htree hl)⟩

/-- Still a tree, with new directories on the way to a place at most, and new files only where they
could be staged. -/
structure Extends (top dir : Location) (d d' : Disk) : Prop where
  tree : d'.IsTree top
  directories : ∀ l, d'.stands l = some .directory →
    d.stands l = some .directory ∨ l <+: dir
  files : ∀ l id, d'.stands l = some (.file id) →
    d.stands l = some (.file id) ∨ HasRoom l.dropLast

theorem Extends.refl (h : d.IsTree top) (dir : Location) : Extends top dir d d :=
  ⟨h, fun _ hdir => .inl hdir, fun _ _ hfile => .inl hfile⟩

theorem Extends.mono (h : Extends top l d d') (hl : l <+: dir) : Extends top dir d d' :=
  ⟨h.tree, fun q hq => (h.directories q hq).imp id fun hway => hway.trans hl, h.files⟩

theorem Extends.congr (h : Extends top dir d d') (htree : d''.IsTree top)
    (hstands : d''.stands = d'.stands) : Extends top dir d d'' :=
  ⟨htree, fun q hq => h.directories q (by rwa [← hstands]),
    fun q id hq => h.files q id (by rwa [← hstands])⟩

theorem Grows.extends (h : Grows top dir d d') : Extends top dir d d' := by
  refine ⟨h.tree, fun q hq => ?_, fun q id hq => ?_⟩
  · rcases h.stands q with hsame | ⟨-, hway, -⟩
    · left
      rwa [← hsame]
    · exact .inr hway
  · rcases h.stands q with hsame | ⟨-, -, -, hdir⟩
    · left
      rwa [← hsame]
    · rw [hdir] at hq
      cases hq

theorem extends_publish (h : d.IsTree top) (hl : top <+: dir)
    (hcarried : ∀ m ∈ dir ++ [n], IsCarried m) (hn : ∀ k, n ≠ stagingName k) (content : Bytes) :
    Extends top dir d (d.publish dir (dir ++ [n]) content).1 := by
  rcases publish_cases h hl hcarried hn content with
    ⟨-, hgrows⟩ | ⟨-, -, hroom, d₁, hgrows, hdir, hfree, hputs⟩
  · exact hgrows.extends
  · refine ⟨hputs.tree hgrows.tree hl hdir hfree, fun q hq => ?_, fun q id hq => ?_⟩
    · refine hgrows.extends.directories q ?_
      rw [hputs.stands, Function.update_apply] at hq
      split at hq
      · cases hq
      · exact hq
    · by_cases hself : q = dir ++ [n]
      · rw [hself, List.dropLast_concat]
        exact .inr hroom
      · rw [hputs.of_ne hself] at hq
        exact hgrows.extends.files q id hq

end OnDemandFs.Disk
