import OnDemandFs.Proofs.Disk.Children
import Mathlib.Logic.Function.Basic

/-!
# What stands at a place

A walk does not see the times of directories. What it sees is `Disk.stands`, and in these terms each
change of the disk is an update at one place. Bodies are kept apart: a change of names leaves all of
them, and a new file has a number that no file had before.

A name that a walk can take is `IsCarried`; under such names, and past no link, a walk goes straight
down or stops at the first place that is not a directory.
-/
namespace OnDemandFs

/-- An object without its time. -/
inductive Stand where
  | file (id : FileId)
  | directory
  | link (target : Bytes)
  | pipe
deriving DecidableEq

def Object.stand : Object → Stand
  | file id => .file id
  | directory _ => .directory
  | link target _ => .link target
  | pipe _ => .pipe

namespace Disk
variable {d d' : Disk} {l l' : Location} {o : Object}

def stands (d : Disk) (l : Location) : Option Stand := (d.at? l).map Object.stand

theorem stands_eq_some_iff {x : Stand} :
    d.stands l = some x ↔ ∃ o, d.at? l = some o ∧ o.stand = x := by
  simp [stands]

theorem stands_of_at? (h : d.at? l = some o) : d.stands l = some o.stand := by
  rw [stands, h]
  rfl

theorem stands_eq_none_iff : d.stands l = none ↔ d.at? l = none := by
  simp [stands]

theorem stands_eq_file_iff {id : FileId} :
    d.stands l = some (.file id) ↔ d.at? l = some (.file id) := by
  rw [stands_eq_some_iff]
  constructor
  · intro h
    obtain ⟨o, hat, ho⟩ := h
    cases o with
    | file => cases ho; exact hat
    | directory | link | pipe => cases ho
  · intro h
    exact ⟨_, h, rfl⟩

theorem isDirectoryAt_iff : d.isDirectoryAt l = true ↔ d.stands l = some .directory := by
  unfold isDirectoryAt stands
  cases d.at? l with
  | none => simp
  | some o => cases o <;> simp [Object.stand]

/-! ### Single changes -/

theorem stands_tick : d.tick.2.stands = d.stands := rfl

theorem at?_touch_of_ne (h : l' ≠ l) : (d.touch l).at? l' = d.at? l' := by
  unfold touch
  dsimp only
  split
  · exact Table.get?_set_of_ne _ _ h
  · rfl

theorem stands_touch (d : Disk) (l : Location) : (d.touch l).stands = d.stands := by
  funext l'
  by_cases h : l' = l
  · rw [h]
    unfold touch
    dsimp only
    split
    · next hat =>
        have hnew : ({ d with objects := d.objects.set l (.directory d.clock) } : Disk).at? l =
            some (.directory d.clock) := Table.get?_set_self _ _ _
        have hold : d.stands l = some .directory := stands_of_at? hat
        rw [hold]
        exact stands_of_at? hnew
    · rfl
  · rw [stands, stands, at?_touch_of_ne h]

theorem stands_set (d : Disk) (l : Location) (o : Object) :
    stands { d with objects := d.objects.set l o } = Function.update d.stands l (some o.stand) := by
  funext l'
  unfold stands at?
  rw [Table.get?_set, Function.update_apply]
  split <;> rfl

theorem at?_put_of_ne (h : l' ≠ l) (h' : l' ≠ l.dropLast) : (d.put l o).at? l' = d.at? l' := by
  rw [put, at?_touch_of_ne h']
  exact Table.get?_set_of_ne _ _ h

theorem at?_unlink_of_ne (h : l' ≠ l) (h' : l' ≠ l.dropLast) : (d.unlink l).at? l' = d.at? l' := by
  rw [unlink, at?_touch_of_ne h']
  exact Table.get?_erase_of_ne _ h

theorem at?_create_of_ne {content : Bytes} (h : l' ≠ l) (h' : l' ≠ l.dropLast) :
    (d.create l content).2.at? l' = d.at? l' := by
  unfold create
  exact at?_put_of_ne h h'

theorem stands_put (d : Disk) (l : Location) (o : Object) :
    (d.put l o).stands = Function.update d.stands l (some o.stand) := by
  rw [put, stands_touch, stands_set]

theorem stands_unlink (d : Disk) (l : Location) :
    (d.unlink l).stands = Function.update d.stands l none := by
  rw [unlink, stands_touch]
  funext l'
  unfold stands at?
  rw [Table.get?_erase, Function.update_apply]
  split <;> rfl

theorem stands_create (d : Disk) (l : Location) (content : Bytes) :
    (d.create l content).2.stands = Function.update d.stands l (some (.file d.nextFile)) := by
  unfold create
  exact stands_put _ l (.file d.nextFile)

theorem stands_setFileTime (d : Disk) (id : FileId) (t : Timestamp) :
    (d.setFileTime id t).stands = d.stands := by
  unfold setFileTime
  split <;> rfl

theorem at?_setFileTime (d : Disk) (id : FileId) (t : Timestamp) (l : Location) :
    (d.setFileTime id t).at? l = d.at? l := by
  unfold setFileTime
  split <;> rfl

/-- The bodies and their numbers are as they were. -/
structure SameBodies (d d' : Disk) : Prop where
  bodies : d'.bodies = d.bodies
  nextFile : d'.nextFile = d.nextFile

theorem SameBodies.trans {d'' : Disk} (h : SameBodies d d') (h' : SameBodies d' d'') :
    SameBodies d d'' :=
  ⟨h'.bodies.trans h.bodies, h'.nextFile.trans h.nextFile⟩

theorem SameBodies.body? (h : SameBodies d d') (id : FileId) : d'.body? id = d.body? id := by
  rw [Disk.body?, Disk.body?, h.bodies]

theorem sameBodies_tick (d : Disk) : SameBodies d d.tick.2 := ⟨rfl, rfl⟩

theorem sameBodies_touch (d : Disk) (l : Location) : SameBodies d (d.touch l) := by
  unfold touch
  dsimp only
  split <;> exact ⟨rfl, rfl⟩

theorem sameBodies_put (d : Disk) (l : Location) (o : Object) : SameBodies d (d.put l o) := by
  have hset : SameBodies d { d with objects := d.objects.set l o } := ⟨rfl, rfl⟩
  exact hset.trans (sameBodies_touch _ _)

theorem sameBodies_unlink (d : Disk) (l : Location) : SameBodies d (d.unlink l) := by
  have herase : SameBodies d { d with objects := d.objects.erase l } := ⟨rfl, rfl⟩
  exact herase.trans (sameBodies_touch _ _)

theorem body?_create (d : Disk) (l : Location) (content : Bytes) (id : FileId) :
    (d.create l content).2.body? id =
      if id = d.nextFile then some ⟨content, d.clock⟩ else d.body? id := by
  unfold create
  rw [(sameBodies_put _ l _).body?]
  exact Table.get?_set _ _ _ _

theorem nextFile_create (d : Disk) (l : Location) (content : Bytes) :
    (d.create l content).2.nextFile = d.nextFile + 1 := by
  unfold create
  exact (sameBodies_put _ l _).nextFile

theorem body?_overwrite (d : Disk) (id : FileId) (content : Bytes) (id' : FileId) :
    (d.overwrite id content).body? id' =
      if id' = id then some ⟨content, d.clock⟩ else d.body? id' :=
  Table.get?_set _ _ _ _

theorem body?_setFileTime (d : Disk) (id : FileId) (t : Timestamp) (id' : FileId) :
    (d.setFileTime id t).body? id' =
      if id' = id then (d.body? id).map fun b => { b with mtime := t } else d.body? id' := by
  cases hbody : d.body? id with
  | none =>
      simp only [setFileTime, hbody]
      split
      · next h => rw [h, hbody]; rfl
      · rfl
  | some b =>
      simp only [setFileTime, hbody]
      exact Table.get?_set _ _ _ _

theorem nextFile_setFileTime (d : Disk) (id : FileId) (t : Timestamp) :
    (d.setFileTime id t).nextFile = d.nextFile := by
  unfold setFileTime
  split <;> rfl

/-! ### Straight walks -/

/-- A name that leads down and that the disk can carry. -/
structure IsCarried (n : Name) : Prop where
  plain : IsPlainName n
  short : n.length ≤ 255
  noNul : 0 ∉ n

instance : DecidablePred IsCarried := fun n =>
  decidable_of_iff ((n ≠ [] ∧ n ≠ here ∧ n ≠ above) ∧ n.length ≤ 255 ∧ 0 ∉ n)
    ⟨fun h => ⟨⟨h.1.1, h.1.2.1, h.1.2.2⟩, h.2.1, h.2.2⟩,
      fun h => ⟨⟨h.plain.ne_nil, h.plain.ne_here, h.plain.ne_above⟩, h.short, h.noNul⟩⟩

theorem short_of_turn {place : Location} {n : Name} (hn : IsPlainName n)
    (hturn : ∀ fault, d.turn place n ≠ .refused fault) : n.length ≤ 255 := by
  by_contra hlong
  have hstay : ¬ (n = [] ∨ n = here) := not_or.mpr ⟨hn.ne_nil, hn.ne_here⟩
  have hlong : n.length > 255 := Nat.lt_of_not_le hlong
  unfold turn at hturn
  simp only [if_neg hstay, if_neg hn.ne_above, if_pos hlong] at hturn
  split at hturn <;> exact hturn _ rfl

/-- A walk that gets to its end took no name that is too long. -/
theorem short_of_walkWith {fl : Bool} {onLink : Location → List Name → Except Errno Location}
    (hlink : ∀ l names q, onLink l names = .ok q → ∀ n ∈ names, IsPlainName n → n.length ≤ 255)
    {place q : Location} {names : List Name} (h : d.walkWith fl onLink place names = .ok q) :
    ∀ n ∈ names, IsPlainName n → n.length ≤ 255 := by
  induction names generalizing place with
  | nil => exact fun n hn => absurd hn List.not_mem_nil
  | cons m rest ih =>
      rw [walkWith_cons] at h
      have hhead (hturn : ∀ fault, d.turn place m ≠ .refused fault)
          (hrest : ∀ n ∈ rest, IsPlainName n → n.length ≤ 255) :
          ∀ n ∈ m :: rest, IsPlainName n → n.length ≤ 255 := by
        intro n hn hplain
        rcases List.mem_cons.mp hn with rfl | hn
        · exact short_of_turn hplain hturn
        · exact hrest n hn hplain
      cases hturn : d.turn place m with
      | refused fault =>
          rw [hturn] at h
          cases h
      | onward q' =>
          rw [hturn] at h
          exact hhead (by rw [hturn]; rintro _ ⟨⟩) (ih h)
      | link target =>
          rw [hturn] at h
          refine hhead (by rw [hturn]; rintro _ ⟨⟩) ?_
          simp only [Turn.take] at h
          split at h
          · next hlast =>
              simp only [Bool.and_eq_true, List.isEmpty_iff] at hlast
              rw [hlast.1]
              exact fun n hn => absurd hn List.not_mem_nil
          · exact fun n hn => hlink _ _ _ h n (List.mem_append_right _ hn)
      | free =>
          rw [hturn] at h
          refine hhead (by rw [hturn]; rintro _ ⟨⟩) ?_
          simp only [Turn.take] at h
          split at h
          · next hlast =>
              rw [List.isEmpty_iff.mp hlast]
              exact fun n hn => absurd hn List.not_mem_nil
          · cases h

theorem short_of_walk {fl : Bool} {links : Nat} {place q : Location} {names : List Name}
    (h : d.walk fl links place names = .ok q) : ∀ n ∈ names, IsPlainName n → n.length ≤ 255 := by
  induction links generalizing place names q with
  | zero => exact short_of_walkWith (fun _ _ _ hq => by cases hq) h
  | succ links ih => exact short_of_walkWith (fun _ _ _ hq => ih hq) h

/-- The names of a path that is found can all be carried. -/
theorem isCarried_of_spot {fl : Bool} {path : List Name} {q : Location}
    (h : d.spot fl path = .ok q) {n : Name} (hn : n ∈ path) (hplain : IsPlainName n) :
    IsCarried n := by
  obtain ⟨hfault, hwalk⟩ := spot_eq_ok_iff.mp h
  refine ⟨hplain, short_of_walk hwalk n hn hplain, fun hnul => ?_⟩
  have hany : path.any (·.contains 0) = true := by
    rw [List.any_eq_true]
    exact ⟨n, hn, by simpa using hnul⟩
  rw [pathFault?, hany] at hfault
  cases hfault

theorem isCarried_of_find {fl : Bool} {path : List Name} {q : Location}
    (h : d.find fl path = .ok (q, o)) {n : Name} (hn : n ∈ path) (hplain : IsPlainName n) :
    IsCarried n := by
  obtain ⟨hfault, hwalk, -⟩ := find_eq_ok_iff.mp h
  exact isCarried_of_spot (spot_eq_ok_iff.mpr ⟨hfault, hwalk⟩) hn hplain

/-- Every place on the way down from a place is a directory. -/
def WayDown (d : Disk) (place : Location) (names : List Name) : Prop :=
  ∀ pre n, pre ++ [n] <+: names → d.stands (place ++ pre) = some .directory

theorem wayDown_nil (d : Disk) (place : Location) : d.WayDown place [] := by
  intro pre n h
  have := List.prefix_nil.mp h
  simp at this

theorem wayDown_cons {place : Location} {n : Name} {rest : List Name} :
    d.WayDown place (n :: rest) ↔
      d.stands place = some .directory ∧ d.WayDown (place ++ [n]) rest := by
  constructor
  · intro h
    refine ⟨?_, fun pre m hm => ?_⟩
    · have := h [] n ⟨rest, rfl⟩
      rwa [List.append_nil] at this
    · have := h (n :: pre) m (by simpa using hm)
      rwa [List.append_assoc]
  · intro h pre m hm
    cases pre with
    | nil => rw [List.append_nil]; exact h.1
    | cons k pre =>
        rw [List.cons_append] at hm
        obtain ⟨rfl, hrest⟩ := List.cons_prefix_cons.mp hm
        have := h.2 pre m hrest
        rwa [List.append_assoc] at this

instance decidableWayDown (d : Disk) : (place : Location) → (names : List Name) →
    Decidable (d.WayDown place names)
  | place, [] => .isTrue (wayDown_nil d place)
  | place, n :: rest =>
    have := decidableWayDown d (place ++ [n]) rest
    decidable_of_iff _ wayDown_cons.symm

theorem wayDown_concat {place : Location} {names : List Name} {n : Name} :
    d.WayDown place (names ++ [n]) ↔
      d.WayDown place names ∧ d.stands (place ++ names) = some .directory := by
  induction names generalizing place with
  | nil => simp [wayDown_cons, wayDown_nil]
  | cons m rest ih => rw [List.cons_append, wayDown_cons, wayDown_cons, ih, and_assoc]; simp

/-- A walk that stopped where it could not go on. -/
def IsStop (r : Except Errno Location) : Prop :=
  r = .error Errno.noEntry ∨ r = .error Errno.notDirectory

/-- Where no link stands, a walk under carried names goes straight down, or stops on the way. -/
theorem walkWith_down {fl : Bool} {onLink : Location → List Name → Except Errno Location}
    {place : Location} {names : List Name} (hnames : ∀ n ∈ names, IsCarried n)
    (hlinks : ∀ pre target, pre <+: names → d.stands (place ++ pre) ≠ some (.link target)) :
    (d.WayDown place names ∧ d.walkWith fl onLink place names = .ok (place ++ names)) ∨
      (¬ d.WayDown place names ∧ IsStop (d.walkWith fl onLink place names)) := by
  induction names generalizing place with
  | nil => exact .inl ⟨wayDown_nil d place, by rw [List.append_nil]; rfl⟩
  | cons n rest ih =>
      have hn := hnames n List.mem_cons_self
      have hstay : ¬ (n = [] ∨ n = here) := not_or.mpr ⟨hn.plain.ne_nil, hn.plain.ne_here⟩
      have hshort : ¬ n.length > 255 := Nat.not_lt.mpr hn.short
      rw [walkWith_cons, wayDown_cons]
      unfold turn
      by_cases hdir : d.stands place = some .directory
      · have hdirectory : d.isDirectoryAt place = true := isDirectoryAt_iff.mpr hdir
        have ih := @ih (place ++ [n]) (fun m hm => hnames m (List.mem_cons_of_mem _ hm))
          (fun pre target hpre => by
            have := hlinks (n :: pre) target (List.cons_prefix_cons.mpr ⟨rfl, hpre⟩)
            rwa [List.append_assoc])
        simp only [hdir, hdirectory, not_true_eq_false, if_false, if_neg hstay, hn.plain.ne_above,
          hshort, true_and]
        have hlink (target : Bytes) : d.stands (place ++ [n]) ≠ some (.link target) :=
          hlinks [n] target ⟨rest, rfl⟩
        cases hat : d.at? (place ++ [n]) with
        | none =>
            have hnone : d.stands (place ++ [n]) = none := stands_eq_none_iff.mpr hat
            cases rest with
            | nil => exact .inl ⟨wayDown_nil d _, rfl⟩
            | cons m rest =>
                refine .inr ⟨fun h => ?_, .inl rfl⟩
                rw [wayDown_cons, hnone] at h
                cases h.1
        | some o =>
            cases o with
            | link target t => exact absurd (stands_of_at? hat) (hlink target)
            | file | directory | pipe =>
                rw [List.append_assoc] at ih
                exact ih
      · have hdirectory : d.isDirectoryAt place = false := by
          rw [← Bool.not_eq_true, isDirectoryAt_iff]
          exact hdir
        refine .inr ⟨fun h => hdir h.1, ?_⟩
        simp only [hdirectory, Bool.false_eq_true, not_false_eq_true, if_true, Turn.take]
        cases (d.at? place).isSome with
        | true => exact .inr rfl
        | false => exact .inl rfl

theorem walk_down {fl : Bool} (links : Nat) {place : Location} {names : List Name}
    (hnames : ∀ n ∈ names, IsCarried n)
    (hlinks : ∀ pre target, pre <+: names → d.stands (place ++ pre) ≠ some (.link target)) :
    (d.WayDown place names ∧ d.walk fl links place names = .ok (place ++ names)) ∨
      (¬ d.WayDown place names ∧ IsStop (d.walk fl links place names)) := by
  cases links with
  | zero => exact walkWith_down hnames hlinks
  | succ links => exact walkWith_down hnames hlinks

theorem WayDown.of_prefix {place : Location} {names pre : List Name} (h : d.WayDown place names)
    (hpre : pre <+: names) : d.WayDown place pre :=
  fun m n hm => h m n (hm.trans hpre)

/-- Past directories only, a path leads to the place that it spells. -/
theorem walk_of_wayDown (hcarried : ∀ n ∈ l, IsCarried n) (hway : d.WayDown [] l)
    (hlink : ∀ target, d.stands l ≠ some (.link target)) (fl : Bool) :
    d.walk fl linkLimit [] l = .ok l := by
  have hlinks (pre : List Name) (target : Bytes) (hpre : pre <+: l) :
      d.stands ([] ++ pre) ≠ some (.link target) := by
    obtain ⟨rest, hrest⟩ := hpre
    cases rest with
    | nil =>
        rw [List.append_nil] at hrest
        rw [hrest]
        exact hlink target
    | cons n rest =>
        rw [hway pre n ⟨rest, by rw [← hrest]; simp⟩]
        nofun
  rcases @walk_down d fl linkLimit [] l hcarried hlinks with ⟨-, hwalk⟩ | ⟨hnot, -⟩
  · exact hwalk
  · exact absurd hway hnot

end Disk
end OnDemandFs
