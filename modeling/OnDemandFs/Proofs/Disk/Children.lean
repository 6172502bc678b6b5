import OnDemandFs.Disk.Walk
import OnDemandFs.Proofs.Table.Keys
import Mathlib.Data.List.Basic

/-!
# One name further

A path with one more name leads to that name in the place where the path itself leads, all links
followed; the one object there is the child that the place lists under the name. A disk where that
is so lists each place once, and nothing under the name of the place above.
-/
namespace OnDemandFs
namespace Disk

/-- Each place is listed once, and none is called like the place above it. -/
structure IsProper (d : Disk) : Prop where
  keys : d.objects.keys.Nodup
  names : ∀ row ∈ d.objects, row.1.getLast? ≠ some above

/-- A name that leads down. -/
structure IsPlainName (n : Name) : Prop where
  ne_nil : n ≠ []
  ne_here : n ≠ here
  ne_above : n ≠ above

variable {d : Disk} {place : Location} {n : Name} {o : Object}

theorem mem_children_iff : (n, o) ∈ d.children place ↔ (place ++ [n], o) ∈ d.objects := by
  unfold children
  rw [List.mem_filterMap]
  constructor
  · rintro ⟨⟨l, o'⟩, hmem, hrow⟩
    rcases l.eq_nil_or_concat with rfl | ⟨up, m, rfl⟩
    · cases hrow
    · rw [List.concat_eq_append] at hmem hrow
      simp only [List.getLast?_concat, List.dropLast_concat] at hrow
      split at hrow
      · next hup =>
          cases hrow
          rw [← hup]
          exact hmem
      · cases hrow
  · intro hmem
    refine ⟨_, hmem, ?_⟩
    simp only [List.getLast?_concat, List.dropLast_concat, if_true]

theorem mem_children_iff_at? (h : d.IsProper) :
    (n, o) ∈ d.children place ↔ d.at? (place ++ [n]) = some o := by
  rw [mem_children_iff]
  exact (Table.get?_eq_some_iff h.keys).symm

theorem ne_above_of_mem_children (h : d.IsProper) (hmem : (n, o) ∈ d.children place) :
    n ≠ above := by
  rintro rfl
  refine h.names _ (mem_children_iff.mp hmem) ?_
  rw [List.getLast?_concat]

/-! ### The walk -/

/-- What the next name of a path does to a walk. -/
inductive Turn where
  | refused (fault : Errno)
  | onward (place : Location)
  | link (target : Bytes)
  /-- Nothing stands there, so only a last name may lead there. -/
  | free

def turn (d : Disk) (place : Location) (n : Name) : Turn :=
  if ¬ d.isDirectoryAt place then
    .refused (if (d.at? place).isSome then Errno.notDirectory else Errno.noEntry)
  else if n = [] ∨ n = here then .onward place
  else if n = above then .onward place.dropLast
  else if n.length > 255 then .refused Errno.nameTooLong
  else match d.at? (place ++ [n]) with
    | some (.link target _) => .link target
    | some _ => .onward (place ++ [n])
    | none => .free

/-- How a walk takes a turn, going on by `go` where nothing stops it. -/
def Turn.take (followLast : Bool) (onLink : Location → List Name → Except Errno Location)
    (go : Location → Except Errno Location) (place : Location) (n : Name) (rest : List Name) :
    Turn → Except Errno Location
  | .refused fault => .error fault
  | .onward q => go q
  | .link target =>
    if rest.isEmpty && !followLast then .ok (place ++ [n])
    else onLink (linkStart place target) (targetNames target ++ rest)
  | .free => if rest.isEmpty then .ok (place ++ [n]) else .error Errno.noEntry

theorem walkWith_cons (fl : Bool) (onLink : Location → List Name → Except Errno Location)
    (place : Location) (n : Name) (rest : List Name) :
    d.walkWith fl onLink place (n :: rest) = (d.turn place n).take fl onLink
      (fun q => d.walkWith fl onLink q rest) place n rest := by
  rw [walkWith]
  unfold turn
  split
  · rfl
  · split
    · rfl
    · split
      · rfl
      · split
        · rfl
        · rcases d.at? (place ++ [n]) with _ | o
          · rfl
          · cases o <;> rfl

/-- What stands behind each turn. -/
inductive Turns (d : Disk) (place : Location) (n : Name) : Turn → Prop
  | refused (fault : Errno) : Turns d place n (.refused fault)
  | stay : Turns d place n (.onward place)
  | up : Turns d place n (.onward place.dropLast)
  | down : n ≠ above → Turns d place n (.onward (place ++ [n]))
  | link {target : Bytes} {t : Timestamp} : n ≠ above →
      d.at? (place ++ [n]) = some (.link target t) → Turns d place n (.link target)
  | free : n ≠ above → d.at? (place ++ [n]) = none → Turns d place n .free

theorem turns (d : Disk) (place : Location) (n : Name) : Turns d place n (d.turn place n) := by
  unfold turn
  split
  · exact .refused _
  · split
    · exact .stay
    · split
      · exact .up
      · next hup =>
          split
          · exact .refused _
          · cases hat : d.at? (place ++ [n]) with
            | none => exact .free hup hat
            | some o =>
                cases o with
                | link target t => exact .link hup hat
                | file | directory | pipe => exact .down hup

/-- The step of a walk by a last name that leads down, no link followed any more. -/
def lastStep (d : Disk) (n : Name) (place : Location) : Except Errno Location :=
  if ¬ d.isDirectoryAt place then
    .error (if (d.at? place).isSome then Errno.notDirectory else Errno.noEntry)
  else if n.length > 255 then .error Errno.nameTooLong
  else .ok (place ++ [n])

theorem walkWith_singleton (hn : IsPlainName n)
    (onLink : Location → List Name → Except Errno Location) :
    d.walkWith false onLink place [n] = d.lastStep n place := by
  have hstay : ¬ (n = [] ∨ n = here) := not_or.mpr ⟨hn.ne_nil, hn.ne_here⟩
  rw [walkWith_cons]
  unfold turn lastStep
  rw [if_neg hstay, if_neg hn.ne_above]
  split
  · rfl
  · split
    · rfl
    · rcases d.at? (place ++ [n]) with _ | o
      · rfl
      · cases o <;> rfl

/-- One more name is one more step, from where the path leads with its links followed. -/
theorem walkWith_concat (hn : IsPlainName n)
    {onLink onLink' : Location → List Name → Except Errno Location}
    (hlink : ∀ l names, onLink l (names ++ [n]) = onLink' l names >>= d.lastStep n)
    (path : List Name) (place : Location) :
    d.walkWith false onLink place (path ++ [n]) =
      d.walkWith true onLink' place path >>= d.lastStep n := by
  induction path generalizing place with
  | nil => exact walkWith_singleton hn onLink
  | cons m rest ih =>
      have hrest : (rest ++ [n]).isEmpty = false := by simp
      have hturns := d.turns place m
      rw [List.cons_append, walkWith_cons, walkWith_cons]
      cases hturn : d.turn place m with
      | refused fault => rfl
      | onward q => exact ih q
      | link target =>
          simp only [Turn.take, hrest, Bool.false_and, Bool.not_true, Bool.and_false,
            Bool.false_eq_true, if_false]
          rw [← List.append_assoc]
          exact hlink _ _
      | free =>
          rw [hturn] at hturns
          cases hturns with
          | free _ hat =>
              simp only [Turn.take, hrest, Bool.false_eq_true, if_false]
              split
              · change _ = d.lastStep n (place ++ [m])
                simp only [lastStep, isDirectoryAt, hat]
                rfl
              · rfl

theorem walk_concat (hn : IsPlainName n) (links : Nat) (place : Location) (path : List Name) :
    d.walk false links place (path ++ [n]) = d.walk true links place path >>= d.lastStep n := by
  induction links generalizing place path with
  | zero => exact walkWith_concat hn (fun _ _ => rfl) path place
  | succ links ih => exact walkWith_concat hn ih path place

/-- What is not a link is reached whether or not a last link is followed. -/
theorem walkWith_true_of_false {onLink onLink' : Location → List Name → Except Errno Location}
    {q : Location} (hq : ∀ target t, d.at? q ≠ some (.link target t))
    (hlink : ∀ l names, onLink l names = .ok q → onLink' l names = .ok q)
    {path : List Name} (h : d.walkWith false onLink place path = .ok q) :
    d.walkWith true onLink' place path = .ok q := by
  induction path generalizing place with
  | nil => exact h
  | cons m rest ih =>
      have hturns := d.turns place m
      rw [walkWith_cons] at h ⊢
      cases hturn : d.turn place m with
      | refused fault =>
          rw [hturn] at h
          cases h
      | onward q' =>
          rw [hturn] at h
          exact ih h
      | link target =>
          rw [hturn] at h hturns
          cases hturns with
          | link _ hat =>
              simp only [Turn.take] at h ⊢
              split at h
              · cases h
                exact absurd hat (hq target _)
              · simp only [Bool.not_true, Bool.and_false, Bool.false_eq_true, if_false]
                exact hlink _ _ h
      | free =>
          rw [hturn] at h
          exact h

theorem walk_true_of_false {q : Location} (hq : ∀ target t, d.at? q ≠ some (.link target t))
    {links : Nat} {path : List Name} (h : d.walk false links place path = .ok q) :
    d.walk true links place path = .ok q := by
  induction links generalizing place path with
  | zero => exact walkWith_true_of_false hq (fun _ _ hl => by cases hl) h
  | succ links ih => exact walkWith_true_of_false hq (fun _ _ hl => ih hl) h

/-! ### Objects -/

section Find
variable {fl : Bool} {path : List Name} {q : Location}

theorem spot_eq_ok_iff :
    d.spot fl path = .ok q ↔ pathFault? path = none ∧ d.walk fl linkLimit [] path = .ok q := by
  unfold spot
  cases pathFault? path with
  | some fault => exact ⟨nofun, fun h => by cases h.1⟩
  | none =>
      cases d.walk fl linkLimit [] path with
      | error fault => exact ⟨nofun, fun h => by cases h.2⟩
      | ok l =>
          constructor
          · intro h
            cases h
            exact ⟨rfl, rfl⟩
          · intro h
            cases h.2
            rfl

theorem find_of_spot_error {fault : IoFault} (h : d.spot fl path = .error fault) :
    d.find fl path = .error fault := by
  simp only [find, h]
  rfl

theorem find_of_spot (h : d.spot fl path = .ok q) (hat : d.at? q = some o) :
    d.find fl path = .ok (q, o) := by
  simp only [find, h, bind, Except.bind, hat]
  rfl

theorem find_of_free (h : d.spot fl path = .ok q) (hat : d.at? q = none) :
    d.find fl path = .error (.system Errno.noEntry) := by
  simp only [find, h, bind, Except.bind, hat]

theorem find_eq_ok_iff : d.find fl path = .ok (q, o) ↔
    pathFault? path = none ∧ d.walk fl linkLimit [] path = .ok q ∧ d.at? q = some o := by
  rw [← and_assoc, ← spot_eq_ok_iff]
  constructor
  · intro h
    cases hspot : d.spot fl path with
    | error fault =>
        rw [find_of_spot_error hspot] at h
        cases h
    | ok l =>
        cases hat : d.at? l with
        | none =>
            rw [find_of_free hspot hat] at h
            cases h
        | some o' =>
            rw [find_of_spot hspot hat] at h
            cases h
            exact ⟨rfl, hat⟩
  · rintro ⟨hspot, hat⟩
    exact find_of_spot hspot hat

end Find

theorem find_true_of_false {path : List Name} {q : Location} {o : Object}
    (hlink : ∀ target t, o ≠ .link target t) (h : d.find false path = .ok (q, o)) :
    d.find true path = .ok (q, o) := by
  rw [find_eq_ok_iff] at h ⊢
  refine ⟨h.1, walk_true_of_false (fun target t hat => ?_) h.2.1, h.2.2⟩
  rw [h.2.2] at hat
  exact hlink target t (Option.some.inj hat)

section Concat
variable {path : List Name} {q : Location} {t : Timestamp}

theorem at?_of_find_concat (hn : IsPlainName n) (hdir : d.find true path = .ok (q, .directory t))
    {l : Location} (h : d.find false (path ++ [n]) = .ok (l, o)) :
    d.at? (q ++ [n]) = some o := by
  rw [find_eq_ok_iff] at hdir h
  obtain ⟨-, hwalk, hat⟩ := h
  rw [walk_concat hn, hdir.2.1] at hwalk
  change d.lastStep n q = .ok l at hwalk
  unfold lastStep at hwalk
  split at hwalk
  · cases hwalk
  · split at hwalk <;> cases hwalk
    exact hat

/-- A child is found under its name, unless the path has grown too long to be looked up. -/
theorem find_concat_of_at? (hn : IsPlainName n) (hdir : d.find true path = .ok (q, .directory t))
    (hat : d.at? (q ++ [n]) = some o) : d.find false (path ++ [n]) = .ok (q ++ [n], o) ∨
      ∃ fault, d.find false (path ++ [n]) = .error fault ∧ isMissing fault = false := by
  rw [find_eq_ok_iff] at hdir
  have hdirectory : d.isDirectoryAt q = true := by rw [isDirectoryAt, hdir.2.2]
  have hwalk : d.walk false linkLimit [] (path ++ [n]) = d.lastStep n q := by
    rw [walk_concat hn, hdir.2.1]
    rfl
  unfold lastStep at hwalk
  rw [if_neg (not_not_intro hdirectory)] at hwalk
  cases hfault : pathFault? (path ++ [n]) with
  | some fault =>
      refine .inr ⟨fault, ?_, ?_⟩
      · rw [find, spot, hfault]
        rfl
      · unfold pathFault? at hfault
        split at hfault
        · cases hfault
          rfl
        · split at hfault <;> cases hfault
          rfl
  | none =>
      by_cases hlong : n.length > 255
      · refine .inr ⟨.system Errno.nameTooLong, ?_, rfl⟩
        rw [if_pos hlong] at hwalk
        rw [find, spot, hfault]
        dsimp only
        rw [hwalk]
        rfl
      · rw [if_neg hlong] at hwalk
        exact .inl (find_eq_ok_iff.mpr ⟨hfault, hwalk, hat⟩)

end Concat

end Disk
end OnDemandFs
