import OnDemandFs.Proofs.Resolve.Asked

/-!
# The course of a walk, by the cache

Which requests a path costs can be told from the cache alone. `course` goes down the path and looks
at the places on it: at the root a directory stands; a directory is asked for unless the cache holds
it with an index; the index as it then is declares what stands under the next name, or, if it is
dynamic, the child is asked for and what stands on the disk afterwards counts. A built-in entry, a
file, a name that no entry can have, a name that is not there, and any failure end the way.

Nothing here speaks of the operations. `follows_course` says that they go the same way.
-/
namespace OnDemandFs

/-- What the cache has in a place. -/
inductive Standing where
  | directory
  /-- A file, with what the index of its directory declares of it. -/
  | file (declared : Option Entry)
  | builtin
deriving DecidableEq, Repr

/-- How far a way has come: what was asked for, the cache by now, the place, and what stands there
unless the way has ended. -/
structure Course where
  asked : List Path := []
  view : View
  place : Path := .root
  standing : Option Standing := some .directory

namespace Course

variable {helper : Helper View} {c : Course} {n : String}

def stop (c : Course) : Course := { c with standing := none }

/-- The cache is read, and what it told of an index is remembered. -/
def look (c : Course) : Course := { c with view := (Resolver.peek c.place c.view).1 }

/-- A path is asked for. A request that fails ends the way. -/
def ask (helper : Helper View) (c : Course) (p : Path) : Course :=
  match helper c.asked p c.view with
  | (view, .ok ()) => { c with asked := c.asked ++ [p], view }
  | (view, .error _) => { c with asked := c.asked ++ [p], view, standing := none }

/-- The directory is asked for, unless the cache holds a directory with an index in its place. -/
def prepare (helper : Helper View) (c : Course) : Course :=
  match c.view.store.held c.place with
  | .ok (.index _) => c.look
  | .ok _ => (c.look.ask helper c.place).look
  | .error _ => c.stop

/-- The index that the cache has for the place. -/
def index? (c : Course) : Option Index :=
  match c.standing, c.view.store.held c.place with
  | some .directory, .ok (.index index) => some index
  | _, _ => none

/-- What a listing says of a name. -/
def declared (entries : List Entry) (name : String) : Option Standing :=
  ((Index.listing entries).find? name).map fun e =>
    match e.kind with
    | .file => .file (some e)
    | .directory => .directory

/-- What stands on the disk in a place. -/
def onDisk (s : Store) (p : Path) : Option Standing :=
  match s.stat p with
  | .ok (some ⟨.file, _, _, _⟩) => some (.file none)
  | .ok (some ⟨.directory, _, _, _⟩) => some .directory
  | _ => none

/-- The way goes on to a child if anything stands there. -/
def enter (c : Course) (child : Path) (standing : Option Standing) : Course :=
  match c.standing with
  | some _ => { c with place := child, standing }
  | none => c

/-- The way goes by the index of a directory. -/
def descend (helper : Helper View) (c : Course) (name : String) : Option Index → Course
  | none => c.stop
  | some (.listing entries) => c.enter (c.place.extend name) (declared entries name)
  | some .dynamic =>
    let c := c.ask helper (c.place.extend name)
    c.enter (c.place.extend name) (onDisk c.view.store (c.place.extend name))

/-- One name further. -/
def next (helper : Helper View) (c : Course) (name : String) : Course :=
  if c.standing = some .directory then
    if c.place.isRoot ∧ (builtin? name).isSome then
      c.enter (c.place.extend name) (some .builtin)
    else if name = ".." ∨ IsReserved name then c.stop
    else (c.prepare helper).descend helper name (c.prepare helper).index?
  else c.stop

/-- The request that the index of the place costs. -/
def forIndex (c : Course) : List Path :=
  match c.view.store.held c.place with
  | .error _ | .ok (.index _) => []
  | .ok _ => [c.place]

/-- The request that a child costs, once the index is there. -/
def forChild (c : Course) (name : String) : List Path :=
  if c.index? = some .dynamic then [c.place.extend name] else []

/-- A body that the mount may use: a file, and such as it is declared to be if the mount minds. -/
def Serves (v : View) (declared : Option Entry) : Option PhysicalEntry → Prop
  | none => False
  | some e => e.kind = .file ∧ (v.revalidate = true → ∀ d ∈ declared,
      d.size.toNat = e.size ∧ d.mtime.toInt = e.mtime)

instance (v : View) (declared : Option Entry) : DecidablePred (Serves v declared)
  | none => inferInstanceAs (Decidable False)
  | some _ => inferInstanceAs (Decidable (_ ∧ _))

/-- The request that opening a file costs, at the end of the way. -/
def forBody (c : Course) : List Path :=
  match c.standing with
  | some (.file declared) =>
    match c.view.store.stat c.place with
    | .ok found => if Serves c.view declared found then [] else [c.place]
    | .error _ => []
  | _ => []

/-- The request that listing a directory costs, at the end of the way. -/
def forListing (c : Course) : List Path :=
  match c.standing with
  | some .directory =>
    match c.view.store.held c.place with
    | .error _ | .ok (.index (.listing _)) => []
    | .ok _ => [c.place]
  | _ => []

theorem asked_ask (helper : Helper View) (c : Course) (p : Path) :
    (c.ask helper p).asked = c.asked ++ [p] := by
  unfold ask
  rcases helper c.asked p c.view with ⟨w, fault | _⟩ <;> rfl

theorem asked_enter (c : Course) (child : Path) (standing : Option Standing) :
    (c.enter child standing).asked = c.asked := by
  unfold enter
  cases c.standing <;> rfl

theorem asked_prepare (helper : Helper View) (c : Course) :
    (c.prepare helper).asked = c.asked ++ c.forIndex := by
  unfold prepare forIndex
  rcases c.view.store.held c.place with fault | _ | index | _
  · exact (List.append_nil _).symm
  · exact asked_ask helper c.look c.place
  · exact (List.append_nil _).symm
  · exact asked_ask helper c.look c.place

theorem place_prepare (helper : Helper View) (c : Course) :
    (c.prepare helper).place = c.place := by
  have hask (c : Course) (p : Path) : (c.ask helper p).place = c.place := by
    unfold ask
    rcases helper c.asked p c.view with ⟨w, fault | _⟩ <;> rfl
  unfold prepare
  rcases c.view.store.held c.place with fault | _ | index | _
  · rfl
  · exact hask c.look c.place
  · rfl
  · exact hask c.look c.place

theorem asked_descend (helper : Helper View) (c : Course) (n : String) :
    (c.descend helper n c.index?).asked = c.asked ++ c.forChild n := by
  unfold forChild
  rcases c.index? with _ | _ | entries
  · exact (List.append_nil _).symm
  · rw [if_pos rfl]
    exact (asked_enter _ _ _).trans (asked_ask helper c _)
  · rw [if_neg (by nofun), List.append_nil]
    exact asked_enter _ _ _

/-- The name has to be looked for in the index of a directory. -/
structure Seeks (c : Course) (name : String) : Prop where
  directory : c.standing = some .directory
  free : Store.IsFree c.place name
  ordinary : ¬ (name = ".." ∨ IsReserved name)

/-- A name that has to be looked for costs the directory or the child or both or neither. -/
theorem asked_next (h : c.Seeks n) :
    (c.next helper n).asked = c.asked ++ c.forIndex ++ (c.prepare helper).forChild n := by
  have hplain : ¬ (c.place.isRoot = true ∧ (builtin? n).isSome = true) := by
    rintro ⟨hroot, hsome⟩
    rw [h.free hroot] at hsome
    cases hsome
  rw [next, if_pos h.directory, if_neg hplain, if_neg h.ordinary, asked_descend, asked_prepare]

/-- Where no name has to be looked for, nothing is asked for. -/
theorem asked_next_of_not_seeks (h : ¬ c.Seeks n) : (c.next helper n).asked = c.asked := by
  unfold next
  split_ifs with hstanding hbuiltin hname
  · exact asked_enter _ _ _
  · rfl
  · refine absurd ⟨hstanding, fun hroot => ?_, hname⟩ h
    exact Option.not_isSome_iff_eq_none.mp fun hsome => hbuiltin ⟨hroot, hsome⟩
  · rfl

end Course

/-- The course of the walk down a path. -/
def course (helper : Helper View) (v : View) (p : Path) : Course :=
  p.names.foldl (Course.next helper) { view := v }

theorem course_extend (helper : Helper View) (v : View) (p : Path) {n : String}
    (hn : IsSegment n) : course helper v (p.extend n) = (course helper v p).next helper n := by
  rw [course, p.names_extend_of_isSegment hn, List.foldl_append]
  rfl

/-! ### The operations follow it -/

/-- What a walk reached, by what can be seen of it. -/
def Resolved.standing (x : Resolved) : Standing :=
  match x.kind with
  | .staticDirectory | .dynamicDirectory => .directory
  | .file => .file x.hint
  | .symlink | .control => .builtin

theorem Resolved.standing_of_isDirectory {x : Resolved} (h : x.kind.isDirectory = true) :
    x.standing = .directory := by
  unfold standing
  cases hkind : x.kind with
  | staticDirectory | dynamicDirectory => rfl
  | file | symlink | control =>
      rw [hkind] at h
      cases h

theorem Resolved.standing_ne_directory {x : Resolved} (h : x.kind.isDirectory = false) :
    x.standing ≠ .directory := by
  unfold standing
  cases hkind : x.kind with
  | staticDirectory | dynamicDirectory =>
      rw [hkind] at h
      cases h
  | file | symlink | control => nofun

theorem Resolved.standing_of_builtin {x : Resolved} {n : String}
    (h : builtin? n = some x.kind) : x.standing = .builtin := by
  have hdir := Store.not_isDirectory_of_builtin h
  have hfile := Store.ne_file_of_builtin h
  unfold standing
  cases hkind : x.kind with
  | staticDirectory | dynamicDirectory =>
      rw [hkind] at hdir
      cases hdir
  | file => exact absurd hkind hfile
  | symlink | control => rfl

/-- The walk ended where the course is, after the same requests, over the same cache. -/
inductive Follows : Ending View Resolved → Course → Prop
  | ok (asked : List Path) (v : View) (x : Resolved) :
      Follows ⟨asked, v, .ok x⟩ ⟨asked, v, x.path, some x.standing⟩
  | error (asked : List Path) (v w : View) (p : Path) (fault : Fault) :
      Follows ⟨asked, v, .error fault⟩ ⟨asked, w, p, none⟩

namespace Resolver

open Course

variable {helper : Helper View} {asked : List Path} {v : View} {dir : Path} {n : String}

/-- The index decides for the walk what it decides for the course. -/
theorem follows_childIn (helper : Helper View) (asked : List Path) (v : View) (dir : Path)
    (n : String) (index : Option Index) : Follows ((childIn dir n index).run helper asked v)
      (descend helper ⟨asked, v, dir, some .directory⟩ n index) := by
  rcases index with _ | _ | entries
  · exact .error _ _ _ _ _
  · rw [childIn, run_volatileChild, descend, Course.ask]
    dsimp only
    rcases helper asked (dir.extend n) v with ⟨w, fault | _⟩
    · exact .error _ _ _ _ _
    · dsimp only [enter, onDisk]
      rcases w.store.stat (dir.extend n) with fault | _ | ⟨kind, _, _, _⟩
      · exact .error _ _ _ _ _
      · exact .error _ _ _ _ _
      · cases kind with
        | file => exact .ok _ _ ⟨dir.extend n, .file, none, true⟩
        | directory => exact .ok _ _ ⟨dir.extend n, .staticDirectory, none, true⟩
        | other => exact .error _ _ _ _ _
  · rw [childIn, descend, enter, declared]
    cases (Index.listing entries).find? n with
    | none => exact .error _ _ _ _ _
    | some e =>
        obtain ⟨kind, size, mtime, name⟩ := e
        cases kind with
        | file => exact .ok _ _ ⟨dir.extend n, .file, some ⟨.file, size, mtime, name⟩, false⟩
        | directory =>
            exact .ok _ _
              ⟨dir.extend n, .staticDirectory, some ⟨.directory, size, mtime, name⟩, false⟩

/-- Reading the cache makes no difference to what it has. -/
theorem index?_look (asked : List Path) (v : View) (dir : Path) :
    (look ⟨asked, v, dir, some .directory⟩).index? =
      match v.store.held dir with
      | .ok (.index index) => some index
      | _ => none := by
  unfold index? look
  dsimp only
  rw [(calm_peek dir v).store.held]
  rcases v.store.held dir with fault | _ | index | _ <;> rfl

/-- A name that has to be looked for takes the walk where it takes the course. -/
theorem follows_resolveChild (helper : Helper View) (asked : List Path) (v : View) (dir : Path)
    (hname : ¬ (n = ".." ∨ IsReserved n)) :
    Follows ((resolveChild dir n).run helper asked v)
      ((prepare helper ⟨asked, v, dir, some .directory⟩).descend helper n
        (prepare helper ⟨asked, v, dir, some .directory⟩).index?) := by
  have hlook (asked : List Path) (v : View) {index : Index}
      (hheld : v.store.held dir = .ok (.index index)) :
      Follows ((childIn dir n (some index)).run helper asked (peek dir v).1)
        ((look ⟨asked, v, dir, some .directory⟩).descend helper n
          (look ⟨asked, v, dir, some .directory⟩).index?) := by
    rw [index?_look, hheld]
    exact follows_childIn helper asked (peek dir v).1 dir n (some index)
  have hanew (v : View) : Follows ((askForIndex dir >>= childIn dir n).run helper asked v)
      ((((Course.mk asked v dir (some .directory)).ask helper dir).look).descend helper n
        (((Course.mk asked v dir (some .directory)).ask helper dir).look).index?) := by
    rw [Asking.run_bind, run_askForIndex]
    unfold Course.ask
    dsimp only
    rcases helper asked dir v with ⟨w, fault | _⟩
    · exact .error _ _ _ _ _
    · dsimp only
      cases hheld : w.store.held dir with
      | error fault =>
          rw [index?_look, hheld]
          exact .error _ _ _ _ _
      | ok held =>
          cases held with
          | index index => exact hlook _ w hheld
          | absent | foreign =>
              rw [index?_look, hheld]
              exact .error _ _ _ _ _
  rw [resolveChild_eq hname, Asking.run_bind, run_ensureIndex]
  unfold prepare
  dsimp only
  cases hheld : v.store.held dir with
  | error fault => exact .error _ _ _ _ _
  | ok held =>
      cases held with
      | index index => exact hlook asked v hheld
      | absent | foreign =>
          have h := hanew (peek dir v).1
          rw [Asking.run_bind] at h
          exact h

/-- One segment takes the walk where it takes the course. -/
theorem follows_into (helper : Helper View) (asked : List Path) (v : View) (x : Resolved)
    (n : String) : Follows ((into x.path.isRoot x n).run helper asked v)
      (next helper ⟨asked, v, x.path, some x.standing⟩ n) := by
  unfold into next
  cases hdir : x.kind.isDirectory with
  | false =>
      have hne : some x.standing ≠ some .directory :=
        fun heq => x.standing_ne_directory hdir (Option.some.inj heq)
      simp only [Bool.false_eq_true, if_false, hne]
      exact .error _ _ _ _ _
  | true =>
      simp only [if_true, x.standing_of_isDirectory hdir]
      cases hbuiltin : (if x.path.isRoot then builtin? n else none) with
      | some kind =>
          have hroot : x.path.isRoot = true ∧ builtin? n = some kind := by
            split at hbuiltin
            · next h => exact ⟨h, hbuiltin⟩
            · cases hbuiltin
          rw [if_pos ⟨hroot.1, by rw [hroot.2]; rfl⟩]
          have hok := Follows.ok asked v ⟨x.path.extend n, kind, none, false⟩
          rw [Resolved.standing_of_builtin hroot.2] at hok
          exact hok
      | none =>
          have hplain : ¬ (x.path.isRoot = true ∧ (builtin? n).isSome = true) := by
            rintro ⟨hroot, hsome⟩
            rw [if_pos hroot] at hbuiltin
            rw [hbuiltin] at hsome
            cases hsome
          rw [if_neg hplain]
          by_cases hname : n = ".." ∨ IsReserved n
          · rw [if_pos hname, resolveChild_eq_fail hname]
            exact .error _ _ _ _ _
          · rw [if_neg hname]
            exact follows_resolveChild helper asked v x.path hname

/-- The walk goes where its course goes, whatever the helper does to the cache. -/
theorem follows_course (helper : Helper View) (v : View) (p : Path) :
    Follows ((walkFromRoot p).run helper [] v) (course helper v p) := by
  induction p using Path.extendInduction with
  | root => exact .ok [] v Store.top
  | extend q n hn ih =>
      have hplace := (stageInv helper v q (Nat.le_refl q.depth)).place
      rw [q.upTo_depth, stage_depth] at hplace
      rw [walkFromRoot_extend q hn, course_extend helper v q hn, Asking.run_bind]
      revert ih hplace
      generalize (walkFromRoot q).run helper [] v = e, course helper v q = c
      intro ih hplace
      cases ih with
      | ok asked w x =>
          obtain rfl := hplace x rfl
          exact follows_into helper asked w x n
      | error asked w u place fault =>
          unfold next
          rw [if_neg (by nofun)]
          exact .error _ _ _ _ _

end Resolver
end OnDemandFs
