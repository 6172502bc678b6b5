import OnDemandFs.Proofs.Resolve.Reached

/-!
# What is asked for on the way

A helper may do anything to the cache while a request is pending. What an operation asks for next
then depends on what the cache holds at that moment, and `asksFor` says how, for one step of a walk:
the directory, unless it has an index, and then the child, if the index is dynamic. `stage` is how
far a walk has come after some segments. So each segment costs at most two requests, all of them for
paths on the way and none for a path above an earlier one, whatever the helper does.
-/
namespace OnDemandFs
namespace Resolver

open Asking Store

variable {helper : Helper View} {asked : List Path} {v : View} {dir : Path} {name : String}

/-- What is asked for in order to get from a directory without an index to a child. -/
def asksAnew (helper : Helper View) (asked : List Path) (v : View) (dir child : Path) : List Path :=
  match helper asked dir v with
  | (_, .error _) => [dir]
  | (w, .ok ()) => if w.store.held dir = .ok (.index .dynamic) then [dir, child] else [dir]

/-- What is asked for in order to get from a directory to a child. -/
def asksFor (helper : Helper View) (asked : List Path) (v : View) (dir child : Path) : List Path :=
  match v.store.held dir with
  | .error _ => []
  | .ok (.index index) => if index.isDynamic then [child] else []
  | .ok _ => asksAnew helper asked (peek dir v).1 dir child

theorem asksAnew_sublist (helper : Helper View) (asked : List Path) (v : View) (dir child : Path) :
    (asksAnew helper asked v dir child).Sublist [dir, child] := by
  have hdir : [dir].Sublist [dir, child] := (List.nil_sublist [child]).cons_cons dir
  unfold asksAnew
  rcases helper asked dir v with ⟨w, fault | _⟩
  · exact hdir
  · dsimp only
    split
    · exact List.Sublist.refl _
    · exact hdir

theorem asksFor_sublist (helper : Helper View) (asked : List Path) (v : View) (dir child : Path) :
    (asksFor helper asked v dir child).Sublist [dir, child] := by
  unfold asksFor
  rcases v.store.held dir with fault | _ | index | _
  · exact List.nil_sublist _
  · exact asksAnew_sublist helper asked _ dir child
  · dsimp only
    split
    · exact List.sublist_cons_self _ _
    · exact List.nil_sublist _
  · exact asksAnew_sublist helper asked _ dir child

/-! ### One step -/

@[simp] theorem run_stat (helper : Helper View) (asked : List Path) (p : Path) (v : View) :
    (stat p).run helper asked v = ⟨asked, v, v.store.stat p⟩ := rfl

theorem run_askForIndex (helper : Helper View) (asked : List Path) (dir : Path) (v : View) :
    (askForIndex dir).run helper asked v =
      match helper asked dir v with
      | (w, .error fault) => ⟨asked ++ [dir], w, .error fault⟩
      | (w, .ok ()) =>
        ⟨asked ++ [dir], (peek dir w).1, w.store.held dir >>= Peeked.told dir⟩ := by
  unfold askForIndex
  rw [run_bind, run_ask]
  rcases helper asked dir v with ⟨w, fault | _⟩
  · rfl
  · dsimp only
    rw [run_bind, run_attempt, peek_snd]
    rcases w.store.held dir with fault | _ | index | _ <;> rfl

theorem run_ensureIndex (helper : Helper View) (asked : List Path) (dir : Path) (v : View) :
    (ensureIndex dir).run helper asked v =
      match v.store.held dir with
      | .error fault => ⟨asked, (peek dir v).1, .error fault⟩
      | .ok (.index index) => ⟨asked, (peek dir v).1, .ok (some index)⟩
      | .ok _ => (askForIndex dir).run helper asked (peek dir v).1 := by
  unfold ensureIndex
  rw [run_bind, run_attempt, peek_snd]
  rcases v.store.held dir with fault | _ | index | _ <;> rfl

theorem run_volatileChild (helper : Helper View) (asked : List Path) (child : Path) (v : View) :
    (volatileChild child).run helper asked v =
      match helper asked child v with
      | (w, .error fault) => ⟨asked ++ [child], w, .error fault⟩
      | (w, .ok ()) => ⟨asked ++ [child], w, w.store.stat child >>= standing child⟩ := by
  unfold volatileChild
  rw [run_bind, run_ask]
  rcases helper asked child v with ⟨w, fault | _⟩
  · rfl
  · dsimp only
    rw [run_bind, run_stat]
    rcases w.store.stat child with fault | _ | ⟨kind, _, _, _⟩
    · rfl
    · rfl
    · cases kind <;> rfl

/-- What a step that looks a name up in an index asks for, and where it leads. -/
structure Advances (asked : List Path) (dir : Path) (name : String) (more : List Path)
    (e : Ending View Resolved) : Prop where
  asked : e.asked = asked ++ more
  place : ∀ x, e.result = .ok x → x.path = dir.extend name
  fresh : ∀ x, e.result = .ok x → x.volatile = true → e.asked.getLast? = some (dir.extend name)

/-- The rest of a step, once the index of the directory is known. -/
def childIn (dir : Path) (name : String) : Option Index → Resolver Resolved
  | none => fail (.notFound (dir.extend name).text)
  | some .dynamic => volatileChild (dir.extend name)
  | some (.listing entries) =>
    match (Index.listing entries).find? name with
    | none => fail (.notFound (dir.extend name).text)
    | some e => pure { path := dir.extend name, kind := .ofEntry e.kind, hint := some e }

/-- No directory has a name that leads out of it or that the cache keeps for itself. -/
theorem resolveChild_eq_fail (hname : name = ".." ∨ IsReserved name) :
    resolveChild dir name = fail (.notFound (dir.extend name).text) := by
  unfold resolveChild
  rw [if_pos hname]

theorem resolveChild_eq (hname : ¬ (name = ".." ∨ IsReserved name)) :
    resolveChild dir name = ensureIndex dir >>= childIn dir name := by
  unfold resolveChild
  rw [if_neg hname]
  congr 1

theorem advances_childIn (helper : Helper View) (asked : List Path) (dir : Path) (name : String)
    (v : View) (index : Option Index) :
    Advances asked dir name (if index = some .dynamic then [dir.extend name] else [])
      ((childIn dir name index).run helper asked v) := by
  rcases index with _ | _ | entries
  · exact ⟨(List.append_nil _).symm, nofun, nofun⟩
  · rw [if_pos rfl, childIn, run_volatileChild]
    rcases helper asked (dir.extend name) v with ⟨w, fault | _⟩
    · exact ⟨rfl, nofun, nofun⟩
    · refine ⟨rfl, fun x hx => ?_, fun x _ _ => List.getLast?_concat⟩
      change (w.store.stat (dir.extend name) >>= standing (dir.extend name)) = .ok x at hx
      cases hstat : w.store.stat (dir.extend name) with
      | error fault => rw [hstat] at hx; cases hx
      | ok found => rw [hstat] at hx; exact path_of_standing hx
  · rw [if_neg (by nofun), childIn]
    cases (Index.listing entries).find? name with
    | none => exact ⟨(List.append_nil _).symm, nofun, nofun⟩
    | some e =>
        refine ⟨(List.append_nil _).symm, ?_, ?_⟩
        · rintro x ⟨⟩
          rfl
        · rintro x ⟨⟩
          nofun

theorem Advances.cons {dir' : Path} {more : List Path} {e : Ending View Resolved}
    (h : Advances (asked ++ [dir']) dir name more e) : Advances asked dir name (dir' :: more) e :=
  ⟨by rw [h.asked, List.append_assoc]; rfl, h.place, h.fresh⟩

/-- A step asks for what `asksFor` says. -/
theorem advances_resolveChild (helper : Helper View) (asked : List Path) (v : View) (dir : Path)
    (hname : ¬ (name = ".." ∨ IsReserved name)) :
    Advances asked dir name (asksFor helper asked v dir (dir.extend name))
      ((resolveChild dir name).run helper asked v) := by
  have hanew (w : View) : Advances asked dir name (asksAnew helper asked w dir (dir.extend name))
      ((askForIndex dir >>= childIn dir name).run helper asked w) := by
    rw [run_bind, run_askForIndex]
    unfold asksAnew
    rcases helper asked dir w with ⟨u, fault | _⟩
    · exact ⟨rfl, nofun, nofun⟩
    · dsimp only
      rcases u.store.held dir with fault | _ | index | _
      · exact ⟨rfl, nofun, nofun⟩
      · exact (advances_childIn helper _ dir name _ none).cons
      · have h :=
          (advances_childIn helper (asked ++ [dir]) dir name (peek dir u).1 (some index)).cons
        cases index with
        | dynamic => exact h
        | listing entries => exact h
      · exact ⟨rfl, nofun, nofun⟩
  rw [resolveChild_eq hname, run_bind, run_ensureIndex]
  unfold asksFor
  rcases v.store.held dir with fault | _ | index | _
  · exact ⟨(List.append_nil _).symm, nofun, nofun⟩
  · have h := hanew (peek dir v).1
    rw [run_bind] at h
    exact h
  · have h := advances_childIn helper asked dir name (peek dir v).1 (some index)
    cases index with
    | dynamic => exact h
    | listing entries => exact h
  · have h := hanew (peek dir v).1
    rw [run_bind] at h
    exact h

/-! ### The walk -/

/-- One segment of a walk; built-in entries are only met at the root. -/
def into (atRoot : Bool) (x : Resolved) (name : String) : Resolver Resolved :=
  if x.kind.isDirectory then
    match (if atRoot then builtin? name else none) with
    | some kind => pure { path := x.path.extend name, kind }
    | none => resolveChild x.path name
  else fail (.notADirectory x.path.text)

/-- A segment leads to a child by the index of the directory, to a built-in entry, or nowhere. -/
theorem into_cases (atRoot : Bool) (x : Resolved) (name : String) :
    (x.kind.isDirectory = true ∧ (atRoot = true → builtin? name = none) ∧
      ¬ (name = ".." ∨ IsReserved name) ∧ into atRoot x name = resolveChild x.path name) ∨
    (∃ kind, atRoot = true ∧ builtin? name = some kind ∧
      into atRoot x name = pure { path := x.path.extend name, kind }) ∨
    ∃ fault, into atRoot x name = fail fault := by
  unfold into
  split
  · next hdir =>
      split
      · next kind hkind =>
          split at hkind
          · next hroot => exact .inr (.inl ⟨kind, hroot, hkind, rfl⟩)
          · cases hkind
      · next hnone =>
          by_cases hname : name = ".." ∨ IsReserved name
          · exact .inr (.inr ⟨_, resolveChild_eq_fail hname⟩)
          · refine .inl ⟨hdir, fun hroot => ?_, hname, rfl⟩
            rwa [if_pos hroot] at hnone
  · exact .inr (.inr ⟨_, rfl⟩)

theorem walk_concat (x : Resolved) (names : List String) (n : String) :
    walk x (names ++ [n]) = walk x names >>= fun y => into false y n := by
  induction names generalizing x with
  | nil =>
      rw [List.nil_append, walk, walk, pure_bind]
      unfold into
      split
      · exact bind_pure _
      · rfl
  | cons m rest ih =>
      rw [List.cons_append, walk, walk]
      split
      · rw [bind_assoc]
        congr 1
        funext y
        exact ih y
      · rfl

theorem walkFromRoot_extend (p : Path) {n : String} (hn : IsSegment n) :
    walkFromRoot (p.extend n) = walkFromRoot p >>= fun x => into p.isRoot x n := by
  unfold walkFromRoot
  rw [p.names_extend_of_isSegment hn, Path.isRoot]
  cases p.names with
  | nil =>
      change _ = into true top n
      have hdir : top.kind.isDirectory = true := rfl
      simp only [into, hdir, if_true, List.nil_append]
      cases builtin? n with
      | some kind => rfl
      | none => exact bind_pure _
  | cons m rest =>
      rw [List.cons_append]
      dsimp only
      cases hbuiltin : builtin? m with
      | none => exact walk_concat _ (m :: rest) n
      | some kind =>
          have hrest : (rest ++ [n]).isEmpty = false := by simp
          simp only [hrest, Bool.false_eq_true, if_false]
          cases rest with
          | nil =>
              have hkind : kind.isDirectory = false := not_isDirectory_of_builtin hbuiltin
              change _ = into false { path := Path.root.extend m, kind } n
              simp only [into, hkind, Bool.false_eq_true, if_false]
          | cons m' rest => rfl

end Resolver
end OnDemandFs
