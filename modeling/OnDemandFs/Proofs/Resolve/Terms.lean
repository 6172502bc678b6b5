import OnDemandFs.Proofs.Resolve.Calm

/-!
# Terms on which paths are asked for

An operation that asks gives the state away and finds it changed. `Terms` says what it owes the
helper when it asks and what it may count on afterwards. `Meets` says that on these terms each way
through the operation ends as promised, whatever the helper does within them. There is one rule for
each way in which operations are built, and `Meets.run` carries the promise over to any run.

The simplest promise is that a relation between views holds from the start to every request and to
the end. Operations that leave the cache alone but for the requests promise this of every relation
that takes in calm times: they are `IsCalm`.
-/
namespace OnDemandFs

/-- What holds of the state when a path is asked for, and of the state that is found afterwards, the
request having been closed or having failed. -/
structure Terms (σ : Type) where
  owed : σ → Path → Prop
  granted : σ → Path → σ → Prop
  refused : σ → Path → σ → Fault → Prop

/-- What the helper does when a path is asked for is within the terms. -/
structure Terms.Kept {σ : Type} (t : Terms σ) (s : σ) (p : Path)
    (outcome : σ × Except Fault Unit) : Prop where
  granted : outcome.2 = .ok () → t.granted s p outcome.1
  refused : ∀ fault, outcome.2 = .error fault → t.refused s p outcome.1 fault

namespace Inquiry
variable {σ α β : Type} {t : Terms σ} {P Q : σ → Except Fault α → Prop}

/-- Every way through the inquiry that the terms leave open ends as promised. -/
def Meets (t : Terms σ) (P : σ → Except Fault α → Prop) : Inquiry σ α → Prop
  | done s r => P s r
  | asks s p resume =>
    t.owed s p ∧ (∀ s', t.granted s p s' → (resume s').Meets t P) ∧
      ∀ s' fault, t.refused s p s' fault → P s' (.error fault)

theorem Meets.mono {i : Inquiry σ α} (h : i.Meets t P) (hPQ : ∀ s r, P s r → Q s r) :
    i.Meets t Q := by
  induction i with
  | done s r => exact hPQ s r h
  | asks s p resume ih =>
      obtain ⟨howed, hresume, hfail⟩ := h
      exact ⟨howed, fun s' hs' => ih s' (hresume s' hs'), fun s' fault hs' =>
        hPQ s' _ (hfail s' fault hs')⟩

theorem Meets.andThen {R : σ → Except Fault β → Prop} {f : α → Asking σ β} {i : Inquiry σ α}
    (h : i.Meets t P) (hok : ∀ s a, P s (.ok a) → (f a s).Meets t R)
    (herror : ∀ s fault, P s (.error fault) → R s (.error fault)) : (i.andThen f).Meets t R := by
  induction i with
  | done s r =>
      cases r with
      | ok a => exact hok s a h
      | error fault => exact herror s fault h
  | asks s p resume ih =>
      obtain ⟨howed, hresume, hfail⟩ := h
      exact ⟨howed, fun s' hs' => ih s' (hresume s' hs'), fun s' fault hs' =>
        herror s' fault (hfail s' fault hs')⟩

/-- A helper that keeps to the terms, for the paths that it is asked for, brings about what was
promised. -/
theorem Meets.run {i : Inquiry σ α} (h : i.Meets t P) {helper : Helper σ} {asked : List Path}
    (hhelper : ∀ earlier s p, p ∈ (i.run helper asked).asked → t.owed s p →
      t.Kept s p (helper earlier p s)) :
    P (i.run helper asked).state (i.run helper asked).result := by
  induction i generalizing asked with
  | done s r => exact h
  | asks s p resume ih =>
      obtain ⟨howed, hresume, hfail⟩ := h
      have hmem : p ∈ ((asks s p resume).run helper asked).asked := by
        simp only [Inquiry.run]
        rcases helper asked p s with ⟨s', fault | _⟩
        · exact List.mem_append_right _ (List.mem_singleton_self p)
        · refine (asked_prefix_run helper (resume s') (asked ++ [p])).subset ?_
          exact List.mem_append_right _ (List.mem_singleton_self p)
      have hkept := hhelper asked s p hmem howed
      simp only [Inquiry.run] at hhelper ⊢
      revert hhelper hkept
      rcases helper asked p s with ⟨s', fault | _⟩
      · exact fun hkept _ => hfail s' fault (hkept.refused fault rfl)
      · exact fun hkept hhelper => ih s' (hresume s' (hkept.granted rfl)) hhelper

end Inquiry

namespace Asking
variable {σ α β : Type} {t : Terms σ} {P : σ → Except Fault α → Prop} {s : σ}

theorem meets_bind {R : σ → Except Fault β → Prop} {m : Asking σ α} {f : α → Asking σ β}
    (h : (m s).Meets t P) (hok : ∀ u a, P u (.ok a) → (f a u).Meets t R)
    (herror : ∀ u fault, P u (.error fault) → R u (.error fault)) : ((m >>= f) s).Meets t R :=
  h.andThen hok herror

theorem meets_ask {p : Path} {P : σ → Except Fault Unit → Prop} (howed : t.owed s p)
    (hgranted : ∀ u, t.granted s p u → P u (.ok ()))
    (hrefused : ∀ u fault, t.refused s p u fault → P u (.error fault)) : (ask p s).Meets t P :=
  ⟨howed, hgranted, hrefused⟩

/-- Element by element, with an invariant of the state and a view of what comes of each element. -/
theorem meets_mapM {γ : Type} {f : α → Asking σ β} {I : σ → Prop} {g : β → γ} {k : α → γ}
    {l : List α} (hf : ∀ a ∈ l, ∀ u, I u → (f a u).Meets t fun w r =>
      I w ∧ ∃ b, r = .ok b ∧ g b = k a) (hs : I s) :
    (l.mapM f s).Meets t fun w r => I w ∧ ∃ bs, r = .ok bs ∧ bs.map g = l.map k := by
  induction l generalizing s with
  | nil => exact ⟨hs, [], rfl, rfl⟩
  | cons a l ih =>
      rw [List.mapM_cons]
      refine meets_bind (hf a List.mem_cons_self s hs) (fun u b hu => ?_) fun u fault hu => ?_
      · obtain ⟨hIu, b', hb, hview⟩ := hu
        cases hb
        have hrest := ih (fun a ha => hf a (List.mem_cons_of_mem _ ha)) hIu
        refine meets_bind hrest (fun w bs hw => ?_) fun w fault hw => ?_
        · obtain ⟨hIw, bs', hbs, hviews⟩ := hw
          cases hbs
          exact ⟨hIw, _, rfl, by rw [List.map_cons, hview, hviews, List.map_cons]⟩
        · obtain ⟨-, _, hbs, -⟩ := hw
          cases hbs
      · obtain ⟨-, _, hb, -⟩ := hu
        cases hb

end Asking

/-- From the view `v` on: the relation to `v` holds whenever a path is asked for and at the end, if
no helper breaks it. -/
def Terms.along (R : View → View → Prop) (v : View) : Terms View where
  owed w _ := R v w
  granted w _ u := R w u
  refused w _ u _ := R w u

namespace Resolver

open Asking

variable {α β : Type}

/-- But for its requests the operation leaves the cache as it is. -/
def IsCalm (m : Resolver α) : Prop :=
  ∀ (R : View → View → Prop), (∀ u v w, R u v → R v w → R u w) → (∀ v w, v.Calm w → R v w) →
    ∀ v w, R v w → (m w).Meets (.along R v) fun u _ => R v u

theorem isCalm_attempt {f : View → View × Except Fault α} (hf : ∀ v : View, v.Calm (f v).1) :
    IsCalm (attempt f) :=
  fun _ htrans hcalm v w hvw => htrans v w _ hvw (hcalm w _ (hf w))

theorem isCalm_act {f : View → View × α} (hf : ∀ v : View, v.Calm (f v).1) : IsCalm (act f) :=
  fun _ htrans hcalm v w hvw => htrans v w _ hvw (hcalm w _ (hf w))

theorem isCalm_pure (a : α) : IsCalm (pure a) := fun _ _ _ _ _ hvw => hvw

theorem isCalm_fail (fault : Fault) : IsCalm (fail fault : Resolver α) := fun _ _ _ _ _ hvw => hvw

theorem isCalm_get : IsCalm (get : Resolver View) := fun _ _ _ _ _ hvw => hvw

theorem isCalm_lift (r : Except Fault α) : IsCalm (lift r : Resolver α) := fun _ _ _ _ _ hvw => hvw

theorem isCalm_stat (p : Path) : IsCalm (stat p) := fun _ _ _ _ _ hvw => hvw

theorem isCalm_ask (p : Path) : IsCalm (ask p) :=
  fun _ htrans _ v w hvw => ⟨hvw, fun u hwu => htrans v w u hvw hwu, fun u _ hwu =>
    htrans v w u hvw hwu⟩

theorem IsCalm.bind {m : Resolver α} {f : α → Resolver β} (hm : IsCalm m)
    (hf : ∀ a, IsCalm (f a)) : IsCalm (m >>= f) := by
  intro R htrans hcalm v w hvw
  refine (hm R htrans hcalm v w hvw).andThen (fun u a hvu => ?_) fun _ _ hvu => hvu
  exact hf a R htrans hcalm v u hvu

/-- What the helper keeps while paths are asked for is kept from the start to the end. -/
theorem IsCalm.run {m : Resolver α} (hm : IsCalm m) {R : View → View → Prop}
    (htrans : ∀ u v w, R u v → R v w → R u w) (hcalm : ∀ v w, v.Calm w → R v w)
    {helper : Helper View} {asked : List Path} {v : View}
    (hhelper : ∀ earlier w p, p ∈ (m.run helper asked v).asked → R w (helper earlier p w).1) :
    R v (m.run helper asked v).state := by
  have hmeets := hm R htrans hcalm v v (hcalm v v (.refl v))
  refine hmeets.run fun earlier w p hp _ => ?_
  exact ⟨fun _ => hhelper earlier w p hp, fun _ _ => hhelper earlier w p hp⟩

variable {dir p : Path} {name : String}

theorem isCalm_peek (dir : Path) : IsCalm (attempt (peek dir)) := isCalm_attempt (calm_peek dir)

theorem isCalm_askForIndex (dir : Path) : IsCalm (askForIndex dir) :=
  (isCalm_ask dir).bind fun _ => (isCalm_peek dir).bind fun held => by
    cases held with
    | index index => exact isCalm_pure _
    | absent => exact isCalm_pure _
    | foreign => exact isCalm_fail _

theorem isCalm_ensureIndex (dir : Path) : IsCalm (ensureIndex dir) :=
  (isCalm_peek dir).bind fun held => by
    cases held with
    | index index => exact isCalm_pure _
    | absent => exact isCalm_askForIndex dir
    | foreign => exact isCalm_askForIndex dir

theorem isCalm_volatileChild (child : Path) : IsCalm (volatileChild child) :=
  (isCalm_ask child).bind fun _ => (isCalm_stat child).bind fun found => by
    rcases found with _ | ⟨kind, _, _, _⟩
    · exact isCalm_fail _
    · cases kind with
      | file => exact isCalm_pure _
      | directory => exact isCalm_pure _
      | other => exact isCalm_fail _

theorem isCalm_resolveChild (dir : Path) (name : String) : IsCalm (resolveChild dir name) := by
  unfold resolveChild
  dsimp only
  split
  · exact isCalm_fail _
  · refine (isCalm_ensureIndex dir).bind fun index => ?_
    rcases index with _ | _ | entries
    · exact isCalm_fail _
    · exact isCalm_volatileChild _
    · dsimp only
      split
      · exact isCalm_fail _
      · exact isCalm_pure _

theorem isCalm_walk (x : Resolved) (names : List String) : IsCalm (walk x names) := by
  induction names generalizing x with
  | nil => exact isCalm_pure x
  | cons n rest ih =>
      unfold walk
      split
      · exact (isCalm_resolveChild x.path n).bind fun y => ih y
      · exact isCalm_fail _

theorem isCalm_walkFromRoot (p : Path) : IsCalm (walkFromRoot p) := by
  unfold walkFromRoot
  split
  · exact isCalm_pure _
  · split
    · split
      · exact isCalm_pure _
      · exact isCalm_fail _
    · exact isCalm_walk _ _

theorem calm_directoryKind (dir : Path) (v : View) : v.Calm (directoryKind dir v).1 := by
  unfold directoryKind
  have hpeek := calm_peek dir v
  revert hpeek
  rcases peek dir v with ⟨w, fault | _ | (_ | _) | _⟩ <;> exact id

theorem isCalm_resolve (p : Path) : IsCalm (resolve p) :=
  (isCalm_walkFromRoot p).bind fun x => by
    split
    · exact (isCalm_attempt (calm_directoryKind x.path)).bind fun _ => isCalm_pure _
    · exact isCalm_pure x

theorem isCalm_lookup (p : Path) : IsCalm (lookup p) :=
  (isCalm_resolve p).bind fun x => isCalm_get.bind fun _ => (isCalm_lift _).bind fun _ =>
    (isCalm_act (calm_identify x.path)).bind fun _ => isCalm_pure _

end Resolver
end OnDemandFs
