import OnDemandFs.Inquiry

/-!
# Running an operation against a helper

While a request is pending a helper may do anything to the state, and in the end it closes the
request or lets it fail. `Asking.run` plays an operation against such a helper, to the state and the
result it ends with and the paths that it asked for, with one equation for each way in which
operations are built.
-/
namespace OnDemandFs

/-- What becomes of the state while a path is asked for, and how the request ends. The helper knows
what was asked for before. -/
abbrev Helper (σ : Type) := List Path → Path → σ → σ × Except Fault Unit

/-- How an operation ended, and what was asked for until then. -/
structure Ending (σ α : Type) where
  asked : List Path
  state : σ
  result : Except Fault α

/-- A helper that closes every request. -/
def Helper.closing {σ : Type} (answer : List Path → Path → σ → σ) : Helper σ :=
  fun asked p s => (answer asked p s, .ok ())

namespace Inquiry

variable {σ α β : Type}

def run (helper : Helper σ) : List Path → Inquiry σ α → Ending σ α
  | asked, done s r => ⟨asked, s, r⟩
  | asked, asks s p resume =>
    match helper asked p s with
    | (s', .ok ()) => run helper (asked ++ [p]) (resume s')
    | (s', .error fault) => ⟨asked ++ [p], s', .error fault⟩

theorem andThen_done (i : Inquiry σ α) : (i.andThen fun a s => done s (.ok a)) = i := by
  induction i with
  | done s r => cases r <;> rfl
  | asks s p resume ih =>
      simp only [andThen]
      congr 1
      funext s'
      exact ih s'

theorem andThen_assoc {γ : Type} (f : α → Asking σ β) (g : β → Asking σ γ) (i : Inquiry σ α) :
    (i.andThen f).andThen g = i.andThen fun a s => (f a s).andThen g := by
  induction i with
  | done s r => cases r <;> rfl
  | asks s p resume ih =>
      simp only [andThen]
      congr 1
      funext s'
      exact ih s'

theorem run_andThen (helper : Helper σ) (f : α → Asking σ β) (i : Inquiry σ α) (asked : List Path) :
    (i.andThen f).run helper asked =
      match i.run helper asked with
      | ⟨asked', s, .ok a⟩ => (f a s).run helper asked'
      | ⟨asked', s, .error fault⟩ => ⟨asked', s, .error fault⟩ := by
  induction i generalizing asked with
  | done s r => cases r <;> rfl
  | asks s p resume ih =>
      simp only [andThen, run]
      rcases helper asked p s with ⟨s', r⟩
      cases r with
      | ok => exact ih s' _
      | error fault => rfl

theorem asked_prefix_run (helper : Helper σ) (i : Inquiry σ α) (asked : List Path) :
    asked <+: (i.run helper asked).asked := by
  induction i generalizing asked with
  | done s r => exact List.prefix_rfl
  | asks s p resume ih =>
      have happend : asked <+: asked ++ [p] := List.prefix_append asked [p]
      simp only [run]
      rcases helper asked p s with ⟨s', fault | _⟩
      · exact happend
      · exact happend.trans (ih s' _)

/-- What asks for nothing is over. -/
theorem eq_done_of_asked_eq_nil {helper : Helper σ} {i : Inquiry σ α}
    (h : (i.run helper []).asked = []) :
    i = .done (i.run helper []).state (i.run helper []).result := by
  cases i with
  | done s r => rfl
  | asks s p resume =>
      have hmem : p ∈ ((asks s p resume).run helper []).asked := by
        simp only [run]
        rcases helper [] p s with ⟨s', fault | _⟩
        · exact List.mem_singleton_self p
        · exact (asked_prefix_run helper (resume s') _).subset (List.mem_singleton_self p)
      rw [h] at hmem
      cases hmem

theorem eq_done_of_run {helper : Helper σ} {i : Inquiry σ α} {s : σ} {r : Except Fault α}
    (h : i.run helper [] = ⟨[], s, r⟩) : i = .done s r := by
  rw [eq_done_of_asked_eq_nil (congrArg Ending.asked h), h]

/-- A helper that is asked for nothing makes no difference. -/
theorem run_eq_of_asked_eq_nil {helper : Helper σ} {i : Inquiry σ α}
    (h : (i.run helper []).asked = []) (helper' : Helper σ) :
    i.run helper [] = i.run helper' [] := by
  rw [eq_done_of_asked_eq_nil h]
  rfl

theorem runWith_eq (answer : List Path → Path → σ → σ) (i : Inquiry σ α) (asked : List Path) :
    i.runWith answer asked =
      ((i.run (.closing answer) asked).asked, (i.run (.closing answer) asked).state,
        (i.run (.closing answer) asked).result) := by
  induction i generalizing asked with
  | done s r => rfl
  | asks s p resume ih => exact ih _ _

end Inquiry

namespace Asking

instance {σ : Type} : LawfulMonad (Asking σ) :=
  LawfulMonad.mk' (Asking σ) (fun m => funext fun s => Inquiry.andThen_done (m s))
    (fun _ _ => rfl) (fun m f g => funext fun s => Inquiry.andThen_assoc f g (m s))

variable {σ α β : Type} {helper : Helper σ} {asked : List Path} {s : σ}

def run (helper : Helper σ) (asked : List Path) (m : Asking σ α) (s : σ) : Ending σ α :=
  (m s).run helper asked

theorem runWith_eq_run (answer : List Path → Path → σ → σ) (m : Asking σ α) (asked : List Path)
    (s : σ) : (m s).runWith answer asked =
      ((m.run (.closing answer) asked s).asked, (m.run (.closing answer) asked s).state,
        (m.run (.closing answer) asked s).result) :=
  Inquiry.runWith_eq answer (m s) asked

theorem run_bind (m : Asking σ α) (f : α → Asking σ β) :
    (m >>= f).run helper asked s =
      match m.run helper asked s with
      | ⟨asked', s', .ok a⟩ => (f a).run helper asked' s'
      | ⟨asked', s', .error fault⟩ => ⟨asked', s', .error fault⟩ :=
  Inquiry.run_andThen helper f (m s) asked

theorem run_bind_of_ok {m : Asking σ α} {a : α} (h : (m.run helper asked s).result = .ok a)
    (f : α → Asking σ β) : (m >>= f).run helper asked s =
      (f a).run helper (m.run helper asked s).asked (m.run helper asked s).state := by
  rw [run_bind]
  revert h
  rcases m.run helper asked s with ⟨asked', s', result⟩
  rintro rfl
  rfl

theorem run_bind_of_error {m : Asking σ α} {fault : Fault}
    (h : (m.run helper asked s).result = .error fault) (f : α → Asking σ β) :
    (m >>= f).run helper asked s =
      ⟨(m.run helper asked s).asked, (m.run helper asked s).state, .error fault⟩ := by
  rw [run_bind]
  revert h
  rcases m.run helper asked s with ⟨asked', s', result⟩
  rintro rfl
  rfl

/-- What was asked for stays asked for. -/
theorem asked_prefix_bind (m : Asking σ α) (f : α → Asking σ β) :
    (m.run helper asked s).asked <+: ((m >>= f).run helper asked s).asked := by
  cases hresult : (m.run helper asked s).result with
  | error fault =>
      rewrite [run_bind_of_error hresult]
      exact List.prefix_rfl
  | ok a =>
      rw [run_bind_of_ok hresult]
      exact Inquiry.asked_prefix_run helper _ _

@[simp] theorem run_pure (a : α) : (pure a : Asking σ α).run helper asked s = ⟨asked, s, .ok a⟩ :=
  rfl

@[simp] theorem run_fail (fault : Fault) :
    (fail fault : Asking σ α).run helper asked s = ⟨asked, s, .error fault⟩ := rfl

@[simp] theorem run_get : get.run helper asked s = ⟨asked, s, .ok s⟩ := rfl

@[simp] theorem run_lift (r : Except Fault α) :
    (lift r : Asking σ α).run helper asked s = ⟨asked, s, r⟩ := rfl

@[simp] theorem run_act (f : σ → σ × α) :
    (act f).run helper asked s = ⟨asked, (f s).1, .ok (f s).2⟩ := rfl

@[simp] theorem run_attempt (f : σ → σ × Except Fault α) :
    (attempt f).run helper asked s = ⟨asked, (f s).1, (f s).2⟩ := rfl

@[simp] theorem run_ask (p : Path) :
    (ask p).run helper asked s = ⟨asked ++ [p], (helper asked p s).1, (helper asked p s).2⟩ := by
  change (Inquiry.asks s p fun s' => Inquiry.done s' (.ok ())).run helper asked = _
  simp only [Inquiry.run]
  rcases helper asked p s with ⟨s', r⟩
  cases r <;> rfl

/-- Nothing is asked for. -/
def IsSilent (m : Asking σ α) : Prop := ∀ helper asked s, (m.run helper asked s).asked = asked

theorem isSilent_pure (a : α) : IsSilent (pure a : Asking σ α) := fun _ _ _ => rfl

theorem isSilent_get : IsSilent (get : Asking σ σ) := fun _ _ _ => rfl

theorem isSilent_attempt (f : σ → σ × Except Fault α) : IsSilent (attempt f) := fun _ _ _ => rfl

theorem isSilent_act (f : σ → σ × α) : IsSilent (act f) := fun _ _ _ => rfl

theorem isSilent_lift (r : Except Fault α) : IsSilent (lift r : Asking σ α) := fun _ _ _ => rfl

/-- What follows in silence adds no request. -/
theorem asked_bind_of_isSilent {f : α → Asking σ β} (hf : ∀ a, IsSilent (f a)) (m : Asking σ α) :
    ((m >>= f).run helper asked s).asked = (m.run helper asked s).asked := by
  cases hresult : (m.run helper asked s).result with
  | error fault => rw [run_bind_of_error hresult]
  | ok a => rw [run_bind_of_ok hresult, hf a helper]

theorem IsSilent.bind {m : Asking σ α} {f : α → Asking σ β} (hm : IsSilent m)
    (hf : ∀ a, IsSilent (f a)) : IsSilent (m >>= f) := by
  intro helper asked s
  rw [asked_bind_of_isSilent hf, hm helper asked s]

theorem IsSilent.mapM {f : α → Asking σ β} (hf : ∀ a, IsSilent (f a)) (l : List α) :
    IsSilent (l.mapM f) := by
  induction l with
  | nil => exact isSilent_pure []
  | cons a l ih =>
      rw [List.mapM_cons]
      exact (hf a).bind fun b => ih.bind fun bs => isSilent_pure (b :: bs)

end Asking
end OnDemandFs
