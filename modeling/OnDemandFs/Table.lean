/-!
# Finite tables

A table is a list of rows with at most one row per key: `set` writes over the row of its key, or
adds one at the end. Rows keep their place, so a table also remembers the order of first entry.
-/
namespace OnDemandFs

abbrev Table (κ α : Type) := List (κ × α)

namespace Table

variable {κ α : Type} [DecidableEq κ]

def get? : Table κ α → κ → Option α
  | [], _ => none
  | (k, a) :: rest, key => if k = key then some a else get? rest key

def set : Table κ α → κ → α → Table κ α
  | [], key, value => [(key, value)]
  | (k, a) :: rest, key, value =>
    if k = key then (key, value) :: rest else (k, a) :: set rest key value

def erase (t : Table κ α) (key : κ) : Table κ α := t.filter fun row => row.1 ≠ key

def has (t : Table κ α) (key : κ) : Bool := (t.get? key).isSome

def keys (t : Table κ α) : List κ := t.map (·.1)

def values (t : Table κ α) : List α := t.map (·.2)

@[simp] theorem get?_nil (k : κ) : get? ([] : Table κ α) k = none := rfl

theorem get?_set_self (t : Table κ α) (k : κ) (a : α) : (t.set k a).get? k = some a := by
  induction t with
  | nil => simp [set, get?]
  | cons row rest ih =>
    obtain ⟨k', a'⟩ := row
    by_cases h : k' = k
    · simp [set, get?, h]
    · simp [set, get?, h, ih]

theorem get?_set_of_ne (t : Table κ α) {k k' : κ} (a : α) (h : k' ≠ k) :
    (t.set k a).get? k' = t.get? k' := by
  induction t with
  | nil => simp [set, get?, Ne.symm h]
  | cons row rest ih =>
    obtain ⟨j, b⟩ := row
    by_cases hj : j = k
    · subst hj; simp [set, get?, Ne.symm h]
    · by_cases hk : j = k'
      · subst hk; simp [set, get?, h]
      · simp [set, get?, hj, hk, ih]

theorem get?_erase_self (t : Table κ α) (k : κ) : (t.erase k).get? k = none := by
  induction t with
  | nil => rfl
  | cons row rest ih =>
    obtain ⟨j, b⟩ := row
    simp only [erase, List.filter_cons] at ih ⊢
    by_cases h : j = k <;> simp_all [get?]

theorem get?_erase_of_ne (t : Table κ α) {k k' : κ} (h : k' ≠ k) :
    (t.erase k).get? k' = t.get? k' := by
  induction t with
  | nil => rfl
  | cons row rest ih =>
    obtain ⟨j, b⟩ := row
    unfold erase at ih ⊢
    by_cases hj : j = k
    · subst hj
      rw [List.filter_cons_of_neg (by simp), ih]
      simp [get?, Ne.symm h]
    · rw [List.filter_cons_of_pos (by simpa using hj)]
      by_cases hk : j = k'
      · simp [get?, hk]
      · simpa [get?, hk] using ih

end Table
end OnDemandFs
