import OnDemandFs.Table
import Mathlib.Data.List.Nodup
import Mathlib.Data.List.Perm.Basic
import Mathlib.Tactic.SplitIfs
import Mathlib.Tactic.Tauto

/-!
# The keys of a table

Writing a row adds its key and no other, and taking rows away adds none, so a table keeps to one row
per key; then what is found under a key is the row that the table has for it.
-/
namespace OnDemandFs

namespace Table

variable {κ α : Type} [DecidableEq κ]

theorem mem_keys_set (t : Table κ α) (k : κ) (a : α) (j : κ) :
    j ∈ (t.set k a).keys ↔ j ∈ t.keys ∨ j = k := by
  induction t with
  | nil => simp [set, keys]
  | cons row rest ih =>
      obtain ⟨i, b⟩ := row
      simp only [keys] at ih
      by_cases h : i = k
      · subst h
        simp only [set, keys, if_true, List.map_cons, List.mem_cons]
        tauto
      · simp only [set, if_neg h, keys, List.map_cons, List.mem_cons, ih, or_assoc]

theorem nodup_keys_set {t : Table κ α} (h : t.keys.Nodup) (k : κ) (a : α) :
    (t.set k a).keys.Nodup := by
  induction t with
  | nil => simp [set, keys]
  | cons row rest ih =>
      obtain ⟨i, b⟩ := row
      simp only [keys, List.map_cons, List.nodup_cons] at h
      by_cases hi : i = k
      · subst hi
        simpa [set, keys] using h
      · have hk : i ∉ keys (set rest k a) := by
          rw [mem_keys_set]
          simpa [hi, keys] using h.1
        simp only [set, if_neg hi]
        exact List.nodup_cons.mpr ⟨hk, ih h.2⟩

theorem mem_of_mem_set {t : Table κ α} {k : κ} {a : α} {row : κ × α} (h : row ∈ t.set k a) :
    row ∈ t ∨ row = (k, a) := by
  induction t with
  | nil => exact .inr (List.mem_singleton.mp h)
  | cons first rest ih =>
      unfold set at h
      split_ifs at h with hk
      · rcases List.mem_cons.mp h with rfl | hrest
        · exact .inr rfl
        · exact .inl (List.mem_cons_of_mem _ hrest)
      · rcases List.mem_cons.mp h with rfl | hrest
        · exact .inl List.mem_cons_self
        · exact (ih hrest).imp_left (List.mem_cons_of_mem _)

theorem nodup_keys_erase {t : Table κ α} (h : t.keys.Nodup) (k : κ) : (t.erase k).keys.Nodup :=
  h.sublist (List.filter_sublist.map _)

theorem get?_set (t : Table κ α) (k : κ) (a : α) (j : κ) :
    (t.set k a).get? j = if j = k then some a else t.get? j := by
  split_ifs with h
  · rw [h, get?_set_self]
  · exact get?_set_of_ne t a h

theorem get?_erase (t : Table κ α) (k j : κ) :
    (t.erase k).get? j = if j = k then none else t.get? j := by
  split_ifs with h
  · rw [h, get?_erase_self]
  · exact get?_erase_of_ne t h

theorem mem_of_get? {t : Table κ α} {k : κ} {a : α} (h : t.get? k = some a) : (k, a) ∈ t := by
  induction t with
  | nil => cases h
  | cons row rest ih =>
      obtain ⟨i, b⟩ := row
      unfold get? at h
      split_ifs at h with hi
      · cases h
        rw [hi]
        exact List.mem_cons_self
      · exact List.mem_cons_of_mem _ (ih h)

/-- A table with one row per key finds just its rows. -/
theorem get?_eq_some_iff {t : Table κ α} (h : t.keys.Nodup) {k : κ} {a : α} :
    t.get? k = some a ↔ (k, a) ∈ t := by
  induction t with
  | nil => simp
  | cons row rest ih =>
      obtain ⟨k', a'⟩ := row
      have hkeys : k' ∉ rest.map (·.1) ∧ (rest.map (·.1)).Nodup := List.nodup_cons.mp h
      have ih := ih hkeys.2
      unfold get?
      by_cases hk : k' = k
      · subst hk
        have hfresh : (k', a) ∉ rest := fun hmem => hkeys.1 (List.mem_map.mpr ⟨_, hmem, rfl⟩)
        simp [hfresh, eq_comm]
      · have hne : ¬ (k = k' ∧ a = a') := fun heq => hk heq.1.symm
        simp [hk, hne, ih]

/-! ### Rows -/

theorem get?_eq_none_iff {t : Table κ α} {k : κ} : t.get? k = none ↔ k ∉ t.keys := by
  induction t with
  | nil => simp [keys]
  | cons row rest ih =>
      obtain ⟨i, b⟩ := row
      by_cases hi : i = k
      · simp [get?, keys, hi]
      · simp only [get?, if_neg hi, ih, keys, List.map_cons, List.mem_cons, not_or]
        exact ⟨fun h => ⟨Ne.symm hi, h⟩, fun h => h.2⟩

theorem erase_of_get?_none {t : Table κ α} {k : κ} (h : t.get? k = none) : t.erase k = t := by
  rw [get?_eq_none_iff] at h
  unfold erase
  rw [List.filter_eq_self]
  intro row hrow
  have hne : row.1 ≠ k := fun heq => h (heq ▸ List.mem_map_of_mem hrow)
  simpa using hne

theorem erase_set (t : Table κ α) (k : κ) (a : α) : (t.set k a).erase k = t.erase k := by
  induction t with
  | nil => simp [set, erase]
  | cons row rest ih =>
      obtain ⟨i, b⟩ := row
      by_cases hi : i = k
      · simp [set, erase, hi]
      · simp only [set, if_neg hi, erase, List.filter_cons] at ih ⊢
        rw [ih]

/-- Taking a row away leaves all the others. -/
theorem perm_erase {t : Table κ α} (h : t.keys.Nodup) {k : κ} {a : α} (hk : t.get? k = some a) :
    t.Perm ((k, a) :: t.erase k) := by
  induction t with
  | nil => cases hk
  | cons row rest ih =>
      obtain ⟨i, b⟩ := row
      obtain ⟨hfresh, hrest⟩ := List.nodup_cons.mp h
      by_cases hi : i = k
      · subst hi
        simp only [get?, if_true, Option.some.injEq] at hk
        subst hk
        have habsent : get? rest i = none := get?_eq_none_iff.mpr hfresh
        simp only [erase, List.filter_cons, ne_eq, not_true_eq_false, decide_false]
        exact .of_eq (congrArg ((i, b) :: ·) (erase_of_get?_none habsent).symm)
      · simp only [get?, if_neg hi] at hk
        have hkeep : erase ((i, b) :: rest) k = (i, b) :: erase rest k := by
          simp [erase, hi]
        rw [hkeep]
        exact ((ih hrest hk).cons (i, b)).trans (.swap _ _ _)

/-- Writing a row leaves all the others. -/
theorem perm_set {t : Table κ α} (h : t.keys.Nodup) (k : κ) (a : α) :
    (t.set k a).Perm ((k, a) :: t.erase k) := by
  have hself := perm_erase (nodup_keys_set h k a) (get?_set_self t k a)
  rwa [erase_set] at hself

theorem countP_values_of_get? {t : Table κ α} (h : t.keys.Nodup) {k : κ} {a : α}
    (hk : t.get? k = some a) (p : α → Bool) :
    t.values.countP p = (t.erase k).values.countP p + if p a then 1 else 0 := by
  have hperm := (perm_erase h hk).map (·.2)
  exact (hperm.countP_eq p).trans List.countP_cons

theorem countP_values_set {t : Table κ α} (h : t.keys.Nodup) (k : κ) (a : α) (p : α → Bool) :
    (t.set k a).values.countP p = (t.erase k).values.countP p + if p a then 1 else 0 := by
  have hperm := (perm_set h k a).map (·.2)
  exact (hperm.countP_eq p).trans List.countP_cons

theorem countP_values_set_of_none {t : Table κ α} (h : t.keys.Nodup) {k : κ} (hk : t.get? k = none)
    (a : α) (p : α → Bool) :
    (t.set k a).values.countP p = t.values.countP p + if p a then 1 else 0 := by
  rw [countP_values_set h, erase_of_get?_none hk]

end Table

end OnDemandFs
