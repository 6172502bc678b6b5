/-!
# Cutting at a separator

A text is cut at every slash. The pieces of a list that is cut at a separator have nothing of the
separator, and they have whatever else the list has.
-/
namespace OnDemandFs

variable {α : Type} {a sep : α} {l piece : List α}

theorem eq_false_of_mem_splitOnP {p : α → Bool} (h : piece ∈ l.splitOnP p) :
    ∀ a ∈ piece, p a = false := by
  induction l generalizing piece with
  | nil =>
      rw [List.splitOnP_nil, List.mem_singleton] at h
      subst h
      nofun
  | cons b rest ih =>
      rw [List.splitOnP_cons_eq_if_modifyHead] at h
      split at h
      · rcases List.mem_cons.mp h with rfl | h
        · nofun
        · exact ih h
      · next hb =>
          obtain ⟨first, more, hcut⟩ := List.exists_cons_of_ne_nil (List.splitOnP_ne_nil p rest)
          rw [hcut, List.modifyHead_cons] at h
          rcases List.mem_cons.mp h with rfl | h
          · intro a ha
            rcases List.mem_cons.mp ha with rfl | ha
            · exact eq_false_of_ne_true hb
            · exact ih (hcut ▸ List.mem_cons_self) a ha
          · exact ih (hcut ▸ List.mem_cons_of_mem _ h)

variable [BEq α] [LawfulBEq α]

theorem not_mem_of_mem_splitOn (h : piece ∈ l.splitOn sep) : sep ∉ piece := by
  rw [List.splitOn_eq_splitOnP] at h
  intro hsep
  simpa using eq_false_of_mem_splitOnP h sep hsep

theorem mem_splitOn_iff (ha : a ≠ sep) : (∃ piece ∈ l.splitOn sep, a ∈ piece) ↔ a ∈ l := by
  have hjoined (pieces : List (List α)) :
      a ∈ [sep].intercalate pieces ↔ ∃ piece ∈ pieces, a ∈ piece := by
    induction pieces with
    | nil => simp [List.intercalate]
    | cons piece rest ih =>
        cases rest with
        | nil => simp [List.intercalate]
        | cons next rest =>
            rw [List.intercalate_cons_cons, List.mem_append, List.mem_append, ih]
            simp [ha]
  rw [← hjoined, List.intercalate_splitOn]

end OnDemandFs
