import OnDemandFs.Identity
import Mathlib.Data.List.Basic

/-!
# Numbers stay

The number of a path is its place in the table of what was shown, and tables only grow at the end.
So a path keeps its number, and asking for it again gives the same one.
-/
namespace OnDemandFs.Identities
variable {t u : Identities} {p : Path} {id : NodeId}

theorem idOf?_eq_some_iff : t.idOf? p = some id ↔ p ∈ t.shown ∧ t.shown.idxOf p + 1 = id := by
  unfold idOf?
  cases hpos : t.shown.idxOf? p with
  | none =>
      have hmem : p ∉ t.shown := List.idxOf?_eq_none_iff.mp hpos
      simp [hmem]
  | some i =>
      have hmem : p ∈ t.shown := by
        rw [← List.isSome_idxOf?, hpos]
        rfl
      have hi : t.shown.idxOf p = i := by rw [List.idxOf_eq_getD_idxOf?, hpos]; rfl
      simp [hmem, hi]

theorem idOf?_assign (t : Identities) (p : Path) :
    (t.assign p).2.idOf? p = some (t.assign p).1 := by
  rw [idOf?_eq_some_iff]
  unfold assign
  split
  · next h => exact ⟨h, rfl⟩
  · next h => exact ⟨by simp [add], by simp [add, List.idxOf_append_of_notMem h]⟩

/-- Showing a path keeps what was shown, in its place. -/
theorem shown_prefix_assign (t : Identities) (p : Path) : t.shown <+: (t.assign p).2.shown := by
  unfold assign
  split
  · exact List.prefix_rfl
  · exact List.prefix_append _ _

theorem idOf?_of_shown_prefix (h : t.shown <+: u.shown) (hid : t.idOf? p = some id) :
    u.idOf? p = some id := by
  obtain ⟨more, hu⟩ := h
  rw [idOf?_eq_some_iff] at hid ⊢
  obtain ⟨hmem, hpos⟩ := hid
  rw [← hu, List.idxOf_append_of_mem hmem]
  exact ⟨List.mem_append_left _ hmem, hpos⟩

/-- The path shown under a number is the one that has it. -/
theorem pathOf?_eq_some_iff : t.pathOf? id = some p ↔ t.idOf? p = some id := by
  rw [idOf?_eq_some_iff]
  cases id with
  | zero => simp [pathOf?]
  | succ n =>
      change t.shown[n]? = some p ↔ _
      constructor
      · intro h
        obtain ⟨hn, rfl⟩ := List.getElem?_eq_some_iff.mp h
        exact ⟨List.getElem_mem hn, by rw [t.nodup.idxOf_getElem n hn]⟩
      · rintro ⟨hmem, hpos⟩
        have hn : t.shown.idxOf p = n := by omega
        rw [← hn]
        exact List.getElem?_idxOf hmem

theorem idOf?_root (t : Identities) : t.idOf? .root = some rootId := by
  rw [← pathOf?_eq_some_iff]
  change t.shown[0]? = some .root
  rw [← List.head?_eq_getElem?]
  exact t.root_first

/-- The numbers run from one to the count. -/
theorem exists_pathOf?_iff : (∃ p, t.pathOf? id = some p) ↔ 1 ≤ id ∧ id ≤ t.count := by
  cases id with
  | zero => simp [pathOf?]
  | succ n =>
      change (∃ p, t.shown[n]? = some p) ↔ 1 ≤ n + 1 ∧ n + 1 ≤ t.shown.length
      rw [← Option.ne_none_iff_exists', Ne, List.getElem?_eq_none_iff]
      omega

theorem mem_shown_assign {q : Path} (h : q ∈ (t.assign p).2.shown) : q ∈ t.shown ∨ q = p := by
  unfold assign at h
  split at h
  · exact .inl h
  · simpa [add] using h

theorem assign_of_idOf? (h : t.idOf? p = some id) : t.assign p = (id, t) := by
  obtain ⟨hmem, hpos⟩ := idOf?_eq_some_iff.mp h
  rw [assign, dif_pos hmem, hpos]

/-- Look for the number in an earlier table first. Only a path that had none there is looked for
again, with the table locked, and given its number. -/
def assignSeen (seen now : Identities) (p : Path) : NodeId × Identities :=
  match seen.idOf? p with
  | some id => (id, now)
  | none => now.assign p

/-- What was found in the earlier table is what the locked one has. -/
theorem assignSeen_eq {seen now : Identities} (h : seen.shown <+: now.shown) (p : Path) :
    seen.assignSeen now p = now.assign p := by
  unfold assignSeen
  cases hid : seen.idOf? p with
  | none => rfl
  | some id =>
      have hnow := idOf?_of_shown_prefix h hid
      exact (assign_of_idOf? hnow).symm

end OnDemandFs.Identities
