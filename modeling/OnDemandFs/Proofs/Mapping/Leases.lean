import OnDemandFs.Mapping
import OnDemandFs.Proofs.Table.Keys
import Mathlib.Data.List.Count

/-!
# Leases of mappings

The arbiter keeps a generation and a number for each node, and not the mappings themselves. `Counts`
says that these are right for the mappings that are held: of the mappings of one node there are as
many as it has counted, and all are of the generation that it has noted. Granting and giving back a
lease keep this, and a lease that is given back at once was as good as never granted.
-/
namespace OnDemandFs.Arbiter

variable {γ : Type} {a b : Arbiter γ} {held before after : List (NodeId × γ)} {id : NodeId} {g : γ}

/-- The leases that a node has are counted, and all are of the noted generation. -/
structure CountsAt (held : List (NodeId × γ)) (id : NodeId) (pin : Pin γ) : Prop where
  live : pin.live = held.countP (·.1 = id)
  pos : 0 < pin.live
  generation : ∀ m ∈ held, m.1 = id → m.2 = pin.generation

/-- The arbiter has counted what is held, a node and a generation for each lease. -/
structure Counts (a : Arbiter γ) (held : List (NodeId × γ)) : Prop where
  some : ∀ id pin, a.get? id = some pin → CountsAt held id pin
  none : ∀ id, a.get? id = none → ∀ m ∈ held, m.1 ≠ id

theorem counts_nil : Counts ([] : Arbiter γ) [] := ⟨nofun, fun _ _ => nofun⟩

theorem Counts.live_eq (h : Counts a held) (id : NodeId) :
    a.live id = held.countP (·.1 = id) := by
  unfold live
  cases hpin : a.get? id with
  | none =>
      refine (List.countP_eq_zero.mpr fun m hm => ?_).symm
      simpa using h.none id hpin m hm
  | some pin => exact (h.some id pin hpin).live

/-- Leases of one node are of one generation. -/
theorem Counts.alike (h : Counts a held) {m m' : NodeId × γ} (hm : m ∈ held) (hm' : m' ∈ held)
    (hnode : m.1 = m'.1) : m.2 = m'.2 := by
  cases hpin : a.get? m.1 with
  | none => exact absurd rfl (h.none m.1 hpin m hm)
  | some pin =>
      have hcounts := h.some m.1 pin hpin
      rw [hcounts.generation m hm rfl, hcounts.generation m' hm' hnode.symm]

/-- Another node is not concerned. -/
theorem CountsAt.of_ne {pin : Pin γ} (h : CountsAt (before ++ after) id pin) {m : NodeId × γ}
    (hne : m.1 ≠ id) : CountsAt (before ++ m :: after) id pin := by
  refine ⟨?_, h.pos, fun m' hm' hnode => ?_⟩
  · rw [h.live, List.countP_append, List.countP_append,
      List.countP_cons_of_neg (by simpa using hne)]
  · rcases List.mem_append.mp hm' with hm' | hm'
    · exact h.generation m' (List.mem_append_left _ hm') hnode
    · rcases List.mem_cons.mp hm' with rfl | hm'
      · exact absurd hnode hne
      · exact h.generation m' (List.mem_append_right _ hm') hnode

theorem get?_release (a : Arbiter γ) (id j : NodeId) : (a.release id).get? j =
    if j = id then (a.get? id).bind fun pin =>
      if pin.live ≤ 1 then none else some { pin with live := pin.live - 1 }
    else a.get? j := by
  unfold release
  cases hpin : a.get? id with
  | none =>
      dsimp only [Option.bind]
      split
      · next hj => rw [hj, hpin]
      · rfl
  | some pin =>
      dsimp only [Option.bind]
      split
      · exact Table.get?_erase _ _ _
      · exact Table.get?_set _ _ _ _

/-- The mapping that is given back is one of those that are held. -/
theorem Counts.release (h : Counts a (before ++ (id, g) :: after)) :
    Counts (a.release id) (before ++ after) := by
  have hsub : ∀ m ∈ before ++ after, m ∈ before ++ (id, g) :: after := by
    intro m hm
    rcases List.mem_append.mp hm with hm | hm
    · exact List.mem_append_left _ hm
    · exact List.mem_append_right _ (List.mem_cons_of_mem _ hm)
  have hcount (j : NodeId) : (before ++ (id, g) :: after).countP (·.1 = j) =
      (before ++ after).countP (·.1 = j) + if j = id then 1 else 0 := by
    by_cases hj : j = id
    · simp [List.countP_append, hj, Nat.add_assoc]
    · simp [List.countP_append, hj, Ne.symm hj]
  refine ⟨fun j pin hpin => ?_, fun j hnone m hm hnode => ?_⟩
  · rw [get?_release] at hpin
    split at hpin
    · next hj =>
        subst hj
        obtain ⟨old, hold, hpin⟩ := Option.bind_eq_some_iff.mp hpin
        have hcounts := h.some j old hold
        have hlive := hcounts.live
        rw [hcount, if_pos rfl] at hlive
        split at hpin
        · cases hpin
        · next hmore =>
            cases hpin
            refine ⟨?_, ?_, fun m hm hnode => hcounts.generation m (hsub m hm) hnode⟩
            · dsimp only
              omega
            · dsimp only
              omega
    · next hj =>
        have hcounts := h.some j pin hpin
        refine ⟨?_, hcounts.pos, fun m hm hnode => hcounts.generation m (hsub m hm) hnode⟩
        rw [hcounts.live, hcount, if_neg hj, Nat.add_zero]
  · rw [get?_release] at hnone
    split at hnone
    · next hj =>
        subst hj
        cases hold : a.get? j with
        | none => exact h.none j hold m (hsub m hm) hnode
        | some old =>
            have hlive := (h.some j old hold).live
            rw [hcount, if_pos rfl] at hlive
            rw [hold] at hnone
            dsimp only [Option.bind] at hnone
            split at hnone
            · next hlast =>
                have hnil : (before ++ after).countP (·.1 = j) = 0 := by omega
                have := List.countP_eq_zero.mp hnil m hm
                simp only [decide_eq_true_eq] at this
                exact this hnode
            · cases hnone
    · exact h.none j hnone m (hsub m hm) hnode

section Granting
variable [DecidableEq γ] {path : String}

/-- A lease is refused just if one of another generation is held. -/
theorem Counts.acquire_cases (h : Counts a held) (id : NodeId) (path : String) (g : γ) :
    (a.acquire id path g = .error (.mappingConflict path) ∧ ∃ m ∈ held, m.1 = id ∧ m.2 ≠ g) ∨
      ∃ b, a.acquire id path g = .ok b ∧ (∀ m ∈ held, m.1 = id → m.2 = g) := by
  unfold acquire
  cases hpin : a.get? id with
  | none => exact .inr ⟨_, rfl, fun m hm hnode => absurd hnode (h.none id hpin m hm)⟩
  | some pin =>
      have hcounts := h.some id pin hpin
      dsimp only
      by_cases hg : pin.generation = g
      · rw [if_neg (not_not.mpr hg)]
        exact .inr ⟨_, rfl, fun m hm hnode => (hcounts.generation m hm hnode).trans hg⟩
      · rw [if_pos hg]
        have hsome : 0 < held.countP (·.1 = id) := hcounts.live ▸ hcounts.pos
        obtain ⟨m, hm, hnode⟩ := List.countP_pos_iff.mp hsome
        have hnode : m.1 = id := by simpa using hnode
        refine .inl ⟨rfl, m, hm, hnode, ?_⟩
        rw [hcounts.generation m hm hnode]
        exact hg

/-- What the arbiter has noted of a node once it has granted a lease of it. -/
theorem get?_acquire (h : a.acquire id path g = .ok b) (j : NodeId) :
    b.get? j = if j = id then some ⟨g, a.live id + 1⟩ else a.get? j := by
  unfold acquire at h
  unfold live
  cases hpin : a.get? id with
  | none =>
      rw [hpin] at h
      cases h
      exact Table.get?_set _ _ _ _
  | some pin =>
      rw [hpin] at h
      dsimp only at h
      split at h
      · cases h
      · next hg =>
          cases h
          rw [Table.get?_set, not_not.mp hg]

theorem Counts.acquire (h : Counts a held) (hacquire : a.acquire id path g = .ok b) :
    Counts b ((id, g) :: held) := by
  have hsame : ∀ m ∈ held, m.1 = id → m.2 = g := by
    rcases h.acquire_cases id path g with ⟨herror, -⟩ | ⟨b', -, hsame⟩
    · rw [herror] at hacquire
      cases hacquire
    · exact hsame
  refine ⟨fun j pin hpin => ?_, fun j hnone => ?_⟩
  · rw [get?_acquire hacquire] at hpin
    split at hpin
    · next hj =>
        cases hpin
        subst hj
        refine ⟨?_, Nat.succ_pos _, List.forall_mem_cons.mpr ⟨fun _ => rfl, hsame⟩⟩
        rw [List.countP_cons_of_pos (by simp), h.live_eq]
    · next hj =>
        have hold : CountsAt ([] ++ held) j pin := h.some j pin hpin
        exact hold.of_ne (Ne.symm hj)
  · rw [get?_acquire hacquire] at hnone
    split at hnone
    · cases hnone
    · next hj => exact List.forall_mem_cons.mpr ⟨Ne.symm hj, h.none j hnone⟩

/-- A lease that is given back at once leaves no trace. -/
theorem Counts.get?_release_acquire (h : Counts a held) (hacquire : a.acquire id path g = .ok b)
    (j : NodeId) : (b.release id).get? j = a.get? j := by
  rw [get?_release, get?_acquire hacquire, get?_acquire hacquire, if_pos rfl]
  split
  · next hj =>
      subst hj
      unfold live
      cases hpin : a.get? j with
      | none => rfl
      | some pin =>
          have hpos := (h.some j pin hpin).pos
          have hsame : pin.generation = g := by
            unfold Arbiter.acquire at hacquire
            rw [hpin] at hacquire
            dsimp only at hacquire
            split at hacquire
            · cases hacquire
            · next hg => exact not_not.mp hg
          dsimp only [Option.bind]
          rw [if_neg (by omega), Nat.add_sub_cancel, ← hsame]
  · rfl

end Granting

end OnDemandFs.Arbiter
