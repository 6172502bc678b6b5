import OnDemandFs.Proofs.Identity.Numbers
import OnDemandFs.Proofs.Resolve.Runs
import OnDemandFs.Proofs.Store.Reports
import OnDemandFs.Proofs.Path.Spelling
import OnDemandFs.Resolve.Operations

/-!
# Operations while the cache stays as it is

As long as nobody changes the cache, two views can only differ in what is remembered of indices and
in which paths have a number, and numbers are never taken back. `View.Calm` relates the two, and
`Tells` says that from a view on, in such a time, an operation ends with one and the same result.
-/
namespace OnDemandFs

theorem bind_eq_ok_iff {ε α β : Type} {r : Except ε α} {f : α → Except ε β} {b : β} :
    r >>= f = .ok b ↔ ∃ a, r = .ok a ∧ f a = .ok b := by
  cases r with
  | error e => exact ⟨nofun, nofun⟩
  | ok a => exact ⟨fun h => ⟨a, rfl, h⟩, fun ⟨_, ha, h⟩ => by cases ha; exact h⟩

/-- To come by a result twice is to come by it once. -/
theorem bind_again {ε α β : Type} (r : Except ε α) (f : α → Except ε β) :
    (r >>= fun _ => r >>= f) = r >>= f := by
  cases r <;> rfl

/-- What a place holds, from what stands there and what is told of an index in it. -/
def Peeked.of (index : Except Fault (Option Index)) : Option PhysicalEntry → Except Fault Peeked
  | none => .ok .absent
  | some e =>
    if e.kind = .directory then
      match index with
      | .ok (some index) => .ok (.index index)
      | .ok none => .ok .absent
      | .error fault => .error fault
    else .ok .foreign

theorem Peeked.directory_of_index {told : Except Fault (Option Index)}
    {found : Option PhysicalEntry} {index : Index} (h : Peeked.of told found = .ok (.index index)) :
    ∃ e, found = some e ∧ e.kind = .directory ∧ told = .ok (some index) := by
  unfold Peeked.of at h
  cases found with
  | none => cases h
  | some e =>
      dsimp only at h
      split at h
      · next hdir =>
          rcases told with fault | _ | known <;> cases h
          exact ⟨e, rfl, hdir, rfl⟩
      · cases h

theorem Peeked.told_of_error {told : Except Fault (Option Index)} {found : Option PhysicalEntry}
    {fault : Fault} (h : Peeked.of told found = .error fault) : told = .error fault := by
  unfold Peeked.of at h
  cases found with
  | none => cases h
  | some e =>
      dsimp only at h
      split at h
      · rcases told with fault' | _ | known <;> cases h
        rfl
      · cases h

namespace Store
variable {s t : Store}

/-- What is held in the place of a directory. -/
def held (s : Store) (dir : Path) : Except Fault Peeked := s.stat dir >>= Peeked.of (s.index? dir)

theorem isOfCache_of_held {dir : Path} {fault : Fault} (h : s.held dir = .error fault) :
    fault.IsOfCache := by
  rw [held] at h
  cases hstat : s.stat dir with
  | error fault' =>
      rw [hstat] at h
      cases h
      exact isOfCache_of_stat hstat
  | ok found =>
      rw [hstat] at h
      exact isOfCache_of_index? (Peeked.told_of_error h)

/-- What the disk holds in the place of a directory. -/
def placed (s : Store) (dir : Path) : Except Fault Peeked :=
  s.stat dir >>= Peeked.of (s.indexOnDisk dir)

theorem held_eq_placed (h : s.Truthful) (dir : Path) : s.held dir = s.placed dir := by
  rw [held, placed, index?_eq_indexOnDisk h]

theorem stat_of_placed {dir : Path} {h : Peeked} (hplaced : s.placed dir = .ok h) :
    ∃ found, s.stat dir = .ok found ∧ Peeked.of (s.indexOnDisk dir) found = .ok h :=
  bind_eq_ok_iff.mp hplaced

/-- An index is placed where a directory stands with that index in it. -/
theorem indexOnDisk_of_placed {dir : Path} {index : Index}
    (hplaced : s.placed dir = .ok (.index index)) : s.indexOnDisk dir = .ok (some index) := by
  obtain ⟨found, -, hof⟩ := stat_of_placed hplaced
  obtain ⟨e, -, -, htold⟩ := Peeked.directory_of_index hof
  exact htold

theorem isListing_of_placed {dir : Path} {entries : List Entry}
    (h : s.placed dir = .ok (.index (.listing entries))) : IsListing entries :=
  isListing_of_indexOnDisk (indexOnDisk_of_placed h)

theorem directory_of_held {dir : Path} {index : Index} (h : s.held dir = .ok (.index index)) :
    ∃ e, s.stat dir = .ok (some e) ∧ e.kind = .directory := by
  obtain ⟨found, hstat, hof⟩ := bind_eq_ok_iff.mp h
  obtain ⟨e, rfl, hdir, -⟩ := Peeked.directory_of_index hof
  exact ⟨e, hstat, hdir⟩

theorem isListing_of_held {dir : Path} {entries : List Entry} (hvalid : s.indices.Valid)
    (h : s.held dir = .ok (.index (.listing entries))) : IsListing entries := by
  obtain ⟨found, -, hof⟩ := bind_eq_ok_iff.mp h
  obtain ⟨e, -, -, htold⟩ := Peeked.directory_of_index hof
  exact isListing_of_index? hvalid htold

theorem Alike.held (h : Alike s t) (dir : Path) : t.held dir = s.held dir := by
  rw [Store.held, Store.held, h.stat, h.index]

end Store

/-- A later view over the same cache: only memory and further numbers differ. -/
structure View.Calm (v w : View) : Prop where
  store : Store.Alike v.store w.store
  revalidate : w.revalidate = v.revalidate
  started : w.started = v.started
  shown : v.identities.shown <+: w.identities.shown

namespace View.Calm

theorem refl (v : View) : v.Calm v := ⟨.refl _, rfl, rfl, List.prefix_rfl⟩

theorem trans {u v w : View} (h : u.Calm v) (h' : v.Calm w) : u.Calm w :=
  ⟨h.store.trans h'.store, h'.revalidate.trans h.revalidate, h'.started.trans h.started,
    h.shown.trans h'.shown⟩

end View.Calm

/-- A helper that closes every request and leaves the cache as it is. -/
def Helper.Idle (answer : List Path → Path → View → View) : Prop :=
  ∀ (asked : List Path) (p : Path) (v : View), v.Calm (answer asked p v)

namespace Resolver

open Asking

variable {v : View} {dir : Path} {α β : Type}

theorem peek_eq (dir : Path) (v : View) :
    ((peek dir v).1 = v ∨ (peek dir v).1 = { v with store := (v.store.readIndex dir).1 }) ∧
      (peek dir v).2 = v.store.held dir := by
  unfold peek Store.held Store.index?
  cases v.store.stat dir with
  | error fault => exact ⟨.inl rfl, rfl⟩
  | ok found =>
      cases found with
      | none => exact ⟨.inl rfl, rfl⟩
      | some e =>
          by_cases hk : e.kind = .directory
          · simp only [hk, if_true]
            obtain ⟨store, r⟩ := v.store.readIndex dir
            rcases r with fault | _ | index <;> exact ⟨.inr rfl, (if_pos hk).symm⟩
          · simp only [hk, if_false, true_or, true_and]
            exact (if_neg hk).symm

@[simp] theorem peek_snd (dir : Path) (v : View) : (peek dir v).2 = v.store.held dir :=
  (peek_eq dir v).2

theorem calm_peek (dir : Path) (v : View) : v.Calm (peek dir v).1 := by
  rcases (peek_eq dir v).1 with h | h
  · rw [h]
    exact .refl v
  · rw [h]
    exact ⟨v.store.alike_readIndex dir, rfl, rfl, List.prefix_rfl⟩

theorem calm_identify (p : Path) (v : View) : v.Calm (identify p v).1 :=
  ⟨.refl _, rfl, rfl, v.identities.shown_prefix_assign p⟩

/-- Started in a calm time after `v`, the operation leaves it calm and ends with `r`. -/
def Tells (answer : List Path → Path → View → View) (v : View) (m : Resolver α)
    (r : Except Fault α) : Prop :=
  ∀ asked w, v.Calm w →
    v.Calm (m.run (.closing answer) asked w).state ∧ (m.run (.closing answer) asked w).result = r

section Rules
variable {answer : List Path → Path → View → View}

theorem tells_pure (a : α) : Tells answer v (pure a) (.ok a) := fun _ _ hw => ⟨hw, rfl⟩

theorem tells_fail (fault : Fault) : Tells answer v (fail fault : Resolver α) (.error fault) :=
  fun _ _ hw => ⟨hw, rfl⟩

theorem Tells.bind {m : Resolver α} {f : α → Resolver β} {r : Except Fault α}
    {r' : α → Except Fault β} (hm : Tells answer v m r)
    (hf : ∀ a, r = .ok a → Tells answer v (f a) (r' a)) :
    Tells answer v (m >>= f) (r >>= r') := by
  intro asked w hw
  have h := hm asked w hw
  revert h
  rw [run_bind]
  rcases m.run (.closing answer) asked w with ⟨asked', w', result⟩
  intro h
  obtain ⟨hw', rfl⟩ := h
  cases result with
  | error fault => exact ⟨hw', rfl⟩
  | ok a => exact hf a rfl asked' w' hw'

theorem tells_ask (hidle : Helper.Idle answer) (p : Path) :
    Tells answer v (ask p) (.ok ()) := by
  intro asked w hw
  rw [run_ask]
  exact ⟨hw.trans (hidle asked p w), rfl⟩

theorem tells_attempt {f : View → View × Except Fault α} {r : Except Fault α}
    (h : ∀ w, v.Calm w → w.Calm (f w).1 ∧ (f w).2 = r) : Tells answer v (attempt f) r := by
  intro asked w hw
  rw [run_attempt]
  exact ⟨hw.trans (h w hw).1, (h w hw).2⟩

theorem tells_peek (dir : Path) : Tells answer v (attempt (peek dir)) (v.store.held dir) :=
  tells_attempt fun w hw => ⟨calm_peek dir w, by rw [peek_snd, hw.store.held]⟩

theorem tells_stat (p : Path) : Tells answer v (stat p) (v.store.stat p) :=
  fun _ _ hw => ⟨hw, hw.store.stat p⟩

end Rules
end Resolver
end OnDemandFs
