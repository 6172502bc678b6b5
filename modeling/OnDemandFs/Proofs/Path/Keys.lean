import Mathlib.Data.List.TFAE
import OnDemandFs.Proofs.Broker.Custody
import OnDemandFs.Proofs.Helper.Answers
import OnDemandFs.Proofs.Identity.Numbers
import OnDemandFs.Proofs.Path.Spelling
import OnDemandFs.Proofs.Store.Reports

/-!
# One path, one key

Clients spell a path as they like, and everything that is kept by path is kept by what the spelling
denotes: numbers, requests, remembered indices, copies in the cache, and what a helper was told to
publish as dynamic. Here each of these is looked at through its own operations, in any state. None
of them tells two spellings of one path apart, and none takes two paths for one.
-/
namespace OnDemandFs

theorem segments_eq_iff {a b : String} : segments a = segments b ↔ Path.ofText a = .ofText b :=
  ⟨fun h => Path.ext_names h, congrArg Path.names⟩

namespace Identities

/-- Of two paths that are shown one after the other, both get one number just if they are one. -/
theorem assign_alike_iff {t : Identities} {p q : Path} :
    ((t.assign p).2.assign q).1 = (t.assign p).1 ↔ p = q := by
  have hp := idOf?_assign t p
  constructor
  · intro h
    have hq := idOf?_assign (t.assign p).2 q
    have hgrown := (t.assign p).2.shown_prefix_assign q
    have hkept := pathOf?_eq_some_iff.mpr <| idOf?_of_shown_prefix hgrown hp
    rw [← h, pathOf?_eq_some_iff.mpr hq] at hkept
    exact (Option.some.inj hkept).symm
  · rintro rfl
    rw [assign_of_idOf? hp]

end Identities

namespace Broker.World
variable {w : World} {id : RequestId} {r : Request}

/-- A call gets the live request for a path just if it asks for that path. -/
theorem fetch_joins_iff (hw : w.Reachable) (hr : w.broker.request? id = some r)
    (hlive : r.state.isTerminal = false) {q : Path} :
    (∃ v, w.act (.fetch q) = some (.asked w.fetches.length id, v)) ↔ r.path = q := by
  constructor
  · rintro ⟨v, hact⟩
    obtain ⟨u, hstep, -⟩ := hw.step hact
    cases hstep with
    | join hq =>
        obtain ⟨r', hr', hpath, -⟩ := (hw.filed.inFlight_iff _ _).mp hq
        rw [hr] at hr'
        cases hr'
        exact hpath
    | create => exact absurd (lt_nextId hr).2 (Nat.lt_irrefl _)
  · rintro rfl
    exact ⟨_, (Step.join ((hw.filed.get?_path_iff hr).mpr hlive)).act hw.filed⟩

end Broker.World

namespace IndexCache
variable {c : IndexCache} {p q : Path}

/-- What is remembered under one path is found under the other. -/
def Finds (c : IndexCache) (p q : Path) : Prop :=
  ∀ stamp index, ((c.remember p stamp index).lookup q stamp).2 = some index

/-- What is forgotten under one path is not found under the other. -/
def Forgets (c : IndexCache) (p q : Path) : Prop :=
  ∀ stamp index, (((c.remember q stamp index).forget p).lookup q stamp).2 = none

/-- A look-up under one path, with the stamp of another file, drops what the other path had. -/
def Drops (c : IndexCache) (p q : Path) : Prop :=
  ∀ stamp other index, other ≠ stamp →
    (((c.remember q stamp index).lookup p other).1.lookup q stamp).2 = none

theorem lookup_eq_some_iff {stamp : Stamp} {index : Index} :
    (c.lookup q stamp).2 = some index ↔ c.known.get? q = some (stamp, index) := by
  rcases c.lookup_cases q stamp with ⟨found, hrow, hhit⟩ | ⟨c', hmiss, -, -, hnone⟩
  · rw [hhit, hrow]
    simp
  · rw [hmiss]
    exact ⟨nofun, fun h => absurd h (hnone index)⟩

theorem lookup_eq_none_of_get? {stamp : Stamp} (h : c.known.get? q = none) :
    (c.lookup q stamp).2 = none := by
  rw [Option.eq_none_iff_forall_ne_some]
  intro index hfound
  rw [lookup_eq_some_iff, h] at hfound
  cases hfound

theorem get?_remember (hc : c.capacity ≠ 0) (stamp : Stamp) (index : Index) :
    (c.remember p stamp index).known.get? p = some (stamp, index) := by
  unfold remember
  rw [if_neg hc]
  exact Table.get?_set_self _ _ _

theorem finds_iff (hc : c.capacity ≠ 0) : c.Finds p q ↔ p = q := by
  constructor
  · intro h
    by_contra hne
    -- a row that was there before cannot hold two indices at once
    have hrow (index : Index) : c.known.get? q = some (⟨0, 0, .ofSeconds 0⟩, index) := by
      rw [← get?_remember_of_ne (Ne.symm hne)]
      exact lookup_eq_some_iff.mp (h _ index)
    cases (hrow .dynamic).symm.trans (hrow (.listing []))
  · rintro rfl stamp index
    exact lookup_eq_some_iff.mpr (get?_remember hc stamp index)

theorem forgets_iff (hc : c.capacity ≠ 0) : c.Forgets p q ↔ p = q := by
  constructor
  · intro h
    by_contra hne
    have hkept : ((c.remember q ⟨0, 0, .ofSeconds 0⟩ .dynamic).forget p).known.get? q =
        some (⟨0, 0, .ofSeconds 0⟩, .dynamic) :=
      (Table.get?_erase_of_ne _ (Ne.symm hne)).trans (get?_remember hc _ _)
    cases (lookup_eq_some_iff.mpr hkept).symm.trans (h _ _)
  · rintro rfl stamp index
    exact lookup_eq_none_of_get? (Table.get?_erase_self _ _)

theorem drops_iff (hc : c.capacity ≠ 0) : c.Drops p q ↔ p = q := by
  constructor
  · intro h
    by_contra hne
    let told := c.remember q ⟨0, 0, .ofSeconds 0⟩ .dynamic
    have hrow : told.known.get? q = some (⟨0, 0, .ofSeconds 0⟩, .dynamic) := get?_remember hc _ _
    have hkept : (told.lookup p ⟨1, 0, .ofSeconds 0⟩).1.known.get? q = told.known.get? q := by
      rcases told.lookup_cases p ⟨1, 0, .ofSeconds 0⟩ with ⟨_, -, hhit⟩ | ⟨c', hmiss, -, hothers, -⟩
      · rw [hhit]
      · rw [hmiss]
        exact hothers q (Ne.symm hne)
    have hfound := lookup_eq_some_iff.mpr (hkept.trans hrow)
    cases hfound.symm.trans (h _ _ _ (by decide))
  · rintro rfl stamp other index hother
    rcases (c.remember p stamp index).lookup_cases p other with ⟨_, hrow, -⟩ | ⟨c', hmiss, hnone, -⟩
    · rw [get?_remember hc] at hrow
      cases hrow
      exact absurd rfl hother
    · rw [hmiss]
      exact lookup_eq_none_of_get? hnone

end IndexCache

/-- The names below the root of the cache that lead to the copy of a path. -/
def Store.below (s : Store) (p : Path) : List Name := (s.physical p).drop s.root.length

theorem Store.below_eq_iff {s : Store} {p q : Path} : s.below p = s.below q ↔ p = q := by
  have hwhole (p : Path) : s.root ++ s.below p = s.physical p := by
    rw [below, physical, List.drop_left]
  constructor
  · intro h
    refine s.physical_injective ?_
    rw [← hwhole p, h, hwhole q]
  · rintro rfl
    rfl

/-- An origin that was told of one dynamic directory publishes a directory as dynamic just if it is
this one. -/
theorem Origin.indexOf_eq_dynamic_iff {place : List Name} {p q : Path}
    {d : Disk} {site : Location} :
    (⟨place, [p]⟩ : Origin).indexOf d q site = .dynamic ↔ p = q := by
  unfold indexOf
  split
  · next h => exact ⟨fun _ => (List.mem_singleton.mp h).symm, fun _ => rfl⟩
  · next h => exact ⟨nofun, fun hpq => absurd (List.mem_singleton.mpr hpq.symm) h⟩

/-- Whatever was shown, asked for, remembered and cached so far, two texts have the same segments,
or the same tidy spelling, or are one to any of those that keep things by path, all just alike. -/
theorem one_path_everywhere (p q : String) {w : Broker.World} (hw : w.Reachable) {id : RequestId}
    {r : Request} (hr : w.broker.request? id = some r) (hpath : r.path = .ofText p)
    (hlive : r.state.isTerminal = false) (t : Identities) {c : IndexCache} (hc : c.capacity ≠ 0)
    (s : Store) (origin : List Name) (d : Disk) (site : Location) :
    List.TFAE [
      segments p = segments q,
      normalize p = normalize q,
      ((t.assign (.ofText p)).2.assign (.ofText q)).1 = (t.assign (.ofText p)).1,
      ∃ v, w.act (.fetch (.ofText q)) = some (.asked w.fetches.length id, v),
      c.Finds (.ofText p) (.ofText q),
      c.Forgets (.ofText p) (.ofText q),
      c.Drops (.ofText p) (.ofText q),
      s.below (.ofText p) = s.below (.ofText q),
      (⟨origin, [.ofText p]⟩ : Origin).indexOf d (.ofText q) site = .dynamic] := by
  have hfetch := Broker.World.fetch_joins_iff hw hr hlive (q := .ofText q)
  rw [hpath] at hfetch
  refine List.tfae_of_forall (Path.ofText p = .ofText q) _ ?_
  simp only [List.forall_mem_cons, List.not_mem_nil, false_implies, implies_true, and_true]
  exact ⟨segments_eq_iff, normalize_eq_iff, Identities.assign_alike_iff, hfetch,
    IndexCache.finds_iff hc, IndexCache.forgets_iff hc, IndexCache.drops_iff hc,
    Store.below_eq_iff, Origin.indexOf_eq_dynamic_iff⟩

/-- A call for `/a` waits, and texts of it and of others turn up. -/
theorem one_path_everywhere_untidy : ∃ w r, (Broker.World.start none 0).run?
    [.fetch (.ofText "//a/.")] = some w ∧ w.broker.request? 1 = some r ∧
    r.path = .ofText "//a/." ∧ r.state.isTerminal = false ∧
    (∃ v, w.act (.fetch (.ofText "a/")) = some (.asked 1 1, v)) ∧
    (¬ ∃ v, w.act (.fetch (.ofText "/a/..")) = some (.asked 1 1, v)) ∧
    IndexCache.Finds { capacity := 1 } (.ofText "//a/.") (.ofText "a/") ∧
    ¬ IndexCache.Finds { capacity := 1 } (.ofText "//a/.") (.ofText "/a/..") := by
  have hrun : ((Broker.World.start none 0).run? [.fetch (.ofText "//a/.")]).isSome := by
    decide +kernel
  have hw := Option.some_get hrun
  have hreached := (Broker.World.Reachable.start none 0).run? hw.symm
  have hcapacity : (IndexCache.mk 1 []).capacity ≠ 0 := by decide
  have hasked : (Option.get _ hrun).broker.request? 1 = some _ := rfl
  have halike (q : String) := one_path_everywhere "//a/." q hreached hasked rfl rfl .initial
    hcapacity ⟨[], 0, .empty ⟨0, 0⟩, { capacity := 1 }⟩ [] (.empty ⟨0, 0⟩) []
  have hsame : normalize "//a/." = normalize "a/" := by decide +kernel
  have hother : normalize "//a/." ≠ normalize "/a/.." := by decide +kernel
  refine ⟨_, _, hw.symm, rfl, rfl, rfl, ?_, ?_, ?_, ?_⟩
  · exact ((halike "a/").out 1 3).mp hsame
  · exact fun h => hother (((halike "/a/..").out 1 3).mpr h)
  · exact ((halike "a/").out 1 4).mp hsame
  · exact fun h => hother (((halike "/a/..").out 1 4).mpr h)

end OnDemandFs
