import OnDemandFs.Proofs.Broker.Requests
import OnDemandFs.Proofs.Resolve.Catalogue

/-!
# Faults that look like an absence

A client is told the number of a fault and nothing else, and `Errno.noEntry` says that there is
nothing. The disk has that number for names that are missing, but the store turns those into nothing
before they become faults. So a look-up fails with that number only if it found that there is
nothing, which is never so for a name that is listed: `seen_of_listed`. A helper that leaves the
cache as it is does not change that by letting requests run out of time.
-/
namespace OnDemandFs

/-- What fails with the number of an absence is one. -/
def Candid {α : Type} (r : Except Fault α) : Prop :=
  ∀ fault, r = .error fault → fault.errno = Errno.noEntry → fault.IsAbsence

/-- What came out has the property; if nothing did, no client is told that there is nothing. -/
def Seen {α : Type} (P : α → Prop) : Except Fault α → Prop
  | .ok a => P a
  | .error fault => fault.errno ≠ Errno.noEntry

theorem Errno.io_ne_noEntry : Errno.io ≠ Errno.noEntry := by decide

section
variable {α β : Type} {P : α → Prop} {r : Except Fault α} {fault : Fault}

theorem NotMissed.seen (h : NotMissed P r) (hr : Candid r) : Seen P r := by
  cases r with
  | ok a => exact h
  | error fault => exact fun herrno => h (hr fault rfl herrno)

theorem Seen.mono {Q : α → Prop} (h : Seen P r) (hPQ : ∀ a, P a → Q a) : Seen Q r := by
  cases r with
  | ok a => exact hPQ a h
  | error fault => exact h

theorem candid_ok (a : α) : Candid (.ok a : Except Fault α) := nofun

theorem candid_absence (h : fault.IsAbsence) : Candid (.error fault : Except Fault α) := by
  rintro _ ⟨⟩ -
  exact h

theorem candid_of_errno_ne (h : fault.errno ≠ Errno.noEntry) :
    Candid (.error fault : Except Fault α) := by
  rintro _ ⟨⟩ herrno
  exact absurd herrno h

theorem Candid.bind {f : α → Except Fault β} (h : Candid r) (hf : ∀ a, Candid (f a)) :
    Candid (r >>= f) := by
  cases r with
  | ok a => exact hf a
  | error fault =>
      rintro _ ⟨⟩
      exact h fault rfl

/-- What is missing on the disk is not a fault; other faults have other numbers. -/
theorem Fault.IsOfCache.errno_ne (h : fault.IsOfCache) : fault.errno ≠ Errno.noEntry := by
  cases fault with
  | io cause =>
      cases cause with
      | system n =>
          rintro rfl
          cases h
      | nulInName | notUtf8 | other => exact Errno.io_ne_noEntry
  | invalidIndex => exact Errno.io_ne_noEntry
  | _ => exact h.elim

theorem candid_of_isOfCache (h : ∀ fault, r = .error fault → fault.IsOfCache) : Candid r :=
  fun fault hr herrno => absurd herrno (h fault hr).errno_ne

end

/-! ### Looking at the cache -/

namespace Store

theorem candid_stat (s : Store) (p : Path) : Candid (s.stat p) :=
  candid_of_isOfCache fun _ => isOfCache_of_stat

theorem candid_held (s : Store) (dir : Path) : Candid (s.held dir) :=
  candid_of_isOfCache fun _ => isOfCache_of_held

theorem candid_told (dir : Path) (held : Peeked) : Candid (held.told dir) := by
  cases held with
  | absent | index => exact candid_ok _
  | foreign => exact candid_of_errno_ne Errno.io_ne_noEntry

theorem candid_standing (path : Path) (found : Option PhysicalEntry) :
    Candid (standing path found) := by
  unfold standing
  split
  · exact candid_ok _
  · exact candid_ok _
  · exact candid_absence trivial

theorem candid_childBy (s : Store) (dir : Path) (name : String) (index : Option Index) :
    Candid (s.childBy dir name index) := by
  rcases index with _ | _ | entries
  · exact candid_absence trivial
  · exact (s.candid_stat _).bind fun found => candid_standing _ found
  · unfold childBy
    dsimp only
    split
    · exact candid_absence trivial
    · exact candid_ok _

theorem candid_enter (s : Store) (x : Resolved) (name : String) : Candid (s.enter x name) := by
  unfold enter child
  split
  · split
    · exact candid_ok _
    · split
      · exact candid_absence trivial
      · exact ((s.candid_held _).bind fun held => candid_told _ held).bind fun index =>
          s.candid_childBy _ _ index
  · exact candid_absence trivial

theorem candid_reached (s : Store) (p : Path) : Candid (s.reached p) := by
  have hfold (names : List String) (x : Resolved) : Candid (names.foldlM s.enter x) := by
    induction names generalizing x with
    | nil => exact candid_ok x
    | cons n rest ih =>
        rw [List.foldlM_cons]
        exact (s.candid_enter x n).bind ih
  exact hfold p.names top

theorem candid_classified (s : Store) (x : Resolved) : Candid (s.classified x) := by
  unfold classified
  split
  · exact (s.candid_held _).bind fun _ => candid_ok _
  · exact candid_ok x

end Store

theorem Resolver.candid_attributes (x : Resolved) (v : View) : Candid (attributes x v) :=
  candid_of_isOfCache fun _ h => Store.isOfCache_of_stat (stat_of_attributes h).2

theorem View.candid_described (v : View) (p : Path) : Candid (v.described p) := by
  refine ((v.store.candid_reached p).bind v.store.candid_classified).bind fun x => ?_
  exact (Resolver.candid_attributes x v).bind fun _ => candid_ok _

/-! ### Helpers that let requests fail -/

/-- A helper that leaves the cache as it is. A request fails if it runs out of time. -/
structure Helper.IsQuiet (helper : Helper View) : Prop where
  calm (asked : List Path) (p : Path) (v : View) : v.Calm (helper asked p v).1
  late {asked : List Path} {p : Path} {v : View} {fault : Fault}
    (h : (helper asked p v).2 = .error fault) : ∃ text, fault = .timeout text

/-- Requests do not fail in any other way. -/
theorem Broker.eq_timeout_of_outcome? {b : Broker} {id : RequestId} {fault : Fault}
    (h : b.outcome? id = some (.error fault)) : ∃ text, fault = .timeout text := by
  unfold outcome? at h
  split at h
  · split at h
    · cases h
    · cases h
      exact ⟨_, rfl⟩
    all_goals cases h
  · cases h

/-- Unless it fails with a fault of the helper, an operation goes as if every
request were closed. -/
theorem Inquiry.run_of_failing {σ α : Type} (helper : Helper σ) (i : Inquiry σ α)
    (asked : List Path) :
    (∃ asked' p s fault, (helper asked' p s).2 = .error fault ∧
      (i.run helper asked).result = .error fault) ∨
    i.run helper asked = i.run (.closing fun asked p s => (helper asked p s).1) asked := by
  induction i generalizing asked with
  | done s r => exact .inr rfl
  | asks s p resume ih =>
      simp only [run, Helper.closing]
      cases hhelper : helper asked p s with
      | mk s' r =>
          cases r with
          | ok => exact ih s' _
          | error fault => exact .inl ⟨asked, p, s, fault, congrArg Prod.snd hhelper, rfl⟩

theorem Helper.IsQuiet.idle {helper : Helper View} (h : helper.IsQuiet) :
    Helper.Idle fun asked p v => (helper asked p v).1 :=
  h.calm

namespace Resolver

open Asking

variable {helper helper' : Helper View} {v u : View} {p : Path} {entries : List Listed}

/-- Unless a request of it runs out of time, an operation ends as if every request were closed. -/
theorem run_of_quiet {α : Type} (hquiet : helper.IsQuiet) (m : Resolver α) (v : View) :
    (∃ text, (m.run helper [] v).result = .error (.timeout text)) ∨
    m.run helper [] v = m.run (.closing fun asked p v => (helper asked p v).1) [] v := by
  refine (Inquiry.run_of_failing helper (m v) []).imp_left ?_
  rintro ⟨asked, p, w, fault, hfault, hresult⟩
  obtain ⟨text, rfl⟩ := hquiet.late hfault
  exact ⟨text, hresult⟩

/-- Whatever an index or the disk says, what is listed has a name that an index can carry. -/
theorem isEntryName_of_listed (hv : v.IsLawful) {listed : List (String × NodeKind)}
    (hlisted : v.listed p = .ok listed) {c : String × NodeKind} (hc : c ∈ listed) :
    IsEntryName c.1 := by
  obtain ⟨names, rfl, -, -, hvalid⟩ := listed_eq hv hlisted
  rcases List.mem_append.mp hc with hfirst | hrest
  · exact isEntryName_of_mem_builtinsAt hfirst
  · obtain ⟨-, k, hk, -⟩ := mem_remaining_iff.mp hrest
    exact hvalid _ hk

/-- How listing a directory ends with such a helper, if it does. -/
theorem readDirectory_of_quiet (hquiet : helper.IsQuiet)
    (hread : ((readDirectory p).run helper [] v).result = .ok entries) :
    v.Calm ((readDirectory p).run helper [] v).state ∧
    (∃ y, v.store.reached p = .ok y ∧ y.kind.isDirectory = true) ∧
    ∃ listed, v.listed p = .ok listed ∧
      Numbered ((readDirectory p).run helper [] v).state p listed entries := by
  rcases run_of_quiet hquiet (readDirectory p) v with ⟨text, hlate⟩ | hclosing
  · cases hlate.symm.trans hread
  · rw [hclosing] at hread ⊢
    exact readDirectory_ends hquiet.idle hread

/-- A name that is listed can be looked up, and is seen then: with the number and the kind that are
listed, if at all. -/
theorem seen_of_listed (hquiet : helper.IsQuiet) (hquiet' : helper'.IsQuiet) (hv : v.IsLawful)
    (hread : ((readDirectory p).run helper [] v).result = .ok entries)
    (hcalm : ((readDirectory p).run helper [] v).state.Calm u) {e : Listed} (he : e ∈ entries) :
    IsEntryName e.name ∧ Seen (fun node => node.id = e.id ∧ node.kind = e.kind)
      ((lookup (p.extend e.name)).run helper' [] u).result := by
  obtain ⟨hread, ⟨y, hreached, hdir⟩, listed, hlisted, hnumbered⟩ :=
    readDirectory_of_quiet hquiet hread
  have hu : v.Calm u := hread.trans hcalm
  have hmem : (e.name, e.kind) ∈ listed := by
    rw [← hnumbered.names]
    exact List.mem_map.mpr ⟨e, he, rfl⟩
  have hname := isEntryName_of_listed hv hlisted hmem
  refine ⟨hname, ?_⟩
  have hseen := (View.notMissed_described hv.valid hv.disk.isProper hreached hdir hlisted
    hname.isSegment hmem).seen (v.candid_described _)
  rcases run_of_quiet hquiet' (lookup (p.extend e.name)) u with ⟨text, hlate⟩ | hclosing
  · rw [hlate]
    exact show Errno.timedOut ≠ Errno.noEntry by decide
  rw [hclosing]
  cases hdescribed : v.described (p.extend e.name) with
  | error fault =>
      rw [hdescribed] at hseen
      rw [lookup_of_error hquiet'.idle hu hdescribed]
      exact hseen
  | ok described =>
      obtain ⟨x, attr⟩ := described
      rw [hdescribed] at hseen
      obtain ⟨hpath, hkind⟩ := hseen
      obtain ⟨id, hnode, hid⟩ := lookup_of_ok hquiet'.idle hu hdescribed []
      have hlater := hcalm.trans (calm_lookup hquiet'.idle (.refl u) (p.extend e.name) [])
      have hnumber := Identities.idOf?_of_shown_prefix hlater.shown (hnumbered.ids e he)
      rw [hnode]
      rw [hpath] at hid
      exact ⟨Option.some.inj (hid.symm.trans hnumber), hkind⟩

end Resolver
end OnDemandFs
