import OnDemandFs.Proofs.Identity.Numbers
import OnDemandFs.Proofs.Traffic.Moves
import Mathlib.Order.Interval.Finset.Nat

/-!
# Numbers last as long as the mount

Paths get their numbers from three operations, each of which comes by the path in its own way: as
the client spelled it, as the walk went, or as the name of a directory joined with that of an entry.
Other operations move in between, and anybody does anything to the cache. All the same a path has
one number for good: `identities_last`. It also makes no difference that the number is first looked
for without locking the table, in which more paths may have numbers by the time it is locked.
-/
namespace OnDemandFs

/-- The paths that an answer names, with the numbers that it gives them;
`p` is the path of the call. -/
def Answer.named (p : Path) : Answer → List (Path × NodeId)
  | .node n => [(n.path, n.id)]
  | .opened f => [(f.node.path, f.node.id)]
  | .listed es => es.map fun e => (.ofText (joinText p.text e.name), e.id)
  | .text _ | .nothing => []

namespace Traffic
variable {u t w : Traffic} {told past more : List Event} {p : Path} {id : NodeId}

/-- Operations move one at a time, and in between anybody does anything to the cache. -/
inductive Run (u : Traffic) : List Event → Traffic → Prop
  | start : Run u [] u
  | move {t w : Traffic} {past told : List Event} (h : Run u past t) (hmove : Moves t told w) :
      Run u (told ++ past) w
  | alter {t : Traffic} {past : List Event} (h : Run u past t) (store : Store) :
      Run u past { t with view := { t.view with store } }

theorem Run.goes (h : Run u past t) (hgoes : Goes t told w) : Run u (told ++ past) w := by
  induction hgoes with
  | refl => exact h
  | move _ hmove ih =>
      rw [List.append_assoc]
      exact ih.move hmove

theorem Run.shown (h : Run u past t) :
    u.view.identities.shown <+: t.view.identities.shown := by
  induction h with
  | start => exact List.prefix_rfl
  | move _ hmove ih => exact ih.trans hmove.calm.shown
  | alter _ _ ih => exact ih

/-- The numbers that were given out. -/
def given (past : List Event) : List NodeId :=
  past.filterMap fun
    | .numbered _ id => some id
    | .answered .. => none

theorem mem_given_iff : id ∈ given past ↔ ∃ p, .numbered p id ∈ past := by
  unfold given
  rw [List.mem_filterMap]
  constructor
  · rintro ⟨event, hmem, hid⟩
    cases event with
    | numbered p id' =>
        cases hid
        exact ⟨p, hmem⟩
    | answered call answer => cases hid
  · rintro ⟨p, hmem⟩
    exact ⟨_, hmem, rfl⟩

/-- A query for a number is answered with the number that the path has from then on. -/
theorem idOf?_of_answer {v w : View} (h : (Query.number p).answer v = .done w (.ok id)) :
    w.identities.idOf? p = some id := by
  cases h
  exact v.identities.idOf?_assign p

theorem Moves.idOf?_of_numbered (h : Moves u told t) (hmem : .numbered p id ∈ told) :
    t.view.identities.idOf? p = some id := by
  cases h with
  | @answer v w before after call β q next b hanswer =>
      cases q with
      | number q =>
          cases List.mem_singleton.mp hmem
          exact idOf?_of_answer hanswer
      | ask | entry | index | names | body | facts => cases hmem
  | finish => cases List.mem_singleton.mp hmem
  | begin | resume | leave => cases hmem

/-- A path that is new in the table was given its number by the move. -/
theorem Moves.shown_cases (h : Moves u told t) (hp : p ∈ t.view.identities.shown) :
    p ∈ u.view.identities.shown ∨ ∃ id, .numbered p id ∈ told := by
  cases h with
  | @answer v w before after call β q next b hanswer =>
      cases q with
      | number q =>
          cases hanswer
          rcases Identities.mem_shown_assign hp with hold | rfl
          · exact .inl hold
          · exact .inr ⟨_, List.mem_singleton_self _⟩
      | ask => cases hanswer
      | entry | index | names | body | facts =>
          cases hanswer
          exact .inl hp
  | begin | resume | finish | leave => exact .inl hp

/-- What a table and the events so far have to do with each other. -/
structure Accounts (past : List Event) (t : Traffic) : Prop where
  shown : ∀ p ∈ t.view.identities.shown, p = .root ∨ ∃ id, .numbered p id ∈ past
  numbered : ∀ p id, .numbered p id ∈ past → t.view.identities.idOf? p = some id
  /-- Whoever knows the table has nothing more to learn from the operations. -/
  about : ∀ k : Known, (∀ p id, t.view.identities.idOf? p = some id → k.number p id) →
    (∀ file, k.file file) → t.Keeps k ∧
      ∀ call answer, .answered call answer ∈ past → Answer.IsAbout call.path k answer

theorem accounts_start {v : View} (hnew : v.identities = .initial) : Accounts [] ⟨v, []⟩ := by
  refine ⟨fun p hp => .inl ?_, fun p id h => by simp at h,
    fun k _ _ => ⟨?_, fun c a h => by simp at h⟩⟩
  · rw [hnew] at hp
    exact List.mem_singleton.mp hp
  · intro op hop
    cases hop

theorem Accounts.move (h : Accounts past t) (hmove : Moves t told w) :
    Accounts (told ++ past) w := by
  have hkept {p : Path} {id : NodeId} (hid : t.view.identities.idOf? p = some id) :
      w.view.identities.idOf? p = some id :=
    Identities.idOf?_of_shown_prefix hmove.calm.shown hid
  refine ⟨fun p hp => ?_, fun p id hmem => ?_, fun k hnumber hfile => ?_⟩
  · rcases hmove.shown_cases hp with hold | ⟨id, hmem⟩
    · exact (h.shown p hold).imp_right fun ⟨id, hmem⟩ => ⟨id, List.mem_append_right _ hmem⟩
    · exact .inr ⟨id, List.mem_append_left _ hmem⟩
  · rcases List.mem_append.mp hmem with hnew | hold
    · exact hmove.idOf?_of_numbered hnew
    · exact hkept (h.numbered p id hold)
  · obtain ⟨hkeeps, habout⟩ := h.about k (fun p id hid => hnumber p id (hkept hid)) hfile
    obtain ⟨hkeeps', habout'⟩ := hmove.keeps hkeeps fun q b hanswer => by
      cases q with
      | number q => exact hnumber q b (idOf?_of_answer hanswer)
      | body => exact fun file _ _ => hfile file
      | ask | entry | index | names | facts => trivial
    refine ⟨hkeeps', fun call answer hmem => ?_⟩
    rcases List.mem_append.mp hmem with hnew | hold
    · exact habout' call answer hnew
    · exact habout call answer hold

theorem accounts_of_run {v : View} (hnew : v.identities = .initial) (h : Run ⟨v, []⟩ past t) :
    Accounts past t := by
  induction h with
  | start => exact accounts_start hnew
  | move _ hmove ih => exact ih.move hmove
  | alter _ store ih => exact ⟨ih.shown, ih.numbered, ih.about⟩

theorem Accounts.named (h : Accounts past t) {call : Call} {answer : Answer}
    (hmem : .answered call answer ∈ past) {x : Path × NodeId} (hx : x ∈ answer.named call.path) :
    t.view.identities.idOf? x.1 = some x.2 := by
  have habout := (h.about ⟨fun p id => t.view.identities.idOf? p = some id, fun _ => True⟩
    (fun _ _ hid => hid) fun _ => trivial).2 call answer hmem
  cases answer with
  | node n =>
      cases List.mem_singleton.mp hx
      rw [habout.1]
      exact habout.2
  | opened f =>
      cases List.mem_singleton.mp hx
      rw [habout.1]
      exact habout.2.1
  | listed es =>
      obtain ⟨e, he, rfl⟩ := List.mem_map.mp hx
      rw [Path.ofText_joinText, Path.ofText_text]
      exact habout e he
  | text | nothing => cases hx

/-- The numbers that were given out, but for that of the root, are those from two to the count. -/
theorem Accounts.erase_given (h : Accounts past t) :
    (given past).toFinset.erase rootId = Finset.Icc 2 t.view.identities.count := by
  ext id
  rw [Finset.mem_erase, List.mem_toFinset, mem_given_iff, Finset.mem_Icc]
  constructor
  · rintro ⟨hroot, p, hmem⟩
    have hpath := Identities.pathOf?_eq_some_iff.mpr (h.numbered p id hmem)
    obtain ⟨hone, hcount⟩ := Identities.exists_pathOf?_iff.mp ⟨p, hpath⟩
    exact ⟨Nat.lt_of_le_of_ne hone (Ne.symm hroot), hcount⟩
  · rintro ⟨htwo, hcount⟩
    obtain ⟨p, hpath⟩ := Identities.exists_pathOf?_iff.mpr ⟨Nat.le_of_succ_le htwo, hcount⟩
    have hid := Identities.pathOf?_eq_some_iff.mp hpath
    have hne : id ≠ rootId := Ne.symm (Nat.ne_of_lt htwo)
    refine ⟨hne, p, ?_⟩
    rcases h.shown p (Identities.idOf?_eq_some_iff.mp hid).1 with rfl | ⟨id', hmem⟩
    · rw [Identities.idOf?_root] at hid
      exact absurd (Option.some.inj hid).symm hne
    · cases hid.symm.trans (h.numbered p id' hmem)
      exact hmem

/-- What holds of the numbers of a mount at any moment, and from then on. -/
structure Lasts (past : List Event) (t : Traffic) : Prop where
  root : t.view.identities.idOf? .root = some rootId
  bijective : ∀ p id, t.view.identities.idOf? p = some id ↔ t.view.identities.pathOf? id = some p
  range : ∀ id, (∃ p, t.view.identities.pathOf? id = some p) ↔
    1 ≤ id ∧ id ≤ t.view.identities.count
  tidy : ∀ p id, t.view.identities.pathOf? id = some p → normalize p.text = p.text
  /-- Later the path has that number still, and the number that path. -/
  lasting : ∀ more w, Run t more w → ∀ p id, t.view.identities.idOf? p = some id →
    w.view.identities.idOf? p = some id ∧ w.view.identities.pathOf? id = some p
  rechecked : ∀ more w, Run t more w → ∀ p,
    t.view.identities.assignSeen w.view.identities p = w.view.identities.assign p
  node : ∀ call n, .answered call (.node n) ∈ past → n.path = call.path
  opened : ∀ call f, .answered call (.opened f) ∈ past → f.node.path = call.path
  named : ∀ call answer, .answered call answer ∈ past → ∀ x ∈ answer.named call.path,
    t.view.identities.idOf? x.1 = some x.2 ∧ t.view.identities.pathOf? x.2 = some x.1
  /-- Whenever two answers name paths, they give them one number just if it is one path. -/
  alike : ∀ call answer call' answer', .answered call answer ∈ past →
    .answered call' answer' ∈ past → ∀ x ∈ answer.named call.path, ∀ y ∈ answer'.named call'.path,
      x.2 = y.2 ↔ x.1 = y.1
  spelled : ∀ a b i j, t.view.identities.idOf? (.ofText a) = some i →
    t.view.identities.idOf? (.ofText b) = some j → (i = j ↔ normalize a = normalize b)
  count : t.view.identities.count = ((given past).toFinset.erase rootId).card + 1

theorem idOf?_alike {ids : Identities} {p q : Path} {i j : NodeId} (hi : ids.idOf? p = some i)
    (hj : ids.idOf? q = some j) : i = j ↔ p = q := by
  constructor
  · rintro rfl
    rw [← Identities.pathOf?_eq_some_iff] at hi hj
    exact Option.some.inj (hi.symm.trans hj)
  · rintro rfl
    exact Option.some.inj (hi.symm.trans hj)

/-- However operations take turns on a new mount and whatever becomes of its cache meanwhile, each
path keeps the one number that it was first given, and every answer goes by it. -/
theorem identities_last {v : View} (hnew : v.identities = .initial) (h : Run ⟨v, []⟩ past t) :
    Lasts past t := by
  have haccounts := accounts_of_run hnew h
  have habout := (haccounts.about ⟨fun _ _ => True, fun _ => True⟩ (fun _ _ _ => trivial)
    fun _ => trivial).2
  refine {
    root := Identities.idOf?_root _
    bijective := fun p id => Identities.pathOf?_eq_some_iff.symm
    range := fun id => Identities.exists_pathOf?_iff
    tidy := fun p id _ => by rw [normalize, Path.ofText_text]
    lasting := fun more w hrun p id hid => ?_
    rechecked := fun more w hrun p => Identities.assignSeen_eq hrun.shown p
    node := fun call n hmem => (habout call _ hmem).1
    opened := fun call f hmem => (habout call _ hmem).1
    named := fun call answer hmem x hx => ?_
    alike := fun call answer call' answer' hmem hmem' x hx y hy =>
      idOf?_alike (haccounts.named hmem hx) (haccounts.named hmem' hy)
    spelled := fun a b i j hi hj => (idOf?_alike hi hj).trans normalize_eq_iff.symm
    count := ?_ }
  · have hlater := Identities.idOf?_of_shown_prefix hrun.shown hid
    exact ⟨hlater, Identities.pathOf?_eq_some_iff.mpr hlater⟩
  · have hid := haccounts.named hmem hx
    exact ⟨hid, Identities.pathOf?_eq_some_iff.mpr hid⟩
  · have hroot := Identities.pathOf?_eq_some_iff.mpr (Identities.idOf?_root t.view.identities)
    have hpos : 1 ≤ t.view.identities.count := (Identities.exists_pathOf?_iff.mp ⟨.root, hroot⟩).2
    rw [haccounts.erase_given, Nat.card_Icc]
    omega

/-- A cache whose root lists a file that is not there yet. -/
def pantry : Store :=
  (Store.publishIndex ⟨[], 100, .empty ⟨7, 0⟩, { capacity := 4 }⟩ .root
    (.listing [⟨.file, 5, 0, "a"⟩])).1

/-- The cache with the name given to a directory. -/
def pantryRefilled : Store := (pantry.publishIndex .root (.listing [⟨.directory, 0, 0, "a"⟩])).1

/-- The view after the name was looked up and the directory took the place of the file. -/
def pantryView : View :=
  { (Call.start (.lookup (.ofText "//a/.")) { store := pantry }).state with
    store := pantryRefilled }

/-- A name is looked up as that of a file, and listed when it is that of a directory. -/
theorem identities_last_pantry : ∃ past t, Run ⟨{ store := pantry }, []⟩ past t ∧
    .answered (.lookup (.ofText "//a/.")) (.node ⟨2, .ofText "/a", .file, ⟨5, 0⟩, false⟩) ∈ past ∧
    .answered (.readDirectory .root) (.listed [⟨3, ".lazyfs-helper", .control⟩,
      ⟨4, ".lazyfs-cache", .symlink⟩, ⟨2, "a", .staticDirectory⟩]) ∈ past ∧
    Lasts past t := by
  have hlooked : (Call.start (.lookup (.ofText "//a/.")) { store := pantry }).answer? =
      some (.node ⟨2, .ofText "/a", .file, ⟨5, 0⟩, false⟩) := by decide +kernel
  have hlisted : (Call.start (.readDirectory .root) pantryView).answer? =
      some (.listed [⟨3, ".lazyfs-helper", .control⟩, ⟨4, ".lazyfs-cache", .symlink⟩,
        ⟨2, "a", .staticDirectory⟩]) := by decide +kernel
  obtain ⟨looked, hgoes⟩ := goes_of_answer? _ [] _ hlooked
  obtain ⟨listed, hgoes'⟩ := goes_of_answer? _ [] _ hlisted
  have hrun := ((Run.start.goes hgoes).alter pantryRefilled).goes hgoes'
  exact ⟨_, _, hrun, by simp, by simp, identities_last rfl hrun⟩

end Traffic
end OnDemandFs
