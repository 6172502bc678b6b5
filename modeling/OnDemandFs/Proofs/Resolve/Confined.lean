import OnDemandFs.Proofs.Resolve.Queries
import OnDemandFs.Proofs.Store.Physical
import OnDemandFs.Proofs.Text.Ascii

/-!
# Nothing outside the tree is touched

The store and the broker take paths as they come, and a `..` or a reserved name in one would lead
out of the cache or to an index. That none gets there is up to the operations: the names of the path
that a client gives are checked one by one as the walk meets them, those of an index when it is
decoded, and those of the disk when it is listed. `Plan.Within` follows a plan through all answers
that it can get, whatever is on the disk, and `operations_confined` reads off what any run of an
operation touches.
-/
namespace OnDemandFs

/-- A name that leads neither up nor aside nor to an index. -/
structure IsInner (n : String) : Prop where
  ne_above : n ≠ ".."
  ordinary : ¬ IsReserved n
  noSlash : '/' ∉ n.toList

/-- All segments are names of entries. -/
def Path.IsConfined (p : Path) : Prop :=
  ∀ n ∈ p.names, n ≠ "" ∧ '/' ∉ n.toList ∧ n ≠ "." ∧ n ≠ ".." ∧ ¬ IsReserved n

instance (p : Path) : Decidable p.IsConfined := inferInstanceAs (Decidable (∀ n ∈ p.names, _))

namespace Path.IsConfined
variable {p : Path} {n : String}

theorem root : Path.root.IsConfined := by
  intro n hn
  cases hn

theorem extend (h : p.IsConfined) (hn : IsInner n) : (p.extend n).IsConfined := by
  by_cases hsegment : IsSegment n
  · intro m hm
    rw [p.names_extend_of_isSegment hsegment, List.mem_append, List.mem_singleton] at hm
    rcases hm with hm | rfl
    · exact h m hm
    · exact ⟨hsegment.1, hn.noSlash, hsegment.2.1, hn.ne_above, hn.ordinary⟩
  · rw [p.extend_of_not_isSegment hn.noSlash hsegment]
    exact h

theorem of_prefix {q : Path} (h : p.IsConfined) (hq : q.names <+: p.names) : q.IsConfined :=
  fun n hn => h n (hq.subset hn)

end Path.IsConfined

theorem Path.isConfined_extend_iff {p : Path} {n : String} (hn : IsSegment n) :
    (p.extend n).IsConfined ↔ p.IsConfined ∧ n ≠ ".." ∧ ¬ IsReserved n := by
  constructor
  · intro h
    unfold IsConfined at h ⊢
    rw [p.names_extend_of_isSegment hn] at h
    refine ⟨fun m hm => h m (List.mem_append_left _ hm), ?_⟩
    exact (h n (List.mem_append_right _ (List.mem_singleton_self n))).2.2.2
  · intro h
    exact h.1.extend ⟨h.2.1, h.2.2, hn.2.2⟩

theorem IsEntryName.isInner {n : String} (h : IsEntryName n) : IsInner n :=
  ⟨h.2.2.1, h.2.2.2.1, h.2.2.2.2.1⟩

/-- What can be relied on of a view, whatever was published: the remembered listings were decoded,
and a disk has no place that is called like the one above it or with a slash. -/
structure View.Sound (v : View) : Prop where
  valid : v.store.indices.Valid
  names : ∀ row ∈ v.store.disk.objects, ∀ n ∈ row.1.getLast?, n ≠ Disk.above ∧ Disk.slash ∉ n

/-- Names that are listed from the disk lead nowhere else. -/
theorem View.Sound.isInner_of_listPhysical {v : View} (h : v.Sound) {dir : Path}
    {names : List (String × EntryKind)} (hnames : v.store.listPhysical dir = .ok names)
    {c : String × EntryKind} (hc : c ∈ names) : IsInner c.1 := by
  obtain ⟨hordinary, place, o, hmem, -⟩ := Store.exists_of_mem_listPhysical hnames hc
  have hplace := h.names _ (Disk.mem_children_iff.mp hmem) (Utf8.encode c.1)
    (by rw [List.getLast?_concat]; rfl)
  refine ⟨fun habove => hplace.1 ?_, hordinary, ?_⟩
  · rw [habove]
    decide
  · rw [← Utf8.slash_mem_encode_iff]
    exact hplace.2

namespace Query
variable {β : Type}

/-- An answer that a sound view can give. -/
def IsSound : Query β → β → Prop
  | index _, told => ∀ entries, told = .ok (some (.listing entries)) → IsListing entries
  | names _, told => ∀ listed, told = .ok listed → ∀ c ∈ listed, IsInner c.1
  | _, _ => True

/-- Whatever else it does, the helper leaves a sound view. -/
def KeepsSound (helper : Helper View) : Prop :=
  ∀ (asked : List Path) (p : Path) (v : View), v.Sound → (helper asked p v).1.Sound

theorem sound_answer {helper : Helper View} (hhelper : KeepsSound helper) (q : Query β)
    (asked : List Path) {v : View} (hv : v.Sound) :
    (q.answer.run helper asked v).state.Sound ∧
      ∀ b, (q.answer.run helper asked v).result = .ok b → q.IsSound b := by
  cases q with
  | ask p =>
      rw [answer, Asking.run_ask]
      exact ⟨hhelper asked p v hv, fun _ _ => trivial⟩
  | index dir =>
      refine ⟨⟨Store.valid_readIndex hv.valid dir, ?_⟩, ?_⟩
      · have hdisk : (v.store.readIndex dir).1.disk = v.store.disk :=
          (v.store.alike_readIndex dir).disk
        change ∀ row ∈ (v.store.readIndex dir).1.disk.objects, _
        rw [hdisk]
        exact hv.names
      · rintro b ⟨⟩ entries hlisting
        exact Store.isListing_of_index? hv.valid hlisting
  | names dir =>
      refine ⟨hv, ?_⟩
      rintro b ⟨⟩ listed hlisted c hc
      exact hv.isInner_of_listPhysical hlisted hc
  | entry | body | facts => exact ⟨hv, fun _ _ => trivial⟩
  | number => exact ⟨⟨hv.valid, hv.names⟩, fun _ _ => trivial⟩

end Query

namespace Plan
variable {α β : Type}

/-- Whatever sound answers it gets, the plan is about confined paths only,
and what it comes to is as told. -/
def Within (P : α → Prop) : Plan α → Prop
  | ended r => ∀ a, r = .ok a → P a
  | query q next => (∀ p ∈ q.paths, p.IsConfined) ∧ ∀ b, q.IsSound b → (next b).Within P

theorem Within.touched {P : α → Prop} {plan : Plan α} (h : plan.Within P) {helper : Helper View}
    (hhelper : Query.KeepsSound helper) (asked : List Path) {v : View} (hv : v.Sound) :
    ∀ p ∈ plan.touched helper asked v, p.IsConfined := by
  induction plan generalizing asked v with
  | ended r =>
      intro p hp
      cases hp
  | query q next ih =>
      have hsound := Query.sound_answer hhelper q asked hv
      intro p hp
      rw [Plan.touched] at hp
      rcases List.mem_append.mp hp with hp | hp
      · exact h.1 p hp
      · revert hsound hp
        rcases q.answer.run helper asked v with ⟨asked', w, fault | b⟩
        · intro _ hp
          cases hp
        · intro hsound hp
          exact ih b (h.2 b (hsound.2 b rfl)) asked' hsound.1 p hp

variable {P : α → Prop} {Q : β → Prop}

theorem Within.bind {plan : Plan α} {f : α → Plan β} (h : plan.Within P)
    (hf : ∀ a, P a → (f a).Within Q) : (plan >>= f).Within Q := by
  change (plan.andThen f).Within Q
  induction plan with
  | ended r =>
      cases r with
      | ok a => exact hf a (h a rfl)
      | error fault => nofun
  | query q next ih => exact ⟨h.1, fun b hb => ih b (h.2 b hb)⟩

theorem Within.mono {P' : α → Prop} {plan : Plan α} (h : plan.Within P) (hP : ∀ a, P a → P' a) :
    plan.Within P' := by
  induction plan with
  | ended r => exact fun a ha => hP a (h a ha)
  | query q next ih => exact ⟨h.1, fun b hb => ih b (h.2 b hb)⟩

theorem within_pure {a : α} (h : P a) : (pure a : Plan α).Within P := by
  rintro _ ⟨⟩
  exact h

theorem within_fail (fault : Fault) : (fail fault : Plan α).Within P := nofun

theorem within_ended (r : Except Fault α) : (ended r).Within fun a => r = .ok a := fun _ h => h

theorem Within.mapM {f : α → Plan β} (hf : ∀ a, P a → (f a).Within Q) {l : List α}
    (hl : ∀ a ∈ l, P a) : (l.mapM f).Within fun _ => True := by
  induction l with
  | nil => exact within_pure trivial
  | cons a l ih =>
      rw [List.mapM_cons]
      refine (hf a (hl a List.mem_cons_self)).bind fun b _ => ?_
      refine (ih fun a' ha' => hl a' (List.mem_cons_of_mem _ ha')).bind fun bs _ => ?_
      exact within_pure trivial

/-! ### The walk -/

variable {p dir child : Path} {n : String}

theorem within_ask (hp : p.IsConfined) : (ask p).Within fun _ => True :=
  ⟨fun _ hq => List.mem_singleton.mp hq ▸ hp, fun _ _ => within_pure trivial⟩

theorem within_entry (hp : p.IsConfined) : (entry p).Within fun _ => True :=
  ⟨fun _ hq => List.mem_singleton.mp hq ▸ hp, fun _ _ => within_pure trivial⟩

theorem within_index (hdir : dir.IsConfined) : (index dir).Within fun told =>
    ∀ entries, told = .ok (some (.listing entries)) → IsListing entries :=
  ⟨fun _ hq => List.mem_singleton.mp hq ▸ hdir, fun _ hb => within_pure hb⟩

theorem within_names (hdir : dir.IsConfined) : (names dir).Within fun told =>
    ∀ listed, told = .ok listed → ∀ c ∈ listed, IsInner c.1 :=
  ⟨fun _ hq => List.mem_singleton.mp hq ▸ hdir, fun _ hb => within_pure hb⟩

theorem within_body (hp : p.IsConfined) : (body p).Within fun _ => True :=
  ⟨fun _ hq => List.mem_singleton.mp hq ▸ hp, fun _ _ => within_pure trivial⟩

theorem within_number (p : Path) : (number p).Within fun _ => True :=
  ⟨nofun, fun _ _ => within_pure trivial⟩

theorem within_facts : facts.Within fun _ => True := ⟨nofun, fun _ _ => within_pure trivial⟩

/-- An index that is held is well formed. -/
def WellListed (index : Index) : Prop := ∀ entries, index = .listing entries → IsListing entries

theorem within_held (hdir : dir.IsConfined) : (held dir).Within fun told =>
    ∀ index, told = .ok (.index index) → WellListed index := by
  refine (within_entry hdir).bind fun found _ => ?_
  rcases found with fault | _ | e
  · exact within_pure nofun
  · exact within_pure nofun
  · dsimp only
    split
    · refine (within_index hdir).bind fun told htold => within_pure ?_
      rintro index hindex entries rfl
      obtain ⟨_, -, -, hlisting⟩ := Peeked.directory_of_index hindex
      exact htold entries hlisting
    · exact within_pure nofun

theorem within_peek (hdir : dir.IsConfined) : (peek dir).Within fun held =>
    ∀ index, held = .index index → WellListed index := by
  refine (within_held hdir).bind fun told htold => (within_ended told).mono ?_
  rintro held rfl index rfl
  exact htold index rfl

theorem within_askForIndex (hdir : dir.IsConfined) : (askForIndex dir).Within fun index =>
    ∀ known, index = some known → WellListed known := by
  refine (within_ask hdir).bind fun _ _ => (within_peek hdir).bind fun held hheld => ?_
  cases held with
  | index index =>
      refine within_pure ?_
      rintro _ ⟨⟩
      exact hheld index rfl
  | absent => exact within_pure nofun
  | foreign => exact within_fail _

theorem within_ensureIndex (hdir : dir.IsConfined) : (ensureIndex dir).Within fun index =>
    ∀ known, index = some known → WellListed known := by
  refine (within_peek hdir).bind fun held hheld => ?_
  cases held with
  | index index =>
      refine within_pure ?_
      rintro _ ⟨⟩
      exact hheld index rfl
  | absent => exact within_askForIndex hdir
  | foreign => exact within_askForIndex hdir

theorem within_directoryKind (hdir : dir.IsConfined) : (directoryKind dir).Within fun _ => True :=
  (within_held hdir).bind fun _ _ => within_pure trivial

theorem within_volatileChild (hchild : child.IsConfined) :
    (volatileChild child).Within fun x => x.path = child := by
  refine (within_ask hchild).bind fun _ _ => (within_entry hchild).bind fun found _ => ?_
  refine (within_ended _).mono fun x hx => ?_
  obtain ⟨e, -, hstanding⟩ := bind_eq_ok_iff.mp hx
  exact Store.path_of_standing hstanding

theorem within_resolveChild (hdir : dir.IsConfined) (hn : IsSegment n) :
    (resolveChild dir n).Within fun x => x.path.IsConfined := by
  unfold resolveChild
  split
  · exact within_fail _
  · next hname =>
      rw [not_or] at hname
      have hchild : (dir.extend n).IsConfined := hdir.extend ⟨hname.1, hname.2, hn.2.2⟩
      refine (within_ensureIndex hdir).bind fun index _ => ?_
      rcases index with _ | _ | entries
      · exact within_fail _
      · refine (within_volatileChild hchild).mono fun x hx => ?_
        rw [hx]
        exact hchild
      · unfold childIn
        dsimp only
        split
        · exact within_fail _
        · exact within_pure hchild

theorem within_walk {x : Resolved} (hx : x.path.IsConfined) {names : List String}
    (hnames : ∀ n ∈ names, IsSegment n) : (walk x names).Within fun y => y.path.IsConfined := by
  induction names generalizing x with
  | nil => exact within_pure hx
  | cons n rest ih =>
      unfold walk
      split
      · refine (within_resolveChild hx (hnames n List.mem_cons_self)).bind fun y hy => ?_
        exact ih hy fun m hm => hnames m (List.mem_cons_of_mem _ hm)
      · exact within_fail _

theorem isConfined_builtin {kind : NodeKind} (h : builtin? n = some kind) :
    (Path.root.extend n).IsConfined := by
  have hmem : n = controlName ∨ n = cacheLinkName := by
    unfold builtin? at h
    cases hfind : builtins.find? (·.1 = n) with
    | none =>
        rw [hfind] at h
        cases h
    | some row =>
        have hname : row.1 = n := by simpa using List.find?_some hfind
        have hrow := List.mem_of_find?_eq_some hfind
        rw [← hname]
        simp only [builtins, List.mem_cons, List.not_mem_nil, or_false] at hrow
        rcases hrow with rfl | rfl
        · exact .inl rfl
        · exact .inr rfl
  refine Path.IsConfined.root.extend ?_
  rcases hmem with rfl | rfl
  · exact ⟨by decide, by decide, by decide⟩
  · exact ⟨by decide, by decide, by decide⟩

theorem within_walkFromRoot (p : Path) : (walkFromRoot p).Within fun x => x.path.IsConfined := by
  unfold walkFromRoot
  have hsegments := p.allSegments
  generalize p.names = names at hsegments ⊢
  cases names with
  | nil => exact within_pure .root
  | cons n rest =>
      dsimp only
      cases hbuiltin : builtin? n with
      | none => exact within_walk .root hsegments
      | some kind =>
          dsimp only
          split
          · exact within_pure (isConfined_builtin hbuiltin)
          · exact within_fail _

theorem within_resolve (p : Path) : (resolve p).Within fun x => x.path.IsConfined := by
  refine (within_walkFromRoot p).bind fun x hx => ?_
  split
  · refine (within_directoryKind hx).bind fun told _ => (within_ended told).bind fun kind _ => ?_
    exact within_pure hx
  · exact within_pure hx

/-! ### The operations -/

variable {x : Resolved}

theorem within_attributes (hx : x.path.IsConfined) : (attributes x).Within fun _ => True := by
  unfold attributes
  rcases x.kind with _ | _ | _ | _ | _
  · refine (within_entry hx).bind fun told _ => (within_ended told).bind fun found _ => ?_
    split <;> exact within_pure trivial
  · refine (within_entry hx).bind fun told _ => (within_ended told).bind fun found _ => ?_
    split <;> exact within_pure trivial
  · refine (within_entry hx).bind fun told _ => (within_ended told).bind fun found _ => ?_
    split <;> exact within_pure trivial
  · exact within_facts.bind fun _ _ => within_pure trivial
  · exact within_facts.bind fun _ _ => within_pure trivial

theorem within_lookup (p : Path) : (lookup p).Within fun _ => True :=
  (within_resolve p).bind fun x hx => (within_attributes hx).bind fun _ _ =>
    (within_number x.path).bind fun _ _ => within_pure trivial

theorem within_children (hdir : dir.IsConfined) {index : Option Index}
    (hindex : ∀ known, index = some known → WellListed known) :
    (children dir index).Within fun names => ∀ c ∈ names, IsInner c.1 := by
  rcases index with _ | _ | entries
  · unfold children
    dsimp only
    split
    · exact within_pure nofun
    · exact within_fail _
  · refine (within_names hdir).bind fun told htold => (within_ended told).mono ?_
    rintro names rfl
    exact htold names rfl
  · refine within_pure fun c hc => ?_
    obtain ⟨e, he, rfl⟩ := List.mem_map.mp hc
    exact ((hindex _ rfl entries rfl).names e he).isInner

theorem within_listChild (hdir : dir.IsConfined) {c : String × EntryKind} (hc : IsInner c.1) :
    (listChild dir c).Within fun _ => True := by
  have hkind : (childKind (dir.extend c.1) c.2).Within fun _ => True := by
    cases c.2 with
    | file => exact within_pure trivial
    | directory =>
        refine (within_directoryKind (hdir.extend hc)).bind fun told _ => ?_
        cases told <;> exact within_pure trivial
  exact hkind.bind fun _ _ => (within_number _).bind fun _ _ => within_pure trivial

theorem within_indexForListing (hdir : dir.IsConfined) : (indexForListing dir).Within fun index =>
    ∀ known, index = some known → WellListed known := by
  refine (within_peek hdir).bind fun held hheld => ?_
  rcases held with _ | (_ | entries) | _
  · exact within_askForIndex hdir
  · exact within_askForIndex hdir
  · refine within_pure ?_
    rintro _ ⟨⟩
    exact hheld _ rfl
  · exact within_askForIndex hdir

theorem within_firstEntries (dir : Path) : (firstEntries dir).Within fun _ => True := by
  unfold firstEntries
  split
  · refine Within.mapM (P := fun _ => True) (Q := fun _ => True) (fun b _ => ?_) fun _ _ => trivial
    exact (within_number _).bind fun _ _ => within_pure trivial
  · exact within_pure trivial

theorem within_entriesOf (hx : x.path.IsConfined) : (entriesOf x).Within fun _ => True := by
  refine (within_firstEntries x.path).bind fun _ _ =>
    (within_indexForListing hx).bind fun index hindex =>
      (within_children hx hindex).bind fun names hnames => ?_
  refine (Within.mapM (fun c => within_listChild hx) fun c hc => ?_).bind fun _ _ =>
    within_pure trivial
  exact hnames c (List.mem_filter.mp hc).1

theorem within_readDirectory (p : Path) : (readDirectory p).Within fun _ => True :=
  (within_resolve p).bind fun x hx => by
    split
    · exact within_entriesOf hx
    · exact within_fail _

theorem within_ensureBody (hx : x.path.IsConfined) : (ensureBody x).Within fun _ => True := by
  refine (within_entry hx).bind fun told _ => (within_ended told).bind fun cached _ =>
    within_facts.bind fun m _ => ?_
  split
  · exact within_pure trivial
  · refine (within_ask hx).bind fun _ _ => (within_entry hx).bind fun told _ =>
      (within_ended told).bind fun found _ => ?_
    split
    · split
      · exact within_pure trivial
      · exact within_fail _
    · exact within_fail _

theorem within_openBody (hx : x.path.IsConfined) : (openBody x).Within fun _ => True := by
  refine (within_body hx).bind fun told _ => (within_ended told).bind fun found _ => ?_
  split
  · exact (within_number _).bind fun _ _ => within_pure trivial
  · exact within_fail _

theorem within_openFile (p : Path) : (openFile p).Within fun _ => True :=
  (within_resolve p).bind fun x hx => by
    split
    · exact (within_ensureBody hx).bind fun _ _ => within_openBody hx
    · exact within_fail _
    · exact within_fail _
    · exact within_fail _
    · exact within_fail _

theorem within_readLink (p : Path) : (readLink p).Within fun _ => True :=
  (within_resolve p).bind fun x _ => within_facts.bind fun _ _ => by
    split
    · exact within_pure trivial
    · exact within_fail _

end Plan

/-- The plan is one of the operation, and a run of it touches confined paths only. -/
structure Confines {α : Type} (helper : Helper View) (v : View) (plan : Plan α) (m : Resolver α) :
    Prop where
  meaning : plan.meaning = m
  touched : ∀ p ∈ plan.touched helper [] v, p.IsConfined
  asked : ∀ p ∈ (m.run helper [] v).asked, p.IsConfined

theorem Plan.Within.confines {α : Type} {P : α → Prop} {plan : Plan α} {m : Resolver α}
    (h : plan.Within P) (hmeaning : plan.meaning = m) {helper : Helper View}
    (hhelper : Query.KeepsSound helper) {v : View} (hv : v.Sound) :
    Confines helper v plan m := by
  have htouched := h.touched hhelper [] hv
  obtain ⟨more, hmore, hsubset⟩ := plan.asked_subset_touched helper [] v
  rw [hmeaning, List.nil_append] at hmore
  refine ⟨hmeaning, htouched, ?_⟩
  rw [hmore]
  exact fun p hp => htouched p (hsubset p hp)

/-- Whatever text a client gives for a path, whatever is in the cache and whatever the helper does
meanwhile, no operation hands a path to the store or to the broker that has a segment other than
the name of an entry. -/
theorem operations_confined {helper : Helper View} (hhelper : Query.KeepsSound helper) {v : View}
    (hv : v.Sound) (text : String) :
    Confines helper v (Plan.lookup (.ofText text)) (Resolver.lookup (.ofText text)) ∧
    Confines helper v (Plan.readDirectory (.ofText text)) (Resolver.readDirectory (.ofText text)) ∧
    Confines helper v (Plan.openFile (.ofText text)) (Resolver.openFile (.ofText text)) ∧
    Confines helper v (Plan.readLink (.ofText text)) (Resolver.readLink (.ofText text)) :=
  ⟨(Plan.within_lookup _).confines (Plan.meaning_lookup _) hhelper hv,
    (Plan.within_readDirectory _).confines (Plan.meaning_readDirectory _) hhelper hv,
    (Plan.within_openFile _).confines (Plan.meaning_openFile _) hhelper hv,
    (Plan.within_readLink _).confines (Plan.meaning_readLink _) hhelper hv⟩

/-- A dynamic root in which something stands under a name that an index cannot carry, and an index
below it that declares a way out. -/
def hostileDisk : Disk where
  objects := [([], .directory ⟨0, 0⟩), ([[99]], .directory ⟨0, 1⟩),
    ([[99], Store.indexName], .file 1), ([[99], Store.indexName ++ [46]], .file 2),
    ([[99], [100]], .directory ⟨0, 2⟩), ([[99], [100], Store.indexName], .file 2)]
  bodies := [(1, ⟨Index.encode .dynamic, ⟨5, 0⟩⟩),
    (2, ⟨Index.encode (.listing [⟨.file, 4, 7, ".."⟩]), ⟨6, 0⟩⟩)]
  nextFile := 3
  clock := ⟨0, 3⟩

/-- The helper puts that disk in the place of whatever was there, whenever it is asked. -/
theorem operations_confined_hostileDisk : ∃ (helper : Helper View) (v : View),
    Query.KeepsSound helper ∧ v.Sound ∧ v.store.disk ≠ hostileDisk ∧
    Confines helper v (Plan.readDirectory (.ofText "/d/../..."))
      (Resolver.readDirectory (.ofText "/d/../...")) := by
  have hnames : ∀ row ∈ hostileDisk.objects, ∀ n ∈ row.1.getLast?,
      n ≠ Disk.above ∧ Disk.slash ∉ n := by decide
  have hhelper : Query.KeepsSound fun _ _ v =>
      ({ v with store := { v.store with disk := hostileDisk } }, .ok ()) :=
    fun _ _ _ hv => ⟨hv.valid, hnames⟩
  have hv : View.Sound { store := ⟨[[99]], 1000, .empty ⟨0, 0⟩, { capacity := 4 }⟩ } :=
    ⟨IndexCache.valid_of_known_nil rfl, by decide⟩
  have hempty : (Disk.empty ⟨0, 0⟩).nextFile ≠ hostileDisk.nextFile := by decide
  exact ⟨_, _, hhelper, hv, fun h => hempty (congrArg Disk.nextFile h),
    (operations_confined hhelper hv _).2.1⟩

end OnDemandFs
