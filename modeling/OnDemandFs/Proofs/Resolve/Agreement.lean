import OnDemandFs.Proofs.Index.RoundTrip
import OnDemandFs.Proofs.Resolve.Presented

/-!
# Look-ups agree with the presented tree

While a helper publishes nothing, a look-up of a path ends well exactly if something is shown there
that can be read, and then tells what is shown: its kind, whether it is volatile, its attributes. It
fails otherwise, with what stood in its way first, `Store.Blocked`. Two things may surprise:
built-in entries are never volatile, also in a dynamic root, and a fault of the disk other than a
missing name stands in the way of what a listing declares.
-/
namespace OnDemandFs

namespace Store

/-- What keeps a look-up of a path from ending well. -/
inductive Blocked (s : Store) (p : Path) : Fault → Prop
  | obstacle {x : Resolved} {n : String} {rest : List String} {fault : Fault} : Shows s x →
      p.names = x.path.names ++ n :: rest → Obstacle s x n fault → Blocked s p fault
  | unreadable {x : Resolved} {fault : Fault} : Shows s x → x.path = p →
      x.kind.isDirectory = true → s.placed p = .error fault → Blocked s p fault
  | unseen {x : Resolved} {fault : Fault} : Shows s x → x.path = p → x.kind = .file →
      s.stat p = .error fault → Blocked s p fault

/-- A directory's own index can be read, and the disk can be looked at where a file would be. -/
structure IsLegible (s : Store) (x : Resolved) : Prop where
  directory : x.kind.isDirectory = true → ∃ h, s.placed x.path = .ok h
  file : x.kind = .file → ∃ found, s.stat x.path = .ok found

end Store

namespace View
variable {v : View} {p : Path} {x : Resolved} {fault : Fault}

/-- A node tells what the cache presents in its place. -/
structure Describes (v : View) (x : Resolved) (node : Node) : Prop where
  path : node.path = x.path
  dynamic_iff : node.kind = .dynamicDirectory ↔
    x.kind.isDirectory = true ∧ v.store.placed x.path = .ok (.index .dynamic)
  kind : node.kind ≠ .dynamicDirectory → node.kind = x.kind
  volatile_iff : node.volatile = true ↔
    x.path.isRoot = false ∧ ¬ x.path.IsBuiltin ∧
      v.store.placed x.path.parent = .ok (.index .dynamic)
  attr : Resolver.attributes x v = .ok node.attr

/-- What came of a look-up agrees with the tree that the cache presents. -/
structure Agrees (v : View) (p : Path) (r : Except Fault Node) : Prop where
  ok_iff : (∃ node, r = .ok node) ↔ ∃ x, v.store.Shows x ∧ x.path = p ∧ v.store.IsLegible x
  node : ∀ node, r = .ok node → ∃ x, v.store.Shows x ∧ x.path = p ∧ v.Describes x node
  error_iff : ∀ fault, r = .error fault ↔ v.store.Blocked p fault

theorem described_of_blocked (h : v.store.Truthful) (hblocked : v.store.Blocked p fault) :
    v.described p = .error fault := by
  unfold described Store.resolved
  cases hblocked with
  | obstacle hs hp hobstacle =>
      rw [(Store.reached_eq_error_iff h).mpr ⟨_, _, _, hs, hp, hobstacle⟩]
      rfl
  | @unreadable x _ hs hp hdir hplaced =>
      subst hp
      have hclassified : v.store.classified x = .error fault := by
        rw [Store.classified, if_pos hdir, Store.held_eq_placed h, hplaced]
        rfl
      rw [hs.reached h]
      change (v.store.classified x >>= _) = _
      rw [hclassified]
      rfl
  | @unseen x _ hs hp hfile hstat =>
      subst hp
      have hclassified : v.store.classified x = .ok x := by
        rw [Store.classified, hfile]
        rfl
      have hattr : Resolver.attributes x v = .error fault := by
        rw [Resolver.attributes, hfile]
        dsimp only
        rw [hstat]
        rfl
      rw [hs.reached h]
      change (v.store.classified x >>= _) = _
      rw [hclassified]
      change (Resolver.attributes x v >>= _) = _
      rw [hattr]
      rfl

theorem not_blocked_of_isLegible (h : v.store.Truthful) (hs : v.store.Shows x)
    (hlegible : v.store.IsLegible x) : ¬ v.store.Blocked x.path fault := by
  have hreached := hs.reached h
  intro hblocked
  cases hblocked with
  | obstacle hs' hp hobstacle =>
      rw [(Store.reached_eq_error_iff h).mpr ⟨_, _, _, hs', hp, hobstacle⟩] at hreached
      cases hreached
  | unreadable hs' hp hdir hplaced =>
      rw [← hp, hs'.reached h] at hreached
      cases hreached
      obtain ⟨_, hok⟩ := hlegible.directory hdir
      rw [hok] at hplaced
      cases hplaced
  | unseen hs' hp hfile hstat =>
      rw [← hp, hs'.reached h] at hreached
      cases hreached
      obtain ⟨_, hok⟩ := hlegible.file hfile
      rw [hok] at hstat
      cases hstat

/-- The attributes of a directory do not depend on which kind of directory it is. -/
theorem attributes_of_isDirectory {kind : NodeKind} (hx : x.kind.isDirectory = true)
    (hkind : kind.isDirectory = true) :
    Resolver.attributes { x with kind } v = Resolver.attributes x v := by
  obtain ⟨path, kind', hint, volatile⟩ := x
  cases kind' <;> cases hx <;> cases kind <;> cases hkind <;> rfl

theorem attributes_of_isLegible (hlegible : v.store.IsLegible x) :
    ∃ attr, Resolver.attributes x v = .ok attr := by
  have hstat : x.kind.isDirectory = true ∨ x.kind = .file →
      ∃ found, v.store.stat x.path = .ok found := by
    rintro (hdir | hfile)
    · obtain ⟨_, hplaced⟩ := hlegible.directory hdir
      obtain ⟨found, hfound, -⟩ := Store.stat_of_placed hplaced
      exact ⟨found, hfound⟩
    · exact hlegible.file hfile
  unfold Resolver.attributes
  cases hk : x.kind with
  | control => exact ⟨_, rfl⟩
  | symlink => exact ⟨_, rfl⟩
  | file =>
      obtain ⟨found, hfound⟩ := hstat (.inr hk)
      dsimp only
      rw [hfound]
      rcases found with _ | ⟨kind, _, _, _⟩
      · exact ⟨_, rfl⟩
      · cases kind <;> exact ⟨_, rfl⟩
  | staticDirectory | dynamicDirectory =>
      obtain ⟨found, hfound⟩ := hstat (.inl (by rw [hk]; rfl))
      dsimp only
      rw [hfound]
      rcases found with _ | ⟨kind, _, _, _⟩
      · exact ⟨_, rfl⟩
      · cases kind <;> exact ⟨_, rfl⟩

/-- The kind that a node has in the end: that of a directory is read off its own index. -/
theorem classified_of_isLegible (h : v.store.Truthful) (hs : v.store.Shows x)
    (hlegible : v.store.IsLegible x) : ∃ kind,
    v.store.classified x = .ok { x with kind } ∧ kind.isDirectory = x.kind.isDirectory ∧
    (kind = .dynamicDirectory ↔
      x.kind.isDirectory = true ∧ v.store.placed x.path = .ok (.index .dynamic)) ∧
    (kind ≠ .dynamicDirectory → kind = x.kind) := by
  have hstatic := hs.kind_ne_dynamicDirectory
  cases hdir : x.kind.isDirectory with
  | false =>
      refine ⟨x.kind, ?_, hdir, ⟨fun hk => absurd hk hstatic, fun hk => ?_⟩, fun _ => rfl⟩
      · rw [Store.classified, hdir]
        rfl
      · cases hk.1
  | true =>
      obtain ⟨held, hplaced⟩ := hlegible.directory hdir
      have hkind : x.kind = .staticDirectory := by
        revert hdir hstatic
        cases x.kind <;> simp [NodeKind.isDirectory]
      refine ⟨held.kind, ?_, ?_, ?_, ?_⟩
      · rw [Store.classified, if_pos hdir, Store.held_eq_placed h, hplaced]
        rfl
      · rcases held with _ | (_ | _) | _ <;> rfl
      · rw [hplaced]
        rcases held with _ | (_ | _) | _ <;> simp [Peeked.kind]
      · rw [hkind]
        rcases held with _ | (_ | _) | _ <;> simp [Peeked.kind]

theorem described_of_isLegible (h : v.store.Truthful) (hs : v.store.Shows x)
    (hlegible : v.store.IsLegible x) : ∃ kind attr,
    v.described x.path = .ok ({ x with kind }, attr) ∧ Resolver.attributes x v = .ok attr ∧
    (kind = .dynamicDirectory ↔
      x.kind.isDirectory = true ∧ v.store.placed x.path = .ok (.index .dynamic)) ∧
    (kind ≠ .dynamicDirectory → kind = x.kind) := by
  obtain ⟨kind, hclassified, hdir, hdynamic, hstatic⟩ := classified_of_isLegible h hs hlegible
  obtain ⟨attr, hattr⟩ := attributes_of_isLegible hlegible
  have hsame : Resolver.attributes { x with kind } v = .ok attr := by
    by_cases hk : kind = .dynamicDirectory
    · rw [attributes_of_isDirectory (hdynamic.mp hk).1 (by rw [hk]; rfl), hattr]
    · rw [hstatic hk, ← hattr]
  have hresolved : v.store.resolved x.path = .ok { x with kind } := by
    rw [Store.resolved, hs.reached h]
    exact hclassified
  refine ⟨kind, attr, ?_, hattr, hdynamic, hstatic⟩
  rw [described, hresolved]
  change (Resolver.attributes { x with kind } v >>= _) = _
  rw [hsame]
  rfl

theorem isLegible_or_blocked (h : v.store.Truthful) (p : Path) :
    (∃ x, v.store.Shows x ∧ x.path = p ∧ v.store.IsLegible x) ∨
      ∃ fault, v.store.Blocked p fault := by
  cases hreached : v.store.reached p with
  | error fault =>
      obtain ⟨x, n, rest, hs, hp, hobstacle⟩ := (Store.reached_eq_error_iff h).mp hreached
      exact .inr ⟨fault, .obstacle hs hp hobstacle⟩
  | ok x =>
      obtain ⟨hs, rfl⟩ := (Store.reached_eq_ok_iff h).mp hreached
      cases hplaced : v.store.placed x.path with
      | ok held =>
          obtain ⟨found, hfound, -⟩ := Store.stat_of_placed hplaced
          exact .inl ⟨x, hs, rfl, fun _ => ⟨held, hplaced⟩, fun _ => ⟨found, hfound⟩⟩
      | error fault =>
          cases hdir : x.kind.isDirectory with
          | true => exact .inr ⟨fault, .unreadable hs rfl hdir hplaced⟩
          | false =>
              cases hstat : v.store.stat x.path with
              | ok found =>
                  refine .inl ⟨x, hs, rfl, fun hd => ?_, fun _ => ⟨found, hstat⟩⟩
                  rw [hdir] at hd
                  cases hd
              | error fault =>
                  by_cases hfile : x.kind = .file
                  · exact .inr ⟨fault, .unseen hs rfl hfile hstat⟩
                  · refine .inl ⟨x, hs, rfl, fun hd => ?_, fun hf => absurd hf hfile⟩
                    rw [hdir] at hd
                    cases hd

end View

namespace Resolver

open Asking

/-- While nothing is published a look-up agrees with the tree that the cache presents. -/
theorem lookup_agrees {answer : List Path → Path → View → View} (hidle : Helper.Idle answer)
    {v : View} (h : v.store.Truthful) (p : Path) : ∃ asked w r,
    (lookup p v).runWith answer [] = (asked, w, r) ∧ v.Calm w ∧ v.Agrees p r ∧
    ∀ node, r = .ok node → w.identities.idOf? p = some node.id := by
  have hcalm := calm_lookup hidle (.refl v) p []
  refine ⟨_, _, _, runWith_eq_run answer (lookup p) [] v, hcalm, ?_⟩
  rcases View.isLegible_or_blocked h p with ⟨x, hs, rfl, hlegible⟩ | ⟨fault, hblocked⟩
  · obtain ⟨kind, attr, hdescribed, hattr, hdynamic, hstatic⟩ :=
      View.described_of_isLegible h hs hlegible
    obtain ⟨id, hresult, hid⟩ := lookup_of_ok hidle (.refl v) hdescribed []
    rw [hresult]
    refine ⟨⟨?_, ?_, ?_⟩, ?_⟩
    · exact ⟨fun _ => ⟨x, hs, rfl, hlegible⟩, fun _ => ⟨_, rfl⟩⟩
    · rintro node ⟨⟩
      exact ⟨x, hs, rfl, rfl, hdynamic, hstatic, hs.volatile_iff, hattr⟩
    · intro fault
      refine ⟨nofun, fun hblocked => ?_⟩
      exact absurd hblocked (View.not_blocked_of_isLegible h hs hlegible)
    · rintro node ⟨⟩
      exact hid
  · rw [lookup_of_error hidle (.refl v) (View.described_of_blocked h hblocked) []]
    refine ⟨⟨?_, nofun, ?_⟩, nofun⟩
    · refine ⟨nofun, ?_⟩
      rintro ⟨x, hs, rfl, hlegible⟩
      exact absurd hblocked (View.not_blocked_of_isLegible h hs hlegible)
    · intro fault'
      constructor
      · rintro ⟨⟩
        exact hblocked
      · intro hblocked'
        have hsame := View.described_of_blocked h hblocked
        rw [View.described_of_blocked h hblocked'] at hsame
        cases hsame
        rfl

/-- A name of 256 letters, which an index can carry and no directory of the disk. -/
def longName : String := String.ofList (List.replicate 256 'x')

def longEntry : Entry := ⟨.file, 4, 7, longName⟩

/-- The index file of a directory with one file under the long name. -/
def wideIndex : Body := ⟨Index.encode (.listing [longEntry]), ⟨6, 0⟩⟩

/-- A dynamic root, with that directory in it. -/
def wideDisk : Disk where
  objects := [([], .directory ⟨0, 0⟩), ([[99]], .directory ⟨0, 1⟩),
    ([[99], Store.indexName], .file 1), ([[99], [100]], .directory ⟨0, 2⟩),
    ([[99], [100], Store.indexName], .file 2)]
  bodies := [(1, ⟨Index.encode .dynamic, ⟨5, 0⟩⟩), (2, wideIndex)]
  nextFile := 3
  clock := ⟨0, 3⟩

def wideView : View := { store := ⟨[[99]], 1000, wideDisk, { capacity := 4 }⟩ }

/-- The helper asks for the number of what it is asked for, and does nothing else. -/
theorem lookup_agrees_wideView :
    Helper.Idle (fun _ p v => (identify p v).1) ∧ wideView.store.Truthful ∧ ∃ asked w r,
      (lookup (.ofText "/d") wideView).runWith (fun _ p v => (identify p v).1) [] = (asked, w, r) ∧
      wideView.Calm w ∧ wideView.Agrees (.ofText "/d") r ∧
      ∀ node, r = .ok node → w.identities.idOf? (.ofText "/d") = some node.id := by
  have hidle : Helper.Idle (fun _ p v => (identify p v).1) := fun _ p v => calm_identify p v
  have htruthful : wideView.store.Truthful := Store.truthful_of_known_nil rfl
  exact ⟨hidle, htruthful, lookup_agrees hidle htruthful (.ofText "/d")⟩

theorem toList_longName : longName.toList = List.replicate 256 'x' := String.toList_ofList

theorem isEntryName_longName : IsEntryName longName := by
  have hne : ∀ s : String, s.toList ≠ List.replicate 256 'x' → longName ≠ s := by
    rintro s hs rfl
    exact hs toList_longName
  refine ⟨hne _ (by decide), hne _ (by decide), hne _ (by decide), ?_, ?_, ?_⟩
  · rw [IsReserved, toList_longName]
    decide
  · rw [toList_longName, List.mem_replicate]
    decide
  · rw [toList_longName, List.mem_replicate]
    decide

theorem encode_longName : Utf8.encode longName = List.replicate 256 120 := by decide +kernel

theorem entryText_longName : Index.entryText longEntry =
    'f' :: ' ' :: '4' :: ' ' :: '7' :: ' ' :: List.replicate 256 'x' := by
  have hname : longEntry.name.toList = List.replicate 256 'x' := toList_longName
  rw [Index.entryText, hname]
  rfl

theorem decode_wideIndex : Index.decode wideIndex.content = .ok (.listing [longEntry]) := by
  have hlisting : IsListing [longEntry] := by
    refine ⟨fun e he => ?_, List.nodup_singleton _⟩
    rw [List.mem_singleton.mp he]
    exact isEntryName_longName
  have hback : Index.decode (Index.encode (.listing [longEntry])) = .ok (.listing [longEntry]) :=
    Index.decode_encode fun entries h => by cases h; exact hlisting
  exact hback

theorem stat_wideView : wideView.store.stat (Path.root.extend "d") =
    .ok (some ⟨.directory, 0, 0, none⟩) := by decide +kernel

theorem placed_wideView : wideView.store.placed (Path.root.extend "d") =
    .ok (.index (.listing [longEntry])) := by
  have hfind : wideDisk.find true (wideView.store.indexPlace (Path.root.extend "d")) =
      .ok ([[99], [100], Store.indexName], .file 2) := by decide +kernel
  have hbody : wideDisk.body? 2 = some wideIndex := rfl
  have hmax : wideView.store.maxIndexBytes = 1000 := rfl
  have hlength : wideIndex.content.length ≤ wideView.store.maxIndexBytes := by
    rw [hmax, wideIndex, Index.encode, List.flatMap_singleton, Index.encodeEntry,
      entryText_longName]
    decide +kernel
  have hindex : wideView.store.indexOnDisk (Path.root.extend "d") =
      .ok (some (.listing [longEntry])) := by
    rw [Store.indexOnDisk, Store.report_none hfind hbody]
    exact Store.decoded_of_decode hlength decode_wideIndex
  rw [Store.placed, stat_wideView, hindex]
  rfl

theorem stat_longName : wideView.store.stat ((Path.root.extend "d").extend longName) =
    .error (.io (.system Errno.nameTooLong)) := by
  have hplace : wideView.store.physical ((Path.root.extend "d").extend longName) =
      [[99], [100], List.replicate 256 120] := by
    unfold Store.physical
    rw [Path.names_extend_of_isSegment _ isEntryName_longName.isSegment, List.map_append,
      List.map_singleton, encode_longName]
    decide +kernel
  rw [Store.stat, hplace]
  decide +kernel

theorem placed_root_wideView : wideView.store.placed .root = .ok (.index .dynamic) := by
  decide +kernel

def longFile : Resolved :=
  { path := (Path.root.extend "d").extend longName, kind := .file, hint := some longEntry }

/-- The directory is in the dynamic root, and declares the file. -/
theorem shows_longFile : wideView.store.Shows longFile := by
  have hshown : wideView.store.Shows
      { path := Path.root.extend "d", kind := .staticDirectory, volatile := true } := by
    refine .child .root rfl (.standing ?_ ?_ ?_ ?_ placed_root_wideView stat_wideView rfl)
    · exact fun _ => by decide +kernel
    · decide
    · decide
    · decide
  have hfree : Store.IsFree (Path.root.extend "d") longName := by
    intro hroot
    rw [Path.isRoot_extend _ (by decide)] at hroot
    cases hroot
  have hname : longEntry.name = longName := by rw [longEntry]
  have hmem : longEntry ∈ [longEntry] := List.mem_cons_self
  exact hshown.child rfl (Store.Child.declared hfree placed_wideView hmem hname)

/-- A built-in entry of a dynamic root is not volatile, and a file whose name the disk cannot carry
is shown and yet cannot be looked up. -/
theorem not_lookup_as_declared :
    wideView.store.placed .root = .ok (.index .dynamic) ∧
    (∃ node, ((lookup (Path.root.extend cacheLinkName) wideView).runWith
      (fun _ _ v => v) []).2.2 = .ok node ∧ node.volatile = false) ∧
    (∃ x, wideView.store.Shows x ∧ x.path = (Path.root.extend "d").extend longName ∧
      x.kind = .file) ∧
    ((lookup ((Path.root.extend "d").extend longName) wideView).runWith
      (fun _ _ v => v) []).2.2 = .error (.io (.system Errno.nameTooLong)) := by
  have hlink : (((lookup (Path.root.extend cacheLinkName) wideView).runWith
      (fun _ _ v => v) []).2.2.toOption.map (·.volatile)) = some false := by decide +kernel
  have hblocked : wideView.store.Blocked ((Path.root.extend "d").extend longName)
      (.io (.system Errno.nameTooLong)) := .unseen shows_longFile rfl rfl stat_longName
  have hdescribed := View.described_of_blocked (Store.truthful_of_known_nil rfl) hblocked
  refine ⟨placed_root_wideView, ?_, ⟨_, shows_longFile, rfl, rfl⟩, ?_⟩
  · revert hlink
    generalize ((lookup (Path.root.extend cacheLinkName) wideView).runWith
      (fun _ _ v => v) []).2.2 = r
    intro hlink
    cases r with
    | error fault => cases hlink
    | ok node => exact ⟨node, rfl, Option.some.inj hlink⟩
  · have hidle : Helper.Idle fun _ _ v => v := fun _ _ v => .refl v
    rw [runWith_eq_run, lookup_of_error hidle (.refl wideView) hdescribed]

end Resolver
end OnDemandFs
