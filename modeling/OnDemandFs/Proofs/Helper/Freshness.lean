import OnDemandFs.Proofs.Helper.Histories

/-!
# How fresh a dynamic directory is

A child of a dynamic directory is asked for on every access, and a helper that copies answers from
what its origin has at that moment. Over any history of the origin the child is then told of as the
origin has it, unless an earlier answer is in the way: what was published before stays where the
origin has nothing any more, and nothing is published over an object of the other kind.
`dynamic_child_fresh_iff` says that these are the only cases; `not_dynamic_child_fresh` is the
smallest of them, a file that was removed.
-/
namespace OnDemandFs

def NodeKind.entryKind? : NodeKind → Option EntryKind
  | .file => some .file
  | .staticDirectory | .dynamicDirectory => some .directory
  | .symlink | .control => none

/-- A look-up tells of what there is, or that there is nothing. -/
def Finds (now : Option EntryKind) (p : Path) (told : Except Fault Node) : Prop :=
  match now with
  | none => told = .error (.notFound p.text)
  | some k => ∃ node, told = .ok node ∧ node.kind.entryKind? = some k

/-- An opened file reads as the content that is asked of it. -/
def Reads (content : Bytes) (e : Ending View Opened) : Prop :=
  ∃ f, e.result = .ok f ∧ (e.state.store.disk.body? f.file).map Body.content = some content

namespace Finds
variable {now : Option EntryKind} {p : Path} {told : Except Fault Node} {k : EntryKind}

theorem eq_of_ok {node : Node} (h : Finds now p (.ok node)) (hk : node.kind.entryKind? = some k) :
    now = some k := by
  cases now with
  | none => cases h
  | some k' =>
      obtain ⟨node', heq, hk'⟩ := h
      cases heq
      rw [← hk', hk]

theorem error_iff {fault : Fault} :
    Finds now p (.error fault) ↔ now = none ∧ fault = .notFound p.text := by
  cases now with
  | none =>
      constructor
      · intro h
        cases h
        exact ⟨rfl, rfl⟩
      · rintro ⟨-, rfl⟩
        rfl
  | some k =>
      constructor
      · rintro ⟨node, heq, -⟩
        cases heq
      · rintro ⟨heq, -⟩
        cases heq

end Finds

namespace Resolver
open Store

variable {helper : Helper View} {v w : View} {p : Path} {now : Option EntryKind}
  (htree : w.store.disk.IsTree w.store.root) (hcarried : p.IsCarried)
  (hfits : Disk.Fits (w.store.physical p))
  (hstate : ((walkFromRoot p).run helper [] v).state = w)
  (hresult : ((walkFromRoot p).run helper [] v).result = w.store.stat p >>= standing p)

include htree hcarried hfits hstate hresult

/-- After the walk to a child of a dynamic directory, the look-up tells of its copy. -/
theorem finds_iff_of_walk
    (hheld : w.store.copy? p = some .directory → now = some .directory →
      ∃ held, w.store.held p = .ok held) :
    Finds now p ((lookup p).run helper [] v).result ↔ w.store.copy? p = now := by
  rw [standing_of_copy htree hcarried hfits] at hresult
  cases hcopy : w.store.copy? p with
  | none =>
      rw [hcopy] at hresult
      rw [lookup_of_walk_error hresult, Finds.error_iff, eq_comm]
      exact and_iff_left rfl
  | some k =>
      rw [hcopy] at hresult
      obtain ⟨found, hstat⟩ : ∃ found, w.store.stat p = .ok found :=
        ⟨_, stat_of_tree htree hcarried hfits⟩
      rw [← hstate] at hstat
      have htold (kind : NodeKind) (hkind : kind.entryKind? = some k)
          (hy : w.store.classified ⟨p, .ofEntry k, none, true⟩ = .ok ⟨p, kind, none, true⟩) :
          Finds now p ((lookup p).run helper [] v).result ↔ some k = now := by
        rw [← hstate] at hy
        obtain ⟨id, attr, hlookup⟩ := lookup_of_classified hresult hy hstat
        rw [hlookup]
        constructor
        · exact fun h => (h.eq_of_ok hkind).symm
        · rintro rfl
          exact ⟨_, rfl, hkind⟩
      cases k with
      | file => exact htold .file rfl rfl
      | directory =>
          have hclassified : w.store.classified ⟨p, .ofEntry .directory, none, true⟩ =
              w.store.held p >>= fun held => .ok ⟨p, held.kind, none, true⟩ := rfl
          cases hindex : w.store.held p with
          | ok held =>
              refine htold held.kind ?_ ?_
              · rcases held with _ | (_ | _) | _ <;> rfl
              · rw [hclassified, hindex]
                rfl
          | error fault =>
              have hfault : fault ≠ .notFound p.text := by
                rintro rfl
                exact isOfCache_of_held hindex
              rw [hindex, ← hstate] at hclassified
              rw [lookup_of_unclassified hresult hclassified, Finds.error_iff]
              constructor
              · exact fun h => absurd h.2 hfault
              · intro h
                obtain ⟨held, hok⟩ := hheld hcopy h.symm
                rw [hindex] at hok
                cases hok

/-- The copy of a file is what an opening reads. -/
theorem reads_of_walk {id : FileId} {b : Body}
    (hfile : w.store.disk.stands (w.store.physical p) = some (.file id))
    (hbody : w.store.disk.body? id = some b) : Reads b.content ((openFile p).run helper [] v) := by
  rw [standing_of_copy htree hcarried hfits, copy?_eq_file_iff.mpr ⟨id, hfile⟩] at hresult
  obtain ⟨f, hopen, hid, hstore⟩ := openFile_of_standing hresult rfl rfl hstate
    (stat_of_file htree hcarried hfits hfile) (find_physical htree hcarried hfits hfile)
  refine ⟨f, hopen, ?_⟩
  rw [hstore, hid, hbody]
  rfl

omit hstate in
/-- The copy of a directory is not opened. -/
theorem not_reads_of_walk (hdir : w.store.copy? p = some .directory) (content : Bytes) :
    ¬ Reads content ((openFile p).run helper [] v) := by
  rw [standing_of_copy htree hcarried hfits, hdir] at hresult
  obtain ⟨fault, hopen⟩ : ∃ fault, ((openFile p).run helper [] v).result = .error fault := by
    refine openFile_of_not_ok fun x hx => ?_
    have hresolve := (run_resolve_of_ok hresult).2
    rw [hx] at hresolve
    obtain ⟨held, -, heq⟩ := bind_eq_ok_iff.mp hresolve.symm
    cases heq
    rcases held with _ | (_ | _) | _ <;> rfl
  rintro ⟨f, hf, -⟩
  rw [hopen] at hf
  cases hf

end Resolver

namespace Origin
open Resolver Store

variable {o : Origin} {v : View} {dir : Path} {c : String}

/-- What an earlier answer put stays, unless there was none. -/
theorem or_eq_right_iff {α : Type} {before now : Option α} :
    before.or now = now ↔ before = none ∨ before = now := by
  cases before <;> simp

/-- The kind of what the origin has at a path. -/
def kind? (o : Origin) (s : Store) (p : Path) : Option EntryKind :=
  (o.item? s.disk p).map Item.kind

/-- The store with which a child of the directory is asked for. -/
def storeAt (o : Origin) (v : View) (dir : Path) : Store :=
  ((indexAt dir).run o.helper [] v).state.store

/-- The way to a dynamic directory is a part of the history. -/
theorem History.indexAt (h : o.History v)
    (hdynamic : ((indexAt dir).run o.helper [] v).result = .ok (some .dynamic)) :
    o.History ((Resolver.indexAt dir).run o.helper [] v).state ∧ dir.IsConfined := by
  have hconfined : dir.IsConfined := by
    obtain ⟨x, hx, -, -, -⟩ := walk_of_indexAt hdynamic
    rw [stage_depth] at hx
    exact isConfined_of_walk hx
  have hcalm : IsCalm (Resolver.indexAt dir) := (isCalm_walkFromRoot dir).bind fun x => by
    split
    · exact isCalm_ensureIndex x.path
    · exact isCalm_fail _
  exact ⟨h.run hcalm fun q hq => hconfined.of_prefix (asked_indexAt hdynamic q hq), hconfined⟩

/-- A look-up and an opening that end with a request for the path, the store being tidy before. -/
theorem fresh_of_walk {helper : Helper View} {w : View} {s : Store} {p : Path} (htidy : s.IsTidy)
    (hconfined : p.IsConfined) (hcarried : p.IsCarried) (hfits : Disk.Fits (s.indexPlace p))
    (hroom : Disk.HasRoom (s.physical p).dropLast)
    (hup : s.disk.stands (s.physical p).dropLast = some .directory)
    (hsmall : ∀ place, o.item? s.disk p = some (.directory place) →
      (o.indexOf s.disk p place).encode.length ≤ s.maxIndexBytes)
    (hw : w.store = (o.answer s p).1)
    (hstate : ((walkFromRoot p).run helper [] v).state = w)
    (hresult : ((walkFromRoot p).run helper [] v).result = w.store.stat p >>= standing p) :
    (Finds (o.kind? s p) p ((lookup p).run helper [] v).result ↔
      s.copy? p = none ∨ s.copy? p = o.kind? s p) ∧
    ∀ b, o.item? s.disk p = some (.file b) →
      (Reads b.content ((openFile p).run helper [] v) ↔ s.copy? p ≠ some .directory) := by
  have hcopy : w.store.copy? p = (s.copy? p).or (o.kind? s p) := by
    rw [hw]
    exact copy?_answer htidy hconfined hcarried hfits hroom hup
  have htree : w.store.disk.IsTree w.store.root := by
    rw [hw]
    exact (tidy_answer htidy hconfined).tree
  have hfitsCopy : Disk.Fits (w.store.physical p) := by
    rw [hw, physical_answer]
    exact hfits.of_append
  constructor
  · refine (finds_iff_of_walk htree hcarried hfitsCopy hstate hresult ?_).trans ?_
    · intro hafter hnow
      obtain ⟨x, hitem, hkind⟩ := Option.map_eq_some_iff.mp hnow
      cases x with
      | file b => cases hkind
      | directory place =>
          rw [hw]
          refine held_answer_directory htidy hitem hconfined hcarried hfits (.inr hup)
            (fun id hid => ?_) (hsmall place hitem)
          rw [hcopy, copy?_eq_file_iff.mpr ⟨id, hid⟩] at hafter
          cases hafter
    · rw [hcopy]
      exact or_eq_right_iff
  · intro b hitem
    constructor
    · intro hreads hbefore
      have hafter : w.store.copy? p = some .directory := by
        rw [hcopy, hbefore]
        rfl
      exact not_reads_of_walk htree hcarried hfitsCopy hresult hafter b.content hreads
    · intro hbefore
      have hnotDir := mt copy?_eq_directory_iff.mpr hbefore
      obtain ⟨d, hanswer, hputs⟩ :=
        answer_file htidy.tree hitem hcarried hconfined hfits.of_append hroom hup hnotDir
      have hstore : w.store = { s with disk := d } := by rw [hw, hanswer]
      have hself : w.store.disk.stands (w.store.physical p) = some (.file s.disk.nextFile) := by
        rw [hstore]
        exact hputs.self
      have hbody : w.store.disk.body? s.disk.nextFile =
          some ⟨b.content, .ofSeconds b.mtime.seconds⟩ := by
        rw [hstore]
        exact hputs.body
      have hreads := reads_of_walk htree hcarried hfitsCopy hstate hresult hself hbody
      exact hreads

/-- Over any history of the origin, a child of a dynamic directory is told of as the origin has it
at the time it is asked for, and its current content is read, unless what an earlier answer put in
the place of the child is of another kind or is there no more. The disk has to carry the child's
name, its place and the index of what it has there. -/
theorem dynamic_child_fresh_iff (h : o.History v)
    (hdynamic : ((indexAt dir).run o.helper [] v).result = .ok (some .dynamic))
    (hc : IsEntryName c) (hfree : IsFree dir c) (hname : Disk.IsCarried (Utf8.encode c))
    (hfits : Disk.Fits ((o.storeAt v dir).indexPlace (dir.extend c)))
    (hsmall : ∀ place,
      o.item? (o.storeAt v dir).disk (dir.extend c) = some (.directory place) →
        (o.indexOf (o.storeAt v dir).disk (dir.extend c) place).encode.length ≤
          (o.storeAt v dir).maxIndexBytes) :
    (Finds (o.kind? (o.storeAt v dir) (dir.extend c)) (dir.extend c)
        ((lookup (dir.extend c)).run o.helper [] v).result ↔
      (o.storeAt v dir).copy? (dir.extend c) = none ∨
        (o.storeAt v dir).copy? (dir.extend c) = o.kind? (o.storeAt v dir) (dir.extend c)) ∧
    ∀ b, o.item? (o.storeAt v dir).disk (dir.extend c) = some (.file b) →
      (Reads b.content ((openFile (dir.extend c)).run o.helper [] v) ↔
        (o.storeAt v dir).copy? (dir.extend c) ≠ some .directory) := by
  obtain ⟨hhistory, hdirConfined⟩ := h.indexAt hdynamic
  have htidy := hhistory.tidy
  have hheldDir := held_of_indexAt hdynamic
  obtain ⟨hdirCarried, hdir, id, hindex⟩ :=
    directory_of_held_index htidy.tree hdirConfined hheldDir
  have hsegment : IsSegment c := ⟨hc.1, hc.2.1, hc.2.2.2.2.1⟩
  have hconfined : (dir.extend c).IsConfined :=
    (Path.isConfined_extend_iff hsegment).mpr ⟨hdirConfined, hc.2.2.1, hc.2.2.2.1⟩
  have hcarried : (dir.extend c).IsCarried :=
    (Path.isCarried_extend_iff hsegment).mpr ⟨hdirCarried, hname⟩
  have hup : (o.storeAt v dir).disk.stands
      ((o.storeAt v dir).physical (dir.extend c)).dropLast = some .directory := by
    rw [physical_dropLast_extend _ _ hsegment]
    exact hdir
  have hroom : Disk.HasRoom ((o.storeAt v dir).physical (dir.extend c)).dropLast := by
    rw [physical_dropLast_extend _ _ hsegment]
    exact htidy.roomy dir id hindex
  have hordinary : ¬ (c = ".." ∨ IsReserved c) := not_or.mpr ⟨hc.2.2.1, hc.2.2.2.1⟩
  obtain ⟨hstate, hresult⟩ := walk_of_dynamic hsegment hordinary hfree hdynamic rfl
  exact fresh_of_walk htidy hconfined hcarried hfits hroom hup hsmall rfl hstate hresult

/-- A cache with nothing in it beside an origin with one file. -/
def springDisk : Disk where
  objects := [([], .directory ⟨0, 0⟩), ([[99]], .directory ⟨0, 1⟩),
    ([[111]], .directory ⟨0, 2⟩), ([[111], [102]], .file 1)]
  bodies := [(1, ⟨[111, 108, 100], ⟨5, 0⟩⟩)]
  nextFile := 2
  clock := ⟨0, 3⟩

def spring : Origin := ⟨[[111]], [.root]⟩

def springView : View := { store := ⟨[[99]], 1000, springDisk, { capacity := 4 }⟩ }

/-- The file was looked up, and then it was removed from the origin. -/
def dryView : View :=
  let w := ((lookup (.ofText "/f")).run spring.helper [] springView).state
  { w with store := { w.store with disk := w.store.disk.unlink [[111], [102]] } }

theorem history_dryView : spring.History dryView := by
  have hproper : springDisk.IsProper := ⟨by decide, by decide⟩
  have htidy : springView.store.IsTidy := Store.isTidy_of_empty hproper (by decide) (by decide)
    (by decide) (by decide) rfl
  have hlooked : spring.History ((lookup (.ofText "/f")).run spring.helper [] springView).state :=
    (History.start htidy).run (isCalm_lookup _) (by decide +kernel)
  exact hlooked.change (Disk.elsewhere_unlink hlooked.tidy.proper (by decide) (by decide))

/-- The copy of the removed file is in the way, so the look-up does not find what the origin has. -/
theorem dynamic_child_fresh_iff_dryView :
    ((indexAt .root).run spring.helper [] dryView).result = .ok (some .dynamic) ∧
    (Finds (spring.kind? (spring.storeAt dryView .root) (Path.root.extend "f"))
        (Path.root.extend "f")
        ((lookup (Path.root.extend "f")).run spring.helper [] dryView).result ↔
      (spring.storeAt dryView .root).copy? (Path.root.extend "f") = none ∨
        (spring.storeAt dryView .root).copy? (Path.root.extend "f") =
          spring.kind? (spring.storeAt dryView .root) (Path.root.extend "f")) := by
  have hdynamic : ((indexAt .root).run spring.helper [] dryView).result = .ok (some .dynamic) := by
    decide +kernel
  have hname : Disk.IsCarried (Utf8.encode "f") := by decide
  have hgone : spring.item? (spring.storeAt dryView .root).disk (Path.root.extend "f") = none := by
    decide +kernel
  have hfits : Disk.Fits ((spring.storeAt dryView .root).indexPlace (Path.root.extend "f")) := by
    decide +kernel
  refine ⟨hdynamic, (dynamic_child_fresh_iff history_dryView hdynamic (by decide) (fun _ => rfl)
    hname hfits fun place hplace => ?_).1⟩
  rw [hgone] at hplace
  cases hplace

/-- Over this history the file is found although the origin does not have it any more. -/
theorem not_dynamic_child_fresh : ∃ (o : Origin) (v : View) (node : Node), o.History v ∧
    Path.root ∈ o.dynamic ∧ o.kind? v.store (Path.root.extend "f") = none ∧
    ((lookup (Path.root.extend "f")).run o.helper [] v).result = .ok node :=
  ⟨spring, dryView, ⟨2, Path.root.extend "f", .file, ⟨3, 5⟩, true⟩, history_dryView, by decide,
    by decide +kernel, by decide +kernel⟩

end Origin
end OnDemandFs
