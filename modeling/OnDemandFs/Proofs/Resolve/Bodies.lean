import OnDemandFs.Proofs.Resolve.Agreement
import OnDemandFs.Proofs.Resolve.Volatile

/-!
# Bodies are asked for once

Once the walk has led to a file, opening it is a matter of its body. A body that is missing, or that
the mount minds, is asked for; then what stands in its place decides, and it is not asked for again,
whatever the helper left there. So what comes of it is read off one view of the cache, the one that
the walk ended with or the one that the helper left (`settle`).

Opening again in the cache as it was left asks for nothing if static listings still declare the file
and all directories on the way. A helper may have taken one of these away while
it published the body.
-/
namespace OnDemandFs.Resolver

open Asking Store

variable {helper helper' : Helper View} {asked : List Path} {s v w u : View} {dir p : Path}
  {x y : Resolved} {n : String} {index : Index} {o : Opened}

/-! ### The hint of a file -/

/-- A child with the index that led to it: it is listed, and the listing is still held, or it is one
that stands in a dynamic directory. -/
inductive Backed (s : Store) (dir : Path) (n : String) (y : Resolved) : Prop
  | listed {entries : List Entry} {e : Entry} (hheld : s.held dir = .ok (.index (.listing entries)))
      (hfind : (Index.listing entries).find? n = some e) (hhint : y.hint = some e)
      (hvolatile : y.volatile = false)
  | standing (hhint : y.hint = none) (hvolatile : y.volatile = true)

theorem backed_of_standing {found : Option PhysicalEntry} (h : standing p found = .ok y) :
    y.hint = none ∧ y.volatile = true := by
  unfold standing at h
  split at h <;> cases h <;> exact ⟨rfl, rfl⟩

theorem backed_childIn (hheld : v.store.held dir = .ok (.index index))
    (h : ((childIn dir n (some index)).run helper asked v).result = .ok y) :
    Backed ((childIn dir n (some index)).run helper asked v).state.store dir n y := by
  cases index with
  | dynamic =>
      rw [childIn, run_volatileChild] at h
      revert h
      rcases helper asked (dir.extend n) v with ⟨w, fault | _⟩
      · intro h
        cases h
      · intro h
        obtain ⟨found, -, hfound⟩ := bind_eq_ok_iff.mp h
        obtain ⟨hhint, hvolatile⟩ := backed_of_standing hfound
        exact .standing hhint hvolatile
  | listing entries =>
      rw [childIn] at h ⊢
      cases hfind : (Index.listing entries).find? n with
      | none =>
          rw [hfind] at h
          cases h
      | some e =>
          rw [hfind] at h
          cases h
          exact .listed hheld hfind rfl rfl

theorem backed_resolveChild (h : ((resolveChild dir n).run helper asked v).result = .ok y) :
    Backed ((resolveChild dir n).run helper asked v).state.store dir n y := by
  by_cases hname : n = ".." ∨ IsReserved n
  · rw [resolveChild_eq_fail hname] at h
    cases h
  · rw [resolveChild_eq hname] at h ⊢
    cases hindex : ((ensureIndex dir).run helper asked v).result with
    | error fault =>
        rw [run_bind_of_error hindex] at h
        cases h
    | ok index =>
        rw [run_bind_of_ok hindex] at h ⊢
        cases index with
        | none => cases h
        | some index => exact backed_childIn (held_of_ensureIndex hindex) h

/-- A file is where the walk to it ends. -/
theorem found_of_file (h : (found helper v p).result = .ok x) (hfile : x.kind = .file) :
    ((walkFromRoot p).run helper [] v).result = .ok x ∧
      found helper v p = (walkFromRoot p).run helper [] v := by
  cases hwalk : ((walkFromRoot p).run helper [] v).result with
  | error fault =>
      unfold found resolve at h
      rw [run_bind_of_error hwalk] at h
      cases h
  | ok y =>
      have hdir : y.kind.isDirectory = false := by
        by_contra hdir
        rw [Bool.not_eq_false] at hdir
        unfold found resolve at h
        rw [run_bind_of_ok hwalk, if_pos hdir, run_bind, run_attempt, directoryKind_eq] at h
        revert h
        cases ((walkFromRoot p).run helper [] v).state.store.held y.path with
        | error fault => nofun
        | ok held =>
            rintro ⟨⟩
            rcases held with _ | (_ | _) | _ <;> cases hfile
      have hfound : found helper v p = (walkFromRoot p).run helper [] v := by
        unfold found resolve
        rw [run_bind_of_ok hwalk, if_neg (by rw [hdir]; nofun), run_pure, ← hwalk]
      rw [hfound, hwalk] at h
      exact ⟨h, hfound⟩

/-- A file is no built-in entry, so an index led to it. -/
theorem backed_of_found (h : (found helper v p).result = .ok x) (hfile : x.kind = .file) :
    Backed (found helper v p).state.store p.parent p.fileName x := by
  obtain ⟨hwalk, hfound⟩ := found_of_file h hfile
  rw [hfound]
  rcases p.eq_root_or_extend with rfl | ⟨q, m, hm, rfl⟩
  · cases hwalk
    cases hfile
  · rw [q.parent_extend hm, q.fileName_extend hm]
    rw [walkFromRoot_extend _ hm] at hwalk ⊢
    cases hy : ((walkFromRoot q).run helper [] v).result with
    | error fault =>
        rw [run_bind_of_error hy] at hwalk
        cases hwalk
    | ok y =>
        have hpath : y.path = q := by
          have hplace := (stageInv helper v q (Nat.le_refl q.depth)).place
          rw [stage_depth, q.upTo_depth] at hplace
          exact hplace y hy
        rw [run_bind_of_ok hy] at hwalk ⊢
        rw [← hpath] at hwalk ⊢
        rcases into_cases y.path.isRoot y m with
          ⟨-, -, -, hinto⟩ | ⟨kind, -, hkind, hinto⟩ | ⟨fault, hinto⟩ <;> rw [hinto] at hwalk ⊢
        · exact backed_resolveChild hwalk
        · cases hwalk
          exact absurd hfile (ne_file_of_builtin hkind)
        · cases hwalk

/-! ### What becomes of a body -/

/-- What opening makes of what stands in the place of a file. -/
def settle (x : Resolved) (w : View) : View × Except Fault Opened :=
  match w.store.stat x.path with
  | .error fault => (w, .error fault)
  | .ok none => (w, .error (.notFound x.path.text))
  | .ok (some e) => if e.kind = .file then openBody x w else (w, .error (.kindMismatch x.path.text))

/-- No regular file is cached in the place of the file, or, if the mount minds, one that is not as
its listing declares it. -/
def Wants (w : View) (x : Resolved) : Prop :=
  w.store.stat x.path = .ok none ∨ ∃ e, w.store.stat x.path = .ok (some e) ∧ (e.kind ≠ .file ∨
    w.revalidate = true ∧ ∃ hint, x.hint = some hint ∧
      (hint.size.toNat ≠ e.size ∨ hint.mtime.toInt ≠ e.mtime))

theorem isStale_iff {e : PhysicalEntry} : isStale w e x.hint = true ↔
    w.revalidate = true ∧ ∃ hint, x.hint = some hint ∧
      (hint.size.toNat ≠ e.size ∨ hint.mtime.toInt ≠ e.mtime) := by
  unfold isStale
  cases x.hint with
  | none => simp
  | some hint => simp

theorem lacksBody_iff : LacksBody w x ↔ Wants w x := by
  unfold LacksBody Wants
  constructor
  · rintro ⟨found, hstat, husable⟩
    cases found with
    | none => exact .inl hstat
    | some e =>
        refine .inr ⟨e, hstat, ?_⟩
        rw [← isStale_iff]
        by_contra hno
        rw [not_or, not_not, Bool.not_eq_true] at hno
        rw [isUsable, hno.1, hno.2] at husable
        cases husable
  · rintro (hstat | ⟨e, hstat, hbad⟩)
    · exact ⟨none, hstat, rfl⟩
    · refine ⟨some e, hstat, ?_⟩
      rw [← isStale_iff] at hbad
      rcases hbad with hkind | hstale
      · simp [isUsable, hkind]
      · simp [isUsable, hstale]

/-- Without revalidation any regular file will do. -/
theorem not_wants_of_file {e : PhysicalEntry} (hstat : w.store.stat x.path = .ok (some e))
    (hkind : e.kind = .file) (hoff : w.revalidate = false) : ¬ Wants w x := by
  rintro (hnone | ⟨e', hother, hforeign | ⟨hminds, -⟩⟩)
  · rw [hstat] at hnone
    cases hnone
  · rw [hstat] at hother
    cases hother
    exact hforeign hkind
  · rw [hoff] at hminds
    cases hminds

theorem not_wants_of_unseen {fault : Fault} (hstat : w.store.stat x.path = .error fault) :
    ¬ Wants w x := by
  rintro (hnone | ⟨e, he, -⟩)
  · rw [hstat] at hnone
    cases hnone
  · rw [hstat] at he
    cases he

theorem run_openFile_of_file (h : (found helper v p).result = .ok x) (hfile : x.kind = .file) :
    (openFile p).run helper [] v = (ensureBody x >>= fun _ => attempt (openBody x)).run helper
      (found helper v p).asked (found helper v p).state := by
  unfold openFile
  rw [run_bind_of_ok h, hfile]
  rfl

/-- A body that is not wanted is not asked for: it is there, or its place cannot be looked at. -/
theorem run_body_of_not_wants (h : ¬ Wants s x) :
    (ensureBody x >>= fun _ => attempt (openBody x)).run helper asked s =
      ⟨asked, (settle x s).1, (settle x s).2⟩ := by
  rw [← lacksBody_iff] at h
  unfold ensureBody settle
  rw [bind_assoc, run_bind, run_stat]
  cases hstat : s.store.stat x.path with
  | error fault => rfl
  | ok found =>
      have husable : isUsable s x found = true := by
        by_contra hne
        exact h ⟨found, hstat, Bool.eq_false_iff.mpr hne⟩
      cases found with
      | none => cases husable
      | some e =>
          have hkind : e.kind = .file := by
            rw [isUsable, Bool.and_eq_true, decide_eq_true_eq] at husable
            exact husable.1
          dsimp only
          rw [bind_assoc, run_bind, run_get]
          dsimp only
          rw [husable, if_pos hkind]
          rfl

/-- A body that is wanted is asked for once, and then what the helper left decides. -/
theorem run_body_of_wants (h : Wants s x) :
    (ensureBody x >>= fun _ => attempt (openBody x)).run helper asked s =
      match helper asked x.path s with
      | (w, .error fault) => ⟨asked ++ [x.path], w, .error fault⟩
      | (w, .ok ()) => ⟨asked ++ [x.path], (settle x w).1, (settle x w).2⟩ := by
  rw [← lacksBody_iff] at h
  obtain ⟨found, hstat, husable⟩ := h
  unfold ensureBody
  rw [bind_assoc, run_bind, run_stat, hstat]
  dsimp only
  rw [bind_assoc, run_bind, run_get]
  dsimp only
  rw [husable]
  simp only [Bool.false_eq_true, if_false]
  rw [bind_assoc, run_bind, run_ask]
  rcases helper asked x.path s with ⟨w, fault | _⟩
  · rfl
  · dsimp only
    unfold settle
    rw [bind_assoc, run_bind, run_stat]
    cases w.store.stat x.path with
    | error fault => rfl
    | ok found =>
        cases found with
        | none => rfl
        | some e =>
            dsimp only
            by_cases hkind : e.kind = .file
            · rw [if_pos hkind, if_pos hkind]
              rfl
            · rw [if_neg hkind, if_neg hkind]
              rfl

/-- What opening comes to, from what stands in the place of the file when nobody is
asked any more. -/
structure Comes (w : View) (p : Path) (r : Except Fault Opened) : Prop where
  opened_iff : (∃ o, r = .ok o) ↔ ∃ e, w.store.stat p = .ok (some e) ∧ e.kind = .file
  mismatch_iff : r = .error (.kindMismatch p.text) ↔
    ∃ e, w.store.stat p = .ok (some e) ∧ e.kind ≠ .file
  notFound_iff : r = .error (.notFound p.text) ↔ w.store.stat p = .ok none
  unseen_iff (cause : IoFault) : r = .error (.io cause) ↔ w.store.stat p = .error (.io cause)
  inTime (text : String) : r ≠ .error (.timeout text)

/-- The file was opened that stands in the place of the path. -/
structure OpenedAt (w : View) (p : Path) (o : Opened) : Prop where
  path : o.node.path = p
  kind : o.node.kind = .file
  number : w.identities.idOf? p = some o.node.id
  body : ∃ e, w.store.stat p = .ok (some e) ∧ e.kind = .file ∧ e.file = some o.file ∧
    o.node.attr = ⟨e.size, e.mtime⟩

theorem openBody_of_stat {e : PhysicalEntry} (hstat : w.store.stat x.path = .ok (some e))
    (hfile : e.kind = .file) : ∃ file, e.file = some file ∧
      openBody x w = ((identify x.path w).1,
        .ok ⟨⟨(identify x.path w).2, x.path, .file, ⟨e.size, e.mtime⟩, x.volatile⟩, file⟩) := by
  obtain ⟨q, object, hfind, rfl⟩ := stat_eq_some_iff.mp hstat
  cases object with
  | file file =>
      refine ⟨file, ?_, ?_⟩
      · unfold entryOf
        dsimp only
        split <;> rfl
      · have hfollowed : w.store.disk.find true (w.store.physical x.path) = .ok (q, .file file) :=
          Disk.find_true_of_false nofun hfind
        unfold openBody
        rw [hfollowed]
  | directory | link | pipe => cases hfile

theorem comes_settle (x : Resolved) (w : View) : Comes w x.path (settle x w).2 := by
  unfold settle
  cases hstat : w.store.stat x.path with
  | error fault =>
      obtain ⟨cause, -, rfl⟩ := fault_of_stat hstat
      exact ⟨by simp [hstat], by simp [hstat], by simp [hstat], by simp [hstat], by simp⟩
  | ok found =>
      cases found with
      | none => exact ⟨by simp [hstat], by simp [hstat], by simp [hstat], by simp [hstat], by simp⟩
      | some e =>
          dsimp only
          by_cases hfile : e.kind = .file
          · obtain ⟨file, -, hopen⟩ := openBody_of_stat hstat hfile
            rw [if_pos hfile, hopen]
            exact ⟨by simp [hstat, hfile], by simp [hstat, hfile], by simp [hstat], by simp [hstat],
              by simp⟩
          · rw [if_neg hfile]
            exact ⟨by simp [hstat, hfile], by simp [hstat, hfile], by simp [hstat], by simp [hstat],
              by simp⟩

theorem settle_of_file {e : PhysicalEntry} (hstat : w.store.stat x.path = .ok (some e))
    (hfile : e.kind = .file) : settle x w = openBody x w := by
  unfold settle
  rw [hstat]
  exact if_pos hfile

theorem calm_settle (x : Resolved) (w : View) : w.Calm (settle x w).1 := by
  unfold settle
  split
  · exact .refl w
  · exact .refl w
  · next e hstat =>
      split
      · next hfile =>
          obtain ⟨file, -, hopen⟩ := openBody_of_stat hstat hfile
          rw [hopen]
          exact calm_identify x.path w
      · exact .refl w

theorem openedAt_settle (h : (settle x w).2 = .ok o) : OpenedAt (settle x w).1 x.path o := by
  obtain ⟨e, hstat, hfile⟩ := (comes_settle x w).opened_iff.mp ⟨o, h⟩
  obtain ⟨file, hentry, hopen⟩ := openBody_of_stat hstat hfile
  have hlater := (calm_settle x w).store.stat x.path
  rw [settle_of_file hstat hfile, hopen] at h hlater ⊢
  cases h
  exact ⟨rfl, rfl, Identities.idOf?_assign w.identities x.path, e, hlater.trans hstat, hfile,
    hentry, rfl⟩

/-! ### Opening again -/

/-- In the view `u` the same file is opened, under the same number and with nothing changed on the
disk since the view `e`, and nobody is asked. -/
structure OpensAgain (helper : Helper View) (e u : View) (p : Path) (o : Opened) : Prop where
  asked : ((openFile p).run helper [] u).asked = []
  opened : ∃ o', ((openFile p).run helper [] u).result = .ok o' ∧ o'.node.id = o.node.id ∧
    o'.file = o.file
  disk : ((openFile p).run helper [] u).state.store.disk = e.store.disk

theorem found_of_openFile (h : ((openFile p).run helper [] v).result = .ok o) :
    ∃ x, (found helper v p).result = .ok x ∧ x.kind = .file := by
  unfold openFile at h
  cases hresult : (found helper v p).result with
  | error fault =>
      rw [run_bind_of_error hresult] at h
      cases h
  | ok x =>
      rw [run_bind_of_ok hresult] at h
      cases hkind : x.kind with
      | file => exact ⟨x, rfl, hkind⟩
      | staticDirectory | dynamicDirectory | symlink | control =>
          rw [hkind] at h
          cases h

/-- A file was opened without a request, so static listings declare it. -/
theorem declared_of_openFile (hasked : ((openFile p).run helper [] u).asked = [])
    (h : ((openFile p).run helper [] u).result = .ok o) :
    ∃ y, u.store.Declared y ∧ y.path = p ∧ y.kind = .file := by
  obtain ⟨y, hfound, hfile⟩ := found_of_openFile h
  obtain ⟨hwalk, hsame⟩ := found_of_file hfound hfile
  have hquiet : ((walkFromRoot p).run helper [] u).asked = [] := by
    have hprefix : (found helper u p).asked <+: ((openFile p).run helper [] u).asked :=
      asked_prefix_bind (resolve p) _
    rw [hasked, hsame] at hprefix
    exact List.prefix_nil.mp hprefix
  have hreached := (told_of_asked_eq_nil hquiet (tells_walkFromRoot idle_id p)).2
  rw [hwalk] at hreached
  exact ⟨y, declared_of_asked_eq_nil hquiet hreached.symm, path_of_found hfound, hfile⟩

/-- What was opened once is opened again without a request just if static listings declare it. -/
theorem opensAgain_iff {e : View} (ho : OpenedAt e p o) (hoff : e.revalidate = false)
    (hcalm : e.Calm u) : OpensAgain helper e u p o ↔
      ∃ y, e.store.Declared y ∧ y.path = p ∧ y.kind = .file := by
  constructor
  · intro h
    obtain ⟨o', hresult, -⟩ := h.opened
    obtain ⟨y, hy, hpath⟩ := declared_of_openFile h.asked hresult
    exact ⟨y, hy.mono hcalm.store.symm.keepsIndices, hpath⟩
  · rintro ⟨y, hy, rfl, hfile⟩
    obtain ⟨w, hw, hwalk⟩ : ∃ w, u.Calm w ∧
        (walkFromRoot y.path).run helper [] u = ⟨[], w, .ok y⟩ :=
      run_walkFromRoot_of_declared (hy.mono hcalm.store.keepsIndices) []
    have hlater := hcalm.trans hw
    have hfound : found helper u y.path = ⟨[], w, .ok y⟩ := by
      unfold found
      rw [run_resolve_of_file (by rw [hwalk]) hfile, hwalk]
    obtain ⟨entry, hstat, hkind, hentry, -⟩ := ho.body
    have hstat' : w.store.stat y.path = .ok (some entry) := (hlater.store.stat y.path).trans hstat
    have hnot : ¬ Wants w y := not_wants_of_file hstat' hkind (hlater.revalidate.trans hoff)
    have hrun : (openFile y.path).run helper [] u = ⟨[], (settle y w).1, (settle y w).2⟩ := by
      rw [run_openFile_of_file (by rw [hfound]) hfile, hfound]
      exact run_body_of_not_wants hnot
    obtain ⟨file, hfile', hopen⟩ := openBody_of_stat hstat' hkind
    have hnumber : (identify y.path w).2 = o.node.id := by
      have hid := Identities.idOf?_of_shown_prefix hlater.shown ho.number
      unfold identify
      rw [Identities.assign_of_idOf? hid]
    rw [hentry] at hfile'
    cases hfile'
    refine ⟨?_, ?_, ?_⟩
    · rw [hrun]
    · rw [hrun, settle_of_file hstat' hkind, hopen]
      exact ⟨_, rfl, hnumber, rfl⟩
    · rw [hrun]
      exact (hlater.trans (calm_settle y w)).store.disk

/-! ### Opening a file -/

theorem run_openFile_of_not_wants (h : (found helper v p).result = .ok x) (hfile : x.kind = .file)
    (hnot : ¬ Wants (found helper v p).state x) : (openFile p).run helper [] v =
      ⟨(found helper v p).asked, (settle x (found helper v p).state).1,
        (settle x (found helper v p).state).2⟩ := by
  rw [run_openFile_of_file h hfile, run_body_of_not_wants hnot]

/-- Where the place of a file cannot be looked at, nothing is asked for. -/
theorem openFile_of_unseen {fault : Fault} (h : (found helper v p).result = .ok x)
    (hfile : x.kind = .file) (hstat : (found helper v p).state.store.stat p = .error fault) :
    ((openFile p).run helper [] v).asked = (found helper v p).asked ∧
      ((openFile p).run helper [] v).result = .error fault := by
  obtain rfl := path_of_found h
  rw [run_openFile_of_not_wants h hfile (not_wants_of_unseen hstat)]
  refine ⟨rfl, ?_⟩
  unfold settle
  rw [hstat]

theorem run_openFile_of_wants (h : (found helper v p).result = .ok x) (hfile : x.kind = .file)
    (hwants : Wants (found helper v p).state x) : (openFile p).run helper [] v =
      match helper (found helper v p).asked p (found helper v p).state with
      | (w, .error fault) => ⟨(found helper v p).asked ++ [p], w, .error fault⟩
      | (w, .ok ()) => ⟨(found helper v p).asked ++ [p], (settle x w).1, (settle x w).2⟩ := by
  have hpath := path_of_found h
  rw [run_openFile_of_file h hfile, run_body_of_wants hwants, hpath]

/-- What opening leaves, if the helper keeps the indices that are held. -/
theorem openFile_keepsIndices (hkeeps : helper.Keeps) (h : (found helper v p).result = .ok x)
    (hfile : x.kind = .file) : (found helper v p).state.store.KeepsIndices
      ((openFile p).run helper [] v).state.store := by
  by_cases hwants : Wants (found helper v p).state x
  · have hkept := hkeeps (found helper v p).asked (found helper v p).state p
    rw [run_openFile_of_wants h hfile hwants]
    revert hkept
    rcases helper (found helper v p).asked p (found helper v p).state with ⟨w, fault | _⟩
    · exact id
    · exact fun hkept => hkept.trans (calm_settle x w).store.keepsIndices
  · rw [run_openFile_of_not_wants h hfile hwants]
    exact (calm_settle x _).store.keepsIndices

theorem openedAt_openFile (h : (found helper v p).result = .ok x) (hfile : x.kind = .file)
    (ho : ((openFile p).run helper [] v).result = .ok o) :
    OpenedAt ((openFile p).run helper [] v).state p o := by
  have hpath := path_of_found h
  by_cases hwants : Wants (found helper v p).state x
  · rw [run_openFile_of_wants h hfile hwants] at ho ⊢
    revert ho
    rcases helper (found helper v p).asked p (found helper v p).state with ⟨w, fault | _⟩
    · nofun
    · rw [← hpath]
      exact openedAt_settle
  · rw [run_openFile_of_not_wants h hfile hwants] at ho ⊢
    have hopened := openedAt_settle ho
    rwa [hpath] at hopened

theorem declared_of_openFile_firm (hkeeps : helper.Keeps) (hfirm : Firm helper v p)
    (h : (found helper v p).result = .ok x) (hfile : x.kind = .file) :
    ((openFile p).run helper [] v).state.store.Declared x := by
  obtain ⟨hwalk, hsame⟩ := found_of_file h hfile
  have hkept := openFile_keepsIndices hkeeps h hfile
  rw [hsame, ← stage_depth] at hkept
  rw [← stage_depth] at hwalk
  exact (declared_of_firm hkeeps hfirm (Nat.le_refl p.depth) hwalk).mono hkept

/-- How opening goes on from where the walk has led to a file. -/
structure OpenedOnce (helper : Helper View) (before : Ending View Resolved)
    (after : Ending View Opened) (p : Path) (x : Resolved) : Prop where
  /-- What is declared of the file is what a listing says that is still held. -/
  backed : Backed before.state.store p.parent p.fileName x
  asked_of_wants (h : Wants before.state x) : after.asked = before.asked ++ [p]
  asked_of_not_wants (h : ¬ Wants before.state x) : after.asked = before.asked
  comes_of_wants (h : Wants before.state x) {w : View}
    (hanswer : helper before.asked p before.state = (w, .ok ())) : Comes w p after.result
  comes_of_not_wants (h : ¬ Wants before.state x) : Comes before.state p after.result
  refused (h : Wants before.state x) {w : View} {fault : Fault}
    (hanswer : helper before.asked p before.state = (w, .error fault)) :
    after.result = .error fault
  timeout_iff (text : String) : after.result = .error (.timeout text) ↔
    Wants before.state x ∧ (helper before.asked p before.state).2 = .error (.timeout text)
  opened {o : Opened} (h : after.result = .ok o) : OpenedAt after.state p o
  /-- Without revalidation, in the cache as it was left. -/
  again {o : Opened} (h : after.result = .ok o) (hoff : after.state.revalidate = false) {u : View}
    (hcalm : after.state.Calm u) (helper' : Helper View) :
    OpensAgain helper' after.state u p o ↔
      ∃ y, after.state.store.Declared y ∧ y.path = p ∧ y.kind = .file

/-- A body is asked for once if it is wanted, and not at all otherwise, and the file that was opened
is opened again for nothing as long as it is declared. It is if the helper kept the indices that it
found and the walk met no child of a dynamic directory. -/
theorem openFile_once (h : (found helper v p).result = .ok x) (hfile : x.kind = .file) :
    OpenedOnce helper (found helper v p) ((openFile p).run helper [] v) p x ∧
    (helper.Keeps → Firm helper v p → ∀ o u helper',
      ((openFile p).run helper [] v).result = .ok o →
      ((openFile p).run helper [] v).state.revalidate = false →
      ((openFile p).run helper [] v).state.Calm u →
      OpensAgain helper' ((openFile p).run helper [] v).state u p o) := by
  have hpath := path_of_found h
  refine ⟨⟨backed_of_found h hfile, fun hwants => ?_, fun hnot => ?_, fun hwants w hanswer => ?_,
    fun hnot => ?_, fun hwants w fault hanswer => ?_, fun text => ?_, openedAt_openFile h hfile,
    fun ho hoff _ hcalm helper' => opensAgain_iff (openedAt_openFile h hfile ho) hoff hcalm⟩,
    fun hkeeps hfirm o u helper' ho hoff hcalm => ?_⟩
  · rw [run_openFile_of_wants h hfile hwants]
    rcases helper (found helper v p).asked p (found helper v p).state with ⟨w, fault | _⟩ <;> rfl
  · rw [run_openFile_of_not_wants h hfile hnot]
  · rw [run_openFile_of_wants h hfile hwants, hanswer, ← hpath]
    exact comes_settle x w
  · rw [run_openFile_of_not_wants h hfile hnot, ← hpath]
    exact comes_settle x _
  · rw [run_openFile_of_wants h hfile hwants, hanswer]
  · by_cases hwants : Wants (found helper v p).state x
    · rw [run_openFile_of_wants h hfile hwants]
      rcases helper (found helper v p).asked p (found helper v p).state with ⟨w, fault | _⟩
      · simp [hwants]
      · have hin := (comes_settle x w).inTime text
        simp [hin]
    · have hin := (comes_settle x (found helper v p).state).inTime text
      rw [run_openFile_of_not_wants h hfile hwants]
      simp [hin, hwants]
  · rw [opensAgain_iff (openedAt_openFile h hfile ho) hoff hcalm]
    exact ⟨x, declared_of_openFile_firm hkeeps hfirm h hfile, hpath, hfile⟩

/-! ### A helper that tidies up -/

/-- A root with a directory, and that with a file of which there is no body yet. -/
def bareDisk : Disk where
  objects := [([], .directory ⟨0, 0⟩), ([[99]], .directory ⟨0, 1⟩),
    ([[99], Store.indexName], .file 1), ([[99], [100]], .directory ⟨0, 2⟩),
    ([[99], [100], Store.indexName], .file 2)]
  bodies := [(1, ⟨Index.encode (.listing [⟨.directory, 0, 7, "d"⟩]), ⟨5, 0⟩⟩),
    (2, ⟨Index.encode leafIndex, ⟨6, 0⟩⟩)]
  nextFile := 3
  clock := ⟨0, 3⟩

def bareView : View := { store := ⟨[[99]], 1000, bareDisk, { capacity := 4 }⟩ }

/-- The disk with the body. -/
def filledDisk : Disk where
  objects := bareDisk.objects ++ [([[99], [100], [120]], .file 3)]
  bodies := bareDisk.bodies ++ [(3, ⟨[104, 105], ⟨9, 0⟩⟩)]
  nextFile := 4
  clock := ⟨0, 4⟩

/-- The disk with the body, and without the index of the directory. -/
def strippedDisk : Disk where
  objects := [([], .directory ⟨0, 0⟩), ([[99]], .directory ⟨0, 1⟩),
    ([[99], Store.indexName], .file 1), ([[99], [100]], .directory ⟨0, 4⟩),
    ([[99], [100], [120]], .file 3)]
  bodies := [(1, ⟨Index.encode (.listing [⟨.directory, 0, 7, "d"⟩]), ⟨5, 0⟩⟩),
    (3, ⟨[104, 105], ⟨9, 0⟩⟩)]
  nextFile := 4
  clock := ⟨0, 5⟩

/-- The helper brings the disk into this state when it is asked for the file,
and ignores the rest. -/
def supplier (disk : Disk) : Helper View := .closing fun _ p v =>
  if p = .ofText "/d/x" then { v with store := { v.store with disk } } else v

/-- The file in the directory. -/
def bareFile : Resolved :=
  { path := .ofText "/d/x", kind := .file, hint := some ⟨.file, 4, 7, "x"⟩ }

/-- Opening it, for a helper that brings the disk into this state. -/
def opening (disk : Disk) : Ending View Opened :=
  (openFile bareFile.path).run (supplier disk) [] bareView

theorem declared_filledDisk : (opening filledDisk).state.store.Declared bareFile := by
  have hroot : (opening filledDisk).state.store.held .root =
      .ok (.index (.listing [⟨.directory, 0, 7, "d"⟩])) := by decide +kernel
  have hdirectory : (opening filledDisk).state.store.held (Path.root.extend "d") =
      .ok (.index leafIndex) := by decide +kernel
  have hd : IsSought top "d" := ⟨rfl, fun _ => by decide, by decide⟩
  have hx : IsSought ⟨Path.root.extend "d", .staticDirectory, some ⟨.directory, 0, 7, "d"⟩, false⟩
      "x" := ⟨rfl, fun _ => by decide, by decide⟩
  have hdeclared : (opening filledDisk).state.store.Declared
      ⟨Path.root.extend "d", .staticDirectory, some ⟨.directory, 0, 7, "d"⟩, false⟩ := by
    have hfind : (Index.listing [⟨.directory, 0, 7, "d"⟩]).find? "d" =
        some ⟨.directory, 0, 7, "d"⟩ := by decide
    exact .child .top (by decide) hd hroot hfind
  have hfind : (Index.listing [⟨.file, 4, 7, "x"⟩]).find? "x" = some ⟨.file, 4, 7, "x"⟩ := by decide
  have hfile : bareFile = ⟨(Path.root.extend "d").extend "x", .ofEntry .file,
      some ⟨.file, 4, 7, "x"⟩, false⟩ := by decide
  rw [hfile]
  exact .child hdeclared (by decide) hx hdirectory hfind

/-- Whether the walk meets a child of a dynamic directory can be computed. -/
theorem firm_of_stages (h : ∀ k ≤ p.depth,
    ((stage helper v p k).result.toOption.all fun x => !x.volatile) = true) : Firm helper v p := by
  intro k hk x hx
  have hfirm := h k hk
  rw [hx] at hfirm
  exact (Bool.not_eq_true' _).mp hfirm

/-- Once for a helper that brings the body, and once for a body that is there already and a helper
that does nothing. -/
theorem openFile_once_filledDisk :
    (∃ o, (found (supplier filledDisk) bareView bareFile.path).result = .ok bareFile ∧
      bareFile.kind = .file ∧ (opening filledDisk).asked = [bareFile.path] ∧
      (opening filledDisk).result = .ok o ∧ (opening filledDisk).state.revalidate = false ∧
      ∀ helper, OpensAgain helper (opening filledDisk).state (opening filledDisk).state
        bareFile.path o) ∧
    ∃ v o, (found (.closing fun _ _ v => v) v bareFile.path).result = .ok bareFile ∧
      Helper.Keeps (.closing fun _ _ v => v) ∧ Firm (.closing fun _ _ v => v) v bareFile.path ∧
      ((openFile bareFile.path).run (.closing fun _ _ v => v) [] v).result = .ok o ∧
      ((openFile bareFile.path).run (.closing fun _ _ v => v) [] v).state.revalidate = false ∧
      ∀ helper, OpensAgain helper
        ((openFile bareFile.path).run (.closing fun _ _ v => v) [] v).state
        ((openFile bareFile.path).run (.closing fun _ _ v => v) [] v).state bareFile.path o := by
  constructor
  · have hfound : (found (supplier filledDisk) bareView bareFile.path).result = .ok bareFile := by
      decide +kernel
    have hopened : (opening filledDisk).result =
        .ok ⟨⟨2, bareFile.path, .file, ⟨2, 9⟩, false⟩, 3⟩ := by decide +kernel
    have hoff : (opening filledDisk).state.revalidate = false := by decide +kernel
    refine ⟨_, hfound, rfl, by decide +kernel, hopened, hoff, fun helper => ?_⟩
    have honce : OpenedOnce (supplier filledDisk)
        (found (supplier filledDisk) bareView bareFile.path) (opening filledDisk) bareFile.path
        bareFile := (openFile_once hfound rfl).1
    rw [honce.again hopened hoff (.refl _) helper]
    exact ⟨bareFile, declared_filledDisk, rfl, rfl⟩
  · have hfound : (found (.closing fun _ _ v => v) (opening filledDisk).state
        bareFile.path).result = .ok bareFile := by decide +kernel
    have hkeeps : Helper.Keeps (.closing fun _ _ v => v) := fun _ _ _ _ _ hheld => hheld
    have hfirm : Firm (.closing fun _ _ v => v) (opening filledDisk).state bareFile.path :=
      firm_of_stages (by decide +kernel)
    have hopened : ((openFile bareFile.path).run (.closing fun _ _ v => v) []
        (opening filledDisk).state).result =
          .ok ⟨⟨2, bareFile.path, .file, ⟨2, 9⟩, false⟩, 3⟩ := by decide +kernel
    have hoff : ((openFile bareFile.path).run (.closing fun _ _ v => v) []
        (opening filledDisk).state).state.revalidate = false := by decide +kernel
    exact ⟨_, _, hfound, hkeeps, hfirm, hopened, hoff, fun helper =>
      (openFile_once hfound rfl).2 hkeeps hfirm _ _ helper hopened hoff (.refl _)⟩

theorem found_longFile : (found (.closing fun _ _ v => v) wideView longFile.path).result =
      .ok longFile ∧
    (found (.closing fun _ _ v => v) wideView longFile.path).state.store.stat longFile.path =
      .error (.io (.system Errno.nameTooLong)) := by
  have hreached : wideView.store.reached longFile.path = .ok longFile :=
    shows_longFile.reached (Store.truthful_of_known_nil rfl)
  have hresolved : wideView.store.resolved longFile.path = .ok longFile := by
    rw [Store.resolved, hreached]
    rfl
  obtain ⟨hcalm, hresult⟩ := tells_resolve idle_id longFile.path [] wideView (.refl wideView)
  rw [hresolved] at hresult
  have hstat : wideView.store.stat longFile.path = .error (.io (.system Errno.nameTooLong)) :=
    stat_longName
  have hlater := hcalm.store.stat longFile.path
  rw [hstat] at hlater
  unfold found
  exact ⟨hresult, hlater⟩

/-- Nothing is asked for where the place of a file cannot be looked at. And a helper may take away
the index of the directory while it publishes the file: the walk meets no dynamic directory, the
file is opened, and nothing is changed after that, but opening it again asks for
the directory, in vain. -/
theorem not_openFile_once :
    ((found (.closing fun _ _ v => v) wideView longFile.path).result = .ok longFile ∧
      ((openFile longFile.path).run (.closing fun _ _ v => v) [] wideView).asked =
        (found (.closing fun _ _ v => v) wideView longFile.path).asked ∧
      ((openFile longFile.path).run (.closing fun _ _ v => v) [] wideView).result =
        .error (.io (.system Errno.nameTooLong))) ∧
    ∃ o, (opening strippedDisk).result = .ok o ∧
      Firm (supplier strippedDisk) bareView bareFile.path ∧
      (opening strippedDisk).state.revalidate = false ∧
      ((openFile bareFile.path).run (supplier strippedDisk) [] (opening strippedDisk).state).asked =
        [.ofText "/d"] ∧
      ((openFile bareFile.path).run (supplier strippedDisk) []
        (opening strippedDisk).state).result = .error (.notFound "/d/x") := by
  constructor
  · obtain ⟨hfound, hstat⟩ := found_longFile
    obtain ⟨hasked, hresult⟩ := openFile_of_unseen hfound rfl hstat
    exact ⟨hfound, hasked, hresult⟩
  · have hopened : (opening strippedDisk).result =
        .ok ⟨⟨2, bareFile.path, .file, ⟨2, 9⟩, false⟩, 3⟩ := by decide +kernel
    exact ⟨_, hopened, firm_of_stages (by decide +kernel), by decide +kernel, by decide +kernel,
      by decide +kernel⟩

end OnDemandFs.Resolver
