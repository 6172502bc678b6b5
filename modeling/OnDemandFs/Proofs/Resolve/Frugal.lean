import OnDemandFs.Proofs.Resolve.Course
import OnDemandFs.Store.Publish

/-!
# Requests are few and not too few

Whatever a helper does to the cache while it is asked, an operation on a path asks for what the
course of the path says and no more: a look-up for the course itself, and opening a file or listing
a directory for one more path at most. So on a path of `n` segments there are at most `2 n + 1`
requests, all for paths on the way to it and none above an earlier one. Where the cache holds static
listings all the way nothing is asked for at all. A dynamic directory, on the other hand, never
saves a request for itself or for one of its children.
-/
namespace OnDemandFs
namespace Resolver

open Asking Store

variable {helper : Helper View} {v : View} {p : Path} {x : Resolved} {k : Nat} {n : String}

theorem told_of_asked_eq_nil {α : Type} {m : Resolver α} {r : Except Fault α}
    (h : (m.run helper [] v).asked = []) (hm : Tells (fun _ _ v => v) v m r) :
    v.Calm (m.run helper [] v).state ∧ (m.run helper [] v).result = r := by
  have heq : m.run helper [] v = m.run (.closing fun _ _ v => v) [] v :=
    Inquiry.run_eq_of_asked_eq_nil h _
  rw [heq]
  exact hm [] v (.refl v)

theorem idle_id : Helper.Idle fun _ _ v => v := fun _ _ v => .refl v

/-- The cache holds a static listing in each of the first `k` directories on the way. -/
def ListedTo (v : View) (p : Path) (k : Nat) : Prop :=
  ∀ j < k, ∃ entries, v.store.held (p.upTo j) = .ok (.index (.listing entries))

theorem asked_stage_of_listedTo (hk : k ≤ p.depth) (h : ListedTo v p k) :
    (stage helper v p k).asked = [] := by
  induction k with
  | zero => rw [stage_zero]
  | succ k ih =>
      have hk' : k < p.names.length := hk
      have hn : p.names[k]? = some p.names[k] := List.getElem?_eq_getElem hk'
      have ih := ih (Nat.le_of_lt hk') fun j hj => h j (Nat.lt_succ_of_lt hj)
      cases hresult : (stage helper v p k).result with
      | error fault => rw [stage_succ_of_error hn hresult, ih]
      | ok x =>
          have hplace : x.path = p.upTo k :=
            (stageInv helper v p (Nat.le_of_lt hk')).place x hresult
          have hcalm : v.Calm (stage helper v p k).state :=
            (told_of_asked_eq_nil ih (tells_walkFromRoot idle_id (p.upTo k))).1
          rw [stage_succ_of_ok hn hresult, ← hplace]
          by_cases hsought : IsSought x p.names[k]
          · obtain ⟨entries, hheld⟩ := h k (Nat.lt_succ_self k)
            have hasks : asksFor helper (stage helper v p k).asked (stage helper v p k).state x.path
                (x.path.extend p.names[k]) = [] := by
              unfold asksFor
              rw [hcalm.store.held, hplace, hheld]
              rfl
            rw [(advances_into helper _ _ hsought).asked, hasks, ih]
            rfl
          · rw [(advances_into_of_not_isSought helper _ _ hsought).asked, ih]
            rfl

/-- Where a path turns out to be, with the kind of a directory known. -/
def found (helper : Helper View) (v : View) (p : Path) : Ending View Resolved :=
  (resolve p).run helper [] v

theorem path_of_found (h : (found helper v p).result = .ok x) : x.path = p := by
  obtain ⟨y, hwalk, hpath, -⟩ := resolve_of_ok h
  have hplace := (stageInv helper v p (Nat.le_refl p.depth)).place
  rw [stage_depth, p.upTo_depth] at hplace
  rw [hpath, hplace y hwalk]

/-! ### The requests of each operation -/

theorem asked_of_follows {e : Ending View Resolved} {c : Course} (h : Follows e c) :
    e.asked = c.asked := by
  cases h <;> rfl

/-- A walk that comes to anything but a directory is over. -/
theorem found_of_not_directory {asked : List Path} {w : View}
    (hwalk : (walkFromRoot p).run helper [] v = ⟨asked, w, .ok x⟩)
    (hdir : x.kind.isDirectory = false) : found helper v p = ⟨asked, w, .ok x⟩ := by
  rw [found, resolve, run_bind, hwalk]
  dsimp only
  rw [hdir]
  rfl

/-- Of a directory the index is read once more. -/
theorem found_of_directory {asked : List Path} {w : View}
    (hwalk : (walkFromRoot p).run helper [] v = ⟨asked, w, .ok x⟩)
    (hdir : x.kind.isDirectory = true) : found helper v p =
      ⟨asked, (peek x.path w).1,
        w.store.held x.path >>= fun h => .ok { x with kind := h.kind }⟩ := by
  rw [found, resolve, run_bind, hwalk]
  dsimp only
  rw [hdir]
  simp only [if_true, run_bind, run_attempt, directoryKind_eq]
  cases w.store.held x.path <;> rfl

theorem found_of_error {asked : List Path} {w : View} {fault : Fault}
    (hwalk : (walkFromRoot p).run helper [] v = ⟨asked, w, .error fault⟩) :
    found helper v p = ⟨asked, w, .error fault⟩ := by
  rw [found, resolve, run_bind, hwalk]

theorem lookup_asked (helper : Helper View) (v : View) (p : Path) :
    ((lookup p).run helper [] v).asked = (course helper v p).asked := by
  rw [asked_lookup, stage_depth]
  exact asked_of_follows (follows_course helper v p)

/-- A course that ended is that of a look-up that fails. -/
theorem lookup_fails (h : (course helper v p).standing = none) :
    ∃ fault, ((lookup p).run helper [] v).result = .error fault := by
  have hfollows := follows_course helper v p
  cases hwalk : (walkFromRoot p).run helper [] v with
  | mk asked w result =>
      rw [hwalk] at hfollows
      generalize course helper v p = c at hfollows h
      cases hfollows with
      | ok => cases h
      | error _ _ _ _ fault =>
          refine ⟨fault, ?_⟩
          rw [lookup, run_bind_of_error (congrArg Ending.result (found_of_error hwalk))]

theorem isUsable_iff {found : Option PhysicalEntry} :
    isUsable v x found = true ↔ Course.Serves v x.hint found := by
  unfold isUsable isStale Course.Serves
  cases found with
  | none => simp
  | some e => cases x.hint <;> cases v.revalidate <;> simp

/-- A body costs what the course says. -/
theorem asked_ensureBody {asked : List Path} (hfile : x.kind = .file) :
    ((ensureBody x).run helper asked v).asked =
      asked ++ Course.forBody ⟨asked, v, x.path, some x.standing⟩ := by
  have hstanding : x.standing = .file x.hint := by
    unfold Resolved.standing
    rw [hfile]
  unfold Course.forBody
  rw [hstanding]
  dsimp only
  cases hstat : v.store.stat x.path with
  | error fault =>
      rw [asked_ensureBody_of_not_lacksBody, List.append_nil]
      rintro ⟨found, hok, -⟩
      rw [hstat] at hok
      cases hok
  | ok found =>
      dsimp only
      by_cases hserves : Course.Serves v x.hint found
      · rw [if_pos hserves, List.append_nil]
        refine asked_ensureBody_of_not_lacksBody ?_
        rintro ⟨found', hok, husable⟩
        rw [hstat] at hok
        cases hok
        rw [isUsable_iff.mpr hserves] at husable
        cases husable
      · rw [if_neg hserves]
        refine asked_ensureBody_of_lacksBody ⟨found, hstat, ?_⟩
        exact Bool.eq_false_iff.mpr (mt isUsable_iff.mp hserves)

theorem openFile_asked (helper : Helper View) (v : View) (p : Path) :
    ((openFile p).run helper [] v).asked =
      (course helper v p).asked ++ (course helper v p).forBody := by
  have hfollows := follows_course helper v p
  cases hwalk : (walkFromRoot p).run helper [] v with
  | mk asked w result =>
      rw [hwalk] at hfollows
      generalize course helper v p = c at hfollows ⊢
      have hother (h : ∀ x, (found helper v p).result = .ok x → x.kind ≠ .file)
          (hasked : (found helper v p).asked = asked) :
          ((openFile p).run helper [] v).asked = asked ++ [] := by
        rw [asked_openFile_of_not_file h, List.append_nil]
        exact hasked
      cases hfollows with
      | error =>
          have hfound := found_of_error hwalk
          exact hother (by rw [hfound]; nofun) (by rw [hfound])
      | ok _ _ x =>
          cases hdir : x.kind.isDirectory with
          | true =>
              have hfound := found_of_directory hwalk hdir
              rw [Course.forBody, x.standing_of_isDirectory hdir]
              refine hother (fun y hy hfile => ?_) (by rw [hfound])
              rw [hfound] at hy
              obtain ⟨held, -, heq⟩ := bind_eq_ok_iff.mp hy
              cases heq
              have hkind := isDirectory_kind held
              rw [show held.kind = .file from hfile] at hkind
              cases hkind
          | false =>
              have hfound := found_of_not_directory hwalk hdir
              by_cases hfile : x.kind = .file
              · have hresult : (found helper v p).result = .ok x := by rw [hfound]
                rw [asked_openFile_of_file hresult hfile]
                change ((ensureBody x).run helper (found helper v p).asked
                  (found helper v p).state).asked = _
                rw [hfound]
                exact asked_ensureBody hfile
              · have hbody : Course.forBody ⟨asked, w, x.path, some x.standing⟩ = [] := by
                  unfold Course.forBody Resolved.standing
                  cases hkind : x.kind with
                  | file => exact absurd hkind hfile
                  | staticDirectory | dynamicDirectory | symlink | control => rfl
                rw [hbody]
                refine hother (fun y hy => ?_) (by rw [hfound])
                rw [hfound] at hy
                cases hy
                exact hfile

/-- A listing costs what the course says. -/
theorem readDirectory_asked (helper : Helper View) (v : View) (p : Path) :
    ((readDirectory p).run helper [] v).asked =
      (course helper v p).asked ++ (course helper v p).forListing := by
  have hfollows := follows_course helper v p
  cases hwalk : (walkFromRoot p).run helper [] v with
  | mk asked w result =>
      rw [hwalk] at hfollows
      generalize course helper v p = c at hfollows ⊢
      have hother (h : ∀ x, (found helper v p).result = .ok x → x.kind.isDirectory = false)
          (hasked : (found helper v p).asked = asked) :
          ((readDirectory p).run helper [] v).asked = asked ++ [] := by
        rw [asked_readDirectory_of_not_directory h, List.append_nil]
        exact hasked
      cases hfollows with
      | error =>
          have hfound := found_of_error hwalk
          exact hother (by rw [hfound]; nofun) (by rw [hfound])
      | ok _ _ x =>
          cases hdir : x.kind.isDirectory with
          | false =>
              have hfound := found_of_not_directory hwalk hdir
              have hlisting : Course.forListing ⟨asked, w, x.path, some x.standing⟩ = [] := by
                have hne := x.standing_ne_directory hdir
                unfold Course.forListing
                dsimp only
                cases hstanding : x.standing with
                | directory => exact absurd hstanding hne
                | file | builtin => rfl
              rw [hlisting]
              refine hother (fun y hy => ?_) (by rw [hfound])
              rw [hfound] at hy
              cases hy
              exact hdir
          | true =>
              have hfound := found_of_directory hwalk hdir
              rw [Course.forListing, x.standing_of_isDirectory hdir]
              dsimp only
              cases hheld : w.store.held x.path with
              | error fault =>
                  rw [hheld] at hfound
                  exact hother (by rw [hfound]; nofun) (by rw [hfound])
              | ok held =>
                  rw [hheld] at hfound
                  have hresult : (found helper v p).result = .ok { x with kind := held.kind } := by
                    rw [hfound]
                    rfl
                  obtain ⟨u, hcalm, hentries⟩ := asked_entriesOf helper (found helper v p).asked
                    (found helper v p).state { x with kind := held.kind }
                  have hkept : u.store.held x.path = .ok held := by
                    rw [hcalm.store.held, hfound]
                    exact ((calm_peek x.path w).store.held x.path).trans hheld
                  rw [asked_readDirectory_of_directory hresult (isDirectory_kind held)]
                  refine hentries.trans ?_
                  rw [hfound]
                  have hanew (hne : ∀ entries, held ≠ .index (.listing entries)) :
                      ((indexForListing x.path).run helper asked u).asked = asked ++ [x.path] :=
                    asked_indexForListing hkept hne
                  rcases held with _ | (_ | entries) | _
                  · exact hanew nofun
                  · exact hanew nofun
                  · exact (asked_indexForListing_of_listing hkept).trans (List.append_nil _).symm
                  · exact hanew nofun

/-! ### What is saved -/

/-- A body is cached that the mount may use, whatever is declared of it. -/
def HasBody (v : View) (p : Path) : Prop :=
  ∃ e, v.store.stat p = .ok (some e) ∧ e.kind = .file ∧ (v.revalidate = true → ∀ entries,
    v.store.held p.parent = .ok (.index (.listing entries)) →
      ∀ d ∈ (Index.listing entries).find? p.fileName, d.size.toNat = e.size ∧
        d.mtime.toInt = e.mtime)

/-- A hint comes from the listing of the directory above. -/
theorem hint_of_childBy {s : Store} {dir : Path} {index : Option Index} {hint : Entry}
    (h : s.childBy dir n index = .ok x) (hhint : x.hint = some hint) :
    ∃ entries, index = some (.listing entries) ∧ (Index.listing entries).find? n = some hint := by
  rcases index with _ | _ | entries
  · cases h
  · obtain ⟨found, -, hfound⟩ := bind_eq_ok_iff.mp h
    rcases found with _ | ⟨kind, _, _, _⟩
    · cases hfound
    · cases kind <;> cases hfound <;> cases hhint
  · simp only [childBy] at h
    split at h
    · cases h
    · next e he =>
        cases h
        exact ⟨entries, rfl, he.trans hhint⟩

theorem hint_of_enter {s : Store} {x y : Resolved} {hint : Entry} (h : s.enter x n = .ok y)
    (hhint : y.hint = some hint) : ∃ entries,
    s.held x.path = .ok (.index (.listing entries)) ∧
      (Index.listing entries).find? n = some hint := by
  unfold enter at h
  split at h
  · split at h
    · cases h
      cases hhint
    · unfold child at h
      split at h
      · cases h
      · obtain ⟨index, htold, hindex⟩ := bind_eq_ok_iff.mp h
        obtain ⟨entries, rfl, hfind⟩ := hint_of_childBy hindex hhint
        obtain ⟨held, hheld, hindex⟩ := bind_eq_ok_iff.mp htold
        rcases held with _ | known | _ <;> cases hindex
        exact ⟨entries, hheld, hfind⟩
  · cases h

theorem hint_of_reached {s : Store} {hint : Entry} (h : s.reached p = .ok x)
    (hhint : x.hint = some hint) : ∃ entries,
    s.held p.parent = .ok (.index (.listing entries)) ∧
      (Index.listing entries).find? p.fileName = some hint := by
  rcases p.eq_root_or_extend with rfl | ⟨q, m, hm, rfl⟩
  · cases h
    cases hhint
  · rw [reached_extend q hm] at h
    obtain ⟨y, hy, henter⟩ := bind_eq_ok_iff.mp h
    rw [q.parent_extend hm, q.fileName_extend hm, ← path_of_reached hy]
    exact hint_of_enter henter hhint

/-- A body that the mount may use saves the request for it. -/
theorem forBody_of_hasBody (hquiet : (course helper v p).asked = []) (hbody : HasBody v p) :
    (course helper v p).forBody = [] := by
  have hfollows := follows_course helper v p
  rw [← asked_of_follows hfollows] at hquiet
  obtain ⟨hcalm, hreached⟩ := told_of_asked_eq_nil hquiet (tells_walkFromRoot idle_id p)
  revert hfollows hcalm hreached
  generalize (walkFromRoot p).run helper [] v = e, course helper v p = c
  intro hfollows hcalm hreached
  cases hfollows with
  | error => rfl
  | ok asked w x =>
      obtain ⟨e, hstat, hfile, hfresh⟩ := hbody
      have hreached : v.store.reached p = .ok x := hreached.symm
      unfold Course.forBody Resolved.standing
      cases hkind : x.kind with
      | staticDirectory | dynamicDirectory | symlink | control => rfl
      | file =>
          dsimp only
          rw [hcalm.store.stat, path_of_reached hreached, hstat]
          refine if_pos ⟨hfile, fun hminds d hd => ?_⟩
          obtain ⟨entries, hheld, hfind⟩ := hint_of_reached hreached hd
          rw [hcalm.revalidate] at hminds
          exact hfresh hminds entries hheld d hfind

theorem descends_stage (helper : Helper View) (v : View) (p : Path) :
    Descends p (2 * p.depth) (stage helper v p p.depth).asked := by
  have h := (stageInv helper v p (Nat.le_refl p.depth)).descends
  rwa [p.upTo_depth] at h

theorem place_of_course {standing : Standing} (h : (course helper v p).standing = some standing) :
    (course helper v p).place = p := by
  have hfollows := follows_course helper v p
  have hplace := (stageInv helper v p (Nat.le_refl p.depth)).place
  rw [p.upTo_depth, stage_depth] at hplace
  revert hfollows hplace h
  generalize (walkFromRoot p).run helper [] v = e, course helper v p = c
  intro h hfollows hplace
  cases hfollows with
  | error => cases h
  | ok asked w x => exact hplace x rfl

theorem forBody_cases (helper : Helper View) (v : View) (p : Path) :
    (course helper v p).forBody = [] ∨ (course helper v p).forBody = [p] := by
  unfold Course.forBody
  cases hstanding : (course helper v p).standing with
  | none => exact .inl rfl
  | some standing =>
      rw [place_of_course hstanding]
      cases standing with
      | directory | builtin => exact .inl rfl
      | file declared =>
          dsimp only
          split
          · exact ite_eq_or_eq _ _ _
          · exact .inl rfl

theorem forListing_cases (helper : Helper View) (v : View) (p : Path) :
    (course helper v p).forListing = [] ∨ (course helper v p).forListing = [p] := by
  unfold Course.forListing
  cases hstanding : (course helper v p).standing with
  | none => exact .inl rfl
  | some standing =>
      rw [place_of_course hstanding]
      cases standing with
      | file | builtin => exact .inl rfl
      | directory =>
          dsimp only
          split
          · exact .inl rfl
          · exact .inl rfl
          · exact .inr rfl

/-- A listing that the cache holds saves the request for it. -/
theorem forListing_of_held {entries : List Entry} (hquiet : (course helper v p).asked = [])
    (hheld : v.store.held p = .ok (.index (.listing entries))) :
    (course helper v p).forListing = [] := by
  have hfollows := follows_course helper v p
  have hplace (h : (course helper v p).standing = some .directory) := place_of_course h
  rw [← asked_of_follows hfollows] at hquiet
  have hcalm := (told_of_asked_eq_nil hquiet (tells_walkFromRoot idle_id p)).1
  revert hfollows hcalm hplace
  generalize (walkFromRoot p).run helper [] v = e, course helper v p = c
  intro hfollows hplace hcalm
  unfold Course.forListing
  cases hfollows with
  | error => rfl
  | ok asked w x =>
      dsimp only at hplace ⊢
      cases hstanding : x.standing with
      | file | builtin => rfl
      | directory =>
          rw [hplace (congrArg some hstanding), hcalm.store.held, hheld]

/-- The requests of a path, whatever the helper does to the cache meanwhile. -/
structure Frugal (helper : Helper View) (v : View) (p : Path) : Prop where
  /-- Each operation asks for what the course says, which says it by the cache. -/
  lookup_asked : ((lookup p).run helper [] v).asked = (course helper v p).asked
  openFile_asked : ((openFile p).run helper [] v).asked =
    (course helper v p).asked ++ (course helper v p).forBody
  readDirectory_asked : ((readDirectory p).run helper [] v).asked =
    (course helper v p).asked ++ (course helper v p).forListing
  /-- A course that comes to anything comes to its path; the look-up of one that ended fails. -/
  place : ∀ standing, (course helper v p).standing = some standing → (course helper v p).place = p
  ended : (course helper v p).standing = none →
    ∃ fault, ((lookup p).run helper [] v).result = .error fault
  /-- A child costs the directory unless it is held with an index, and itself if that is dynamic. -/
  sought : ∀ n, IsSegment n → (course helper v p).Seeks n →
    ((lookup (p.extend n)).run helper [] v).asked = (course helper v p).asked ++
      (course helper v p).forIndex ++ ((course helper v p).prepare helper).forChild n
  unsought : ∀ n, IsSegment n → ¬ (course helper v p).Seeks n →
    ((lookup (p.extend n)).run helper [] v).asked = (course helper v p).asked
  lookup_descends : Descends p (2 * p.depth) ((lookup p).run helper [] v).asked
  openFile_descends : Descends p (2 * p.depth + 1) ((openFile p).run helper [] v).asked
  readDirectory_descends : Descends p (2 * p.depth + 1) ((readDirectory p).run helper [] v).asked
  lookup_cached : ListedTo v p p.depth → ((lookup p).run helper [] v).asked = []
  openFile_cached : ListedTo v p p.depth → HasBody v p →
    ((openFile p).run helper [] v).asked = []
  readDirectory_cached : ListedTo v p (p.depth + 1) →
    ((readDirectory p).run helper [] v).asked = []
  /-- What is dynamic is asked for every time. -/
  child_fresh : ∀ n, IsSegment n → (course helper v p).Seeks n →
    ((course helper v p).prepare helper).index? = some .dynamic →
    ((lookup (p.extend n)).run helper [] v).asked.getLast? = some (p.extend n)
  listing_fresh : (course helper v p).standing = some .directory →
    (course helper v p).view.store.held p = .ok (.index .dynamic) →
    ((readDirectory p).run helper [] v).asked = (course helper v p).asked ++ [p]

/-- Requests are few, and a dynamic directory saves none. -/
theorem frugal_of_run (helper : Helper View) (v : View) (p : Path) : Frugal helper v p := by
  have hlookup := lookup_asked helper v
  have hdescends : Descends p (2 * p.depth) (course helper v p).asked := by
    rw [← hlookup, asked_lookup]
    exact descends_stage helper v p
  have hcached (h : ListedTo v p p.depth) : (course helper v p).asked = [] := by
    rw [← hlookup, asked_lookup]
    exact asked_stage_of_listedTo (Nat.le_refl _) h
  have hsought (n : String) (hn : IsSegment n) (hseeks : (course helper v p).Seeks n) :
      ((lookup (p.extend n)).run helper [] v).asked = (course helper v p).asked ++
        (course helper v p).forIndex ++ ((course helper v p).prepare helper).forChild n := by
    rw [hlookup, course_extend helper v p hn, Course.asked_next hseeks]
  constructor
  case lookup_asked => exact hlookup p
  case openFile_asked => exact openFile_asked helper v p
  case readDirectory_asked => exact readDirectory_asked helper v p
  case place => exact fun standing => place_of_course
  case ended => exact lookup_fails
  case sought => exact hsought
  case unsought =>
    intro n hn hnot
    rw [hlookup, course_extend helper v p hn, Course.asked_next_of_not_seeks hnot]
  case lookup_descends =>
    rw [hlookup]
    exact hdescends
  case openFile_descends =>
    rw [openFile_asked]
    exact hdescends.again (forBody_cases helper v p)
  case readDirectory_descends =>
    rw [readDirectory_asked]
    exact hdescends.again (forListing_cases helper v p)
  case lookup_cached => exact fun hlisted => (hlookup p).trans (hcached hlisted)
  case openFile_cached =>
    intro hlisted hbody
    rw [openFile_asked, forBody_of_hasBody (hcached hlisted) hbody, hcached hlisted]
    rfl
  case readDirectory_cached =>
    intro hlisted
    have hquiet := hcached fun j hj => hlisted j (Nat.lt_succ_of_lt hj)
    obtain ⟨entries, hheld⟩ := hlisted p.depth (Nat.lt_succ_self _)
    rw [p.upTo_depth] at hheld
    rw [readDirectory_asked, forListing_of_held hquiet hheld, hquiet]
    rfl
  case child_fresh =>
    intro n hn hseeks hdynamic
    rw [hsought n hn hseeks, Course.forChild, if_pos hdynamic, Course.place_prepare,
      place_of_course hseeks.directory]
    exact List.getLast?_concat
  case listing_fresh =>
    intro hstanding hheld
    rw [readDirectory_asked, Course.forListing, hstanding, place_of_course hstanding, hheld]

/-- A helper that makes a directory where nothing is. Only when it is asked again does it publish an
index there, a dynamic one. -/
def hesitant : Helper View := .closing fun _ p v =>
  { v with store := (match v.store.stat p with
      | .ok none => v.store.createDirectory p
      | _ => v.store.publishIndex p .dynamic).1 }

def unfilledView : View := { store := ⟨[], 1000, .empty ⟨0, 0⟩, { capacity := 4 }⟩ }

/-- Such a helper is asked as often as can be: five times about two segments. -/
theorem frugal_hesitant : ((readDirectory (.ofText "/a/b")).run hesitant [] unfilledView).asked =
    [.root, .ofText "/a", .ofText "/a", .ofText "/a/b", .ofText "/a/b"] :=
  (frugal_of_run hesitant unfilledView (.ofText "/a/b")).readDirectory_asked.trans
    (by decide +kernel)

end Resolver
end OnDemandFs
