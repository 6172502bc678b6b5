import OnDemandFs.Proofs.Kernel.Rows
import OnDemandFs.Session.Step

/-!
# What happens to a handle meanwhile

Between two calls of the kernel on one handle anything may happen: the cache changes, helpers come
and go, requests expire, other handles are opened and released. All of this reaches the table of
handles through a few calls, and what is put into the table gets a new number. So the row of a
handle that was given out is as it was, unless a step names the handle to alter it: `through_step`,
`Through.kept`.
-/
namespace OnDemandFs

/-- What a call of the table alters that is in it already. -/
inductive Touched where
  | file (h : Handle)
  | directory (h : Handle)
  | request (h : Handle)
  /-- Another table took the place of this one. -/
  | all
deriving DecidableEq

namespace Handles

/-- A call of the table, with the row that it alters, if any. -/
inductive Touch (t : Handles) : Option Touched → Handles → Prop
  | insertFile (f : Opened) : Touch t none (t.insertFile f).2.2
  | releaseFile (h : Handle) : Touch t (some (.file h)) (t.releaseFile h).2
  | insertDirectory (slots : List Slot) : Touch t none (t.insertDirectory slots).2
  | releaseDirectory (h : Handle) : Touch t (some (.directory h)) (t.releaseDirectory h).2
  | attachControl {b b' : Broker} {now : Nat} {h : Handle} {u : Handles}
      (hattach : t.attachControl b now = .ok (h, u, b')) : Touch t none u
  | releaseControl (b : Broker) (h : Handle) : Touch t none (t.releaseControl b h).2.1
  | deliver (r : RequestHandle) : Touch t none (t.deliver r).2
  | openRequest {id : RequestId} {h : Handle} {u : Handles}
      (hopen : t.openRequest id = some (h, u)) : Touch t none u
  | readRequest {h : Handle} {bytes : Bytes} {u : Handles}
      (hread : t.readRequest h = some (bytes, u)) : Touch t (some (.request h)) u
  | releaseRequest (b : Broker) (h : Handle) :
      Touch t (some (.request h)) (t.releaseRequest b h).2.1
  | restart : Touch t (some .all) {}

/-- Calls of the table that alter no more than is allowed. -/
inductive Through (allowed : Touched → Prop) (t : Handles) : Handles → Prop
  | refl : Through allowed t t
  | step {u v : Handles} {x : Option Touched} (h : Through allowed t u) (htouch : Touch u x v)
      (hx : ∀ y ∈ x, allowed y) : Through allowed t v

/-- What becomes of the rows that were there. -/
structure Kept (allowed : Touched → Prop) (t u : Handles) : Prop where
  last : t.last ≤ u.last
  files : ∀ h ≤ t.last, ¬ allowed (.file h) → u.files.get? h = t.files.get? h
  directories : ∀ h ≤ t.last, ¬ allowed (.directory h) →
    u.directories.get? h = t.directories.get? h
  requests : ∀ h ≤ t.last, ¬ allowed (.request h) → u.requests.get? h = t.requests.get? h
  /-- A handle of something else does not become one of a request, or of the control file. -/
  unrequested : ∀ h ≤ t.last, t.requests.get? h = none → u.requests.get? h = none
  control : ∀ h ≤ t.last, t.controlSession? h = none → u.controlSession? h = none

variable {allowed : Touched → Prop} {t u v : Handles} {x : Option Touched}

theorem Kept.refl (t : Handles) : Kept allowed t t :=
  ⟨Nat.le_refl _, fun _ _ _ => rfl, fun _ _ _ => rfl, fun _ _ _ => rfl, fun _ _ => id,
    fun _ _ => id⟩

theorem Kept.trans (h : Kept allowed t u) (h' : Kept allowed u v) : Kept allowed t v where
  last := Nat.le_trans h.last h'.last
  files n hn hx := (h'.files n (Nat.le_trans hn h.last) hx).trans (h.files n hn hx)
  directories n hn hx :=
    (h'.directories n (Nat.le_trans hn h.last) hx).trans (h.directories n hn hx)
  requests n hn hx := (h'.requests n (Nat.le_trans hn h.last) hx).trans (h.requests n hn hx)
  unrequested n hn hr := h'.unrequested n (Nat.le_trans hn h.last) (h.unrequested n hn hr)
  control n hn hc := h'.control n (Nat.le_trans hn h.last) (h.control n hn hc)

/-- A handle that was given out is not the next. -/
theorem ne_next {h : Handle} (hh : h ≤ t.last) : h ≠ t.last + 1 :=
  Nat.ne_of_lt (Nat.lt_succ_of_le hh)

/-- One request that is open is altered. -/
theorem kept_of_request {h : Handle} {r : RequestHandle} {rows : Table Handle RequestHandle}
    (hr : t.requests.get? h = some r) (hh : allowed (.request h))
    (hrows : ∀ n, n ≠ h → rows.get? n = t.requests.get? n) :
    Kept allowed t { t with requests := rows } := by
  have hsame : Kept allowed t t := .refl t
  refine { hsame with
    requests := fun n _ hn => hrows n ?_
    unrequested := fun n _ hnone => (hrows n ?_).trans hnone }
  · rintro rfl
    exact hn hh
  · rintro rfl
    rw [hr] at hnone
    cases hnone

theorem Touch.kept (h : Touch t x u) (hx : ∀ y ∈ x, allowed y) (hall : ¬ allowed .all) :
    Kept allowed t u := by
  have hsame : Kept allowed t t := .refl t
  cases h with
  | insertFile f =>
      exact { hsame with
        last := Nat.le_succ _
        files := fun n hn _ => Table.get?_set_of_ne _ _ (ne_next hn) }
  | releaseFile h =>
      refine { hsame with files := fun n _ hn => Table.get?_erase_of_ne _ ?_ }
      rintro rfl
      exact hn (hx _ rfl)
  | insertDirectory slots =>
      exact { hsame with
        last := Nat.le_succ _
        directories := fun n hn _ => Table.get?_set_of_ne _ _ (ne_next hn) }
  | releaseDirectory h =>
      refine { hsame with directories := fun n _ hn => Table.get?_erase_of_ne _ ?_ }
      rintro rfl
      exact hn (hx _ rfl)
  | attachControl hattach =>
      obtain ⟨session, -, -, rfl⟩ := attachControl_eq_ok_iff.mp hattach
      exact { hsame with
        last := Nat.le_succ _
        control := fun n hn _ => if_neg (ne_next hn).symm }
  | releaseControl b h =>
      cases hc : t.controlSession? h with
      | none =>
          rw [releaseControl_of_none hc]
          exact hsame
      | some session =>
          rw [releaseControl_of_some hc]
          exact { hsame with control := fun _ _ _ => rfl }
  | deliver r => exact { hsame with }
  | openRequest hopen =>
      obtain ⟨r, -, -, rfl⟩ := openRequest_eq_some_iff.mp hopen
      have hrow (n : Handle) (hn : n ≤ t.last) :
          (t.requests.set (t.last + 1) r).get? n = t.requests.get? n :=
        Table.get?_set_of_ne _ _ (ne_next hn)
      exact { hsame with
        last := Nat.le_succ _
        requests := fun n hn _ => hrow n hn
        unrequested := fun n hn hr => (hrow n hn).trans hr }
  | readRequest hread =>
      obtain ⟨r, hr, -, rfl⟩ := readRequest_eq_some_iff.mp hread
      exact kept_of_request hr (hx _ rfl) fun n hn => Table.get?_set_of_ne _ _ hn
  | releaseRequest b h =>
      cases hr : t.requests.get? h with
      | none =>
          rw [releaseRequest_of_none hr]
          exact hsame
      | some r =>
          rw [releaseRequest_of_some hr]
          exact kept_of_request hr (hx _ rfl) fun n hn => Table.get?_erase_of_ne _ hn
  | restart => exact absurd (hx _ rfl) hall

theorem Through.kept (h : Through allowed t u) (hall : ¬ allowed .all) : Kept allowed t u := by
  induction h with
  | refl => exact .refl t
  | step _ htouch hx ih => exact ih.trans (htouch.kept hx hall)

/-- No two rows go under one handle, and the handles that are left have higher numbers. -/
structure Proper (t : Handles) : Prop where
  files : ∀ h f, t.files.get? h = some f →
    h ≤ t.last ∧ t.requests.get? h = none ∧ t.controlSession? h = none
  requests : ∀ h r, t.requests.get? h = some r → h ≤ t.last ∧ t.controlSession? h = none
  control : ∀ h session, t.controlSession? h = some session → h ≤ t.last

theorem Proper.fresh (ht : Proper t) :
    t.requests.get? (t.last + 1) = none ∧ t.controlSession? (t.last + 1) = none := by
  constructor
  · refine Option.eq_none_iff_forall_ne_some.mpr fun r hr => ?_
    exact Nat.not_succ_le_self _ (ht.requests _ r hr).1
  · refine Option.eq_none_iff_forall_ne_some.mpr fun session hsession => ?_
    exact Nat.not_succ_le_self _ (ht.control _ session hsession)

/-- The counter may go on, and rows may go. -/
theorem Proper.shrink (ht : Proper t) (hlast : t.last ≤ u.last)
    (hfiles : ∀ h f, u.files.get? h = some f → t.files.get? h = some f)
    (hrequests : ∀ h r, u.requests.get? h = some r → ∃ r', t.requests.get? h = some r')
    (hcontrol : u.control = t.control ∨ u.control = none) : Proper u := by
  have hsession (h : Handle) (hnone : t.controlSession? h = none) : u.controlSession? h = none := by
    rcases hcontrol with hsame | hgone
    · rw [controlSession?, hsame]
      exact hnone
    · exact controlSession?_of_control_none hgone h
  refine ⟨fun h f hf => ?_, fun h r hr => ?_, fun h session hs => ?_⟩
  · obtain ⟨hle, hr, hc⟩ := ht.files h f (hfiles h f hf)
    refine ⟨Nat.le_trans hle hlast, Option.eq_none_iff_forall_ne_some.mpr fun r hr' => ?_,
      hsession h hc⟩
    obtain ⟨r', hr'⟩ := hrequests h r hr'
    rw [hr] at hr'
    cases hr'
  · obtain ⟨r', hr'⟩ := hrequests h r hr
    obtain ⟨hle, hc⟩ := ht.requests h r' hr'
    exact ⟨Nat.le_trans hle hlast, hsession h hc⟩
  · cases hs' : t.controlSession? h with
    | none =>
        rw [hsession h hs'] at hs
        cases hs
    | some session' => exact Nat.le_trans (ht.control h session' hs') hlast

theorem get?_of_get?_erase {α : Type} {rows : Table Handle α} {h h' : Handle} {a : α}
    (hrow : (rows.erase h').get? h = some a) : rows.get? h = some a := by
  by_cases heq : h = h'
  · rw [heq, Table.get?_erase_self] at hrow
    cases hrow
  · rwa [Table.get?_erase_of_ne _ heq] at hrow

theorem Touch.proper (h : Touch t x u) (ht : Proper t) : Proper u := by
  obtain ⟨hfreshRequest, hfreshControl⟩ := ht.fresh
  cases h with
  | insertFile f =>
      refine ⟨fun h f' hf => ?_, fun h r hr => ?_, fun h session hs => ?_⟩
      · by_cases hh : h = t.last + 1
        · rw [hh]
          exact ⟨Nat.le_refl _, hfreshRequest, hfreshControl⟩
        · obtain ⟨hle, hrest⟩ := ht.files h f' ((Table.get?_set_of_ne _ _ hh).symm.trans hf)
          exact ⟨Nat.le_succ_of_le hle, hrest⟩
      · exact ⟨Nat.le_succ_of_le (ht.requests h r hr).1, (ht.requests h r hr).2⟩
      · exact Nat.le_succ_of_le (ht.control h session hs)
  | releaseFile h =>
      exact ht.shrink (Nat.le_refl _) (fun _ _ => get?_of_get?_erase) (fun _ r hr => ⟨r, hr⟩)
        (.inl rfl)
  | insertDirectory slots =>
      exact ht.shrink (Nat.le_succ _) (fun _ _ => id) (fun _ r hr => ⟨r, hr⟩) (.inl rfl)
  | releaseDirectory h =>
      exact ht.shrink (Nat.le_refl _) (fun _ _ => id) (fun _ r hr => ⟨r, hr⟩) (.inl rfl)
  | attachControl hattach =>
      obtain ⟨session, -, -, rfl⟩ := attachControl_eq_ok_iff.mp hattach
      refine ⟨fun h f hf => ?_, fun h r hr => ?_, fun h session' hs => ?_⟩
      · obtain ⟨hle, hr, -⟩ := ht.files h f hf
        exact ⟨Nat.le_succ_of_le hle, hr, if_neg (ne_next hle).symm⟩
      · obtain ⟨hle, -⟩ := ht.requests h r hr
        exact ⟨Nat.le_succ_of_le hle, if_neg (ne_next hle).symm⟩
      · cases controlSession?_eq_some_iff.mp hs
        exact Nat.le_refl _
  | releaseControl b h =>
      cases hc : t.controlSession? h with
      | none =>
          rw [releaseControl_of_none hc]
          exact ht
      | some session =>
          rw [releaseControl_of_some hc]
          exact ht.shrink (Nat.le_refl _) (fun _ _ => id) (fun _ r hr => ⟨r, hr⟩) (.inr rfl)
  | deliver r =>
      exact ht.shrink (Nat.le_refl _) (fun _ _ => id) (fun _ r hr => ⟨r, hr⟩) (.inl rfl)
  | openRequest hopen =>
      obtain ⟨r, -, -, rfl⟩ := openRequest_eq_some_iff.mp hopen
      refine ⟨fun h f hf => ?_, fun h r hr => ?_, fun h session hs => ?_⟩
      · obtain ⟨hle, hr, hc⟩ := ht.files h f hf
        exact ⟨Nat.le_succ_of_le hle, (Table.get?_set_of_ne _ _ (ne_next hle)).trans hr, hc⟩
      · by_cases hh : h = t.last + 1
        · rw [hh]
          exact ⟨Nat.le_refl _, hfreshControl⟩
        · obtain ⟨hle, hc⟩ := ht.requests h r ((Table.get?_set_of_ne _ _ hh).symm.trans hr)
          exact ⟨Nat.le_succ_of_le hle, hc⟩
      · exact Nat.le_succ_of_le (ht.control h session hs)
  | @readRequest h bytes u hread =>
      obtain ⟨r, hr, -, rfl⟩ := readRequest_eq_some_iff.mp hread
      refine ht.shrink (Nat.le_refl _) (fun _ _ => id) (fun n r' hr' => ?_) (.inl rfl)
      by_cases hn : n = h
      · exact ⟨r, hn ▸ hr⟩
      · exact ⟨r', (Table.get?_set_of_ne _ _ hn).symm.trans hr'⟩
  | releaseRequest b h =>
      cases hr : t.requests.get? h with
      | none =>
          rw [releaseRequest_of_none hr]
          exact ht
      | some r =>
          rw [releaseRequest_of_some hr]
          exact ht.shrink (Nat.le_refl _) (fun _ _ => id)
            (fun _ r' hr' => ⟨r', get?_of_get?_erase hr'⟩) (.inl rfl)
  | restart => exact ⟨nofun, nofun, nofun⟩

theorem Through.proper (h : Through allowed t u) (ht : Proper t) : Proper u := by
  induction h with
  | refl => exact ht
  | step _ htouch _ ih => exact htouch.proper ih

theorem Through.touch (htouch : Touch t x u) (hx : ∀ y ∈ x, allowed y) : Through allowed t u :=
  Through.refl.step htouch hx

/-- A call that only adds. -/
theorem Through.add (htouch : Touch t none u) : Through allowed t u :=
  .touch htouch nofun

theorem Through.trans (h : Through allowed t u) (h' : Through allowed u v) :
    Through allowed t v := by
  induction h' with
  | refl => exact h
  | step _ htouch hx ih => exact ih.step htouch hx

end Handles

namespace Session

open Handles

variable {allowed : Touched → Prop} {s t : Session}

/-! ### Coming to rest -/

theorem through_listInto (s : Session) (inode : Inode) (dir : Path) (entries : List Listed) :
    Through allowed s.table (s.listInto inode dir entries).2.table :=
  .add (.insertDirectory _)

theorem through_finishKernel (s : Session) (need : KernelNeed) (answer : Answer) :
    Through allowed s.table (s.finishKernel need answer).2.table := by
  unfold finishKernel
  split
  · exact .refl
  · exact .refl
  · exact .add (.insertFile _)
  · exact through_listInto s _ _ _
  · exact .refl

theorem through_finish (s : Session) (call : Call) (result : Except Fault Answer) :
    Through allowed s.table (s.finish call result).2.table := by
  unfold finish
  split
  · exact .refl
  · exact .refl
  · exact through_finishKernel s _ _
  · exact .refl
  · exact .refl
  · exact through_listInto s _ _ _
  all_goals exact .refl

theorem through_proceed (s : Session) (label : String) (call : Call) (i : Inquiry View Answer) :
    Through allowed s.table (s.proceed label call i).table := by
  cases i with
  | done view result => exact through_finish (s.setView view) call result
  | asks view p resume =>
      unfold proceed
      dsimp only
      split
      · cases call <;> exact .refl
      · exact .refl

/-- A helper keeps its requests under names of its own. -/
theorem table_readChannel_helper {channel : SessionId} {name : String} {reply : Reply}
    (h : s.readChannel channel (.helper name) = some (reply, t)) : t.table = s.table := by
  unfold readChannel at h
  split at h
  · cases h
    rfl
  · cases h
    unfold keepHandle
    dsimp only
    split <;> rfl
  · cases h

theorem through_readChannel {channel : SessionId} {reader : ChannelReader} {reply : Reply}
    (h : s.readChannel channel reader = some (reply, t)) : Through allowed s.table t.table := by
  cases reader with
  | helper name =>
      rw [table_readChannel_helper h]
      exact .refl
  | controlFile | kernel =>
      unfold readChannel at h
      split at h
      · cases h
        exact .refl
      · cases h
        exact .add (.deliver _)
      · cases h

theorem through_moveWaiting (s : Session) (w : Waiting) :
    Through allowed s.table (s.moveWaiting w).table := by
  unfold moveWaiting
  split
  · split
    · exact through_proceed s _ _ _
    · exact through_finish s _ _
    · exact .refl
  · split
    · next reply t h => exact through_readChannel (t := t) h
    · exact .refl

theorem through_move (h : s.move = some t) : Through allowed s.table t.table := by
  unfold move at h
  split at h
  · next hfirst =>
      cases h
      unfold moveFirst at hfirst
      split at hfirst
      · cases hfirst
      · next before w rest _ =>
          cases hfirst
          exact through_moveWaiting { s with waiting := before ++ rest } w
  · split at h
    · next hexpire =>
        cases h
        obtain ⟨w, -, hw⟩ := List.exists_of_findSome?_eq_some hexpire
        split at hw
        · split at hw
          · cases hw
            exact .refl
          · cases hw
        · cases hw
    · unfold serveOne at h
      split at h
      · cases h
      · split at h
        · cases h
          exact .refl
        · cases h

theorem through_settle (s : Session) : Through allowed s.table s.settle.table := by
  have hall (fuel : Nat) (s : Session) : Through allowed s.table (moveAll fuel s).table := by
    induction fuel generalizing s with
    | zero => exact .refl
    | succ fuel ih =>
        unfold moveAll
        split
        · next hmove => exact (through_move hmove).trans (ih _)
        · exact .refl
  exact hall _ s

/-- Coming to rest alters no row. -/
theorem untouched_settle (s : Session) : Through (fun _ => False) s.table s.settle.table :=
  through_settle s

theorem through_awaitAll (labels : List String) (fuel : Nat) (s : Session) :
    Through allowed s.table (awaitAll labels fuel s).table := by
  induction fuel generalizing s with
  | zero => exact .refl
  | succ fuel ih =>
      unfold awaitAll
      split
      · split
        · next time _ =>
            have hsettle : Through allowed s.table
                ({ s with now := max s.now time } : Session).settle.table :=
              through_settle { s with now := max s.now time }
            exact hsettle.trans (ih _)
        · exact .refl
      · exact .refl

/-! ### Steps -/

theorem table_withNamed {α : Type} {named : Table String α} {name : String}
    {f : α → Reply × Session} (hf : ∀ a, (f a).2.table = s.table) :
    (s.withNamed named name f).2.table = s.table := by
  unfold withNamed
  split
  · exact hf _
  · rfl

theorem table_startHelper (s : Session) (mode : HelperMode) (refuse : Fault → Reply) :
    (s.startHelper mode refuse).2.table = s.table := by
  unfold startHelper
  split <;> rfl

theorem table_of_replied {r : Reply × Session} {reply : Reply} (h : some r = some (reply, t))
    (htable : r.2.table = s.table) : t.table = s.table := by
  cases h
  exact htable

theorem table_helperStep {st : Step} {reply : Reply} (h : s.helperStep st = some (reply, t)) :
    t.table = s.table := by
  cases st with
  | attach =>
      unfold helperStep at h
      dsimp only at h
      split at h <;> exact table_of_replied h rfl
  | detach | readHandle | closeHandle => exact table_of_replied h (table_withNamed fun _ => rfl)
  | dropChannel =>
      unfold helperStep at h
      dsimp only at h
      split at h <;> exact table_of_replied h rfl
  | channelAttached => exact table_of_replied h rfl
  | next channel handle =>
      refine table_of_replied h (table_withNamed fun c => ?_)
      split
      · next r hread =>
          obtain ⟨reply, t⟩ := r
          exact table_readChannel_helper hread
      · rfl
  | startCopying | startScript => exact table_of_replied h (table_startHelper s _ _)
  | stopHelper =>
      refine table_of_replied h ?_
      unfold stopHelper
      split <;> rfl
  | _ => cases h

theorem table_storeStep {st : Step} {reply : Reply} (h : s.storeStep st = some (reply, t)) :
    t.table = s.table := by
  cases st with
  | change | entry | readIndex | listPhysical | physicalPath | namesBelow | contentBelow | origin =>
      cases h
      rfl
  | _ => cases h

theorem table_fileStep {st : Step} {reply : Reply} (h : s.fileStep st = some (reply, t)) :
    t.table = s.table := by
  cases st with
  | fileRead | fileReadAt | fileAll | fileLength | mapRead =>
      exact table_of_replied h (table_withNamed fun _ => rfl)
  | fileClose | live => exact table_of_replied h rfl
  | map =>
      refine table_of_replied h (table_withNamed fun f => ?_)
      dsimp only
      split <;> rfl
  | unmap =>
      unfold fileStep at h
      dsimp only at h
      split at h <;> exact table_of_replied h rfl
  | _ => cases h

end Session

/-- What a call of the kernel may alter of the table. -/
def KernelCall.touches : KernelCall → Touched → Prop
  | .read h .., x => x = .request h
  | .release h, x => x = .request h ∨ x = .file h
  | .releaseDirectory h, x => x = .directory h
  | _, _ => False

/-- What a step may alter of the table. -/
def Step.touches : Step → Touched → Prop
  | .kernel c, x => c.touches x
  | .readRequest h, x | .releaseRequest h, x => x = .request h
  | .releaseFile h, x => x = .file h
  | .releaseDirectory h, x => x = .directory h
  | .startKernel _, x => x = .all
  | _, _ => False

namespace Session

open Handles

variable {s t : Session}

theorem through_tableStep {st : Step} {reply : Reply} (h : s.tableStep st = some (reply, t)) :
    Through st.touches s.table t.table := by
  have hpair {r : Reply × Session} (hr : some r = some (reply, t))
      (hthrough : Through st.touches s.table r.2.table) : Through st.touches s.table t.table := by
    cases hr
    exact hthrough
  cases st with
  | attachControl =>
      unfold tableStep at h
      dsimp only at h
      split at h
      · exact hpair h .refl
      · next hattach => exact hpair h (.add (.attachControl hattach))
  | controlAttached | hasControl | requestSize | handleRead | openFiles | directoryPage =>
      exact hpair h .refl
  | releaseControl handle => exact hpair h (.add (.releaseControl _ _))
  | deliver name =>
      refine hpair h ?_
      unfold withNamed
      split
      · exact .add (.deliver _)
      · exact .refl
  | openRequest id =>
      unfold tableStep at h
      dsimp only at h
      split at h
      · exact hpair h .refl
      · next hopen => exact hpair h (.add (.openRequest hopen))
  | readRequest handle =>
      unfold tableStep at h
      dsimp only at h
      split at h
      · exact hpair h .refl
      · next hread => exact hpair h (.touch (.readRequest hread) (by simp [Step.touches]))
  | releaseRequest handle =>
      exact hpair h (.touch (.releaseRequest _ _) (by simp [Step.touches]))
  | insertFile name =>
      refine hpair h ?_
      unfold withNamed
      split
      · exact .add (.insertFile _)
      · exact .refl
  | releaseFile handle => exact hpair h (.touch (.releaseFile _) (by simp [Step.touches]))
  | openRequests => exact hpair h (.add (.insertDirectory _))
  | releaseDirectory handle => exact hpair h (.touch (.releaseDirectory _) (by simp [Step.touches]))
  | _ => cases h

theorem through_mountStep {st : Step} {reply : Reply} (h : s.mountStep st = some (reply, t)) :
    Through st.touches s.table t.table := by
  cases st with
  | startKernel ttl =>
      cases h
      refine .touch .restart fun y hy => ?_
      cases hy
      exact rfl
  | brokerStatus | status | settings | pathOf | idOf | startWithoutRuntime | mountAt | stopKernel =>
      cases h
      exact .refl
  | _ => cases h

theorem through_openFile (t : Handles) (m : Mount) (now : Nat) (inode : Inode) (flags : Int)
    {allowed : Touched → Prop} :
    Through allowed t (KernelSide.openFile t m now inode flags).2.1 := by
  rcases KernelSide.openFile_cases t m now inode flags with
    ⟨reply, heq⟩ | ⟨id, h, u, hopen, heq⟩ | ⟨h, u, b, hattach, heq⟩ | ⟨p, -, heq⟩ <;> rw [heq]
  · exact .refl
  · exact .add (.openRequest hopen)
  · exact .add (.attachControl hattach)
  · exact .refl

theorem through_read (t : Handles) (m : Mount) (h : Handle) (offset : Int) (size : Nat) :
    Through (KernelCall.read h offset size).touches t (KernelSide.read t m h offset size).2 := by
  rcases KernelSide.read_cases t m h offset size with
    ⟨session, heq⟩ | ⟨bytes, u, hread, heq⟩ | ⟨reply, heq⟩ <;> rw [heq]
  · exact .refl
  · exact .touch (.readRequest hread) (by simp [KernelCall.touches])
  · exact .refl

theorem through_release (t : Handles) (b : Broker) (h : Handle) :
    Through (KernelCall.release h).touches t (KernelSide.release t b h).1 := by
  cases hc : t.controlSession? h with
  | some session =>
      have htouch := Touch.releaseControl (t := t) b h
      rw [releaseControl_of_some hc] at htouch
      rw [release_of_control hc]
      exact .add htouch
  | none =>
      cases hr : t.requests.get? h with
      | some r =>
          have htouch := Touch.releaseRequest (t := t) b h
          rw [releaseRequest_of_some hr] at htouch
          rw [release_of_request hc hr]
          exact .touch htouch (by simp [KernelCall.touches])
      | none =>
          rw [release_of_file hc hr]
          exact .touch (.releaseFile h) (by simp [KernelCall.touches])

/-- What a call of the kernel does to the table at once. -/
theorem through_plan (k : KernelSide) (t : Handles) (m : Mount) (now : Nat) (call : KernelCall) :
    Through call.touches t (k.plan t m now call).2.2.1 := by
  unfold KernelSide.plan
  split
  · exact .refl
  · cases call with
    | lookup | getattr | readlink | readDirectory | destroy => exact .refl
    | openFile inode flags => exact through_openFile t m now inode flags
    | openDirectory inode =>
        dsimp only
        split
        · exact .add (.insertDirectory _)
        · exact .refl
    | read h offset size => exact through_read t m h offset size
    | release h => exact through_release t m.broker h
    | releaseDirectory h => exact .touch (.releaseDirectory _) (by simp [KernelCall.touches])

theorem through_readOrWait (s : Session) (label : String) (channel : SessionId)
    (reader : ChannelReader) {allowed : Touched → Prop} :
    Through allowed s.table (s.readOrWait label channel reader).table := by
  unfold readOrWait
  split
  · next reply t hread => exact through_readChannel (t := t) hread
  · exact .refl

theorem through_kernelCall (s : Session) (label : String) (call : KernelCall) :
    Through call.touches s.table (s.kernelCall label call).table := by
  unfold kernelCall
  split
  · exact .refl
  · next k _ =>
      have hplan := through_plan k s.table s.mount s.now call
      generalize k.plan s.table s.mount s.now call = planned at hplan ⊢
      obtain ⟨plan, k', table, mount⟩ := planned
      have hafter {t : Session} (h : Through call.touches table t.table) :
          Through call.touches s.table t.table :=
        hplan.trans h
      dsimp only
      split
      · exact hafter .refl
      · exact hafter (through_readOrWait { s with kernel := some k', table, mount } _ _ _)
      · exact hafter (through_proceed { s with kernel := some k', table, mount } _ _ _)

theorem through_beginStep (s : Session) (label : String) (st : Step) :
    Through st.touches s.table (s.beginStep label st).table := by
  cases st with
  | call c => exact through_proceed s _ _ _
  | kernel c => exact through_kernelCall s label c
  | nextBlocking channel handle =>
      dsimp only [beginStep]
      split
      · exact through_readOrWait s _ _ _
      · exact .refl
  | readControl h =>
      dsimp only [beginStep]
      split
      · exact through_readOrWait s _ _ _
      · exact .refl
  | await labels => exact through_awaitAll labels _ s
  | _ => exact .refl

theorem through_promptStep {st : Step} {reply : Reply} (h : s.promptStep st = some (reply, t)) :
    Through st.touches s.table t.table := by
  unfold promptStep at h
  rcases Option.or_eq_some_iff.mp h with h | ⟨-, h⟩
  · rw [table_helperStep h]
    exact .refl
  rcases Option.or_eq_some_iff.mp h with h | ⟨-, h⟩
  · rw [table_storeStep h]
    exact .refl
  rcases Option.or_eq_some_iff.mp h with h | ⟨-, h⟩
  · rw [table_fileStep h]
    exact .refl
  rcases Option.or_eq_some_iff.mp h with h | ⟨-, h⟩
  · exact through_tableStep h
  · exact through_mountStep h

/-- A step reaches the table through calls that alter no more than the step may. -/
theorem through_step (s : Session) (label : String) (st : Step) :
    Through st.touches s.table (s.step label st).2.table := by
  unfold step
  split
  · next reply t hprompt => exact (through_promptStep hprompt).trans (through_settle t)
  · exact (through_beginStep s label st).trans (through_settle _)

/-- A session with all that happened in it since its table of handles was empty. -/
inductive Lived : Session → Prop
  | start {s : Session} (hs : s.table = {}) : Lived s
  | step {s : Session} (h : Lived s) (label : String) (st : Step) : Lived (s.step label st).2

theorem Lived.proper (h : s.Lived) : s.table.Proper := by
  induction h with
  | start hs =>
      rw [hs]
      exact ⟨nofun, nofun, nofun⟩
  | step _ label st ih => exact (through_step _ label st).proper ih

end Session
end OnDemandFs
