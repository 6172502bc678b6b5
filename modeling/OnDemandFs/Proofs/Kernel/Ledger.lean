import OnDemandFs.Proofs.Broker.Taken
import OnDemandFs.Proofs.Kernel.Held

/-!
# Who was given which number

All calls of the table of handles, those of the kernel on any number included, with what is to be
noted of each: that a number was given out, and for what, or that one was released. A call that does
not find what it looks for under its number does nothing. `TableCall.Step` says once what a call can
do, and `Books` what the notes have to do with the table: a number stands for what it was given out
for until it is released, and for nothing before and after.
-/
namespace OnDemandFs

/-- A call of the table of handles. -/
inductive TableCall where
  | insertFile (f : Opened)
  | insertDirectory (slots : List Slot)
  | attachControl
  /-- Whoever reads has the channel from when the control file was open, which may be long ago. -/
  | readControl (channel : SessionId)
  | openRequest (id : RequestId)
  | readRequest (h : Handle)
  | releaseFile (h : Handle)
  | releaseDirectory (h : Handle)
  | releaseControl (h : Handle)
  | releaseRequest (h : Handle)
  /-- What the kernel does with a number, whatever that stands for. -/
  | read (m : Mount) (h : Handle) (offset : Int) (size : Nat)
  | release (h : Handle)

namespace TableCall

inductive Note where
  | issued (h : Handle) (x : Held)
  | released (h : Handle)
deriving DecidableEq

/-- The number that a call is made on. -/
def handle? : TableCall → Option Handle
  | insertFile _ | insertDirectory _ | attachControl | readControl _ | openRequest _ => none
  | readRequest h | releaseFile h | releaseDirectory h | releaseControl h | releaseRequest h
  | read _ h _ _ | release h => some h

/-- A call on a number can do something only to what it is for. What the kernel asks is for several
kinds, and changes a request alone when it reads. -/
def suits : TableCall → Held → Bool
  | readRequest _, .request .. | releaseRequest _, .request .. | read .., .request .. => true
  | releaseFile _, .file _ | releaseDirectory _, .directory _ | releaseControl _, .control _ => true
  | release _, .control _ | release _, .request .. | release _, .file _ => true
  | _, _ => false

def noteReleased (done : Bool) (h : Handle) : List Note := if done then [.released h] else []

/-- A call on a table and the broker behind it, with what is noted of it. -/
def perform (t : Handles) (b : Broker) (now : Nat) : TableCall → List Note × Handles × Broker
  | insertFile f => ([.issued (t.insertFile f).1 (.file f)], (t.insertFile f).2.2, b)
  | insertDirectory slots =>
    ([.issued (t.insertDirectory slots).1 (.directory slots)], (t.insertDirectory slots).2, b)
  | attachControl =>
    match t.attachControl b now with
    | .ok (h, u, b) => ((u.controlSession? h).toList.map fun s => .issued h (.control s), u, b)
    | .error _ => ([], t, b)
  | readControl channel =>
    match b.takeHandle channel with
    | .ok (some r, b) => ([], (t.deliver r).2, b)
    | .ok (none, _) | .error _ => ([], t, b)
  | openRequest id =>
    match t.openRequest id with
    | some (h, u) =>
      ((u.requests.get? h).toList.map fun r => .issued h (.request r.request r.path), u, b)
    | none => ([], t, b)
  | readRequest h =>
    match t.readRequest h with
    | some (_, u) => ([], u, b)
    | none => ([], t, b)
  | releaseFile h => (noteReleased (t.releaseFile h).1 h, (t.releaseFile h).2, b)
  | releaseDirectory h => (noteReleased (t.releaseDirectory h).1 h, (t.releaseDirectory h).2, b)
  | releaseControl h =>
    let (done, u, b) := t.releaseControl b h
    (noteReleased done h, u, b)
  | releaseRequest h =>
    let (done, u, b) := t.releaseRequest b h
    (noteReleased done h, u, b)
  | read m h offset size => ([], (KernelSide.read t m h offset size).2, b)
  | release h =>
    (noteReleased
      ((t.releaseControl b h).1 || (t.releaseRequest b h).1 || (t.releaseFile h).1) h,
      KernelSide.release t b h)

/-! ### What a call does -/

/-- Each call that does something, by its effect, with the number whose row it alters. -/
inductive Step (t : Handles) (b : Broker) (now : Nat) :
    Option Handle → List Note → Handles → Broker → Prop
  | insertFile (f : Opened) : Step t b now (some (t.last + 1)) [.issued (t.last + 1) (.file f)]
      { t with
        last := t.last + 1
        files := t.files.set (t.last + 1) f
        generations := t.generations.set f.node.id f.file } b
  | insertDirectory (slots : List Slot) :
      Step t b now (some (t.last + 1)) [.issued (t.last + 1) (.directory slots)]
        { t with last := t.last + 1, directories := t.directories.set (t.last + 1) slots } b
  | attachControl {session : SessionId} {c : Broker} (h : b.attach now = .ok (session, c)) :
      Step t b now (some (t.last + 1)) [.issued (t.last + 1) (.control session)]
        { t with last := t.last + 1, control := some ⟨t.last + 1, session⟩ } c
  | deliver {channel : SessionId} {r : RequestHandle} {c : Broker}
      (h : b.takeHandle channel = .ok (some r, c)) :
      Step t b now none [] { t with pending := t.pending.set r.request r } c
  | openRequest {id : RequestId} {r : RequestHandle} (h : t.pending.get? id = some r) :
      Step t b now (some (t.last + 1)) [.issued (t.last + 1) (.request r.request r.path)]
        { t with
          last := t.last + 1
          pending := t.pending.erase id
          requests := t.requests.set (t.last + 1) r } b
  | readRequest {h : Handle} {r : RequestHandle} (hr : t.requests.get? h = some r) :
      Step t b now (some h) [] { t with requests := t.requests.set h r.read.2 } b
  | releaseFile {h : Handle} {f : Opened} (hf : t.files.get? h = some f) :
      Step t b now (some h) [.released h] { t with files := t.files.erase h } b
  | releaseDirectory {h : Handle} {slots : List Slot} (hd : t.directories.get? h = some slots) :
      Step t b now (some h) [.released h] { t with directories := t.directories.erase h } b
  | releaseControl {c : ControlFile} (hc : t.control = some c) :
      Step t b now (some c.handle) [.released c.handle] { t with control := none, pending := [] }
        ((b.detach c.session).closeAll t.pending.values)
  | releaseRequest {h : Handle} {r : RequestHandle} (hr : t.requests.get? h = some r) :
      Step t b now (some h) [.released h] { t with requests := t.requests.erase h }
        (b.close r.request)

variable {t u : Handles} {b c : Broker} {now : Nat} {x : Option Handle} {notes past : List Note}
  {h : Handle}

/-- A call without a number does something, and alters no number but a new one. -/
def DoesNew (t : Handles) (b : Broker) (now : Nat) (call : TableCall) : Prop :=
  call.handle? = none ∧ ∃ x, Step t b now x (call.perform t b now).1 (call.perform t b now).2.1
    (call.perform t b now).2.2 ∧ ∀ h ∈ x, h = t.last + 1

/-- A call does something to its number, and there is something there that it is for. -/
def DoesOwn (t : Handles) (b : Broker) (now : Nat) (call : TableCall) : Prop :=
  ∃ h, call.handle? = some h ∧ (∃ y ∈ t.held h, call.suits y = true) ∧
    Step t b now (some h) (call.perform t b now).1 (call.perform t b now).2.1
      (call.perform t b now).2.2

variable {call : TableCall}

theorem does_new (hstep : Step t b now (some (t.last + 1)) notes u c) (hh : call.handle? = none)
    (hperform : call.perform t b now = (notes, u, c)) : call.DoesNew t b now := by
  unfold DoesNew
  rw [hperform]
  exact ⟨hh, _, hstep, fun _ hx => (Option.some.inj hx).symm⟩

theorem does_own {y : Held} (hstep : Step t b now (some h) notes u c) (hh : call.handle? = some h)
    (hy : y ∈ t.held h) (hsuits : call.suits y = true)
    (hperform : call.perform t b now = (notes, u, c)) : call.DoesOwn t b now := by
  unfold DoesOwn
  rw [hperform]
  exact ⟨h, hh, ⟨y, hy, hsuits⟩, hstep⟩

theorem release_of_control {session : SessionId} (hc : t.controlSession? h = some session) :
    perform t b now (.release h) = ([.released h], { t with control := none, pending := [] },
      (b.detach session).closeAll t.pending.values) := by
  simp only [perform, Handles.release_of_control hc, Handles.releaseControl_of_some hc,
    Bool.true_or]
  rfl

theorem release_of_request {r : RequestHandle} (hc : t.controlSession? h = none)
    (hr : t.requests.get? h = some r) : perform t b now (.release h) =
      ([.released h], { t with requests := t.requests.erase h }, b.close r.request) := by
  simp only [perform, Handles.release_of_request hc hr, Handles.releaseRequest_of_some hr,
    Bool.true_or, Bool.or_true]
  rfl

theorem release_of_file {f : Opened} (hc : t.controlSession? h = none)
    (hr : t.requests.get? h = none) (hf : t.files.get? h = some f) : perform t b now (.release h) =
      ([.released h], { t with files := t.files.erase h }, b) := by
  simp only [perform, Handles.release_of_file hc hr, Handles.releaseFile_of_some hf, Bool.or_true]
  rfl

/-- Reading does something to a request, and to nothing else. -/
theorem read_cases (t : Handles) (b : Broker) (now : Nat) (m : Mount) (h : Handle) (offset : Int)
    (size : Nat) : perform t b now (.read m h offset size) = ([], t, b) ∨
      DoesOwn t b now (.read m h offset size) := by
  cases hc : t.controlSession? h with
  | some session => exact .inl (by rw [perform, Session.read_control hc])
  | none =>
      cases hr : t.requests.get? h with
      | some r =>
          refine .inr (does_own (.readRequest hr) rfl (Handles.mem_held_of_request hr) rfl ?_)
          rw [perform, Session.read_request hc hr]
      | none =>
          cases hf : t.files.get? h with
          | some f => exact .inl (by rw [perform, Session.read_file hc hr hf])
          | none => exact .inl (by rw [perform, Session.read_none hc hr hf])

/-- Releasing does to a number what the call for its kind does. -/
theorem release_cases (t : Handles) (b : Broker) (now : Nat) (h : Handle) :
    perform t b now (.release h) = ([], t, b) ∨ DoesOwn t b now (.release h) := by
  cases hc : t.controlSession? h with
  | some session =>
      exact .inr (does_own (.releaseControl (Handles.controlSession?_eq_some_iff.mp hc)) rfl
        (Handles.control_mem_held_iff.mpr hc) rfl (release_of_control hc))
  | none =>
      cases hr : t.requests.get? h with
      | some r =>
          exact .inr (does_own (.releaseRequest hr) rfl (Handles.mem_held_of_request hr) rfl
            (release_of_request hc hr))
      | none =>
          cases hf : t.files.get? h with
          | some f =>
              exact .inr (does_own (.releaseFile hf) rfl (Handles.file_mem_held_iff.mpr hf) rfl
                (release_of_file hc hr hf))
          | none =>
              refine .inl ?_
              rw [perform, Handles.release_of_none hc hr hf, Handles.releaseControl_of_none hc,
                Handles.releaseRequest_of_none hr, Handles.releaseFile_of_none hf]
              rfl

theorem perform_cases (t : Handles) (b : Broker) (now : Nat) (call : TableCall) :
    call.perform t b now = ([], t, b) ∨ call.DoesNew t b now ∨ call.DoesOwn t b now := by
  cases call with
  | insertFile f => exact .inr (.inl (does_new (.insertFile f) rfl rfl))
  | insertDirectory slots =>
      exact .inr (.inl (does_new (.insertDirectory slots) rfl rfl))
  | attachControl =>
      cases ha : b.attach now with
      | error fault => exact .inl (by rw [perform, Handles.attachControl_of_error ha])
      | ok attached =>
          refine .inr (.inl (does_new (.attachControl ha) rfl ?_))
          rw [perform, Handles.attachControl_of_ok ha]
          simp [Handles.controlSession?]
  | readControl channel =>
      cases ht : b.takeHandle channel with
      | error fault => exact .inl (by simp only [perform, ht])
      | ok taken =>
          obtain ⟨_ | r, c⟩ := taken
          · exact .inl (by simp only [perform, ht])
          · have hperform : perform t b now (.readControl channel) = ([], (t.deliver r).2, c) := by
              simp only [perform, ht]
            exact .inr (.inl ⟨rfl, none, hperform.symm ▸ .deliver ht, by simp⟩)
  | openRequest id =>
      cases hr : t.pending.get? id with
      | none => exact .inl (by rw [perform, Handles.openRequest_of_none hr])
      | some r =>
          refine .inr (.inl (does_new (.openRequest hr) rfl ?_))
          simp only [perform, Handles.openRequest_of_some hr, Table.get?_set_self,
            Option.toList_some, List.map_cons, List.map_nil]
  | readRequest h =>
      cases hr : t.requests.get? h with
      | none => exact .inl (by rw [perform, Handles.readRequest_of_none hr])
      | some r =>
          refine .inr (.inr (does_own (.readRequest hr) rfl
            (Handles.mem_held_of_request hr) rfl ?_))
          rw [perform, Handles.readRequest_of_some hr]
  | releaseFile h =>
      cases hf : t.files.get? h with
      | none =>
          refine .inl ?_
          rw [perform, Handles.releaseFile_of_none hf]
          rfl
      | some f =>
          refine .inr (.inr (does_own (.releaseFile hf) rfl
            (Handles.file_mem_held_iff.mpr hf) rfl ?_))
          rw [perform, Handles.releaseFile_of_some hf]
          rfl
  | releaseDirectory h =>
      cases hd : t.directories.get? h with
      | none =>
          refine .inl ?_
          rw [perform, Handles.releaseDirectory_of_none hd]
          rfl
      | some slots =>
          refine .inr (.inr (does_own (.releaseDirectory hd) rfl
            (Handles.directory_mem_held_iff.mpr hd) rfl ?_))
          rw [perform, Handles.releaseDirectory_of_some hd]
          rfl
  | releaseControl h =>
      cases hc : t.controlSession? h with
      | none =>
          refine .inl ?_
          rw [perform, Handles.releaseControl_of_none hc]
          rfl
      | some session =>
          refine .inr (.inr (does_own
            (.releaseControl (Handles.controlSession?_eq_some_iff.mp hc)) rfl
            (Handles.control_mem_held_iff.mpr hc) rfl ?_))
          rw [perform, Handles.releaseControl_of_some hc]
          rfl
  | releaseRequest h =>
      cases hr : t.requests.get? h with
      | none =>
          refine .inl ?_
          rw [perform, Handles.releaseRequest_of_none hr]
          rfl
      | some r =>
          refine .inr (.inr (does_own (.releaseRequest hr) rfl
            (Handles.mem_held_of_request hr) rfl ?_))
          rw [perform, Handles.releaseRequest_of_some hr]
          rfl
  | read m h offset size => exact (read_cases t b now m h offset size).imp_right .inr
  | release h => exact (release_cases t b now h).imp_right .inr

/-! ### One row at a time -/

/-- Whoever is attached at the table is so at the broker. -/
def IsSeated (t : Handles) (b : Broker) : Prop := b.session = none → t.control = none

/-- What a call is not about stays as it is. -/
theorem Step.sameRow (hs : Step t b now x notes u c) (hseat : IsSeated t b) (hx : x ≠ some h) :
    Handles.SameRow t u h := by
  have hsame := Handles.SameRow.refl t h
  have hne {g : Handle} (hg : some g ≠ some h) : h ≠ g := fun heq => hg (heq ▸ rfl)
  cases hs with
  | insertFile f => exact { hsame with file := Table.get?_set_of_ne _ _ (hne hx) }
  | insertDirectory slots =>
      exact { hsame with directory := Table.get?_set_of_ne _ _ (hne hx) }
  | attachControl ha =>
      refine { hsame with control := ?_ }
      rw [Handles.controlSession?_of_control_none (hseat (Broker.free_of_attach ha))]
      exact if_neg (hne hx).symm
  | deliver => exact { hsame with }
  | openRequest => exact { hsame with request := Table.get?_set_of_ne _ _ (hne hx) }
  | readRequest => exact { hsame with request := Table.get?_set_of_ne _ _ (hne hx) }
  | releaseFile => exact { hsame with file := Table.get?_erase_of_ne _ (hne hx) }
  | releaseDirectory => exact { hsame with directory := Table.get?_erase_of_ne _ (hne hx) }
  | releaseControl hc =>
      refine { hsame with control := Eq.symm ?_ }
      rw [Handles.controlSession?, hc]
      exact if_neg (hne hx).symm
  | releaseRequest => exact { hsame with request := Table.get?_erase_of_ne _ (hne hx) }

/-- What a call does to what numbers stand for: nothing, or a new one is given out, or one is
released. -/
inductive Turn (t u : Handles) : List Note → Prop
  | same (hlast : u.last = t.last) (hheld : ∀ h, u.held h = t.held h) : Turn t u []
  | issued (y : Held) (hlast : u.last = t.last + 1)
      (hheld : ∀ h, u.held h = if h = t.last + 1 then [y] else t.held h) :
      Turn t u [.issued (t.last + 1) y]
  | released (g : Handle) (hg : t.held g ≠ []) (hlast : u.last = t.last)
      (hheld : ∀ h, u.held h = if h = g then [] else t.held h) : Turn t u [.released g]

theorem Step.turn (hs : Step t b now x notes u c) (hseat : IsSeated t b) (ht : t.IsSingle)
    (hfresh : t.held (t.last + 1) = []) : Turn t u notes := by
  have hrow (g : Handle) (hg : x ≠ some g) : u.held g = t.held g := (hs.sameRow hseat hg).held
  -- the one row that the call alters, with the others as they were
  have hat {g : Handle} {held : List Held} (hx : x = some g) (hheld : u.held g = held)
      (h : Handle) : u.held h = if h = g then held else t.held h := by
    split
    · next heq => rw [heq, hheld]
    · next hne => exact hrow h fun heq => hne (Option.some.inj (heq.symm.trans hx))
  obtain ⟨hc, hr, hf, hd⟩ := Handles.held_eq_nil_iff.mp hfresh
  cases hs with
  | insertFile f =>
      refine .issued _ rfl (hat rfl ?_)
      exact Handles.held_file hc hr (Table.get?_set_self _ _ _) hd
  | insertDirectory slots =>
      refine .issued _ rfl (hat rfl ?_)
      exact Handles.held_directory hc hr hf (Table.get?_set_self _ _ _)
  | attachControl =>
      refine .issued _ rfl (hat rfl ?_)
      exact Handles.held_control (if_pos rfl) hr hf hd
  | deliver => exact .same rfl fun h => hrow h nofun
  | openRequest =>
      refine .issued _ rfl (hat rfl ?_)
      exact Handles.held_request hc (Table.get?_set_self _ _ _) hf hd
  | @readRequest g r hr =>
      refine .same rfl fun h => ?_
      by_cases hg : h = g
      · subst hg
        obtain ⟨hc, hf, hd⟩ := ht.of_request hr
        rw [Handles.held_request hc hr hf hd, ← r.request_read, ← r.path_read]
        exact Handles.held_request hc (Table.get?_set_self _ _ _) hf hd
      · exact hrow h fun heq => hg (Option.some.inj heq).symm
  | @releaseFile g f hf =>
      obtain ⟨hc, hr, hd⟩ := ht.of_file hf
      refine .released g ?_ rfl (hat rfl ?_)
      · exact List.ne_nil_of_mem (Handles.file_mem_held_iff.mpr hf)
      · exact Handles.held_eq_nil_iff.mpr ⟨hc, hr, Table.get?_erase_self _ _, hd⟩
  | @releaseDirectory g slots hd =>
      obtain ⟨hc, hr, hf⟩ := ht.of_directory hd
      refine .released g ?_ rfl (hat rfl ?_)
      · exact List.ne_nil_of_mem (Handles.directory_mem_held_iff.mpr hd)
      · exact Handles.held_eq_nil_iff.mpr ⟨hc, hr, hf, Table.get?_erase_self _ _⟩
  | @releaseControl file hfile =>
      have hc := Handles.controlSession?_eq_some_iff.mpr hfile
      obtain ⟨hr, hf, hd⟩ := ht.of_control hc
      refine .released file.handle ?_ rfl (hat rfl ?_)
      · exact List.ne_nil_of_mem (Handles.control_mem_held_iff.mpr hc)
      · exact Handles.held_eq_nil_iff.mpr ⟨rfl, hr, hf, hd⟩
  | @releaseRequest g r hr =>
      obtain ⟨hc, hf, hd⟩ := ht.of_request hr
      refine .released g ?_ rfl (hat rfl ?_)
      · exact List.ne_nil_of_mem (Handles.mem_held_of_request hr)
      · exact Handles.held_eq_nil_iff.mpr ⟨hc, Table.get?_erase_self _ _, hf, hd⟩

/-! ### The books -/

def Note.number? : Note → Option Handle
  | issued h _ => some h
  | released _ => none

/-- The numbers that were given out, latest first. -/
def numbers (past : List Note) : List Handle := past.filterMap Note.number?

theorem mem_numbers_iff : h ∈ numbers past ↔ ∃ y, .issued h y ∈ past := by
  rw [numbers, List.mem_filterMap]
  constructor
  · rintro ⟨_ | _, hn, ⟨⟩⟩
    exact ⟨_, hn⟩
  · rintro ⟨y, hy⟩
    exact ⟨_, hy, rfl⟩

/-- The number was given out for this, and not released yet. -/
def IsLive (past : List Note) (h : Handle) (y : Held) : Prop :=
  .issued h y ∈ past ∧ .released h ∉ past

/-- The table is as the notes have it: every number was given out once, one after the other, and
stands for what it was given out for until it is released. -/
structure Books (past : List Note) (t : Handles) : Prop where
  issued : numbers past = (List.range' 1 t.last).reverse
  single : t.IsSingle
  live (h : Handle) (y : Held) : y ∈ t.held h ↔ IsLive past h y
  released {h : Handle} (hh : .released h ∈ past) : h ∈ numbers past

namespace Books

theorem start : Books [] {} := ⟨rfl, fun _ => Nat.zero_le 1, fun _ _ => by simp [Handles.held,
  Handles.controlSession?, IsLive], nofun⟩

theorem nodup_numbers (hb : Books past t) : (numbers past).Nodup := by
  rw [hb.issued, List.nodup_reverse]
  exact List.nodup_range'

theorem mem_numbers (hb : Books past t) : h ∈ numbers past ↔ 1 ≤ h ∧ h ≤ t.last := by
  rw [hb.issued, List.mem_reverse, List.mem_range'_1, Nat.add_comm, Nat.lt_succ_iff]

theorem fresh_notMem (hb : Books past t) : t.last + 1 ∉ numbers past := fun hmem =>
  Nat.not_succ_le_self _ (hb.mem_numbers.mp hmem).2

theorem held_fresh (hb : Books past t) : t.held (t.last + 1) = [] :=
  List.eq_nil_iff_forall_not_mem.mpr fun y hy =>
    hb.fresh_notMem (mem_numbers_iff.mpr ⟨y, ((hb.live _ y).mp hy).1⟩)

theorem same (hb : Books past t) (hlast : u.last = t.last) (hheld : ∀ h, u.held h = t.held h) :
    Books past u where
  issued := by rw [hlast, hb.issued]
  single h := by rw [hheld]; exact hb.single h
  live h y := by rw [hheld]; exact hb.live h y
  released := hb.released

theorem issue (hb : Books past t) (z : Held) (hlast : u.last = t.last + 1)
    (hheld : ∀ h, u.held h = if h = t.last + 1 then [z] else t.held h) :
    Books (.issued (t.last + 1) z :: past) u where
  issued := by
    rw [hlast, List.range'_concat, List.reverse_append, ← hb.issued, Nat.one_mul, Nat.add_comm 1]
    rfl
  single h := by
    rw [hheld]
    split
    · exact Nat.le_refl 1
    · exact hb.single h
  live h y := by
    rw [hheld]
    split
    · next heq =>
        have hissued : .issued h y ∉ past := fun hy =>
          hb.fresh_notMem (heq ▸ mem_numbers_iff.mpr ⟨y, hy⟩)
        have hreleased : .released h ∉ past := fun hh => hb.fresh_notMem (heq ▸ hb.released hh)
        simp [heq ▸ hissued, heq ▸ hreleased, heq, IsLive]
    · next hne => simp [hb.live, hne, IsLive]
  released hh := by
    rcases List.mem_cons.mp hh with heq | hold
    · cases heq
    · exact List.mem_cons_of_mem _ (hb.released hold)

theorem release (hb : Books past t) {g : Handle} (hg : t.held g ≠ []) (hlast : u.last = t.last)
    (hheld : ∀ h, u.held h = if h = g then [] else t.held h) :
    Books (.released g :: past) u where
  issued := by rw [hlast, ← hb.issued]; rfl
  single h := by
    rw [hheld]
    split
    · exact Nat.zero_le 1
    · exact hb.single h
  live h y := by
    rw [hheld]
    split
    · next heq => simp [heq, IsLive]
    · next hne => simp [hb.live, hne, IsLive]
  released hh := by
    rcases List.mem_cons.mp hh with heq | hold
    · cases heq
      obtain ⟨y, hy⟩ := List.exists_mem_of_ne_nil _ hg
      exact mem_numbers_iff.mpr ⟨y, List.mem_cons_of_mem _ ((hb.live _ y).mp hy).1⟩
    · exact hb.released hold

theorem turn (hb : Books past t) (hs : Turn t u notes) : Books (notes ++ past) u := by
  cases hs with
  | same hlast hheld => exact hb.same hlast hheld
  | issued y hlast hheld => exact hb.issue y hlast hheld
  | released g hg hlast hheld => exact hb.release hg hlast hheld

/-- A call keeps the books in order. -/
theorem step (hb : Books past t) (hs : Step t b now x notes u c) (hseat : IsSeated t b) :
    Books (notes ++ past) u :=
  hb.turn (hs.turn hseat hb.single hb.held_fresh)

theorem held_eq_iff (hb : Books past t) {y : Held} : t.held h = [y] ↔ IsLive past h y := by
  rw [← hb.live]
  exact ⟨fun heq => by rw [heq]; exact List.mem_singleton_self y, hb.single.held_eq⟩

theorem held_eq_nil (hb : Books past t) (hh : ∀ y, ¬ IsLive past h y) : t.held h = [] :=
  List.eq_nil_iff_forall_not_mem.mpr fun y hy => hh y ((hb.live h y).mp hy)

end Books
end TableCall
end OnDemandFs
