import OnDemandFs.Proofs.Kernel.Rows
import OnDemandFs.Proofs.Mapping.Usage
import OnDemandFs.Proofs.Reading.Positional
import OnDemandFs.Proofs.Session.Replies
import OnDemandFs.Proofs.Session.Touched

/-!
# Reading through the handles of the kernel

One call reads opened files, requests and the control file. A file is read at an offset and up to a
size. A request has its path and a NUL to give, at the first read, and the control file the number
of a request; neither looks at the size, so their replies may be longer than the kernel asked for:
`Overlong`. What is read in one go, each read where the last reply ended, is the content of the file
or of the request.
-/
namespace OnDemandFs

/-- What a request is read as: its path and a NUL. -/
def RequestHandle.content (r : RequestHandle) : Bytes := Utf8.encode r.path.text ++ [0]

theorem RequestHandle.read_eq (r : RequestHandle) :
    r.read = if r.sent then ([], r) else (r.content, { r with sent := true }) := rfl

/-- The step leaves this row of the table alone. -/
def Step.spares (row : Touched) (st : Step) : Prop := ¬ st.touches row ∧ ¬ st.touches .all

namespace Session
variable {s t : Session} {h : Handle} {offset : Int} {size : Nat} {bytes : Bytes}
  {replies : List Bytes}

/-! ### What a read is told -/

/-- The kernel is given bytes for a read, at once or when the channel that it waits for has a
request or is gone. -/
inductive Told (s : Session) (h : Handle) (offset : Int) (size : Nat) : Bytes → Prop
  | atOnce {bytes : Bytes} (hanswer : s.Answers (.read h offset size) (.data bytes)) :
      Told s h offset size bytes
  | later {k : KernelSide} {channel : SessionId} {t u : Session} {bytes : Bytes}
      (hk : s.kernel = some k)
      (hplan : (k.plan s.table s.mount s.now (.read h offset size)).1 = .need (.request channel))
      (hread : t.readChannel channel .kernel = some (.kernel (.data bytes), u)) :
      Told s h offset size bytes

/-- A reply that is longer than what was asked for: of a request that was not read yet, or of the
control file. -/
inductive Overlong (s : Session) (h : Handle) (size : Nat) (bytes : Bytes) : Prop
  | request {r : RequestHandle} (hr : s.table.requests.get? h = some r) (hsent : r.sent = false)
      (hbytes : bytes = r.content) (hsize : size < bytes.length)
  | control {channel : SessionId} {id : RequestId} (hc : s.table.controlSession? h = some channel)
      (hbytes : bytes = Handles.announcement id) (hsize : size < bytes.length)

theorem plan_read (k : KernelSide) (tbl : Handles) (m : Mount) (now : Nat) (h : Handle)
    (offset : Int) (size : Nat) : k.plan tbl m now (.read h offset size) =
      if k.destroyed then (.answer (.failed Errno.io), k, tbl, m)
      else ((KernelSide.read tbl m h offset size).1, k,
        (KernelSide.read tbl m h offset size).2, m) := by
  unfold KernelSide.plan
  split <;> rfl

theorem read_control {tbl : Handles} {m : Mount} {channel : SessionId}
    (hc : tbl.controlSession? h = some channel) :
    KernelSide.read tbl m h offset size = (.need (.request channel), tbl) := by
  rw [KernelSide.read, hc]

theorem read_request {tbl : Handles} {m : Mount} {r : RequestHandle}
    (hc : tbl.controlSession? h = none) (hr : tbl.requests.get? h = some r) :
    KernelSide.read tbl m h offset size =
      (.answer (.data r.read.1), { tbl with requests := tbl.requests.set h r.read.2 }) := by
  rw [KernelSide.read, hc]
  dsimp only
  rw [Handles.readRequest_of_some hr]

theorem read_none {tbl : Handles} {m : Mount} (hc : tbl.controlSession? h = none)
    (hr : tbl.requests.get? h = none) (hf : tbl.files.get? h = none) :
    KernelSide.read tbl m h offset size = (.answer (.failed Errno.badHandle), tbl) := by
  rw [KernelSide.read, hc]
  simp only [Handles.readRequest_of_none hr, Handles.file?, hf]

/-- A file is read, if the offsets are those that the system has. -/
theorem read_file {tbl : Handles} {m : Mount} {f : Opened} (hc : tbl.controlSession? h = none)
    (hr : tbl.requests.get? h = none) (hf : tbl.files.get? h = some f) :
    KernelSide.read tbl m h offset size =
      (.answer (if 0 ≤ offset ∧ (size = 0 ∨ offset + size < Numeral.signedLimit)
        then .data (((m.disk.content f.file).drop offset.toNat).take size)
        else .failed Errno.invalid), tbl) := by
  rw [KernelSide.read, hc]
  simp only [Handles.readRequest_of_none hr, Handles.file?, hf]
  by_cases hnegative : offset < 0
  · rw [if_pos hnegative, if_neg (by omega)]
  · rw [if_neg hnegative]
    obtain ⟨n, rfl⟩ := Int.eq_ofNat_of_zero_le (Int.not_lt.mp hnegative)
    have hlimit : (0 : Int) ≤ n ∧ (size = 0 ∨ (n : Int) + size < Numeral.signedLimit) ↔
        size = 0 ∨ n + size < Numeral.signedLimit := by
      omega
    simp only [Mount.read, Mount.readAt, Int.toNat_natCast, Reading.readFully_ofContent, hlimit]
    by_cases hread : size = 0 ∨ n + size < Numeral.signedLimit
    · rw [if_pos hread, if_pos hread]
    · rw [if_neg hread, if_neg hread]
      rfl

/-- What a read is answered at once, by what the handle stands for. -/
theorem answers_read_iff {reply : KernelReply} : s.Answers (.read h offset size) reply ↔
    ∃ k, s.kernel = some k ∧ if k.destroyed then reply = .failed Errno.io
      else (KernelSide.read s.table s.mount h offset size).1 = .answer reply := by
  unfold Answers
  refine exists_congr fun k => and_congr_right fun _ => ?_
  rw [plan_read]
  split
  · rw [KernelPlan.answer.injEq, eq_comm]
  · rfl

/-- What the kernel is told under each kind of handle. -/
theorem told_cases (ht : Told s h offset size bytes) :
    (∃ f, s.table.controlSession? h = none ∧ s.table.requests.get? h = none ∧
      s.table.files.get? h = some f ∧ 0 ≤ offset ∧
      bytes = ((s.mount.disk.content f.file).drop offset.toNat).take size) ∨
    (∃ r, s.table.controlSession? h = none ∧ s.table.requests.get? h = some r ∧
      bytes = r.read.1) ∨
    (∃ channel, s.table.controlSession? h = some channel ∧
      (bytes = [] ∨ ∃ id, bytes = Handles.announcement id)) := by
  cases hc : s.table.controlSession? h with
  | some channel =>
      refine .inr (.inr ⟨channel, rfl, ?_⟩)
      cases ht with
      | atOnce hanswer =>
          obtain ⟨k, -, hplan⟩ := answers_read_iff.mp hanswer
          rw [read_control hc] at hplan
          split at hplan <;> cases hplan
      | later _ _ hread =>
          unfold readChannel at hread
          split at hread
          · cases hread
            exact .inl rfl
          · cases hread
            exact .inr ⟨_, rfl⟩
          · cases hread
  | none =>
      -- without the control file no read waits for a channel
      have hanswer {reply : KernelReply}
          (hread : (KernelSide.read s.table s.mount h offset size).1 = .answer reply) :
          .data bytes = reply := by
        cases ht with
        | atOnce hanswer =>
            obtain ⟨k, -, hplan⟩ := answers_read_iff.mp hanswer
            split at hplan
            · cases hplan
            · rw [hread] at hplan
              cases hplan
              rfl
        | @later k channel _ _ _ _ hplan _ =>
            rw [plan_read] at hplan
            split at hplan
            · cases hplan
            · rw [hread] at hplan
              cases hplan
      cases hr : s.table.requests.get? h with
      | some r =>
          have hbytes := hanswer (congrArg Prod.fst (read_request hc hr))
          cases hbytes
          exact .inr (.inl ⟨r, rfl, rfl, rfl⟩)
      | none =>
          cases hf : s.table.files.get? h with
          | some f =>
              have hbytes := hanswer (congrArg Prod.fst (read_file hc hr hf))
              split at hbytes
              · next hoffset =>
                  cases hbytes
                  exact .inl ⟨f, rfl, rfl, rfl, hoffset.1, rfl⟩
              · cases hbytes
          | none =>
              have hbytes := hanswer (congrArg Prod.fst (read_none hc hr hf))
              cases hbytes

/-- There are no other replies that are longer than what was asked for. -/
theorem overlong_iff (ht : Told s h offset size bytes) :
    size < bytes.length ↔ Overlong s h size bytes := by
  constructor
  · intro hlong
    rcases told_cases ht with
      ⟨f, -, -, -, -, rfl⟩ | ⟨r, -, hr, rfl⟩ | ⟨channel, hc, rfl | ⟨id, rfl⟩⟩
    · exact absurd hlong (Nat.not_lt.mpr (List.length_take_le _ _))
    · rw [r.read_eq] at hlong ⊢
      cases hsent : r.sent with
      | true =>
          rw [hsent] at hlong
          cases hlong
      | false =>
          rw [hsent] at hlong
          exact .request hr hsent rfl hlong
    · cases hlong
    · exact .control hc rfl hlong
  · rintro (⟨-, -, -, hlong⟩ | ⟨-, -, hlong⟩) <;> exact hlong

/-! ### Reading on -/

/-- The kernel reads on under a handle: each time where the last reply ended, at least a byte and as
many as it likes. Between the reads any step may be taken that `spares` allows, and each read finds
the session as `stays` says. -/
inductive ReadsOn (h : Handle) (spares : Step → Prop) (stays : Session → Prop) (s : Session) :
    List Bytes → Session → Prop
  | start : ReadsOn h spares stays s [] s
  | settle {replies : List Bytes} {t : Session} (hp : ReadsOn h spares stays s replies t) :
      ReadsOn h spares stays s replies t.settle
  | meanwhile {replies : List Bytes} {t : Session} (hp : ReadsOn h spares stays s replies t)
      (label : String) {st : Step} (hst : spares st) :
      ReadsOn h spares stays s replies (t.step label st).2
  | read {replies : List Bytes} {t : Session} (hp : ReadsOn h spares stays s replies t)
      (hstays : stays t) (label : String) {size : Nat} (hsize : 1 ≤ size) {bytes : Bytes}
      (hanswer : t.Answers (.read h replies.flatten.length size) (.data bytes)) :
      ReadsOn h spares stays s (replies ++ [bytes])
        (t.step label (.kernel (.read h replies.flatten.length size))).2

/-- What was read on is from the start of the content, and nothing comes just if it is all of it. -/
structure Whole (h : Handle) (content : Bytes) (replies : List Bytes) (t : Session) : Prop where
  got : replies.flatten <+: content
  ends : ∀ size bytes, 1 ≤ size →
    t.Answers (.read h replies.flatten.length size) (.data bytes) →
      (bytes = [] ↔ replies.flatten = content)
  /-- So there is at most one reply with something in it for each byte. -/
  bounded : (∀ bytes ∈ replies, bytes ≠ []) → replies.length ≤ content.length

/-- The handle stands for a file. -/
structure HasFile (t : Session) (h : Handle) (f : Opened) : Prop where
  used : h ≤ t.table.last
  row : t.table.files.get? h = some f
  unrequested : t.table.requests.get? h = none
  control : t.table.controlSession? h = none

theorem HasFile.through {allowed : Touched → Prop} {u : Session} {f : Opened} (hf : t.HasFile h f)
    (hu : Handles.Through allowed t.table u.table) (hall : ¬ allowed .all)
    (hh : ¬ allowed (.file h)) : u.HasFile h f := by
  have hkept := hu.kept hall
  exact ⟨Nat.le_trans hf.used hkept.last, (hkept.files h hf.used hh).trans hf.row,
    hkept.unrequested h hf.used hf.unrequested, hkept.control h hf.used hf.control⟩

theorem hasFile_of_lived (hs : s.Lived) {f : Opened} (hf : s.table.files.get? h = some f) :
    s.HasFile h f := by
  obtain ⟨hused, hr, hc⟩ := hs.proper.files h f hf
  exact ⟨hused, hf, hr, hc⟩

theorem answers_file_iff {f : Opened} (hf : t.HasFile h f) {n : Nat} :
    t.Answers (.read h n size) (.data bytes) ↔
      (∃ k, t.kernel = some k ∧ k.destroyed = false) ∧
        (size = 0 ∨ n + size < Numeral.signedLimit) ∧
          bytes = ((t.mount.disk.content f.file).drop n).take size := by
  have hlimit : (0 : Int) ≤ n ∧ (size = 0 ∨ (n : Int) + size < Numeral.signedLimit) ↔
      size = 0 ∨ n + size < Numeral.signedLimit := by
    omega
  rw [answers_read_iff, read_file hf.control hf.unrequested hf.row]
  simp only [hlimit, Int.toNat_natCast, KernelPlan.answer.injEq]
  constructor
  · rintro ⟨k, hk, hplan⟩
    split at hplan
    · cases hplan
    · next hlive =>
        split at hplan
        · next hoffset =>
            cases hplan
            exact ⟨⟨k, hk, Bool.eq_false_of_not_eq_true hlive⟩, hoffset, rfl⟩
        · cases hplan
  · rintro ⟨⟨k, hk, hlive⟩, hoffset, rfl⟩
    exact ⟨k, hk, by simp [hlive, hoffset]⟩

theorem answers_request_iff {r : RequestHandle} (hc : t.table.controlSession? h = none)
    (hr : t.table.requests.get? h = some r) :
    t.Answers (.read h offset size) (.data bytes) ↔
      (∃ k, t.kernel = some k ∧ k.destroyed = false) ∧ bytes = r.read.1 := by
  rw [answers_read_iff, read_request hc hr]
  simp only [KernelPlan.answer.injEq, KernelReply.data.injEq]
  constructor
  · rintro ⟨k, hk, hplan⟩
    split at hplan
    · cases hplan
    · next hlive => exact ⟨⟨k, hk, Bool.eq_false_of_not_eq_true hlive⟩, hplan.symm⟩
  · rintro ⟨⟨k, hk, hlive⟩, rfl⟩
    exact ⟨k, hk, by simp [hlive]⟩

/-! ### Files -/

/-- The bytes that come after a prefix of the content. -/
theorem prefix_append_take {content got : Bytes} (hgot : got <+: content) (size : Nat) :
    got ++ (content.drop got.length).take size <+: content := by
  obtain ⟨rest, rfl⟩ := hgot
  rw [List.drop_left]
  exact (List.prefix_append_right_inj got).mpr (List.take_prefix _ _)

theorem hasFile_of_readsOn {f : Opened} {stays : Session → Prop} (hf : s.HasFile h f)
    (hp : ReadsOn h (Step.spares (.file h)) stays s replies t) : t.HasFile h f := by
  induction hp with
  | start => exact hf
  | settle _ ih => exact ih.through (untouched_settle _) id id
  | meanwhile _ label hst ih => exact ih.through (through_step _ label _) hst.2 hst.1
  | read _ _ label _ _ ih =>
      exact ih.through (through_step _ label _) (by simp [Step.touches, KernelCall.touches])
        (by simp [Step.touches, KernelCall.touches])

/-- What is read of a file, which has the same content at each read, is that content. -/
theorem whole_of_file {f : Opened} (hf : s.HasFile h f) {body : Bytes}
    (hp : ReadsOn h (Step.spares (.file h)) (fun t => t.mount.disk.content f.file = body) s
      replies t)
    (hstays : t.mount.disk.content f.file = body) : Whole h body replies t := by
  have hgot : replies.flatten <+: body := by
    clear hstays
    induction hp with
    | start => exact List.nil_prefix
    | settle _ ih => exact ih
    | meanwhile _ _ _ ih => exact ih
    | read hp hstays _ _ hanswer ih =>
        obtain ⟨-, -, rfl⟩ := (answers_file_iff (hasFile_of_readsOn hf hp)).mp hanswer
        rw [List.flatten_append, List.flatten_singleton, hstays]
        exact prefix_append_take ih _
  refine ⟨hgot, fun size bytes hsize hanswer => ?_, length_le_of_flatten hgot⟩
  obtain ⟨-, -, rfl⟩ := (answers_file_iff (hasFile_of_readsOn hf hp)).mp hanswer
  have hnonzero : size ≠ 0 := by omega
  rw [hstays, List.take_eq_nil_iff, or_iff_right hnonzero, List.drop_eq_nil_iff]
  constructor
  · exact hgot.eq_of_length_le
  · intro hall
    rw [hall]

/-! ### Requests -/

/-- The handle stands for a request, of which nothing was read or everything. -/
structure HasRequest (t : Session) (h : Handle) (content : Bytes) (replies : List Bytes) :
    Prop where
  used : h ≤ t.table.last
  control : t.table.controlSession? h = none
  row : ∃ r, t.table.requests.get? h = some r ∧ r.content = content ∧
    (r.sent = false ∧ replies.flatten = [] ∨ r.sent = true ∧ replies.flatten = content)

theorem HasRequest.through {allowed : Touched → Prop} {u : Session} {content : Bytes}
    (hr : t.HasRequest h content replies) (hu : Handles.Through allowed t.table u.table)
    (hall : ¬ allowed .all) (hh : ¬ allowed (.request h)) : u.HasRequest h content replies := by
  have hkept := hu.kept hall
  refine ⟨Nat.le_trans hr.used hkept.last, hkept.control h hr.used hr.control, ?_⟩
  rw [hkept.requests h hr.used hh]
  exact hr.row

/-- The first read takes everything, and the others nothing. -/
theorem HasRequest.read {content : Bytes} (hr : t.HasRequest h content replies)
    (hanswer : t.Answers (.read h offset size) (.data bytes)) (label : String) :
    (t.step label (.kernel (.read h offset size))).2.HasRequest h content (replies ++ [bytes]) := by
  obtain ⟨hused, hc, r, hrow, rfl, hsent⟩ := hr
  obtain ⟨⟨k, hk, hlive⟩, rfl⟩ := (answers_request_iff hc hrow).mp hanswer
  have hplan : k.plan t.table t.mount t.now (.read h offset size) = (.answer (.data r.read.1), k,
      { t.table with requests := t.table.requests.set h r.read.2 }, t.mount) := by
    rw [plan_read, read_request hc hrow, if_neg (by simp [hlive])]
  have hcall : (t.kernelCall label (.read h offset size)).table =
      { t.table with requests := t.table.requests.set h r.read.2 } := by
    rw [kernelCall_of_plan hk (by rw [hplan]), hplan]
  have hread : (t.kernelCall label (.read h offset size)).HasRequest h r.content
      (replies ++ [r.read.1]) := by
    refine ⟨?_, ?_, r.read.2, ?_, ?_, ?_⟩
    · rw [hcall]
      exact hused
    · rw [hcall]
      exact hc
    · rw [hcall]
      exact Table.get?_set_self _ _ _
    · rw [r.read_eq]
      split <;> rfl
    · rw [r.read_eq, List.flatten_append, List.flatten_singleton]
      rcases hsent with ⟨hno, hnone⟩ | ⟨hyes, hall⟩
      · simp [hno, hnone]
      · simp [hyes, hall]
  exact hread.through (untouched_settle _) id id

theorem hasRequest_of_readsOn {content : Bytes} {stays : Session → Prop}
    (hr : s.HasRequest h content [])
    (hp : ReadsOn h (Step.spares (.request h)) stays s replies t) :
    t.HasRequest h content replies := by
  induction hp with
  | start => exact hr
  | settle _ ih => exact ih.through (untouched_settle _) id id
  | meanwhile _ label hst ih => exact ih.through (through_step _ label _) hst.2 hst.1
  | read _ _ label _ hanswer ih => exact ih.read hanswer label

/-- What is read of a request that was not read yet is its path and a NUL. -/
theorem whole_of_request {r : RequestHandle} (hs : s.Lived)
    (hr : s.table.requests.get? h = some r) (hsent : r.sent = false)
    (hp : ReadsOn h (Step.spares (.request h)) (fun _ => True) s replies t) :
    Whole h r.content replies t := by
  obtain ⟨hused, hc⟩ := hs.proper.requests h r hr
  obtain ⟨-, hc', r', hrow, hcontent, hread⟩ :=
    hasRequest_of_readsOn ⟨hused, hc, r, hr, rfl, .inl ⟨hsent, rfl⟩⟩ hp
  have hne : r.content ≠ [] := List.append_ne_nil_of_right_ne_nil _ (List.cons_ne_nil _ _)
  have hgot : replies.flatten <+: r.content := by
    rcases hread with ⟨-, hnone⟩ | ⟨-, hall⟩
    · rw [hnone]
      exact List.nil_prefix
    · rw [hall]
  refine ⟨hgot, fun size bytes _ hanswer => ?_, length_le_of_flatten hgot⟩
  obtain ⟨-, rfl⟩ := (answers_request_iff hc' hrow).mp hanswer
  rw [r'.read_eq]
  rcases hread with ⟨hno, hnone⟩ | ⟨hyes, hall⟩
  · simp [hno, hnone, hcontent, hne, hne.symm]
  · simp [hyes, hall]

/-! ### The contract -/

/-- What the kernel may rely on when it reads. -/
structure ReadContract (s : Session) : Prop where
  /-- A reply is no longer than what was asked for, but for a request that was not read yet and for
  the control file. -/
  size : ∀ h offset size bytes, Told s h offset size bytes →
    (size < bytes.length ↔ Overlong s h size bytes)
  /-- A file is read as far as the system has offsets. -/
  answered : ∀ h f k offset size, s.table.files.get? h = some f → s.kernel = some k →
    k.destroyed = false → offset + size < Numeral.signedLimit →
      s.Answers (.read h offset size)
        (.data (((s.mount.disk.content f.file).drop offset).take size))
  file : ∀ h f, s.table.files.get? h = some f → ∀ body replies t,
    ReadsOn h (Step.spares (.file h)) (fun t => t.mount.disk.content f.file = body) s replies t →
      t.mount.disk.content f.file = body → Whole h body replies t
  request : ∀ h r, s.table.requests.get? h = some r → r.sent = false → ∀ replies t,
    ReadsOn h (Step.spares (.request h)) (fun _ => True) s replies t → Whole h r.content replies t

theorem readContract_of_lived (hs : s.Lived) : ReadContract s where
  size _ _ _ _ := overlong_iff
  answered _ _ k _ _ hf hk hlive hlimit :=
    (answers_file_iff (hasFile_of_lived hs hf)).mpr ⟨⟨k, hk, hlive⟩, .inr hlimit, rfl⟩
  file _ _ hf _ _ _ hp := whole_of_file (hasFile_of_lived hs hf) hp
  request _ _ hr hsent _ _ hp := whole_of_request hs hr hsent hp

/-- One call of the kernel after the other. -/
def calls (s : Session) (cs : List KernelCall) : Session :=
  cs.foldl (fun s c => (s.step "call" (.kernel c)).2) s

theorem Lived.calls (hs : s.Lived) (cs : List KernelCall) : (s.calls cs).Lived := by
  induction cs generalizing s with
  | nil => exact hs
  | cons c rest ih => exact ih (hs.step "call" (.kernel c))

/-- A helper has read from the control file that there is a request for the root, and opened it; and
somebody has opened a file. -/
def clerk : Session :=
  { now := 0, mount := Usage.drawer.mount, origin := [], kernel := some {} : Session }.calls
    [.lookup rootId (Utf8.encode ".lazyfs-helper"), .openFile 2 0, .read 1 0 2,
      .openFile (requestInode 1) 0, .lookup rootId (Utf8.encode "hello"), .openFile 3 0]

theorem lived_clerk : clerk.Lived := (Lived.start rfl).calls _

/-- The request is read with room for one byte. -/
theorem told_clerk : Told clerk 2 0 1 [47, 0] := by
  have hk : clerk.kernel = some {} := by decide +kernel
  have hc : clerk.table.controlSession? 2 = none := by decide +kernel
  have hr : clerk.table.requests.get? 2 = some ⟨1, .root, false⟩ := by decide +kernel
  exact .atOnce ((answers_request_iff hc hr).mpr ⟨⟨{}, hk, rfl⟩, by decide⟩)

/-- The file is read with room for two bytes each time,
while the helper is done with its request. -/
def clerkFirst : Session := (clerk.step "1" (.kernel (.read 3 0 2))).2

def clerkReleased : Session := (clerkFirst.step "release" (.kernel (.release 2))).2

def clerkSecond : Session := (clerkReleased.step "2" (.kernel (.read 3 2 2))).2

def clerkLast : Session := (clerkSecond.step "3" (.kernel (.read 3 3 2))).2

def clerkFile : Opened := ⟨⟨3, .ofText "/hello", .file, ⟨3, 7⟩, false⟩, 2⟩

theorem hasFile_clerk : clerk.table.files.get? 3 = some clerkFile := by
  decide +kernel

/-- A kernel that is there gets the next bytes of a file. -/
theorem ReadsOn.file {f : Opened} {body : Bytes} (hf : s.HasFile h f)
    (hp : ReadsOn h (Step.spares (.file h)) (fun t => t.mount.disk.content f.file = body) s
      replies t)
    (hstays : t.mount.disk.content f.file = body) (hk : t.kernel = some {}) (label : String)
    (n size : Nat) (hn : replies.flatten.length = n) (hsize : 1 ≤ size)
    (hlimit : n + size < Numeral.signedLimit) (hbytes : (body.drop n).take size = bytes) :
    ReadsOn h (Step.spares (.file h)) (fun t => t.mount.disk.content f.file = body) s
      (replies ++ [bytes]) (t.step label (.kernel (.read h n size))).2 := by
  subst hn hbytes
  refine hp.read hstays label hsize ?_
  exact (answers_file_iff (hasFile_of_readsOn hf hp)).mpr
    ⟨⟨{}, hk, rfl⟩, .inr hlimit, by rw [hstays]⟩

theorem readsOn_clerk : ReadsOn 3 (Step.spares (.file 3))
    (fun t => t.mount.disk.content clerkFile.file = [1, 2, 3]) clerk [[1, 2], [3], []]
    clerkLast := by
  have hf := hasFile_of_lived lived_clerk hasFile_clerk
  have hp : ReadsOn 3 (Step.spares (.file 3))
      (fun t => t.mount.disk.content clerkFile.file = [1, 2, 3]) clerk [[1, 2]] clerkFirst :=
    ReadsOn.start.file hf (by decide +kernel) (by decide +kernel) "1" 0 2 rfl (by decide)
      (by decide +kernel) (by decide)
  have hp : ReadsOn 3 (Step.spares (.file 3))
      (fun t => t.mount.disk.content clerkFile.file = [1, 2, 3]) clerk [[1, 2]] clerkReleased :=
    hp.meanwhile "release" ⟨by simp [Step.touches, KernelCall.touches],
      by simp [Step.touches, KernelCall.touches]⟩
  have hp : ReadsOn 3 (Step.spares (.file 3))
      (fun t => t.mount.disk.content clerkFile.file = [1, 2, 3]) clerk [[1, 2], [3]] clerkSecond :=
    hp.file hf (by decide +kernel) (by decide +kernel) "2" 2 2 rfl (by decide) (by decide +kernel)
      (by decide)
  exact hp.file hf (by decide +kernel) (by decide +kernel) "3" 3 2 rfl (by decide)
    (by decide +kernel) (by decide)

/-- The kernel gets the file as it is, and two bytes of the request where it asked for one. -/
theorem readContract_of_lived_clerk : clerk.Lived ∧ ReadContract clerk ∧
    Overlong clerk 2 1 [47, 0] ∧ Whole 3 [1, 2, 3] [[1, 2], [3], []] clerkLast := by
  have hcontract := readContract_of_lived lived_clerk
  exact ⟨lived_clerk, hcontract, (hcontract.size 2 0 1 _ told_clerk).mp (by decide),
    hcontract.file 3 clerkFile hasFile_clerk _ _ _ readsOn_clerk (by decide +kernel)⟩

/-- Not every reply is as short as the kernel asked for. -/
theorem not_told_within_size : ¬ ∀ (s : Session) (h : Handle) (offset : Int) (size : Nat)
    (bytes : Bytes), s.Lived → 0 ≤ offset → Told s h offset size bytes → bytes.length ≤ size := by
  intro hwithin
  have hshort := hwithin clerk 2 0 1 [47, 0] lived_clerk (by decide) told_clerk
  exact absurd hshort (by decide)

end Session
end OnDemandFs
