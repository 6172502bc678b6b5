import OnDemandFs.Kernel.Calls
import OnDemandFs.Proofs.Broker.Closing
import OnDemandFs.Proofs.Table.Keys

/-!
# Calls of the table, by what they find

A call of the table of handles either does not find what it looks for, and then nothing happens, or
its effect is plain: a row more, a row less, and what the broker does about it. Both are said here
once for each call, and for what the kernel does with a number through these calls: opening,
reading, releasing. What is proved of a table elsewhere goes by these equations, and does not look
into the calls.
-/
namespace OnDemandFs
namespace Handles

variable {t u : Handles} {b c : Broker} {now : Nat} {h : Handle} {id : RequestId}
  {session : SessionId} {r : RequestHandle}

/-! ### The control file -/

theorem controlSession?_eq_some_iff :
    t.controlSession? h = some session ↔ t.control = some ⟨h, session⟩ := by
  unfold controlSession?
  cases hc : t.control with
  | none => simp
  | some file =>
      obtain ⟨h', session'⟩ := file
      simp

theorem controlSession?_of_control_none (hc : t.control = none) (h : Handle) :
    t.controlSession? h = none := by
  rw [controlSession?, hc]

theorem attachControl_of_error {fault : Fault} (ha : b.attach now = .error fault) :
    t.attachControl b now = .error fault := by
  rw [attachControl, ha]
  rfl

theorem attachControl_of_ok (ha : b.attach now = .ok (session, c)) : t.attachControl b now =
    .ok (t.last + 1, { t with last := t.last + 1, control := some ⟨t.last + 1, session⟩ }, c) := by
  rw [attachControl, ha]
  rfl

theorem attachControl_eq_ok_iff : t.attachControl b now = .ok (h, u, c) ↔
    ∃ session, b.attach now = .ok (session, c) ∧ h = t.last + 1 ∧
      u = { t with last := t.last + 1, control := some ⟨t.last + 1, session⟩ } := by
  constructor
  · intro hattach
    cases ha : b.attach now with
    | error fault =>
        rw [attachControl_of_error ha] at hattach
        cases hattach
    | ok attached =>
        obtain ⟨session, c'⟩ := attached
        rw [attachControl_of_ok ha] at hattach
        cases hattach
        exact ⟨session, rfl, rfl, rfl⟩
  · rintro ⟨session, ha, rfl, rfl⟩
    exact attachControl_of_ok ha

theorem releaseControl_of_none (hc : t.controlSession? h = none) :
    t.releaseControl b h = (false, t, b) := by
  rw [releaseControl, hc]

theorem releaseControl_of_some (hc : t.controlSession? h = some session) :
    t.releaseControl b h = (true, { t with control := none, pending := [] },
      (b.detach session).closeAll t.pending.values) := by
  rw [releaseControl, hc]
  rfl

/-! ### Requests -/

theorem openRequest_of_none (hr : t.pending.get? id = none) : t.openRequest id = none := by
  rw [openRequest, hr]

theorem openRequest_of_some (hr : t.pending.get? id = some r) : t.openRequest id =
    some (t.last + 1, { t with
      last := t.last + 1
      pending := t.pending.erase id
      requests := t.requests.set (t.last + 1) r }) := by
  rw [openRequest, hr]
  rfl

theorem isSome_openRequest (t : Handles) (id : RequestId) :
    (t.openRequest id).isSome = (t.pending.get? id).isSome := by
  cases hr : t.pending.get? id with
  | none =>
      rw [openRequest_of_none hr]
      rfl
  | some r =>
      rw [openRequest_of_some hr]
      rfl

theorem openRequest_eq_some_iff : t.openRequest id = some (h, u) ↔
    ∃ r, t.pending.get? id = some r ∧ h = t.last + 1 ∧ u = { t with
      last := t.last + 1
      pending := t.pending.erase id
      requests := t.requests.set (t.last + 1) r } := by
  constructor
  · intro hopen
    cases hr : t.pending.get? id with
    | none =>
        rw [openRequest_of_none hr] at hopen
        cases hopen
    | some r =>
        rw [openRequest_of_some hr] at hopen
        cases hopen
        exact ⟨r, rfl, rfl, rfl⟩
  · rintro ⟨r, hr, rfl, rfl⟩
    exact openRequest_of_some hr

theorem readRequest_of_none (hr : t.requests.get? h = none) : t.readRequest h = none := by
  rw [readRequest, hr]

theorem readRequest_of_some (hr : t.requests.get? h = some r) : t.readRequest h =
    some (r.read.1, { t with requests := t.requests.set h r.read.2 }) := by
  rw [readRequest, hr]

theorem readRequest_eq_some_iff {bytes : Bytes} : t.readRequest h = some (bytes, u) ↔
    ∃ r, t.requests.get? h = some r ∧ bytes = r.read.1 ∧
      u = { t with requests := t.requests.set h r.read.2 } := by
  constructor
  · intro hread
    cases hr : t.requests.get? h with
    | none =>
        rw [readRequest_of_none hr] at hread
        cases hread
    | some r =>
        rw [readRequest_of_some hr] at hread
        cases hread
        exact ⟨r, rfl, rfl, rfl⟩
  · rintro ⟨r, hr, rfl, rfl⟩
    exact readRequest_of_some hr

theorem releaseRequest_of_none (hr : t.requests.get? h = none) :
    t.releaseRequest b h = (false, t, b) := by
  rw [releaseRequest, hr]

theorem releaseRequest_of_some (hr : t.requests.get? h = some r) : t.releaseRequest b h =
    (true, { t with requests := t.requests.erase h }, b.close r.request) := by
  rw [releaseRequest, hr]

/-! ### Files and directories -/

theorem releaseFile_of_none (hf : t.files.get? h = none) : t.releaseFile h = (false, t) := by
  rw [releaseFile, Table.has, hf, Table.erase_of_get?_none hf]
  rfl

theorem releaseFile_of_some {f : Opened} (hf : t.files.get? h = some f) :
    t.releaseFile h = (true, { t with files := t.files.erase h }) := by
  rw [releaseFile, Table.has, hf]
  rfl

theorem releaseDirectory_of_none (hd : t.directories.get? h = none) :
    t.releaseDirectory h = (false, t) := by
  rw [releaseDirectory, Table.has, hd, Table.erase_of_get?_none hd]
  rfl

theorem releaseDirectory_of_some {slots : List Slot} (hd : t.directories.get? h = some slots) :
    t.releaseDirectory h = (true, { t with directories := t.directories.erase h }) := by
  rw [releaseDirectory, Table.has, hd]
  rfl

/-! ### Releasing whatever it is -/

theorem release_of_control (hc : t.controlSession? h = some session) :
    KernelSide.release t b h = ({ t with control := none, pending := [] },
      (b.detach session).closeAll t.pending.values) := by
  rw [KernelSide.release, releaseControl_of_some hc]

theorem release_of_request (hc : t.controlSession? h = none) (hr : t.requests.get? h = some r) :
    KernelSide.release t b h = ({ t with requests := t.requests.erase h }, b.close r.request) := by
  rw [KernelSide.release, releaseControl_of_none hc]
  dsimp only
  rw [releaseRequest_of_some hr]

theorem release_of_file (hc : t.controlSession? h = none) (hr : t.requests.get? h = none) :
    KernelSide.release t b h = ({ t with files := t.files.erase h }, b) := by
  rw [KernelSide.release, releaseControl_of_none hc]
  dsimp only
  rw [releaseRequest_of_none hr]
  rfl

theorem release_of_none (hc : t.controlSession? h = none) (hr : t.requests.get? h = none)
    (hf : t.files.get? h = none) : KernelSide.release t b h = (t, b) := by
  rw [release_of_file hc hr, Table.erase_of_get?_none hf]

end Handles

namespace KernelSide

/-- Opening gives out a handle at once to a request or to the control file. Of any other file there
is a path at most. -/
theorem openFile_cases (t : Handles) (m : Mount) (now : Nat) (inode : Inode) (flags : Int) :
    (∃ reply, openFile t m now inode flags = (.answer reply, t, m)) ∨
    (∃ id h u, t.openRequest id = some (h, u) ∧
      openFile t m now inode flags = (.answer (.opened h bypassCache), u, m)) ∨
    (∃ h u b, t.attachControl m.broker now = .ok (h, u, b) ∧ openFile t m now inode flags =
      (.answer (.opened h bypassCache), u, { m with broker := b })) ∨
    ∃ p, m.view.identities.pathOf? inode = some p ∧
      openFile t m now inode flags = (.need (.file p), t, m) := by
  unfold openFile
  split
  · exact .inl ⟨_, rfl⟩
  · split
    · next id _ =>
        split
        · next h u hopen => exact .inr (.inl ⟨id, h, u, hopen, rfl⟩)
        · exact .inl ⟨_, rfl⟩
    · split
      · exact .inl ⟨_, rfl⟩
      · next p hp =>
          split
          · split
            · next h u b hattach => exact .inr (.inr (.inl ⟨h, u, b, hattach, rfl⟩))
            · exact .inl ⟨_, rfl⟩
          · exact .inr (.inr (.inr ⟨p, hp, rfl⟩))

/-- Reading alters a request only, and waits only at the control file. -/
theorem read_cases (t : Handles) (m : Mount) (h : Handle) (offset : Int) (size : Nat) :
    (∃ session, read t m h offset size = (.need (.request session), t)) ∨
    (∃ bytes u, t.readRequest h = some (bytes, u) ∧
      read t m h offset size = (.answer (.data bytes), u)) ∨
    ∃ reply, read t m h offset size = (.answer reply, t) := by
  unfold read
  split
  · exact .inl ⟨_, rfl⟩
  · split
    · next bytes u hread => exact .inr (.inl ⟨bytes, u, hread, rfl⟩)
    · split
      · exact .inr (.inr ⟨_, rfl⟩)
      · split
        · exact .inr (.inr ⟨_, rfl⟩)
        · split <;> exact .inr (.inr ⟨_, rfl⟩)

end KernelSide
end OnDemandFs
