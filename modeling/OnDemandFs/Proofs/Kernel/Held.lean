import OnDemandFs.Proofs.Kernel.Desk
import OnDemandFs.Proofs.Kernel.Reads

/-!
# What a number stands for

The handles of the kernel are kept in four places: the control file, requests, opened files, and
opened directories. Reading and releasing look for a number in three of them, one after the other,
and never ask of what kind the handle is. `Handles.held` is all that a number stands for in any of
the four; where that is one thing at most, they get at it whatever it is
(`Handles.release_of_request`, and so on).
-/
namespace OnDemandFs

/-- What the number of a handle stands for. -/
inductive Held where
  | control (session : SessionId)
  | request (id : RequestId) (path : Path)
  | file (f : Opened)
  | directory (slots : List Slot)
deriving DecidableEq

namespace Handles
variable {t u : Handles} {h : Handle}

/-- All that a number stands for. -/
def held (t : Handles) (h : Handle) : List Held :=
  (t.controlSession? h).toList.map .control ++
    ((t.requests.get? h).toList.map (fun r => .request r.request r.path) ++
      ((t.files.get? h).toList.map .file ++ (t.directories.get? h).toList.map .directory))

theorem control_mem_held_iff {session : SessionId} :
    .control session ∈ t.held h ↔ t.controlSession? h = some session := by
  simp [held]

theorem request_mem_held_iff {id : RequestId} {p : Path} : .request id p ∈ t.held h ↔
    ∃ r, t.requests.get? h = some r ∧ r.request = id ∧ r.path = p := by
  simp [held]

theorem mem_held_of_request {r : RequestHandle} (hr : t.requests.get? h = some r) :
    .request r.request r.path ∈ t.held h :=
  request_mem_held_iff.mpr ⟨r, hr, rfl, rfl⟩

theorem file_mem_held_iff {f : Opened} : .file f ∈ t.held h ↔ t.files.get? h = some f := by
  simp [held]

theorem directory_mem_held_iff {slots : List Slot} :
    .directory slots ∈ t.held h ↔ t.directories.get? h = some slots := by
  simp [held]

theorem held_eq_nil_iff : t.held h = [] ↔ t.controlSession? h = none ∧
    t.requests.get? h = none ∧ t.files.get? h = none ∧ t.directories.get? h = none := by
  simp [held]

section Alone
variable {session : SessionId} {r : RequestHandle} {f : Opened} {slots : List Slot}

theorem held_control (hc : t.controlSession? h = some session) (hr : t.requests.get? h = none)
    (hf : t.files.get? h = none) (hd : t.directories.get? h = none) :
    t.held h = [.control session] := by
  simp [held, hc, hr, hf, hd]

theorem held_request (hc : t.controlSession? h = none) (hr : t.requests.get? h = some r)
    (hf : t.files.get? h = none) (hd : t.directories.get? h = none) :
    t.held h = [.request r.request r.path] := by
  simp [held, hc, hr, hf, hd]

theorem held_file (hc : t.controlSession? h = none) (hr : t.requests.get? h = none)
    (hf : t.files.get? h = some f) (hd : t.directories.get? h = none) : t.held h = [.file f] := by
  simp [held, hc, hr, hf, hd]

theorem held_directory (hc : t.controlSession? h = none) (hr : t.requests.get? h = none)
    (hf : t.files.get? h = none) (hd : t.directories.get? h = some slots) :
    t.held h = [.directory slots] := by
  simp [held, hc, hr, hf, hd]

end Alone

/-- No number stands for two things. -/
def IsSingle (t : Handles) : Prop := ∀ h, (t.held h).length ≤ 1

namespace IsSingle

theorem held_eq (ht : t.IsSingle) {x : Held} (hx : x ∈ t.held h) : t.held h = [x] := by
  have hone := ht h
  cases hheld : t.held h with
  | nil =>
      rw [hheld] at hx
      cases hx
  | cons y rest =>
      rw [hheld] at hone hx
      obtain rfl : rest = [] := by simpa using hone
      rw [List.mem_singleton.mp hx]

variable {session : SessionId} {r : RequestHandle} {f : Opened} {slots : List Slot}

theorem of_control (ht : t.IsSingle) (hc : t.controlSession? h = some session) :
    t.requests.get? h = none ∧ t.files.get? h = none ∧ t.directories.get? h = none := by
  have hone := ht.held_eq (control_mem_held_iff.mpr hc)
  simpa [held, hc] using hone

theorem of_request (ht : t.IsSingle) (hr : t.requests.get? h = some r) :
    t.controlSession? h = none ∧ t.files.get? h = none ∧ t.directories.get? h = none := by
  have hone := ht h
  cases hc : t.controlSession? h with
  | some session =>
      rw [(ht.of_control hc).1] at hr
      cases hr
  | none => simpa [held, hc, hr] using hone

theorem of_file (ht : t.IsSingle) (hf : t.files.get? h = some f) :
    t.controlSession? h = none ∧ t.requests.get? h = none ∧ t.directories.get? h = none := by
  have hone := ht h
  cases hc : t.controlSession? h with
  | some session =>
      rw [(ht.of_control hc).2.1] at hf
      cases hf
  | none =>
      cases hr : t.requests.get? h with
      | some r =>
          rw [(ht.of_request hr).2.1] at hf
          cases hf
      | none => simpa [held, hc, hr, hf] using hone

theorem of_directory (ht : t.IsSingle) (hd : t.directories.get? h = some slots) :
    t.controlSession? h = none ∧ t.requests.get? h = none ∧ t.files.get? h = none := by
  refine ⟨?_, ?_, ?_⟩
  · refine Option.eq_none_iff_forall_ne_some.mpr fun session hc => ?_
    rw [(ht.of_control hc).2.2] at hd
    cases hd
  · refine Option.eq_none_iff_forall_ne_some.mpr fun r hr => ?_
    rw [(ht.of_request hr).2.2] at hd
    cases hd
  · refine Option.eq_none_iff_forall_ne_some.mpr fun f hf => ?_
    rw [(ht.of_file hf).2.2] at hd
    cases hd

end IsSingle

/-! ### One number at a time -/

/-- What is kept under a number is as it was. -/
structure SameRow (t u : Handles) (h : Handle) : Prop where
  control : u.controlSession? h = t.controlSession? h
  request : u.requests.get? h = t.requests.get? h
  file : u.files.get? h = t.files.get? h
  directory : u.directories.get? h = t.directories.get? h

theorem SameRow.refl (t : Handles) (h : Handle) : SameRow t t h := ⟨rfl, rfl, rfl, rfl⟩

theorem SameRow.held (hsame : SameRow t u h) : u.held h = t.held h := by
  unfold Handles.held
  rw [hsame.control, hsame.request, hsame.file, hsame.directory]

end Handles
end OnDemandFs
