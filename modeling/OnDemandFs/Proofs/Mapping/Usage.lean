import OnDemandFs.Kernel.Calls
import OnDemandFs.Proofs.Disk.Numbering
import OnDemandFs.Proofs.Helper.Answers
import OnDemandFs.Proofs.Mapping.Leases
import OnDemandFs.Proofs.Traffic.Moves

/-!
# A mount in use

Operations on a mount take turns with changes of its cache. A file that was opened is held for as
long as one likes; it is mapped any number of times meanwhile, or handed to the kernel, which keeps
it under a handle. `Run` is any series of such steps, and notes on the way when the kernel was given
a handle and when a file was written in place.

All through a run what is held are files that were made, and the arbiter has counted the mappings:
`Sound`.
-/
namespace OnDemandFs

/-- A mount, with what those who use it have of it. -/
structure Usage where
  mount : Mount
  underway : List Operation := []
  files : List Opened := []
  mappings : List Mapping := []
  table : Handles := {}

/-- A change of the cache other than writing a file in place. -/
inductive Store.Revises (s : Store) : Store → Prop
  | publishIndex (dir : Path) (index : Index) : Revises s (s.publishIndex dir index).1
  | publishFile (p : Path) (content : Bytes) : Revises s (s.publishFile p content).1
  | createDirectory (dir : Path) : Revises s (s.createDirectory dir).1
  | setModified (p : Path) (seconds : Int) : Revises s (s.setModified p seconds).1
  | remove (p : Path) : Revises s (s.remove p).1

/-- The files that operations came to. -/
def Traffic.opened (told : List Event) : List Opened :=
  told.filterMap fun
    | .answered _ (.opened f) => some f
    | .answered .. | .numbered .. => none

namespace Usage

/-- What is noted of a step. -/
inductive Note where
  /-- The kernel was given a handle of an opened file, with these flags;
  that was its content then. -/
  | opened (node : NodeId) (file : FileId) (content : Bytes) (flags : Nat)
  | rewrote (file : FileId) (content : Bytes)

def traffic (u : Usage) : Traffic := ⟨u.mount.view, u.underway⟩

def setStore (u : Usage) (store : Store) : Usage := { u with mount := u.mount.setStore store }

/-- Map a file; a mapping that was made is held. -/
def map (u : Usage) (f : Opened) (made : Except IoFault Unit) : Usage :=
  match u.mount.map f made with
  | (.ok mapping, mount) => { u with mount, mappings := mapping :: u.mappings }
  | (.error _, mount) => { u with mount }

/-- Mapping a file leaves the view alone, and the handles of the kernel. -/
theorem view_map (u : Usage) (f : Opened) (made : Except IoFault Unit) :
    (u.map f made).mount.view = u.mount.view ∧ (u.map f made).table = u.table := by
  unfold map Mount.map
  cases u.mount.mappings.acquire f.node.id f.node.path.text f.file with
  | error fault => exact ⟨rfl, rfl⟩
  | ok granted => cases made <;> exact ⟨rfl, rfl⟩

/-- The node and the file of each mapping that is held. -/
def leases (u : Usage) : List (NodeId × FileId) := u.mappings.map fun m => (m.node, m.file)

/-- The file is open, with whoever opened it or with the kernel. -/
def Holds (u : Usage) (f : Opened) : Prop := f ∈ u.files ∨ ∃ handle, (handle, f) ∈ u.table.files

inductive Step (u : Usage) : List Note → Usage → Prop
  | move {told : List Event} {t : Traffic} (h : u.traffic.Moves told t) :
      Step u [] { u with
        mount := { u.mount with view := t.view }
        underway := t.underway
        files := Traffic.opened told ++ u.files }
  | revise {store : Store} (h : u.mount.store.Revises store) : Step u [] (u.setStore store)
  | rewrite (p : Path) (content : Bytes) :
      Step u ((u.mount.store.disk.writtenFile? (u.mount.store.physical p)).toList.map
          (.rewrote · content))
        (u.setStore (u.mount.store.overwriteFile p content).1)
  | map {f : Opened} (hf : f ∈ u.files) (made : Except IoFault Unit) : Step u [] (u.map f made)
  | unmap {before after : List Mapping} {m : Mapping} (h : u.mappings = before ++ m :: after) :
      Step u [] { u with mount := u.mount.unmap m, mappings := before ++ after }
  | close {before after : List Opened} {f : Opened} (h : u.files = before ++ f :: after) :
      Step u [] { u with files := before ++ after }
  /-- The kernel is answered that the file is open. -/
  | register {before after : List Opened} {f : Opened} {handle : Handle} {flags : Nat}
      {table : Handles} (h : u.files = before ++ f :: after)
      (hreply : KernelSide.replyOpened u.table f = (.opened handle flags, table)) :
      Step u [.opened f.node.id f.file (u.mount.disk.content f.file) flags]
        { u with files := before ++ after, table }
  | release (handle : Handle) : Step u [] { u with table := (u.table.releaseFile handle).2 }

/-- A series of steps, with its notes, latest first. -/
inductive Run (u : Usage) : List Note → Usage → Prop
  | start : Run u [] u
  | step {v w : Usage} {past notes : List Note} (h : Run u past v) (hstep : Step v notes w) :
      Run u (notes ++ past) w

variable {u v w : Usage} {notes past more : List Note}

/-- Operations that are answered without a request. -/
theorem Run.goes {told : List Event} {t : Traffic} (h : Run u past v)
    (hgoes : Traffic.Goes v.traffic told t) :
    Run u past { v with
      mount := { v.mount with view := t.view }
      underway := t.underway
      files := Traffic.opened told ++ v.files } := by
  induction hgoes with
  | refl => exact h
  | @move t w told more _ hmove ih =>
      have hstep := ih.step (.move hmove)
      simp only [Traffic.opened, List.filterMap_append, List.append_assoc, List.nil_append]
        at hstep ⊢
      exact hstep

/-- A file that is opened without a request. -/
theorem Run.opens (h : Run u past v) {call : Call} {f : Opened}
    (hanswer : (call.start v.mount.view).answer? = some (.opened f)) :
    ∃ others, Run u past { v with
      mount := { v.mount with view := (call.start v.mount.view).state }
      files := f :: (others ++ v.files) } := by
  obtain ⟨told, hgoes⟩ := Traffic.goes_of_answer? v.mount.view v.underway call hanswer
  exact ⟨_, h.goes hgoes⟩

/-- A mapping that is made is held. -/
theorem Run.maps (h : Run u past v) {f : Opened} (hf : f ∈ v.files) {made : Except IoFault Unit}
    {mapping : Mapping} (hmade : (v.mount.map f made).1 = .ok mapping) :
    Run u past { v with
      mount := (v.mount.map f made).2
      mappings := mapping :: v.mappings } := by
  have hmap : v.map f made = { v with
      mount := (v.mount.map f made).2
      mappings := mapping :: v.mappings } := by
    unfold map
    revert hmade
    rcases v.mount.map f made with ⟨fault | mapping', mount⟩
    · exact nofun
    · rintro ⟨⟩
      rfl
  rw [← hmap]
  exact h.step (.map hf made)

/-! ### What is held was made -/

/-- What is held are files that were made, and the mappings are counted. -/
structure Sound (u : Usage) : Prop where
  numbered : u.mount.disk.IsNumbered
  /-- Whatever will be opened was made. -/
  underway : ∀ k : Known, (∀ p id, k.number p id) → (∀ id < u.mount.disk.nextFile, k.file id) →
    u.traffic.Keeps k
  files : ∀ f, u.Holds f → f.file < u.mount.disk.nextFile
  mappings : ∀ m ∈ u.mappings, m.file < u.mount.disk.nextFile
  leases : u.mount.mappings.Counts u.leases

theorem rewrites_overwriteFile {s : Store} (hs : s.disk.IsNumbered) (p : Path) (content : Bytes) :
    s.disk.Rewrites (s.disk.writtenFile? (s.physical p)) content
      (s.overwriteFile p content).1.disk := by
  rw [Store.overwriteFile, Store.change_fst]
  exact Disk.rewrites_writeInPlace hs _ content

theorem content_overwriteFile {s : Store} (hs : s.disk.IsNumbered) {file : FileId}
    (hfile : file < s.disk.nextFile) (p : Path) (content : Bytes) :
    (s.overwriteFile p content).1.disk.content file =
      if s.disk.writtenFile? (s.physical p) = some file then content else s.disk.content file := by
  have hrewrites := rewrites_overwriteFile hs p content
  split
  · next hwritten => exact hrewrites.written file hwritten
  · next hother => exact hrewrites.others file hfile hother

theorem keeps_of_revises {s t : Store} (h : s.Revises t) (hs : s.disk.IsNumbered) :
    s.disk.Keeps t.disk := by
  have hrefl := Disk.Keeps.refl hs
  cases h with
  | publishIndex dir index =>
      rw [Store.publishIndex, Store.change_fst]
      exact Disk.keeps_publish hs _ _ _
  | publishFile p content =>
      rcases s.publishFile_fst p content with hsame | hnew
      · rwa [hsame]
      · rw [hnew]
        exact Disk.keeps_publish hs _ _ _
  | createDirectory dir =>
      rw [Store.createDirectory, Store.change_fst]
      exact hrefl.makeDirectoriesUp _
  | setModified p seconds =>
      rw [Store.setModified, Store.change_fst]
      exact hrefl.setTime _ _
  | remove p =>
      have hremoved := hrefl.remove (s.physical p)
      unfold Store.remove
      revert hremoved
      rcases s.disk.remove (s.physical p) with ⟨d, fault | _⟩
      · dsimp only
        split <;> exact id
      · exact id

/-- A body that is found is a file that was made. -/
theorem made_of_opened {s : Store} (hs : s.disk.IsNumbered) {p : Path} {file : FileId}
    {e : PhysicalEntry} (h : s.opened p = .ok (some (file, e))) : file < s.disk.nextFile := by
  unfold Store.opened at h
  split at h
  · cases h
  · cases h
  · next hfind =>
      cases h
      obtain ⟨-, -, hat⟩ := Disk.find_eq_ok_iff.mp hfind
      exact hs.at? hat
  · cases h

namespace Sound

/-- The disk may change, if no file loses its number. -/
theorem setStore (h : Sound u) {store : Store} (hnumbered : store.disk.IsNumbered)
    (hnext : u.mount.disk.nextFile ≤ store.disk.nextFile) : Sound (u.setStore store) where
  numbered := hnumbered
  underway k hnumber hfile := h.underway k hnumber fun id hid =>
    hfile id (Nat.lt_of_lt_of_le hid hnext)
  files f hf := Nat.lt_of_lt_of_le (h.files f hf) hnext
  mappings m hm := Nat.lt_of_lt_of_le (h.mappings m hm) hnext
  leases := h.leases

theorem move (h : Sound u) {told : List Event} {t : Traffic} (hmove : u.traffic.Moves told t) :
    Sound { u with
      mount := { u.mount with view := t.view }
      underway := t.underway
      files := Traffic.opened told ++ u.files } := by
  have hdisk : t.view.store.disk = u.mount.disk := hmove.calm.store.disk
  have hkeeps (k : Known) (hnumber : ∀ p id, k.number p id)
      (hfile : ∀ id < u.mount.disk.nextFile, k.file id) :=
    hmove.keeps (h.underway k hnumber hfile) fun q b hanswer => by
      cases q with
      | number p => exact hnumber p b
      | body p =>
          intro file e hfound
          have hb : u.mount.store.opened p = b := by
            simp only [Query.answer, Asking.act, Inquiry.done.injEq, Except.ok.injEq] at hanswer
            exact hanswer.2
          exact hfile file (made_of_opened h.numbered (hb.trans hfound))
      | ask | entry | index | names | facts => trivial
  refine ⟨?_, fun k hnumber hfile => ?_, fun f hf => ?_, fun m hm => ?_, h.leases⟩
  · change t.view.store.disk.IsNumbered
    rw [hdisk]
    exact h.numbered
  · refine (hkeeps k hnumber fun id hid => hfile id ?_).1
    change id < t.view.store.disk.nextFile
    rw [hdisk]
    exact hid
  · change f.file < t.view.store.disk.nextFile
    rw [hdisk]
    rcases hf with hf | hf
    · rcases List.mem_append.mp hf with hnew | hold
      · obtain ⟨event, hevent, hopened⟩ := List.mem_filterMap.mp hnew
        have habout := (hkeeps ⟨fun _ _ => True, fun id => id < u.mount.disk.nextFile⟩
          (fun _ _ => trivial) fun _ => id).2
        split at hopened
        · next call f' =>
            cases hopened
            exact (habout call _ hevent).2.2
        · cases hopened
        · cases hopened
      · exact h.files f (.inl hold)
    · exact h.files f (.inr hf)
  · change m.file < t.view.store.disk.nextFile
    rw [hdisk]
    exact h.mappings m hm

theorem map (h : Sound u) {f : Opened} (hf : f ∈ u.files) (made : Except IoFault Unit) :
    Sound (u.map f made) := by
  unfold Usage.map Mount.map
  cases hacquire : u.mount.mappings.acquire f.node.id f.node.path.text f.file with
  | error fault => exact h
  | ok granted =>
      have hcounts := h.leases.acquire hacquire
      cases made with
      | error cause =>
          have hback : Arbiter.Counts granted ([] ++ (f.node.id, f.file) :: u.leases) := hcounts
          exact ⟨h.numbered, h.underway, h.files, h.mappings, hback.release⟩
      | ok _ =>
          refine ⟨h.numbered, h.underway, h.files, ?_, hcounts⟩
          exact List.forall_mem_cons.mpr ⟨h.files f (.inl hf), h.mappings⟩

theorem unmap (h : Sound u) {before after : List Mapping} {m : Mapping}
    (hmappings : u.mappings = before ++ m :: after) :
    Sound { u with mount := u.mount.unmap m, mappings := before ++ after } := by
  have hmade := h.mappings
  have hcounts := h.leases
  rw [Usage.leases, hmappings, List.map_append, List.map_cons] at hcounts
  rw [hmappings] at hmade
  refine ⟨h.numbered, h.underway, h.files, fun m' hm' => hmade m' ?_, ?_⟩
  · apply List.mem_append.mpr
    exact (List.mem_append.mp hm').imp_right (List.mem_cons_of_mem _)
  · simp only [Usage.leases, List.map_append]
    exact hcounts.release

/-- Less may be held than before, or by others. -/
theorem hold (h : Sound u) {files : List Opened} {table : Handles}
    (hheld : ∀ f, { u with files, table : Usage }.Holds f → u.Holds f) :
    Sound { u with files, table } :=
  ⟨h.numbered, h.underway, fun f hf => h.files f (hheld f hf), h.mappings, h.leases⟩

end Sound

theorem replyOpened_eq (t : Handles) (f : Opened) : KernelSide.replyOpened t f =
    (.opened (t.last + 1)
        (if t.generations.get? f.node.id = some f.file then KernelSide.keepCache else 0),
      { t with
        last := t.last + 1
        files := t.files.set (t.last + 1) f
        generations := t.generations.set f.node.id f.file }) := by
  simp only [KernelSide.replyOpened, Handles.insertFile, Handles.allocate, decide_eq_true_eq]

theorem Step.sound (hstep : Step u notes v) (h : Sound u) : Sound v := by
  cases hstep with
  | move hmove => exact h.move hmove
  | revise hrevises =>
      have hkeeps := keeps_of_revises hrevises h.numbered
      exact h.setStore hkeeps.numbered hkeeps.nextFile
  | rewrite p content =>
      have hrewrites := rewrites_overwriteFile (s := u.mount.store) h.numbered p content
      exact h.setStore hrewrites.numbered hrewrites.nextFile
  | map hf made => exact h.map hf made
  | unmap hmappings => exact h.unmap hmappings
  | @close before after f hfiles =>
      refine h.hold fun f' hf' => hf'.imp_left fun hmem => ?_
      rw [hfiles]
      exact List.mem_append.mpr ((List.mem_append.mp hmem).imp_right (List.mem_cons_of_mem f))
  | @register before after f handle flags table hfiles hreply =>
      rw [replyOpened_eq] at hreply
      cases hreply
      refine h.hold fun f' hf' => ?_
      rcases hf' with hmem | ⟨handle', hmem⟩
      · left
        rw [hfiles]
        exact List.mem_append.mpr ((List.mem_append.mp hmem).imp_right (List.mem_cons_of_mem f))
      · rcases Table.mem_of_mem_set hmem with hold | hnew
        · exact .inr ⟨handle', hold⟩
        · cases hnew
          left
          rw [hfiles]
          exact List.mem_append_right _ List.mem_cons_self
  | release handle =>
      refine h.hold fun f' hf' => hf'.imp_right fun ⟨handle', hmem⟩ => ⟨handle', ?_⟩
      exact List.mem_of_mem_filter hmem

theorem Run.sound (hrun : Run u notes v) (h : Sound u) : Sound v := by
  induction hrun with
  | start => exact h
  | step _ hstep ih => exact hstep.sound ih

/-! ### What files contain -/

/-- What was last written in place into a file. -/
def written? (file : FileId) (notes : List Note) : Option Bytes :=
  notes.findSome? fun
    | .rewrote file' content => if file' = file then some content else none
    | .opened .. => none

@[simp] theorem written?_opened {file file' : FileId} {n : NodeId} {content : Bytes} {flags : Nat} :
    written? file (.opened n file' content flags :: past) = written? file past := rfl

theorem written?_append {file : FileId} :
    written? file (more ++ past) = (written? file more).or (written? file past) :=
  List.findSome?_append

theorem Step.nextFile (hstep : Step u notes v) (h : Sound u) :
    u.mount.disk.nextFile ≤ v.mount.disk.nextFile := by
  cases hstep with
  | move hmove => exact Nat.le_of_eq (congrArg Disk.nextFile hmove.calm.store.disk.symm)
  | revise hrevises => exact (keeps_of_revises hrevises h.numbered).nextFile
  | rewrite p content =>
      exact (rewrites_overwriteFile (s := u.mount.store) h.numbered p content).nextFile
  | map hf made => exact Nat.le_of_eq (congrArg (·.store.disk.nextFile) (u.view_map _ made).1.symm)
  | unmap | close | register | release => exact Nat.le_refl _

/-- A file that was made contains what was written into it in place, and else what it did before. -/
theorem Step.content (hstep : Step u notes v) (h : Sound u) {file : FileId}
    (hfile : file < u.mount.disk.nextFile) :
    v.mount.disk.content file = (written? file notes).getD (u.mount.disk.content file) := by
  cases hstep with
  | move hmove => exact congrArg (Disk.content · file) hmove.calm.store.disk
  | revise hrevises => exact (keeps_of_revises hrevises h.numbered).content file hfile
  | rewrite p content =>
      have hcontent := content_overwriteFile (s := u.mount.store) h.numbered hfile p content
      refine hcontent.trans ?_
      cases u.mount.store.disk.writtenFile? (u.mount.store.physical p) with
      | none => rfl
      | some file' =>
          by_cases heq : file' = file
          · simp [written?, heq]
          · simp [written?, heq]
            rfl
  | map hf made => exact congrArg (·.store.disk.content file) (u.view_map _ made).1
  | unmap | close | register | release => rfl

theorem Run.nextFile (hrun : Run u notes v) (h : Sound u) :
    u.mount.disk.nextFile ≤ v.mount.disk.nextFile := by
  induction hrun with
  | start => exact Nat.le_refl _
  | step hrun hstep ih => exact Nat.le_trans ih (hstep.nextFile (hrun.sound h))

/-- Over a whole run a file that was made only changes by being written in place. -/
theorem Run.content (hrun : Run u notes v) (h : Sound u) {file : FileId}
    (hfile : file < u.mount.disk.nextFile) :
    v.mount.disk.content file = (written? file notes).getD (u.mount.disk.content file) := by
  induction hrun with
  | start => rfl
  | @step v w past notes hrun hstep ih =>
      have hmade := Nat.lt_of_lt_of_le hfile (hrun.nextFile h)
      rw [hstep.content (hrun.sound h) hmade, ih, written?_append]
      cases written? file notes <;> rfl

/-- A mount that was just opened works on the disk that it was given, and has counted nothing. -/
theorem sound_start {d : Disk} {root : List Name} {settings : Settings} {m : Mount}
    (hopen : Mount.openAt d root settings = .ok m) (hd : d.IsNumbered) : Sound { mount := m } := by
  obtain ⟨place, rfl⟩ := Mount.of_openAt hopen
  refine ⟨hd, fun k _ _ op hop => ?_, fun f hf => ?_, fun m hm => ?_, Arbiter.counts_nil⟩
  · cases hop
  · rcases hf with hf | ⟨handle, hf⟩ <;> cases hf
  · cases hm

/-- A mount over an empty cache. -/
def drawerMount : Mount where
  settings := { cacheRoot := "/c" }
  view := { store := ⟨[], 102400, .empty ⟨7, 0⟩, { capacity := 4096 }⟩, started := 7 }
  broker := { timeout := none }

theorem openAt_drawerMount :
    Mount.openAt (.empty ⟨7, 0⟩) [] { cacheRoot := "/c" } = .ok drawerMount := rfl

def drawerPath : Path := .ofText "/hello"

/-- The cache after a listing with one file in it was published, and the file. -/
def drawerStore : Store :=
  ((drawerMount.store.publishIndex .root (.listing [⟨.file, 5, 3, "hello"⟩])).1.publishFile
    drawerPath [1, 2, 3]).1

def drawer : Usage := { mount := drawerMount.setStore drawerStore }

theorem run_drawer : Run { mount := drawerMount } [] drawer :=
  (Run.start.step (.revise (.publishIndex .root _))).step (.revise (.publishFile drawerPath _))

end Usage
end OnDemandFs
