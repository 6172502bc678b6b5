import OnDemandFs.Proofs.Mapping.Usage

/-!
# Mappings of a node show one file

The files of a node come and go, by republication, removal and writing in place, and opened files
from before and after are mapped in any order. All the same the mappings that are held of a node are
of one file, and what they show is what that file was last given: `pinned_of_run`.
-/
namespace OnDemandFs

/-- What a mapping shows if that is the content of its file. -/
def Mapping.shows (m : Mapping) (content : Bytes) : Bytes :=
  content.take m.length ++ List.replicate (m.length - (content.take m.length).length) 0

theorem Mount.mapped_eq (m : Mount) (mapping : Mapping) :
    m.mapped mapping = mapping.shows (m.disk.content mapping.file) := rfl

namespace Usage
variable {u v : Usage} {notes : List Note}

/-- Whatever is held reads on another mount as it does on its own. -/
def ReadsOn (u : Usage) (mount : Mount) : Prop :=
  (∀ m ∈ u.mappings, mount.mapped m = u.mount.mapped m) ∧
    ∀ f, u.Holds f → mount.readAt f = u.mount.readAt f ∧ mount.fileLength f = u.mount.fileLength f

/-- What holds of the mappings at any moment. -/
structure Pinned (u : Usage) : Prop where
  alike : ∀ m ∈ u.mappings, ∀ m' ∈ u.mappings, m.node = m'.node → m.file = m'.file
  live : ∀ id, u.mount.mappings.live id = u.mappings.countP (·.node = id)
  refused : ∀ f made path, (u.mount.map f made).1 = .error (.mappingConflict path) ↔
    path = f.node.path.text ∧ ∃ m ∈ u.mappings, m.node = f.node.id ∧ m.file ≠ f.file
  granted : ∀ f, (∀ m ∈ u.mappings, m.node = f.node.id → m.file = f.file) →
    (u.mount.map f (.ok ())).1 = .ok ⟨f.node.id, f.file, u.mount.fileLength f⟩
  /-- Failing to map, for whatever reason, changes nothing in what is counted and pinned. -/
  failed : ∀ f made fault, (u.mount.map f made).1 = .error fault →
    ∀ id, (u.mount.map f made).2.mappings.get? id = u.mount.mappings.get? id
  /-- After the last mapping of a node is dropped, any file of the node can be mapped. -/
  freed : ∀ before m after, u.mappings = before ++ m :: after →
    (∀ m' ∈ before ++ after, m'.node ≠ m.node) → ∀ f, f.node.id = m.node →
      ((u.mount.unmap m).map f (.ok ())).1 = .ok ⟨f.node.id, f.file, u.mount.fileLength f⟩
  /-- A file that is published, dated or removed is still what it was to those who have it. -/
  kept : ∀ store, u.mount.store.Revises store → u.ReadsOn (u.mount.setStore store)
  /-- So it is at any moment of a publication. -/
  keptMeanwhile : ∀ p content n, u.ReadsOn (u.mount.setDisk (Disk.Publication.after
    (u.mount.store.physical p).dropLast (u.mount.store.physical p) content u.mount.disk n).1)
  /-- Who has the file that is found now sees what is written into it, and nobody else does. -/
  rewritten : ∀ p content place file,
    u.mount.disk.find true (u.mount.store.physical p) = .ok (place, .file file) →
      let mount := u.mount.setStore (u.mount.store.overwriteFile p content).1
      (∀ m ∈ u.mappings,
        mount.mapped m = if m.file = file then m.shows content else u.mount.mapped m) ∧
      ∀ f, u.Holds f → mount.readAt f =
        if f.file = file then Reading.ofContent content else u.mount.readAt f
  /-- In the long run what a mapping shows is what was last written into its file. -/
  lasting : ∀ notes v, Run u notes v → ∀ m ∈ u.mappings,
    v.mount.mapped m = m.shows ((written? m.file notes).getD (u.mount.disk.content m.file))

namespace Sound

/-- Mapping is refused just if another file of the node is mapped. -/
theorem map_cases (h : Sound u) (f : Opened) :
    ((∀ made, u.mount.map f made = (.error (.mappingConflict f.node.path.text), u.mount)) ∧
        ∃ m ∈ u.mappings, m.node = f.node.id ∧ m.file ≠ f.file) ∨
      ((∃ granted, u.mount.mappings.acquire f.node.id f.node.path.text f.file = .ok granted) ∧
        ∀ m ∈ u.mappings, m.node = f.node.id → m.file = f.file) := by
  rcases h.leases.acquire_cases f.node.id f.node.path.text f.file with
    ⟨hrefused, lease, hlease, hnode, hfile⟩ | ⟨granted, hgranted, hsame⟩
  · left
    obtain ⟨m, hm, rfl⟩ := List.mem_map.mp hlease
    refine ⟨fun made => ?_, m, hm, hnode, hfile⟩
    unfold Mount.map
    rw [hrefused]
  · right
    exact ⟨⟨granted, hgranted⟩, fun m hm => hsame (m.node, m.file) (List.mem_map_of_mem hm)⟩

theorem refused_iff (h : Sound u) (f : Opened) (made : Except IoFault Unit) (path : String) :
    (u.mount.map f made).1 = .error (.mappingConflict path) ↔
      path = f.node.path.text ∧ ∃ m ∈ u.mappings, m.node = f.node.id ∧ m.file ≠ f.file := by
  rcases h.map_cases f with ⟨hrefused, hother⟩ | ⟨⟨granted, hgranted⟩, hsame⟩
  · rw [hrefused made]
    simp only [Except.error.injEq, Fault.mappingConflict.injEq]
    exact ⟨fun hpath => ⟨hpath.symm, hother⟩, fun h => h.1.symm⟩
  · constructor
    · unfold Mount.map
      rw [hgranted]
      cases made <;> simp
    · rintro ⟨-, m, hm, hnode, hfile⟩
      exact absurd (hsame m hm hnode) hfile

theorem map_of_same (h : Sound u) {f : Opened}
    (hsame : ∀ m ∈ u.mappings, m.node = f.node.id → m.file = f.file) :
    (u.mount.map f (.ok ())).1 = .ok ⟨f.node.id, f.file, u.mount.fileLength f⟩ := by
  rcases h.map_cases f with ⟨-, m, hm, hnode, hfile⟩ | ⟨⟨granted, hgranted⟩, -⟩
  · exact absurd (hsame m hm hnode) hfile
  · unfold Mount.map
    rw [hgranted]

theorem get?_of_failed (h : Sound u) {f : Opened} {made : Except IoFault Unit} {fault : Fault}
    (hfailed : (u.mount.map f made).1 = .error fault) (id : NodeId) :
    (u.mount.map f made).2.mappings.get? id = u.mount.mappings.get? id := by
  rcases h.map_cases f with ⟨hrefused, -⟩ | ⟨⟨granted, hgranted⟩, -⟩
  · rw [hrefused made]
  · unfold Mount.map at hfailed ⊢
    rw [hgranted] at hfailed ⊢
    cases made with
    | error cause => exact h.leases.get?_release_acquire hgranted id
    | ok _ => cases hfailed

theorem map_of_freed (h : Sound u) {before after : List Mapping} {m : Mapping}
    (hmappings : u.mappings = before ++ m :: after)
    (hlast : ∀ m' ∈ before ++ after, m'.node ≠ m.node)
    {f : Opened} (hf : f.node.id = m.node) :
    ((u.mount.unmap m).map f (.ok ())).1 = .ok ⟨f.node.id, f.file, u.mount.fileLength f⟩ := by
  apply (h.unmap hmappings).map_of_same
  intro m' hm' hnode
  exact absurd (hnode.trans hf) (hlast m' hm')

/-- Files that keep their content read as they did. -/
theorem readsOn (h : Sound u) {mount : Mount} (hkeeps : u.mount.disk.Keeps mount.disk) :
    u.ReadsOn mount := by
  refine ⟨fun m hm => ?_, fun f hf => ?_⟩
  · rw [Mount.mapped_eq, Mount.mapped_eq, hkeeps.content _ (h.mappings m hm)]
  · have hcontent := hkeeps.content _ (h.files f hf)
    simp only [Mount.readAt, Mount.fileLength, hcontent, and_self]

/-- Writing in place is seen by those who have the file. -/
theorem rewritten (h : Sound u) {p : Path} {place : Location} {file : FileId} (content : Bytes)
    (hfind : u.mount.disk.find true (u.mount.store.physical p) = .ok (place, .file file)) :
    let mount := u.mount.setStore (u.mount.store.overwriteFile p content).1
    (∀ m ∈ u.mappings,
      mount.mapped m = if m.file = file then m.shows content else u.mount.mapped m) ∧
      ∀ f, u.Holds f → mount.readAt f =
        if f.file = file then Reading.ofContent content else u.mount.readAt f := by
  intro mount
  have hwritten : u.mount.store.disk.writtenFile? (u.mount.store.physical p) = some file :=
    Disk.writtenFile?_of_find hfind
  have hcontent {other : FileId} (hmade : other < u.mount.disk.nextFile) :
      mount.disk.content other = if other = file then content else u.mount.disk.content other := by
    have hother := content_overwriteFile (s := u.mount.store) h.numbered hmade p content
    rw [hwritten] at hother
    simp only [Option.some.injEq, @eq_comm _ file] at hother
    exact hother
  refine ⟨fun m hm => ?_, fun f hf => ?_⟩
  · rw [Mount.mapped_eq, hcontent (h.mappings m hm)]
    split <;> rfl
  · rw [Mount.readAt, hcontent (h.files f hf)]
    split <;> rfl

end Sound

/-- However a mount is used, its mappings are pinned. -/
theorem pinned_of_run {d : Disk} {root : List Name} {settings : Settings} {m : Mount}
    (hopen : Mount.openAt d root settings = .ok m) (hd : d.IsNumbered)
    (hrun : Run { mount := m } notes u) : Pinned u := by
  have h := hrun.sound (sound_start hopen hd)
  exact {
    alike := fun m hm m' hm' hnode =>
      h.leases.alike (List.mem_map_of_mem hm) (List.mem_map_of_mem hm') hnode
    live := fun id => by
      rw [h.leases.live_eq, leases, List.countP_map]
      rfl
    refused := h.refused_iff
    granted := fun f => h.map_of_same
    failed := fun f made fault => h.get?_of_failed
    freed := fun before m after hmappings hlast f => h.map_of_freed hmappings hlast
    kept := fun store hrevises => h.readsOn (keeps_of_revises hrevises h.numbered)
    keptMeanwhile := fun p content n => h.readsOn (Disk.keeps_after h.numbered _ _ content n).1
    rewritten := fun p content place file => h.rewritten content
    lasting := fun notes v hlater m hm => by
      rw [Mount.mapped_eq, hlater.content h (h.mappings m hm)] }

/-- The mount after the file was opened. -/
def drawerOpened : Mount :=
  { drawer.mount with view := (Call.start (.openFile drawerPath "f") drawer.mount.view).state }

/-- The mount after the file was published anew and opened again. -/
def drawerReopened : Mount :=
  let m := drawerOpened.setStore (drawerOpened.store.publishFile drawerPath [4, 5]).1
  { m with view := (Call.start (.openFile drawerPath "f") m.view).state }

/-- A file is opened, replaced and opened again. The one that was opened first is mapped, so the
other one cannot be. -/
theorem pinned_of_run_drawer : ∃ u, Run { mount := drawerMount } [] u ∧
    (⟨⟨2, drawerPath, .file, ⟨2, 7⟩, false⟩, 3⟩ : Opened) ∈ u.files ∧ u.mappings = [⟨2, 2, 3⟩] ∧
    Pinned u := by
  have hopened : (Call.start (.openFile drawerPath "f") drawer.mount.view).answer? =
      some (.opened ⟨⟨2, drawerPath, .file, ⟨3, 7⟩, false⟩, 2⟩) := by decide +kernel
  obtain ⟨others, hrun⟩ := run_drawer.opens hopened
  have hreplaced := hrun.step (.revise (.publishFile drawerPath [4, 5]))
  have hagain : (Call.start (.openFile drawerPath "f")
      (drawerOpened.setStore (drawerOpened.store.publishFile drawerPath [4, 5]).1).view).answer? =
      some (.opened ⟨⟨2, drawerPath, .file, ⟨2, 7⟩, false⟩, 3⟩) := by decide +kernel
  obtain ⟨others', hrun'⟩ := hreplaced.opens hagain
  have hmapped : (drawerReopened.map ⟨⟨2, drawerPath, .file, ⟨3, 7⟩, false⟩, 2⟩ (.ok ())).1 =
      .ok ⟨2, 2, 3⟩ := by decide +kernel
  have hmaps :=
    hrun'.maps (List.mem_cons_of_mem _ (List.mem_append_right _ List.mem_cons_self)) hmapped
  exact ⟨_, hmaps, List.mem_cons_self, rfl,
    pinned_of_run openAt_drawerMount (Disk.isNumbered_empty _) hmaps⟩

end Usage
end OnDemandFs
