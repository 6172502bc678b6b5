import OnDemandFs.Proofs.Kernel.Listings
import OnDemandFs.Proofs.Resolve.Numbered

/-!
# Parents have numbers

A table of numbers is rooted if the parent of each path in it is in it too. The kernel comes by the
paths of a mount one name at a time, under inodes that it was given before: so what one of its calls
needs is about a path whose parent has a number, and so are the numbers that come of it
(`KernelSide.isRooted_of_plan`, `KernelNeed.IsRooted.numbers`). An opened directory shows the number
of its parent beside its own, and goes on showing it while the table grows.
-/
namespace OnDemandFs

namespace Identities
variable {t u : Identities} {p : Path} {n : String}

/-- The parent of each path that was shown was shown too. -/
def IsRooted (t : Identities) : Prop := ∀ p ∈ t.shown, p.parent ∈ t.shown

theorem mem_shown_iff : p ∈ t.shown ↔ ∃ id, t.idOf? p = some id :=
  ⟨fun h => ⟨_, idOf?_eq_some_iff.mpr ⟨h, rfl⟩⟩, fun ⟨_, h⟩ => (idOf?_eq_some_iff.mp h).1⟩

theorem mem_shown_of_pathOf? {id : NodeId} (h : t.pathOf? id = some p) : p ∈ t.shown :=
  mem_shown_iff.mpr ⟨id, pathOf?_eq_some_iff.mp h⟩

theorem subset_assign (t : Identities) (p : Path) : t.shown ⊆ (t.assign p).2.shown := by
  unfold assign
  split
  · exact List.Subset.refl _
  · exact List.subset_append_left _ _

theorem isRooted_initial : initial.IsRooted := by
  intro p hp
  rw [List.mem_singleton.mp hp]
  exact List.mem_singleton_self _

theorem IsRooted.assign (h : t.IsRooted) (hp : p.parent ∈ t.shown) : (t.assign p).2.IsRooted := by
  intro q hq
  refine t.subset_assign p ?_
  rcases mem_shown_assign hq with hold | rfl
  · exact h q hold
  · exact hp

/-- A name that is put behind a path that was shown continues it, or leads nowhere. -/
theorem IsRooted.parent_extend (h : t.IsRooted) (hp : p ∈ t.shown) (hn : '/' ∉ n.toList) :
    (p.extend n).parent ∈ t.shown := by
  by_cases hsegment : IsSegment n
  · rw [p.parent_extend hsegment]
    exact hp
  · rw [p.extend_of_not_isSegment hn hsegment]
    exact h p hp

/-- Only the root has its number. -/
theorem eq_root_iff {id : NodeId} (h : t.idOf? p = some id) : id = rootId ↔ p = .root := by
  constructor
  · rintro rfl
    have hroot := pathOf?_eq_some_iff.mpr t.idOf?_root
    exact Option.some.inj ((pathOf?_eq_some_iff.mpr h).symm.trans hroot)
  · rintro rfl
    exact Option.some.inj (h.symm.trans t.idOf?_root)

end Identities

namespace Handles
variable {ids later : Identities} {inode : Inode} {p : Path} {up : NodeId} {slots : List Slot}

/-- The slots of a directory of the tree: itself and its parent, under the numbers that they have,
and what was listed, of which nothing is called like the parent. -/
structure Shows (ids : Identities) (inode : Inode) (p : Path) (up : NodeId) (slots : List Slot) :
    Prop where
  path : ids.pathOf? inode = some p
  parent : ids.idOf? p.parent = some up
  slots : ∃ rest, slots = ⟨inode, .directory, "."⟩ :: ⟨up, .directory, ".."⟩ :: rest ∧
    ∀ slot ∈ rest, slot.name ≠ ".."

theorem Shows.mono (h : Shows ids inode p up slots) (hshown : ids.shown <+: later.shown) :
    Shows later inode p up slots where
  path := Identities.pathOf?_eq_some_iff.mpr
    (Identities.idOf?_of_shown_prefix hshown (Identities.pathOf?_eq_some_iff.mp h.path))
  parent := Identities.idOf?_of_shown_prefix hshown h.parent
  slots := h.slots

/-- What is called like the parent is the parent. -/
theorem Shows.above_iff (h : Shows ids inode p up slots) {slot : Slot} (hslot : slot ∈ slots) :
    slot.name = ".." ↔ slot = ⟨up, .directory, ".."⟩ := by
  constructor
  · intro hname
    obtain ⟨rest, rfl, hrest⟩ := h.slots
    rcases List.mem_cons.mp hslot with rfl | hslot
    · exact absurd hname (by decide : "." ≠ "..")
    · rcases List.mem_cons.mp hslot with rfl | hslot
      · rfl
      · exact absurd hname (hrest slot hslot)
  · rintro rfl
    rfl

/-- The fallback to the root is for directories whose parent has no number. -/
theorem shows_slotsOf {listing : List Listed} (hpath : ids.pathOf? inode = some p)
    (hparent : ids.idOf? p.parent = some up) (hlisting : ∀ e ∈ listing, IsInner e.name) :
    Shows ids inode p up (slotsOf ids inode p listing) := by
  refine ⟨hpath, hparent, listing.map fun e => ⟨e.id, .ofKind e.kind, e.name⟩, ?_, ?_⟩
  · rw [slotsOf, hparent]
    rfl
  · intro slot hslot
    obtain ⟨e, he, rfl⟩ := List.mem_map.mp hslot
    exact (hlisting e he).ne_above

/-- Directories that are open: of the tree, or that of the requests. -/
def AreShown (ids : Identities) (t : Handles) : Prop :=
  ∀ h slots, t.directories.get? h = some slots → slots = requestSlots ∨
    ∃ inode p up, Shows ids inode p up slots

theorem AreShown.insertDirectory {t : Handles} (h : t.AreShown ids)
    (hslots : slots = requestSlots ∨ ∃ inode p up, Shows ids inode p up slots) :
    (t.insertDirectory slots).2.AreShown ids := by
  intro h' slots' hrow
  change (t.directories.set (t.last + 1) slots).get? h' = some slots' at hrow
  rw [Table.get?_set] at hrow
  split at hrow
  · cases hrow
    exact hslots
  · exact h h' slots' hrow

theorem AreShown.mono {t : Handles} (h : t.AreShown ids) (hshown : ids.shown <+: later.shown) :
    t.AreShown later := by
  intro h' slots hrow
  exact (h h' slots hrow).imp_right fun ⟨inode, p, up, hshows⟩ =>
    ⟨inode, p, up, hshows.mono hshown⟩

theorem AreShown.of_subset {t u : Handles} (h : t.AreShown ids)
    (hrows : ∀ h slots, u.directories.get? h = some slots → t.directories.get? h = some slots) :
    u.AreShown ids :=
  fun h' slots hrow => h h' slots (hrows h' slots hrow)

theorem AreShown.of_directories {t u : Handles} (h : t.AreShown ids)
    (hsame : u.directories = t.directories) : u.AreShown ids :=
  h.of_subset fun _ _ hrow => hsame ▸ hrow

variable {t u : Handles} {h : Handle}

theorem directories_openRequest {id : RequestId} (hopen : t.openRequest id = some (h, u)) :
    u.directories = t.directories := by
  obtain ⟨r, -, -, rfl⟩ := openRequest_eq_some_iff.mp hopen
  rfl

theorem directories_attachControl {b b' : Broker} {now : Nat}
    (hattach : t.attachControl b now = .ok (h, u, b')) : u.directories = t.directories := by
  obtain ⟨session, -, -, rfl⟩ := attachControl_eq_ok_iff.mp hattach
  rfl

theorem directories_readRequest {bytes : Bytes} (hread : t.readRequest h = some (bytes, u)) :
    u.directories = t.directories := by
  obtain ⟨r, -, -, rfl⟩ := readRequest_eq_some_iff.mp hread
  rfl

theorem directories_release (t : Handles) (b : Broker) (h : Handle) :
    (KernelSide.release t b h).1.directories = t.directories := by
  cases hc : t.controlSession? h with
  | some session => rw [release_of_control hc]
  | none =>
      cases hr : t.requests.get? h with
      | some r => rw [release_of_request hc hr]
      | none => rw [release_of_file hc hr]

end Handles

/-! ### Calls of the kernel -/

/-- Names that are looked up have no slash in them. -/
def KernelCall.IsPlain : KernelCall → Prop
  | .lookup _ name => Disk.slash ∉ name
  | .getattr _ | .readlink _ | .openFile .. | .openDirectory _ | .read .. | .release _
  | .releaseDirectory _ | .readDirectory .. | .destroy => True

/-- What is needed comes from under an inode that was given out. -/
def KernelNeed.IsRooted (ids : Identities) : KernelNeed → Prop
  | .node p _ | .link p | .file p => p.parent ∈ ids.shown
  | .listing inode p => ids.pathOf? inode = some p
  | .request _ => True

theorem KernelNeed.IsRooted.numbers {ids : Identities} {need : KernelNeed}
    (h : need.IsRooted ids) (hids : ids.IsRooted) {q : Path} (hq : (Call.kernel need).Numbers q) :
    q.parent ∈ ids.shown := by
  cases need with
  | node p _ | file p =>
      cases hq
      exact h
  | listing inode p =>
      obtain ⟨n, hn, rfl⟩ := hq
      exact hids.parent_extend (Identities.mem_shown_of_pathOf? h) hn.noSlash
  | link | request => cases hq

namespace KernelSide
variable {k : KernelSide} {t : Handles} {m : Mount} {now : Nat} {call : KernelCall}
  {need : KernelNeed}

theorem exists_of_withPath {ids : Identities} {inode : Inode} {f : Path → KernelPlan}
    (h : withPath ids inode f = .need need) :
    ∃ p, ids.pathOf? inode = some p ∧ f p = .need need := by
  unfold withPath at h
  split at h
  · next p hp => exact ⟨p, hp, h⟩
  · cases h

theorem ofRequest_ne_need (make : FileAttr → KernelReply) (attr : Option FileAttr) :
    ofRequest make attr ≠ .need need := by
  cases attr <;> exact nofun

theorem isRooted_of_lookup {parent : Inode} {name : Bytes} (hids : m.view.identities.IsRooted)
    (hplain : Disk.slash ∉ name) (h : lookup t m parent name = .need need) :
    need.IsRooted m.view.identities := by
  unfold lookup at h
  split at h
  · cases h
  · next text htext =>
      have hslash : '/' ∉ text.toList := by
        rw [← Utf8.slash_mem_encode_iff, Utf8.encode_of_decode htext]
        exact fun hmem => hplain ((List.takeWhile_sublist _).subset hmem)
      split at h
      · split at h
        · exact absurd h (ofRequest_ne_need _ _)
        · cases h
      · split at h
        · split at h <;> cases h
        · obtain ⟨p, hp, hneed⟩ := exists_of_withPath h
          cases hneed
          exact hids.parent_extend (Identities.mem_shown_of_pathOf? hp) hslash

theorem isRooted_of_openFile {inode : Inode} {flags : Int} (hids : m.view.identities.IsRooted)
    (h : (openFile t m now inode flags).1 = .need need) : need.IsRooted m.view.identities := by
  rcases openFile_cases t m now inode flags with
    ⟨reply, heq⟩ | ⟨id, h', u, -, heq⟩ | ⟨h', u, b, -, heq⟩ | ⟨p, hp, heq⟩ <;> rw [heq] at h
  · cases h
  · cases h
  · cases h
  · cases h
    exact hids p (Identities.mem_shown_of_pathOf? hp)

theorem isRooted_of_plan (hids : m.view.identities.IsRooted) (hplain : call.IsPlain)
    (h : (k.plan t m now call).1 = .need need) : need.IsRooted m.view.identities := by
  unfold plan at h
  split at h
  · cases h
  · cases call with
    | lookup parent name => exact isRooted_of_lookup hids hplain h
    | getattr inode =>
        dsimp only [getattr] at h
        split at h
        · cases h
        · split at h
          · exact absurd h (ofRequest_ne_need _ _)
          · obtain ⟨p, hp, hneed⟩ := exists_of_withPath h
            cases hneed
            exact hids p (Identities.mem_shown_of_pathOf? hp)
    | readlink inode =>
        obtain ⟨p, hp, hneed⟩ := exists_of_withPath h
        cases hneed
        exact hids p (Identities.mem_shown_of_pathOf? hp)
    | openFile inode flags => exact isRooted_of_openFile hids h
    | openDirectory inode =>
        dsimp only at h
        split at h
        · cases h
        · obtain ⟨p, hp, hneed⟩ := exists_of_withPath h
          cases hneed
          exact hp
    | read h' offset size =>
        dsimp only at h
        rcases read_cases t m h' offset size with
          ⟨session, heq⟩ | ⟨bytes, u, -, heq⟩ | ⟨reply, heq⟩ <;> rw [heq] at h
        · cases h
          trivial
        · cases h
        · cases h
    | release | releaseDirectory | readDirectory | destroy => cases h

/-- A call leaves the tree alone until it has what it needs. -/
theorem view_plan (k : KernelSide) (t : Handles) (m : Mount) (now : Nat) (call : KernelCall) :
    (k.plan t m now call).2.2.2.view = m.view := by
  unfold plan
  split
  · rfl
  · cases call with
    | openFile inode flags =>
        dsimp only
        rcases openFile_cases t m now inode flags with
          ⟨reply, heq⟩ | ⟨id, h', u, -, heq⟩ | ⟨h', u, b, -, heq⟩ | ⟨p, -, heq⟩ <;> rw [heq]
    | openDirectory inode =>
        dsimp only
        split <;> rfl
    | lookup | getattr | readlink | read | release | releaseDirectory | readDirectory
    | destroy => rfl

/-- A call opens no directory of the tree at once. -/
theorem areShown_plan {ids : Identities} (h : t.AreShown ids) (k : KernelSide) (m : Mount)
    (now : Nat) (call : KernelCall) : (k.plan t m now call).2.2.1.AreShown ids := by
  unfold plan
  split
  · exact h
  · cases call with
    | openFile inode flags =>
        dsimp only
        rcases openFile_cases t m now inode flags with
          ⟨reply, heq⟩ | ⟨id, h', u, hopen, heq⟩ | ⟨h', u, b, hattach, heq⟩ | ⟨p, -, heq⟩ <;>
          rw [heq]
        · exact h
        · exact h.of_directories (Handles.directories_openRequest hopen)
        · exact h.of_directories (Handles.directories_attachControl hattach)
        · exact h
    | openDirectory inode =>
        dsimp only
        split
        · exact h.insertDirectory (.inl rfl)
        · exact h
    | read h' offset size =>
        dsimp only
        rcases read_cases t m h' offset size with
          ⟨session, heq⟩ | ⟨bytes, u, hread, heq⟩ | ⟨reply, heq⟩ <;> rw [heq]
        · exact h
        · exact h.of_directories (Handles.directories_readRequest hread)
        · exact h
    | release h' => exact h.of_directories (Handles.directories_release t m.broker h')
    | releaseDirectory h' => exact h.of_subset fun _ _ hrow => Handles.get?_of_get?_erase hrow
    | lookup | getattr | readlink | readDirectory | destroy => exact h

end KernelSide
end OnDemandFs
