import OnDemandFs.Proofs.Kernel.Paging
import OnDemandFs.Proofs.Resolve.Absences

/-!
# Listing and looking up through the kernel

The kernel opens a directory under its inode and reads what it lists, and it looks names up under
that inode. Listings come from the tree alone, but some look-ups are answered before the tree is
looked into. While the cache stays as it is, a name that was listed is seen all the same, as the
entry that was listed, but for one: an entry of the root that has the name of the directory of
requests. It is listed, and what is looked up is that directory, or nothing if no helper is there.
-/
namespace OnDemandFs

open KernelSide (requestsName)

variable {helper helper' : Helper View}

namespace Session
variable {s t u v : Session} {inode : Inode} {h : Handle} {slot : Slot} {name : String}

/-! ### How calls end -/

/-- What the kernel is told in the end, a helper doing as told for each path that is asked for. -/
def served (helper : Helper View) (s : Session) (need : KernelNeed) : KernelReply × Session :=
  let ending := (Call.start (.kernel need)).run helper [] s.mount.view
  match ending.result with
  | .ok answer => (s.setView ending.state).finishKernel need answer
  | .error fault => (.failed fault.errno, s.setView ending.state)

/-- How a call of the kernel ends. Without a kernel there is none, and calls that wait for a channel
are left out. -/
def concluded? (helper : Helper View) (s : Session) (call : KernelCall) :
    Option (KernelReply × Session) :=
  match s.kernel with
  | none => none
  | some k =>
    let (plan, k, table, mount) := k.plan s.table s.mount s.now call
    let s := { s with kernel := some k, table, mount }
    match plan with
    | .answer reply => some (reply, s)
    | .need (.request _) => none
    | .need need => some (s.served helper need)

/-- If nobody has to be asked, a session ends the call at once, and so. -/
theorem begin_of_silent {need : KernelNeed}
    (hsilent : ((Call.start (.kernel need)).run helper [] s.mount.view).asked = [])
    (label : String) : s.begin label (.kernel need) =
      (s.served helper need).2.report label (.kernel (s.served helper need).1) := by
  have hdone := Inquiry.eq_done_of_asked_eq_nil hsilent
  unfold begin served
  rw [hdone]
  unfold Asking.run
  rw [hdone]
  dsimp only [Inquiry.run, proceed]
  cases ((Call.start (.kernel need) s.mount.view).run helper []).result <;> rfl

theorem concluded?_of_answer {k k' : KernelSide} {call : KernelCall} {reply : KernelReply}
    {table : Handles} {mount : Mount} (hk : s.kernel = some k)
    (hplan : k.plan s.table s.mount s.now call = (.answer reply, k', table, mount)) :
    s.concluded? helper call = some (reply, { s with kernel := some k', table, mount }) := by
  unfold concluded?
  rw [hk]
  dsimp only
  rw [hplan]

/-- A call that has to wait for something leaves the kernel and its handles as they
are until then. -/
theorem concluded?_of_need {k : KernelSide} {call : KernelCall} {need : KernelNeed}
    (hk : s.kernel = some k) (hneed : ∀ channel, need ≠ .request channel)
    (hplan : k.plan s.table s.mount s.now call = (.need need, k, s.table, s.mount)) :
    s.concluded? helper call = some (s.served helper need) := by
  unfold concluded?
  rw [hk]
  dsimp only
  rw [hplan, ← hk]
  cases need with
  | request channel => exact absurd rfl (hneed channel)
  | node | link | file | listing => rfl

theorem kernel_of_concluded? {call : KernelCall} {ending : KernelReply × Session}
    (h : s.concluded? helper call = some ending) : ∃ k, s.kernel = some k := by
  cases hk : s.kernel with
  | none =>
      unfold concluded? at h
      rw [hk] at h
      cases h
  | some k => exact ⟨k, rfl⟩

theorem plan_of_destroyed {k : KernelSide} (hgone : k.destroyed = true) {tbl : Handles} {m : Mount}
    {now : Nat} {call : KernelCall} :
    k.plan tbl m now call = (.answer (.failed Errno.io), k, tbl, m) := by
  unfold KernelSide.plan
  rw [if_pos hgone]

theorem served_listing (helper : Helper View) (s : Session) (inode : Inode) (p : Path) :
    s.served helper (.listing inode p) =
      match (Resolver.readDirectory p).run helper [] s.mount.view with
      | ⟨_, w, .ok entries⟩ =>
        (.opened (s.table.last + 1) 0, ((s.setView w).listInto inode p entries).2)
      | ⟨_, w, .error fault⟩ => (.failed fault.errno, s.setView w) := by
  unfold served Call.start
  rw [Asking.run_bind]
  rcases (Resolver.readDirectory p).run helper [] s.mount.view with
    ⟨asked, w, fault | entries⟩ <;> rfl

theorem served_node (helper : Helper View) (s : Session) (p : Path) :
    s.served helper (.node p true) =
      match (Resolver.lookup p).run helper [] s.mount.view with
      | ⟨_, w, .ok node⟩ =>
        (.entry (.ofNode node) (node.entryTtl (s.kernel.getD {}).ttl), s.setView w)
      | ⟨_, w, .error fault⟩ => (.failed fault.errno, s.setView w) := by
  unfold served Call.start
  rw [Asking.run_bind]
  rcases (Resolver.lookup p).run helper [] s.mount.view with ⟨asked, w, fault | node⟩ <;> rfl

/-! ### Opening a directory -/

theorem plan_openDirectory {k : KernelSide} (hlive : k.destroyed = false)
    (hinode : inode ≠ requestsInode) {tbl : Handles} {m : Mount} {now : Nat} :
    k.plan tbl m now (.openDirectory inode) =
      (KernelSide.withPath m.view.identities inode fun p => .need (.listing inode p),
      k, tbl, m) := by
  simp only [KernelSide.plan, hlive, hinode, Bool.false_eq_true, if_false]

/-- The kernel has a directory of the tree open, as it was listed at the end of the call. -/
structure HasOpened (helper : Helper View) (s : Session) (inode : Inode) (h : Handle) (t : Session)
    (p : Path) (entries : List Listed) : Prop where
  inode_ne : inode ≠ requestsInode
  path : s.mount.view.identities.pathOf? inode = some p
  listed : ((Resolver.readDirectory p).run helper [] s.mount.view).result = .ok entries
  view : t.mount.view = ((Resolver.readDirectory p).run helper [] s.mount.view).state
  row : t.table.directories.get? h =
    some (Handles.slotsOf t.mount.view.identities inode p entries)

theorem hasOpened_of_concluded? {flags : Nat}
    (hopen : s.concluded? helper (.openDirectory inode) = some (.opened h flags, t)) :
    t.table.directories.get? h = some Handles.requestSlots ∨
      ∃ p entries, HasOpened helper s inode h t p entries := by
  obtain ⟨k, hk⟩ := kernel_of_concluded? hopen
  cases hgone : k.destroyed with
  | true =>
      rw [concluded?_of_answer hk (plan_of_destroyed hgone)] at hopen
      cases hopen
  | false =>
      by_cases hinode : inode = requestsInode
      · subst hinode
        rw [concluded?_of_answer hk (plan_openRequests hgone)] at hopen
        cases hopen
        exact .inl (hasListing_insertDirectory s.table _ _ rfl).row
      have hplan : k.plan s.table s.mount s.now (.openDirectory inode) = _ :=
        plan_openDirectory hgone hinode
      unfold KernelSide.withPath at hplan
      cases hp : s.mount.view.identities.pathOf? inode with
      | none =>
          rw [hp] at hplan
          rw [concluded?_of_answer hk hplan] at hopen
          cases hopen
      | some p =>
          rw [hp] at hplan
          rw [concluded?_of_need hk (by rintro _ ⟨⟩) hplan, served_listing] at hopen
          rcases hrun : (Resolver.readDirectory p).run helper [] s.mount.view with
            ⟨asked, w, fault | entries⟩
          · rw [hrun] at hopen
            cases hopen
          · rw [hrun] at hopen
            cases hopen
            refine .inr ⟨p, entries, hinode, hp, by rw [hrun], by rw [hrun]; rfl, ?_⟩
            exact (hasListing_insertDirectory s.table _ _ rfl).row

/-- Besides itself and its parent, a directory has in it what was listed. -/
theorem mem_slotsOf_iff {ids : Identities} {p : Path} {entries : List Listed}
    (hdots : slot.name ≠ "." ∧ slot.name ≠ "..") : slot ∈ Handles.slotsOf ids inode p entries ↔
      ∃ e ∈ entries, slot = ⟨e.id, .ofKind e.kind, e.name⟩ := by
  have hne {inode : Inode} {dots : String} (hne : slot.name ≠ dots) :
      slot ≠ ⟨inode, .directory, dots⟩ := fun heq => hne (heq ▸ rfl)
  unfold Handles.slotsOf
  simp only [List.mem_cons, hne hdots.1, hne hdots.2, false_or, List.mem_map, eq_comm]

theorem not_mem_requestSlots (hdots : slot.name ≠ "." ∧ slot.name ≠ "..") :
    slot ∉ Handles.requestSlots := by
  intro hslot
  rcases List.mem_pair.mp hslot with rfl | rfl
  · exact hdots.1 rfl
  · exact hdots.2 rfl

/-- What a page shows of a directory is in it. -/
theorem mem_of_page {offset : Int} {size : Nat} {page : List (Nat × Slot)}
    (hpage : s.Answers (.readDirectory h offset size) (.entries page)) {next : Nat}
    (hslot : (next, slot) ∈ page) : ∃ slots, s.table.directories.get? h = some slots ∧
      slot ∈ slots := by
  cases hrow : s.table.directories.get? h with
  | none =>
      obtain ⟨k, -, hplan⟩ := hpage
      simp only [plan_readDirectory, KernelSide.readDirectory, Handles.directoryPage?,
        hrow] at hplan
      split at hplan <;> cases hplan
  | some slots =>
      obtain ⟨-, rfl⟩ := (answers_readDirectory_iff hrow).mp hpage
      refine ⟨slots, rfl, ?_⟩
      have hmem := List.mem_of_mem_drop ((prefix_fitting _ _).subset hslot)
      obtain ⟨⟨slot', next'⟩, hzip, heq⟩ := List.mem_map.mp hmem
      cases heq
      exact (List.mem_zipIdx hzip).2.2 ▸ List.getElem_mem _

/-! ### Looking a name up -/

/-- What comes before the tree, of names that an index can carry. -/
theorem plan_lookup {k : KernelSide} (hlive : k.destroyed = false) (hinode : inode ≠ requestsInode)
    (hname : IsEntryName name) {tbl : Handles} {m : Mount} {now : Nat} :
    k.plan tbl m now (.lookup inode (Utf8.encode name)) =
      (if inode = rootId ∧ name = requestsName then
        if tbl.isAttached then .answer (.entry (.requestsDirectory m.view.started) 0)
        else KernelSide.noEntry
      else KernelSide.withPath m.view.identities inode fun p => .need (.node (p.extend name) true),
      k, tbl, m) := by
  have hnul : 0 ∉ Utf8.encode name := by
    rw [Utf8.nul_mem_encode_iff]
    exact hname.2.2.2.2.2
  have hwhole : (Utf8.encode name).takeWhile (· ≠ 0) = Utf8.encode name := by
    rw [List.takeWhile_eq_self_iff]
    intro b hb
    exact decide_eq_true fun hzero => hnul (hzero ▸ hb)
  simp only [KernelSide.plan, hlive, Bool.false_eq_true, if_false]
  rw [KernelSide.lookup, hwhole, Utf8.decode_encode]
  dsimp only
  rw [if_neg hinode]

/-- The reply to looking up what was listed: it is there, as it was listed, or it cannot be seen. -/
inductive Meets (slot : Slot) : KernelReply → Prop
  | entry {attr : FileAttr} (ttl : Nat) (hinode : attr.inode = slot.inode)
      (htype : attr.type = slot.type) : Meets slot (.entry attr ttl)
  | failed {errno : Errno} (herrno : errno ≠ Errno.noEntry) : Meets slot (.failed errno)

/-- The directory of requests goes by the name of what was listed in the root. -/
structure Masked (s : Session) (inode : Inode) (slot : Slot) (reply : KernelReply) : Prop where
  root : inode = rootId
  name : slot.name = requestsName
  reply : reply = if s.table.isAttached
    then .entry (.requestsDirectory s.mount.view.started) 0 else .failed Errno.noEntry

/-- Looking up a name of the tree is answered by the tree, but for the name of the directory of
requests. -/
theorem concluded?_lookup {k : KernelSide} (hk : s.kernel = some k)
    (hinode : inode ≠ requestsInode) (hname : IsEntryName slot.name) {p : Path}
    (hp : s.mount.view.identities.pathOf? inode = some p)
    (hseen : Seen (fun node => node.id = slot.inode ∧ FileType.ofKind node.kind = slot.type)
      ((Resolver.lookup (p.extend slot.name)).run helper [] s.mount.view).result) :
    ∃ reply t, s.concluded? helper (.lookup inode (Utf8.encode slot.name)) = some (reply, t) ∧
      (Meets slot reply ∨ Masked s inode slot reply) := by
  cases hgone : k.destroyed with
  | true =>
      exact ⟨_, _, concluded?_of_answer hk (plan_of_destroyed hgone),
        .inl (.failed Errno.io_ne_noEntry)⟩
  | false =>
      have hplan : k.plan s.table s.mount s.now (.lookup inode (Utf8.encode slot.name)) = _ :=
        plan_lookup hgone hinode hname
      by_cases hmasked : inode = rootId ∧ slot.name = requestsName
      · rw [if_pos hmasked, KernelSide.noEntry, ← apply_ite KernelPlan.answer] at hplan
        exact ⟨_, _, concluded?_of_answer hk hplan, .inr ⟨hmasked.1, hmasked.2, rfl⟩⟩
      · rw [if_neg hmasked, KernelSide.withPath, hp] at hplan
        rw [concluded?_of_need hk (by rintro _ ⟨⟩) hplan, served_node]
        revert hseen
        rcases (Resolver.lookup (p.extend slot.name)).run helper [] s.mount.view with
          ⟨asked, w, fault | node⟩
        · exact fun hseen => ⟨_, _, rfl, .inl (.failed hseen)⟩
        · exact fun hseen => ⟨_, _, rfl, .inl (.entry _ hseen.1 hseen.2)⟩

/-- What the kernel reads of an opened directory it can look up as it was listed, while the cache
stays as it is, unless the directory of requests goes by that name. -/
theorem lookup_meets_listing (hquiet : helper.IsQuiet) (hquiet' : helper'.IsQuiet)
    (hs : s.mount.view.IsLawful) {flags : Nat}
    (hopen : s.concluded? helper (.openDirectory inode) = some (.opened h flags, t))
    (hrow : u.table.directories.get? h = t.table.directories.get? h) {offset : Int} {size : Nat}
    {page : List (Nat × Slot)} (hpage : u.Answers (.readDirectory h offset size) (.entries page))
    {next : Nat} (hslot : (next, slot) ∈ page) (hdots : slot.name ≠ "." ∧ slot.name ≠ "..")
    (hcalm : t.mount.view.Calm v.mount.view) (hkernel : v.kernel.isSome = true) :
    ∃ reply w, v.concluded? helper' (.lookup inode (Utf8.encode slot.name)) = some (reply, w) ∧
      (Meets slot reply ∨ Masked v inode slot reply) := by
  obtain ⟨slots, hslots, hslot⟩ := mem_of_page hpage hslot
  rw [hrow] at hslots
  obtain ⟨k, hk⟩ := Option.isSome_iff_exists.mp hkernel
  rcases hasOpened_of_concluded? hopen with hrequests | ⟨p, entries, hopened⟩
  · cases hrequests.symm.trans hslots
    exact absurd hslot (not_mem_requestSlots hdots)
  cases hopened.row.symm.trans hslots
  obtain ⟨e, he, rfl⟩ := (mem_slotsOf_iff hdots).mp hslot
  rw [hopened.view] at hcalm
  obtain ⟨hname, hseen⟩ := Resolver.seen_of_listed hquiet hquiet' hs hopened.listed hcalm he
  have hcalm : s.mount.view.Calm v.mount.view :=
    (Resolver.readDirectory_of_quiet hquiet hopened.listed).1.trans hcalm
  have hp : v.mount.view.identities.pathOf? inode = some p :=
    Identities.pathOf?_eq_some_iff.mpr (Identities.idOf?_of_shown_prefix hcalm.shown
      (Identities.pathOf?_eq_some_iff.mp hopened.path))
  exact concluded?_lookup hk hopened.inode_ne hname hp
    (hseen.mono fun node hnode => ⟨hnode.1, congrArg FileType.ofKind hnode.2⟩)

/-- A root that declares a file, and one under the name of the directory of requests. -/
def maskedDisk : Disk where
  objects := [([], .directory ⟨0, 0⟩), ([[99]], .directory ⟨0, 1⟩),
    ([[99], Store.indexName], .file 1)]
  bodies := [(1,
    ⟨Index.encode (.listing [⟨.file, 1, 7, requestsName⟩, ⟨.file, 1, 7, "a"⟩]), ⟨5, 0⟩⟩)]
  nextFile := 2
  clock := ⟨0, 2⟩

def masked : Session where
  now := 0
  origin := []
  kernel := some {}
  mount := {
    settings := { cacheRoot := "/c" }
    view := { store := ⟨[[99]], 1000, maskedDisk, { capacity := 4 }⟩ }
    broker := {} }

/-- No helper is there, and requests run out of time. -/
def absent : Helper View := fun _ p v => (v, .error (.timeout p.text))

theorem isQuiet_absent : absent.IsQuiet :=
  ⟨fun _ _ v => .refl v, fun h => ⟨_, (Except.error.inj h).symm⟩⟩

def maskedSlots : List Slot := [⟨1, .directory, "."⟩, ⟨1, .directory, ".."⟩,
  ⟨2, .regular, ".lazyfs-helper"⟩, ⟨3, .symlink, ".lazyfs-cache"⟩,
  ⟨4, .regular, ".lazyfs-requests"⟩, ⟨5, .regular, "a"⟩]

/-- The session once the root is open. -/
def maskedOpened : Session := (masked.served absent (.listing rootId .root)).2

theorem isLawful_masked : masked.mount.view.IsLawful :=
  ⟨IndexCache.valid_of_known_nil rfl, by decide, by decide⟩

theorem concluded?_masked : masked.concluded? absent (.openDirectory rootId) =
    some (.opened 1 0, maskedOpened) := by
  have hread : ((Resolver.readDirectory .root).run absent [] masked.mount.view).result =
      .ok [⟨2, controlName, .control⟩, ⟨3, cacheLinkName, .symlink⟩, ⟨4, requestsName, .file⟩,
        ⟨5, "a", .file⟩] := by
    decide +kernel
  have hreply : (masked.served absent (.listing rootId .root)).1 = .opened 1 0 := by
    rw [served_listing]
    revert hread
    rcases (Resolver.readDirectory .root).run absent [] masked.mount.view with
      ⟨asked, w, fault | entries⟩
    · nofun
    · exact fun _ => rfl
  have hserved : masked.served absent (.listing rootId .root) = (.opened 1 0, maskedOpened) := by
    rw [← hreply, maskedOpened]
  have hk : masked.kernel = some {} := rfl
  have hroot : masked.mount.view.identities.pathOf? rootId = some .root := rfl
  have hplan : KernelSide.plan {} masked.table masked.mount masked.now (.openDirectory rootId) =
      (.need (.listing rootId .root), {}, masked.table, masked.mount) := by
    rw [plan_openDirectory rfl (by decide), KernelSide.withPath, hroot]
  rw [concluded?_of_need hk (by rintro _ ⟨⟩) hplan, hserved]

theorem answers_masked : maskedOpened.Answers (.readDirectory 1 0 4096)
    (.entries (numbered maskedSlots)) := by
  have hrow : maskedOpened.table.directories.get? 1 = some maskedSlots := by decide +kernel
  have hk : maskedOpened.kernel = some {} := by decide +kernel
  exact (answers_readDirectory_iff hrow).mpr ⟨⟨{}, hk, rfl⟩, by decide +kernel⟩

/-- The file is looked up as it was listed. -/
theorem lookup_meets_listing_masked : absent.IsQuiet ∧ masked.mount.view.IsLawful ∧
    masked.concluded? absent (.openDirectory rootId) = some (.opened 1 0, maskedOpened) ∧
    maskedOpened.Answers (.readDirectory 1 0 4096) (.entries (numbered maskedSlots)) ∧
    (6, ⟨5, .regular, "a"⟩) ∈ numbered maskedSlots ∧
    ∃ reply w, maskedOpened.concluded? absent (.lookup rootId (Utf8.encode "a")) = some (reply, w) ∧
      Meets ⟨5, .regular, "a"⟩ reply := by
  have hslot : (6, ⟨5, .regular, "a"⟩) ∈ numbered maskedSlots := by decide
  refine ⟨isQuiet_absent, isLawful_masked, concluded?_masked, answers_masked, hslot, ?_⟩
  obtain ⟨reply, w, hreply, hmeets⟩ := lookup_meets_listing isQuiet_absent isQuiet_absent
    isLawful_masked concluded?_masked rfl answers_masked hslot (by decide) (.refl _)
    (by decide +kernel)
  exact ⟨reply, w, hreply, hmeets.resolve_right fun hmasked => absurd hmasked.name (by decide)⟩

/-- Without a helper, a name that was listed is not found. -/
theorem not_lookup_meets_listing : ¬ ∀ (helper : Helper View) (s t w : Session) (inode : Inode)
    (h : Handle) (flags : Nat) (offset : Int) (size : Nat) (page : List (Nat × Slot)) (next : Nat)
    (slot : Slot) (reply : KernelReply), helper.IsQuiet → s.mount.view.IsLawful →
    s.concluded? helper (.openDirectory inode) = some (.opened h flags, t) →
    t.Answers (.readDirectory h offset size) (.entries page) → (next, slot) ∈ page →
    slot.name ≠ "." ∧ slot.name ≠ ".." →
    t.concluded? helper (.lookup inode (Utf8.encode slot.name)) = some (reply, w) →
    Meets slot reply := by
  intro hmeets
  have hk : maskedOpened.kernel = some {} := by decide +kernel
  have hdetached : maskedOpened.table.isAttached = false := by decide +kernel
  have hplan : KernelSide.plan {} maskedOpened.table maskedOpened.mount maskedOpened.now
      (.lookup rootId (Utf8.encode requestsName)) = _ :=
    plan_lookup rfl (by decide) (by decide)
  rw [if_pos ⟨rfl, rfl⟩, hdetached] at hplan
  have hmissed := hmeets absent masked maskedOpened _ rootId 1 0 0 4096 (numbered maskedSlots) 5
    ⟨4, .regular, requestsName⟩ _ isQuiet_absent isLawful_masked concluded?_masked answers_masked
    (by decide) (by decide) (concluded?_of_answer hk hplan)
  cases hmissed with
  | failed herrno => exact herrno rfl

end Session
end OnDemandFs
