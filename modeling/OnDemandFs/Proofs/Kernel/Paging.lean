import OnDemandFs.Proofs.Mapping.Usage
import OnDemandFs.Proofs.Session.Replies
import OnDemandFs.Proofs.Session.Touched

/-!
# Paging through a directory

A directory is listed once, when it is opened, and the kernel reads the listing page by page: it
starts at offset 0 and goes on at the offset that came with the last entry it accepted. The pages
are cut from what was listed then, so whatever happens between them, the kernel gets every entry
once and in order, and then an empty page: `Paged`. No page asks anybody for anything.
-/
namespace OnDemandFs

open KernelSide (fitting slotRoom)

/-! ### Pages -/

/-- The entries of a directory, each with the offset that resumes after it. -/
def numbered (slots : List Slot) : List (Nat × Slot) :=
  (slots.zipIdx 1).map fun (slot, next) => (next, slot)

/-- Where to go on after the entries that were accepted. -/
def resumeAt (got : List (Nat × Slot)) : Nat := (got.getLast?.map (·.1)).getD 0

variable {slots : List Slot} {got : List (Nat × Slot)} {h : Handle}

theorem length_numbered (slots : List Slot) : (numbered slots).length = slots.length := by
  simp [numbered]

theorem numbered_getElem? (slots : List Slot) (i : Nat) :
    (numbered slots)[i]? = slots[i]?.map fun slot => (i + 1, slot) := by
  rw [numbered, List.getElem?_map, List.getElem?_zipIdx]
  cases slots[i]? with
  | none => rfl
  | some slot => simp [Nat.add_comm]

/-- The offset of an entry counts the entries up to it. -/
theorem resumeAt_eq_length (hgot : got <+: numbered slots) : resumeAt got = got.length := by
  rcases List.eq_nil_or_concat got with rfl | ⟨front, e, rfl⟩
  · rfl
  · have hlast : (numbered slots)[front.length]? = some e := by
      obtain ⟨rest, hrest⟩ := hgot
      rw [← hrest, List.getElem?_append_left (by simp)]
      simp
    rw [numbered_getElem?] at hlast
    obtain ⟨slot, -, rfl⟩ := Option.map_eq_some_iff.mp hlast
    simp [resumeAt]

theorem prefix_fitting (size : Nat) (entries : List (Nat × Slot)) :
    fitting size entries <+: entries := by
  induction entries generalizing size with
  | nil => exact List.nil_prefix
  | cons e rest ih =>
      unfold fitting
      split
      · exact List.prefix_cons_inj e |>.mpr (ih _)
      · exact List.nil_prefix

/-- A page has an entry if there is one left and it fits. -/
theorem fitting_ne_nil {size : Nat} {entries : List (Nat × Slot)} {e : Nat × Slot}
    (he : entries.head? = some e) (hfits : slotRoom e.2 ≤ size) : fitting size entries ≠ [] := by
  cases entries with
  | nil => cases he
  | cons e' rest =>
      cases he
      unfold fitting
      rw [if_pos hfits]
      exact List.cons_ne_nil _ _

/-- After a prefix come the other entries, of which a page is a prefix. -/
theorem prefix_append_page {taken : List (Nat × Slot)} (hgot : got <+: numbered slots) {size : Nat}
    (htaken : taken <+: fitting size ((numbered slots).drop got.length)) :
    got ++ taken <+: numbered slots := by
  have hrest := htaken.trans (prefix_fitting _ _)
  obtain ⟨rest, hsplit⟩ := hgot
  rw [← hsplit, List.drop_left] at hrest
  rw [← hsplit]
  exact (List.prefix_append_right_inj got).mpr hrest

namespace Session
variable {s t : Session} {pages : List (List (Nat × Slot))}

/-! ### Runs -/

/-- A directory is opened under a handle: its listing has come, or it is the directory of requests,
which lists nothing. -/
inductive Opens (s : Session) : Handle → List Slot → Session → Prop
  | listing (label : String) (inode : Inode) (dir : Path) (view : View) (entries : List Listed) :
      Opens s (s.table.last + 1) (Handles.slotsOf view.identities inode dir entries)
        (s.proceed label (.kernel (.listing inode dir)) (.done view (.ok (.listed entries))))
  | requests (label : String) {k : KernelSide} (hk : s.kernel = some k)
      (hlive : k.destroyed = false) :
      Opens s (s.table.last + 1) Handles.requestSlots
        (s.kernelCall label (.openDirectory requestsInode))

/-- The kernel reads an opened directory page by page. Between the pages any step may be taken other
than releasing the handle or starting another kernel. Of each page it accepts as many entries as it
likes, from the first on. -/
inductive Paging (h : Handle) (s : Session) : List (List (Nat × Slot)) → Session → Prop
  | start : Paging h s [] s
  | settle {pages : List (List (Nat × Slot))} {t : Session} (hp : Paging h s pages t) :
      Paging h s pages t.settle
  | meanwhile {pages : List (List (Nat × Slot))} {t : Session} (hp : Paging h s pages t)
      (label : String) {st : Step} (hst : ¬ st.touches (.directory h)) (hall : ¬ st.touches .all) :
      Paging h s pages (t.step label st).2
  | page {pages : List (List (Nat × Slot))} {t : Session} (hp : Paging h s pages t) (label : String)
      {size : Nat} {page taken : List (Nat × Slot)}
      (hpage : t.Answers (.readDirectory h (resumeAt pages.flatten) size) (.entries page))
      (htaken : taken <+: page) :
      Paging h s (pages ++ [taken])
        (t.step label (.kernel (.readDirectory h (resumeAt pages.flatten) size))).2

/-- What a kernel has of an opened directory, and what it may rely on. -/
structure Paged (h : Handle) (slots : List Slot) (pages : List (List (Nat × Slot))) (t : Session) :
    Prop where
  /-- What it got are the first entries, each once and in order. -/
  got : pages.flatten <+: numbered slots
  /-- Wherever it goes on, it is answered with the next entries that fit. -/
  answer : ∀ k size, t.kernel = some k → k.destroyed = false →
    t.Answers (.readDirectory h (resumeAt pages.flatten) size)
      (.entries (fitting size ((numbered slots).drop pages.flatten.length)))
  /-- The answer changes nothing, and nobody is asked for it. -/
  quiet : ∀ label size reply, t.Answers (.readDirectory h (resumeAt pages.flatten) size) reply →
    t.kernelCall label (.readDirectory h (resumeAt pages.flatten) size) =
      t.report label (.kernel reply)
  /-- The step replies so, under a label that no operation waits under. -/
  told : ∀ label size reply, (∀ w ∈ t.waiting, labelOf w ≠ label) →
    t.Answers (.readDirectory h (resumeAt pages.flatten) size) reply →
      (t.step label (.kernel (.readDirectory h (resumeAt pages.flatten) size))).1.reply =
        .kernel reply
  /-- With room for one more entry, if there is one, a page is empty just if the kernel got all. -/
  ends : ∀ size page,
    (∀ e, (numbered slots)[pages.flatten.length]? = some e → slotRoom e.2 ≤ size) →
    t.Answers (.readDirectory h (resumeAt pages.flatten) size) (.entries page) →
    (page = [] ↔ pages.flatten = numbered slots)
  /-- There is at most one page for each entry. -/
  bounded : (∀ p ∈ pages, p ≠ []) → pages.length ≤ slots.length

/-- The table has the listing under the handle. -/
structure HasListing (t : Session) (h : Handle) (slots : List Slot) : Prop where
  used : h ≤ t.table.last
  row : t.table.directories.get? h = some slots

theorem HasListing.through {allowed : Touched → Prop} {u : Session} (hl : t.HasListing h slots)
    (hu : Handles.Through allowed t.table u.table) (hall : ¬ allowed .all)
    (hh : ¬ allowed (.directory h)) : u.HasListing h slots where
  used := Nat.le_trans hl.used (hu.kept hall).last
  row := ((hu.kept hall).directories h hl.used hh).trans hl.row

theorem hasListing_insertDirectory (tbl : Handles) (slots : List Slot) (s : Session)
    (hs : s.table = (tbl.insertDirectory slots).2) : s.HasListing (tbl.last + 1) slots := by
  constructor
  · rw [hs]
    exact Nat.le_refl _
  · rw [hs]
    exact Table.get?_set_self _ _ _

/-- The directory of requests is opened at once. -/
theorem plan_openRequests {k : KernelSide} (hlive : k.destroyed = false) {tbl : Handles} {m : Mount}
    {now : Nat} : k.plan tbl m now (.openDirectory requestsInode) =
      (.answer (.opened (tbl.last + 1) 0), k, (tbl.insertDirectory Handles.requestSlots).2, m) := by
  simp [KernelSide.plan, hlive, Handles.insertDirectory, Handles.allocate]

theorem hasListing_of_opens (hopen : Opens s h slots t) : t.HasListing h slots := by
  cases hopen with
  | listing label inode dir view entries =>
      exact hasListing_insertDirectory s.table _ _ rfl
  | @requests label k hk hlive =>
      refine hasListing_insertDirectory s.table _ _ ?_
      rw [kernelCall_of_plan hk (by rw [plan_openRequests hlive]), plan_openRequests hlive]

theorem plan_readDirectory (k : KernelSide) (tbl : Handles) (m : Mount) (now : Nat) (h : Handle)
    (offset : Int) (size : Nat) : k.plan tbl m now (.readDirectory h offset size) =
      (.answer (if k.destroyed then .failed Errno.io
        else KernelSide.readDirectory tbl h offset size), k, tbl, m) := by
  unfold KernelSide.plan
  split <;> rfl

theorem answers_readDirectory_iff (hrow : t.table.directories.get? h = some slots) {offset : Int}
    {size : Nat} {page : List (Nat × Slot)} :
    t.Answers (.readDirectory h offset size) (.entries page) ↔
      (∃ k, t.kernel = some k ∧ k.destroyed = false) ∧
        page = fitting size ((numbered slots).drop offset.toNat) := by
  have hread : KernelSide.readDirectory t.table h offset size =
      .entries (fitting size ((numbered slots).drop offset.toNat)) := by
    unfold KernelSide.readDirectory Handles.directoryPage?
    rw [hrow]
    rfl
  unfold Answers
  simp only [plan_readDirectory, hread]
  constructor
  · rintro ⟨k, hk, hplan⟩
    split at hplan
    · cases hplan
    · next hlive =>
        cases hplan
        exact ⟨⟨k, hk, Bool.eq_false_of_not_eq_true hlive⟩, rfl⟩
  · rintro ⟨⟨k, hk, hlive⟩, rfl⟩
    exact ⟨k, hk, by rw [hlive]; rfl⟩

/-- Whatever the answer is, nothing changes. -/
theorem kernelCall_readDirectory {offset : Int} {size : Nat} {reply : KernelReply} {label : String}
    (hanswer : t.Answers (.readDirectory h offset size) reply) :
    t.kernelCall label (.readDirectory h offset size) = t.report label (.kernel reply) := by
  obtain ⟨k, hk, hplan⟩ := hanswer
  rw [kernelCall_of_plan hk hplan, plan_readDirectory, ← hk]
  rfl

/-- All along the listing stays, and what the kernel got are its first entries. -/
theorem sound_of_paging (hs : s.HasListing h slots) (hp : Paging h s pages t) :
    t.HasListing h slots ∧ pages.flatten <+: numbered slots := by
  induction hp with
  | start => exact ⟨hs, List.nil_prefix⟩
  | settle _ ih =>
      exact ⟨ih.1.through (untouched_settle _) id id, ih.2⟩
  | meanwhile _ label hst hall ih => exact ⟨ih.1.through (through_step _ label _) hall hst, ih.2⟩
  | page _ label hpage htaken ih =>
      obtain ⟨hl, hgot⟩ := ih
      refine ⟨hl.through (through_step _ label _) id id, ?_⟩
      obtain ⟨-, rfl⟩ := (answers_readDirectory_iff hl.row).mp hpage
      rw [Int.toNat_natCast, resumeAt_eq_length hgot] at htaken
      rw [List.flatten_append, List.flatten_singleton]
      exact prefix_append_page hgot htaken

/-- From a directory that was opened a kernel gets what was listed then, each entry once and in
order, in whatever pages it likes and whatever happens between them. -/
theorem paged_of_opens (hopen : Opens s h slots t) {u : Session} (hp : Paging h t pages u) :
    (∃ label, t.ended.head? = some (label, .kernel (.opened h 0))) ∧
      (∃ inode parent rest,
        slots = ⟨inode, .directory, "."⟩ :: ⟨parent, .directory, ".."⟩ :: rest) ∧
      Paged h slots pages u := by
  obtain ⟨hl, hgot⟩ := sound_of_paging (hasListing_of_opens hopen) hp
  have hpage {size : Nat} {page : List (Nat × Slot)} :
      u.Answers (.readDirectory h (resumeAt pages.flatten) size) (.entries page) ↔ _ :=
    answers_readDirectory_iff hl.row
  simp only [Int.toNat_natCast, resumeAt_eq_length hgot] at hpage
  refine ⟨?_, ?_, hgot, fun k size hk hlive => ?_,
    fun label size reply => kernelCall_readDirectory,
    fun label size reply hlabel hanswer => reply_step_of_answers hanswer hlabel,
    fun size page hroom hanswer => ?_, fun hne => ?_⟩
  · cases hopen with
    | listing label => exact ⟨label, rfl⟩
    | @requests label k hk hlive =>
        refine ⟨label, ?_⟩
        rw [kernelCall_of_plan hk (by rw [plan_openRequests hlive]), List.head?_cons]
  · cases hopen with
    | listing => exact ⟨_, _, _, rfl⟩
    | requests => exact ⟨_, _, _, rfl⟩
  · rw [resumeAt_eq_length hgot]
    exact hpage.mpr ⟨⟨k, hk, hlive⟩, rfl⟩
  · rw [resumeAt_eq_length hgot] at hanswer
    obtain ⟨-, rfl⟩ := hpage.mp hanswer
    constructor
    · intro hempty
      refine hgot.eq_of_length_le ?_
      refine Nat.le_of_not_lt fun hmore => ?_
      have hnext : (numbered slots)[pages.flatten.length]? =
          some (numbered slots)[pages.flatten.length] :=
        List.getElem?_eq_getElem hmore
      refine fitting_ne_nil ?_ (hroom _ hnext) hempty
      rw [List.head?_drop, hnext]
    · intro hall
      rw [hall, List.drop_length]
      rfl
  · have hlength := length_le_of_flatten hgot hne
    rwa [length_numbered] at hlength

/-- A kernel over a listing with one file in it. -/
def reader : Session := { now := 0, mount := Usage.drawer.mount, origin := [], kernel := some {} }

def readerOpened : Session := reader.begin "open" (.kernel (.listing rootId .root))

def readerSlots : List Slot := [⟨1, .directory, "."⟩, ⟨1, .directory, ".."⟩,
  ⟨2, .regular, ".lazyfs-helper"⟩, ⟨3, .symlink, ".lazyfs-cache"⟩, ⟨4, .regular, "hello"⟩]

theorem opens_reader : Opens reader 1 readerSlots readerOpened := by
  have hanswer : (Call.start (.kernel (.listing rootId .root)) reader.mount.view).answer? =
      some (.listed [⟨2, ".lazyfs-helper", .control⟩, ⟨3, ".lazyfs-cache", .symlink⟩,
        ⟨4, "hello", .file⟩]) := by
    decide +kernel
  have hslots : Handles.slotsOf
      (Call.start (.kernel (.listing rootId .root)) reader.mount.view).state.identities rootId .root
      [⟨2, ".lazyfs-helper", .control⟩, ⟨3, ".lazyfs-cache", .symlink⟩, ⟨4, "hello", .file⟩] =
        readerSlots := by
    decide +kernel
  have hlisting := Opens.listing (s := reader) "open" rootId .root
    (Call.start (.kernel (.listing rootId .root)) reader.mount.view).state
    [⟨2, ".lazyfs-helper", .control⟩, ⟨3, ".lazyfs-cache", .symlink⟩, ⟨4, "hello", .file⟩]
  rw [← Inquiry.eq_done_of_answer? hanswer, hslots] at hlisting
  exact hlisting

/-- A kernel that is there gets the page that comes next, and accepts some of it. -/
theorem Paging.reads (hs : s.HasListing h slots) (hp : Paging h s pages t) (label : String)
    (hk : t.kernel = some {}) {offset size : Nat} {page taken : List (Nat × Slot)}
    (hoffset : resumeAt pages.flatten = offset)
    (hpage : fitting size ((numbered slots).drop offset) = page) (htaken : taken <+: page) :
    Paging h s (pages ++ [taken])
      (t.step label (.kernel (.readDirectory h offset size))).2 := by
  subst hoffset hpage
  refine hp.page label ?_ htaken
  exact (answers_readDirectory_iff (sound_of_paging hs hp).1.row).mpr
    ⟨⟨{}, hk, rfl⟩, by rw [Int.toNat_natCast]⟩

/-- The cache is emptied after the first page. -/
def readerFirst : Session := (readerOpened.step "1" (.kernel (.readDirectory 1 0 64))).2

def readerEmptied : Session := (readerFirst.step "remove" (.change (.remove .root))).2

def readerSecond : Session := (readerEmptied.step "2" (.kernel (.readDirectory 1 2 96))).2

def readerThird : Session := (readerSecond.step "3" (.kernel (.readDirectory 1 3 96))).2

def readerLast : Session := (readerThird.step "4" (.kernel (.readDirectory 1 5 96))).2

def readerPages : List (List (Nat × Slot)) :=
  [[(1, ⟨1, .directory, "."⟩), (2, ⟨1, .directory, ".."⟩)],
    [(3, ⟨2, .regular, ".lazyfs-helper"⟩)],
    [(4, ⟨3, .symlink, ".lazyfs-cache"⟩), (5, ⟨4, .regular, "hello"⟩)], []]

/-- Of the second page the kernel accepts one entry of two, and the fourth is empty. -/
theorem paged_of_opens_reader : Opens reader 1 readerSlots readerOpened ∧
    Paging 1 readerOpened readerPages readerLast ∧ Paged 1 readerSlots readerPages readerLast := by
  have hs := hasListing_of_opens opens_reader
  have hopened : readerOpened.kernel = some {} := by decide +kernel
  have hemptied : readerEmptied.kernel = some {} := by decide +kernel
  have hsecond : readerSecond.kernel = some {} := by decide +kernel
  have hthird : readerThird.kernel = some {} := by decide +kernel
  have hp : Paging 1 readerOpened (readerPages.take 1) readerFirst :=
    Paging.start.reads hs "1" hopened (by decide) (by decide) (List.prefix_refl _)
  have hp : Paging 1 readerOpened (readerPages.take 1) readerEmptied :=
    hp.meanwhile "remove" id id
  have hp : Paging 1 readerOpened (readerPages.take 2) readerSecond :=
    hp.reads hs "2" hemptied (by decide) rfl (by decide)
  have hp : Paging 1 readerOpened (readerPages.take 3) readerThird :=
    hp.reads hs "3" hsecond (by decide) (by decide) (List.prefix_refl _)
  have hp : Paging 1 readerOpened readerPages readerLast :=
    hp.reads hs "4" hthird (by decide) rfl List.nil_prefix
  exact ⟨opens_reader, hp, (paged_of_opens opens_reader hp).2.2⟩

end Session
end OnDemandFs
