import OnDemandFs.Proofs.Identity.Parents
import OnDemandFs.Proofs.Traffic.Moves

/-!
# Numbers go down from the root

Calls of the kernel take turns, move by move, and may fail or be given up anywhere, while anybody
does anything to the cache. All the same, the parent of a path that has a number has one too: an
operation is begun on a path whose parent has a number, and gives numbers to that path or to what is
listed in it (`Front.Moves.stands`). So the number of the root never stands in for that of another
directory when one is opened (`Front.rooted_of_run`).
-/
namespace OnDemandFs

/-- A mount as its kernel uses it: the session, and the operations that are not over. -/
structure Front where
  session : Session
  underway : List Operation := []

/-- What everybody else may do to a session: anything to the cache, so long as names of entries stay
names, and anything to the broker; but the numbers are the kernel's, and so are open directories. -/
structure Session.Aside (s t : Session) : Prop where
  identities : t.mount.view.identities = s.mount.view.identities
  directories : ∀ h slots, t.table.directories.get? h = some slots →
    s.table.directories.get? h = some slots
  sound : s.mount.view.Sound → t.mount.view.Sound

/-- The operation that a call of the kernel begins, if it has to wait for one. -/
def KernelPlan.operations : KernelPlan → List Operation
  | .answer _ | .need (.request _) => []
  | .need wanted => [⟨.kernel wanted, (Call.kernel wanted).plan⟩]

namespace Front

/-- One move: of a call, of an operation, or of somebody else. -/
inductive Moves : Front → Front → Prop
  | call {s : Session} {ops : List Operation} {k k' : KernelSide} {call : KernelCall}
      {plan : KernelPlan} {table : Handles} {mount : Mount} (hk : s.kernel = some k)
      (hplain : call.IsPlain)
      (hplan : k.plan s.table s.mount s.now call = (plan, k', table, mount)) :
      Moves ⟨s, ops⟩ ⟨{ s with kernel := some k', table, mount }, ops ++ plan.operations⟩
  | answer {s : Session} {w : View} {before after : List Operation} {call : Call} {β : Type}
      {q : Query β} {next : β → Plan Answer} {b : β}
      (hanswer : q.answer s.mount.view = .done w (.ok b)) :
      Moves ⟨s, before ++ ⟨call, .query q next⟩ :: after⟩
        ⟨s.setView w, before ++ ⟨call, next b⟩ :: after⟩
  /-- The request for a path was closed. -/
  | resume {s : Session} {before after : List Operation} {call : Call} {p : Path}
      {next : Unit → Plan Answer} :
      Moves ⟨s, before ++ ⟨call, .query (.ask p) next⟩ :: after⟩
        ⟨s, before ++ ⟨call, next ()⟩ :: after⟩
  | finish {s : Session} {before after : List Operation} {need : KernelNeed} {answer : Answer} :
      Moves ⟨s, before ++ ⟨.kernel need, .ended (.ok answer)⟩ :: after⟩
        ⟨(s.finishKernel need answer).2, before ++ after⟩
  /-- The operation failed, or its request did, or nobody waits for it any more. -/
  | leave {s : Session} {before after : List Operation} {op : Operation} :
      Moves ⟨s, before ++ op :: after⟩ ⟨s, before ++ after⟩
  | others {s t : Session} {ops : List Operation} (haside : s.Aside t) : Moves ⟨s, ops⟩ ⟨t, ops⟩

/-- A run, from a front on. -/
inductive Run (f : Front) : Front → Prop
  | start : Run f f
  | move {g g' : Front} (h : Run f g) (hmove : Moves g g') : Run f g'

/-- What is begun was begun under numbers, and will number nothing whose parent has none. -/
structure Attends (ids : Identities) (op : Operation) : Prop where
  numbers : op.plan.Numbers (fun q => q.parent ∈ ids.shown) Answer.IsTidy
  listing : ∀ inode p, op.call = .kernel (.listing inode p) → ids.pathOf? inode = some p

/-- What a move preserves. -/
structure Stands (f : Front) : Prop where
  sound : f.session.mount.view.Sound
  rooted : f.session.mount.view.identities.IsRooted
  underway : ∀ op ∈ f.underway, Attends f.session.mount.view.identities op
  directories : f.session.table.AreShown f.session.mount.view.identities

variable {f g : Front} {ids later : Identities} {op : Operation}

theorem Attends.mono (h : Attends ids op) (hshown : ids.shown <+: later.shown) :
    Attends later op where
  numbers := h.numbers.mono (fun _ hq => hshown.subset hq) fun _ => id
  listing inode p hcall := Identities.pathOf?_eq_some_iff.mpr
    (Identities.idOf?_of_shown_prefix hshown
      (Identities.pathOf?_eq_some_iff.mp (h.listing inode p hcall)))

/-- What a call begins is begun under numbers. -/
theorem attends_of_need {need : KernelNeed} (h : need.IsRooted ids) (hids : ids.IsRooted) :
    Attends ids ⟨.kernel need, (Call.kernel need).plan⟩ where
  numbers := (Call.kernel need).numbers_plan.mono (fun _ hq => h.numbers hids hq) fun _ => id
  listing := by
    rintro inode p ⟨⟩
    exact h

theorem attends_operations {plan : KernelPlan} (hids : ids.IsRooted)
    (h : ∀ need, plan = .need need → need.IsRooted ids) :
    ∀ op ∈ plan.operations, Attends ids op := by
  intro op hop
  unfold KernelPlan.operations at hop
  split at hop
  · cases hop
  · cases hop
  · next need _ =>
      rw [List.mem_singleton.mp hop]
      exact attends_of_need (h need rfl) hids

/-- An answer numbers no more than its query asks for. -/
theorem isRooted_of_answer {β : Type} {q : Query β} {v w : View} {b : β}
    (hv : v.identities.IsRooted) (hq : ∀ p ∈ q.numbered, p.parent ∈ v.identities.shown)
    (hanswer : q.answer v = .done w (.ok b)) : w.identities.IsRooted := by
  cases q with
  | number p =>
      cases hanswer
      exact hv.assign (hq p (List.mem_singleton_self p))
  | ask => cases hanswer
  | entry | index | names | body | facts =>
      cases hanswer
      exact hv

theorem sound_of_answer {β : Type} {q : Query β} {v w : View} {b : β} (hv : v.Sound)
    (hanswer : q.answer v = .done w (.ok b)) : w.Sound ∧ q.IsSound b := by
  have hkeeps : Query.KeepsSound fun _ _ v => (v, .ok ()) := fun _ _ _ hv => hv
  have hsound := Query.sound_answer hkeeps q [] hv
  unfold Asking.run at hsound
  rw [hanswer] at hsound
  exact ⟨hsound.1, hsound.2 b rfl⟩

theorem view_finishKernel (s : Session) (need : KernelNeed) (answer : Answer) :
    (s.finishKernel need answer).2.mount.view = s.mount.view := by
  unfold Session.finishKernel
  split <;> rfl

/-- What is opened in the end is a directory whose parent has a number. -/
theorem areShown_finishKernel {s : Session} {need : KernelNeed} {answer : Answer}
    (h : s.table.AreShown s.mount.view.identities) (hids : s.mount.view.identities.IsRooted)
    (hneed : ∀ inode p, need = .listing inode p → s.mount.view.identities.pathOf? inode = some p)
    (hanswer : answer.IsTidy) :
    (s.finishKernel need answer).2.table.AreShown s.mount.view.identities := by
  unfold Session.finishKernel
  split
  · exact h
  · exact h
  · exact h
  · next inode p entries =>
      have hpath := hneed inode p rfl
      obtain ⟨up, hup⟩ := Identities.mem_shown_iff.mp
        (hids p (Identities.mem_shown_of_pathOf? hpath))
      exact h.insertDirectory (.inr ⟨inode, p, up, Handles.shows_slotsOf hpath hup hanswer⟩)
  · exact h

theorem Moves.stands (hmove : Moves f g) (h : f.Stands) : g.Stands := by
  cases hmove with
  | @call s ops k k' call plan table mount hk hplain hplan =>
      have hview : mount.view = s.mount.view := by
        rw [← KernelSide.view_plan k s.table s.mount s.now call, hplan]
      have hneed : ∀ need, plan = .need need → need.IsRooted s.mount.view.identities := by
        rintro need rfl
        exact KernelSide.isRooted_of_plan h.rooted hplain (by rw [hplan])
      have hrows := KernelSide.areShown_plan h.directories k s.mount s.now call
      rw [hplan] at hrows
      -- the call leaves the view as it is, so everything is about the same numbers
      refine ⟨?_, ?_, ?_, ?_⟩
      all_goals dsimp only
      all_goals rw [hview]
      · exact h.sound
      · exact h.rooted
      · intro op hop
        rcases List.mem_append.mp hop with hold | hnew
        · exact h.underway op hold
        · exact attends_operations h.rooted hneed op hnew
      · exact hrows
  | @answer s w before after call β q next b hanswer =>
      have hop := h.underway ⟨call, .query q next⟩ (by simp)
      have hshown : s.mount.view.identities.shown <+: w.identities.shown := by
        have hcalm := q.calmFrom_answer s.mount.view
        rw [hanswer] at hcalm
        exact hcalm.shown
      obtain ⟨hsound, hb⟩ := sound_of_answer h.sound hanswer
      have hnext : Attends s.mount.view.identities ⟨call, next b⟩ :=
        ⟨hop.numbers.2 b hb, hop.listing⟩
      have hunderway : ∀ op ∈ before ++ ⟨call, next b⟩ :: after,
          Attends s.mount.view.identities op := by
        have hall := h.underway
        simp only [List.forall_mem_append, List.forall_mem_cons] at hall ⊢
        exact ⟨hall.1, hnext, hall.2.2⟩
      exact {
        sound := hsound
        rooted := isRooted_of_answer h.rooted hop.numbers.1 hanswer
        underway := fun op hmem => (hunderway op hmem).mono hshown
        directories := h.directories.mono hshown }
  | @resume s before after call p next =>
      have hop := h.underway ⟨call, .query (.ask p) next⟩ (by simp)
      have hall := h.underway
      simp only [List.forall_mem_append, List.forall_mem_cons] at hall
      refine { h with underway := ?_ }
      simp only [List.forall_mem_append, List.forall_mem_cons]
      exact ⟨hall.1, ⟨hop.numbers.2 () trivial, hop.listing⟩, hall.2.2⟩
  | @finish s before after need answer =>
      have hop := h.underway ⟨.kernel need, .ended (.ok answer)⟩ (by simp)
      have hall := h.underway
      simp only [List.forall_mem_append, List.forall_mem_cons] at hall
      have hview := view_finishKernel s need answer
      refine ⟨?_, ?_, ?_, ?_⟩
      all_goals dsimp only
      all_goals rw [hview]
      · exact h.sound
      · exact h.rooted
      · exact List.forall_mem_append.mpr ⟨hall.1, hall.2.2⟩
      · refine areShown_finishKernel h.directories h.rooted ?_ (hop.numbers answer rfl)
        rintro inode p rfl
        exact hop.listing inode p rfl
  | @leave s before after op =>
      have hall := h.underway
      simp only [List.forall_mem_append, List.forall_mem_cons] at hall
      exact { h with underway := List.forall_mem_append.mpr ⟨hall.1, hall.2.2⟩ }
  | @others s t ops haside =>
      refine ⟨haside.sound h.sound, ?_, ?_, ?_⟩
      all_goals dsimp only
      all_goals rw [haside.identities]
      · exact h.rooted
      · exact h.underway
      · exact h.directories.of_subset haside.directories

theorem stands_of_run {s : Session} (hnew : s.mount.view.identities = .initial)
    (hclosed : s.table.directories = []) (hsound : s.mount.view.Sound) (h : Run ⟨s, []⟩ g) :
    g.Stands := by
  induction h with
  | start =>
      refine ⟨hsound, ?_, nofun, ?_⟩
      · rw [hnew]
        exact Identities.isRooted_initial
      · intro h' slots hrow
        rw [hclosed] at hrow
        cases hrow
  | move _ hmove ih => exact hmove.stands ih

/-- The numbers of a mount at any moment, and what directories that are opened say of them. -/
structure Rooted (f : Front) : Prop where
  closed : ∀ p id, f.session.mount.view.identities.idOf? p = some id →
    ∃ up, f.session.mount.view.identities.idOf? p.parent = some up
  /-- A directory that is being opened finds its parent, whatever is listed and whenever it ends. -/
  opening : ∀ op ∈ f.underway, ∀ inode p, op.call = .kernel (.listing inode p) →
    ∃ up, f.session.mount.view.identities.idOf? p.parent = some up ∧
      (up = rootId ↔ p.parent = .root) ∧
      ∀ listing, (Handles.slotsOf f.session.mount.view.identities inode p listing)[1]? =
        some ⟨up, .directory, ".."⟩
  opened : ∀ h slots, f.session.table.directories.get? h = some slots →
    slots = Handles.requestSlots ∨
      ∃ inode p up, Handles.Shows f.session.mount.view.identities inode p up slots ∧
        (up = rootId ↔ p.parent = .root) ∧
        ∀ slot ∈ slots, slot.name = ".." ↔ slot = ⟨up, .directory, ".."⟩

/-- However calls of the kernel take turns on a new mount, and whatever anybody does to the cache
meanwhile, the parent of each path that has a number has one, and it is the number that an opened
directory has for its parent. -/
theorem rooted_of_run {s : Session} (hnew : s.mount.view.identities = .initial)
    (hclosed : s.table.directories = []) (hsound : s.mount.view.Sound) (h : Run ⟨s, []⟩ g) :
    g.Rooted := by
  have hstands := stands_of_run hnew hclosed hsound h
  refine ⟨fun p id hid => ?_, fun op hop inode p hcall => ?_, fun h' slots hrow => ?_⟩
  · exact Identities.mem_shown_iff.mp (hstands.rooted p (Identities.mem_shown_iff.mpr ⟨id, hid⟩))
  · have hpath := (hstands.underway op hop).listing inode p hcall
    obtain ⟨up, hup⟩ := Identities.mem_shown_iff.mp
      (hstands.rooted p (Identities.mem_shown_of_pathOf? hpath))
    refine ⟨up, hup, Identities.eq_root_iff hup, fun listing => ?_⟩
    rw [Handles.slotsOf, hup]
    rfl
  · refine (hstands.directories h' slots hrow).imp_right ?_
    rintro ⟨inode, p, up, hshows⟩
    exact ⟨inode, p, up, hshows, Identities.eq_root_iff hshows.parent, fun slot => hshows.above_iff⟩

/-! ### Calls that need nobody -/

variable {s : Session} {ops : List Operation} {w : View} {answer : Answer}

theorem Run.trans {g' : Front} (h : Run f g) (h' : Run g g') : Run f g' := by
  induction h' with
  | start => exact h
  | move _ hmove ih => exact ih.move hmove

/-- A plan that comes to its end without any request does so in a series of moves. -/
theorem run_meaning (call : Call) (plan : Plan Answer) (s : Session)
    (h : plan.meaning s.mount.view = .done w (.ok answer)) :
    Run ⟨s, ops ++ [⟨call, plan⟩]⟩ ⟨s.setView w, ops ++ [⟨call, .ended (.ok answer)⟩]⟩ := by
  induction plan generalizing s with
  | ended r =>
      cases h
      exact .start
  | @query β q next ih =>
      have hanswered {u : View} {b : β} (hanswer : q.answer s.mount.view = .done u (.ok b)) :
          Run ⟨s, ops ++ [⟨call, .query q next⟩]⟩
            ⟨s.setView w, ops ++ [⟨call, .ended (.ok answer)⟩]⟩ := by
        have hrest : (next b).meaning u = .done w (.ok answer) := by
          rw [← h]
          change _ = (q.answer s.mount.view).andThen _
          rw [hanswer]
          rfl
        exact (Run.start.move (.answer hanswer)).trans (ih b (s.setView u) hrest)
      cases q with
      | ask p => cases h
      | entry | index | names | body | number | facts => exact hanswered rfl

/-- A call that is answered without any request. -/
theorem Run.served {k : KernelSide} {call : KernelCall} {need : KernelNeed}
    (h : Run f ⟨s, []⟩) (hk : s.kernel = some k) (hplain : call.IsPlain)
    (hneed : ∀ channel, need ≠ .request channel)
    (hplan : k.plan s.table s.mount s.now call = (.need need, k, s.table, s.mount))
    (hanswer : ((Call.kernel need).start s.mount.view).answer? = some answer) :
    Run f ⟨((s.setView ((Call.kernel need).start s.mount.view).state).finishKernel need answer).2,
      []⟩ := by
  have hbegun : Run f ⟨s, [] ++ [⟨.kernel need, (Call.kernel need).plan⟩]⟩ := by
    have hmove := h.move (.call hk hplain hplan)
    rw [← hk] at hmove
    cases need with
    | request channel => exact absurd rfl (hneed channel)
    | node | link | file | listing => exact hmove
  have hdone := Inquiry.eq_done_of_answer? hanswer
  rw [← Call.meaning_plan] at hdone ⊢
  exact (hbegun.trans (run_meaning _ _ s hdone)).move .finish

variable {k : KernelSide} {inode : Inode} {p : Path}

theorem Run.lookup (h : Run f ⟨s, []⟩) (hk : s.kernel = some k) (hlive : k.destroyed = false)
    (hinode : inode ≠ requestsInode) {name : String} (hname : IsEntryName name)
    (htree : ¬ (inode = rootId ∧ name = KernelSide.requestsName))
    (hp : s.mount.view.identities.pathOf? inode = some p) {n : Node}
    (hanswer : ((Call.kernel (.node (p.extend name) true)).start s.mount.view).answer? =
      some (.node n)) :
    Run f ⟨s.setView ((Call.kernel (.node (p.extend name) true)).start s.mount.view).state,
      []⟩ := by
  have hplain : (KernelCall.lookup inode (Utf8.encode name)).IsPlain := by
    change (47 : UInt8) ∉ Utf8.encode name
    rw [Utf8.slash_mem_encode_iff]
    exact hname.isSegment.2.2
  refine h.served hk hplain (by rintro _ ⟨⟩) ?_ hanswer
  rw [Session.plan_lookup hlive hinode hname, if_neg htree, KernelSide.withPath, hp]

theorem Run.openDirectory (h : Run f ⟨s, []⟩) (hk : s.kernel = some k) (hlive : k.destroyed = false)
    (hinode : inode ≠ requestsInode) (hp : s.mount.view.identities.pathOf? inode = some p)
    {listing : List Listed}
    (hanswer : ((Call.kernel (.listing inode p)).start s.mount.view).answer? =
      some (.listed listing)) :
    Run f ⟨((s.setView ((Call.kernel (.listing inode p)).start s.mount.view).state).listInto
      inode p listing).2, []⟩ := by
  have hplain : (KernelCall.openDirectory inode).IsPlain := trivial
  refine h.served hk hplain (by rintro _ ⟨⟩) ?_ hanswer
  rw [Session.plan_openDirectory hlive hinode, KernelSide.withPath, hp]

/-- A cache with a directory in a directory. -/
def nestedDisk : Disk where
  objects := [([], .directory ⟨0, 0⟩), ([[99]], .directory ⟨0, 1⟩),
    ([[99], Store.indexName], .file 1), ([[99], [97]], .directory ⟨0, 2⟩),
    ([[99], [97], Store.indexName], .file 2), ([[99], [97], [98]], .directory ⟨0, 3⟩),
    ([[99], [97], [98], Store.indexName], .file 3)]
  bodies := [(1, ⟨Index.encode (.listing [⟨.directory, 0, 0, "a"⟩]), ⟨5, 0⟩⟩),
    (2, ⟨Index.encode (.listing [⟨.directory, 0, 0, "b"⟩]), ⟨6, 0⟩⟩),
    (3, ⟨Index.encode (.listing []), ⟨7, 0⟩⟩)]
  nextFile := 4
  clock := ⟨0, 4⟩

def nested : Session where
  now := 0
  origin := []
  kernel := some {}
  mount := {
    settings := { cacheRoot := "/c" }
    view := { store := ⟨[[99]], 1000, nestedDisk, { capacity := 4 }⟩ }
    broker := {} }

/-- The session once the outer directory was looked up, and once the inner one was too. -/
def nestedOuter : Session :=
  nested.setView ((Call.kernel (.node (Path.root.extend "a") true)).start nested.mount.view).state

def nestedInner : Session := nestedOuter.setView
  ((Call.kernel (.node ((Path.ofText "/a").extend "b") true)).start nestedOuter.mount.view).state

/-- The inner directory has the number of the outer one for its parent, and not that of the root. -/
theorem rooted_nested : ∃ g, Run ⟨nested, []⟩ g ∧
    g.session.table.directories.get? 1 = some [⟨3, .directory, "."⟩, ⟨2, .directory, ".."⟩] ∧
    g.Rooted := by
  have houter : ((Call.kernel (.node (Path.root.extend "a") true)).start
      nested.mount.view).answer? =
        some (.node ⟨2, .ofText "/a", .staticDirectory, ⟨0, 0⟩, false⟩) := by
    decide +kernel
  have hinner : ((Call.kernel (.node ((Path.ofText "/a").extend "b") true)).start
      nestedOuter.mount.view).answer? =
        some (.node ⟨3, .ofText "/a/b", .staticDirectory, ⟨0, 0⟩, false⟩) := by
    decide +kernel
  have hlisted : ((Call.kernel (.listing 3 (.ofText "/a/b"))).start
      nestedInner.mount.view).answer? = some (.listed []) := by
    decide +kernel
  have hroot : nested.mount.view.identities.pathOf? rootId = some .root := rfl
  have ha : nestedOuter.mount.view.identities.pathOf? 2 = some (.ofText "/a") := by decide +kernel
  have hb : nestedInner.mount.view.identities.pathOf? 3 = some (.ofText "/a/b") := by
    decide +kernel
  have hrun : Run ⟨nested, []⟩ ⟨nestedOuter, []⟩ :=
    Run.start.lookup rfl rfl (by decide) (by decide) (by decide) hroot houter
  have hrun : Run ⟨nested, []⟩ ⟨nestedInner, []⟩ :=
    hrun.lookup rfl rfl (by decide) (by decide) (by decide) ha hinner
  have hrun := hrun.openDirectory rfl rfl (by decide) hb hlisted
  refine ⟨_, hrun, ?_, rooted_of_run rfl rfl ?_ hrun⟩
  · decide +kernel
  · exact ⟨IndexCache.valid_of_known_nil rfl, by decide⟩

end Front
end OnDemandFs
