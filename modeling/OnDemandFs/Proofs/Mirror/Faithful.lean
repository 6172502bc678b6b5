import OnDemandFs.Proofs.Mirror.Rest

/-!
# A mirror is faithful

A mount over an empty cache is served by a helper that copies from an origin that does not change.
However clients and the helper take turns, what clients are told of paths, of directories and of the
content of files is what the origin has; no query is lost, and with the helper there every query is
over once the session has come to rest; and a file that was opened is opened
again without a request.
-/
namespace OnDemandFs

namespace Session
variable {s : Session} {c : String × Call} {o : Origin} {m : Mount} {calls : List (String × Call)}

/-- The operation that was begun under the label is over, or it waits. -/
def Accounts (s : Session) (c : String × Call) : Prop :=
  (∃ reply, (c.1, reply) ∈ s.ended) ∨ ∃ id resume, .forRequest c.1 c.2 id resume ∈ s.waiting

theorem Accounts.congr {t : Session} (h : s.Accounts c) (hwaiting : t.waiting = s.waiting)
    (hended : t.ended = s.ended) : t.Accounts c := by
  unfold Accounts at h ⊢
  rwa [hwaiting, hended]

theorem accounts_report (s : Session) (label : String) (call : Call) (reply : Reply) :
    (s.report label reply).Accounts (label, call) :=
  .inl ⟨reply, List.mem_cons_self⟩

theorem Accounts.report (h : s.Accounts c) (label : String) (reply : Reply) :
    (s.report label reply).Accounts c := by
  refine h.imp_left fun hover => ?_
  obtain ⟨reply', hreply⟩ := hover
  exact ⟨reply', List.mem_cons_of_mem _ hreply⟩

theorem accounts_wait (s : Session) (label : String) (call : Call) (id : RequestId)
    (resume : View → Inquiry View Answer) :
    ({ s with waiting := s.waiting ++ [.forRequest label call id resume] } : Session).Accounts
      (label, call) :=
  .inr ⟨id, resume, List.mem_append_right _ (List.mem_singleton_self _)⟩

theorem Accounts.wait (h : s.Accounts c) (w : Waiting) :
    ({ s with waiting := s.waiting ++ [w] } : Session).Accounts c := by
  refine h.imp_right fun hwaits => ?_
  obtain ⟨id, resume, hmem⟩ := hwaits
  exact ⟨id, resume, List.mem_append_left _ hmem⟩

theorem Accounts.finish (h : s.Accounts c) (call : Call) (result : Except Fault Answer) :
    (s.finish call result).2.Accounts c :=
  h.congr (s.finish_frame call result).1 (s.finish_frame call result).2.1

/-- Without a timeout no operation is lost. -/
theorem accounts_proceed {s₀ : Store} (h : Origin.Keeps o s₀ s.mount s.helper) (label : String)
    (call : Call) (i : Inquiry View Answer) : (s.proceed label call i).Accounts (label, call) := by
  cases i with
  | done v r => exact accounts_report _ label call _
  | asks v p resume =>
      have huntimed := (h.filed.askedFor p s.now).timeout.trans h.untimed
      unfold proceed
      dsimp only
      split
      · next hoverflow =>
          cases (Broker.deadline_of_timeout_none huntimed _).symm.trans hoverflow
      · exact accounts_wait _ label call _ resume

theorem Accounts.lose (h : s.Accounts c) (label : String) (call : Call) :
    (s.lose label call).Accounts c := by
  cases call with
  | kernel need => exact h.report label _
  | _ => exact h

theorem Accounts.proceed (h : s.Accounts c) (label : String) (call : Call)
    (i : Inquiry View Answer) : (s.proceed label call i).Accounts c := by
  have hview (v : View) : (s.setView v).Accounts c := h.congr rfl rfl
  cases i with
  | done v r => exact ((hview v).finish call r).report label _
  | asks v p resume =>
      have hasked : ((s.setView v).setBroker (s.mount.broker.ask p s.now).2).Accounts c :=
        h.congr rfl rfl
      unfold Session.proceed
      dsimp only
      split
      · exact hasked.lose label call
      · exact hasked.wait _

/-- What is taken out to be moved goes on, or it goes back. -/
theorem Accounts.resume {before after : List Waiting} {label : String} {call : Call}
    {id : RequestId} {resume : View → Inquiry View Answer} {s₀ : Store} (h : s.Accounts c)
    (hkeeps : Origin.Keeps o s₀ s.mount s.helper)
    (hwaiting : s.waiting = before ++ .forRequest label call id resume :: after) :
    ({ s with waiting := before ++ after }.moveWaiting (.forRequest label call id resume)).Accounts
      c := by
  have hcases : c = (label, call) ∨
      ({ s with waiting := before ++ after } : Session).Accounts c := by
    rcases h with hover | ⟨id', resume', hmem⟩
    · exact .inr (.inl hover)
    · rw [hwaiting, List.mem_append, List.mem_cons] at hmem
      rcases hmem with hmem | hmem | hmem
      · exact .inr (.inr ⟨id', resume', List.mem_append_left _ hmem⟩)
      · cases hmem
        exact .inl rfl
      · exact .inr (.inr ⟨id', resume', List.mem_append_right _ hmem⟩)
  unfold moveWaiting
  dsimp only
  rcases hcases with rfl | hother
  · split
    · exact accounts_proceed (s := { s with waiting := before ++ after }) hkeeps label call _
    · exact accounts_report _ label call _
    · exact accounts_wait { s with waiting := before ++ after } label call id resume
  · split
    · exact hother.proceed label call _
    · exact (hother.finish call _).report label _
    · exact hother.wait _

theorem Accounts.startHelper (h : s.Accounts c) (mode : HelperMode) (refuse : Fault → Reply) :
    (s.startHelper mode refuse).2.Accounts c := by
  unfold Session.startHelper
  split
  · exact h
  · exact h.congr rfl rfl

/-- A label stands for one query. -/
theorem Mirroring.labels_nodup (h : Mirroring o m calls s) : (calls.map Prod.fst).Nodup := by
  induction h with
  | start | attend | resume | serve | pass => first | exact List.nodup_nil | assumption
  | begin h hlabel hquery ih =>
      rw [List.map_cons, List.nodup_cons]
      refine ⟨fun hmem => ?_, ih⟩
      obtain ⟨c, hc, heq⟩ := List.mem_map.mp hmem
      exact hlabel c hc heq

theorem Mirroring.call_unique (h : Mirroring o m calls s) {label : String} {call call' : Call}
    (hcall : (label, call) ∈ calls) (hcall' : (label, call') ∈ calls) : call = call' := by
  have hinj := List.inj_on_of_nodup_map h.labels_nodup hcall hcall' rfl
  exact congrArg Prod.snd hinj

/-- What clients can rely on. -/
structure Faithful (o : Origin) (m : Mount) (calls : List (String × Call))
    (s : Session) : Prop where
  /-- Each reply is to a query, and it tells what the origin has. -/
  answers : ∀ row ∈ s.ended, ∃ call, (row.1, call) ∈ calls ∧
    o.Answers m.store (o.Reads m.store.disk s.mount) call row.2
  /-- No query is lost. -/
  accounts : ∀ c ∈ calls, s.Accounts c
  /-- With the helper there, every query is over when nothing moves any more. -/
  rests : s.helper.isSome = true → s.settle.waiting = []
  /-- What was opened is opened again without a request. -/
  again : ∀ label p name f, (label, .openFile p name) ∈ calls → (label, .opened f) ∈ s.ended →
    ∀ label' name', ∃ f', (s.begin label' (.openFile p name')).mount.broker = s.mount.broker ∧
      (s.begin label' (.openFile p name')).waiting = s.waiting ∧
      (s.begin label' (.openFile p name')).ended = (label', .opened f') :: s.ended

end Session

open Session

variable {o : Origin} {m : Mount} {calls : List (String × Call)} {s : Session}

theorem accounts_of_mirroring (hm : o.IsMirrorable m.store) (hnew : m.IsNew)
    (h : Mirroring o m calls s) : ∀ c ∈ calls, s.Accounts c := by
  induction h with
  | start now => nofun
  | @attend calls s h hnone refuse ih =>
      exact fun c hc => (ih c hc).startHelper _ refuse
  | @begin calls s label call h hlabel hquery ih =>
      intro c hc
      rcases List.mem_cons.mp hc with rfl | hc
      · exact accounts_proceed (Origin.isMirror_of_mirroring hm hnew h).keeps label call _
      · exact (ih c hc).proceed label call _
  | @resume calls s before after w h hwaiting ih =>
      have hmirror := Origin.isMirror_of_mirroring hm hnew h
      have hawaits :=
        hmirror.waiting w (by rw [hwaiting]; exact List.mem_append_right _ List.mem_cons_self)
      cases w with
      | forChannel => exact hawaits.elim
      | forRequest label call id resume =>
          exact fun c hc => (ih c hc).resume hmirror.keeps hwaiting
  | @serve calls s t h hserve ih =>
      obtain ⟨helper, id, rest, r, -, -, -, -, rfl⟩ :=
        (Origin.isMirror_of_mirroring hm hnew h).exists_of_serveOne hserve
      exact ih
  | pass h time ih => exact ih

/-- A session brought to rest is one in which clients and the helper took turns. -/
theorem mirroring_settle (hm : o.IsMirrorable m.store) (hnew : m.IsNew)
    (h : Mirroring o m calls s) : Mirroring o m calls s.settle :=
  (Origin.mirroring_moveAll hm hnew h (Origin.isMirror_of_mirroring hm hnew h).load_lt_budget).1

theorem waiting_settle (hm : o.IsMirrorable m.store) (hnew : m.IsNew) (h : Mirroring o m calls s)
    (hhelper : s.helper.isSome = true) : s.settle.waiting = [] := by
  have hbudget := (Origin.isMirror_of_mirroring hm hnew h).load_lt_budget
  obtain ⟨hrest, hnone, hstays⟩ := Origin.mirroring_moveAll hm hnew h hbudget
  exact (Origin.isMirror_of_mirroring hm hnew hrest).waiting_eq_nil (hstays hhelper) hnone

/-- An opened file has its body in the cache, so it is opened without a request. -/
theorem begin_openFile (hm : o.IsMirrorable m.store)
    (hmirrors : Origin.Mirrors o m.store s.mount.store)
    {p : Path} {f : Opened} (hopens : Origin.Opens o m.store p s.mount.store f)
    (label name : String) : ∃ f', (s.begin label (.openFile p name)).mount.broker = s.mount.broker ∧
      (s.begin label (.openFile p name)).waiting = s.waiting ∧
      (s.begin label (.openFile p name)).ended = (label, .opened f') :: s.ended := by
  obtain ⟨b, c, hexposed, -⟩ := hopens.body
  obtain ⟨w, f', hdone⟩ := Resolver.openFile_of_hasBody (v := s.mount.view) hm hmirrors hexposed
    hopens.copied
  have hstart : (Call.openFile p name).start s.mount.view = .done w (.ok (.opened f')) := by
    change (Resolver.openFile p s.mount.view).andThen _ = _
    rw [hdone]
    rfl
  refine ⟨f', ?_, ?_, ?_⟩ <;> unfold Session.begin <;> rw [hstart] <;> rfl

/-- A mount that was just opened remembers no index and was asked for nothing. -/
theorem Mount.isNew_openAt {d : Disk} {root : List Name} {settings : Settings}
    (hopen : Mount.openAt d root settings = .ok m) (huntimed : settings.timeout = none)
    (htree : m.store.disk.IsTree m.store.root)
    (hempty : ∀ row ∈ m.store.disk.objects, m.store.root <+: row.1 → row.1 = m.store.root) :
    m.IsNew := by
  obtain ⟨place, rfl⟩ := Mount.of_openAt hopen
  exact ⟨htree, hempty, rfl, by rw [huntimed]⟩

/-- Whatever clients ask of a mount whose cache was empty, and however they and the helper take
turns, clients can rely on what they are told. -/
theorem faithful_of_mirroring {d : Disk} {root : List Name} {settings : Settings}
    (hopen : Mount.openAt d root settings = .ok m) (huntimed : settings.timeout = none)
    (htree : m.store.disk.IsTree m.store.root)
    (hempty : ∀ row ∈ m.store.disk.objects, m.store.root <+: row.1 → row.1 = m.store.root)
    (hm : o.IsMirrorable m.store) (h : Mirroring o m calls s) :
    s.Faithful o m calls ∧ Mirroring o m calls s.settle := by
  have hnew := Mount.isNew_openAt hopen huntimed htree hempty
  have hmirror := Origin.isMirror_of_mirroring hm hnew h
  refine ⟨⟨fun row hrow => ?_, accounts_of_mirroring hm hnew h, waiting_settle hm hnew h,
    fun label p name f hcall hover label' name' => ?_⟩, mirroring_settle hm hnew h⟩
  · obtain ⟨call, hcall, hanswers⟩ := hmirror.ended row hrow
    exact ⟨call, hcall, hanswers.mono fun p f hf => hf.reads hm⟩
  · obtain ⟨call, hcall', hanswers⟩ := hmirror.ended _ hover
    cases h.call_unique hcall hcall'
    exact begin_openFile hm hmirror.keeps.mirrors hanswers label' name'

/-- An empty cache beside an origin with a directory and a file in it. -/
def cellarDisk : Disk where
  objects := [([], .directory ⟨0, 0⟩), ([[99]], .directory ⟨0, 1⟩), ([[111]], .directory ⟨0, 2⟩),
    ([[111], [100]], .directory ⟨0, 3⟩), ([[111], [100], [102]], .file 1)]
  bodies := [(1, ⟨[104, 105], ⟨5, 0⟩⟩)]
  nextFile := 2
  clock := ⟨0, 4⟩

def cellar : Origin := ⟨[[111]], []⟩

def cellarSettings : Settings := { cacheRoot := "/c", revalidateFiles := true }

def cellarMount : Mount where
  settings := cellarSettings
  view := { store := ⟨[[99]], 102400, cellarDisk, { capacity := 4096 }⟩, revalidate := true }
  broker := { timeout := none }

theorem isMirrorable_cellar : cellar.IsMirrorable cellarMount.store := by
  have hproper : cellarDisk.IsProper := ⟨by decide, by decide⟩
  have htree : cellarDisk.IsTree [[111]] := Disk.isTree_of_rows hproper (by decide) (by decide)
    (by decide) rfl (by decide)
  exact Origin.isMirrorable_of_rows rfl htree hproper ⟨by decide, by decide⟩ (by decide) (by decide)
    (by decide +kernel) (by decide)

/-- A file is opened before the helper is there, and the root is listed once it is. -/
def cellarSession : Session :=
  let s : Session := { now := 0, mount := cellarMount, origin := cellar.place }
  let s := (s.begin "open" (.openFile (.ofText "/d/f") "f")).startHelper (.copying cellar) .fault
  (s.2.settle.begin "list" (.readDirectory .root)).settle

def cellarCalls : List (String × Call) :=
  [("list", .readDirectory .root), ("open", .openFile (.ofText "/d/f") "f")]

/-- Both queries are over, and clients can rely on the replies. -/
theorem faithful_cellarSession :
    Mount.openAt cellarDisk [[99]] cellarSettings = .ok cellarMount ∧
    cellar.IsMirrorable cellarMount.store ∧
    cellarSession.ended.map Prod.fst = ["list", "open"] ∧
    cellarSession.Faithful cellar cellarMount cellarCalls := by
  have hm := isMirrorable_cellar
  have hopen : Mount.openAt cellarDisk [[99]] cellarSettings = .ok cellarMount := rfl
  have hempty : ∀ row ∈ cellarDisk.objects, [[99]] <+: row.1 → row.1 = [[99]] := by decide
  have htree : cellarDisk.IsTree [[99]] :=
    Disk.isTree_of_empty hm.proper hempty (by decide) (by decide) (by decide) rfl
  have hnew := Mount.isNew_openAt hopen rfl htree hempty
  have hopened : Mirroring cellar cellarMount [("open", .openFile (.ofText "/d/f") "f")] _ :=
    (Mirroring.start 0).begin nofun trivial
  have hserved := mirroring_settle hm hnew (hopened.attend rfl .fault)
  have hlisted : Mirroring cellar cellarMount cellarCalls cellarSession :=
    mirroring_settle hm hnew (hserved.begin (by decide) trivial)
  exact ⟨hopen, hm, by decide +kernel,
    (faithful_of_mirroring hopen rfl htree hempty hm hlisted).1⟩

/-- A cache root of 4084 bytes. -/
def deepRoot : List Name := List.replicate 15 (List.replicate 255 99) ++ [List.replicate 243 99]

/-- An empty cache so deep that there is just room for the index of its root, beside two origins of
one file each. The first file has a long name, the second that of a built-in entry. -/
def deepDisk : Disk where
  objects := (List.range 17).map (fun k => (deepRoot.take k, .directory ⟨0, 0⟩)) ++
    [([[111]], .directory ⟨0, 1⟩), ([[111], List.replicate 12 102], .file 1),
      ([[112]], .directory ⟨0, 1⟩), ([[112], Utf8.encode ".lazyfs-cache"], .file 2)]
  bodies := [(1, ⟨[104, 105], ⟨5, 0⟩⟩), (2, ⟨[104, 105], ⟨5, 0⟩⟩)]
  nextFile := 3
  clock := ⟨0, 2⟩

def deepPath : Path := .ofText "/ffffffffffff"

def shadowed : Origin := ⟨[[112]], []⟩

def deepSettings : Settings := { cacheRoot := "/c" }

def deepMount : Mount where
  settings := deepSettings
  view := { store := ⟨deepRoot, 102400, deepDisk, { capacity := 4096 }⟩ }
  broker := { timeout := none }

/-- A mirror of the origin comes to help, and then a client asks one thing of the mount. -/
def deepSession (o : Origin) (call : Call) : Session :=
  ((({ now := 0, mount := deepMount, origin := o.place } : Session).startHelper (.copying o)
    .fault).2.begin "ask" call).settle

theorem openAt_deepMount : Mount.openAt deepDisk deepRoot deepSettings = .ok deepMount := by
  have hfind : deepDisk.find true deepRoot = .ok (deepRoot, .directory ⟨0, 0⟩) := by
    decide +kernel
  have howner : ¬ deepDisk.owner deepRoot ≠ deepDisk.user := by decide +kernel
  unfold Mount.openAt Store.openAt
  simp only [hfind, if_neg howner]
  rfl

theorem isProper_deepDisk : deepDisk.IsProper :=
  ⟨by decide +kernel, by decide +kernel⟩

theorem isMirrorable_deepMount {n : UInt8} (hn : n ∈ [111, 112]) :
    (⟨[[n]], []⟩ : Origin).IsMirrorable deepMount.store := by
  have htrees : ∀ n ∈ ([111, 112] : List UInt8), (∀ m ∈ [[n]], Disk.IsCarried m) ∧
      Disk.Fits [[n]] ∧ deepDisk.WayDown [] [[n]] ∧ deepDisk.stands [[n]] = some .directory ∧
      ∀ row ∈ deepDisk.objects, [[n]] <+: row.1 → row.1 ≠ [[n]] →
        deepDisk.isDirectoryAt row.1.dropLast = true ∧ deepDisk.IsPlain row.2 := by
    decide +kernel
  have hapart : ∀ n ∈ ([111, 112] : List UInt8),
      ¬ deepRoot <+: [[n]] ∧ ¬ [[n]] <+: deepRoot := by decide +kernel
  have hsmall : ∀ n ∈ ([111, 112] : List UInt8), ∀ row ∈ deepDisk.objects, [[n]] <+: row.1 →
      (Index.listing (Origin.listing deepDisk row.1)).encode.length ≤ 102400 := by
    decide +kernel
  obtain ⟨hcarried, hfits, hway, hdir, hrows⟩ := htrees n hn
  exact Origin.isMirrorable_of_rows rfl
    (Disk.isTree_of_rows isProper_deepDisk hcarried hfits hway hdir hrows) isProper_deepDisk
    ⟨(hapart n hn).1, (hapart n hn).2⟩ (by decide +kernel) (by decide +kernel) (hsmall n hn)
    (by decide +kernel)

theorem isNew_deepMount : deepMount.IsNew := by
  have hempty : ∀ row ∈ deepDisk.objects, deepRoot <+: row.1 → row.1 = deepRoot := by
    decide +kernel
  exact Mount.isNew_openAt openAt_deepMount rfl (Disk.isTree_of_empty isProper_deepDisk hempty
    (by decide +kernel) (by decide +kernel) (by decide +kernel) (by decide +kernel)) hempty

theorem mirroring_deepSession {o : Origin} {call : Call} (hm : o.IsMirrorable deepMount.store)
    (hcall : call.IsQuery) : Mirroring o deepMount [("ask", call)] (deepSession o call) :=
  mirroring_settle hm isNew_deepMount (((Mirroring.start 0).attend rfl .fault).begin nofun hcall)

/-- So deep down the file of the one origin is not found, as its copy would have too long a path.
That of the other origin is not listed, as it has the name of a built-in entry. -/
theorem not_shown_deepSession :
    Mount.openAt deepDisk deepRoot deepSettings = .ok deepMount ∧ deepSettings.timeout = none ∧
    deepMount.IsNew ∧
    (cellar.IsMirrorable deepMount.store ∧
      Mirroring cellar deepMount [("ask", .lookup deepPath)]
        (deepSession cellar (.lookup deepPath)) ∧
      cellar.Exposes deepDisk deepPath (.file ⟨[104, 105], ⟨5, 0⟩⟩) ∧
      ("ask", .fault (.io (.system Errno.nameTooLong))) ∈
        (deepSession cellar (.lookup deepPath)).ended) ∧
    (shadowed.IsMirrorable deepMount.store ∧
      Mirroring shadowed deepMount [("ask", .readDirectory .root)]
        (deepSession shadowed (.readDirectory .root)) ∧
      IsEntryName ".lazyfs-cache" ∧
      shadowed.itemAt? deepDisk (.ofText "/.lazyfs-cache") =
        some (.file ⟨[104, 105], ⟨5, 0⟩⟩) ∧
      ("ask", .listed [⟨2, ".lazyfs-helper", .control⟩, ⟨3, ".lazyfs-cache", .symlink⟩]) ∈
        (deepSession shadowed (.readDirectory .root)).ended) := by
  have hlistable : ∀ n ∈ deepPath.names, IsEntryName n := by decide
  have hm : cellar.IsMirrorable deepMount.store := isMirrorable_deepMount (by decide)
  have hm' : shadowed.IsMirrorable deepMount.store := isMirrorable_deepMount (by decide)
  exact ⟨openAt_deepMount, rfl, isNew_deepMount,
    ⟨hm, mirroring_deepSession hm trivial, ⟨hlistable, by decide, by decide⟩, by decide +kernel⟩,
    hm', mirroring_deepSession hm' trivial, by decide, by decide, by decide +kernel⟩

end OnDemandFs
