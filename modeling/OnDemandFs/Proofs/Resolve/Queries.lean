import OnDemandFs.Proofs.Resolve.Requests
import OnDemandFs.Proofs.Resolve.Entries

/-!
# Operations as plans of queries

An operation gets at the cache, at the helper and at the numbers through a handful of queries, and
each query names the path that it is about. A `Plan` is an operation of which nothing is known but
its queries and how it goes on from their answers: a tree, and not a function of the view. So the
paths that it touches can be read off a run, which `Plan.touched` does.

There is a plan for each operation, step for step, and `Plan.meaning` of the plan is the operation.
-/
namespace OnDemandFs

/-- The settings of a mount that the attributes of nodes depend on. -/
structure Facts where
  rootText : String
  revalidate : Bool
  started : Int

/-- A body that the mount may use for a file. -/
def Facts.isUsable (m : Facts) (r : Resolved) : Option PhysicalEntry → Bool
  | some e => e.kind = .file && !(m.revalidate && match r.hint with
    | some h => h.size.toNat ≠ e.size || h.mtime.toInt ≠ e.mtime
    | none => false)
  | none => false

def View.facts (v : View) : Facts := ⟨v.store.rootText, v.revalidate, v.started⟩

/-- What opening the place of a path comes to; nothing if it is no file. -/
def Store.opened (s : Store) (p : Path) : Except Fault (Option (FileId × PhysicalEntry)) :=
  match s.disk.find true (s.physical p) with
  | .error (.system 2) => .error (.notFound p.text)
  | .error cause => .error (.io cause)
  | .ok (_, .file file) => .ok (some (file, entryOf s.disk (.file file)))
  | .ok _ => .ok none

/-- A query, by the type of its answers. -/
inductive Query : Type → Type where
  /-- Ask the helper for a path. -/
  | ask (p : Path) : Query Unit
  /-- Look at the place of a path. -/
  | entry (p : Path) : Query (Except Fault (Option PhysicalEntry))
  /-- Read the index of a directory. -/
  | index (dir : Path) : Query (Except Fault (Option Index))
  /-- List the place of a directory. -/
  | names (dir : Path) : Query (Except Fault (List (String × EntryKind)))
  /-- Open the file in the place of a path. -/
  | body (p : Path) : Query (Except Fault (Option (FileId × PhysicalEntry)))
  /-- The number of a path. -/
  | number (p : Path) : Query NodeId
  | facts : Query Facts

namespace Query
variable {β : Type}

/-- The paths that a query hands to the helper or to the store. -/
def paths : Query β → List Path
  | ask p | entry p | index p | names p | body p => [p]
  | number _ | facts => []

def answer : Query β → Resolver β
  | ask p => Asking.ask p
  | entry p => Asking.act fun v => (v, v.store.stat p)
  | index dir => Asking.act fun v =>
      ({ v with store := (v.store.readIndex dir).1 }, (v.store.readIndex dir).2)
  | names dir => Asking.act fun v => (v, v.store.listPhysical dir)
  | body p => Asking.act fun v => (v, v.store.opened p)
  | number p => Asking.act (Resolver.identify p)
  | facts => Asking.act fun v => (v, v.facts)

end Query

/-- An operation as its queries: it is over, or goes on from the answer to the next one. -/
inductive Plan (α : Type) : Type 1 where
  | ended (result : Except Fault α)
  | query {β : Type} (q : Query β) (next : β → Plan α)

namespace Plan
variable {α β γ : Type}

def andThen (f : α → Plan β) : Plan α → Plan β
  | ended (.ok a) => f a
  | ended (.error fault) => ended (.error fault)
  | query q next => query q fun b => andThen f (next b)

instance : Monad Plan where
  pure a := ended (.ok a)
  bind plan f := plan.andThen f

theorem andThen_ended (plan : Plan α) : (plan.andThen fun a => ended (.ok a)) = plan := by
  induction plan with
  | ended r => cases r <;> rfl
  | query q next ih =>
      simp only [andThen]
      congr 1
      funext b
      exact ih b

theorem andThen_assoc (f : α → Plan β) (g : β → Plan γ) (plan : Plan α) :
    (plan.andThen f).andThen g = plan.andThen fun a => (f a).andThen g := by
  induction plan with
  | ended r => cases r <;> rfl
  | query q next ih =>
      simp only [andThen]
      congr 1
      funext b
      exact ih b

instance : LawfulMonad Plan :=
  LawfulMonad.mk' Plan (fun plan => andThen_ended plan) (fun _ _ => rfl)
    (fun plan f g => andThen_assoc f g plan)

/-- The operation that a plan describes. -/
def meaning : Plan α → Resolver α
  | ended r => Asking.lift r
  | query q next => q.answer >>= fun b => (next b).meaning

/-- The paths that a run of the plan hands to the helper or to the store, in order. -/
def touched (helper : Helper View) : Plan α → List Path → View → List Path
  | ended _, _, _ => []
  | query q next, asked, v => q.paths ++
    match q.answer.run helper asked v with
    | ⟨asked', w, .ok b⟩ => (next b).touched helper asked' w
    | ⟨_, _, .error _⟩ => []

theorem meaning_andThen (f : α → Plan β) (plan : Plan α) :
    (plan.andThen f).meaning = plan.meaning >>= fun a => (f a).meaning := by
  induction plan with
  | ended r => cases r <;> rfl
  | query q next ih =>
      simp only [andThen, meaning, bind_assoc]
      congr 1
      funext b
      exact ih b

@[simp] theorem meaning_bind (plan : Plan α) (f : α → Plan β) :
    (plan >>= f).meaning = plan.meaning >>= fun a => (f a).meaning := meaning_andThen f plan

@[simp] theorem meaning_pure (a : α) : (pure a : Plan α).meaning = pure a := rfl

@[simp] theorem meaning_ended (r : Except Fault α) : (ended r).meaning = Asking.lift r := rfl

theorem meaning_mapM {f : α → Plan β} {g : α → Resolver β} (h : ∀ a, (f a).meaning = g a)
    (l : List α) : (l.mapM f).meaning = l.mapM g := by
  induction l with
  | nil => rfl
  | cons a l ih =>
      rw [List.mapM_cons, List.mapM_cons]
      simp only [meaning_bind, meaning_pure, h, ih]

/-- What is asked for is touched. -/
theorem asked_subset_touched (helper : Helper View) (plan : Plan α) (asked : List Path) (v : View) :
    ∃ more, (plan.meaning.run helper asked v).asked = asked ++ more ∧
      ∀ q ∈ more, q ∈ plan.touched helper asked v := by
  induction plan generalizing asked v with
  | ended r => exact ⟨[], (List.append_nil _).symm, nofun⟩
  | @query β q next ih =>
      have hq : ∃ first, (q.answer.run helper asked v).asked = asked ++ first ∧
          ∀ p ∈ first, p ∈ q.paths := by
        cases q with
        | ask p => exact ⟨[p], by rw [Query.answer, Asking.run_ask], fun _ h => h⟩
        | entry | index | names | body | number | facts =>
            exact ⟨[], (List.append_nil _).symm, nofun⟩
      obtain ⟨first, hfirst, hpaths⟩ := hq
      rw [meaning, Asking.run_bind, touched]
      revert hfirst
      rcases q.answer.run helper asked v with ⟨asked', w, fault | b⟩
      · rintro rfl
        exact ⟨first, rfl, fun p hp => List.mem_append_left _ (hpaths p hp)⟩
      · rintro rfl
        obtain ⟨more, hmore, htouched⟩ := ih b (asked ++ first) w
        refine ⟨first ++ more, by rw [← List.append_assoc]; exact hmore, fun p hp => ?_⟩
        rcases List.mem_append.mp hp with hp | hp
        · exact List.mem_append_left _ (hpaths p hp)
        · exact List.mem_append_right _ (htouched p hp)

/-! ### The queries as plans -/

def ask (p : Path) : Plan Unit := query (.ask p) pure
def entry (p : Path) : Plan (Except Fault (Option PhysicalEntry)) := query (.entry p) pure
def index (dir : Path) : Plan (Except Fault (Option Index)) := query (.index dir) pure
def names (dir : Path) : Plan (Except Fault (List (String × EntryKind))) := query (.names dir) pure
def body (p : Path) : Plan (Except Fault (Option (FileId × PhysicalEntry))) := query (.body p) pure
def number (p : Path) : Plan NodeId := query (.number p) pure
def facts : Plan Facts := query .facts pure
def fail (fault : Fault) : Plan α := ended (.error fault)

@[simp] theorem meaning_query (q : Query β) : (query q pure : Plan β).meaning = q.answer :=
  bind_pure q.answer

@[simp] theorem meaning_fail (fault : Fault) : (fail fault : Plan α).meaning = Asking.fail fault :=
  rfl

/-! ### The walk -/

/-- What is held in the place of a directory. -/
def held (dir : Path) : Plan (Except Fault Peeked) := do
  match ← entry dir with
  | .error fault => pure (.error fault)
  | .ok none => pure (.ok .absent)
  | .ok (some e) =>
    if e.kind = .directory then
      let told ← index dir
      pure (Peeked.of told (some e))
    else pure (.ok .foreign)

def peek (dir : Path) : Plan Peeked := do ended (← held dir)

def askForIndex (dir : Path) : Plan (Option Index) := do
  ask dir
  match ← peek dir with
  | .index index => pure (some index)
  | .absent => pure none
  | .foreign => fail (.kindMismatch dir.text)

def ensureIndex (dir : Path) : Plan (Option Index) := do
  match ← peek dir with
  | .index index => pure (some index)
  | .absent | .foreign => askForIndex dir

def directoryKind (dir : Path) : Plan (Except Fault NodeKind) := do
  let held ← held dir
  pure (held >>= fun h => .ok h.kind)

def volatileChild (child : Path) : Plan Resolved := do
  ask child
  let found ← entry child
  ended (found >>= Store.standing child)

def childIn (dir : Path) (name : String) : Option Index → Plan Resolved
  | none => fail (.notFound (dir.extend name).text)
  | some .dynamic => volatileChild (dir.extend name)
  | some (.listing entries) =>
    match (Index.listing entries).find? name with
    | none => fail (.notFound (dir.extend name).text)
    | some e => pure { path := dir.extend name, kind := .ofEntry e.kind, hint := some e }

def resolveChild (dir : Path) (name : String) : Plan Resolved :=
  if name = ".." ∨ IsReserved name then fail (.notFound (dir.extend name).text)
  else do
    let index ← ensureIndex dir
    childIn dir name index

def walk : Resolved → List String → Plan Resolved
  | current, [] => pure current
  | current, name :: rest => do
    if current.kind.isDirectory then
      let next ← resolveChild current.path name
      walk next rest
    else fail (.notADirectory current.path.text)

def walkFromRoot (p : Path) : Plan Resolved :=
  match p.names with
  | [] => pure { path := .root, kind := .staticDirectory }
  | name :: rest =>
    match builtin? name with
    | some kind =>
      let path := Path.root.extend name
      if rest.isEmpty then pure { path, kind } else fail (.notADirectory path.text)
    | none => walk { path := .root, kind := .staticDirectory } (name :: rest)

def resolve (p : Path) : Plan Resolved := do
  let found ← walkFromRoot p
  if found.kind.isDirectory then
    let kind ← directoryKind found.path
    let kind ← ended kind
    pure { found with kind }
  else pure found

/-! ### The operations -/

def attributes (r : Resolved) : Plan Attr := do
  match r.kind with
  | .control => do
    let m ← facts
    pure ⟨0, m.started⟩
  | .symlink => do
    let m ← facts
    pure ⟨(Utf8.encode m.rootText).length, m.started⟩
  | .file => do
    match ← ended (← entry r.path) with
    | some ⟨.file, size, mtime, _⟩ => pure ⟨size, mtime⟩
    | _ => pure (Resolver.hinted r)
  | .staticDirectory | .dynamicDirectory => do
    match ← ended (← entry r.path) with
    | some ⟨.directory, _, mtime, _⟩ => pure ⟨0, mtime⟩
    | _ => pure ⟨0, (Resolver.hinted r).mtime⟩

def lookup (p : Path) : Plan Node := do
  let r ← resolve p
  let attr ← attributes r
  let id ← number r.path
  pure ⟨id, r.path, r.kind, attr, r.volatile⟩

def listBuiltins : Plan (List Listed) :=
  builtins.mapM fun (name, kind) => do
    let id ← number (Path.root.extend name)
    pure ⟨id, name, kind⟩

def children (dir : Path) : Option Index → Plan (List (String × EntryKind))
  | none => if dir.isRoot then pure [] else fail (.notFound dir.text)
  | some .dynamic => do ended (← names dir)
  | some (.listing entries) => pure (entries.map fun e => (e.name, e.kind))

def childKind (child : Path) : EntryKind → Plan NodeKind
  | .file => pure .file
  | .directory => do
    match ← directoryKind child with
    | .ok k => pure k
    | .error _ => pure .staticDirectory

def listChild (dir : Path) (child : String × EntryKind) : Plan Listed := do
  let path := dir.extend child.1
  let kind ← childKind path child.2
  let id ← number path
  pure ⟨id, child.1, kind⟩

def indexForListing (dir : Path) : Plan (Option Index) := do
  match ← peek dir with
  | .index (.listing entries) => pure (some (.listing entries))
  | _ => askForIndex dir

/-- The entries that come first in the listing of a directory. -/
def firstEntries (dir : Path) : Plan (List Listed) :=
  if dir.isRoot then listBuiltins else pure []

def entriesOf (r : Resolved) : Plan (List Listed) := do
  let first ← firstEntries r.path
  let index ← indexForListing r.path
  let names ← children r.path index
  let names := names.filter fun c => ¬ (r.path.isRoot ∧ (builtin? c.1).isSome)
  let rest ← names.mapM (listChild r.path)
  pure (first ++ rest)

def readDirectory (p : Path) : Plan (List Listed) := do
  let r ← resolve p
  if r.kind.isDirectory then entriesOf r else fail (.notADirectory r.path.text)

def ensureBody (r : Resolved) : Plan Unit := do
  let cached ← ended (← entry r.path)
  let m ← facts
  if m.isUsable r cached then pure ()
  else do
    ask r.path
    match ← ended (← entry r.path) with
    | some e => if e.kind = .file then pure () else fail (.kindMismatch r.path.text)
    | none => fail (.notFound r.path.text)

/-- Open the file in the place of a node. -/
def openBody (r : Resolved) : Plan Opened := do
  match ← ended (← body r.path) with
  | some (file, e) =>
    let id ← number r.path
    pure ⟨⟨id, r.path, .file, ⟨e.size, e.mtime⟩, r.volatile⟩, file⟩
  | none => fail (.kindMismatch r.path.text)

def openFile (p : Path) : Plan Opened := do
  let r ← resolve p
  match r.kind with
  | .file => do
    ensureBody r
    openBody r
  | .staticDirectory | .dynamicDirectory => fail (.isADirectory r.path.text)
  | .symlink | .control => fail (.notAFile r.path.text)

def readLink (p : Path) : Plan String := do
  let r ← resolve p
  let m ← facts
  if r.kind = .symlink then pure m.rootText else fail (.notAFile r.path.text)

/-! ### Each plan means its operation -/

theorem meaning_ite {c : Prop} [Decidable c] (a b : Plan α) :
    (if c then a else b).meaning = if c then a.meaning else b.meaning := by
  split <;> rfl

theorem act_bind {σ : Type} (f : σ → σ × α) (g : α → Asking σ β) (s : σ) :
    (Asking.act f >>= g) s = g (f s).2 (f s).1 := rfl

theorem get_bind {σ : Type} (g : σ → Asking σ β) (s : σ) : (Asking.get >>= g) s = g s s := rfl

theorem attempt_eq {σ : Type} (f : σ → σ × Except Fault α) :
    (Asking.attempt f : Asking σ α) = Asking.act f >>= Asking.lift := rfl

theorem meaning_held (dir : Path) : (held dir).meaning = Asking.act (Resolver.peek dir) := by
  funext v
  unfold held Asking.act Resolver.peek
  rw [meaning_bind, entry, meaning_query, Query.answer, act_bind]
  rcases v.store.stat dir with fault | _ | e
  · rfl
  · rfl
  · dsimp only
    by_cases hdir : e.kind = .directory
    · simp only [hdir, if_true]
      rw [meaning_bind, index, meaning_query, Query.answer, act_bind]
      unfold Peeked.of
      simp only [hdir, if_true]
      rcases v.store.readIndex dir with ⟨store, fault | _ | index⟩ <;> rfl
    · simp only [hdir, if_false]
      rfl

theorem meaning_peek (dir : Path) : (peek dir).meaning = Asking.attempt (Resolver.peek dir) := by
  rw [peek, meaning_bind, meaning_held]
  rfl

theorem meaning_askForIndex (dir : Path) :
    (askForIndex dir).meaning = Resolver.askForIndex dir := by
  unfold askForIndex Resolver.askForIndex
  simp only [meaning_bind, ask, meaning_query, meaning_peek]
  congr 1
  funext _
  congr 1
  funext held
  cases held <;> rfl

theorem meaning_ensureIndex (dir : Path) :
    (ensureIndex dir).meaning = Resolver.ensureIndex dir := by
  unfold ensureIndex Resolver.ensureIndex
  rw [meaning_bind, meaning_peek]
  congr 1
  funext held
  cases held with
  | index index => rfl
  | absent => exact meaning_askForIndex dir
  | foreign => exact meaning_askForIndex dir

theorem meaning_directoryKind (dir : Path) :
    (directoryKind dir).meaning = Asking.act (Resolver.directoryKind dir) := by
  funext v
  unfold directoryKind Asking.act
  rw [meaning_bind, meaning_held, act_bind, Resolver.directoryKind_eq, Resolver.peek_snd]
  rfl

theorem meaning_entry (p : Path) :
    (entry p >>= fun found => ended found).meaning = Resolver.stat p := by
  rw [meaning_bind, entry, meaning_query]
  rfl

theorem meaning_volatileChild (child : Path) :
    (volatileChild child).meaning = Resolver.volatileChild child := by
  unfold volatileChild Resolver.volatileChild
  simp only [meaning_bind, ask, entry, meaning_query, meaning_ended]
  congr 1
  funext _ v
  change Asking.lift (v.store.stat child >>= Store.standing child) v =
    (Inquiry.done v (v.store.stat child)).andThen _
  rcases v.store.stat child with fault | _ | ⟨kind, _, _, _⟩
  · rfl
  · rfl
  · cases kind <;> rfl

theorem meaning_childIn (dir : Path) (name : String) (index : Option Index) :
    (childIn dir name index).meaning = Resolver.childIn dir name index := by
  rcases index with _ | _ | entries
  · rfl
  · exact meaning_volatileChild _
  · unfold childIn Resolver.childIn
    dsimp only
    cases (Index.listing entries).find? name <;> rfl

theorem meaning_resolveChild (dir : Path) (name : String) :
    (resolveChild dir name).meaning = Resolver.resolveChild dir name := by
  unfold resolveChild
  by_cases hname : name = ".." ∨ IsReserved name
  · rw [Resolver.resolveChild_eq_fail hname, if_pos hname]
    rfl
  · rw [Resolver.resolveChild_eq hname, if_neg hname, meaning_bind, meaning_ensureIndex]
    simp only [meaning_childIn]

theorem meaning_walk (x : Resolved) (names : List String) :
    (walk x names).meaning = Resolver.walk x names := by
  induction names generalizing x with
  | nil => rfl
  | cons n rest ih =>
      unfold walk Resolver.walk
      rw [meaning_ite, meaning_bind, meaning_resolveChild]
      simp only [ih]
      rfl

theorem meaning_walkFromRoot (p : Path) :
    (walkFromRoot p).meaning = Resolver.walkFromRoot p := by
  unfold walkFromRoot Resolver.walkFromRoot
  cases p.names with
  | nil => rfl
  | cons n rest =>
      dsimp only
      cases builtin? n with
      | some kind => exact meaning_ite _ _
      | none => exact meaning_walk _ _

theorem meaning_resolve (p : Path) : (resolve p).meaning = Resolver.resolve p := by
  unfold resolve Resolver.resolve
  rw [meaning_bind, meaning_walkFromRoot]
  congr 1
  funext x
  simp only [meaning_ite, meaning_bind, meaning_directoryKind, meaning_ended, meaning_pure,
    attempt_eq, bind_assoc]

theorem meaning_attributes (r : Resolved) : (attributes r).meaning =
    Asking.get >>= fun v => Asking.lift (Resolver.attributes r v) := by
  funext v
  change (attributes r).meaning v = .done v (Resolver.attributes r v)
  unfold attributes Resolver.attributes
  cases r.kind with
  | file | staticDirectory | dynamicDirectory =>
      simp only [meaning_bind, entry, meaning_query, meaning_ended]
      change (Inquiry.done v (v.store.stat r.path)).andThen _ = _
      rcases v.store.stat r.path with fault | _ | ⟨kind, _, _, _⟩
      · rfl
      · rfl
      · cases kind <;> rfl
  | symlink | control => rfl

theorem meaning_number (p : Path) : (number p).meaning = Asking.act (Resolver.identify p) :=
  meaning_query _

theorem meaning_lookup (p : Path) : (lookup p).meaning = Resolver.lookup p := by
  unfold lookup Resolver.lookup
  simp only [meaning_bind, meaning_resolve, meaning_attributes, meaning_number, bind_assoc]
  rfl

theorem meaning_listBuiltins : listBuiltins.meaning = Resolver.listBuiltins :=
  meaning_mapM (fun b => by rw [meaning_bind, meaning_number]; rfl) builtins

theorem meaning_children (dir : Path) (index : Option Index) : (children dir index).meaning =
    Asking.get >>= fun v => Asking.lift (Resolver.children dir index v) := by
  rcases index with _ | _ | entries
  · funext v
    change (children dir none).meaning v = .done v (Resolver.children dir none v)
    unfold children Resolver.children
    dsimp only
    cases dir.isRoot <;> rfl
  · rw [children, meaning_bind, names, meaning_query]
    rfl
  · rfl

theorem meaning_childKind (child : Path) (kind : EntryKind) :
    (childKind child kind).meaning = Asking.act (Resolver.childKind child kind) := by
  cases kind with
  | file => rfl
  | directory =>
      funext v
      rw [childKind, meaning_bind, meaning_directoryKind, act_bind]
      unfold Asking.act Resolver.childKind
      dsimp only
      rcases Resolver.directoryKind child v with ⟨w, fault | k⟩ <;> rfl

theorem meaning_listChild (dir : Path) (c : String × EntryKind) :
    (listChild dir c).meaning = Resolver.listChild dir c := by
  unfold listChild Resolver.listChild
  simp only [meaning_bind, meaning_childKind, meaning_number]
  rfl

theorem meaning_indexForListing (dir : Path) :
    (indexForListing dir).meaning = Resolver.indexForListing dir := by
  unfold indexForListing Resolver.indexForListing
  rw [meaning_bind, meaning_peek]
  congr 1
  funext held
  rcases held with _ | (_ | entries) | _
  · exact meaning_askForIndex dir
  · exact meaning_askForIndex dir
  · rfl
  · exact meaning_askForIndex dir

theorem meaning_entriesOf (r : Resolved) :
    (entriesOf r).meaning = Resolver.entriesOf r := by
  unfold entriesOf firstEntries Resolver.entriesOf Resolver.entriesAfter
  simp only [meaning_bind, meaning_ite, meaning_listBuiltins, meaning_pure, meaning_indexForListing,
    meaning_children, meaning_mapM (meaning_listChild r.path), bind_assoc]

theorem meaning_readDirectory (p : Path) :
    (readDirectory p).meaning = Resolver.readDirectory p := by
  unfold readDirectory
  rw [Resolver.readDirectory_eq, meaning_bind, meaning_resolve]
  simp only [meaning_ite, meaning_entriesOf]
  rfl

theorem isUsable_facts (v : View) (r : Resolved) (found : Option PhysicalEntry) :
    v.facts.isUsable r found = Resolver.isUsable v r found := by
  cases found <;> rfl

theorem meaning_ensureBody (r : Resolved) : (ensureBody r).meaning = Resolver.ensureBody r := by
  have hentry (p : Path) (f : Option PhysicalEntry → Plan Unit) :
      (entry p >>= fun found => ended found >>= f).meaning =
        Resolver.stat p >>= fun found => (f found).meaning := by
    rw [← bind_assoc, meaning_bind, meaning_entry]
  unfold ensureBody Resolver.ensureBody
  rw [hentry]
  congr 1
  funext cached v
  rw [meaning_bind, facts, meaning_query, Query.answer, act_bind]
  dsimp only
  rw [isUsable_facts, meaning_ite, meaning_bind, ask, meaning_query, hentry, get_bind]
  cases Resolver.isUsable v r cached with
  | true => rfl
  | false =>
      refine congrFun (congrArg (Asking.ask r.path >>= ·) ?_) v
      funext _
      congr 1
      funext found
      rcases found with _ | e
      · rfl
      · exact meaning_ite _ _

theorem meaning_openBody (r : Resolved) :
    (openBody r).meaning = Asking.attempt (Resolver.openBody r) := by
  funext v
  rw [openBody, meaning_bind, body, meaning_query, Query.answer, act_bind]
  unfold Asking.attempt Resolver.openBody Store.opened
  rcases v.store.disk.find true (v.store.physical r.path) with cause | ⟨q, o⟩
  · by_cases hmissing : cause = .system 2
    · rw [hmissing]
      rfl
    · simp only
      rfl
  · cases o <;> rfl

theorem meaning_openFile (p : Path) : (openFile p).meaning = Resolver.openFile p := by
  unfold openFile Resolver.openFile
  rw [meaning_bind, meaning_resolve]
  congr 1
  funext r
  cases r.kind with
  | file =>
      dsimp only
      rw [meaning_bind, meaning_ensureBody, meaning_openBody]
  | staticDirectory | dynamicDirectory | symlink | control => rfl

theorem meaning_readLink (p : Path) : (readLink p).meaning = Resolver.readLink p := by
  unfold readLink Resolver.readLink
  rw [meaning_bind, meaning_resolve]
  congr 1
  funext r v
  rw [meaning_bind, facts, meaning_query, Query.answer, act_bind, meaning_ite]
  rfl

end Plan
end OnDemandFs
