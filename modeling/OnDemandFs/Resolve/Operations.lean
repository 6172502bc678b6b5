import OnDemandFs.Resolve.Walk

/-!
# What clients ask of the tree

Looking up, listing, opening and reading the built-in link. Attributes of a file are the hints of
its entry until a body is cached, and those of the body from then on. A listing is only believed if
it is static; for anything else the directory is asked for again.
-/
namespace OnDemandFs

/-- A file as it was when it was opened. Reads go to this physical file for good. -/
structure Opened where
  node : Node
  file : FileId
deriving DecidableEq, Repr

namespace Resolver

open Asking

def hinted (r : Resolved) : Attr :=
  match r.hint with
  | some e => ⟨e.size.toNat, e.mtime.toInt⟩
  | none => {}

def rootTextLength (s : Store) : Nat := (Utf8.encode s.rootText).length

def attributes (r : Resolved) (v : View) : Except Fault Attr :=
  match r.kind with
  | .control => .ok ⟨0, v.started⟩
  | .symlink => .ok ⟨rootTextLength v.store, v.started⟩
  | .file => do
    match ← v.store.stat r.path with
    | some ⟨.file, size, mtime, _⟩ => return ⟨size, mtime⟩
    | _ => return hinted r
  | .staticDirectory | .dynamicDirectory => do
    match ← v.store.stat r.path with
    | some ⟨.directory, _, mtime, _⟩ => return ⟨0, mtime⟩
    | _ => return ⟨0, (hinted r).mtime⟩

/-- The number of a path, given out now if it has none. -/
def identify (p : Path) (v : View) : View × NodeId :=
  let (id, identities) := v.identities.assign p
  ({ v with identities }, id)

def lookup (p : Path) : Resolver Node := do
  let r ← resolve p
  let v ← get
  let attr ← lift (attributes r v)
  let id ← act (identify r.path)
  pure ⟨id, r.path, r.kind, attr, r.volatile⟩

/-- Give each of the built-in entries its number. -/
def listBuiltins : Resolver (List Listed) :=
  builtins.mapM fun (name, kind) => do
    let id ← act (identify (Path.root.extend name))
    pure ⟨id, name, kind⟩

/-- The names of a directory, its index being what is cached now. -/
def children (dir : Path) (index : Option Index) (v : View) :
    Except Fault (List (String × EntryKind)) :=
  match index with
  | none => if dir.isRoot then .ok [] else .error (.notFound dir.text)
  | some .dynamic => v.store.listPhysical dir
  | some (.listing entries) => .ok (entries.map fun e => (e.name, e.kind))

/-- The kind of a listed child. A directory that cannot be looked into counts as static. -/
def childKind (child : Path) (kind : EntryKind) (v : View) : View × NodeKind :=
  match kind with
  | .file => (v, .file)
  | .directory =>
    match directoryKind child v with
    | (v, .ok k) => (v, k)
    | (v, .error _) => (v, .staticDirectory)

def listChild (dir : Path) (child : String × EntryKind) : Resolver Listed := do
  let path := dir.extend child.1
  let kind ← act (childKind path child.2)
  let id ← act (identify path)
  pure ⟨id, child.1, kind⟩

/-- The index to list a directory by; anything but a static listing is asked for. -/
def indexForListing (dir : Path) : Resolver (Option Index) := do
  match ← attempt (peek dir) with
  | .index (.listing entries) => pure (some (.listing entries))
  | _ => askForIndex dir

def readDirectory (p : Path) : Resolver (List Listed) := do
  let r ← resolve p
  if r.kind.isDirectory then
    let first ← if r.path.isRoot then listBuiltins else pure []
    let index ← indexForListing r.path
    let v ← get
    let names ← lift (children r.path index v)
    let names := names.filter fun c => ¬ (r.path.isRoot ∧ (builtin? c.1).isSome)
    let rest ← names.mapM (listChild r.path)
    pure (first ++ rest)
  else fail (.notADirectory r.path.text)

/-- A cached body disagrees with what the index declares, and the mount minds. -/
def isStale (v : View) (e : PhysicalEntry) (hint : Option Entry) : Bool :=
  v.revalidate && match hint with
    | some h => h.size.toNat ≠ e.size || h.mtime.toInt ≠ e.mtime
    | none => false

def isUsable (v : View) (r : Resolved) : Option PhysicalEntry → Bool
  | some e => e.kind = .file && !isStale v e r.hint
  | none => false

/-- Make sure of a body: one that is missing or unusable is asked for, once. -/
def ensureBody (r : Resolved) : Resolver Unit := do
  let cached ← stat r.path
  let v ← get
  if isUsable v r cached then pure ()
  else do
    ask r.path
    match ← stat r.path with
    | some e => if e.kind = .file then pure () else fail (.kindMismatch r.path.text)
    | none => fail (.notFound r.path.text)

/-- Open the file at the place of a node. -/
def openBody (r : Resolved) (v : View) : View × Except Fault Opened :=
  match v.store.disk.find true (v.store.physical r.path) with
  | .error (.system 2) => (v, .error (.notFound r.path.text))
  | .error cause => (v, .error (.io cause))
  | .ok (_, .file file) =>
    let e := Store.entryOf v.store.disk (.file file)
    let (v, id) := identify r.path v
    (v, .ok ⟨⟨id, r.path, .file, ⟨e.size, e.mtime⟩, r.volatile⟩, file⟩)
  | .ok _ => (v, .error (.kindMismatch r.path.text))

def openFile (p : Path) : Resolver Opened := do
  let r ← resolve p
  match r.kind with
  | .file => do
    ensureBody r
    attempt (openBody r)
  | .staticDirectory | .dynamicDirectory => fail (.isADirectory r.path.text)
  | .symlink | .control => fail (.notAFile r.path.text)

/-- The target of the built-in link. -/
def readLink (p : Path) : Resolver String := do
  let r ← resolve p
  let v ← get
  if r.kind = .symlink then pure v.store.rootText else fail (.notAFile r.path.text)

end Resolver
end OnDemandFs
