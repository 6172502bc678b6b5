import OnDemandFs.Inquiry
import OnDemandFs.Resolve.Node

/-!
# Walking a path of the presented tree

A path is walked one segment at a time. For each the index of the directory is needed: from the
store if it is there, otherwise the directory is asked for, once, and the store is read again. Then
the index decides. A listing declares its children whether or not anything is physically there. A
dynamic directory has no listing: each child is asked for every time, and exists if a file or a
directory stands at its place afterwards.

Names that can never be entries are refused before anything is asked.
-/
namespace OnDemandFs

/-- What the walk works on: the store, the identities, and two settings of the mount. -/
structure View where
  store : Store
  identities : Identities := .initial
  revalidate : Bool := false
  /-- Time of the built-in entries. -/
  started : Int := 0

/-- A node that the walk reached, without attributes. -/
structure Resolved where
  path : Path
  kind : NodeKind
  /-- What the listing that declares the node says about it. -/
  hint : Option Entry := none
  volatile : Bool := false
deriving DecidableEq, Repr

/-- What the cache holds in the place of a directory. -/
inductive Peeked where
  | absent
  | index (index : Index)
  /-- Something that is not a directory. -/
  | foreign
deriving DecidableEq, Repr

abbrev Resolver (α : Type) := Asking View α

namespace Resolver

open Asking

/-- The index of a directory as it is cached now; nobody is asked. -/
def peek (dir : Path) (v : View) : View × Except Fault Peeked :=
  match v.store.stat dir with
  | .error fault => (v, .error fault)
  | .ok none => (v, .ok .absent)
  | .ok (some e) =>
    if e.kind = .directory then
      match v.store.readIndex dir with
      | (store, .ok (some index)) => ({ v with store }, .ok (.index index))
      | (store, .ok none) => ({ v with store }, .ok .absent)
      | (store, .error fault) => ({ v with store }, .error fault)
    else (v, .ok .foreign)

def stat (p : Path) : Resolver (Option PhysicalEntry) := fun v => .done v (v.store.stat p)

/-- Ask for a directory and take the index that is cached afterwards. -/
def askForIndex (dir : Path) : Resolver (Option Index) := do
  ask dir
  match ← attempt (peek dir) with
  | .index index => pure (some index)
  | .absent => pure none
  | .foreign => fail (.kindMismatch dir.text)

/-- The index of a directory; the directory is asked for if it is not cached. -/
def ensureIndex (dir : Path) : Resolver (Option Index) := do
  match ← attempt (peek dir) with
  | .index index => pure (some index)
  | .absent | .foreign => askForIndex dir

/-- A directory is dynamic only if its own index says so. -/
def directoryKind (dir : Path) (v : View) : View × Except Fault NodeKind :=
  match peek dir v with
  | (v, .ok (.index .dynamic)) => (v, .ok .dynamicDirectory)
  | (v, .ok _) => (v, .ok .staticDirectory)
  | (v, .error fault) => (v, .error fault)

/-- A child of a dynamic directory, which is asked for and then has to stand there. -/
def volatileChild (child : Path) : Resolver Resolved := do
  ask child
  match ← stat child with
  | some ⟨.file, _, _, _⟩ => pure { path := child, kind := .file, volatile := true }
  | some ⟨.directory, _, _, _⟩ => pure { path := child, kind := .staticDirectory, volatile := true }
  | _ => fail (.notFound child.text)

def resolveChild (dir : Path) (name : String) : Resolver Resolved := do
  let child := dir.extend name
  if name = ".." ∨ IsReserved name then fail (.notFound child.text)
  else match ← ensureIndex dir with
    | none => fail (.notFound child.text)
    | some .dynamic => volatileChild child
    | some (.listing entries) =>
      match (Index.listing entries).find? name with
      | none => fail (.notFound child.text)
      | some entry => pure { path := child, kind := .ofEntry entry.kind, hint := some entry }

def walk : Resolved → List String → Resolver Resolved
  | current, [] => pure current
  | current, name :: rest => do
    if current.kind.isDirectory then
      let next ← resolveChild current.path name
      walk next rest
    else fail (.notADirectory current.path.text)

/-- The walk from the root, past the built-in entries. -/
def walkFromRoot (p : Path) : Resolver Resolved :=
  match p.names with
  | [] => pure { path := .root, kind := .staticDirectory }
  | name :: rest =>
    match builtin? name with
    | some kind =>
      let path := Path.root.extend name
      if rest.isEmpty then pure { path, kind } else fail (.notADirectory path.text)
    | none => walk { path := .root, kind := .staticDirectory } (name :: rest)

def resolve (p : Path) : Resolver Resolved := do
  let found ← walkFromRoot p
  if found.kind.isDirectory then
    let kind ← attempt (directoryKind found.path)
    pure { found with kind }
  else pure found

end Resolver
end OnDemandFs
