import OnDemandFs.Disk.Change
import OnDemandFs.Index.Cache
import OnDemandFs.Index.Codec

/-!
# The cache store

A store is a directory of the disk, its root, that repeats the presented tree: the copy of a path
lies below the root under the same names, and the index of a directory lies inside it under a
reserved name. What is visible at these places is the only truth about the tree; the remembered
indices only save work.

Paths are handed to the disk name by name. A `..` in one is therefore resolved by the disk, which
may lead out of the root: keeping such paths away is up to the callers.
-/
namespace OnDemandFs

inductive PhysicalKind where
  | file | directory | other
deriving DecidableEq, Repr

/-- What stands at a place; only files have an identity here. -/
structure PhysicalEntry where
  kind : PhysicalKind
  size : Nat
  mtime : Int
  file : Option FileId
deriving DecidableEq, Repr

/-- The entry is of the kind that an index declares. -/
def PhysicalEntry.isOf (e : PhysicalEntry) : EntryKind → Bool
  | .file => e.kind = .file
  | .directory => e.kind = .directory

structure Store where
  root : List Name
  maxIndexBytes : Nat
  disk : Disk
  indices : IndexCache

namespace Store

/-- The wording of a physical path. -/
def pathText (names : List Name) : String :=
  String.join (names.map fun n => "/" ++ Utf8.decodeLossy n)

def rootText (s : Store) : String := pathText s.root

/-- Where the copy of a path lies. -/
def physical (s : Store) (p : Path) : List Name := s.root ++ p.names.map Utf8.encode

def indexName : Name := Utf8.encode indexFileName

def indexPlace (s : Store) (dir : Path) : List Name := s.physical dir ++ [indexName]

/-- A store over an existing directory of the user's own, reached through links if need be. -/
def openAt (d : Disk) (root : List Name) (maxIndexBytes capacity : Nat) : Except Fault Store :=
  let refuse (f : RootFault) : Except Fault Store := .error (f.toFault (pathText root))
  match d.find true root with
  | .error cause => refuse (.inaccessible cause)
  | .ok (place, .directory _) =>
    if d.owner place ≠ d.user then refuse (.foreign (d.owner place) d.user)
    else .ok ⟨place, maxIndexBytes, d, { capacity }⟩
  | .ok _ => refuse .notDirectory

/-- It works on the disk as it was given, and remembers nothing yet. -/
theorem of_openAt {d : Disk} {root : List Name} {maxIndexBytes capacity : Nat} {s : Store}
    (hopen : openAt d root maxIndexBytes capacity = .ok s) :
    ∃ place, s = ⟨place, maxIndexBytes, d, { capacity }⟩ := by
  unfold openAt at hopen
  dsimp only at hopen
  split at hopen
  · cases hopen
  · next place _ _ =>
      split at hopen
      · cases hopen
      · cases hopen
        exact ⟨place, rfl⟩
  · cases hopen

def entryOf (d : Disk) : Object → PhysicalEntry
  | .file id =>
    match d.body? id with
    | some b => ⟨.file, b.content.length, b.mtime.seconds, some id⟩
    | none => ⟨.file, 0, 0, some id⟩
  | .directory t => ⟨.directory, 0, t.seconds, none⟩
  | .link target t => ⟨.other, target.length, t.seconds, none⟩
  | .pipe t => ⟨.other, 0, t.seconds, none⟩

/-- What stands at the place of a path, links not followed; nothing if a name is missing. -/
def stat (s : Store) (p : Path) : Except Fault (Option PhysicalEntry) :=
  match s.disk.find false (s.physical p) with
  | .ok (_, o) => .ok (some (entryOf s.disk o))
  | .error fault => if Disk.isMissing fault then .ok none else .error (.io fault)

def stampOf (id : FileId) (b : Body) : Stamp := ⟨id, b.content.length, b.mtime⟩

/-- The index of a directory, or nothing if there is no index file. -/
def readIndex (s : Store) (dir : Path) : Store × Except Fault (Option Index) :=
  let refuse (reason : String) : Except Fault (Option Index) :=
    .error (.invalidIndex (pathText (s.indexPlace dir)) reason)
  match s.disk.find true (s.indexPlace dir) with
  | .error fault =>
    if Disk.isMissing fault then ({ s with indices := s.indices.forget dir }, .ok none)
    else (s, .error (.io fault))
  | .ok (_, .file id) =>
    match s.disk.body? id with
    | none => (s, .ok none)
    | some body =>
      let stamp := stampOf id body
      match s.indices.lookup dir stamp with
      | (indices, some index) => ({ s with indices }, .ok (some index))
      | (indices, none) =>
        let s := { s with indices }
        if body.content.length > s.maxIndexBytes then
          (s, refuse (toString body.content.length ++ " bytes exceeds limit of " ++
            toString s.maxIndexBytes))
        else match Index.decode body.content with
          | .error fault => (s, refuse fault.message)
          | .ok index =>
            ({ s with indices := s.indices.remember dir stamp index }, .ok (some index))
  | .ok _ => (s, refuse "not a regular file")

/-- The files and directories that physically stand in a directory under names of its own, sorted
by name. Reserved names, names that are no text, and all other objects are left out. -/
def listPhysical (s : Store) (dir : Path) : Except Fault (List (String × EntryKind)) :=
  match s.disk.find true (s.physical dir) with
  | .error fault => if Disk.isMissing fault then .ok [] else .error (.io fault)
  | .ok (place, .directory _) =>
    let named := (s.disk.children place).filterMap fun (n, o) =>
      match Utf8.decode n, o with
      | some name, .file _ => if IsReserved name then none else some (name, EntryKind.file)
      | some name, .directory _ =>
        if IsReserved name then none else some (name, EntryKind.directory)
      | _, _ => none
    .ok (named.mergeSort fun a b => decide (a.1 ≤ b.1))
  | .ok _ => .ok []

end Store
end OnDemandFs
