import OnDemandFs.Store.Basic

/-!
# Publishing into the store

What a helper does to the cache. Indices and bodies are published by staging and moving, so that a
reader finds the old or the new version and never a part of one; `overwriteFile` alone changes a
body in place. All of these answer with the store, since also a failed one may have changed it.
-/
namespace OnDemandFs.Store

abbrev Outcome (α : Type) := Store × Except Fault α

/-- Run a change of the disk. -/
def change (s : Store) (act : Disk → Disk.Outcome Unit) : Outcome Unit :=
  match act s.disk with
  | (disk, r) => ({ s with disk }, r.mapError .io)

def createDirectory (s : Store) (dir : Path) : Outcome Unit :=
  s.change (·.makeDirectories (s.physical dir))

def publishIndex (s : Store) (dir : Path) (index : Index) : Outcome Unit :=
  s.change (·.publish (s.physical dir) (s.indexPlace dir) index.encode)

/-- The new body is a new file: who has the old one open or mapped keeps it. The top of the disk is
in no directory that it could be staged in. -/
def publishFile (s : Store) (p : Path) (content : Bytes) : Outcome Unit :=
  if s.physical p = [] then (s, .error (.notAFile p.text))
  else s.change (·.publish (s.physical p).dropLast (s.physical p) content)

theorem publishFile_of_eq_nil {s : Store} {p : Path} (h : s.physical p = []) (content : Bytes) :
    s.publishFile p content = (s, .error (.notAFile p.text)) := if_pos h

theorem publishFile_of_ne_nil {s : Store} {p : Path} (h : s.physical p ≠ []) (content : Bytes) :
    s.publishFile p content =
      s.change (·.publish (s.physical p).dropLast (s.physical p) content) := if_neg h

/-- The new body is the old file with other content. -/
def overwriteFile (s : Store) (p : Path) (content : Bytes) : Outcome Unit :=
  s.change (·.writeInPlace (s.physical p) content)

def setModified (s : Store) (p : Path) (seconds : Int) : Outcome Unit :=
  s.change (·.setTime (s.physical p) (.ofSeconds seconds))

/-- Remove a file or a directory with all below it. Nothing there is not a fault, and only an
actual removal forgets the remembered index. -/
def remove (s : Store) (p : Path) : Outcome Unit :=
  match s.disk.remove (s.physical p) with
  | (disk, .ok ()) => ({ s with disk, indices := s.indices.forget p }, .ok ())
  | (disk, .error fault) =>
    if Disk.isMissing fault then ({ s with disk }, .ok ())
    else ({ s with disk }, .error (.io fault))

end OnDemandFs.Store
