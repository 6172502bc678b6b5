import OnDemandFs.Store.Publish

/-!
# Answering from an origin tree

A helper that copies from another directory of the disk. A directory is published with the listing
of the origin, in name order, unless it was declared dynamic; a file is published with the origin's
content and then given the origin's modification time. What the origin does not have, and what is
neither file nor directory, is answered by publishing nothing. Links of the origin are followed when
they are asked for, but a listing leaves them out, as it does names that an index cannot carry.
-/
namespace OnDemandFs

structure Origin where
  place : List Name
  dynamic : List Path := []

namespace Origin

def source (o : Origin) (p : Path) : List Name := o.place ++ p.names.map Utf8.encode

/-- The entry of a child, if a listing has one for it. -/
def entryOf (d : Disk) (child : Name × Object) : Option Entry :=
  match Utf8.decode child.1 with
  | none => none
  | some name =>
    if ¬ IsEntryName name then none
    else match child.2 with
      | .directory t => some ⟨.directory, 0, .ofInt t.seconds, name⟩
      | .file id =>
        match d.body? id with
        | some b => some ⟨.file, .ofNat b.content.length, .ofInt b.mtime.seconds, name⟩
        | none => none
      | _ => none

def listing (d : Disk) (place : Location) : List Entry :=
  ((d.children place).filterMap (entryOf d)).mergeSort fun a b => decide (a.name ≤ b.name)

/-- Answer a request for a path. -/
def answer (o : Origin) (s : Store) (p : Path) : Store.Outcome Unit :=
  match s.disk.find true (o.source p) with
  | .error (.system 2) => (s, .ok ())
  | .error cause => (s, .error (.io cause))
  | .ok (place, .directory _) =>
    if p ∈ o.dynamic then s.publishIndex p .dynamic
    else match Index.ofEntries (listing s.disk place) with
      | .ok index => s.publishIndex p index
      | .error fault => (s, .error (.invalidIndex (Store.pathText (o.source p)) fault.message))
  | .ok (_, .file id) =>
    match s.disk.body? id with
    | none => (s, .ok ())
    | some b =>
      match s.publishFile p b.content with
      | (s, .ok ()) => s.setModified p b.mtime.seconds
      | (s, .error fault) => (s, .error fault)
  | .ok _ => (s, .ok ())

end Origin
end OnDemandFs
