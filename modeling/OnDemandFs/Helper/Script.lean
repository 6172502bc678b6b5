import OnDemandFs.Helper.Origin

/-!
# Scripted changes

Single changes to the store or to the disk below it, as values, so that a helper can be given a list
of them for each path it may be asked for. The first request for a path runs the first list, the
next one the next, and the last list is used from then on; a path without lists is answered by
nothing. A run stops at the first change that fails; an index that cannot be built is only reported.
-/
namespace OnDemandFs

/-- An index to be published: checked when it is built, or a listing taken as it is. -/
inductive IndexSource where
  | dynamic
  | checked (entries : List Entry)
  | unchecked (entries : List Entry)
deriving Repr

def IndexSource.build : IndexSource → Except IndexFault Index
  | dynamic => .ok .dynamic
  | checked es => Index.ofEntries es
  | unchecked es => .ok (.listing es)

inductive Change where
  | publishIndex (path : Path) (index : IndexSource)
  | publishFile (path : Path) (content : Bytes)
  | overwriteFile (path : Path) (content : Bytes)
  | setModified (path : Path) (seconds : Int)
  | remove (path : Path)
  | createDirectory (path : Path)
  | copyFromOrigin (path : Path) (dynamic : List Path)
  | fail
  /-- Names below the cache root, taken as they come: in place, or by a new file moved over. -/
  | writeBelow (names : List Name) (content : Bytes) (seconds : Option Int)
  | replaceBelow (names : List Name) (content : Bytes)
  | makeDirectoriesBelow (names : List Name)
  | linkBelow (names : List Name) (target : Bytes)
  | pipeBelow (names : List Name)
deriving Repr

inductive ChangeResult where
  | done
  | refusedIndex (fault : IndexFault)
  | failed (fault : Fault)
deriving DecidableEq, Repr

namespace Change

def ofOutcome (r : Store.Outcome Unit) : Store × ChangeResult :=
  match r with
  | (s, .ok ()) => (s, .done)
  | (s, .error fault) => (s, .failed fault)

/-- Write in place, then set the time if one is given. -/
def writeTimed (path : List Name) (content : Bytes) (seconds : Option Int) (d : Disk) :
    Disk.Outcome Unit :=
  match d.writeInPlace path content, seconds with
  | (d, .ok ()), some t => d.setTime path (.ofSeconds t)
  | r, _ => r

/-- Write a new file and move it over whatever file stands at the path. -/
def replaceFile (path : List Name) (content : Bytes) (d : Disk) : Disk.Outcome Unit :=
  match d.spot true path.dropLast with
  | .error fault => (d, .error fault)
  | .ok _ => d.publish path.dropLast path content

def perform (origin : List Name) (s : Store) : Change → Store × ChangeResult
  | publishIndex p source =>
    match source.build with
    | .error fault => (s, .refusedIndex fault)
    | .ok index => ofOutcome (s.publishIndex p index)
  | publishFile p content => ofOutcome (s.publishFile p content)
  | overwriteFile p content => ofOutcome (s.overwriteFile p content)
  | setModified p seconds => ofOutcome (s.setModified p seconds)
  | remove p => ofOutcome (s.remove p)
  | createDirectory p => ofOutcome (s.createDirectory p)
  | copyFromOrigin p dynamic => ofOutcome ((Origin.mk origin dynamic).answer s p)
  | fail => (s, .failed (.io (.other "scripted failure")))
  | writeBelow names content seconds =>
    ofOutcome (s.change (writeTimed (s.root ++ names) content seconds))
  | replaceBelow names content => ofOutcome (s.change (replaceFile (s.root ++ names) content))
  | makeDirectoriesBelow names => ofOutcome (s.change (·.makeDirectories (s.root ++ names)))
  | linkBelow names target => ofOutcome (s.change (·.makeSpecial (s.root ++ names) (.link target)))
  | pipeBelow names => ofOutcome (s.change (·.makeSpecial (s.root ++ names) .pipe))

/-- Perform changes in order until one fails. -/
def performAll (origin : List Name) : Store → List Change → Store × Except Fault Unit
  | s, [] => (s, .ok ())
  | s, c :: rest =>
    match c.perform origin s with
    | (s, .failed fault) => (s, .error fault)
    | (s, _) => performAll origin s rest

end Change

/-- The lists of changes for each path, and what was asked for so far. -/
structure Script where
  origin : List Name
  runs : Table String (List (List Change))
  seen : List String := []
deriving Repr

namespace Script

/-- The changes for the next request of a path. -/
def runFor (s : Script) (path : String) : List Change :=
  match s.runs.get? path with
  | none => []
  | some lists =>
    match lists[s.seen.count path]? with
    | some run => run
    | none => lists.getLast?.getD []

def handle (s : Script) (store : Store) (path : String) : Script × Store × Except Fault Unit :=
  let (store, r) := Change.performAll s.origin store (s.runFor path)
  ({ s with seen := s.seen ++ [path] }, store, r)

end Script
end OnDemandFs
