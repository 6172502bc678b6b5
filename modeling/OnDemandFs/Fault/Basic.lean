import OnDemandFs.Fault.Errno

/-!
# Faults

Everything that a mount, its resolver or its broker can fail with, as a cause. `Fault.message` is
the only place where a cause becomes words, and `Fault.errno` the only one where it becomes the
number that a client of the file system sees.
-/
namespace OnDemandFs

/-- Failures of the file system below. -/
inductive IoFault where
  | system (number : Errno)
  | nulInName
  | notUtf8
  | other (text : String)
deriving DecidableEq, Repr

namespace IoFault

def message : IoFault → String
  | system n => Errno.text n ++ " (os error " ++ toString n ++ ")"
  | nulInName => "file name contained an unexpected NUL byte"
  | notUtf8 => "stream did not contain valid UTF-8"
  | other text => text

/-- Only a failure with a number of its own keeps it. -/
def errno : IoFault → Errno
  | system n => n
  | _ => Errno.io

end IoFault

inductive Fault where
  | configuration (text : String)
  | alreadyInUse
  | notFound (path : String)
  | notADirectory (path : String)
  | isADirectory (path : String)
  | notAFile (path : String)
  | mappingConflict (path : String)
  | timeout (path : String)
  | invalidIndex (path reason : String)
  | kindMismatch (path : String)
  | detached
  | io (cause : IoFault)
  | configFile
deriving DecidableEq, Repr

namespace Fault

/-- A malformed configuration file has no wording here. -/
def message? : Fault → Option String
  | configuration text => some ("configuration error: " ++ text)
  | alreadyInUse => some "control channel already in use"
  | notFound path => some ("no such entry: " ++ path)
  | notADirectory path => some ("not a directory: " ++ path)
  | isADirectory path => some ("is a directory: " ++ path)
  | notAFile path => some ("not a regular file: " ++ path)
  | mappingConflict path =>
    some ("mapping conflict on " ++ path ++ ": backing file was replaced while still mapped")
  | timeout path => some ("request for " ++ path ++ " timed out")
  | invalidIndex path reason => some ("invalid directory index at " ++ path ++ ": " ++ reason)
  | kindMismatch path => some ("cache entry for " ++ path ++ " has the wrong type")
  | detached => some "helper detached"
  | io cause => some ("I/O error: " ++ cause.message)
  | configFile => none

def errno : Fault → Errno
  | configuration _ | configFile => Errno.invalid
  | alreadyInUse | mappingConflict _ => Errno.busy
  | notFound _ => Errno.noEntry
  | notADirectory _ => Errno.notDirectory
  | isADirectory _ => Errno.isDirectory
  | notAFile _ => Errno.invalid
  | timeout _ => Errno.timedOut
  | invalidIndex .. | kindMismatch _ | detached => Errno.io
  | io cause => cause.errno

/-- True of the faults that mean "this path does not exist". -/
def isNotFound : Fault → Bool
  | notFound _ => true
  | _ => false

end Fault

/-- Why a directory cannot serve as cache root. -/
inductive RootFault where
  | inaccessible (cause : IoFault)
  | notDirectory
  | foreign (owner user : Nat)
deriving DecidableEq, Repr

def RootFault.toFault (root : String) : RootFault → Fault
  | inaccessible cause =>
    .configuration ("cache root " ++ root ++ " is not accessible: " ++ cause.message)
  | notDirectory => .configuration ("cache root " ++ root ++ " is not a directory")
  | foreign owner user =>
    .configuration ("cache root " ++ root ++ " must be owned by user " ++ toString user ++
      " (not " ++ toString owner ++ ")")

end OnDemandFs
