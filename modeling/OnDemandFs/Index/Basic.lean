/-!
# Directory indices

The index of a directory names its children with a kind and with hints on size and modification
time. A *dynamic* index names none: such a directory has to be asked for on every access. A listing
is valid when each of its names can be carried and none comes twice; `Index.ofEntries` accepts
exactly those. A listing that was not built that way may hold anything, and the codec has to cope.
-/
namespace OnDemandFs

inductive EntryKind where
  | file | directory
deriving DecidableEq, Repr

namespace EntryKind

def tag : EntryKind → Char
  | file => 'f'
  | directory => 'd'

def ofTag? : List Char → Option EntryKind
  | ['f'] => some file
  | ['d'] => some directory
  | _ => none

end EntryKind

/-- One child: what it is called, what it is, and hints that hold until its body is fetched. -/
structure Entry where
  kind : EntryKind
  size : UInt64
  mtime : Int64
  name : String
deriving DecidableEq, Repr

inductive Index where
  | dynamic
  | listing (entries : List Entry)
deriving DecidableEq, Repr

inductive IndexFault where
  | missingMarker
  | unterminated
  | malformedEntry (line : String)
  | unknownKind (kind : String)
  | invalidName (name : String)
  | duplicateName (name : String)
  | notUtf8
deriving DecidableEq, Repr

/-- The name of the index file. Names that start with it belong to the index and its staging
copies and are never entries. -/
def indexFileName : String := "..."

def IsReserved (name : String) : Prop := ['.', '.', '.'] <+: name.toList

instance (name : String) : Decidable (IsReserved name) := by unfold IsReserved; infer_instance

/-- A name that an index can carry. -/
def IsEntryName (name : String) : Prop :=
  name ≠ "" ∧ name ≠ "." ∧ name ≠ ".." ∧ ¬ IsReserved name ∧ '/' ∉ name.toList ∧
    '\x00' ∉ name.toList

instance (name : String) : Decidable (IsEntryName name) := by unfold IsEntryName; infer_instance

namespace Index

/-- The first name in order that is invalid, or that stood earlier or among `seen`. -/
def nameFault? (seen : List String) : List Entry → Option IndexFault
  | [] => none
  | e :: rest =>
    if ¬ IsEntryName e.name then some (.invalidName e.name)
    else if e.name ∈ seen then some (.duplicateName e.name)
    else nameFault? (e.name :: seen) rest

def ofEntries (entries : List Entry) : Except IndexFault Index :=
  match nameFault? [] entries with
  | some fault => .error fault
  | none => .ok (.listing entries)

def isDynamic : Index → Bool
  | dynamic => true
  | listing _ => false

/-- A dynamic index has no entries. -/
def entries : Index → List Entry
  | dynamic => []
  | listing es => es

def find? (index : Index) (name : String) : Option Entry := index.entries.find? (·.name = name)

end Index

def IndexFault.message : IndexFault → String
  | .missingMarker => "missing 'LazyFS' marker line"
  | .unterminated => "last entry is not NUL-terminated"
  | .malformedEntry line => "malformed entry '" ++ line ++ "'"
  | .unknownKind kind => "unknown entry kind '" ++ kind ++ "'"
  | .invalidName name => "invalid entry name '" ++ name ++ "'"
  | .duplicateName name => "duplicate entry name '" ++ name ++ "'"
  | .notUtf8 => "index is not valid UTF-8"

end OnDemandFs
