import OnDemandFs.Identity
import OnDemandFs.Store.Basic

/-!
# Nodes of the presented tree

What a client is told about a path: its identity, kind and attributes, and whether it exists only as
of the last request. Two entries of the root are built in and never touch the cache: the control
file, through which a helper attaches, and a link to the cache root.
-/
namespace OnDemandFs

inductive NodeKind where
  | file
  /-- A directory with a fixed listing, or whose index is not known yet. -/
  | staticDirectory
  /-- A directory that is asked for again on every access. -/
  | dynamicDirectory
  | symlink
  | control
deriving DecidableEq, Repr

def NodeKind.isDirectory : NodeKind → Bool
  | staticDirectory | dynamicDirectory => true
  | _ => false

def NodeKind.ofEntry : EntryKind → NodeKind
  | .file => .file
  | .directory => .staticDirectory

structure Attr where
  size : Nat := 0
  mtime : Int := 0
deriving DecidableEq, Repr

structure Node where
  id : NodeId
  path : Path
  kind : NodeKind
  attr : Attr
  /-- A child of a dynamic directory. -/
  volatile : Bool
deriving DecidableEq, Repr

/-- A client may remember the node without asking again. -/
def Node.isCacheable (n : Node) : Bool :=
  !n.volatile && n.kind ≠ .dynamicDirectory && n.kind ≠ .control

/-- One name of a directory listing. -/
structure Listed where
  id : NodeId
  name : String
  kind : NodeKind
deriving DecidableEq, Repr

def controlName : String := ".lazyfs-helper"
def cacheLinkName : String := ".lazyfs-cache"

/-- The built-in entries, in the order in which the root lists them. -/
def builtins : List (String × NodeKind) := [(controlName, .control), (cacheLinkName, .symlink)]

def builtin? (name : String) : Option NodeKind := (builtins.find? (·.1 = name)).map (·.2)

end OnDemandFs
