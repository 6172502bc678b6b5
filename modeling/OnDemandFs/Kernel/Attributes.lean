import OnDemandFs.Resolve.Node

/-!
# Attributes for the kernel

How a node looks to the kernel: inode, size in bytes and in blocks of 512, permission bits and link
count. Everything is read-only and belongs to the mounting user. The four times of a node are always
the same, so there is one. Times that the kernel may remember an entry are milliseconds, and zero
for a node that has to be asked for on every access.

Requests that were delivered through the control file have inodes of their own, from `requestBase`
on; the directory that holds them has the one below.
-/
namespace OnDemandFs

abbrev Inode := Nat

inductive FileType where
  | regular | directory | symlink
deriving DecidableEq, Repr

def FileType.ofKind : NodeKind → FileType
  | .file | .control => .regular
  | .staticDirectory | .dynamicDirectory => .directory
  | .symlink => .symlink

structure FileAttr where
  inode : Inode
  size : Nat
  blocks : Nat
  mtime : Int
  type : FileType
  permissions : Nat
  links : Nat
  device : Nat := 0
  blockSize : Nat := 4096
  flags : Nat := 0
deriving DecidableEq, Repr

def blockBytes : Nat := 512

namespace FileAttr

def build (inode : Inode) (type : FileType) (permissions size : Nat) (mtime : Int) : FileAttr where
  inode := inode
  size := size
  blocks := (size + (blockBytes - 1)) / blockBytes
  mtime := mtime
  type := type
  permissions := permissions
  links := if type = .directory then 2 else 1

def permissionsOf : NodeKind → Nat
  | .file => 0o444
  | .staticDirectory | .dynamicDirectory => 0o555
  | .symlink => 0o777
  | .control => 0o400

def ofNode (n : Node) : FileAttr :=
  build n.id (.ofKind n.kind) (permissionsOf n.kind) n.attr.size n.attr.mtime

end FileAttr

/-- How long the kernel may remember a node, given how long it may remember anything. -/
def Node.entryTtl (n : Node) (ttl : Nat) : Nat := if n.isCacheable then ttl else 0

def requestBase : Inode := 0x4000000000000000

def requestsInode : Inode := requestBase - 1

def requestInode (id : Nat) : Inode := requestBase + id

/-- The request behind an inode; request numbers start at one. -/
def requestOfInode? (inode : Inode) : Option Nat :=
  if requestBase < inode then some (inode - requestBase) else none

/-- The directory of requests belongs to the control file and is as old as the mount. -/
def FileAttr.requestsDirectory (started : Int) : FileAttr :=
  build requestsInode .directory 0o500 0 started

def FileAttr.request (id size : Nat) (started : Int) : FileAttr :=
  build (requestInode id) .regular 0o400 size started

end OnDemandFs
