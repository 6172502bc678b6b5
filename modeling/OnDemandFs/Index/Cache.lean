import OnDemandFs.Disk.Basic
import OnDemandFs.Index.Basic
import OnDemandFs.Path

/-!
# Remembered indices

Decoded indices are remembered by directory, each with the stamp of the index file that it was
decoded from. A look-up hits only under the same stamp, and a look-up under another stamp forgets
what it found: the file was replaced since. The capacity is enforced by `trim` and not on each
insertion: of more indices than that, those that came last are forgotten. Forgetting is always
allowed, since the file on disk can be decoded again.
-/
namespace OnDemandFs

/-- One physical version of a file. -/
structure Stamp where
  file : FileId
  length : Nat
  mtime : Timestamp
deriving DecidableEq, Repr

structure IndexCache where
  capacity : Nat
  known : Table Path (Stamp × Index) := []
deriving Repr

namespace IndexCache

def lookup (c : IndexCache) (dir : Path) (stamp : Stamp) : IndexCache × Option Index :=
  match c.known.get? dir with
  | some (s, index) =>
    if s = stamp then (c, some index) else ({ c with known := c.known.erase dir }, none)
  | none => (c, none)

def remember (c : IndexCache) (dir : Path) (stamp : Stamp) (index : Index) : IndexCache :=
  if c.capacity = 0 then c else { c with known := c.known.set dir (stamp, index) }

def forget (c : IndexCache) (dir : Path) : IndexCache := { c with known := c.known.erase dir }

def forgetAll (c : IndexCache) : IndexCache := { c with known := [] }

/-- Forget what exceeds the capacity. -/
def trim (c : IndexCache) : IndexCache := { c with known := c.known.take c.capacity }

def count (c : IndexCache) : Nat := c.known.length

theorem count_trim_le (c : IndexCache) : c.trim.count ≤ c.capacity := by
  simp only [trim, count, List.length_take]
  exact Nat.min_le_left _ _

end IndexCache
end OnDemandFs
