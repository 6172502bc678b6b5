import OnDemandFs.Disk.Basic
import OnDemandFs.Identity

/-!
# Mappings

A node keeps its identity while the file behind it is replaced, so two mappings of one node could
show two files. The arbiter forbids that: while a node has live mappings they all show the file that
the first of them showed, and a mapping of another file is refused. It only counts; which mappings
there are is known to those who hold them.
-/
namespace OnDemandFs

/-- The file that a node's live mappings show, and how many there are. -/
structure Pin (γ : Type) where
  generation : γ
  live : Nat
deriving DecidableEq, Repr

abbrev Arbiter (γ : Type) := Table NodeId (Pin γ)

namespace Arbiter

variable {γ : Type} [DecidableEq γ]

/-- One more mapping of a node; `path` is only for the fault. -/
def acquire (a : Arbiter γ) (id : NodeId) (path : String) (generation : γ) :
    Except Fault (Arbiter γ) :=
  match a.get? id with
  | some pin =>
    if pin.generation ≠ generation then .error (.mappingConflict path)
    else .ok (a.set id { pin with live := pin.live + 1 })
  | none => .ok (a.set id ⟨generation, 1⟩)

/-- One mapping of a node fewer; with the last one the node may show any file again. -/
def release (a : Arbiter γ) (id : NodeId) : Arbiter γ :=
  match a.get? id with
  | some pin => if pin.live ≤ 1 then a.erase id else a.set id { pin with live := pin.live - 1 }
  | none => a

def live (a : Arbiter γ) (id : NodeId) : Nat :=
  match a.get? id with
  | some pin => pin.live
  | none => 0

end Arbiter
end OnDemandFs
