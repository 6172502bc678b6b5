import OnDemandFs.Path

/-!
# Node identities

Every path that is shown to a client gets a number the first time, and keeps it. Numbers are given
out in order from 1, which is the root's, so the table is the list of the paths in the order in
which they were first shown: the number of a path is its position, counted from one. That the root
stands first and no path stands twice is part of the type.
-/
namespace OnDemandFs

abbrev NodeId := Nat

def rootId : NodeId := 1

structure Identities where
  shown : List Path := [Path.root]
  root_first : shown.head? = some Path.root := by rfl
  nodup : shown.Nodup := by decide

namespace Identities

/-- Only the root was shown. -/
def initial : Identities := {}

/-- The number of a path, if it was ever shown. -/
def idOf? (t : Identities) (p : Path) : Option NodeId := (t.shown.idxOf? p).map (· + 1)

/-- The path that was shown under a number. -/
def pathOf? (t : Identities) : NodeId → Option Path
  | 0 => none
  | n + 1 => t.shown[n]?

/-- How many paths were shown, the root included. -/
def count (t : Identities) : Nat := t.shown.length

/-- Show one more path. -/
def add (t : Identities) (p : Path) (h : p ∉ t.shown) : Identities where
  shown := t.shown ++ [p]
  root_first := by
    have := t.root_first
    cases hs : t.shown with
    | nil => rw [hs] at this; cases this
    | cons a as => rw [hs] at this; simpa using this
  nodup := by
    rw [List.nodup_append]
    exact ⟨t.nodup, by simp, by
      intro a ha b hb hab
      simp only [List.mem_singleton] at hb
      subst hb; subst hab
      exact h ha⟩

/-- The number of a path, given out now if it has none. -/
def assign (t : Identities) (p : Path) : NodeId × Identities :=
  if h : p ∈ t.shown then (t.shown.idxOf p + 1, t) else (t.shown.length + 1, t.add p h)

end Identities
end OnDemandFs
