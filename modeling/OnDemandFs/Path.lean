import OnDemandFs.Proofs.Text.Pieces

/-!
# Paths of the presented tree

A path is the list of its segments, outermost first; the root has none. Any text denotes a path:
it is cut at every slash, and empty pieces and `.` are dropped. So a text without a leading slash,
or with repeated or trailing ones, denotes the same path as its tidy spelling, which `Path.text`
writes. A `..` is an ordinary segment here: nothing below resolves it.
-/
namespace OnDemandFs

/-- A name that can stand between two slashes of a path. -/
def IsSegment (n : String) : Prop := n ≠ "" ∧ n ≠ "." ∧ '/' ∉ n.toList

instance (n : String) : Decidable (IsSegment n) := by unfold IsSegment; infer_instance

/-- The segments that a text denotes. -/
def segments (text : String) : List String :=
  ((text.toList.splitOn '/').map String.ofList).filter fun n => n ≠ "" ∧ n ≠ "."

theorem isSegment_of_mem_segments {text n : String} (h : n ∈ segments text) : IsSegment n := by
  simp only [segments, List.mem_filter, decide_eq_true_eq, List.mem_map] at h
  obtain ⟨⟨piece, hpiece, rfl⟩, hempty, hdot⟩ := h
  refine ⟨hempty, hdot, ?_⟩
  rw [String.toList_ofList]
  exact not_mem_of_mem_splitOn hpiece

structure Path where
  names : List String
  allSegments : ∀ n ∈ names, IsSegment n
deriving DecidableEq

namespace Path

instance : Repr Path := ⟨fun p n => reprPrec p.names n⟩

def root : Path := ⟨[], by simp⟩

instance : Inhabited Path := ⟨root⟩

def ofText (text : String) : Path := ⟨segments text, fun _ h => isSegment_of_mem_segments h⟩

/-- The tidy spelling: a slash before each segment, or one slash for the root. -/
def text (p : Path) : String :=
  if p.names.isEmpty then "/" else String.ofList (p.names.flatMap fun n => '/' :: n.toList)

/-- The path that continues `p` by the segments of a text. -/
def extend (p : Path) (text : String) : Path :=
  ⟨p.names ++ segments text, by
    intro n h
    rcases List.mem_append.mp h with h | h
    · exact p.allSegments n h
    · exact isSegment_of_mem_segments h⟩

/-- Without the last segment; the root is its own parent. -/
def parent (p : Path) : Path :=
  ⟨p.names.dropLast, fun n h => p.allSegments n (List.dropLast_subset _ h)⟩

/-- The last segment, and the empty text for the root. -/
def fileName (p : Path) : String := p.names.getLast?.getD ""

def isRoot (p : Path) : Bool := p.names.isEmpty

def depth (p : Path) : Nat := p.names.length

@[simp] theorem names_ofText (t : String) : (ofText t).names = segments t := rfl

@[simp] theorem names_root : root.names = [] := rfl

@[simp] theorem names_extend (p : Path) (t : String) : (p.extend t).names = p.names ++ segments t :=
  rfl

@[simp] theorem names_parent (p : Path) : p.parent.names = p.names.dropLast := rfl

theorem ext_names {p q : Path} (h : p.names = q.names) : p = q := by
  cases p; cases q; cases h; rfl

end Path

/-- The tidy spelling of the path that a text denotes. -/
def normalize (text : String) : String := (Path.ofText text).text

/-- Put a name behind a directory's spelling, which is taken as it is. -/
def joinText (dir name : String) : String := if dir = "/" then "/" ++ name else dir ++ "/" ++ name

end OnDemandFs
