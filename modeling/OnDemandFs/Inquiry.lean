import OnDemandFs.Fault.Basic
import OnDemandFs.Path

/-!
# Operations that may have to ask

A look-up may find that something is missing, ask the helper for it and go on when the request is
closed. Such an operation is a tree: it is over, with a result, or it asks for a path and says how
to go on from the state that it then finds. While it waits anything may happen to the state, so the
continuation takes the state anew. Every branch of the tree ends, so no operation asks for ever.

If the request fails the operation fails the same way; there is no continuation for that.
-/
namespace OnDemandFs

inductive Inquiry (σ α : Type) where
  | done (state : σ) (result : Except Fault α)
  | asks (state : σ) (path : Path) (resume : σ → Inquiry σ α)

namespace Inquiry

variable {σ α β : Type}

/-- Go on with `f` from where the inquiry ends well. -/
def andThen (f : α → σ → Inquiry σ β) : Inquiry σ α → Inquiry σ β
  | done s (.ok a) => f a s
  | done s (.error fault) => done s (.error fault)
  | asks s p resume => asks s p fun s' => andThen f (resume s')

/-- Run against a helper that does to the state whatever `answer` says, knowing what was asked for
so far, and never lets a request fail. -/
def runWith (answer : List Path → Path → σ → σ) :
    List Path → Inquiry σ α → List Path × σ × Except Fault α
  | asked, done s r => (asked, s, r)
  | asked, asks s p resume => runWith answer (asked ++ [p]) (resume (answer asked p s))

end Inquiry

/-- A program over states that may have to ask. -/
def Asking (σ α : Type) := σ → Inquiry σ α

namespace Asking

variable {σ α β : Type}

instance : Monad (Asking σ) where
  pure a := fun s => .done s (.ok a)
  bind m f := fun s => (m s).andThen f

def fail (fault : Fault) : Asking σ α := fun s => .done s (.error fault)

/-- Look at the state. -/
def get : Asking σ σ := fun s => .done s (.ok s)

def lift (r : Except Fault α) : Asking σ α := fun s => .done s r

/-- A step that changes the state and does not ask. -/
def act (f : σ → σ × α) : Asking σ α := fun s => .done (f s).1 (.ok (f s).2)

/-- A step that changes the state, does not ask, and may fail. -/
def attempt (f : σ → σ × Except Fault α) : Asking σ α := fun s => .done (f s).1 (f s).2

/-- Ask for a path and go on once the request is closed. -/
def ask (p : Path) : Asking σ Unit := fun s => .asks s p fun s' => .done s' (.ok ())

end Asking
end OnDemandFs
