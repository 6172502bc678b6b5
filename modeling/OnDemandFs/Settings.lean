/-!
# Settings of a mount

Where the cache lies, how long a request may take, and how much of the indices is read and
remembered. A timeout that is set through `withTimeout` is at least a second; one that is read from
a file is taken as it is.
-/
namespace OnDemandFs

structure Settings where
  cacheRoot : String
  requestTimeoutSecs : Option Nat := none
  revalidateFiles : Bool := false
  maxIndexBytes : Nat := 100 * 1024
  indexCacheCapacity : Nat := 4096
deriving DecidableEq, Repr

namespace Settings

/-- Set the timeout, given in milliseconds, to its whole seconds. -/
def withTimeout (s : Settings) (milliseconds : Nat) : Settings :=
  { s with requestTimeoutSecs := some (max (milliseconds / 1000) 1) }

def withRevalidation (s : Settings) (revalidate : Bool) : Settings :=
  { s with revalidateFiles := revalidate }

/-- The timeout in milliseconds. -/
def timeout (s : Settings) : Option Nat := s.requestTimeoutSecs.map (· * 1000)

end Settings
end OnDemandFs
