import OnDemandFs.Fault.Basic

/-!
# Failures to launch

What can go wrong between the command line and a running mount.
-/
namespace OnDemandFs

inductive LaunchFault where
  | missingCacheRoot
  | core (fault : Fault)
  | mount (place : String) (cause : IoFault)
  | noRuntime
deriving DecidableEq, Repr

def LaunchFault.message? : LaunchFault → Option String
  | missingCacheRoot =>
    some "no cache root given: pass --cache or a config file with cache_root"
  | core fault => fault.message?
  | mount place cause => some ("failed to mount at " ++ place ++ ": " ++ cause.message)
  | noRuntime =>
    some ("runtime error: there is no reactor running, must be called from the context of " ++
      "a Tokio 1.x runtime")

end OnDemandFs
