import OnDemandFs.CommandLine.Usage

/-!
# The program

Reads the command line, the environment and the configuration file, and shows the mount that they
describe. Everything that is decided is decided in the modules above; here is only what talks to the
outside.
-/
namespace OnDemandFs

def environment : IO Environment := do
  return {
    cache := ← IO.getEnv "LAZYFS_CACHE"
    config := ← IO.getEnv "LAZYFS_CONFIG"
    logDirectory := ← IO.getEnv "LAZYFS_LOG_DIR" }

/-- The content of a file, or why it cannot be read. -/
def readFile (file : String) : IO (Except IoFault Bytes) := do
  match ← (IO.FS.readBinFile file).toBaseIO with
  | .ok bytes => return .ok bytes.data.toList
  | .error (.noFileOrDirectory ..) => return .error (.system Errno.noEntry)
  | .error cause => return .error (.other (toString cause))

def launch (a : Arguments) : IO UInt32 := do
  let content ← match a.config with
    | some file => readFile file
    | none => pure (.error (.system Errno.noEntry))
  match a.settings fun _ => content with
  | .ok s =>
    IO.println ("mountpoint = " ++ a.mountpoint)
    s.lines.forM IO.println
    return 0
  | .error fault =>
    IO.eprintln ("Error: " ++ fault.message?.getD "invalid configuration file")
    return 1

def run (words : List String) : IO UInt32 := do
  match Arguments.ofWords (← environment) words with
  | .ok a => launch a
  | .error halt =>
    if halt.isFailure then
      halt.lines.forM IO.eprintln
      return 2
    else
      halt.lines.forM IO.println
      return 0

end OnDemandFs

def main (words : List String) : IO UInt32 := OnDemandFs.run words
