import OnDemandFs.CommandLine.Arguments

/-!
# Wordings of the command line

The help text, what is said when arguments lead to no mount, and how settings are shown.
-/
namespace OnDemandFs

def programName : String := "lazyfs"
def programVersion : String := "0.1.0"

def usageLine : String := "Usage: " ++ programName ++ " [OPTIONS] <MOUNTPOINT>"

def helpLines : List String :=
  ["Mount a lazily populated, read-only view of a cache directory",
    "",
    usageLine,
    "",
    "Arguments:",
    "  <MOUNTPOINT>  Where to mount the filesystem",
    "",
    "Options:",
    "      --cache <CACHE>                      Cache directory backing the mount",
    "      --config <CONFIG>                    TOML mount configuration; flags win over it",
    "      --request-timeout <REQUEST_TIMEOUT>  Fail requests not completed after this many seconds",
    "      --revalidate                         Request cached files again that disagree with their index",
    "      --mirror <MIRROR>                    Answer requests from this directory",
    "      --dynamic <DYNAMIC>                  Virtual directories to publish as dynamic",
    "      --log-dir <LOG_DIR>                  Also write logs to this directory",
    "      --attr-ttl-secs <ATTR_TTL_SECS>      Kernel attribute cache timeout in seconds [default: 1]",
    "  -h, --help                               Print help",
    "  -V, --version                            Print version"]

namespace Halt

/-- Help and version were asked for and are no failure. -/
def isFailure : Halt → Bool
  | help | version => false
  | _ => true

def lines : Halt → List String
  | help => helpLines
  | version => [programName ++ " " ++ programVersion]
  | unknownArgument => ["error: unexpected argument found", usageLine]
  | givenTwice => ["error: an argument cannot be used multiple times", usageLine]
  | missingValue => ["error: a value is required for an argument but none was supplied", usageLine]
  | malformedNumber => ["error: invalid number for an argument", usageLine]
  | needlessValue => ["error: unexpected value for an argument found", usageLine]
  | missingArgument => ["error: required arguments were not provided", usageLine]

end Halt

/-- The settings of a mount, one a line, as a settings file would have them. -/
def Settings.lines (s : Settings) : List String :=
  let timeout := match s.requestTimeoutSecs with
    | some n => ["request_timeout_secs = " ++ toString n]
    | none => []
  ["cache_root = " ++ s.cacheRoot] ++ timeout ++
    ["revalidate_files = " ++ (if s.revalidateFiles then "true" else "false"),
      "max_index_bytes = " ++ toString s.maxIndexBytes,
      "index_cache_capacity = " ++ toString s.indexCacheCapacity]

end OnDemandFs
