import OnDemandFs.Launch
import OnDemandFs.Settings.File
import OnDemandFs.Text.Numeral

/-!
# Arguments of the command line

The words after the program's name name the place to mount at, and options. An option with a value
takes it from behind an equals sign, or from the next word unless that looks like an option; after
a lone `--` every word is a place. What is named last is only taken over when the next word is
understood, or at the end: an unknown word therefore wins over a bad value right before it.
An option may be given once, `--dynamic` any number of times. Options that stay open are filled from
the environment.
-/
namespace OnDemandFs

inductive Flag where
  | cache
  | config
  | requestTimeout
  | revalidate
  | origin
  | dynamic
  | logDirectory
  | attrTtl
  | help
  | version
deriving DecidableEq, Repr

namespace Flag

def ofName? : String → Option Flag
  | "cache" => some cache
  | "config" => some config
  | "request-timeout" => some requestTimeout
  | "revalidate" => some revalidate
  | "mirror" => some origin
  | "dynamic" => some dynamic
  | "log-dir" => some logDirectory
  | "attr-ttl-secs" => some attrTtl
  | "help" => some help
  | "version" => some version
  | _ => none

def ofLetter? : Char → Option Flag
  | 'h' => some help
  | 'V' => some version
  | _ => none

def takesValue : Flag → Bool
  | revalidate | help | version => false
  | _ => true

end Flag

/-- Why arguments lead to no mount. Help and version are asked for; the rest is wrong. -/
inductive Halt where
  | help
  | version
  | unknownArgument
  | givenTwice
  | missingValue
  | malformedNumber
  | needlessValue
  | missingArgument
deriving DecidableEq, Repr

structure Arguments where
  mountpoint : String
  cache : Option String := none
  config : Option String := none
  requestTimeout : Option Nat := none
  revalidate : Bool := false
  origin : Option String := none
  dynamic : List String := []
  logDirectory : Option String := none
  attrTtlSecs : Nat := 1
deriving DecidableEq, Repr

/-- Values of options that the command line leaves open. -/
structure Environment where
  cache : Option String := none
  config : Option String := none
  logDirectory : Option String := none

/-- A word by its form. -/
inductive Word where
  | endOfOptions
  | long (name : String) (value : Option String)
  | short (letter : Char)
  | plain (text : String)
deriving DecidableEq, Repr

def Word.ofString (s : String) : Word :=
  match s.toList with
  | ['-', '-'] => .endOfOptions
  | '-' :: '-' :: rest =>
    let name := String.ofList (rest.takeWhile (· ≠ '='))
    match rest.dropWhile (· ≠ '=') with
    | _ :: value => .long name (some (String.ofList value))
    | [] => .long name none
  | '-' :: letter :: _ => .short letter
  | _ => .plain s

/-- What was understood so far; `mountpoint` and `attrTtlSecs` may still be open. -/
structure Draft where
  mountpoint : Option String := none
  cache : Option String := none
  config : Option String := none
  requestTimeout : Option Nat := none
  revalidate : Bool := false
  origin : Option String := none
  dynamic : List String := []
  logDirectory : Option String := none
  attrTtlSecs : Option Nat := none
deriving DecidableEq, Repr

namespace Draft

def path (value : String) : Except Halt String :=
  if value.isEmpty then .error .missingValue else .ok value

def number (value : String) : Except Halt Nat :=
  match Numeral.natural? value.toList with
  | some n => .ok n.toNat
  | none => .error .malformedNumber

/-- The value of an option that is given once. -/
def once {α : Type} (old : Option α) (value : Except Halt α) : Except Halt (Option α) :=
  if old.isSome then .error .givenTwice else value.map some

/-- Take over the value of an option that has one. -/
def set (d : Draft) (flag : Flag) (value : String) : Except Halt Draft := do
  match flag with
  | .cache => return { d with cache := ← once d.cache (path value) }
  | .config => return { d with config := ← once d.config (path value) }
  | .requestTimeout => return { d with requestTimeout := ← once d.requestTimeout (number value) }
  | .origin => return { d with origin := ← once d.origin (path value) }
  | .dynamic => return { d with dynamic := d.dynamic ++ [value] }
  | .logDirectory => return { d with logDirectory := ← once d.logDirectory (path value) }
  | .attrTtl => return { d with attrTtlSecs := ← once d.attrTtlSecs (number value) }
  | .revalidate | .help | .version => return d

/-- Take over an option that has no value. -/
def raise (d : Draft) : Flag → Except Halt Draft
  | .revalidate => if d.revalidate then .error .givenTwice else .ok { d with revalidate := true }
  | .help => .error .help
  | .version => .error .version
  | _ => .error .missingValue

/-- Fill in what the environment knows. -/
def fill (d : Draft) (env : Environment) : Except Halt Draft := do
  let orElse (old new : Option String) : Except Halt (Option String) :=
    match old, new with
    | none, some value => (path value).map some
    | old, _ => .ok old
  let cache ← orElse d.cache env.cache
  let config ← orElse d.config env.config
  let logDirectory ← orElse d.logDirectory env.logDirectory
  return { d with cache, config, logDirectory }

/-- The arguments, if all that is needed is there. -/
def finish (d : Draft) : Except Halt Arguments :=
  match d.mountpoint with
  | none => .error .missingArgument
  | some mountpoint =>
    if !d.dynamic.isEmpty && d.origin.isNone then .error .missingArgument
    else .ok {
      mountpoint
      cache := d.cache
      config := d.config
      requestTimeout := d.requestTimeout
      revalidate := d.revalidate
      origin := d.origin
      dynamic := d.dynamic
      logDirectory := d.logDirectory
      attrTtlSecs := d.attrTtlSecs.getD 1 }

end Draft

/-- What was named and not taken over yet. -/
inductive Pending where
  | nothing
  | place (text : String)
  | awaiting (flag : Flag)
  | valued (flag : Flag) (value : String)
deriving DecidableEq, Repr

structure Understanding where
  draft : Draft := {}
  pending : Pending := .nothing
  placed : Bool := false
  placesOnly : Bool := false
deriving DecidableEq, Repr

namespace Understanding

/-- Take over what is pending. -/
def settle (u : Understanding) : Except Halt Understanding := do
  match u.pending with
  | .nothing => return u
  | .place text =>
    return { u with
      draft := { u.draft with mountpoint := some (← Draft.path text) }, pending := .nothing }
  | .awaiting _ => .error .missingValue
  | .valued flag value => return { u with draft := ← u.draft.set flag value, pending := .nothing }

/-- A word that is a place. There is only one. -/
def addPlace (u : Understanding) (text : String) : Except Halt Understanding := do
  if u.placed then .error .unknownArgument
  else return { ← u.settle with placed := true, pending := .place text }

def addLong (u : Understanding) (name : String) (value : Option String) :
    Except Halt Understanding := do
  match Flag.ofName? name with
  | none => .error .unknownArgument
  | some flag =>
    match flag.takesValue, value with
    | false, some _ => .error .needlessValue
    | false, none =>
      let u ← u.settle
      return { u with draft := ← u.draft.raise flag }
    | true, none => return { ← u.settle with pending := .awaiting flag }
    | true, some value =>
      let u ← u.settle
      return { u with draft := ← u.draft.set flag value }

def addWord (u : Understanding) (s : String) : Except Halt Understanding := do
  if u.placesOnly then u.addPlace s
  else match Word.ofString s with
    | .endOfOptions => return { u with placesOnly := true }
    | .long name value => u.addLong name value
    | .short letter =>
      match Flag.ofLetter? letter with
      | none => .error .unknownArgument
      | some flag =>
        let u ← u.settle
        return { u with draft := ← u.draft.raise flag }
    | .plain text =>
      match u.pending with
      | .awaiting flag => return { u with pending := .valued flag text }
      | _ => u.addPlace text

end Understanding

namespace Arguments

/-- Understand the words of a command line. -/
def ofWords (env : Environment) (words : List String) : Except Halt Arguments := do
  let u : Understanding ← words.foldlM Understanding.addWord {}
  let u ← u.settle
  let d ← u.draft.fill env
  d.finish

/-- The settings that arguments ask for, given how files are read: those of the configuration file,
and over them what the command line says itself. -/
def settings (a : Arguments) (read : String → Except IoFault Bytes) :
    Except LaunchFault Settings := do
  let base : Settings ← match a.config, a.cache with
    | some file, _ => (Settings.ofFile (read file)).mapError .core
    | none, some cacheRoot => .ok { cacheRoot }
    | none, none => .error .missingCacheRoot
  let s := { base with cacheRoot := a.cache.getD base.cacheRoot }
  let s := match a.requestTimeout with
    | some seconds => s.withTimeout (seconds * 1000)
    | none => s
  return if a.revalidate then s.withRevalidation true else s

end Arguments
end OnDemandFs
