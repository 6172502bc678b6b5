import OnDemandFs.Fault.Basic
import OnDemandFs.Settings
import OnDemandFs.Text.Utf8
import OnDemandFs.Toml.Document

/-!
# Settings from a file

A settings file is a TOML document. Of its top keys only the settings count, and any other may stand
there too; a setting of the wrong type spoils the file, and so does a file without cache root.
Numbers are not negative. All that is wrong with the text is one fault, `Fault.configFile`.
-/
namespace OnDemandFs.Settings

/-- A setting that may be missing: `none` when it is there with the wrong type. -/
def optional {α : Type} (rows : Toml.Rows) (key : String) (read : Toml.Item → Option α) :
    Option (Option α) :=
  match rows.get? key with
  | none => some none
  | some item => (read item).map some

def text? : Toml.Item → Option String
  | .text s => some s
  | _ => none

def natural? : Toml.Item → Option Nat
  | .integer n => if 0 ≤ n then some n.toNat else none
  | _ => none

def boolean? : Toml.Item → Option Bool
  | .boolean b => some b
  | _ => none

def ofRows? (rows : Toml.Rows) : Option Settings := do
  let cacheRoot ← (rows.get? "cache_root").bind text?
  let base : Settings := { cacheRoot }
  let requestTimeoutSecs ← optional rows "request_timeout_secs" natural?
  let revalidateFiles ← optional rows "revalidate_files" boolean?
  let maxIndexBytes ← optional rows "max_index_bytes" natural?
  let indexCacheCapacity ← optional rows "index_cache_capacity" natural?
  return {
    cacheRoot, requestTimeoutSecs
    revalidateFiles := revalidateFiles.getD base.revalidateFiles
    maxIndexBytes := maxIndexBytes.getD base.maxIndexBytes
    indexCacheCapacity := indexCacheCapacity.getD base.indexCacheCapacity }

def ofToml (text : String) : Except Fault Settings :=
  match (Toml.parse? text).bind ofRows? with
  | some s => .ok s
  | none => .error .configFile

/-- The settings in a file, given what reading the file came to. -/
def ofFile (content : Except IoFault Bytes) : Except Fault Settings :=
  match content with
  | .error cause => .error (.io cause)
  | .ok bytes =>
    match Utf8.decode bytes with
    | some text => ofToml text
    | none => .error (.io .notUtf8)

end OnDemandFs.Settings
