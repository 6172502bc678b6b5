import OnDemandFs.Index.Basic
import OnDemandFs.Text.Utf8
import OnDemandFs.Text.Numeral

/-!
# The index file

An index file starts with a marker line. A dynamic index has the word `Dynamic` as its only second
line, or behind the marker on the first. A listing has its entries right after the marker line,
each closed by a NUL byte: kind, size, modification time and name with one blank between them. The
name comes last and runs to the NUL, so it may hold blanks and line breaks. Nothing checks a listing
on the way out; `decode` checks everything on the way in.
-/
namespace OnDemandFs.Index

def marker : List Char := "LazyFS".toList
def dynamicWord : List Char := "Dynamic".toList

def textBytes (cs : List Char) : Bytes := Utf8.encode (String.ofList cs)

def markerLine : Bytes := textBytes marker ++ [10]

/-- The text of an entry, without the closing NUL. -/
def entryText (e : Entry) : List Char :=
  e.kind.tag :: ' ' :: Numeral.ofNat e.size.toNat ++ ' ' :: Numeral.ofInt e.mtime.toInt ++
    ' ' :: e.name.toList

def encodeEntry (e : Entry) : Bytes := textBytes (entryText e) ++ [0]

def encode : Index → Bytes
  | dynamic => markerLine ++ textBytes dynamicWord ++ [10]
  | listing es => markerLine ++ es.flatMap encodeEntry

/-- What stands before and after the first `sep`, if there is one. -/
def cut {α : Type} [DecidableEq α] (sep : α) (l : List α) : Option (List α × List α) :=
  match l.span (· ≠ sep) with
  | (_, []) => none
  | (before, _ :: after) => some (before, after)

/-- The four fields of an entry: blanks end the first three. -/
def fields? (line : List Char) : Option (List Char × List Char × List Char × List Char) := do
  let (kind, rest) ← cut ' ' line
  let (size, rest) ← cut ' ' rest
  let (mtime, name) ← cut ' ' rest
  return (kind, size, mtime, name)

def decodeEntry (raw : Bytes) : Except IndexFault Entry :=
  match Utf8.decode raw with
  | none => .error .notUtf8
  | some line =>
    match fields? line.toList with
    | none => .error (.malformedEntry line)
    | some (kind, size, mtime, name) =>
      match EntryKind.ofTag? kind with
      | none => .error (.unknownKind (String.ofList kind))
      | some kind =>
        match Numeral.natural? size, Numeral.integer? mtime with
        | some size, some mtime => .ok ⟨kind, size, mtime, String.ofList name⟩
        | _, _ => .error (.malformedEntry line)

/-- The entries of a non-empty body, which the last NUL closes. -/
def decodeEntries (body : Bytes) : Except IndexFault (List Entry) :=
  if body.getLast? ≠ some 0 then .error .unterminated
  else (body.dropLast.splitOn 0).mapM decodeEntry

def decode (bytes : Bytes) : Except IndexFault Index :=
  match cut 10 bytes with
  | none => .error .missingMarker
  | some (header, body) =>
    if header = textBytes (marker ++ ' ' :: dynamicWord) then .ok dynamic
    else if header ≠ textBytes marker then .error .missingMarker
    else if body = textBytes dynamicWord ∨ body = textBytes dynamicWord ++ [10] then .ok dynamic
    else if body = [] then .ok (listing [])
    else do ofEntries (← decodeEntries body)

end OnDemandFs.Index
