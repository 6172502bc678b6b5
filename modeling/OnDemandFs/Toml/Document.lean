import OnDemandFs.Toml.Scalar

/-!
# TOML documents

A document is a list of lines: headers, and keys with their values. `lines?` reads the lines and
`ofLines` puts them into tables, so that everything about spelling is in the first and everything
about defining a thing twice is in the second. Values in brackets and braces hold others, down to a
fixed depth; a dotted key is no longer than that either.
-/
namespace OnDemandFs.Toml

/-- Values stand inside at most one less than this many brackets and braces, and a key has fewer
names than this. -/
def depthLimit : Nat := 80

def skipBlanks (cs : List Char) : List Char := cs.dropWhile isBlank

/-! ## Keys -/

/-- The letters of a key without marks. -/
def isBare (c : Char) : Bool :=
  ('a' ≤ c && c ≤ 'z') || ('A' ≤ c && c ≤ 'Z') || ('0' ≤ c && c ≤ '9') || c = '-' || c = '_'

def simpleKey : Reader String
  | '"' :: rest => (Quoted.basic rest).map fun (t, rest) => (String.ofList t, rest)
  | '\'' :: rest => (Quoted.literal rest).map fun (t, rest) => (String.ofList t, rest)
  | cs =>
    match cs.takeWhile isBare with
    | [] => none
    | name => some (String.ofList name, cs.dropWhile isBare)

/-- The names of a dotted key, blanks around each; each dot uses one of the steps. -/
def keyNames : Nat → Reader (List String)
  | 0, _ => none
  | steps + 1, cs => do
    let (name, rest) ← simpleKey (skipBlanks cs)
    match skipBlanks rest with
    | '.' :: rest =>
      let (names, rest) ← keyNames steps rest
      return (name :: names, rest)
    | rest => return ([name], rest)

def key (cs : List Char) : Option (Key × List Char) := do
  let (names, rest) ← keyNames (depthLimit - 1) cs
  let k ← Key.ofNames? names
  return (k, rest)

/-! ## Values -/

/-- Skip blanks, line breaks and comments between the elements of an array. -/
def skipBetween (inComment : Bool) : List Char → Option (List Char)
  | [] => if inComment then none else some []
  | '\r' :: '\n' :: rest => skipBetween false rest
  | c :: rest =>
    if c = '\n' then skipBetween false rest
    else if inComment then (if isPlain c then skipBetween true rest else none)
    else if isBlank c then skipBetween false rest
    else if c = '#' then skipBetween true rest
    else if c = '\r' then none
    else some (c :: rest)

/-- The elements of an array, after its bracket; each uses one of the steps. -/
def elements (value : Reader Item) : Nat → Reader (List Item)
  | 0, _ => none
  | steps + 1, cs => do
    match ← skipBetween false cs with
    | ']' :: rest => return ([], rest)
    | cs =>
      let (item, rest) ← value cs
      match ← skipBetween false rest with
      | ',' :: rest =>
        let (items, rest) ← elements value steps rest
        return (item :: items, rest)
      | ']' :: rest => return ([item], rest)
      | _ => none

/-- A key, its equals sign and its value. -/
def pair (value : Reader Item) (cs : List Char) : Option ((Key × Item) × List Char) := do
  let (k, rest) ← key cs
  let (item, rest) ← value (skipBlanks (← expect '=' rest))
  return ((k, item), rest)

/-- The rows of a table in braces, all on one line; each pair uses one of the steps. -/
def inlineRows (value : Reader Item) : Nat → Rows → Reader Rows
  | 0, _, _ => none
  | steps + 1, rows, cs => do
    let ((k, item), rest) ← pair value cs
    let rows ← rows.define k item
    match skipBlanks rest with
    | ',' :: rest => inlineRows value steps rows rest
    | '}' :: rest => return (rows, rest)
    | _ => none

def value : Nat → Reader Item
  | 0, cs => scalar cs
  | depth + 1, cs =>
    match cs with
    | '[' :: rest => (elements (value depth) (rest.length + 1) rest).map fun (l, r) => (.array l, r)
    | '\x7b' :: rest =>
      match skipBlanks rest with
      | '\x7d' :: rest => some (.inline [], rest)
      | rest =>
        (inlineRows (value depth) (rest.length + 1) [] rest).map fun (l, r) => (.inline l, r)
    | _ => scalar cs

/-! ## Lines -/

inductive Line where
  | header (key : Key)
  | element (key : Key)
  | pair (key : Key) (item : Item)

/-- What follows the end of a line, with a comment in front of it or not. -/
def lineEnd (cs : List Char) : Option (List Char) :=
  let rest := match skipBlanks cs with
    | '#' :: comment => comment.dropWhile isPlain
    | rest => rest
  if rest.isEmpty then some [] else afterBreak? rest

/-- A line at the front that is not empty. -/
def line : Reader Line
  | '[' :: '[' :: rest => do
    let (k, rest) ← key rest
    let rest ← lineEnd (← expect ']' (← expect ']' rest))
    return (.element k, rest)
  | '[' :: rest => do
    let (k, rest) ← key rest
    let rest ← lineEnd (← expect ']' rest)
    return (.header k, rest)
  | cs => do
    let ((k, item), rest) ← pair (value (depthLimit - 1)) cs
    let rest ← lineEnd rest
    return (.pair k item, rest)

/-- All lines; each uses one of the steps. -/
def linesFrom : Nat → List Char → Option (List Line)
  | 0, _ => none
  | steps + 1, cs =>
    match skipBlanks cs with
    | [] => some []
    | '#' :: rest => (lineEnd ('#' :: rest)).bind (linesFrom steps)
    | cs =>
      match afterBreak? cs with
      | some rest => linesFrom steps rest
      | none => do
        let (l, rest) ← line cs
        return l :: (← linesFrom steps rest)

/-- The lines of a text, after its byte order mark. -/
def lines? (text : String) : Option (List Line) :=
  let cs := match text.toList with
    | '\uFEFF' :: rest => rest
    | cs => cs
  linesFrom (cs.length + 1) cs

/-! ## Tables -/

/-- Put lines into tables, below the table that the last header opened. -/
def place : List String → Rows → List Line → Option Rows
  | _, rows, [] => some rows
  | _, rows, .header k :: rest => (rows.openTable k).bind fun rows => place k.names rows rest
  | _, rows, .element k :: rest => (rows.openElement k).bind fun rows => place k.names rows rest
  | current, rows, .pair k item :: rest =>
    (rows.defineIn current k item).bind fun rows => place current rows rest

def ofLines (ls : List Line) : Option Rows := place [] [] ls

/-- The top table of a document. -/
def parse? (text : String) : Option Rows := (lines? text).bind ofLines

end OnDemandFs.Toml
