import OnDemandFs.Table

/-!
# Items of a TOML document

What a TOML document holds under its keys. Numbers with a fraction and points in time are kept as
they were written, since nothing here computes with them.

A table remembers how it came to be, because that decides who may still add to it: `Rows.define`
goes along a dotted key, `Rows.openTable` and `Rows.openElement` along the key of a header. Each of
them refuses (`none`) what would define a key or a table a second time.
-/
namespace OnDemandFs.Toml

inductive Standing where
  /-- The table has a header of its own, or is the top one. -/
  | defined
  /-- Only headers of tables below it named it; its own may still come. -/
  | implied
  /-- Dotted keys made it, and only dotted keys add to it. -/
  | dotted
deriving DecidableEq, Repr

inductive Item where
  | text (value : String)
  | integer (value : Int)
  | boolean (value : Bool)
  | decimal (written : List Char)
  | moment (written : List Char)
  | array (items : List Item)
  /-- A table in braces, to which nothing can be added. -/
  | inline (rows : List (String × Item))
  | table (standing : Standing) (rows : List (String × Item))
  | tables (elements : List (List (String × Item)))

abbrev Rows := Table String Item

/-- A dotted key: the tables to go through, and the key inside the last of them. -/
structure Key where
  parents : List String
  last : String
deriving DecidableEq, Repr

namespace Key

/-- The names in order, all of them. -/
def names (k : Key) : List String := k.parents ++ [k.last]

/-- The key of a nonempty list of names. -/
def ofNames? (names : List String) : Option Key :=
  names.getLast?.map fun last => ⟨names.dropLast, last⟩

end Key

namespace Rows

/-- Change the rows of a table below, given its standing. Missing tables on the way come to be; of
an array of tables the last one is meant. A dotted key goes through no table that is defined. -/
def reach (dotted : Bool) (change : Standing → Rows → Option Rows) :
    Standing → List String → Rows → Option Rows
  | standing, [], rows => change standing rows
  | _, name :: path, rows =>
    match rows.get? name with
    | none =>
      let standing := if dotted then Standing.dotted else .implied
      (reach dotted change standing path []).map fun below => rows.set name (.table standing below)
    | some (.table standing below) =>
      if dotted && standing = .defined then none
      else (reach dotted change standing path below).map fun below =>
        rows.set name (.table standing below)
    | some (.tables elements) =>
      match elements.getLast? with
      | none => none
      | some below => (reach dotted change .defined path below).map fun below =>
          rows.set name (.tables (elements.dropLast ++ [below]))
    | some _ => none

/-- Give a key its value. -/
def define (rows : Rows) (key : Key) (item : Item) : Option Rows :=
  reach true (fun standing below =>
    if (!key.parents.isEmpty && standing ≠ .dotted) || below.has key.last then none
    else some (below.set key.last item)) .defined key.parents rows

/-- Open the table of a header. -/
def openTable (rows : Rows) (key : Key) : Option Rows :=
  reach false (fun _ below =>
    match below.get? key.last with
    | none => some (below.set key.last (.table .defined []))
    | some (.table .implied inner) => some (below.set key.last (.table .defined inner))
    | some _ => none) .defined key.parents rows

/-- Open one more element of an array of tables. -/
def openElement (rows : Rows) (key : Key) : Option Rows :=
  reach false (fun _ below =>
    match below.get? key.last with
    | none => some (below.set key.last (.tables [[]]))
    | some (.tables elements) => some (below.set key.last (.tables (elements ++ [[]])))
    | some _ => none) .defined key.parents rows

/-- Give a key its value inside the table that was opened under the given names. -/
def defineIn (rows : Rows) (current : List String) (key : Key) (item : Item) : Option Rows :=
  reach false (fun _ below => define below key item) .defined current rows

end Rows
end OnDemandFs.Toml
