/-!
# Quoted texts of TOML

A text between quotation marks reads escapes; one between apostrophes is taken as it stands. Both
come on one line, or between three marks over many lines, where an opening line break is dropped and
each other one reads as a line feed. Each function here starts right after the opening mark and
gives the text and what follows the closing one.

Control characters other than the tab stand in no text and in no comment.
-/
namespace OnDemandFs.Toml

def isBlank (c : Char) : Bool := c = ' ' || c = '\t'

/-- The characters of which comments and texts consist. -/
def isPlain (c : Char) : Bool := c = '\t' || (0x20 ≤ c.toNat && c.toNat ≠ 0x7F)

/-- What follows a line break, if there is one. -/
def afterBreak? : List Char → Option (List Char)
  | '\n' :: rest => some rest
  | '\r' :: '\n' :: rest => some rest
  | _ => none

namespace Quoted

abbrev Result := Option (List Char × List Char)

/-- Put a character in front of the text that is still read. -/
def push (c : Char) (r : Result) : Result := r.map fun (text, rest) => (c :: text, rest)

def digitValue? (c : Char) : Option Nat :=
  if c.isDigit then some (c.toNat - 48)
  else if 'a' ≤ c && c ≤ 'f' then some (c.toNat - 87)
  else if 'A' ≤ c && c ≤ 'F' then some (c.toNat - 55)
  else none

def hexValue? (digits : List Char) : Option Nat :=
  (digits.mapM digitValue?).map fun ds => ds.foldl (fun n d => 16 * n + d) 0

/-- The character that hexadecimal digits number; a surrogate is none. -/
def numbered? (digits : List Char) : Option Char :=
  match hexValue? digits with
  | some n => if n.isValidChar then some (Char.ofNat n) else none
  | none => none

/-- The character that one letter after a backslash means. -/
def escaped? : Char → Option Char
  | 'b' => some '\x08'
  | 't' => some '\t'
  | 'n' => some '\n'
  | 'f' => some '\x0c'
  | 'r' => some '\r'
  | '"' => some '"'
  | '\\' => some '\\'
  | _ => none

/-- A text that reads escapes, on one line. -/
def basic : List Char → Result
  | [] => none
  | '"' :: rest => some ([], rest)
  | '\\' :: 'u' :: a :: b :: c :: d :: rest =>
    (numbered? [a, b, c, d]).bind fun x => push x (basic rest)
  | '\\' :: 'U' :: a :: b :: c :: d :: e :: f :: g :: h :: rest =>
    (numbered? [a, b, c, d, e, f, g, h]).bind fun x => push x (basic rest)
  | '\\' :: c :: rest => (escaped? c).bind fun x => push x (basic rest)
  | c :: rest => if isPlain c && c ≠ '\\' then push c (basic rest) else none

/-- A text taken as it stands, on one line. -/
def literal : List Char → Result
  | [] => none
  | '\'' :: rest => some ([], rest)
  | c :: rest => if isPlain c then push c (literal rest) else none

/-- After three closing marks: up to two more of them belong to the text in front. -/
def closing (mark : Char) : List Char → List Char × List Char
  | a :: b :: rest =>
    if a = mark then (if b = mark then ([mark, mark], rest) else ([mark], b :: rest))
    else ([], a :: b :: rest)
  | [a] => if a = mark then ([mark], []) else ([], [a])
  | [] => ([], [])

/-- The body of a text that reads escapes, over many lines. After a backslash at the end of a line
all blanks and line breaks are skipped. -/
def basicBody (skipping : Bool) : List Char → Result
  | [] => none
  | '"' :: '"' :: '"' :: rest => some (closing '"' rest)
  | '\\' :: 'u' :: a :: b :: c :: d :: rest =>
    (numbered? [a, b, c, d]).bind fun x => push x (basicBody false rest)
  | '\\' :: 'U' :: a :: b :: c :: d :: e :: f :: g :: h :: rest =>
    (numbered? [a, b, c, d, e, f, g, h]).bind fun x => push x (basicBody false rest)
  | '\\' :: c :: rest =>
    match escaped? c with
    | some x => push x (basicBody false rest)
    | none =>
      if (afterBreak? ((c :: rest).dropWhile isBlank)).isSome then basicBody true rest else none
  | '\r' :: '\n' :: rest =>
    if skipping then basicBody true rest else push '\n' (basicBody false rest)
  | c :: rest =>
    if c = '\n' then (if skipping then basicBody true rest else push '\n' (basicBody false rest))
    else if skipping && isBlank c then basicBody true rest
    else if isPlain c && c ≠ '\\' then push c (basicBody false rest)
    else none

/-- The body of a text taken as it stands, over many lines. -/
def literalBody : List Char → Result
  | [] => none
  | '\'' :: '\'' :: '\'' :: rest => some (closing '\'' rest)
  | '\r' :: '\n' :: rest => push '\n' (literalBody rest)
  | c :: rest => if c = '\n' || isPlain c then push c (literalBody rest) else none

/-- A text of many lines, its opening line break dropped. -/
def lines (body : List Char → Result) (cs : List Char) : Result :=
  body ((afterBreak? cs).getD cs)

end Quoted
end OnDemandFs.Toml
