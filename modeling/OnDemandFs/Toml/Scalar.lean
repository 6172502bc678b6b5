import OnDemandFs.Text.Numeral
import OnDemandFs.Toml.Item
import OnDemandFs.Toml.Quoted

/-!
# Single values of TOML

Texts, truth values, integers, numbers with a fraction or exponent, and points in time. A reader
takes the longest value at the front and leaves the rest; that nothing unfit follows is checked
where the value stands.

Integers have 64 bits. Of two numerals for one value both are read, but a decimal integer has no
leading zero, and an underscore stands only between two digits.
-/
namespace OnDemandFs.Toml

abbrev Reader (α : Type) := List Char → Option (α × List Char)

/-- A run of digits, in which single underscores are dropped where a digit follows. -/
def digitRun (isDigit : Char → Bool) : List Char → List Char × List Char
  | '_' :: c :: rest =>
    if isDigit c then
      let (run, rest) := digitRun isDigit rest
      (c :: run, rest)
    else ([], '_' :: c :: rest)
  | c :: rest =>
    if isDigit c then
      let (run, rest) := digitRun isDigit rest
      (c :: run, rest)
    else ([], c :: rest)
  | [] => ([], [])

/-- A run that starts with a digit. -/
def digits (isDigit : Char → Bool) : Reader (List Char)
  | c :: rest => if isDigit c then some (digitRun isDigit (c :: rest)) else none
  | [] => none

/-- At least one digit, and no underscores. -/
def plainDigits (cs : List Char) : Option (List Char × List Char) :=
  match cs.takeWhile Char.isDigit with
  | [] => none
  | run => some (run, cs.dropWhile Char.isDigit)

def sign : List Char → Option Char × List Char
  | '+' :: rest => (some '+', rest)
  | '-' :: rest => (some '-', rest)
  | rest => (none, rest)

/-- A decimal number without sign: one zero, or digits of which the first is none. -/
def whole : Reader (List Char)
  | '0' :: rest => some (['0'], rest)
  | cs => digits Char.isDigit cs

def integerItem (n : Int) : Option Item :=
  if -(Numeral.signedLimit : Int) ≤ n ∧ n < Numeral.signedLimit then some (.integer n) else none

/-- The value of digits in a base up to sixteen. -/
def valueIn (base : Nat) (ds : List Char) : Nat :=
  ds.foldl (fun n c => base * n + (Quoted.digitValue? c).getD 0) 0

def isDigitIn (base : Nat) (c : Char) : Bool :=
  match Quoted.digitValue? c with
  | some d => d < base
  | none => false

/-- A number in base two, eight or sixteen, after its two characters of introduction. -/
def based (base : Nat) (cs : List Char) : Option (Item × List Char) := do
  let (ds, rest) ← digits (isDigitIn base) cs
  let item ← integerItem (valueIn base ds)
  return (item, rest)

def fraction : List Char → Option (List Char × List Char)
  | '.' :: rest => digits Char.isDigit rest
  | _ => none

/-- An exponent: whether it is negative, and its digits. -/
def exponent : List Char → Option ((Bool × List Char) × List Char)
  | c :: rest =>
    if c = 'e' || c = 'E' then
      let (s, rest) := sign rest
      (digits Char.isDigit rest).map fun (ds, rest) => ((s = some '-', ds), rest)
    else none
  | [] => none

/-- The least number that is beyond the double precision range once it is rounded to nearest. -/
def overflowBound : Nat := Nat.pow 2 970 * (Nat.pow 2 54 - 1)

/-- Is the mantissa, times ten to the exponent, beyond the range? The number of digits settles all
but the narrow cases, so no power of a large exponent is computed. -/
def overflows (mantissa : Nat) (exponent : Int) : Bool :=
  let length : Int := (Nat.toDigits 10 mantissa).length
  if mantissa = 0 ∨ length + exponent < 309 then false
  else if length + exponent > 310 then true
  else if 0 ≤ exponent then overflowBound ≤ mantissa * Nat.pow 10 exponent.toNat
  else overflowBound * Nat.pow 10 (-exponent).toNat ≤ mantissa

/-- A number with a fraction, an exponent or both. A positive one must be in range. -/
def decimalItem (s : Option Char) (whole fraction : List Char) (e : Option (Bool × List Char)) :
    Option Item :=
  let shift : Int := match e with
    | some (negative, ds) => if negative then -(valueIn 10 ds : Int) else valueIn 10 ds
    | none => 0
  if s ≠ some '-' && overflows (valueIn 10 (whole ++ fraction)) (shift - fraction.length) then none
  else
    let shown := match e with
      | some (negative, ds) => 'e' :: (if negative then ['-'] else []) ++ ds
      | none => []
    some (.decimal
      (s.toList ++ whole ++ (if fraction.isEmpty then [] else '.' :: fraction) ++ shown))

def number (cs : List Char) : Option (Item × List Char) :=
  match cs with
  | '0' :: 'x' :: rest => based 16 rest
  | '0' :: 'o' :: rest => based 8 rest
  | '0' :: 'b' :: rest => based 2 rest
  | _ => do
    let (s, cs) := sign cs
    match cs with
    | 'i' :: 'n' :: 'f' :: rest => return (.decimal (s.toList ++ ['i', 'n', 'f']), rest)
    | 'n' :: 'a' :: 'n' :: rest => return (.decimal (s.toList ++ ['n', 'a', 'n']), rest)
    | _ =>
      let (ds, rest) ← whole cs
      match fraction rest, exponent rest with
      | some (fraction, rest), _ =>
        match exponent rest with
        | some (e, rest) => return (← decimalItem s ds fraction (some e), rest)
        | none => return (← decimalItem s ds fraction none, rest)
      | none, some (e, rest) => return (← decimalItem s ds [] (some e), rest)
      | none, none =>
        let n : Int := valueIn 10 ds
        return (← integerItem (if s = some '-' then -n else n), rest)

/-! ## Points in time -/

/-- Exactly two digits, with a value in a range. -/
def twoDigits (lo hi : Nat) : Reader Nat
  | a :: b :: rest =>
    let n := valueIn 10 [a, b]
    if a.isDigit && b.isDigit && lo ≤ n && n ≤ hi then some (n, rest) else none
  | _ => none

def expect (c : Char) : List Char → Option (List Char)
  | d :: rest => if d = c then some rest else none
  | [] => none

def daysOf (year month : Nat) : Nat :=
  if month = 2 then
    if year % 4 = 0 && (year % 100 ≠ 0 || year % 400 = 0) then 29 else 28
  else if [4, 6, 9, 11].contains month then 30
  else 31

/-- A day of the calendar. -/
def date : List Char → Option (List Char)
  | a :: b :: c :: d :: rest => do
    if [a, b, c, d].all Char.isDigit then
      let (month, rest) ← twoDigits 1 12 (← expect '-' rest)
      let (_, rest) ← twoDigits 1 (daysOf (valueIn 10 [a, b, c, d]) month) (← expect '-' rest)
      return rest
    else none
  | _ => none

/-- A time of day, with leap seconds and fractions of any length. -/
def timeOfDay (cs : List Char) : Option (List Char) := do
  let (_, cs) ← twoDigits 0 23 cs
  let (_, cs) ← twoDigits 0 59 (← expect ':' cs)
  let (_, cs) ← twoDigits 0 60 (← expect ':' cs)
  match cs with
  | '.' :: rest => return ((plainDigits rest).map (·.2)).getD cs
  | _ => return cs

/-- The distance to universal time. -/
def offset : List Char → Option (List Char)
  | c :: rest =>
    if c = 'Z' || c = 'z' then some rest
    else if c = '+' || c = '-' then do
      let (_, rest) ← twoDigits 0 23 rest
      let (_, rest) ← twoDigits 0 59 (← expect ':' rest)
      return rest
    else none
  | [] => none

/-- A date, a date with a time, or a time alone; only the middle one may have an offset. -/
def moment (cs : List Char) : Option (Item × List Char) := do
  let rest ← match date cs with
    | some rest =>
      match rest with
      | c :: more =>
        if c = 'T' || c = 't' || c = ' ' then
          match timeOfDay more with
          | some rest => some ((offset rest).getD rest)
          | none => some rest
        else some rest
      | [] => some rest
    | none => timeOfDay cs
  return (.moment (cs.take (cs.length - rest.length)), rest)

/-- A value that holds no other values. -/
def scalar (cs : List Char) : Option (Item × List Char) :=
  let text (r : Quoted.Result) := r.map fun (t, rest) => (Item.text (String.ofList t), rest)
  match cs with
  | '"' :: '"' :: '"' :: rest => text (Quoted.lines (Quoted.basicBody false) rest)
  | '"' :: rest => text (Quoted.basic rest)
  | '\'' :: '\'' :: '\'' :: rest => text (Quoted.lines Quoted.literalBody rest)
  | '\'' :: rest => text (Quoted.literal rest)
  | 't' :: 'r' :: 'u' :: 'e' :: rest => some (.boolean true, rest)
  | 'f' :: 'a' :: 'l' :: 's' :: 'e' :: rest => some (.boolean false, rest)
  | _ =>
    match moment cs with
    | some r => some r
    | none => number cs

end OnDemandFs.Toml
