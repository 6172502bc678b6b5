/-!
# Decimal numerals with bounds

A numeral is read with an optional sign and at least one ASCII digit, leading zeros allowed, and
nothing else; it is refused when its value leaves the range asked for. It is printed with no sign
but the minus of a negative value and no leading zero.
-/
namespace OnDemandFs.Numeral

/-- The least number that no signed integer of 64 bits reaches. -/
def signedLimit : Nat := 0x8000000000000000

/-- The least number that takes more than 64 bits. -/
def wordLimit : Nat := 0x10000000000000000

def isDigits (cs : List Char) : Bool := !cs.isEmpty && cs.all Char.isDigit

/-- The value of an unsigned run of digits. -/
def value? (cs : List Char) : Option Nat :=
  if isDigits cs then some (Nat.ofDigitChars 10 cs 0) else none

/-- A natural number of 64 bits; a plus sign may stand in front. -/
def natural? (cs : List Char) : Option UInt64 :=
  let digits := match cs with
    | '+' :: rest => rest
    | _ => cs
  match value? digits with
  | some n => if n < wordLimit then some (UInt64.ofNat n) else none
  | none => none

/-- An integer of 64 bits, two's complement; a plus or minus sign may stand in front. -/
def integer? (cs : List Char) : Option Int64 :=
  let (negative, digits) : Bool × List Char := match cs with
    | '+' :: rest => (false, rest)
    | '-' :: rest => (true, rest)
    | _ => (false, cs)
  match value? digits with
  | some n =>
    if negative then (if n ≤ signedLimit then some (Int64.ofInt (-(n : Int))) else none)
    else if n < signedLimit then some (Int64.ofInt n) else none
  | none => none

def ofNat (n : Nat) : List Char := Nat.toDigits 10 n

def ofInt : Int → List Char
  | .ofNat n => ofNat n
  | .negSucc n => '-' :: ofNat (n + 1)

end OnDemandFs.Numeral
